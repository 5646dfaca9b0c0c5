/-
  Bytes that are read at offsets of 64 bits, and numbers that are stored with the highest byte first.

  A sum or a product of offsets wraps around; a range of bytes is read only if all of them are there.
-/
import WinCommander.Library.Numeral

namespace WinCommander.Library

open List Option

/-- What 64 bits keep of a number. -/
def wrap (n : Nat) : Nat := n % 2 ^ 64

theorem wrap_of_lt (h : n < 2 ^ 64) : wrap n = n := Nat.mod_eq_of_lt h

/-- Once around. -/
theorem wrap_of_le (h : 2 ^ 64 ≤ n) (hlt : n < 2 ^ 65) : wrap n = n - 2 ^ 64 := by
  unfold wrap
  omega

/-- All bytes of a range; there is nothing to read in an empty one. -/
def readRange (bytes : Bytes) (offset length : Nat) : Option Bytes :=
  if length = 0 then some []
  else if offset + length ≤ bytes.length then some ((bytes.drop offset).take length)
  else none

theorem readRange_isSome_iff (bytes : Bytes) (offset length : Nat) :
    (readRange bytes offset length).isSome = true ↔ length = 0 ∨ offset + length ≤ bytes.length := by
  unfold readRange
  by_cases hempty : length = 0
  · rw [if_pos hempty]
    exact iff_of_true rfl (.inl hempty)
  · rw [if_neg hempty, or_iff_right hempty]
    split_ifs with hinside
    · exact iff_of_true rfl hinside
    · exact iff_of_false Bool.false_ne_true hinside

theorem readRange_length {bytes range : Bytes} {offset length : Nat}
    (h : readRange bytes offset length = some range) : range.length = length := by
  unfold readRange at h
  by_cases hempty : length = 0
  · rw [if_pos hempty] at h
    rw [← some.inj h, hempty]
    rfl
  · rw [if_neg hempty] at h
    by_cases hinside : offset + length ≤ bytes.length
    · rw [if_pos hinside] at h
      rw [← some.inj h, length_take, length_drop]
      omega
    · rw [if_neg hinside] at h
      cases h

/-- A part of what was read. -/
theorem readRange_part {bytes range : Bytes} {offset length start count : Nat}
    (h : readRange bytes offset length = some range) (hpart : start + count ≤ length) :
    readRange bytes (offset + start) count = some ((range.drop start).take count) := by
  unfold readRange at h ⊢
  by_cases hnone : count = 0
  · rw [if_pos hnone, hnone, take_zero]
  · rw [if_neg (by omega)] at h
    by_cases hinside : offset + length ≤ bytes.length
    · rw [if_pos hinside] at h
      rw [if_neg hnone, if_pos (by omega), ← some.inj h, drop_take, drop_drop,
        take_take, Nat.min_eq_left (by omega)]
    · rw [if_neg hinside] at h
      cases h

/-- What was put between others is read there. -/
theorem readRange_append (before middle after : Bytes) :
    readRange (before ++ (middle ++ after)) before.length middle.length = some middle := by
  unfold readRange
  by_cases hempty : middle.length = 0
  · rw [if_pos hempty, eq_nil_of_length_eq_zero hempty]
  · have hinside : before.length + middle.length ≤ (before ++ (middle ++ after)).length := by
      rw [length_append, length_append]
      omega
    rw [if_neg hempty, if_pos hinside, drop_left, take_left]

/-- The number whose highest byte comes first. -/
def bigEndian (bytes : Bytes) : Nat := bytes.foldl (fun value byte => 256 * value + byte.toNat) 0

theorem bigEndian_append_singleton (bytes : Bytes) (byte : UInt8) :
    bigEndian (bytes ++ [byte]) = 256 * bigEndian bytes + byte.toNat := by
  unfold bigEndian
  rw [foldl_append]
  rfl

theorem bigEndian_lt (bytes : Bytes) : bigEndian bytes < 256 ^ bytes.length := by
  induction bytes using List.reverseRecOn with
  | nil => exact Nat.zero_lt_one
  | append_singleton bytes byte ih =>
    have hbyte := byte.toNat_lt
    rw [bigEndian_append_singleton, length_append, length_singleton, Nat.pow_succ]
    omega

/-- So many bytes of a number. -/
def bigEndianBytes : Nat → Nat → Bytes
  | 0, _ => []
  | count + 1, n => bigEndianBytes count (n / 256) ++ [UInt8.ofNat n]

theorem length_bigEndianBytes (count n : Nat) : (bigEndianBytes count n).length = count := by
  induction count generalizing n with
  | zero => rfl
  | succ count ih =>
    show (bigEndianBytes count (n / 256) ++ [UInt8.ofNat n]).length = count + 1
    rw [length_append, ih, length_singleton]

theorem bigEndian_bigEndianBytes {count n : Nat} (h : n < 256 ^ count) :
    bigEndian (bigEndianBytes count n) = n := by
  induction count generalizing n with
  | zero =>
    obtain rfl : n = 0 := Nat.lt_one_iff.mp h
    rfl
  | succ count ih =>
    rw [Nat.pow_succ] at h
    have hrest : n / 256 < 256 ^ count := (Nat.div_lt_iff_lt_mul (by decide)).mpr h
    show bigEndian (bigEndianBytes count (n / 256) ++ [UInt8.ofNat n]) = n
    rw [bigEndian_append_singleton, ih hrest, UInt8.toNat_ofNat']
    omega

end WinCommander.Library
