/-
  Byte strings and decimal numerals.

  A `std::string` is the list of its bytes. `decimal n` is what `std::to_string` and
  `printf("%llu")` write for `n`; `decimalValue` is the value a left-to-right scan
  accumulates. Proved: the scan of `decimal n` is `n`, every byte is a digit, the first
  one is not `0` unless `n` is, and the length is bounded by the number of digits.
  `fromChars` is `std::from_chars` for `uint64_t`, and inverts `decimal` up to `2^64`.
-/
import Mathlib

namespace WinCommander.Library

open List Nat

/-- The bytes of a `std::string`. -/
abbrev Bytes := List UInt8

/-- An ASCII literal. -/
def ascii (s : String) : Bytes := s.toList.map fun c => c.toNat.toUInt8

/-- `'0'..'9'`. -/
def isDigitByte (b : UInt8) : Bool := 48 ≤ b && b ≤ 57

/-- The decimal numeral of `n`, most significant digit first. -/
def decimal (n : Nat) : Bytes := (Nat.toDigits 10 n).map fun c => c.toNat.toUInt8

/-- The value of a run of digits read left to right, starting from `acc`. -/
def decimalValue (acc : Nat) (bs : Bytes) : Nat :=
  bs.foldl (fun sofar b => 10 * sofar + (b.toNat - 48)) acc

@[simp] theorem decimalValue_nil (acc : Nat) : decimalValue acc [] = acc := rfl

@[simp] theorem decimalValue_cons (acc : Nat) (b : UInt8) (bs : Bytes) :
    decimalValue acc (b :: bs) = decimalValue (10 * acc + (b.toNat - 48)) bs := by
  simp [decimalValue]

theorem decimalValue_append (acc : Nat) (xs ys : Bytes) :
    decimalValue acc (xs ++ ys) = decimalValue (decimalValue acc xs) ys := by
  simp [decimalValue]

theorem decimalValue_mono (bs : Bytes) (acc : Nat) : acc ≤ decimalValue acc bs := by
  induction bs generalizing acc with
  | nil => exact Nat.le_refl _
  | cons b bs ih =>
    have := ih (10 * acc + (b.toNat - 48))
    rw [decimalValue_cons]
    omega

theorem decimal_of_lt (h : n < 10) : decimal n = [(48 + n).toUInt8] := by
  unfold decimal
  rw [toDigits_of_lt_base h, map_cons, map_nil, toNat_digitChar_of_lt_ten h]

theorem decimal_of_le {n : Nat} (h : 10 ≤ n) :
    decimal n = decimal (n / 10) ++ [(48 + n % 10).toUInt8] := by
  unfold decimal
  rw [toDigits_of_base_le (by decide) h, map_append, map_cons, map_nil,
    toNat_digitChar_of_lt_ten (mod_lt _ (by decide))]

theorem toNat_digit (h : d < 10) : ((48 + d).toUInt8).toNat = 48 + d := by
  have : 48 + d < 256 := by omega
  simpa using mod_eq_of_lt this

theorem isDigitByte_iff (b : UInt8) : isDigitByte b ↔ 48 ≤ b.toNat ∧ b.toNat ≤ 57 := by
  simp [isDigitByte, UInt8.le_iff_toNat_le]

theorem isDigitByte_digit (h : d < 10) : isDigitByte ((48 + d).toUInt8) := by
  rw [isDigitByte_iff, toNat_digit h]
  omega

@[simp] theorem decimalValue_decimal (n : Nat) : decimalValue 0 (decimal n) = n := by
  induction n using Nat.strong_induction_on with
  | _ n ih =>
    by_cases h : n < 10
    · rw [decimal_of_lt h, decimalValue_cons, decimalValue_nil, toNat_digit h]
      omega
    · have hm : n % 10 < 10 := mod_lt _ (by decide)
      rw [decimal_of_le (by omega), decimalValue_append, ih (n / 10) (by omega),
        decimalValue_cons, decimalValue_nil, toNat_digit hm]
      omega

theorem decimal_isDigit (n : Nat) : ∀ b ∈ decimal n, isDigitByte b := by
  induction n using Nat.strong_induction_on with
  | _ n ih =>
    intro b hb
    by_cases h : n < 10
    · rw [decimal_of_lt h, mem_singleton] at hb
      rw [hb]
      exact isDigitByte_digit h
    · rw [decimal_of_le (by omega), mem_append, mem_singleton] at hb
      rcases hb with hb | hb
      · exact ih (n / 10) (by omega) b hb
      · rw [hb]
        exact isDigitByte_digit (mod_lt _ (by decide))

theorem decimal_ne_nil (n : Nat) : decimal n ≠ [] := by
  simp [decimal]

theorem decimal_length_pos (n : Nat) : 0 < (decimal n).length :=
  length_pos_iff.mpr (decimal_ne_nil n)

theorem decimal_length_le (hk : 0 < k) (h : n < 10 ^ k) : (decimal n).length ≤ k := by
  simpa [decimal] using (length_toDigits_le_iff (by decide) hk).mpr h

/-- A numeral starts with `0` only when it is the numeral of zero. -/
theorem decimal_head (n : Nat) (hn : n ≠ 0) : ∃ b bs, decimal n = b :: bs ∧ b ≠ 48 := by
  induction n using Nat.strong_induction_on with
  | _ n ih =>
    by_cases h : n < 10
    · refine ⟨_, [], decimal_of_lt h, fun he => ?_⟩
      have := congrArg UInt8.toNat he
      rw [toNat_digit h] at this
      have : (48 : UInt8).toNat = 48 := rfl
      omega
    · obtain ⟨b, bs, he, hb⟩ := ih (n / 10) (by omega) (by omega)
      exact ⟨b, bs ++ [(48 + n % 10).toUInt8], by rw [decimal_of_le (by omega), he]; rfl, hb⟩

/-- Splitting off the leading digits of a numeral that a non-digit follows. -/
theorem span_decimal (n : Nat) (rest : Bytes) (hr : ∀ b ∈ rest.head?, isDigitByte b = false) :
    (decimal n ++ rest).span isDigitByte = (decimal n, rest) := by
  rw [span_eq_takeWhile_dropWhile,
    takeWhile_append_of_pos (decimal_isDigit n), dropWhile_append_of_pos (decimal_isDigit n)]
  cases rest with
  | nil => simp
  | cons b bs => simp [hr b (by simp)]

/-- `std::from_chars` into a `uint64_t`: the value of the longest run of leading digits and
    what follows it; nothing when there is no digit or the value does not fit. -/
def fromChars (text : Bytes) : Option (UInt64 × Bytes) :=
  match text.span isDigitByte with
  | ([], _) => none
  | (digits, rest) =>
    if decimalValue 0 digits < 2 ^ 64 then some ((decimalValue 0 digits).toUInt64, rest) else none

theorem fromChars_decimal (n : UInt64) (rest : Bytes)
    (hr : ∀ b ∈ rest.head?, isDigitByte b = false) :
    fromChars (decimal n.toNat ++ rest) = some (n, rest) := by
  unfold fromChars
  rw [span_decimal n.toNat rest hr]
  cases hd : decimal n.toNat with
  | nil => exact absurd hd (decimal_ne_nil _)
  | cons b bs =>
    have hn : n.toNat < 2 ^ 64 := n.toNat_lt
    simp only [← hd, decimalValue_decimal, hn, if_true]
    simp

end WinCommander.Library
