/-
  Scalar values, their UTF-8 and UTF-16 encodings, and what bits that are put together are worth.
-/
import WinCommander.Library.Numeral

namespace WinCommander.Library

open UInt16 Bool

def IsScalar (v : Nat) : Prop := v < 0xD800 ∨ 0xE000 ≤ v ∧ v < 0x110000

instance (v : Nat) : Decidable (IsScalar v) := inferInstanceAs (Decidable (_ ∨ _))

/-- The last six bits of a number, in a byte that continues a sequence. -/
def continuation (v : Nat) : UInt8 := UInt8.ofNat (0x80 + v % 64)

def utf8 (v : Nat) : Bytes :=
  if v < 0x80 then [UInt8.ofNat v]
  else if v < 0x800 then [UInt8.ofNat (0xC0 + v / 64), continuation v]
  else if v < 0x10000 then [UInt8.ofNat (0xE0 + v / 4096), continuation (v / 64), continuation v]
  else [UInt8.ofNat (0xF0 + v / 262144), continuation (v / 4096), continuation (v / 64),
    continuation v]

def utf16 (v : Nat) : List UInt16 :=
  if v < 0x10000 then [UInt16.ofNat v]
  else [UInt16.ofNat (0xD800 + (v - 0x10000) / 1024), UInt16.ofNat (0xDC00 + (v - 0x10000) % 1024)]

def isLead (unit : UInt16) : Bool := 0xD800 ≤ unit && unit < 0xDC00

def isTrail (unit : UInt16) : Bool := 0xDC00 ≤ unit && unit < 0xE000

def isSurrogate (unit : UInt16) : Bool := 0xD800 ≤ unit && unit < 0xE000

/-- Each surrogate is part of a pair. -/
inductive Paired : List UInt16 → Prop where
  | nil : Paired []
  | plain {unit : UInt16} {rest : List UInt16} :
      isSurrogate unit = false → Paired rest → Paired (unit :: rest)
  | pair {lead trail : UInt16} {rest : List UInt16} :
      isLead lead = true → isTrail trail = true → Paired rest → Paired (lead :: trail :: rest)

theorem Paired.append (h : Paired units) (h' : Paired units') : Paired (units ++ units') := by
  induction h with
  | nil => exact h'
  | plain hunit _ ih => exact .plain hunit ih
  | pair hlead htrail _ ih => exact .pair hlead htrail ih

theorem Paired.flatMap {xs : List α} (h : ∀ x ∈ xs, Paired (f x)) : Paired (xs.flatMap f) := by
  induction xs with
  | nil => exact .nil
  | cons x xs ih =>
    obtain ⟨hfirst, hrest⟩ := List.forall_mem_cons.mp h
    exact hfirst.append (ih hrest)

theorem isSurrogate_ofNat (hv : v < 2 ^ 16) :
    isSurrogate (UInt16.ofNat v) = true ↔ 0xD800 ≤ v ∧ v < 0xE000 := by
  unfold isSurrogate
  rw [and_eq_true, decide_eq_true_eq, decide_eq_true_eq, le_iff_toNat_le,
    lt_iff_toNat_lt, toNat_ofNat_of_lt' hv]
  rfl

theorem paired_utf16 (hv : IsScalar v) : Paired (utf16 v) := by
  unfold IsScalar at hv
  unfold utf16
  split_ifs
  · refine .plain (eq_false_iff.mpr fun h => ?_) .nil
    have hrange := (isSurrogate_ofNat (by omega)).mp h
    omega
  · refine .pair ?_ ?_ .nil
    · unfold isLead
      rw [and_eq_true, decide_eq_true_eq, decide_eq_true_eq, le_iff_toNat_le,
        lt_iff_toNat_lt, toNat_ofNat_of_lt' (by unfold UInt16.size; omega)]
      exact ⟨Nat.le_add_right _ _, by
        show 0xD800 + (v - 0x10000) / 1024 < 0xDC00
        omega⟩
    · unfold isTrail
      rw [and_eq_true, decide_eq_true_eq, decide_eq_true_eq, le_iff_toNat_le,
        lt_iff_toNat_lt, toNat_ofNat_of_lt' (by unfold UInt16.size; omega)]
      exact ⟨Nat.le_add_right _ _, by
        show 0xDC00 + (v - 0x10000) % 1024 < 0xE000
        omega⟩

/-- Bits below others that were shifted. -/
theorem shift_or (high : Nat) (hlow : low < 2 ^ k) : high <<< k ||| low = high * 2 ^ k + low := by
  rw [← Nat.shiftLeft_add_eq_or_of_lt hlow, Nat.shiftLeft_eq]

end WinCommander.Library
