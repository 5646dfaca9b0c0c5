/-
  `OperationId`: the identity of one execution record.

  The constructor is private and every issuer passes a positive sequence, so the value
  carries that fact. Proved: `Parse` inverts `ToString`, hence `ToString` is injective.
-/
import WinCommander.Library.Numeral

namespace WinCommander.Operations

open Library

/-- `OperationId`, in canonical text `op-<positive-decimal-sequence>`. -/
structure OperationId where
  sequence : UInt64
  positive : sequence ≠ 0
deriving DecidableEq

namespace OperationId

theorem positive_one : (1 : UInt64) ≠ 0 := by decide

/-- `OperationId::Parse`. -/
def parse (serialized : Bytes) : Option OperationId :=
  match serialized with
  | 0x6F :: 0x70 :: 0x2D :: first :: rest =>
    if first = 0x30 then none
    else
      match fromChars (first :: rest) with
      | some (sequence, []) => if h : sequence = 0 then none else some ⟨sequence, h⟩
      | _ => none
  | _ => none

/-- `OperationId::ToString`. -/
def toString (id : OperationId) : Bytes := ascii "op-" ++ decimal id.sequence.toNat

theorem sequence_toNat_ne_zero (id : OperationId) : id.sequence.toNat ≠ 0 := by
  intro h
  exact id.positive (UInt64.toNat_inj.mp (h.trans UInt64.toNat_zero.symm))

@[simp] theorem parse_toString (id : OperationId) : parse id.toString = some id := by
  obtain ⟨b, bs, hd, hb⟩ := decimal_head id.sequence.toNat id.sequence_toNat_ne_zero
  have hf := fromChars_decimal id.sequence [] (by simp)
  rw [List.append_nil, hd] at hf
  have htext : id.toString = 0x6F :: 0x70 :: 0x2D :: b :: bs := by
    rw [toString, hd]
    rfl
  rw [htext]
  simp [parse, if_neg hb, hf, dif_neg id.positive]

end OperationId

end WinCommander.Operations
