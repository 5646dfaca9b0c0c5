/-
  What the plan codec and the journal codec do alike: the members of an object, the token
  of an enumeration, the integer checks of a JSON number, and time points in nanoseconds.

  Both codecs have their own copy of each with their own error codes, which are the
  parameters here. Proved: members written in order are read back in order
  (`jsonMembers_zip`), and both conversions of a time point say that a tick is a thousand
  nanoseconds (`epochNanoseconds_ok`, `timePoint_ok`), so each undoes the other.
-/
import WinCommander.Library.Json
import WinCommander.Operations.OperationPlan

namespace WinCommander.Operations

open Library List

variable {ε α : Type}

/-! ## Numbers -/

/-- rapidjson's `IsUint`, with `GetUint`. -/
def asUint : Json → Option Nat
  | .int i => if 0 ≤ i ∧ i < 2 ^ 32 then some i.toNat else none
  | _ => none

/-- `IsUint64`, with `GetUint64`. -/
def asUint64 : Json → Option UInt64
  | .int i => if 0 ≤ i ∧ i < 2 ^ 64 then some i.toNat.toUInt64 else none
  | _ => none

/-- `IsInt`, with `GetInt`. -/
def asInt : Json → Option Int32
  | .int i => if -2 ^ 31 ≤ i ∧ i < 2 ^ 31 then some (Int32.ofInt i) else none
  | _ => none

/-- `IsInt64`, with `GetInt64`. -/
def asInt64 : Json → Option Int64
  | .int i => if -2 ^ 63 ≤ i ∧ i < 2 ^ 63 then some (Int64.ofInt i) else none
  | _ => none

def isNumber : Json → Bool
  | .int _ => true
  | .double _ => true
  | _ => false

@[simp] theorem asUint64_toNat (n : UInt64) : asUint64 (.int n.toNat) = some n := by
  have h : (n.toNat : Int) < 2 ^ 64 := by
    have := n.toNat_lt
    omega
  rw [asUint64, if_pos ⟨Int.natCast_nonneg _, h⟩]
  simp

@[simp] theorem asInt_toInt (n : Int32) : asInt (.int n.toInt) = some n := by
  have hl := n.le_toInt
  have hu := n.toInt_lt
  simp only [asInt]
  rw [if_pos ⟨hl, hu⟩, Int32.ofInt_toInt]

@[simp] theorem asInt64_toInt (n : Int64) : asInt64 (.int n.toInt) = some n := by
  have hl := n.le_toInt
  have hu := n.toInt_lt
  simp only [asInt64]
  rw [if_pos ⟨hl, hu⟩, Int64.ofInt_toInt]

/-! ## Members of an object -/

/-- The loop over the members: each goes to the slot of its name. -/
def fillSlots (unexpected duplicate : ε) (names : List Bytes) :
    List (Option Json) → List (Bytes × Json) → Except ε (List (Option Json))
  | slots, [] => .ok slots
  | slots, (name, value) :: rest => do
      let index ← demand (names.idxOf? name) unexpected
      refuse ((slots.getD index none).isSome) duplicate
      fillSlots unexpected duplicate names (slots.set index (some value)) rest

/-- `OperationPlanCodecMembers` and `OperationJournalMembers`: the values of exactly the
    given members, in the order of `names`. -/
def jsonMembers (notObject unexpected duplicate missing : ε) (names : List Bytes) (value : Json) :
    Except ε (List Json) :=
  match value with
  | .obj members => do
      let slots ← fillSlots unexpected duplicate names (names.map fun _ => none) members
      Library.traverse (fun slot => demand slot missing) slots
  | _ => .error notObject

theorem idxOf?_append (front : List Bytes) (name : Bytes) (back : List Bytes)
    (h : name ∉ front) : (front ++ name :: back).idxOf? name = some front.length := by
  induction front with
  | nil => simp [List.idxOf?_cons]
  | cons other front ih =>
    obtain ⟨hne, hnot⟩ := ne_and_not_mem_of_not_mem_cons h
    rw [cons_append, List.idxOf?_cons, ih hnot]
    simp [Ne.symm hne]

theorem fillSlots_zip (unexpected duplicate : ε) (front back : List Bytes) (done values : List Json)
    (hnd : (front ++ back).Nodup) (hd : done.length = front.length)
    (hv : values.length = back.length) : fillSlots unexpected duplicate (front ++ back)
      (done.map some ++ back.map fun _ => none) (back.zip values) = .ok ((done ++ values).map some) := by
  induction back generalizing front done values with
  | nil =>
    obtain rfl := length_eq_zero_iff.mp hv
    simp [fillSlots]
  | cons name back ih =>
    obtain ⟨value, values, rfl⟩ := exists_cons_of_length_eq_add_one hv
    have hnot : name ∉ front := fun hin =>
      (nodup_append.mp hnd).2.2 name hin name mem_cons_self rfl
    have hstep := ih (front ++ [name]) (done ++ [value]) values (by simpa using hnd)
      (by simp [hd]) (by simpa using hv)
    have hset : (done.map some ++ (name :: back).map fun _ => none).set front.length (some value) =
        (done ++ [value]).map some ++ back.map fun _ => none := by
      simp [hd]
    rw [zip_cons_cons, fillSlots, idxOf?_append front name back hnot, demand_some, ok_bind,
      refuse_of_not _ (by simp [hd]), ok_bind, hset]
    simpa using hstep

/-- Members in the order of their names are read back in that order. -/
theorem jsonMembers_zip (notObject unexpected duplicate missing : ε) (names : List Bytes)
    (values : List Json) (hnd : names.Nodup) (hlen : values.length = names.length) :
    jsonMembers notObject unexpected duplicate missing names (.obj (names.zip values)) =
      .ok values := by
  have hfill := fillSlots_zip unexpected duplicate [] names [] values hnd rfl hlen
  simp only [map_nil, nil_append] at hfill
  rw [jsonMembers, hfill, ok_bind, traverse_ok _ (fun slot => slot.getD .null)]
  · rw [map_map]
    exact congrArg Except.ok (map_id values)
  · intro slot hslot
    obtain ⟨value, -, rfl⟩ := mem_map.mp hslot
    rfl

/-! ## Tokens -/

/-- `OperationPlanCodecParseEnum` and `OperationJournalParseToken`. -/
def parseToken (notString unknown : ε) (tokens : List (Bytes × α)) (value : Json) : Except ε α :=
  match value with
  | .str token => demand (tokens.lookup token) unknown
  | _ => .error notString

theorem lookup_eq_some (tokens : List (Bytes × α)) (hnd : (tokens.map Prod.fst).Nodup)
    (token : Bytes) (a : α) : tokens.lookup token = some a ↔ (token, a) ∈ tokens := by
  induction tokens with
  | nil => simp
  | cons entry rest ih =>
    obtain ⟨name, b⟩ := entry
    obtain ⟨hfresh, hrest⟩ := nodup_cons.mp hnd
    by_cases h : token = name
    · subst h
      have hnot : (token, a) ∉ rest := fun hin => hfresh (mem_map.mpr ⟨_, hin, rfl⟩)
      simp [hnot, eq_comm]
    · simp [lookup_cons, h, ih hrest, beq_false_of_ne h]

/-- A token is accepted exactly when the table lists it. -/
theorem parseToken_ok (hnd : (tokens.map Prod.fst).Nodup) :
    parseToken notString unknown tokens value = .ok a ↔
      ∃ token, value = .str token ∧ (token, a) ∈ tokens := by
  cases value with
  | str token => simp [parseToken, lookup_eq_some tokens hnd]
  | _ => simp [parseToken]

theorem ascii_of_parseToken (h : parseToken notString unknown tokens (.str token) = .ok a)
    (hascii : ∀ entry ∈ tokens, Json.Ascii entry.1) : Json.Ascii token := by
  have hmem : tokens.lookup token = some a := demand_ok_iff.mp h
  obtain ⟨l₁, l₂, rfl, -⟩ := lookup_eq_some_iff.mp hmem
  exact hascii (token, a) (by simp)

/-! ## Time points -/

/-- `Clock::duration::period`: microseconds. -/
def periodNum : Int := 1
def periodDen : Int := 1000000

/-- `OperationPlanCodecEpochNanoseconds` and `OperationJournalEpochNanoseconds`. -/
def epochNanoseconds (notRepresentable outOfRange : ε) (time : TimePoint) : Except ε Int64 := do
  let ticks := time.toInt
  let numerator := ticks * periodNum * 1000000000
  refuse (numerator.tmod periodDen ≠ 0) notRepresentable
  let nanoseconds := numerator.tdiv periodDen
  refuse (nanoseconds < Int64.minValue.toInt ∨ nanoseconds > Int64.maxValue.toInt) outOfRange
  return Int64.ofInt nanoseconds

/-- `OperationPlanCodecTimePoint` and `OperationJournalTimePoint`. -/
def timePoint (notRepresentable outOfRange : ε) (nanoseconds : Int64) : Except ε TimePoint := do
  let numerator := nanoseconds.toInt * periodDen
  let denominator := periodNum * 1000000000
  refuse (numerator.tmod denominator ≠ 0) notRepresentable
  let ticks := numerator.tdiv denominator
  refuse (ticks < Int64.minValue.toInt ∨ ticks > Int64.maxValue.toInt) outOfRange
  return Int64.ofInt ticks

/-- A microsecond tick is a thousand nanoseconds. -/
theorem epochNanoseconds_ok : epochNanoseconds r o time = .ok n ↔ n.toInt = time.toInt * 1000 := by
  have hscale : time.toInt * periodNum * 1000000000 = time.toInt * 1000 * periodDen := by
    simp only [periodNum, periodDen]
    omega
  have hden : periodDen ≠ 0 := by decide
  have hmin : Int64.minValue.toInt = -2 ^ 63 := by decide
  have hmax : Int64.maxValue.toInt = 2 ^ 63 - 1 := by decide
  have hl := n.le_toInt
  have hu := n.toInt_lt
  simp only [epochNanoseconds, seq_ok_iff, refuse_ok_iff, not_not, not_or, hscale,
    Int.mul_tmod_left, Int.mul_tdiv_cancel _ hden, hmin, hmax, pure_ok, Except.ok.injEq, true_and]
  constructor
  · rintro ⟨⟨h1, h2⟩, rfl⟩
    exact Int64.toInt_ofInt_of_le (by omega) (by omega)
  · intro h
    rw [← h]
    exact ⟨⟨by omega, by omega⟩, Int64.ofInt_toInt n⟩

theorem timePoint_ok : timePoint r o n = .ok time ↔ n.toInt = time.toInt * 1000 := by
  have hden : periodNum * 1000000000 ≠ 0 := by decide
  have hmin : Int64.minValue.toInt = -2 ^ 63 := by decide
  have hmax : Int64.maxValue.toInt = 2 ^ 63 - 1 := by decide
  have hl := n.le_toInt
  have hu := n.toInt_lt
  simp only [timePoint, seq_ok_iff, refuse_ok_iff, not_not, not_or, hmin, hmax, pure_ok,
    Except.ok.injEq]
  constructor
  · rintro ⟨hmod, ⟨h1, h2⟩, rfl⟩
    obtain ⟨k, hk⟩ := Int.dvd_of_tmod_eq_zero hmod
    rw [hk, Int.mul_tdiv_cancel_left _ hden] at h1 h2 ⊢
    rw [Int64.toInt_ofInt_of_le (by omega) (by omega)]
    simp only [periodNum, periodDen] at hk
    omega
  · intro h
    have hscale : n.toInt * periodDen = time.toInt * (periodNum * 1000000000) := by
      simp only [periodNum, periodDen]
      omega
    rw [hscale, Int.mul_tmod_left, Int.mul_tdiv_cancel _ hden]
    exact ⟨rfl, ⟨by omega, by omega⟩, Int64.ofInt_toInt time⟩

end WinCommander.Operations
