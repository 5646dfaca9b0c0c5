/-
  `InterpretUTF8BufferAsIndexedUTF16`: UTF-16 for the viewer, with the place of each unit.

  The output buffers are lists that grow; a pointer into the input is what is left of it, with its
  offset. `scanned` is how the input is taken apart, and `interpret_eq` says that the units and
  indexes are those of its sequences. What they hold is right exactly if each sequence is sound
  and starts below 2^32 (`wellIndexed_iff`).
-/
import WinCommander.Library.Unicode

namespace WinCommander.Utility

open Library List Nat UInt8 Option

/-! ## The code -/

/-- The size of a symbol in bytes, by its first one. -/
def symbolSize (current : UInt8) : Option Nat :=
  if current &&& 0x80 = 0 then some 1
  else if current &&& 0xE0 = 0xC0 then some 2
  else if current &&& 0xF0 = 0xE0 then some 3
  else if current &&& 0xF8 = 0xF0 then some 4
  else none

inductive Validation where
  | complete
  | unexpectedEnd (bytes : Nat)
  | malformed
deriving DecidableEq

/-- The loop over the bytes after the first one: how many there should be, and where it is. -/
def validate : Nat → Nat → Bytes → Validation
  | 0, _, _ => .complete
  | _ + 1, i, [] => .unexpectedEnd i
  | left + 1, i, current :: rest =>
    if current &&& 0xC0 ≠ 0x80 then .malformed else validate left (i + 1) rest

/-- What a valid sequence makes. -/
def sequenceUnits (badSymb : UInt16) : Bytes → List UInt16
  | [high, low] => [((high &&& 0x1F).toUInt16 <<< 6) ||| (low &&& 0x3F).toUInt16]
  | [_1, _2, _3] =>
    [((_1 &&& 0xF).toUInt16 <<< 12) ||| ((_2 &&& 0x3F).toUInt16 <<< 6) ||| (_3 &&& 0x3F).toUInt16]
  | [_1, _2, _3, _4] =>
    let out : UInt32 := ((_1 &&& 0x07).toUInt32 <<< 18) ||| ((_2 &&& 0x3F).toUInt32 <<< 12) |||
      ((_3 &&& 0x3F).toUInt32 <<< 6) ||| (_4 &&& 0x3F).toUInt32
    if out < 0x10000 ∨ out ≥ 0x30000 ∧ out < 0xE0000 then [badSymb]
    else [((0xD800 : UInt32) + ((out - 0x10000) >>> 10)).toUInt16,
      ((0xDC00 : UInt32) + ((out - 0x10000) &&& 0x3FF)).toUInt16]
  | _ => []

structure Interpreted where
  output : List UInt16 := []
  indexes : List UInt32 := []
  total : Nat := 0
deriving DecidableEq

def Interpreted.put (interpreted : Interpreted) (unit : UInt16) (offset : Nat) : Interpreted where
  output := interpreted.output ++ [unit]
  indexes := interpreted.indexes ++ [UInt32.ofNat offset]
  total := interpreted.total + 1

/-- Bytes before the end of the buffer, each for itself. -/
def fillBad (badSymb : UInt16) : Nat → Nat → Interpreted → Interpreted
  | 0, _, interpreted => interpreted
  | bytes + 1, offset, interpreted =>
    fillBad badSymb bytes (offset + 1) (interpreted.put badSymb offset)

/-- What begins with the first byte of a sequence of `sz` bytes. -/
def interpretSequence (badSymb : UInt16) (offset sz : Nat) (current : UInt8) (rest : Bytes)
    (interpreted : Interpreted) : Interpreted × Nat :=
  match validate (sz - 1) 1 rest with
  | .unexpectedEnd bytes => (fillBad badSymb bytes offset interpreted, bytes)
  | .malformed => (interpreted.put badSymb offset, 1)
  | .complete =>
    ((sequenceUnits badSymb ((current :: rest).take sz)).foldl (·.put · offset) interpreted, sz)

/-- One round of the loop on what is not empty: what was written, and how many bytes were eaten. -/
def interpretNext (badSymb : UInt16) (offset : Nat) (current : UInt8) (rest : Bytes)
    (interpreted : Interpreted) : Interpreted × Nat :=
  match symbolSize current with
  | none => (interpreted.put badSymb offset, 1)
  | some 1 => (interpreted.put current.toUInt16 offset, 1)
  | some sz => interpretSequence badSymb offset sz current rest interpreted

/-- The loop; each round eats a byte at least. -/
def interpretLoop (badSymb : UInt16) : Nat → Nat → Bytes → Interpreted → Interpreted
  | 0, _, _, interpreted => interpreted
  | _, _, [], interpreted => interpreted
  | rounds + 1, offset, current :: rest, interpreted =>
    let (interpreted, eaten) := interpretNext badSymb offset current rest interpreted
    interpretLoop badSymb rounds (offset + eaten) ((current :: rest).drop eaten) interpreted

def interpretUTF8BufferAsIndexedUTF16 (badSymb : UInt16) (input : Bytes) : Interpreted :=
  interpretLoop badSymb input.length 0 input {}

/-! ## What is asked for -/

def scanSequence (sz : Nat) (current : UInt8) (rest : Bytes) : List Bytes :=
  match validate (sz - 1) 1 rest with
  | .unexpectedEnd bytes => ((current :: rest).take bytes).map fun byte => [byte]
  | .malformed => [[current]]
  | .complete => [(current :: rest).take sz]

/-- The sequences that one round takes. -/
def scanNext (current : UInt8) (rest : Bytes) : List Bytes :=
  match symbolSize current with
  | none | some 1 => [[current]]
  | some sz => scanSequence sz current rest

def scan : Nat → Bytes → List Bytes
  | 0, _ => []
  | _, [] => []
  | rounds + 1, current :: rest =>
    let sequences := scanNext current rest
    sequences ++ scan rounds ((current :: rest).drop sequences.flatten.length)

/-- The sequences that the input is taken for. -/
def scanned (input : Bytes) : List Bytes := scan input.length input

/-- What is made of a sequence: a byte for itself is a character or bad. -/
def unitsOf (badSymb : UInt16) : Bytes → List UInt16
  | [byte] => if byte &&& 0x80 = 0 then [byte.toUInt16] else [badSymb]
  | bytes => sequenceUnits badSymb bytes

/-- Where sequences start, after an offset. -/
def starts (offset : Nat) : List Bytes → List Nat
  | [] => []
  | bytes :: rest => offset :: starts (offset + bytes.length) rest

/-- Where the sequence of each unit starts. -/
def unitStarts (badSymb : UInt16) (offset : Nat) : List Bytes → List Nat
  | [] => []
  | bytes :: rest =>
    List.replicate (unitsOf badSymb bytes).length offset ++
      unitStarts badSymb (offset + bytes.length) rest

/-- A sequence that is not reported as bad is the encoding of the scalar value that is reported. -/
def Reports (badSymb : UInt16) (bytes : Bytes) : Prop :=
  unitsOf badSymb bytes = [badSymb] ∨
    ∃ v, IsScalar v ∧ bytes = utf8 v ∧ unitsOf badSymb bytes = utf16 v

structure WellIndexed (badSymb : UInt16) (input : Bytes) : Prop where
  size : (interpretUTF8BufferAsIndexedUTF16 badSymb input).total =
    (interpretUTF8BufferAsIndexedUTF16 badSymb input).output.length
  short : (interpretUTF8BufferAsIndexedUTF16 badSymb input).output.length ≤ input.length
  paired : Paired (interpretUTF8BufferAsIndexedUTF16 badSymb input).output
  whole : (scanned input).flatten = input
  visible : ∀ bytes ∈ scanned input, unitsOf badSymb bytes ≠ []
  output : (interpretUTF8BufferAsIndexedUTF16 badSymb input).output =
    (scanned input).flatMap (unitsOf badSymb)
  indexes : (interpretUTF8BufferAsIndexedUTF16 badSymb input).indexes.map UInt32.toNat =
    unitStarts badSymb 0 (scanned input)
  sorted : (interpretUTF8BufferAsIndexedUTF16 badSymb input).indexes.Pairwise (· ≤ ·)
  scalars : ∀ bytes ∈ scanned input, Reports badSymb bytes

/-! ## When it holds -/

/-- The number that the bits of a sequence make. -/
def value : Bytes → Nat
  | [byte] => byte.toNat
  | [high, low] => high.toNat % 32 * 64 + low.toNat % 64
  | [_1, _2, _3] => (_1.toNat % 16 * 64 + _2.toNat % 64) * 64 + _3.toNat % 64
  | [_1, _2, _3, _4] =>
    ((_1.toNat % 8 * 64 + _2.toNat % 64) * 64 + _3.toNat % 64) * 64 + _4.toNat % 64
  | _ => 0

theorem value_two (high low : UInt8) :
    value [high, low] = high.toNat % 32 * 64 + low.toNat % 64 := rfl

theorem value_three (_1 _2 _3 : UInt8) : value [_1, _2, _3] =
    (_1.toNat % 16 * 64 + _2.toNat % 64) * 64 + _3.toNat % 64 := rfl

theorem value_four (_1 _2 _3 _4 : UInt8) : value [_1, _2, _3, _4] =
    ((_1.toNat % 8 * 64 + _2.toNat % 64) * 64 + _3.toNat % 64) * 64 + _4.toNat % 64 := rfl

/-- Neither too long for its number nor a surrogate nor too large, where the code does not look. -/
def Sound (badSymb : UInt16) (bytes : Bytes) : Prop :=
  (bytes.length = 2 → 0x80 ≤ value bytes ∨ value bytes = badSymb.toNat) ∧
  (bytes.length = 3 → 0x800 ≤ value bytes ∧ IsScalar (value bytes) ∨ value bytes = badSymb.toNat) ∧
  (bytes.length = 4 → value bytes < 0x110000)

instance (badSymb : UInt16) (bytes : Bytes) : Decidable (Sound badSymb bytes) :=
  inferInstanceAs (Decidable (_ ∧ _))

/-! ## Bytes -/

theorem symbolSize_cases (h : symbolSize current = some sz) :
    sz = 1 ∨ sz = 2 ∨ sz = 3 ∨ sz = 4 := by
  unfold symbolSize at h
  split at h
  · exact .inl (some.inj h).symm
  · split at h
    · exact .inr (.inl (some.inj h).symm)
    · split at h
      · exact .inr (.inr (.inl (some.inj h).symm))
      · split at h
        · exact .inr (.inr (.inr (some.inj h).symm))
        · cases h

/-- What the masks say about a byte. -/
theorem byte_masks (byte : UInt8) : (byte &&& 0x80 = 0 ↔ symbolSize byte = some 1) ∧
    (symbolSize byte = some 1 → byte.toNat < 128) ∧
    (symbolSize byte = some 2 → byte.toNat = 0xC0 + byte.toNat % 32) ∧
    (symbolSize byte = some 3 → byte.toNat = 0xE0 + byte.toNat % 16) ∧
    (symbolSize byte = some 4 → byte.toNat = 0xF0 + byte.toNat % 8) ∧
    (byte &&& 0xC0 = 0x80 → byte.toNat = 0x80 + byte.toNat % 64 ∧ byte &&& 0x80 ≠ 0) := by
  have all : ∀ n < 256, (UInt8.ofNat n &&& 0x80 = 0 ↔ symbolSize (UInt8.ofNat n) = some 1) ∧
      (symbolSize (UInt8.ofNat n) = some 1 → (UInt8.ofNat n).toNat < 128) ∧
      (symbolSize (UInt8.ofNat n) = some 2 →
        (UInt8.ofNat n).toNat = 0xC0 + (UInt8.ofNat n).toNat % 32) ∧
      (symbolSize (UInt8.ofNat n) = some 3 →
        (UInt8.ofNat n).toNat = 0xE0 + (UInt8.ofNat n).toNat % 16) ∧
      (symbolSize (UInt8.ofNat n) = some 4 →
        (UInt8.ofNat n).toNat = 0xF0 + (UInt8.ofNat n).toNat % 8) ∧ (UInt8.ofNat n &&& 0xC0 = 0x80 →
        (UInt8.ofNat n).toNat = 0x80 + (UInt8.ofNat n).toNat % 64 ∧ UInt8.ofNat n &&& 0x80 ≠ 0) := by
    decide +kernel
  have h := all byte.toNat byte.toNat_lt
  rwa [UInt8.ofNat_toNat] at h

/-! ## Taking the input apart -/

theorem validate_complete (h : validate left i rest = .complete) :
    left ≤ rest.length ∧ ∀ byte ∈ rest.take left, byte &&& 0xC0 = 0x80 := by
  induction left generalizing i rest with
  | zero => exact ⟨Nat.zero_le _, fun _ hbyte => nomatch hbyte⟩
  | succ left ih =>
    cases rest with
    | nil => cases h
    | cons current rest =>
      unfold validate at h
      by_cases hcurrent : current &&& 0xC0 = 0x80
      · rw [if_neg (not_not.mpr hcurrent)] at h
        obtain ⟨hlength, hall⟩ := ih h
        refine ⟨succ_le_succ hlength, ?_⟩
        exact forall_mem_cons.mpr ⟨hcurrent, hall⟩
      · rw [if_pos hcurrent] at h
        cases h

theorem validate_unexpectedEnd (h : validate left i rest = .unexpectedEnd bytes) :
    bytes = i + rest.length ∧ ∀ byte ∈ rest, byte &&& 0xC0 = 0x80 := by
  induction left generalizing i rest with
  | zero => cases h
  | succ left ih =>
    cases rest with
    | nil =>
      exact ⟨(Validation.unexpectedEnd.inj h).symm, fun _ hbyte => nomatch hbyte⟩
    | cons current rest =>
      unfold validate at h
      by_cases hcurrent : current &&& 0xC0 = 0x80
      · rw [if_neg (not_not.mpr hcurrent)] at h
        obtain ⟨hlength, hall⟩ := ih h
        refine ⟨?_, forall_mem_cons.mpr ⟨hcurrent, hall⟩⟩
        rw [length_cons, hlength]
        omega
      · rw [if_pos hcurrent] at h
        cases h

/-- A sequence of several bytes is one that was validated. -/
def Shaped (bytes : Bytes) : Prop :=
  (∃ byte, bytes = [byte]) ∨ ∃ current rest, bytes = current :: rest ∧
    2 ≤ bytes.length ∧ symbolSize current = some bytes.length ∧ ∀ byte ∈ rest, byte &&& 0xC0 = 0x80

variable {bytes : Bytes}

theorem unitsOf_of_two_le (badSymb : UInt16) (h : 2 ≤ bytes.length) :
    unitsOf badSymb bytes = sequenceUnits badSymb bytes := by
  match bytes, h with
  | _ :: _ :: _, _ => rfl

/-- What was written, and after it the units of these sequences with their places. -/
def Interpreted.after (interpreted : Interpreted) (badSymb : UInt16) (offset : Nat)
    (sequences : List Bytes) : Interpreted where
  output := interpreted.output ++ sequences.flatMap (unitsOf badSymb)
  indexes := interpreted.indexes ++ (unitStarts badSymb offset sequences).map UInt32.ofNat
  total := interpreted.total + (sequences.flatMap (unitsOf badSymb)).length

section Rounds

variable (badSymb : UInt16) (offset : Nat) (interpreted : Interpreted)

theorem after_nil : interpreted.after badSymb offset [] = interpreted := by
  unfold Interpreted.after
  rw [flatMap_nil, append_nil]
  unfold unitStarts
  rw [map_nil, append_nil]
  rfl

theorem after_cons (bytes : Bytes) (sequences : List Bytes) :
    interpreted.after badSymb offset (bytes :: sequences) =
      (interpreted.after badSymb offset [bytes]).after badSymb (offset + bytes.length) sequences := by
  unfold Interpreted.after unitStarts
  have hnone : unitStarts badSymb (offset + bytes.length) [] = [] := rfl
  rw [hnone, append_nil, flatMap_cons, flatMap_cons, flatMap_nil,
    append_nil, append_assoc, length_append, Nat.add_assoc, map_append, append_assoc]
  cases sequences <;> rfl

theorem after_append (sequences sequences' : List Bytes) :
    (interpreted.after badSymb offset sequences).after badSymb
        (offset + sequences.flatten.length) sequences' =
      interpreted.after badSymb offset (sequences ++ sequences') := by
  induction sequences generalizing interpreted offset with
  | nil => rw [after_nil, flatten_nil, length_nil, Nat.add_zero, nil_append]
  | cons bytes sequences ih =>
    rw [cons_append, after_cons badSymb offset interpreted bytes sequences,
      after_cons badSymb offset interpreted bytes (sequences ++ sequences'), flatten_cons,
      length_append, ← Nat.add_assoc, ih]

/-- All units of a sequence have its place. -/
theorem foldl_put (units : List UInt16) : units.foldl (·.put · offset) interpreted = {
      output := interpreted.output ++ units
      indexes := interpreted.indexes ++ replicate units.length (UInt32.ofNat offset)
      total := interpreted.total + units.length } := by
  induction units generalizing interpreted with
  | nil =>
    rw [append_nil]
    exact congrArg (fun indexes : List UInt32 => (⟨_, indexes, _⟩ : Interpreted))
      (append_nil _).symm
  | cons unit units ih =>
    rw [foldl_cons, ih]
    unfold Interpreted.put
    dsimp only
    rw [append_assoc, append_assoc, singleton_append, length_cons, replicate_succ, singleton_append]
    congr 1
    omega

theorem after_single (bytes : Bytes) : interpreted.after badSymb offset [bytes] =
      (unitsOf badSymb bytes).foldl (·.put · offset) interpreted := by
  rw [foldl_put]
  unfold Interpreted.after unitStarts
  rw [flatMap_cons, flatMap_nil, append_nil]
  unfold unitStarts
  rw [append_nil, map_replicate]

theorem put_bad (hbyte : byte &&& 0x80 ≠ 0) :
    interpreted.put badSymb offset = interpreted.after badSymb offset [[byte]] := by
  have hunits : unitsOf badSymb [byte] = [badSymb] := if_neg hbyte
  rw [after_single, hunits]
  rfl

theorem fillBad_eq (hbytes : ∀ byte ∈ bytes, byte &&& 0x80 ≠ 0) :
    fillBad badSymb bytes.length offset interpreted =
      interpreted.after badSymb offset (bytes.map fun byte => [byte]) := by
  induction bytes generalizing interpreted offset with
  | nil => exact (after_nil badSymb offset interpreted).symm
  | cons byte bytes ih =>
    obtain ⟨hbyte, hrest⟩ := forall_mem_cons.mp hbytes
    rw [map_cons, after_cons, ← put_bad badSymb offset interpreted hbyte]
    exact ih (offset + 1) _ hrest

theorem flatten_singletons (bytes : Bytes) : (bytes.map fun byte => [byte]).flatten = bytes := by
  exact flatMap_singleton' bytes

/-- What a round does: it writes for these sequences, which it takes from the input. -/
structure Round (current : UInt8) (rest : Bytes) (result : Interpreted × Nat)
    (sequences : List Bytes) : Prop where
  result : result = (interpreted.after badSymb offset sequences, sequences.flatten.length)
  eats : 1 ≤ sequences.flatten.length
  taken : sequences.flatten = (current :: rest).take sequences.flatten.length
  shaped : ∀ bytes ∈ sequences, Shaped bytes

variable (current : UInt8) (rest : Bytes)

/-- The first byte for itself. -/
theorem round_alone (hunit : unitsOf badSymb [current] = [unit]) :
    Round badSymb offset interpreted current rest (interpreted.put unit offset, 1) [[current]] := by
  refine ⟨?_, Nat.le_refl 1, rfl, fun bytes hbytes => ?_⟩
  · rw [after_single, hunit]
    rfl
  · exact .inl ⟨current, mem_singleton.mp hbytes⟩

theorem round_sequence (hsize : symbolSize current = some sz) (htwo : 2 ≤ sz) :
    Round badSymb offset interpreted current rest
      (interpretSequence badSymb offset sz current rest interpreted)
      (scanSequence sz current rest) := by
  have hcurrent : current &&& 0x80 ≠ 0 := by
    intro h
    have hone := (byte_masks current).1.mp h
    rw [hsize] at hone
    have heq := some.inj hone
    omega
  unfold interpretSequence scanSequence
  cases hvalidate : validate (sz - 1) 1 rest with
  | malformed => exact round_alone badSymb offset interpreted current rest (if_neg hcurrent)
  | unexpectedEnd bytes =>
    obtain ⟨hbytes, hall⟩ := validate_unexpectedEnd hvalidate
    have hlength : bytes = (current :: rest).length := by
      rw [length_cons]
      omega
    have hbad : ∀ byte ∈ current :: rest, byte &&& 0x80 ≠ 0 :=
      forall_mem_cons.mpr ⟨hcurrent, fun byte hbyte =>
        ((byte_masks byte).2.2.2.2.2 (hall byte hbyte)).2⟩
    dsimp only
    rw [hlength, take_length]
    refine ⟨?_, ?_, ?_, fun bytes hmem => ?_⟩
    · rw [fillBad_eq badSymb offset interpreted hbad, flatten_singletons]
    · rw [flatten_singletons, length_cons]
      omega
    · rw [flatten_singletons, take_length]
    · obtain ⟨byte, _, rfl⟩ := mem_map.mp hmem
      exact .inl ⟨byte, rfl⟩
  | complete =>
    obtain ⟨hroom, hall⟩ := validate_complete hvalidate
    have hlength : ((current :: rest).take sz).length = sz := by
      rw [length_take, length_cons]
      omega
    refine ⟨?_, ?_, ?_, fun bytes hmem => ?_⟩
    · rw [after_single, unitsOf_of_two_le badSymb (by rw [hlength]; exact htwo),
        flatten_singleton, hlength]
    · rw [flatten_singleton, hlength]
      omega
    · rw [flatten_singleton, hlength]
    · obtain rfl := mem_singleton.mp hmem
      refine .inr ⟨current, rest.take (sz - 1), ?_, by rw [hlength]; exact htwo,
        by rw [hlength]; exact hsize, hall⟩
      obtain ⟨left, rfl⟩ := Nat.exists_eq_add_of_le' htwo
      rfl

theorem round_next : Round badSymb offset interpreted current rest
    (interpretNext badSymb offset current rest interpreted) (scanNext current rest) := by
  have hmasks := (byte_masks current).1
  unfold interpretNext scanNext
  cases hsize : symbolSize current with
  | none =>
    refine round_alone badSymb offset interpreted current rest (if_neg fun h => ?_)
    exact nomatch hsize.symm.trans (hmasks.mp h)
  | some sz =>
    obtain rfl | rfl | rfl | rfl := symbolSize_cases hsize
    · exact round_alone badSymb offset interpreted current rest (if_pos (hmasks.mpr hsize))
    · exact round_sequence badSymb offset interpreted current rest hsize (by decide)
    · exact round_sequence badSymb offset interpreted current rest hsize (by decide)
    · exact round_sequence badSymb offset interpreted current rest hsize (by decide)

end Rounds

/-- The loop writes for the sequences that are scanned. -/
theorem interpretLoop_eq (badSymb : UInt16) (rounds offset : Nat) (input : Bytes)
    (interpreted : Interpreted) : interpretLoop badSymb rounds offset input interpreted =
      interpreted.after badSymb offset (scan rounds input) := by
  induction rounds generalizing offset input interpreted with
  | zero => exact (after_nil badSymb offset interpreted).symm
  | succ rounds ih =>
    cases input with
    | nil => exact (after_nil badSymb offset interpreted).symm
    | cons current rest =>
      have hround := (round_next badSymb offset interpreted current rest).result
      unfold interpretLoop scan
      dsimp only
      rw [hround, ih, after_append]

theorem scan_flatten (hrounds : input.length ≤ rounds) : (scan rounds input).flatten = input := by
  induction rounds generalizing input with
  | zero =>
    rw [eq_nil_of_length_eq_zero (le_zero.mp hrounds)]
    rfl
  | succ rounds ih =>
    cases input with
    | nil => rfl
    | cons current rest =>
      have hround := round_next 0 0 {} current rest
      unfold scan
      have hleft : ((current :: rest).drop (scanNext current rest).flatten.length).length ≤ rounds := by
        have heats := hround.eats
        rw [length_drop]
        omega
      rw [flatten_append, ih hleft]
      exact (congrArg (· ++ _) hround.taken).trans (take_append_drop _ _)

theorem scan_shaped (rounds : Nat) (input : Bytes) : ∀ bytes ∈ scan rounds input, Shaped bytes := by
  induction rounds generalizing input with
  | zero => exact fun _ hbytes => nomatch hbytes
  | succ rounds ih =>
    cases input with
    | nil => exact fun _ hbytes => nomatch hbytes
    | cons current rest =>
      intro bytes hbytes
      obtain hnow | hlater := mem_append.mp hbytes
      · exact (round_next 0 0 {} current rest).shaped bytes hnow
      · exact ih _ bytes hlater

/-- What the function writes, in terms of the sequences of the input. -/
theorem interpret_eq (badSymb : UInt16) (input : Bytes) :
    interpretUTF8BufferAsIndexedUTF16 badSymb input = {
      output := (scanned input).flatMap (unitsOf badSymb)
      indexes := (unitStarts badSymb 0 (scanned input)).map UInt32.ofNat
      total := ((scanned input).flatMap (unitsOf badSymb)).length } := by
  unfold interpretUTF8BufferAsIndexedUTF16 scanned
  rw [interpretLoop_eq]
  unfold Interpreted.after
  rw [nil_append, nil_append, Nat.zero_add]

/-! ## Places -/

section Places

variable (badSymb : UInt16) {place : Nat}

theorem le_of_mem_unitStarts (h : place ∈ unitStarts badSymb offset sequences) :
    offset ≤ place := by
  induction sequences generalizing offset with
  | nil => cases h
  | cons bytes sequences ih =>
    obtain hfirst | hrest := mem_append.mp h
    · exact Nat.le_of_eq (eq_of_mem_replicate hfirst).symm
    · exact Nat.le_trans (Nat.le_add_right _ _) (ih hrest)

theorem unitStarts_sorted (offset : Nat) (sequences : List Bytes) :
    (unitStarts badSymb offset sequences).Pairwise (· ≤ ·) := by
  induction sequences generalizing offset with
  | nil => exact .nil
  | cons bytes sequences ih =>
    refine pairwise_append.mpr ⟨?_, ih _, fun a ha b hb => ?_⟩
    · exact pairwise_replicate.mpr (.inr (Nat.le_refl _))
    · rw [eq_of_mem_replicate ha]
      exact Nat.le_trans (Nat.le_add_right _ _) (le_of_mem_unitStarts badSymb hb)

/-- Each sequence has a unit, so the places are where sequences start. -/
theorem mem_unitStarts_iff (hvisible : ∀ bytes ∈ sequences, unitsOf badSymb bytes ≠ []) :
    place ∈ unitStarts badSymb offset sequences ↔ place ∈ starts offset sequences := by
  induction sequences generalizing offset with
  | nil => exact Iff.rfl
  | cons bytes sequences ih =>
    obtain ⟨hfirst, hrest⟩ := forall_mem_cons.mp hvisible
    unfold unitStarts starts
    rw [mem_append, mem_cons, ih hrest, mem_replicate,
      and_iff_right (Nat.ne_of_gt (length_pos_iff.mpr hfirst))]

theorem toNat_indexes_iff (places : List Nat) :
    (places.map UInt32.ofNat).map UInt32.toNat = places ↔ ∀ place ∈ places, place < 2 ^ 32 := by
  induction places with
  | nil => exact iff_of_true rfl fun _ h => nomatch h
  | cons place places ih =>
    rw [map_cons, map_cons, cons.injEq, ih, forall_mem_cons, UInt32.toNat_ofNat']
    exact and_congr_left' ⟨fun h => h ▸ mod_lt _ (by decide), mod_eq_of_lt⟩

end Places

/-! ## One sequence -/

theorem low_bits (byte : UInt8) : (byte &&& 0x3F).toNat = byte.toNat % 64 ∧
    (byte &&& 0x1F).toNat = byte.toNat % 32 ∧ (byte &&& 0xF).toNat = byte.toNat % 16 ∧
    (byte &&& 0x07).toNat = byte.toNat % 8 := by
  refine ⟨?_, ?_, ?_, ?_⟩ <;> rw [UInt8.toNat_and]
  · exact and_two_pow_sub_one_eq_mod byte.toNat 6
  · exact and_two_pow_sub_one_eq_mod byte.toNat 5
  · exact and_two_pow_sub_one_eq_mod byte.toNat 4
  · exact and_two_pow_sub_one_eq_mod byte.toNat 3

theorem join_two (h1 : _1 < 32) (h2 : _2 < 64) : _1 <<< 6 % 2 ^ 16 ||| _2 = _1 * 64 + _2 := by
  rw [mod_eq_of_lt (by rw [shiftLeft_eq]; omega)]
  exact shift_or _ h2

/-- Six bits and as many below them. -/
theorem join_tails (h2 : _2 < 64) : _1 <<< 6 ||| _2 = _1 * 64 + _2 := shift_or _ h2

theorem join_three (h1 : _1 < 16) (h2 : _2 < 64) (h3 : _3 < 64) :
    _1 <<< 12 % 2 ^ 16 ||| _2 <<< 6 % 2 ^ 16 ||| _3 = (_1 * 64 + _2) * 64 + _3 := by
  have hfirst : _1 <<< 12 % 2 ^ 16 = _1 <<< 12 :=
    mod_eq_of_lt (by rw [shiftLeft_eq]; omega)
  have hsecond : _2 <<< 6 % 2 ^ 16 = _2 <<< 6 :=
    mod_eq_of_lt (by rw [shiftLeft_eq]; omega)
  have hlow : _2 * 64 + _3 < 2 ^ 12 := by omega
  rw [hfirst, hsecond, Nat.or_assoc, join_tails h3, shift_or _ hlow]
  omega

theorem join_four {_1 _2 _3 _4 : Nat} (h1 : _1 < 8) (h2 : _2 < 64) (h3 : _3 < 64) (h4 : _4 < 64) :
    _1 <<< 18 % 2 ^ 32 ||| _2 <<< 12 % 2 ^ 32 ||| _3 <<< 6 % 2 ^ 32 ||| _4 =
      ((_1 * 64 + _2) * 64 + _3) * 64 + _4 := by
  have hfirst : _1 <<< 18 % 2 ^ 32 = _1 <<< 18 :=
    mod_eq_of_lt (by rw [shiftLeft_eq]; omega)
  have hsecond : _2 <<< 12 % 2 ^ 32 = _2 <<< 12 :=
    mod_eq_of_lt (by rw [shiftLeft_eq]; omega)
  have hthird : _3 <<< 6 % 2 ^ 32 = _3 <<< 6 :=
    mod_eq_of_lt (by rw [shiftLeft_eq]; omega)
  have hlow : _3 * 64 + _4 < 2 ^ 12 := by omega
  have hlower : _2 * 2 ^ 12 + (_3 * 64 + _4) < 2 ^ 18 := by omega
  rw [hfirst, hsecond, hthird, Nat.or_assoc, Nat.or_assoc, join_tails h4, shift_or _ hlow,
    shift_or _ hlower]
  omega

theorem sequenceUnits_two (badSymb : UInt16) (high low : UInt8) :
    sequenceUnits badSymb [high, low] = [UInt16.ofNat (value [high, low])] := by
  have hvalue : value [high, low] < 2 ^ 16 := by
    rw [value_two]
    omega
  refine congrArg (fun unit => [unit]) (UInt16.toNat_inj.mp ?_)
  rw [UInt16.toNat_ofNat_of_lt' hvalue, UInt16.toNat_or, UInt16.toNat_shiftLeft,
    toNat_toUInt16, toNat_toUInt16, (low_bits high).2.1, (low_bits low).1]
  exact join_two (mod_lt _ (by decide)) (mod_lt _ (by decide))

theorem sequenceUnits_three (badSymb : UInt16) (_1 _2 _3 : UInt8) :
    sequenceUnits badSymb [_1, _2, _3] = [UInt16.ofNat (value [_1, _2, _3])] := by
  have hvalue : value [_1, _2, _3] < 2 ^ 16 := by
    rw [value_three]
    omega
  refine congrArg (fun unit => [unit]) (UInt16.toNat_inj.mp ?_)
  rw [UInt16.toNat_ofNat_of_lt' hvalue, UInt16.toNat_or, UInt16.toNat_or, UInt16.toNat_shiftLeft,
    UInt16.toNat_shiftLeft, toNat_toUInt16, toNat_toUInt16, toNat_toUInt16,
    (low_bits _1).2.2.1, (low_bits _2).1, (low_bits _3).1]
  exact join_three (mod_lt _ (by decide)) (mod_lt _ (by decide)) (mod_lt _ (by decide))

/-- The bits of four bytes, put together. -/
theorem toNat_four (_1 _2 _3 _4 : UInt8) :
    (((_1 &&& 0x07).toUInt32 <<< 18) ||| ((_2 &&& 0x3F).toUInt32 <<< 12) |||
      ((_3 &&& 0x3F).toUInt32 <<< 6) ||| (_4 &&& 0x3F).toUInt32).toNat = value [_1, _2, _3, _4] := by
  have hjoin := @join_four (_1.toNat % 8) (_2.toNat % 64) (_3.toNat % 64) (_4.toNat % 64)
    (mod_lt _ (by decide)) (mod_lt _ (by decide)) (mod_lt _ (by decide))
    (mod_lt _ (by decide))
  rw [UInt32.toNat_or, UInt32.toNat_or, UInt32.toNat_or, UInt32.toNat_shiftLeft,
    UInt32.toNat_shiftLeft, UInt32.toNat_shiftLeft, toNat_toUInt32, toNat_toUInt32, toNat_toUInt32,
    toNat_toUInt32, (low_bits _1).2.2.2, (low_bits _2).1, (low_bits _3).1, (low_bits _4).1]
  exact hjoin

/-- The two surrogates of a number above those of one unit. -/
theorem surrogates_eq (hlarge : 0x10000 ≤ out.toNat) :
    [((0xD800 : UInt32) + ((out - 0x10000) >>> 10)).toUInt16,
        ((0xDC00 : UInt32) + ((out - 0x10000) &&& 0x3FF)).toUInt16] =
      [UInt16.ofNat (0xD800 + (out.toNat - 0x10000) / 1024),
        UInt16.ofNat (0xDC00 + (out.toNat - 0x10000) % 1024)] := by
  have hsub : (out - 0x10000).toNat = out.toNat - 0x10000 :=
    UInt32.toNat_sub_of_le _ _ (UInt32.le_iff_toNat_le.mpr hlarge)
  have hhigh : ((out - 0x10000) >>> 10).toNat = (out.toNat - 0x10000) / 1024 := by
    rw [UInt32.toNat_shiftRight, hsub]
    exact shiftRight_eq_div_pow _ 10
  have hlow : ((out - 0x10000) &&& 0x3FF).toNat = (out.toNat - 0x10000) % 1024 := by
    rw [UInt32.toNat_and, hsub]
    exact and_two_pow_sub_one_eq_mod _ 10
  refine congrArg₂ (fun lead trail => [lead, trail]) (UInt16.toNat_inj.mp ?_)
    (UInt16.toNat_inj.mp ?_)
  · rw [UInt32.toNat_toUInt16, UInt32.toNat_add, hhigh, UInt16.toNat_ofNat']
    change (0xD800 + (out.toNat - 0x10000) / 1024) % 2 ^ 32 % 2 ^ 16 = _
    omega
  · rw [UInt32.toNat_toUInt16, UInt32.toNat_add, hlow, UInt16.toNat_ofNat']
    change (0xDC00 + (out.toNat - 0x10000) % 1024) % 2 ^ 32 % 2 ^ 16 = _
    omega

theorem sequenceUnits_four (badSymb : UInt16) (_1 _2 _3 _4 : UInt8) :
    sequenceUnits badSymb [_1, _2, _3, _4] =
      let out := value [_1, _2, _3, _4]
      if out < 0x10000 ∨ 0x30000 ≤ out ∧ out < 0xE0000 then [badSymb]
      else [UInt16.ofNat (0xD800 + (out - 0x10000) / 1024),
        UInt16.ofNat (0xDC00 + (out - 0x10000) % 1024)] := by
  have hnat := toNat_four _1 _2 _3 _4
  unfold sequenceUnits
  dsimp only
  rw [← hnat]
  generalize ((_1 &&& 0x07).toUInt32 <<< 18) ||| ((_2 &&& 0x3F).toUInt32 <<< 12) |||
    ((_3 &&& 0x3F).toUInt32 <<< 6) ||| (_4 &&& 0x3F).toUInt32 = out
  have hbad : (out < 0x10000 ∨ out ≥ 0x30000 ∧ out < 0xE0000) ↔
      out.toNat < 0x10000 ∨ 0x30000 ≤ out.toNat ∧ out.toNat < 0xE0000 := Iff.rfl
  by_cases h : out.toNat < 0x10000 ∨ 0x30000 ≤ out.toNat ∧ out.toNat < 0xE0000
  · rw [if_pos h, if_pos (hbad.mpr h)]
  · rw [if_neg h, if_neg (mt hbad.mp h)]
    exact surrogates_eq (by omega)

/-- The least number for which a sequence has to be so long. -/
def least (length : Nat) : Nat :=
  if length ≤ 1 then 0 else if length = 2 then 0x80 else if length = 3 then 0x800 else 0x10000

theorem least_le_of_utf8 (v : Nat) : least (utf8 v).length ≤ v := by
  unfold utf8
  split
  · exact Nat.zero_le v
  · split
    · show 0x80 ≤ v
      omega
    · split
      · show 0x800 ≤ v
        omega
      · show 0x10000 ≤ v
        omega

theorem toNat_continuation (v : Nat) : (continuation v).toNat % 64 = v % 64 := by
  unfold continuation
  rw [toNat_ofNat']
  omega

theorem value_utf8 (hv : v < 0x110000) : value (utf8 v) = v := by
  unfold utf8
  split
  · show (UInt8.ofNat v).toNat = v
    rw [toNat_ofNat']
    omega
  · split
    · rw [value_two, toNat_continuation, toNat_ofNat']
      omega
    · split
      · rw [value_three, toNat_continuation, toNat_continuation, toNat_ofNat']
        omega
      · rw [value_four, toNat_continuation, toNat_continuation, toNat_continuation, toNat_ofNat']
        omega

theorem continuation_eq (hbyte : byte &&& 0xC0 = 0x80) (hv : v % 64 = byte.toNat % 64) :
    continuation v = byte := by
  have h := ((byte_masks byte).2.2.2.2.2 hbyte).1
  unfold continuation
  rw [hv, ← h, UInt8.ofNat_toNat]

/-- A sequence that is no longer than it has to be is that of its number. -/
theorem utf8_value (h : Shaped bytes) (htwo : 2 ≤ bytes.length)
    (hleast : least bytes.length ≤ value bytes) : utf8 (value bytes) = bytes := by
  obtain ⟨byte, rfl⟩ | ⟨current, rest, rfl, _, hsize, hrest⟩ := h
  · exact absurd htwo (Nat.lt_irrefl 1)
  · match rest, hrest, hsize, hleast with
    | [low], hrest, hsize, hleast =>
      have hcurrent := (byte_masks current).2.2.1 hsize
      change 0x80 ≤ current.toNat % 32 * 64 + low.toNat % 64 at hleast
      have hlow := hrest low mem_cons_self
      rw [value_two]
      unfold utf8
      rw [if_neg (by omega), if_pos (by omega), continuation_eq hlow (by omega)]
      have hfirst : 0xC0 + (current.toNat % 32 * 64 + low.toNat % 64) / 64 = current.toNat := by
        omega
      rw [hfirst, UInt8.ofNat_toNat]
    | [_2, _3], hrest, hsize, hleast =>
      have hcurrent := (byte_masks current).2.2.2.1 hsize
      change 0x800 ≤ (current.toNat % 16 * 64 + _2.toNat % 64) * 64 + _3.toNat % 64 at hleast
      have h2 := hrest _2 mem_cons_self
      have h3 := hrest _3 (mem_cons_of_mem _ mem_cons_self)
      rw [value_three]
      unfold utf8
      rw [if_neg (by omega), if_neg (by omega), if_pos (by omega), continuation_eq h2 (by omega),
        continuation_eq h3 (by omega)]
      have hfirst : 0xE0 + ((current.toNat % 16 * 64 + _2.toNat % 64) * 64 + _3.toNat % 64) / 4096 =
          current.toNat := by omega
      rw [hfirst, UInt8.ofNat_toNat]
    | [_2, _3, _4], hrest, hsize, hleast =>
      have hcurrent := (byte_masks current).2.2.2.2.1 hsize
      change 0x10000 ≤ ((current.toNat % 8 * 64 + _2.toNat % 64) * 64 + _3.toNat % 64) * 64 +
        _4.toNat % 64 at hleast
      have h2 := hrest _2 mem_cons_self
      have h3 := hrest _3 (mem_cons_of_mem _ mem_cons_self)
      have h4 := hrest _4 (mem_cons_of_mem _ (mem_cons_of_mem _ mem_cons_self))
      rw [value_four]
      unfold utf8
      rw [if_neg (by omega), if_neg (by omega), if_neg (by omega), continuation_eq h2 (by omega),
        continuation_eq h3 (by omega), continuation_eq h4 (by omega)]
      have hfirst : 0xF0 + (((current.toNat % 8 * 64 + _2.toNat % 64) * 64 + _3.toNat % 64) * 64 +
          _4.toNat % 64) / 262144 = current.toNat := by omega
      rw [hfirst, UInt8.ofNat_toNat]
    | _2 :: _3 :: _4 :: _5 :: rest, _, hsize, _ =>
      have hcases := symbolSize_cases hsize
      rw [length_cons, length_cons, length_cons, length_cons, length_cons] at hcases
      omega
    | [], _, _, _ => exact absurd htwo (Nat.lt_irrefl 1)

theorem value_two_lt (high low : UInt8) : value [high, low] < 0x800 := by
  rw [value_two]
  omega

theorem value_three_lt (_1 _2 _3 : UInt8) : value [_1, _2, _3] < 0x10000 := by
  rw [value_three]
  omega

/-- What a sequence encodes, if it does. -/
theorem encodes_iff (h : Shaped bytes) (htwo : 2 ≤ bytes.length) (units : List UInt16) :
    (∃ v, IsScalar v ∧ bytes = utf8 v ∧ units = utf16 v) ↔
      IsScalar (value bytes) ∧ least bytes.length ≤ value bytes ∧ units = utf16 (value bytes) := by
  constructor
  · rintro ⟨v, hv, rfl, hunits⟩
    have hlt : v < 0x110000 := by
      unfold IsScalar at hv
      omega
    rw [value_utf8 hlt]
    exact ⟨hv, least_le_of_utf8 v, hunits⟩
  · rintro ⟨hscalar, hleast, hunits⟩
    exact ⟨value bytes, hscalar, (utf8_value h htwo hleast).symm, hunits⟩

variable {badSymb : UInt16}

/-- A unit that is one number. -/
theorem single_eq_iff (hv : v < 2 ^ 16) : [UInt16.ofNat v] = [badSymb] ↔ v = badSymb.toNat := by
  rw [singleton_inj, ← UInt16.toNat_inj, UInt16.toNat_ofNat_of_lt' hv]

/-- One unit for a number. -/
theorem reports_single (h : Shaped bytes) (htwo : 2 ≤ bytes.length) (hvalue : value bytes < 0x10000)
    (hunits : unitsOf badSymb bytes = [UInt16.ofNat (value bytes)]) :
    Reports badSymb bytes ↔ value bytes = badSymb.toNat ∨
      IsScalar (value bytes) ∧ least bytes.length ≤ value bytes := by
  have hone : utf16 (value bytes) = [UInt16.ofNat (value bytes)] := if_pos hvalue
  unfold Reports
  rw [hunits, encodes_iff h htwo, single_eq_iff hvalue, hone]
  exact or_congr_right (and_congr_right fun _ => and_iff_left rfl)

theorem reports_two (h : Shaped [high, low]) :
    Reports badSymb [high, low] ↔ Sound badSymb [high, low] := by
  have hlt := value_two_lt high low
  rw [reports_single h (Nat.le_refl 2) (by omega) (sequenceUnits_two badSymb high low)]
  have hleast : least [high, low].length = 0x80 := rfl
  have hscalar : IsScalar (value [high, low]) := .inl (by omega)
  rw [hleast, and_iff_right hscalar, or_comm]
  refine ⟨fun hsound => ⟨fun _ => hsound, fun hlength => ?_, fun hlength => ?_⟩, fun hsound => hsound.1 rfl⟩
  · cases hlength
  · cases hlength

theorem reports_three (h : Shaped [_1, _2, _3]) :
    Reports badSymb [_1, _2, _3] ↔ Sound badSymb [_1, _2, _3] := by
  have hlt := value_three_lt _1 _2 _3
  rw [reports_single h (le_succ 2) hlt (sequenceUnits_three badSymb _1 _2 _3)]
  have hleast : least [_1, _2, _3].length = 0x800 := rfl
  rw [hleast, or_comm, and_comm]
  refine ⟨fun hsound => ⟨fun hlength => ?_, fun _ => hsound, fun hlength => ?_⟩,
    fun hsound => hsound.2.1 rfl⟩
  · cases hlength
  · cases hlength

theorem reports_four (h : Shaped [_1, _2, _3, _4]) :
    Reports badSymb [_1, _2, _3, _4] ↔ Sound badSymb [_1, _2, _3, _4] := by
  have hsound : Sound badSymb [_1, _2, _3, _4] ↔ value [_1, _2, _3, _4] < 0x110000 := by
    refine ⟨fun hsound => hsound.2.2 rfl, fun hlt => ⟨fun hlength => ?_, fun hlength => ?_, fun _ => hlt⟩⟩
    · cases hlength
    · cases hlength
  have hunits : unitsOf badSymb [_1, _2, _3, _4] = _ := sequenceUnits_four badSymb _1 _2 _3 _4
  have hleast : least [_1, _2, _3, _4].length = 0x10000 := rfl
  unfold Reports
  rw [hsound, encodes_iff h (by decide : 2 ≤ 4), hunits, hleast]
  generalize value [_1, _2, _3, _4] = out
  by_cases hbad : out < 0x10000 ∨ 0x30000 ≤ out ∧ out < 0xE0000
  · rw [if_pos hbad]
    exact iff_of_true (.inl rfl) (by omega)
  · have htwo : utf16 out = [UInt16.ofNat (0xD800 + (out - 0x10000) / 1024),
        UInt16.ofNat (0xDC00 + (out - 0x10000) % 1024)] := if_neg (by omega)
    rw [if_neg hbad, htwo]
    constructor
    · rintro (hsingle | ⟨hscalar, _⟩)
      · exact nomatch (cons.inj hsingle).2
      · unfold IsScalar at hscalar
        omega
    · intro hlt
      exact .inr ⟨.inr ⟨by omega, hlt⟩, by omega, rfl⟩

/-- What a sequence is reported as is right exactly if it is sound. -/
theorem reports_iff (h : Shaped bytes) : Reports badSymb bytes ↔ Sound badSymb bytes := by
  have hshaped := h
  obtain ⟨byte, rfl⟩ | ⟨current, rest, rfl, htwo, hsize, hrest⟩ := h
  · have hmasks := byte_masks byte
    have hsound : Sound badSymb [byte] := by
      refine ⟨fun hlength => ?_, fun hlength => ?_, fun hlength => ?_⟩ <;> cases hlength
    refine iff_of_true ?_ hsound
    by_cases hbyte : byte &&& 0x80 = 0
    · have hlt := hmasks.2.1 (hmasks.1.mp hbyte)
      have hunits : unitsOf badSymb [byte] = [byte.toUInt16] := if_pos hbyte
      have hone : utf16 byte.toNat = [UInt16.ofNat byte.toNat] := if_pos (by omega)
      have hutf8 : utf8 byte.toNat = [UInt8.ofNat byte.toNat] := if_pos hlt
      refine .inr ⟨byte.toNat, .inl (by omega), ?_, ?_⟩
      · rw [hutf8, UInt8.ofNat_toNat]
      · rw [hunits, hone, ← toNat_toUInt16, UInt16.ofNat_toNat]
    · exact .inl (if_neg hbyte)
  · match rest, hshaped, hsize with
    | [], _, _ => exact absurd htwo (Nat.lt_irrefl 1)
    | [_], hshaped, _ => exact reports_two hshaped
    | [_, _], hshaped, _ => exact reports_three hshaped
    | [_, _, _], hshaped, _ => exact reports_four hshaped
    | _ :: _ :: _ :: _ :: rest, _, hsize =>
      have hcases := symbolSize_cases hsize
      rw [length_cons, length_cons, length_cons, length_cons, length_cons] at hcases
      omega

/-- The units of a sequence are at least one, and no more than its bytes. -/
theorem unitsOf_length (badSymb : UInt16) (h : Shaped bytes) :
    unitsOf badSymb bytes ≠ [] ∧ (unitsOf badSymb bytes).length ≤ bytes.length := by
  obtain ⟨byte, rfl⟩ | ⟨current, rest, rfl, htwo, hsize, hrest⟩ := h
  · unfold unitsOf
    dsimp only
    split
    · exact ⟨cons_ne_nil _ _, Nat.le_refl 1⟩
    · exact ⟨cons_ne_nil _ _, Nat.le_refl 1⟩
  · match rest, hsize with
    | [], _ => exact absurd htwo (Nat.lt_irrefl 1)
    | [low], _ => exact ⟨cons_ne_nil _ _, le_succ 1⟩
    | [_2, _3], _ => exact ⟨cons_ne_nil _ _, Nat.le_add_left 1 2⟩
    | [_2, _3, _4], _ =>
      have hunits : unitsOf badSymb [current, _2, _3, _4] = _ :=
        sequenceUnits_four badSymb current _2 _3 _4
      dsimp only at hunits
      rw [hunits]
      split
      · exact ⟨cons_ne_nil _ _, Nat.le_add_left 1 3⟩
      · exact ⟨cons_ne_nil _ _, Nat.le_add_left 2 2⟩
    | _ :: _ :: _ :: _ :: rest, hsize =>
      have hcases := symbolSize_cases hsize
      rw [length_cons, length_cons, length_cons, length_cons, length_cons] at hcases
      omega

theorem length_units_le (badSymb : UInt16) {sequences : List Bytes}
    (h : ∀ bytes ∈ sequences, Shaped bytes) :
    (sequences.flatMap (unitsOf badSymb)).length ≤ sequences.flatten.length := by
  induction sequences with
  | nil => exact Nat.le_refl 0
  | cons bytes sequences ih =>
    obtain ⟨hfirst, hrest⟩ := forall_mem_cons.mp h
    rw [flatMap_cons, flatten_cons, length_append, length_append]
    exact Nat.add_le_add (unitsOf_length badSymb hfirst).2 (ih hrest)

/-- What is reported as bad, or right, has its surrogates in pairs. -/
theorem paired_of_reports (hbad : isSurrogate badSymb = false) (h : Reports badSymb bytes) :
    Paired (unitsOf badSymb bytes) := by
  obtain hunits | ⟨v, hscalar, _, hunits⟩ := h
  · rw [hunits]
    exact .plain hbad .nil
  · rw [hunits]
    exact paired_utf16 hscalar

/--
  The units and their places are right exactly if the sequences of the input are sound and start
  at places that fit 32 bits.
-/
theorem wellIndexed_iff {badSymb : UInt16} (hbad : isSurrogate badSymb = false) (input : Bytes) :
    WellIndexed badSymb input ↔ (∀ place ∈ starts 0 (scanned input), place < 2 ^ 32) ∧
        ∀ bytes ∈ scanned input, Sound badSymb bytes := by
  have hshaped := scan_shaped input.length input
  have hwhole : (scanned input).flatten = input := scan_flatten (Nat.le_refl _)
  have heq := interpret_eq badSymb input
  have hvisible : ∀ bytes ∈ scanned input, unitsOf badSymb bytes ≠ [] :=
    fun bytes hbytes => (unitsOf_length badSymb (hshaped bytes hbytes)).1
  have hplaces : ((unitStarts badSymb 0 (scanned input)).map UInt32.ofNat).map UInt32.toNat =
      unitStarts badSymb 0 (scanned input) ↔ ∀ place ∈ starts 0 (scanned input), place < 2 ^ 32 := by
    rw [toNat_indexes_iff]
    exact forall_congr' fun place => imp_congr_left (mem_unitStarts_iff badSymb hvisible)
  constructor
  · intro h
    have hindexes := h.indexes
    rw [heq] at hindexes
    exact ⟨hplaces.mp hindexes, fun bytes hbytes =>
      (reports_iff (hshaped bytes hbytes)).mp (h.scalars bytes hbytes)⟩
  · rintro ⟨hstarts, hsound⟩
    have hreports : ∀ bytes ∈ scanned input, Reports badSymb bytes :=
      fun bytes hbytes => (reports_iff (hshaped bytes hbytes)).mpr (hsound bytes hbytes)
    have hindexes := hplaces.mpr hstarts
    refine ⟨?_, ?_, ?_, hwhole, hvisible, ?_, ?_, ?_, hreports⟩
    · rw [heq]
    · rw [heq, ← congrArg List.length hwhole]
      exact length_units_le badSymb hshaped
    · rw [heq]
      exact Paired.flatMap fun bytes hbytes => paired_of_reports hbad (hreports bytes hbytes)
    · rw [heq]
    · rw [heq]
      exact hindexes
    · have hsorted := unitStarts_sorted badSymb 0 (scanned input)
      rw [← hindexes, pairwise_map] at hsorted
      rw [heq]
      exact hsorted.imp UInt32.le_iff_toNat_le.mpr

/-- A letter and another one of two bytes. -/
theorem wellIndexed_two_letters : WellIndexed 0xFFFD [0x61, 0xC3, 0xA9] :=
  (wellIndexed_iff (by decide) _).mpr ⟨by decide +kernel, by decide +kernel⟩

/-- Three bytes that stand for half of a pair leave it alone in the output. -/
theorem lone_lead_written : ¬WellIndexed 0xFFFD [0xED, 0xA0, 0x80] := by
  intro h
  have hpaired := h.paired
  have houtput : (interpretUTF8BufferAsIndexedUTF16 0xFFFD [0xED, 0xA0, 0x80]).output =
      [0xD800] := by decide +kernel
  rw [houtput] at hpaired
  cases hpaired with
  | plain hunit _ => cases hunit

end WinCommander.Utility
