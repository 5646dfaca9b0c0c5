/-
  `InterpretUnicharsAsUTF8` and `InterpretUTF8BufferAsUTF16`: a string of UTF-16 is written into a
  buffer of a given size as UTF-8, and read back.

  The pointers are not null; what was written to a buffer is a list that grows. `symbols` is how a
  string is taken apart, and the loop takes symbols as long as they leave room for the zero at the
  end (`unicharsLoop_eq`), so it stops where the next one does not fit. There is no room for the
  zero itself in a buffer of size 0, and nothing is written there.
-/
import WinCommander.Utility.Encodings

namespace WinCommander.Utility

open Library List Nat Bool UInt16

/-! ## The code -/

def replacementCharacter : UInt32 := 0xFFFD

/-- The code point that comes first, and how many units it takes. -/
def decodeUnichars (val : UInt16) (rest : List UInt16) : UInt32 × Nat :=
  if val ≤ 0xD7FF ∨ val ≥ 0xE000 ∧ val ≤ 0xFFFF then (val.toUInt32, 1)
  else if val ≥ 0xD800 ∧ val ≤ 0xDBFF then
    match rest with
    | [] => (replacementCharacter, 1)
    | next :: _ =>
      if next ≥ 0xDC00 ∧ next ≤ 0xDFFF then
        (((val - 0xD800).toUInt32 <<< 10) + (next - 0xDC00).toUInt32 + 0x10000, 2)
      else (replacementCharacter, 1)
  else (replacementCharacter, 1)

def encodeCodepoint (codepoint : UInt32) : Bytes :=
  if codepoint < 0x80 then [codepoint.toUInt8]
  else if codepoint ≤ 0x7FF then
    [((codepoint >>> 6) + 0xC0).toUInt8, ((codepoint &&& 0x3F) + 0x80).toUInt8]
  else if codepoint ≤ 0xFFFF then
    [((codepoint >>> 12) + 0xE0).toUInt8, (((codepoint >>> 6) &&& 0x3F) + 0x80).toUInt8,
      ((codepoint &&& 0x3F) + 0x80).toUInt8]
  else if codepoint ≤ 0x10FFFF then
    [((codepoint >>> 18) + 0xF0).toUInt8, (((codepoint >>> 12) &&& 0x3F) + 0x80).toUInt8,
      (((codepoint >>> 6) &&& 0x3F) + 0x80).toUInt8, ((codepoint &&& 0x3F) + 0x80).toUInt8]
  else [0x3F]

/-- What was written to the output buffer, how much of it is the result, and what was eaten. -/
structure UnicharsAsUTF8 where
  output : Bytes := []
  outputResult : Nat := 0
  inputCharsEaten : Nat := 0
deriving DecidableEq

/-- The loop; each round eats a unit at least. -/
def unicharsLoop : Nat → List UInt16 → Nat → Bytes → Nat → Bytes × Nat
  | 0, _, _, output, eaten => (output, eaten)
  | _, [], _, output, eaten => (output, eaten)
  | rounds + 1, val :: rest, outputSzLeft, output, eaten =>
    let (codepoint, inputDelta) := decodeUnichars val rest
    let utf8 := encodeCodepoint codepoint
    if outputSzLeft > utf8.length then
      unicharsLoop rounds ((val :: rest).drop inputDelta) (outputSzLeft - utf8.length)
        (output ++ utf8) (eaten + inputDelta)
    else (output, eaten)

def interpretUnicharsAsUTF8 (input : List UInt16) (outputSize : Nat) : UnicharsAsUTF8 :=
  if outputSize = 1 then { output := [0] }
  else if outputSize = 0 then {}
  else
    let (output, eaten) := unicharsLoop input.length input outputSize [] 0
    { output := output ++ [0], outputResult := output.length, inputCharsEaten := eaten }

/-- What a valid sequence makes; a number of four bytes that is too small is cut. -/
def sequenceAsUTF16 : Bytes → List UInt16
  | [_1, _2] => [((_1 &&& 0x1F).toUInt16 <<< 6) ||| (_2 &&& 0x3F).toUInt16]
  | [_1, _2, _3] =>
    [((_1 &&& 0xF).toUInt16 <<< 12) ||| ((_2 &&& 0x3F).toUInt16 <<< 6) ||| (_3 &&& 0x3F).toUInt16]
  | [_1, _2, _3, _4] =>
    let out : UInt32 := ((_1 &&& 0x07).toUInt32 <<< 18) ||| ((_2 &&& 0x3F).toUInt32 <<< 12) |||
      ((_3 &&& 0x3F).toUInt32 <<< 6) ||| (_4 &&& 0x3F).toUInt32
    if out < 0x10000 then [out.toUInt16]
    else [((0xD800 : UInt32) + ((out - 0x10000) >>> 10)).toUInt16,
      ((0xDC00 : UInt32) + ((out - 0x10000) &&& 0x3FF)).toUInt16]
  | _ => []

/-- One round of the loop on what is not empty: the units, and how many bytes were eaten. -/
def interpretNextAsUTF16 (badSymb : UInt16) (current : UInt8) (rest : Bytes) : List UInt16 × Nat :=
  match symbolSize current with
  | none => ([badSymb], 1)
  | some 1 => ([current.toUInt16], 1)
  | some sz =>
    match validate (sz - 1) 1 rest with
    | .unexpectedEnd bytes => (List.replicate bytes badSymb, bytes)
    | .malformed => ([badSymb], 1)
    | .complete => (sequenceAsUTF16 ((current :: rest).take sz), sz)

def utf16Loop (badSymb : UInt16) : Nat → Bytes → List UInt16 → List UInt16
  | 0, _, output => output
  | _, [], output => output
  | rounds + 1, current :: rest, output =>
    let (units, eaten) := interpretNextAsUTF16 badSymb current rest
    utf16Loop badSymb rounds ((current :: rest).drop eaten) (output ++ units)

/-- The units that are written; the size of the output is how many they are. -/
def interpretUTF8BufferAsUTF16 (badSymb : UInt16) (input : Bytes) : List UInt16 :=
  utf16Loop badSymb input.length input []

/-! ## What is asked for -/

/-- A string taken apart: pairs of surrogates, and each other unit for itself. -/
def symbols : List UInt16 → List (List UInt16)
  | [] => []
  | [unit] => [[unit]]
  | lead :: trail :: rest =>
    if isLead lead && isTrail trail then [lead, trail] :: symbols rest
    else [lead] :: symbols (trail :: rest)

/-- The scalar value of a symbol; a surrogate for itself is ill-formed. -/
def scalarOf : List UInt16 → Nat
  | [unit] => if isSurrogate unit then 0xFFFD else unit.toNat
  | [lead, trail] => 0x10000 + (lead.toNat - 0xD800) * 1024 + (trail.toNat - 0xDC00)
  | _ => 0xFFFD

/-- The encoding of symbols. -/
def encoded (parts : List (List UInt16)) : Bytes := parts.flatMap fun part => utf8 (scalarOf part)

/-- The UTF-8 of a string. -/
def utf8Of (units : List UInt16) : Bytes := encoded (symbols units)

/-- The string can be cut there: no pair of surrogates is split. -/
def CutAt (units : List UInt16) (k : Nat) : Prop :=
  symbols units = symbols (units.take k) ++ symbols (units.drop k)

/--
  The longest prefix whose encoding leaves room for a zero is what is written and eaten, and it
  does not split a pair.
-/
structure Truncates (units : List UInt16) (capacity : Nat) (written : UnicharsAsUTF8) : Prop where
  fits : written.outputResult < capacity
  output : written.output = utf8Of (units.take written.inputCharsEaten) ++ [0]
  result : written.outputResult = (utf8Of (units.take written.inputCharsEaten)).length
  eaten : written.inputCharsEaten ≤ units.length
  whole : CutAt units written.inputCharsEaten
  maximal : ∀ k, written.inputCharsEaten < k → k ≤ units.length → CutAt units k →
    capacity ≤ (utf8Of (units.take k)).length

/-- A string without surrogates alone is read back from a buffer that is large enough. -/
def RoundTrips (units : List UInt16) (capacity : Nat) (written : UnicharsAsUTF8) : Prop :=
  Paired units → (utf8Of units).length < capacity → ∀ badSymb,
    interpretUTF8BufferAsUTF16 badSymb (written.output.take written.outputResult) = units

/-! ## Symbols -/

variable {lead trail : UInt16} {units : List UInt16} (val : UInt16)

theorem symbols_pair (hlead : isLead lead) (htrail : isTrail trail)
    (rest : List UInt16) : symbols (lead :: trail :: rest) = [lead, trail] :: symbols rest := by
  rw [symbols, hlead, htrail]
  rfl

theorem symbols_alone (h : (isLead lead && isTrail trail) = false) (rest : List UInt16) :
    symbols (lead :: trail :: rest) = [lead] :: symbols (trail :: rest) := by
  rw [symbols, h]
  rfl

theorem symbols_cons (unit : UInt16) (rest : List UInt16) :
    ∃ more others, symbols (unit :: rest) = (unit :: more) :: others := by
  cases rest with
  | nil => exact ⟨[], [], rfl⟩
  | cons next rest =>
    cases h : isLead unit && isTrail next with
    | true =>
      obtain ⟨hlead, htrail⟩ := and_eq_true_iff.mp h
      exact ⟨[next], symbols rest, symbols_pair hlead htrail rest⟩
    | false => exact ⟨[], symbols (next :: rest), symbols_alone h rest⟩

theorem symbols_flatten (units : List UInt16) : (symbols units).flatten = units := by
  induction units using symbols.induct with
  | case1 => rfl
  | case2 unit => rfl
  | case3 lead trail rest h ih =>
    obtain ⟨hlead, htrail⟩ := and_eq_true_iff.mp h
    rw [symbols_pair hlead htrail, flatten_cons, ih]
    rfl
  | case4 lead trail rest h ih =>
    rw [symbols_alone (eq_false_iff.mpr h), flatten_cons, ih]
    rfl

/-- A unit alone stays so before what begins with the same unit. -/
theorem symbols_cons_alone (h : (isLead lead && isTrail trail) = false) {parts : List (List UInt16)}
    (hparts : symbols parts.flatten = parts)
    (hhead : parts = [] ∨ ∃ more others, parts = (trail :: more) :: others) :
    symbols ([lead] :: parts).flatten = [lead] :: parts := by
  rcases hhead with rfl | ⟨more, others, rfl⟩
  · rfl
  · rw [flatten_cons, cons_append] at hparts
    rw [flatten_cons, singleton_append, flatten_cons, cons_append, symbols_alone h, hparts]

variable {parts others : List (List UInt16)}

/-- Symbols before others are those of their units, and so are the others. -/
theorem symbols_append (h : symbols units = parts ++ others) :
    symbols parts.flatten = parts ∧ symbols others.flatten = others := by
  induction units using symbols.induct generalizing parts with
  | case1 =>
    obtain ⟨rfl, rfl⟩ := append_eq_nil_iff.mp h.symm
    exact ⟨rfl, rfl⟩
  | case2 unit =>
    cases parts with
    | nil =>
      rw [← nil_append others, ← h]
      exact ⟨rfl, rfl⟩
    | cons part parts =>
      obtain ⟨rfl, hrest⟩ := cons.inj h
      obtain ⟨rfl, rfl⟩ := append_eq_nil_iff.mp hrest.symm
      exact ⟨rfl, rfl⟩
  | case3 lead trail rest hpair ih =>
    obtain ⟨hlead, htrail⟩ := and_eq_true_iff.mp hpair
    cases parts with
    | nil => exact ⟨rfl, by rw [← nil_append others, ← h, symbols_flatten]⟩
    | cons part parts =>
      rw [symbols_pair hlead htrail] at h
      obtain ⟨rfl, hrest⟩ := cons.inj h
      obtain ⟨hparts, hothers⟩ := ih hrest
      refine ⟨?_, hothers⟩
      exact (symbols_pair hlead htrail parts.flatten).trans (congrArg _ hparts)
  | case4 lead trail rest hpair ih =>
    have hnot := eq_false_iff.mpr hpair
    cases parts with
    | nil => exact ⟨rfl, by rw [← nil_append others, ← h, symbols_flatten]⟩
    | cons part parts =>
      rw [symbols_alone hnot] at h
      obtain ⟨rfl, hrest⟩ := cons.inj h
      obtain ⟨hparts, hothers⟩ := ih hrest
      refine ⟨symbols_cons_alone hnot hparts ?_, hothers⟩
      obtain ⟨more, left, hmore⟩ := symbols_cons trail rest
      cases parts with
      | nil => exact .inl rfl
      | cons next parts =>
        have hnext := (cons.inj (hmore.symm.trans hrest)).1
        exact .inr ⟨more, parts, congrArg (· :: parts) hnext.symm⟩

/-- Cuts are where some symbols end. -/
theorem cutAt_of_append (h : symbols units = parts ++ others) :
    symbols (units.take parts.flatten.length) = parts ∧ CutAt units parts.flatten.length := by
  have hunits : units = parts.flatten ++ others.flatten := by
    rw [← flatten_append, ← h, symbols_flatten]
  obtain ⟨hparts, hothers⟩ := symbols_append h
  have htake : symbols (units.take parts.flatten.length) = parts := by
    rw [hunits, take_left, hparts]
  have hdrop : symbols (units.drop parts.flatten.length) = others := by
    rw [hunits, drop_left, hothers]
  refine ⟨htake, ?_⟩
  unfold CutAt
  rw [htake, hdrop, h]

/-! ## The first symbol -/

/-- The comparisons of the code are those of surrogates. -/
theorem plain_iff : (val ≤ 0xD7FF ∨ val ≥ 0xE000 ∧ val ≤ 0xFFFF) ↔ isSurrogate val = false := by
  unfold isSurrogate
  rw [eq_false_iff, Ne, and_eq_true, decide_eq_true_eq, decide_eq_true_eq,
    le_iff_toNat_le, le_iff_toNat_le, lt_iff_toNat_lt]
  show (val.toNat ≤ 0xD7FF ∨ 0xE000 ≤ val.toNat ∧ val.toNat ≤ 0xFFFF) ↔
    ¬(0xD800 ≤ val.toNat ∧ val.toNat < 0xE000)
  have hlt := val.toNat_lt
  omega

theorem lead_iff : (val ≥ 0xD800 ∧ val ≤ 0xDBFF) ↔ isLead val := by
  unfold isLead
  rw [and_eq_true, decide_eq_true_eq, decide_eq_true_eq, lt_iff_toNat_lt]
  show (0xD800 ≤ val.toNat ∧ val.toNat ≤ 0xDBFF) ↔ 0xD800 ≤ val.toNat ∧ val.toNat < 0xDC00
  omega

theorem trail_iff : (val ≥ 0xDC00 ∧ val ≤ 0xDFFF) ↔ isTrail val := by
  unfold isTrail
  rw [and_eq_true, decide_eq_true_eq, decide_eq_true_eq, lt_iff_toNat_lt]
  show (0xDC00 ≤ val.toNat ∧ val.toNat ≤ 0xDFFF) ↔ 0xDC00 ≤ val.toNat ∧ val.toNat < 0xE000
  omega

theorem isSurrogate_of_isLead {val : UInt16} (h : isLead val) : isSurrogate val := by
  have hrange := (lead_iff val).mpr h
  unfold isSurrogate
  rw [and_eq_true, decide_eq_true_eq, decide_eq_true_eq, lt_iff_toNat_lt]
  exact ⟨hrange.1, Nat.lt_of_le_of_lt hrange.2 (by decide)⟩

/-- What is no lead begins no pair. -/
theorem symbols_notLead {val : UInt16} (h : isLead val = false) (rest : List UInt16) :
    symbols (val :: rest) = [val] :: symbols rest := by
  cases rest with
  | nil => rfl
  | cons next rest => exact symbols_alone (by rw [h, Bool.false_and]) rest

/-- The number of a pair, in 32 bits. -/
theorem pair_codepoint (hlead : isLead lead) (htrail : isTrail trail) :
    ((lead - 0xD800).toUInt32 <<< 10) + (trail - 0xDC00).toUInt32 + 0x10000 =
        UInt32.ofNat (scalarOf [lead, trail]) ∧
      0x10000 ≤ scalarOf [lead, trail] ∧ scalarOf [lead, trail] < 0x110000 := by
  obtain ⟨hlow, hhigh⟩ := (lead_iff lead).mpr hlead
  obtain ⟨hlow', hhigh'⟩ := (trail_iff trail).mpr htrail
  have hlead' : (lead - 0xD800).toNat = lead.toNat - 0xD800 := UInt16.toNat_sub_of_le _ _ hlow
  have htrail' : (trail - 0xDC00).toNat = trail.toNat - 0xDC00 := UInt16.toNat_sub_of_le _ _ hlow'
  have hhigh : lead.toNat ≤ 0xDBFF := hhigh
  have hhigh' : trail.toNat ≤ 0xDFFF := hhigh'
  have hscalar : scalarOf [lead, trail] =
      0x10000 + (lead.toNat - 0xD800) * 1024 + (trail.toNat - 0xDC00) := rfl
  refine ⟨UInt32.toNat_inj.mp ?_, by omega, by omega⟩
  have hshift : ((lead - 0xD800).toUInt32 <<< 10).toNat = (lead.toNat - 0xD800) * 1024 := by
    rw [UInt32.toNat_shiftLeft, toNat_toUInt32, hlead']
    show (lead.toNat - 0xD800) <<< 10 % 2 ^ 32 = _
    omega
  rw [UInt32.toNat_add, UInt32.toNat_add, hshift, toNat_toUInt32, htrail',
    UInt32.toNat_ofNat', hscalar]
  show ((_ + _) % 2 ^ 32 + 0x10000) % 2 ^ 32 = _
  omega

theorem scalarOf_plain {unit : UInt16} (h : isSurrogate unit = false) :
    scalarOf [unit] = unit.toNat ∧ IsScalar unit.toNat := by
  refine ⟨if_neg (eq_false_iff.mp h), ?_⟩
  have hrange := (plain_iff unit).mpr h
  have hplain : unit.toNat ≤ 0xD7FF ∨ 0xE000 ≤ unit.toNat ∧ unit.toNat ≤ 0xFFFF := hrange
  unfold IsScalar
  omega

theorem scalarOf_surrogate {unit : UInt16} (h : isSurrogate unit) :
    scalarOf [unit] = 0xFFFD := if_pos h

/-- What is decoded is the first symbol, and the rest of the string is that of the others. -/
structure First (val : UInt16) (rest : List UInt16) (part : List UInt16)
    (others : List (List UInt16)) : Prop where
  taken : symbols (val :: rest) = part :: others
  decoded : decodeUnichars val rest = (UInt32.ofNat (scalarOf part), part.length)
  scalar : IsScalar (scalarOf part)

/-- A surrogate for itself is replaced. -/
theorem first_replaced {val : UInt16} {rest : List UInt16} (hval : isSurrogate val)
    (hdecoded : decodeUnichars val rest = (replacementCharacter, 1))
    (hsymbols : symbols (val :: rest) = [val] :: symbols rest) :
    First val rest [val] (symbols rest) := by
  refine ⟨hsymbols, ?_, ?_⟩
  · rw [hdecoded, scalarOf_surrogate hval]
    rfl
  · rw [scalarOf_surrogate hval]
    decide

theorem exists_first (rest : List UInt16) : ∃ part others, First val rest part others := by
  cases hval : isSurrogate val with
  | false =>
    obtain ⟨hscalar, his⟩ := scalarOf_plain hval
    have hlead : isLead val = false := eq_false_iff.mpr fun hlead =>
      Bool.false_ne_true (hval.symm.trans (isSurrogate_of_isLead hlead))
    refine ⟨[val], symbols rest, symbols_notLead hlead rest, ?_, ?_⟩
    · rw [hscalar]
      unfold decodeUnichars
      rw [if_pos ((plain_iff val).mpr hval)]
      refine congrArg (·, 1) (UInt32.toNat_inj.mp ?_)
      rw [toNat_toUInt32, UInt32.toNat_ofNat_of_lt' (Nat.lt_trans val.toNat_lt (by decide))]
    · rw [hscalar]
      exact his
  | true =>
    have hplain : ¬(val ≤ 0xD7FF ∨ val ≥ 0xE000 ∧ val ≤ 0xFFFF) := fun h =>
      Bool.false_ne_true (((plain_iff val).mp h).symm.trans hval)
    cases hlead : isLead val with
    | false =>
      have hnot : ¬(val ≥ 0xD800 ∧ val ≤ 0xDBFF) := fun h =>
        Bool.false_ne_true (hlead.symm.trans ((lead_iff val).mp h))
      refine ⟨[val], symbols rest, first_replaced hval ?_ (symbols_notLead hlead rest)⟩
      unfold decodeUnichars
      rw [if_neg hplain, if_neg hnot]
    | true =>
      have hin := (lead_iff val).mpr hlead
      cases rest with
      | nil =>
        refine ⟨[val], [], first_replaced hval ?_ rfl⟩
        unfold decodeUnichars
        rw [if_neg hplain, if_pos hin]
      | cons next rest =>
        cases htrail : isTrail next with
        | false =>
          have hnot : ¬(next ≥ 0xDC00 ∧ next ≤ 0xDFFF) := fun h =>
            Bool.false_ne_true (htrail.symm.trans ((trail_iff next).mp h))
          refine ⟨[val], symbols (next :: rest), first_replaced hval ?_ (symbols_alone ?_ rest)⟩
          · unfold decodeUnichars
            rw [if_neg hplain, if_pos hin]
            exact if_neg hnot
          · rw [htrail, Bool.and_false]
        | true =>
          obtain ⟨hnumber, hlow, hhigh⟩ := pair_codepoint hlead htrail
          refine ⟨[val, next], symbols rest, symbols_pair hlead htrail rest, ?_,
            .inr ⟨by omega, hhigh⟩⟩
          unfold decodeUnichars
          rw [if_neg hplain, if_pos hin]
          dsimp only
          rw [if_pos ((trail_iff next).mpr htrail), hnumber]
          rfl

theorem First.drop {val : UInt16} {rest part : List UInt16} {others : List (List UInt16)}
    (h : First val rest part others) :
    (val :: rest).drop part.length = others.flatten ∧ symbols others.flatten = others ∧
      1 ≤ part.length := by
  have hwhole := symbols_flatten (val :: rest)
  rw [h.taken, flatten_cons] at hwhole
  refine ⟨?_, (@symbols_append _ [part] others h.taken).2, ?_⟩
  · rw [← hwhole, drop_left]
  · obtain ⟨more, left, hmore⟩ := symbols_cons val rest
    rw [h.taken] at hmore
    rw [(cons.inj hmore).1]
    exact Nat.le_add_left 1 _

/-! ## One code point -/

theorem toUInt8_add {n : UInt32} {k : Nat} (hk : k < 2 ^ 32) :
    (n + UInt32.ofNat k).toUInt8 = UInt8.ofNat (k + n.toNat) := by
  refine UInt8.toNat_inj.mp ?_
  rw [UInt32.toNat_toUInt8, UInt32.toNat_add, UInt32.toNat_ofNat_of_lt' hk, UInt8.toNat_ofNat']
  omega

theorem continuation_of_low (n : UInt32) :
    ((n &&& 0x3F) + 0x80).toUInt8 = continuation n.toNat := by
  have hlow : (n &&& 0x3F).toNat = n.toNat % 64 := by
    exact and_two_pow_sub_one_eq_mod n.toNat 6
  unfold continuation
  rw [← hlow]
  exact toUInt8_add (by decide)

theorem toNat_shiftRight (n : UInt32) {k : Nat} (hk : k < 32) :
    (n >>> UInt32.ofNat k).toNat = n.toNat / 2 ^ k := by
  rw [UInt32.toNat_shiftRight, UInt32.toNat_ofNat_of_lt' (Nat.lt_trans hk (by decide)),
    mod_eq_of_lt hk, shiftRight_eq_div_pow]

/-- The bytes of a code point are its encoding. -/
theorem encodeCodepoint_eq {codepoint : UInt32} (h : codepoint.toNat < 0x110000) :
    encodeCodepoint codepoint = utf8 codepoint.toNat := by
  have h6 : (codepoint >>> 6).toNat = codepoint.toNat / 64 := @toNat_shiftRight codepoint 6 (by decide)
  have h12 : (codepoint >>> 12).toNat = codepoint.toNat / 4096 :=
    @toNat_shiftRight codepoint 12 (by decide)
  have h18 : (codepoint >>> 18).toNat = codepoint.toNat / 262144 :=
    @toNat_shiftRight codepoint 18 (by decide)
  have hone : codepoint < 0x80 ↔ codepoint.toNat < 0x80 := Iff.rfl
  have htwo : codepoint ≤ 0x7FF ↔ codepoint.toNat < 0x800 := Nat.lt_succ_iff.symm
  have hthree : codepoint ≤ 0xFFFF ↔ codepoint.toNat < 0x10000 := Nat.lt_succ_iff.symm
  have hfour : codepoint ≤ 0x10FFFF ↔ codepoint.toNat < 0x110000 := Nat.lt_succ_iff.symm
  refine ite_congr (propext hone) (fun _ => ?_) fun _ => ite_congr (propext htwo) (fun _ => ?_)
    fun _ => ite_congr (propext hthree) (fun _ => ?_) fun _ => (if_pos (hfour.mpr h)).trans ?_
  · refine congrArg (fun byte => [byte]) (UInt8.toNat_inj.mp ?_)
    rw [UInt32.toNat_toUInt8, UInt8.toNat_ofNat']
  · rw [continuation_of_low]
    refine congrArg (fun byte => [byte, _]) ?_
    rw [← h6]
    exact toUInt8_add (by decide)
  · rw [continuation_of_low, continuation_of_low, h6]
    refine congrArg (fun byte => [byte, _, _]) ?_
    rw [← h12]
    exact toUInt8_add (by decide)
  · rw [continuation_of_low, continuation_of_low, continuation_of_low, h6, h12]
    refine congrArg (fun byte => [byte, _, _, _]) ?_
    rw [← h18]
    exact toUInt8_add (by decide)

theorem lt_of_isScalar {v : Nat} (h : IsScalar v) : v < 0x110000 := by
  unfold IsScalar at h
  omega

theorem encodeCodepoint_ofNat {v : Nat} (h : IsScalar v) : encodeCodepoint (UInt32.ofNat v) = utf8 v := by
  have hlt := lt_of_isScalar h
  have hnat : (UInt32.ofNat v).toNat = v := UInt32.toNat_ofNat_of_lt' (Nat.lt_trans hlt (by decide))
  rw [encodeCodepoint_eq (by rw [hnat]; exact hlt), hnat]

/-! ## The loop -/

/-- As many symbols as leave room. -/
def fitting : Nat → List (List UInt16) → List (List UInt16)
  | _, [] => []
  | left, part :: others =>
    if left > (utf8 (scalarOf part)).length then
      part :: fitting (left - (utf8 (scalarOf part)).length) others
    else []

theorem encoded_cons (part : List UInt16) (others : List (List UInt16)) :
    encoded (part :: others) = utf8 (scalarOf part) ++ encoded others := flatMap_cons

/-- The loop writes the encoding of the symbols that fit. -/
theorem unicharsLoop_eq (rounds : Nat) {input : List UInt16} (hrounds : input.length ≤ rounds)
    (left : Nat) (output : Bytes) (eaten : Nat) : unicharsLoop rounds input left output eaten =
      (output ++ encoded (fitting left (symbols input)),
        eaten + (fitting left (symbols input)).flatten.length) := by
  induction rounds generalizing input left output eaten with
  | zero =>
    rw [eq_nil_of_length_eq_zero (le_zero.mp hrounds)]
    exact Prod.ext (append_nil output).symm rfl
  | succ rounds ih =>
    cases input with
    | nil => exact Prod.ext (append_nil output).symm rfl
    | cons val rest =>
      obtain ⟨part, others, hfirst⟩ := exists_first val rest
      obtain ⟨hdrop, hothers, hpart⟩ := hfirst.drop
      have hleft : others.flatten.length ≤ rounds := by
        have hlength := congrArg List.length hdrop
        rw [length_drop] at hlength
        omega
      unfold unicharsLoop
      rw [hfirst.decoded, hfirst.taken]
      dsimp only
      rw [encodeCodepoint_ofNat hfirst.scalar, hdrop]
      unfold fitting
      by_cases hroom : left > (utf8 (scalarOf part)).length
      · rw [if_pos hroom, if_pos hroom, ih hleft, hothers, encoded_cons, flatten_cons,
          length_append, append_assoc, Nat.add_assoc]
      · rw [if_neg hroom, if_neg hroom]
        exact Prod.ext (append_nil output).symm rfl

/-- What fits comes first and leaves room, and there is none for the next one. -/
theorem fitting_spec {left : Nat} (hleft : 0 < left) (parts : List (List UInt16)) :
    (encoded (fitting left parts)).length < left ∧
      ∃ others, parts = fitting left parts ++ others ∧ ∀ part ∈ others.head?,
        left ≤ (encoded (fitting left parts ++ [part])).length := by
  induction parts generalizing left with
  | nil => exact ⟨hleft, [], rfl, fun _ hpart => nomatch hpart⟩
  | cons part parts ih =>
    unfold fitting
    by_cases hroom : left > (utf8 (scalarOf part)).length
    · obtain ⟨hlt, others, hparts, hnext⟩ := @ih (left - (utf8 (scalarOf part)).length) (by omega)
      rw [if_pos hroom, encoded_cons, length_append]
      refine ⟨by omega, others, congrArg (part :: ·) hparts, fun next hmem => ?_⟩
      have hle := hnext next hmem
      rw [cons_append, encoded_cons, length_append]
      omega
    · rw [if_neg hroom]
      refine ⟨hleft, part :: parts, rfl, fun next hmem => ?_⟩
      obtain rfl := Option.some.inj hmem
      rw [nil_append, encoded_cons, length_append]
      omega

/-! ## What is written -/

theorem utf8_length_pos (v : Nat) : 0 < (utf8 v).length := by
  unfold utf8
  split
  · exact succ_pos _
  · split
    · exact succ_pos _
    · split <;> exact succ_pos _

theorem fitting_one (parts : List (List UInt16)) : fitting 1 parts = [] := by
  cases parts with
  | nil => rfl
  | cons part parts =>
    have hpos := utf8_length_pos (scalarOf part)
    exact if_neg (by omega)

variable {capacity : Nat} (badSymb : UInt16) {scalars : List Nat}

/-- What is written, in terms of the symbols that fit. -/
theorem interpretUnichars_eq (units : List UInt16) (hcapacity : 0 < capacity) :
    interpretUnicharsAsUTF8 units capacity = {
      output := encoded (fitting capacity (symbols units)) ++ [0]
      outputResult := (encoded (fitting capacity (symbols units))).length
      inputCharsEaten := (fitting capacity (symbols units)).flatten.length } := by
  unfold interpretUnicharsAsUTF8
  by_cases hone : capacity = 1
  · rw [if_pos hone, hone, fitting_one]
    rfl
  · rw [if_neg hone, if_neg (Nat.ne_of_gt hcapacity),
      unicharsLoop_eq units.length (Nat.le_refl _) capacity [] 0]
    rw [nil_append, Nat.zero_add]

theorem encoded_append (parts others : List (List UInt16)) :
    encoded (parts ++ others) = encoded parts ++ encoded others := flatMap_append

/-- A cut behind some symbols is behind the next one. -/
theorem next_of_cutAt {k : Nat} (h : symbols units = parts ++ others)
    (hk : parts.flatten.length < k) (hle : k ≤ units.length) (hcut : CutAt units k) :
    ∃ part more, part ∈ others.head? ∧ symbols (units.take k) = parts ++ [part] ++ more := by
  have hlength : (symbols (units.take k)).flatten.length = k := by
    rw [symbols_flatten, length_take, Nat.min_eq_left hle]
  have hboth : symbols (units.take k) ++ symbols (units.drop k) = parts ++ others := hcut.symm.trans h
  rcases append_eq_append_iff.mp hboth with ⟨between, hparts, -⟩ | ⟨between, htake, hothers⟩
  · rw [hparts, flatten_append, length_append, hlength] at hk
    omega
  · cases between with
    | nil =>
      rw [htake, append_nil] at hlength
      omega
    | cons part more =>
      refine ⟨part, more, ?_, ?_⟩
      · rw [hothers]
        exact rfl
      · rw [htake, append_assoc, singleton_append]

theorem truncates (units : List UInt16) (hcapacity : 0 < capacity) :
    Truncates units capacity (interpretUnicharsAsUTF8 units capacity) := by
  obtain ⟨hfits, others, hunits, hnext⟩ := fitting_spec hcapacity (symbols units)
  rw [interpretUnichars_eq units hcapacity]
  generalize fitting capacity (symbols units) = parts at hfits hunits hnext
  obtain ⟨htake, hcut⟩ := cutAt_of_append hunits
  have hencoded : utf8Of (units.take parts.flatten.length) = encoded parts := congrArg encoded htake
  refine ⟨hfits, ?_, ?_, ?_, hcut, ?_⟩
  · rw [hencoded]
  · rw [hencoded]
  · rw [← congrArg List.length (symbols_flatten units), hunits, flatten_append, length_append]
    exact Nat.le_add_right _ _
  · intro k hk hle hcutk
    obtain ⟨part, more, hpart, htaken⟩ := next_of_cutAt hunits hk hle hcutk
    have hle := hnext part hpart
    unfold utf8Of
    rw [htaken, encoded_append, length_append]
    exact Nat.le_trans hle (Nat.le_add_right _ _)

/-- With room for all of it, all of it is written. -/
theorem fitting_all (hroom : (utf8Of units).length < capacity) :
    fitting capacity (symbols units) = symbols units := by
  obtain ⟨-, others, hunits, hnext⟩ := fitting_spec (zero_lt_of_lt hroom) (symbols units)
  cases others with
  | nil =>
    rw [append_nil] at hunits
    exact hunits.symm
  | cons part others =>
    have hle := hnext part rfl
    have hall : utf8Of units =
        encoded (fitting capacity (symbols units) ++ [part]) ++ encoded others := by
      rw [← encoded_append, append_assoc, singleton_append, ← hunits]
      rfl
    rw [hall, length_append] at hroom
    omega

/-! ## Reading back -/

theorem symbolSize_table : ∀ n < 256, (n < 0x80 → symbolSize (UInt8.ofNat n) = some 1) ∧
    (0xC0 ≤ n → n < 0xE0 → symbolSize (UInt8.ofNat n) = some 2) ∧
    (0xE0 ≤ n → n < 0xF0 → symbolSize (UInt8.ofNat n) = some 3) ∧
    (0xF0 ≤ n → n < 0xF8 → symbolSize (UInt8.ofNat n) = some 4) := by
  decide +kernel

theorem continuation_mask (v : Nat) : continuation v &&& 0xC0 = 0x80 := by
  have all : ∀ n < 64, UInt8.ofNat (0x80 + n) &&& 0xC0 = 0x80 := by decide
  exact all (v % 64) (mod_lt v (by decide))

/-- Bytes that continue a sequence, as many as there should be, are valid. -/
theorem validate_append {bytes : Bytes} (h : ∀ byte ∈ bytes, byte &&& 0xC0 = 0x80) (i : Nat)
    (rest : Bytes) : validate bytes.length i (bytes ++ rest) = .complete := by
  induction bytes generalizing i with
  | nil =>
    cases rest <;> rfl
  | cons byte bytes ih =>
    obtain ⟨hbyte, hbytes⟩ := forall_mem_cons.mp h
    show validate (bytes.length + 1) i (byte :: (bytes ++ rest)) = .complete
    unfold validate
    rw [if_neg (not_not.mpr hbyte)]
    exact ih hbytes (i + 1)

/-- A first byte with all that continue it is read as one sequence. -/
theorem next_of_sequence {current : UInt8} {bytes : Bytes}
    (hsize : symbolSize current = some (bytes.length + 1)) (hbytes : 1 ≤ bytes.length)
    (h : ∀ byte ∈ bytes, byte &&& 0xC0 = 0x80) (rest : Bytes) :
    interpretNextAsUTF16 badSymb current (bytes ++ rest) =
      (sequenceAsUTF16 (current :: bytes), bytes.length + 1) := by
  have htake : (current :: (bytes ++ rest)).take (bytes.length + 1) = current :: bytes := by
    rw [take_succ_cons, take_left]
  unfold interpretNextAsUTF16
  rw [hsize]
  split
  · exact nomatch ‹some (bytes.length + 1) = none›
  · have hone := Option.some.inj ‹some (bytes.length + 1) = some 1›
    omega
  · rename_i sz _ hsz
    obtain rfl := Option.some.inj hsz
    rw [Nat.add_sub_cancel, validate_append h 1 rest]
    rw [htake]

theorem sequenceAsUTF16_four {_1 _2 _3 _4 : UInt8} (h : 0x10000 ≤ value [_1, _2, _3, _4]) :
    sequenceAsUTF16 [_1, _2, _3, _4] = utf16 (value [_1, _2, _3, _4]) := by
  have hnat := toNat_four _1 _2 _3 _4
  unfold sequenceAsUTF16
  dsimp only
  rw [← hnat] at h ⊢
  generalize ((_1 &&& 0x07).toUInt32 <<< 18) ||| ((_2 &&& 0x3F).toUInt32 <<< 12) |||
    ((_3 &&& 0x3F).toUInt32 <<< 6) ||| (_4 &&& 0x3F).toUInt32 = out at h ⊢
  have hsmall : ¬out < 0x10000 := Nat.not_lt.mpr h
  rw [if_neg hsmall, surrogates_eq h]
  exact (if_neg (Nat.not_lt.mpr h)).symm

/-- The encoding of a scalar value is read as its units. -/
theorem next_utf8 {v : Nat} (hv : IsScalar v) : ∃ current bytes, utf8 v = current :: bytes ∧ ∀ rest,
      interpretNextAsUTF16 badSymb current (bytes ++ rest) = (utf16 v, (utf8 v).length) := by
  have hlt := lt_of_isScalar hv
  have hvalue := value_utf8 hlt
  by_cases h1 : v < 0x80
  · have hbytes : utf8 v = [UInt8.ofNat v] := if_pos h1
    have hunits : utf16 v = [UInt16.ofNat v] := if_pos (by omega)
    have hsize := (symbolSize_table v (by omega)).1 h1
    refine ⟨_, [], hbytes, fun rest => ?_⟩
    unfold interpretNextAsUTF16
    rw [hsize, hbytes, hunits]
    refine congrArg (fun unit => ([unit], 1)) (UInt16.toNat_inj.mp ?_)
    rw [UInt8.toNat_toUInt16, UInt8.toNat_ofNat', UInt16.toNat_ofNat']
    omega
  · by_cases h2 : v < 0x800
    · have hbytes : utf8 v = [UInt8.ofNat (0xC0 + v / 64), continuation v] :=
        (if_neg h1).trans (if_pos h2)
      have hunits : utf16 v = [UInt16.ofNat v] := if_pos (by omega)
      have hsize := (symbolSize_table (0xC0 + v / 64) (by omega)).2.1 (by omega) (by omega)
      rw [hbytes] at hvalue
      refine ⟨_, _, hbytes, fun rest => ?_⟩
      rw [next_of_sequence badSymb hsize (Nat.le_add_left 1 _) ?_ rest, hbytes, hunits]
      · exact congrArg (·, 2) ((sequenceUnits_two 0 _ _).trans (by rw [hvalue]))
      · exact forall_mem_singleton.mpr (continuation_mask v)
    · by_cases h3 : v < 0x10000
      · have hbytes : utf8 v = [UInt8.ofNat (0xE0 + v / 4096), continuation (v / 64),
            continuation v] := (if_neg h1).trans ((if_neg h2).trans (if_pos h3))
        have hunits : utf16 v = [UInt16.ofNat v] := if_pos h3
        have hsize := (symbolSize_table (0xE0 + v / 4096) (by omega)).2.2.1 (by omega) (by omega)
        rw [hbytes] at hvalue
        refine ⟨_, _, hbytes, fun rest => ?_⟩
        rw [next_of_sequence badSymb hsize (Nat.le_add_left 1 _) ?_ rest, hbytes, hunits]
        · exact congrArg (·, 3) ((sequenceUnits_three 0 _ _ _).trans (by rw [hvalue]))
        · exact forall_mem_cons.mpr ⟨continuation_mask _,
            forall_mem_singleton.mpr (continuation_mask v)⟩
      · have hbytes : utf8 v = [UInt8.ofNat (0xF0 + v / 262144), continuation (v / 4096),
            continuation (v / 64), continuation v] :=
          (if_neg h1).trans ((if_neg h2).trans (if_neg h3))
        have hsize := (symbolSize_table (0xF0 + v / 262144) (by omega)).2.2.2 (by omega) (by omega)
        rw [hbytes] at hvalue
        refine ⟨_, _, hbytes, fun rest => ?_⟩
        rw [next_of_sequence badSymb hsize (Nat.le_add_left 1 _) ?_ rest, hbytes]
        · exact congrArg (·, 4)
            ((sequenceAsUTF16_four (by rw [hvalue]; omega)).trans (by rw [hvalue]))
        · exact forall_mem_cons.mpr ⟨continuation_mask _, forall_mem_cons.mpr
            ⟨continuation_mask _, forall_mem_singleton.mpr (continuation_mask v)⟩⟩

/-- The loop reads the encoding of scalar values as their units. -/
theorem utf16Loop_eq (h : ∀ v ∈ scalars, IsScalar v) {rounds : Nat}
    (hrounds : (scalars.flatMap utf8).length ≤ rounds) (output : List UInt16) :
    utf16Loop badSymb rounds (scalars.flatMap utf8) output = output ++ scalars.flatMap utf16 := by
  induction scalars generalizing rounds output with
  | nil =>
    rw [flatMap_nil, flatMap_nil, append_nil]
    cases rounds <;> rfl
  | cons v scalars ih =>
    obtain ⟨hv, hscalars⟩ := forall_mem_cons.mp h
    obtain ⟨current, bytes, hbytes, hnext⟩ := next_utf8 badSymb hv
    rw [flatMap_cons, length_append, hbytes, length_cons] at hrounds
    obtain ⟨left, rfl⟩ : ∃ left, rounds = left + 1 := ⟨rounds - 1, by omega⟩
    have hround := hnext (scalars.flatMap utf8)
    rw [flatMap_cons, flatMap_cons, hbytes, cons_append]
    rw [hbytes] at hround
    unfold utf16Loop
    rw [hround]
    dsimp only
    rw [← cons_append, drop_left, ih hscalars (by omega), append_assoc]

theorem symbol_of_paired (h : Paired units) :
    ∀ part ∈ symbols units, IsScalar (scalarOf part) ∧ utf16 (scalarOf part) = part := by
  induction h with
  | nil => exact fun _ hpart => nomatch hpart
  | @plain unit rest hunit _ ih =>
    obtain ⟨hscalar, his⟩ := scalarOf_plain hunit
    have hlead : isLead unit = false := eq_false_iff.mpr fun hlead =>
      Bool.false_ne_true (hunit.symm.trans (isSurrogate_of_isLead hlead))
    rw [symbols_notLead hlead]
    refine forall_mem_cons.mpr ⟨⟨?_, ?_⟩, ih⟩
    · rw [hscalar]
      exact his
    · rw [hscalar]
      refine (if_pos unit.toNat_lt).trans ?_
      rw [UInt16.ofNat_toNat]
  | @pair lead trail rest hlead htrail _ ih =>
    obtain ⟨-, hlow, hhigh⟩ := pair_codepoint hlead htrail
    have hleads : 0xD800 ≤ lead.toNat := ((lead_iff lead).mpr hlead).1
    obtain ⟨htrails, htrails'⟩ : 0xDC00 ≤ trail.toNat ∧ trail.toNat ≤ 0xDFFF :=
      (trail_iff trail).mpr htrail
    have hscalar : scalarOf [lead, trail] =
      0x10000 + (lead.toNat - 0xD800) * 1024 + (trail.toNat - 0xDC00) := rfl
    rw [symbols_pair hlead htrail]
    refine forall_mem_cons.mpr ⟨⟨.inr ⟨by omega, hhigh⟩, ?_⟩, ih⟩
    refine (if_neg (Nat.not_lt.mpr hlow)).trans ?_
    have hfirst : 0xD800 + (scalarOf [lead, trail] - 0x10000) / 1024 = lead.toNat := by omega
    have hsecond : 0xDC00 + (scalarOf [lead, trail] - 0x10000) % 1024 = trail.toNat := by omega
    rw [hfirst, hsecond, UInt16.ofNat_toNat, UInt16.ofNat_toNat]

/-- The units of a scalar value are one symbol. -/
theorem symbols_utf16 {v : Nat} (hv : IsScalar v) (rest : List UInt16) :
    symbols (utf16 v ++ rest) = utf16 v :: symbols rest ∧ scalarOf (utf16 v) = v := by
  have hlt := lt_of_isScalar hv
  by_cases hsmall : v < 0x10000
  · have hunits : utf16 v = [UInt16.ofNat v] := if_pos hsmall
    have hnat : (UInt16.ofNat v).toNat = v := toNat_ofNat_of_lt' hsmall
    have hplain : isSurrogate (UInt16.ofNat v) = false := by
      refine eq_false_iff.mpr fun h => ?_
      have hrange := (isSurrogate_ofNat hsmall).mp h
      unfold IsScalar at hv
      omega
    have hlead : isLead (UInt16.ofNat v) = false := eq_false_iff.mpr fun hlead =>
      Bool.false_ne_true (hplain.symm.trans (isSurrogate_of_isLead hlead))
    rw [hunits]
    exact ⟨symbols_notLead hlead rest, (scalarOf_plain hplain).1.trans hnat⟩
  · have hunits : utf16 v = [UInt16.ofNat (0xD800 + (v - 0x10000) / 1024),
        UInt16.ofNat (0xDC00 + (v - 0x10000) % 1024)] := if_neg hsmall
    have hhigh : (UInt16.ofNat (0xD800 + (v - 0x10000) / 1024)).toNat =
        0xD800 + (v - 0x10000) / 1024 := toNat_ofNat_of_lt' (by unfold UInt16.size; omega)
    have hlow : (UInt16.ofNat (0xDC00 + (v - 0x10000) % 1024)).toNat =
        0xDC00 + (v - 0x10000) % 1024 := toNat_ofNat_of_lt' (by unfold UInt16.size; omega)
    have hlead : isLead (UInt16.ofNat (0xD800 + (v - 0x10000) / 1024)) := by
      rw [← lead_iff, ge_iff_le, le_iff_toNat_le, le_iff_toNat_le, hhigh]
      exact ⟨Nat.le_add_right _ _, by
        show 0xD800 + (v - 0x10000) / 1024 ≤ 0xDBFF
        omega⟩
    have htrail : isTrail (UInt16.ofNat (0xDC00 + (v - 0x10000) % 1024)) := by
      rw [← trail_iff, ge_iff_le, le_iff_toNat_le, le_iff_toNat_le, hlow]
      exact ⟨Nat.le_add_right _ _, by
        show 0xDC00 + (v - 0x10000) % 1024 ≤ 0xDFFF
        omega⟩
    rw [hunits]
    refine ⟨symbols_pair hlead htrail rest, ?_⟩
    show 0x10000 + (_ - 0xD800) * 1024 + (_ - 0xDC00) = v
    omega

/-- The encoding of the units of scalar values. -/
theorem utf8Of_scalars (h : ∀ v ∈ scalars, IsScalar v) :
    utf8Of (scalars.flatMap utf16) = scalars.flatMap utf8 := by
  induction scalars with
  | nil => rfl
  | cons v scalars ih =>
    obtain ⟨hv, hscalars⟩ := forall_mem_cons.mp h
    obtain ⟨hsymbols, hscalar⟩ := symbols_utf16 hv (scalars.flatMap utf16)
    rw [flatMap_cons, flatMap_cons, ← ih hscalars]
    unfold utf8Of
    rw [hsymbols, encoded_cons, hscalar]

/-- The units of the encoding of scalar values. -/
theorem interpretUTF8Buffer_scalars (h : ∀ v ∈ scalars, IsScalar v) :
    interpretUTF8BufferAsUTF16 badSymb (scalars.flatMap utf8) = scalars.flatMap utf16 := by
  unfold interpretUTF8BufferAsUTF16
  rw [utf16Loop_eq badSymb h (Nat.le_refl _), nil_append]

theorem flatMap_eq_flatten {parts : List (List UInt16)} {f : List UInt16 → List UInt16}
    (h : ∀ part ∈ parts, f part = part) : parts.flatMap f = parts.flatten := by
  rw [flatMap_def, map_congr_left h, map_id']

theorem roundTrips (units : List UInt16) (capacity : Nat) :
    RoundTrips units capacity (interpretUnicharsAsUTF8 units capacity) := by
  intro hpaired hroom badSymb
  have hsymbols := symbol_of_paired hpaired
  have hscalars : ∀ v ∈ (symbols units).map scalarOf, IsScalar v :=
    forall_mem_map.mpr fun part hpart => (hsymbols part hpart).1
  have hbytes : encoded (symbols units) = ((symbols units).map scalarOf).flatMap utf8 :=
    (flatMap_map scalarOf utf8 (symbols units)).symm
  rw [interpretUnichars_eq units (zero_lt_of_lt hroom), fitting_all hroom]
  rw [take_left, hbytes, interpretUTF8Buffer_scalars badSymb hscalars, flatMap_map,
    flatMap_eq_flatten fun part hpart => (hsymbols part hpart).2, symbols_flatten]

/--
  A buffer that has room for the zero gets the longest prefix that fits, whole symbols only; what
  was well-formed is read back if all of it fits; a buffer of size 0 is left alone.
-/
theorem unichars_truncated (units : List UInt16) (capacity : Nat) :
    (0 < capacity → Truncates units capacity (interpretUnicharsAsUTF8 units capacity)) ∧
      RoundTrips units capacity (interpretUnicharsAsUTF8 units capacity) ∧
        interpretUnicharsAsUTF8 units 0 = {} :=
  ⟨truncates units, roundTrips units capacity, rfl⟩

/-- A letter, a pair and a lead alone; the buffer is full behind the pair. -/
theorem unichars_truncated_pair : Truncates [0x61, 0xD83D, 0xDE00, 0xD83D] 8
        (interpretUnicharsAsUTF8 [0x61, 0xD83D, 0xDE00, 0xD83D] 8) ∧
      interpretUTF8BufferAsUTF16 0xFFFD
          ((interpretUnicharsAsUTF8 [0x61, 0xD83D, 0xDE00] 6).output.take 5) =
        [0x61, 0xD83D, 0xDE00] :=
  ⟨(unichars_truncated [0x61, 0xD83D, 0xDE00, 0xD83D] 8).1 (by decide),
    (unichars_truncated [0x61, 0xD83D, 0xDE00] 6).2.1
      (.plain (by decide) (.pair (by decide) (by decide) .nil)) (by decide +kernel) 0xFFFD⟩

/-- Nothing is written into a buffer of size 0, not even the zero. -/
theorem unichars_without_zero : ¬Truncates [0x61] 0 (interpretUnicharsAsUTF8 [0x61] 0) := by
  intro h
  have hnothing : (interpretUnicharsAsUTF8 [0x61] 0).output = [] := rfl
  exact concat_ne_nil 0 _ (h.output.symm.trans hnothing)

end WinCommander.Utility
