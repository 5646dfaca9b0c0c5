/-
  Styles of a text in UTF-8, brought back to the units of UTF-16 that the text was made of
  (`MapUTF8ToUTF16`).

  The mapper takes the units apart as the encoder does, and four bytes for each unit are room enough
  for the encoder, so every unit gets the style of its own code point (`maps_styles`).
-/
import WinCommander.Utility.Unichars

namespace WinCommander.Viewer.Highlighting

open List Library Utility

variable {Style : Type}

def utf8Delta (codepoint : UInt32) : Nat :=
  if codepoint < 0x80 then 1
  else if codepoint ≤ 0x7FF then 2
  else if codepoint ≤ 0xFFFF then 3
  else if codepoint ≤ 0x10FFFF then 4
  else 1

/-- The mapper's own decoder. -/
def decodeUTF16 (val : UInt16) (rest : List UInt16) : UInt32 × Nat :=
  if val ≤ 0xD7FF ∨ val ≥ 0xE000 ∧ val ≤ 0xFFFF then (val.toUInt32, 1)
  else if val ≥ 0xD800 ∧ val ≤ 0xDBFF then
    match rest with
    | [] => (replacementCharacter, 1)
    | next :: _ =>
      if next ≥ 0xDC00 ∧ next ≤ 0xDFFF then
        (((val - 0xD800).toUInt32 <<< 10) + (next - 0xDC00).toUInt32 + 0x10000, 2)
      else (replacementCharacter, 1)
  else (replacementCharacter, 1)

/-- The loop, with the styles that were painted so far. -/
def mapLoop (stylesUTF8 : List Style) : Nat → List UInt16 → Nat → List Style → List Style
  | 0, _, _, painted => painted
  | _, [], _, painted => painted
  | rounds + 1, val :: rest, iUTF8, painted =>
    match stylesUTF8[iUTF8]? with
    | none => painted
    | some style =>
      let (codepoint, utf16Delta) := decodeUTF16 val rest
      mapLoop stylesUTF8 rounds ((val :: rest).drop utf16Delta) (iUTF8 + utf8Delta codepoint)
        (painted ++ replicate utf16Delta style)

/-- What was not painted stays. -/
def mapUTF8ToUTF16 (stylesUTF8 : List Style) (chars : List UInt16) (stylesUTF16 : List Style) :
    List Style :=
  let painted := mapLoop stylesUTF8 chars.length chars 0 []
  painted ++ stylesUTF16.drop painted.length

/-- The text that `Highlight` has the styles of. -/
def highlighted (chars : List UInt16) : UnicharsAsUTF8 :=
  interpretUnicharsAsUTF8 chars (chars.length * 4)

/-! ## What the mapper should do -/

structure Maps (chars : List UInt16) (stylesUTF8 styles : List Style) : Prop where
  whole : (highlighted chars).inputCharsEaten = chars.length
  lengths : ∀ codepoint, utf8Delta codepoint = (encodeCodepoint codepoint).length
  covered : styles.length = chars.length
  own : ∀ before part after, symbols chars = before ++ part :: after → ∀ i < part.length,
    (encoded before).length < stylesUTF8.length ∧
      styles[before.flatten.length + i]? = stylesUTF8[(encoded before).length]?

/-- The styles of symbols whose bytes start at the place. -/
def ownStyles (stylesUTF8 : List Style) : Nat → List (List UInt16) → List Style
  | _, [] => []
  | iUTF8, part :: others =>
    stylesUTF8[iUTF8]?.toList.flatMap (replicate part.length) ++
      ownStyles stylesUTF8 (iUTF8 + (utf8 (scalarOf part)).length) others

variable {stylesUTF8 : List Style} {iUTF8 : Nat} {chars : List UInt16}

theorem utf8Delta_eq (codepoint : UInt32) :
    utf8Delta codepoint = (encodeCodepoint codepoint).length := by
  unfold utf8Delta encodeCodepoint
  split_ifs <;> rfl

/-- The two decoders were written apart, and agree. -/
theorem decodeUTF16_eq (val : UInt16) (rest : List UInt16) :
    decodeUTF16 val rest = decodeUnichars val rest := by
  cases rest <;> rfl

/-! ## Room for the text -/

theorem length_utf8_le (v : Nat) : (utf8 v).length ≤ 4 ∧ (v < 0x10000 → (utf8 v).length ≤ 3) := by
  unfold utf8
  split_ifs with _ _ hthree
  · simp
  · simp
  · simp
  · simp [hthree]

theorem scalarOf_unit_lt (unit : UInt16) : scalarOf [unit] < 0x10000 := by
  have hlt := unit.toNat_lt
  show (if isSurrogate unit then 0xFFFD else unit.toNat) < 0x10000
  split
  · omega
  · exact hlt

theorem length_encoded_le (chars : List UInt16) :
    (encoded (symbols chars)).length ≤ 3 * chars.length := by
  have hunit (unit : UInt16) := (length_utf8_le (scalarOf [unit])).2 (scalarOf_unit_lt unit)
  induction chars using symbols.induct with
  | case1 => exact Nat.le_refl 0
  | case2 unit =>
    rw [symbols, encoded_cons, length_append]
    exact hunit unit
  | case3 lead trail rest h ih =>
    obtain ⟨hlead, htrail⟩ := Bool.and_eq_true_iff.mp h
    have hpair := (length_utf8_le (scalarOf [lead, trail])).1
    rw [symbols_pair hlead htrail, encoded_cons, length_append]
    simp only [length_cons]
    omega
  | case4 lead trail rest h ih =>
    have hlead := hunit lead
    rw [symbols_alone (Bool.eq_false_of_not_eq_true h), encoded_cons, length_append]
    simp only [length_cons] at ih ⊢
    omega

/-- The encoder is not cut short by its buffer. -/
theorem highlighted_eq (chars : List UInt16) :
    (highlighted chars).outputResult = (utf8Of chars).length ∧
      (highlighted chars).inputCharsEaten = chars.length := by
  cases chars with
  | nil => exact ⟨rfl, rfl⟩
  | cons val rest =>
    have hlength := length_encoded_le (val :: rest)
    have hroom : (utf8Of (val :: rest)).length < (val :: rest).length * 4 := by
      unfold utf8Of
      simp only [length_cons] at hlength ⊢
      omega
    unfold highlighted
    rw [interpretUnichars_eq _ (Nat.zero_lt_of_lt hroom), fitting_all hroom, symbols_flatten]
    exact ⟨rfl, rfl⟩

/-! ## The loop -/

theorem ownStyles_cons (h : iUTF8 < stylesUTF8.length) (part : List UInt16)
    (others : List (List UInt16)) :
    ownStyles stylesUTF8 iUTF8 (part :: others) = replicate part.length stylesUTF8[iUTF8] ++
      ownStyles stylesUTF8 (iUTF8 + (utf8 (scalarOf part)).length) others := by
  rw [ownStyles, getElem?_eq_getElem h, Option.toList_some, flatMap_singleton]

theorem mapLoop_eq (rounds : Nat) (hrounds : chars.length ≤ rounds)
    (hlength : iUTF8 + (encoded (symbols chars)).length = stylesUTF8.length)
    (painted : List Style) : mapLoop stylesUTF8 rounds chars iUTF8 painted =
      painted ++ ownStyles stylesUTF8 iUTF8 (symbols chars) := by
  induction rounds generalizing chars iUTF8 painted with
  | zero =>
    rw [eq_nil_of_length_eq_zero (Nat.le_zero.mp hrounds)]
    exact (append_nil painted).symm
  | succ rounds ih =>
    cases chars with
    | nil => exact (append_nil painted).symm
    | cons val rest =>
      obtain ⟨part, others, hfirst⟩ := exists_first val rest
      obtain ⟨hdrop, hothers, hpart⟩ := hfirst.drop
      have hleft : others.flatten.length ≤ rounds := by
        have hdropped := congrArg List.length hdrop
        rw [length_drop] at hdropped
        omega
      have hpos := utf8_length_pos (scalarOf part)
      rw [hfirst.taken, encoded_cons, length_append] at hlength
      have hstyle := getElem?_eq_getElem (l := stylesUTF8) (i := iUTF8) (by omega)
      unfold mapLoop
      rw [hstyle, decodeUTF16_eq, hfirst.decoded, hfirst.taken]
      dsimp only
      rw [utf8Delta_eq, encodeCodepoint_ofNat hfirst.scalar, hdrop,
        ih hleft (by rw [hothers]; omega), hothers]
      rw [ownStyles_cons (by omega), append_assoc]

theorem length_ownStyles (parts : List (List UInt16))
    (hlength : iUTF8 + (encoded parts).length = stylesUTF8.length) :
    (ownStyles stylesUTF8 iUTF8 parts).length = parts.flatten.length := by
  induction parts generalizing iUTF8 with
  | nil => rfl
  | cons part others ih =>
    have hpos := utf8_length_pos (scalarOf part)
    rw [encoded_cons, length_append] at hlength
    rw [ownStyles_cons (by omega), length_append, ih (by omega), flatten_cons, length_append,
      length_replicate]

theorem getElem?_ownStyles (before : List (List UInt16)) {after : List (List UInt16)}
    (hlength : iUTF8 + (encoded (before ++ part :: after)).length = stylesUTF8.length)
    (hi : i < part.length) : iUTF8 + (encoded before).length < stylesUTF8.length ∧
      (ownStyles stylesUTF8 iUTF8 (before ++ part :: after))[before.flatten.length + i]? =
        stylesUTF8[iUTF8 + (encoded before).length]? := by
  induction before generalizing iUTF8 with
  | nil =>
    have hpos := utf8_length_pos (scalarOf part)
    rw [nil_append, encoded_cons, length_append] at hlength
    refine ⟨by show iUTF8 + 0 < _; omega, ?_⟩
    show (ownStyles stylesUTF8 iUTF8 (part :: after))[0 + i]? = stylesUTF8[iUTF8 + 0]?
    rw [ownStyles_cons (by omega), Nat.zero_add, getElem?_append_left (by rwa [length_replicate]),
      getElem?_replicate_of_lt hi]
    exact (getElem?_eq_getElem (by omega)).symm
  | cons first before ih =>
    have hpos := utf8_length_pos (scalarOf first)
    rw [cons_append, encoded_cons, length_append, ← Nat.add_assoc] at hlength
    obtain ⟨hlt, hstyle⟩ := ih hlength
    rw [encoded_cons, length_append, ← Nat.add_assoc]
    refine ⟨hlt, hstyle.symm ▸ ?_⟩
    rw [cons_append, ownStyles_cons (by omega), flatten_cons, length_append, Nat.add_assoc,
      getElem?_append_right (by rw [length_replicate]; omega), length_replicate,
      Nat.add_sub_cancel_left]

/-- Every unit gets the style of the first byte of its own code point, whatever the units are. -/
theorem maps_styles (chars : List UInt16) (stylesUTF8 stylesUTF16 : List Style)
    (hstyles : stylesUTF8.length = (highlighted chars).outputResult)
    (hroom : stylesUTF16.length = chars.length) :
    Maps chars stylesUTF8 (mapUTF8ToUTF16 stylesUTF8 chars stylesUTF16) := by
  obtain ⟨hresult, hwhole⟩ := highlighted_eq chars
  have hlength : 0 + (encoded (symbols chars)).length = stylesUTF8.length := by
    rw [hstyles, hresult, Nat.zero_add]
    rfl
  have hmapped : mapUTF8ToUTF16 stylesUTF8 chars stylesUTF16 =
      ownStyles stylesUTF8 0 (symbols chars) := by
    unfold mapUTF8ToUTF16
    rw [mapLoop_eq _ (Nat.le_refl _) hlength, nil_append]
    dsimp only
    rw [length_ownStyles _ hlength, symbols_flatten, ← hroom, drop_length, append_nil]
  rw [hmapped]
  refine ⟨hwhole, utf8Delta_eq, ?_, fun before part after hsymbols i hi => ?_⟩
  · rw [length_ownStyles _ hlength, symbols_flatten]
  · rw [hsymbols] at hlength ⊢
    obtain ⟨hlt, hstyle⟩ := getElem?_ownStyles before hlength hi
    rw [Nat.zero_add] at hlt hstyle
    exact ⟨hlt, hstyle⟩

/-- A letter, a lone surrogate and a pair. -/
theorem maps_styles_lone : Maps [0x61, 0xDC00, 0xD83D, 0xDE00] [1, 2, 2, 2, 3, 3, 3, 3]
    (mapUTF8ToUTF16 [1, 2, 2, 2, 3, 3, 3, 3] [0x61, 0xDC00, 0xD83D, 0xDE00] [0, 0, 0, 0]) :=
  maps_styles _ _ _ (by decide) rfl

end WinCommander.Viewer.Highlighting
