/-
  What is read of the tags that were written.

  A newline and a digit at the end of a text are a colour, whoever put them there, and the name of a
  colour that is not ASCII stands for it. Everything else is read as it was written
  (`parse_build`), so that a tag that is added or removed leaves the others as they are.
-/
import WinCommander.Utility.Tags

namespace WinCommander.Utility

open Library List Option Nat UInt8 Attribute

/-! ## What is asked for -/

/-- The colour that the end of a text says. -/
def suffixIn {α : Type} (value : α → Nat) (text : List α) : Option Color :=
  match text.drop (text.length - 2) with
  | [newline, digit] =>
    if 3 ≤ text.length ∧ value newline = 0x0A ∧ isColorDigit (value digit) then
      some (Color.ofCode (value digit - 0x30))
    else none
  | _ => none

/-- A label without a colour may say one by its end or, if it is not ASCII, by its name. -/
def readBack (tag : Tag) : Tag :=
  if tag.color ≠ .none then tag
  else
    match suffixIn UInt8.toNat tag.label with
    | some color => ⟨tag.label.take (tag.label.length - 2), color⟩
    | none => ⟨tag.label, if isASCII tag.label then .none else (colorOfName tag.label).getD .none⟩

/-- Valid UTF-8 that is not empty. -/
def ValidLabel (label : Bytes) : Prop :=
  ∃ scalars : List Nat, scalars ≠ [] ∧ (∀ v ∈ scalars, IsScalar v) ∧ label = scalars.flatMap utf8

/-- How many characters or units the object of a tag has. -/
def writtenSize (cf : CoreFoundation) (tag : Tag) : Nat :=
  (if isASCII tag.label then tag.label.length else ((cf.toUTF16 tag.label).getD []).length) +
    (colorText tag.color).length

/-- A label of less than 4 GB; one that is not ASCII is read as a string of C. -/
structure Writable (cf : CoreFoundation) (tag : Tag) : Prop where
  valid : ValidLabel tag.label
  size : writtenSize cf tag < 2 ^ 32
  plain : isASCII tag.label = false → 0 ∉ tag.label

/-! ## The end of a text -/

theorem ofCode_eq_iff {code : Nat} (h : code < 8) (color : Color) :
    Color.ofCode code = color ↔ code = color.code := by
  constructor
  · rintro rfl
    match code, h with
    | 0, _ | 1, _ | 2, _ | 3, _ | 4, _ | 5, _ | 6, _ | 7, _ => rfl
  · rintro rfl
    exact Color.ofCode_code color

theorem isColorDigit_iff (unit : Nat) : isColorDigit unit ↔ 0x30 ≤ unit ∧ unit < 0x38 := by
  unfold isColorDigit
  rw [Bool.and_eq_true, decide_eq_true_eq, decide_eq_true_eq]
  omega

variable {α : Type} {text : List α}

theorem suffixIn_append (value : α → Nat) (rest : List α) (newline digit : α) :
    suffixIn value (rest ++ [newline, digit]) =
      if rest ≠ [] ∧ value newline = 0x0A ∧ isColorDigit (value digit) then
        some (Color.ofCode (value digit - 0x30)) else none := by
  have hdrop : (rest ++ [newline, digit]).drop ((rest ++ [newline, digit]).length - 2) =
      [newline, digit] := by
    rw [length_append]
    exact drop_left
  have hlong : 3 ≤ (rest ++ [newline, digit]).length ↔ rest ≠ [] := by
    rw [length_append, ← length_pos_iff]
    show 3 ≤ rest.length + 2 ↔ _
    omega
  unfold suffixIn
  rw [hdrop]
  exact if_congr (and_congr_left fun _ => hlong) rfl rfl

/-- All that is longer than one has two at its end. -/
theorem exists_end (h : 2 ≤ text.length) :
    ∃ rest newline digit, text = rest ++ [newline, digit] := by
  have hlength : (text.drop (text.length - 2)).length = 2 := by
    rw [length_drop]
    omega
  match hend : text.drop (text.length - 2), hlength with
  | [newline, digit], _ =>
    refine ⟨text.take (text.length - 2), newline, digit, ?_⟩
    rw [← hend, take_append_drop]

theorem suffixIn_short {value : α → Nat} (h : text.length < 3) : suffixIn value text = none := by
  by_cases htwo : 2 ≤ text.length
  · obtain ⟨rest, newline, digit, rfl⟩ := exists_end htwo
    have hrest : rest = [] := by
      rw [length_append] at h
      refine eq_nil_of_length_eq_zero ?_
      change rest.length + 2 < 3 at h
      omega
    rw [suffixIn_append, if_neg fun hlong => hlong.1 hrest]
  · match text, htwo with
    | [], _ => rfl
    | [_], _ => rfl
    | _ :: _ :: rest, htwo => exact absurd (Nat.le_add_left 2 rest.length) htwo

theorem suffixIn_eq_some_iff (value : α → Nat) (text : List α) (color : Color) :
    suffixIn value text = some color ↔ ∃ rest newline digit, rest ≠ [] ∧
      text = rest ++ [newline, digit] ∧ value newline = 0x0A ∧ value digit = 0x30 + color.code := by
  constructor
  · intro h
    by_cases hshort : text.length < 3
    · rw [suffixIn_short hshort] at h
      cases h
    · obtain ⟨rest, newline, digit, rfl⟩ := @exists_end α text (by omega)
      rw [suffixIn_append] at h
      by_cases hsuffix : rest ≠ [] ∧ value newline = 0x0A ∧ isColorDigit (value digit)
      · rw [if_pos hsuffix] at h
        obtain ⟨hrest, hnewline, hdigit⟩ := hsuffix
        rw [isColorDigit_iff] at hdigit
        have hcode := (ofCode_eq_iff (by omega) color).mp (Option.some.inj h)
        exact ⟨rest, newline, digit, hrest, rfl, hnewline, by omega⟩
      · rw [if_neg hsuffix] at h
        cases h
  · rintro ⟨rest, newline, digit, hrest, rfl, hnewline, hdigit⟩
    have hcode := color.code_lt
    have hisDigit : isColorDigit (value digit) := by
      rw [isColorDigit_iff]
      omega
    rw [suffixIn_append, if_pos ⟨hrest, hnewline, hisDigit⟩, hdigit, Nat.add_sub_cancel_left,
      Color.ofCode_code]

/-! ## A text and what encodes it -/

/-- An encoding that keeps ASCII as it is, and uses it for nothing else. -/
structure KeepsASCII {α : Type} (value : α → Nat) (encode : Nat → List α) : Prop where
  inj : ∀ a b, value a = value b → a = b
  ascii : ∀ v < 0x80, ∃ a, encode v = [a] ∧ value a = v
  other : ∀ v, IsScalar v → 0x80 ≤ v → encode v ≠ [] ∧ ∀ a ∈ encode v, 0x80 ≤ value a

theorem keepsASCII_utf8 : KeepsASCII UInt8.toNat utf8 where
  inj _ _ h := UInt8.toNat_inj.mp h
  ascii v hv := by
    refine ⟨UInt8.ofNat v, ?_, ?_⟩
    · unfold utf8
      rw [if_pos hv]
    · rw [toNat_ofNat']
      omega
  other v hv hlarge := by
    have hlt := lt_of_isScalar hv
    have hcontinuation : ∀ n, 0x80 ≤ (continuation n).toNat := by
      intro n
      unfold continuation
      rw [toNat_ofNat']
      omega
    unfold utf8
    rw [if_neg (by omega)]
    split
    · refine ⟨cons_ne_nil _ _, ?_⟩
      simp only [forall_mem_cons, toNat_ofNat']
      exact ⟨by omega, hcontinuation _, fun _ h => absurd h not_mem_nil⟩
    · split
      · refine ⟨cons_ne_nil _ _, ?_⟩
        simp only [forall_mem_cons, toNat_ofNat']
        exact ⟨by omega, hcontinuation _, hcontinuation _, fun _ h => absurd h not_mem_nil⟩
      · refine ⟨cons_ne_nil _ _, ?_⟩
        simp only [forall_mem_cons, toNat_ofNat']
        exact ⟨by omega, hcontinuation _, hcontinuation _, hcontinuation _,
          fun _ h => absurd h not_mem_nil⟩

theorem keepsASCII_utf16 : KeepsASCII UInt16.toNat utf16 where
  inj _ _ h := UInt16.toNat_inj.mp h
  ascii v hv := by
    refine ⟨UInt16.ofNat v, ?_, ?_⟩
    · unfold utf16
      rw [if_pos (by omega)]
    · rw [UInt16.toNat_ofNat']
      omega
  other v hv hlarge := by
    have hlt := lt_of_isScalar hv
    unfold utf16
    split
    · refine ⟨cons_ne_nil _ _, ?_⟩
      simp only [forall_mem_cons, UInt16.toNat_ofNat']
      exact ⟨by omega, fun _ h => absurd h not_mem_nil⟩
    · refine ⟨cons_ne_nil _ _, ?_⟩
      simp only [forall_mem_cons, UInt16.toNat_ofNat']
      exact ⟨by omega, by omega, fun _ h => absurd h not_mem_nil⟩

theorem KeepsASCII.encode_ne_nil {value : α → Nat} {encode : Nat → List α}
    (h : KeepsASCII value encode) {v : Nat} (hv : IsScalar v) : encode v ≠ [] := by
  by_cases hsmall : v < 0x80
  · obtain ⟨a, ha, -⟩ := h.ascii v hsmall
    rw [ha]
    exact cons_ne_nil a []
  · exact (h.other v hv (Nat.not_lt.mp hsmall)).1

theorem KeepsASCII.flatMap_ne_nil {value : α → Nat} {encode : Nat → List α}
    (h : KeepsASCII value encode) {scalars : List Nat} (hscalars : ∀ v ∈ scalars, IsScalar v)
    (hne : scalars ≠ []) : scalars.flatMap encode ≠ [] := by
  obtain ⟨v, rest, rfl⟩ := exists_cons_of_ne_nil hne
  exact append_ne_nil_of_left_ne_nil
    (h.encode_ne_nil (hscalars v mem_cons_self)) _

/-- A text that ends in ASCII encodes it last. -/
theorem KeepsASCII.last {value : α → Nat} {encode : Nat → List α} (h : KeepsASCII value encode)
    {scalars : List Nat} (hscalars : ∀ v ∈ scalars, IsScalar v) {a : α}
    (htext : scalars.flatMap encode = text ++ [a]) (ha : value a < 0x80) :
    ∃ rest, scalars = rest ++ [value a] ∧ text = rest.flatMap encode := by
  rcases eq_nil_or_concat scalars with rfl | ⟨rest, v, rfl⟩
  · exact absurd htext.symm (List.concat_ne_nil a text)
  · rw [concat_eq_append] at hscalars htext ⊢
    have hv := hscalars v (mem_append_right rest mem_cons_self)
    rw [flatMap_append, flatMap_singleton] at htext
    by_cases hsmall : v < 0x80
    · obtain ⟨b, hb, hvalue⟩ := h.ascii v hsmall
      rw [hb] at htext
      obtain ⟨hrest, hlast⟩ := append_inj' htext rfl
      obtain rfl := singleton_inj.mp hlast
      rw [hvalue]
      exact ⟨rest, rfl, hrest.symm⟩
    · obtain ⟨hne, hlarge⟩ := h.other v hv (Nat.not_lt.mp hsmall)
      obtain ⟨init, b, hb⟩ := (eq_nil_or_concat (encode v)).resolve_left hne
      rw [hb, concat_eq_append, ← append_assoc] at htext
      obtain ⟨-, hlast⟩ := append_inj' htext rfl
      obtain rfl := singleton_inj.mp hlast
      have hmem : b ∈ encode v := by
        rw [hb, concat_eq_append]
        exact mem_append_right init mem_cons_self
      exact absurd ha (Nat.not_lt.mpr (hlarge b hmem))

/-- The end of the text is the end of what it encodes. -/
theorem KeepsASCII.suffixIn_iff {value : α → Nat} {encode : Nat → List α}
    (h : KeepsASCII value encode) {scalars : List Nat} (hscalars : ∀ v ∈ scalars, IsScalar v)
    (color : Color) : suffixIn value (scalars.flatMap encode) = some color ↔
      ∃ rest, rest ≠ [] ∧ scalars = rest ++ [0x0A, 0x30 + color.code] := by
  have hcode := color.code_lt
  rw [suffixIn_eq_some_iff]
  constructor
  · rintro ⟨text, newline, digit, htext, hflat, hnewline, hdigit⟩
    have hflat' : scalars.flatMap encode = (text ++ [newline]) ++ [digit] := by
      rw [hflat, append_assoc]
      rfl
    obtain ⟨before, rfl, hbefore⟩ := h.last hscalars hflat' (by omega)
    have hscalars' : ∀ v ∈ before, IsScalar v := fun v hv =>
      hscalars v (mem_append_left _ hv)
    obtain ⟨rest, rfl, hrest⟩ := h.last hscalars' hbefore.symm (by omega)
    refine ⟨rest, ?_, ?_⟩
    · rintro rfl
      exact htext hrest
    · rw [hnewline, hdigit, append_assoc]
      rfl
  · rintro ⟨rest, hrest, rfl⟩
    obtain ⟨newline, hnewline, hvalue⟩ := h.ascii 0x0A (by decide)
    obtain ⟨digit, hdigit, hvalue'⟩ := h.ascii (0x30 + color.code) (by omega)
    have hscalars' : ∀ v ∈ rest, IsScalar v := fun v hv =>
      hscalars v (mem_append_left _ hv)
    refine ⟨rest.flatMap encode, newline, digit, h.flatMap_ne_nil hscalars' hrest, ?_, hvalue,
      hvalue'⟩
    rw [flatMap_append, flatMap_cons, flatMap_singleton, hnewline, hdigit]
    rfl

theorem suffixIn_utf16 {scalars : List Nat} (hscalars : ∀ v ∈ scalars, IsScalar v) :
    suffixIn UInt16.toNat (scalars.flatMap utf16) = suffixIn UInt8.toNat (scalars.flatMap utf8) :=
  Option.ext fun color => (keepsASCII_utf16.suffixIn_iff hscalars color).trans
    (keepsASCII_utf8.suffixIn_iff hscalars color).symm

/-- What remains without the colour. -/
theorem KeepsASCII.take_suffix {value : α → Nat} {encode : Nat → List α}
    (h : KeepsASCII value encode) (rest : List Nat) {color : Color} :
    ((rest ++ [0x0A, 0x30 + color.code]).flatMap encode).take
      (((rest ++ [0x0A, 0x30 + color.code]).flatMap encode).length - 2) = rest.flatMap encode := by
  have hcode := color.code_lt
  obtain ⟨newline, hnewline, -⟩ := h.ascii 0x0A (by decide)
  obtain ⟨digit, hdigit, -⟩ := h.ascii (0x30 + color.code) (by omega)
  rw [flatMap_append, flatMap_cons, flatMap_singleton, hnewline, hdigit, length_append]
  exact take_left

/-! ## One object -/

/-- What a text is read as. -/
def readText (ascii : Bool) (text : Bytes) : Tag :=
  match suffixIn UInt8.toNat text with
  | some color => ⟨text.take (text.length - 2), color⟩
  | none => ⟨text, if ascii then .none else (colorOfName text).getD .none⟩

theorem readText_written {tag : Tag} (hlabel : tag.label ≠ []) :
    readText (isASCII tag.label) (tag.label ++ (colorText tag.color).map UInt8.ofNat) =
      readBack tag := by
  unfold readText readBack colorText
  by_cases hcolor : tag.color = .none
  · rw [if_pos hcolor, if_neg (not_not.mpr hcolor), map_nil, append_nil]
  · have hcode := tag.color.code_lt
    have hdigit : (UInt8.ofNat (0x30 + tag.color.code)).toNat = 0x30 + tag.color.code := by
      rw [toNat_ofNat']
      omega
    have hsuffix : suffixIn UInt8.toNat (tag.label ++ [0x0A, UInt8.ofNat (0x30 + tag.color.code)]) =
        some tag.color :=
      (suffixIn_eq_some_iff _ _ _).mpr ⟨tag.label, _, _, hlabel, rfl, rfl, hdigit⟩
    rw [if_neg hcolor, if_pos hcolor]
    show (match suffixIn UInt8.toNat (tag.label ++ [0x0A, UInt8.ofNat (0x30 + tag.color.code)]) with
      | some color => _
      | none => _) = tag
    rw [hsuffix, length_append]
    show Tag.mk ((tag.label ++ [0x0A, UInt8.ofNat (0x30 + tag.color.code)]).take tag.label.length)
      tag.color = tag
    rw [take_left]

theorem parseTagASCII_eq {text : Bytes} (htext : text ≠ []) :
    parseTagASCII text = some (readText true text) := by
  by_cases htwo : 2 ≤ text.length
  · obtain ⟨rest, newline, digit, rfl⟩ := exists_end htwo
    have hdrop : (rest ++ [newline, digit]).drop ((rest ++ [newline, digit]).length - 2) =
        [newline, digit] := by
      rw [length_append]
      exact drop_left
    have hnewline : newline.toNat = 0x0A ↔ newline = 0x0A := by
      rw [← UInt8.toNat_inj]
      exact Iff.rfl
    unfold parseTagASCII readText suffixIn
    rw [if_neg htext, hdrop]
    simp only [hnewline]
    split <;> rfl
  · match text, htext, htwo with
    | [_], _, _ => rfl
    | _ :: _ :: rest, _, htwo => exact absurd (Nat.le_add_left 2 rest.length) htwo

theorem readRange_at {bytes before middle after : Bytes} {offset length : Nat}
    (hbytes : bytes = before ++ (middle ++ after)) (hoffset : offset = before.length)
    (hlength : length = middle.length) : readRange bytes offset length = some middle := by
  subst hbytes hoffset hlength
  exact readRange_append before middle after

theorem readRange_byte (before : Bytes) (byte : UInt8) (after : Bytes) :
    readRange (before ++ ([byte] ++ after)) before.length 1 = some [byte] :=
  readRange_append before [byte] after

theorem bigEndian_singleton (byte : UInt8) : bigEndian [byte] = byte.toNat := Nat.zero_add _

/-- The kind of an object, and a small length or 15. -/
theorem marker_written (before after : Bytes) {markerType size : Nat}
    (hbyte : markerType + 15 < 256) :
    (readRange (before ++ (writeVarSize markerType size ++ after)) before.length 1).map bigEndian =
      some (markerType + min size 15) := by
  have hfirst : ∀ n < 256, (UInt8.ofNat n).toNat = n := fun n hn => by
    rw [toNat_ofNat']
    omega
  unfold writeVarSize
  by_cases hsmall : size < 15
  · rw [if_pos hsmall, readRange_byte, map_some, bigEndian_singleton,
      hfirst _ (by omega), Nat.min_eq_left (by omega)]
  · have hmarker : ∀ rest : Bytes, (readRange
        (before ++ ([UInt8.ofNat (markerType + 15)] ++ rest)) before.length 1).map bigEndian =
        some (markerType + min size 15) := fun rest => by
      rw [readRange_byte, map_some, bigEndian_singleton, hfirst _ (by omega),
        Nat.min_eq_right (by omega)]
    rw [if_neg hsmall]
    split
    · exact hmarker _
    · split <;> exact hmarker _

/-- The length that was written with a size of its own. -/
theorem extractVarLen_long {before after digits : Bytes} {markerType size exponent : Nat}
    (hlow : markerType % 16 = 0) (hbyte : markerType < 256) (hexponent : exponent < 4)
    (hdigits : digits.length = 2 ^ exponent) (hvalue : bigEndian digits = size)
    (hplace : before.length + 16 < 2 ^ 64) :
    extractVarLen (before ++ ([UInt8.ofNat (markerType + 15), UInt8.ofNat (0x10 + exponent)] ++
        digits ++ after)) before.length =
      some (some ⟨size, before.length + (2 + 2 ^ exponent)⟩) := by
  have hpower : 2 ^ exponent ≤ 8 := by
    rw [show 8 = 2 ^ 3 from rfl]
    exact Nat.pow_le_pow_right (by decide) (by omega)
  have hsized : 2 ^ exponent = 1 ∨ 2 ^ exponent = 2 ∨ 2 ^ exponent = 4 ∨ 2 ^ exponent = 8 := by
    match exponent, hexponent with
    | 0, _ | 1, _ | 2, _ | 3, _ => decide
  have hfirst : (UInt8.ofNat (markerType + 15)).toNat = markerType + 15 := by
    rw [toNat_ofNat']
    omega
  have hsecond : (UInt8.ofNat (0x10 + exponent)).toNat = 0x10 + exponent := by
    rw [toNat_ofNat']
    omega
  have hnext : wrap (before.length + 1) = (before ++ [UInt8.ofNat (markerType + 15)]).length := by
    rw [wrap_of_lt (by omega), length_append, length_singleton]
  have hafter : wrap (before.length + 2) =
      (before ++ [UInt8.ofNat (markerType + 15), UInt8.ofNat (0x10 + exponent)]).length := by
    rw [wrap_of_lt (by omega), length_append]
    rfl
  have hend : wrap (before.length + 2 + 2 ^ exponent) = before.length + (2 + 2 ^ exponent) := by
    rw [wrap_of_lt (by omega), Nat.add_assoc]
  have hreadFirst := readRange_append before [UInt8.ofNat (markerType + 15)]
    ([UInt8.ofNat (0x10 + exponent)] ++ digits ++ after)
  have hreadSecond := readRange_append (before ++ [UInt8.ofNat (markerType + 15)])
    [UInt8.ofNat (0x10 + exponent)] (digits ++ after)
  have hreadDigits := readRange_append
    (before ++ [UInt8.ofNat (markerType + 15), UInt8.ofNat (0x10 + exponent)]) digits after
  simp only [append_assoc, cons_append, nil_append, length_cons,
    length_nil] at hreadFirst hreadSecond hreadDigits hnext hafter ⊢
  unfold extractVarLen getSizedInt
  dsimp only [bind_eq_bind]
  rw [hreadFirst]
  dsimp only [bind_some]
  rw [bigEndian_singleton, hfirst, if_pos (by omega), hnext, hreadSecond]
  dsimp only [bind_some]
  rw [bigEndian_singleton, hsecond, if_neg (by omega),
    show (0x10 + exponent) % 16 = exponent by omega, if_pos hsized, hafter, ← hdigits, hreadDigits,
    hdigits, hend]
  dsimp only [map_some, bind_some]
  rw [hvalue]
  rfl

theorem extractVarLen_written {before after : Bytes} {markerType size : Nat}
    (hlow : markerType % 16 = 0) (hbyte : markerType < 256) (hsize : size < 2 ^ 32)
    (hplace : before.length + 16 < 2 ^ 64) :
    extractVarLen (before ++ (writeVarSize markerType size ++ after)) before.length =
      some (some ⟨size, before.length + (writeVarSize markerType size).length⟩) := by
  unfold writeVarSize
  by_cases hsmall : size < 15
  · have hfirst : (UInt8.ofNat (markerType + size)).toNat = markerType + size := by
      rw [toNat_ofNat']
      omega
    rw [if_pos hsmall]
    unfold extractVarLen
    dsimp only [bind_eq_bind]
    rw [readRange_byte]
    dsimp only [bind_some]
    rw [bigEndian_singleton, hfirst, if_neg (by omega), wrap_of_lt (by omega),
      show (markerType + size) % 16 = size by omega]
    rfl
  · rw [if_neg hsmall]
    by_cases hbyteSize : size < 256
    · have hdigit : (UInt8.ofNat size).toNat = size := by
        rw [toNat_ofNat']
        omega
      rw [if_pos hbyteSize]
      exact @extractVarLen_long before after [UInt8.ofNat size] markerType size 0 hlow hbyte
        (by decide) rfl ((bigEndian_singleton _).trans hdigit) hplace
    · rw [if_neg hbyteSize]
      split_ifs
      · have hread := @extractVarLen_long before after (bigEndianBytes 2 size) markerType size 1
          hlow hbyte (by decide) (length_bigEndianBytes 2 size)
          (bigEndian_bigEndianBytes (by omega)) hplace
        exact hread
      · have hread := @extractVarLen_long before after (bigEndianBytes 4 size) markerType size 2
          hlow hbyte (by decide) (length_bigEndianBytes 4 size)
          (bigEndian_bigEndianBytes (by omega)) hplace
        exact hread

theorem bytesOfUnits_cons (unit : UInt16) (units : List UInt16) :
    bytesOfUnits (unit :: units) = bigEndianBytes 2 unit.toNat ++ bytesOfUnits units :=
  flatMap_cons

theorem bytesOfUnits_append (units others : List UInt16) :
    bytesOfUnits (units ++ others) = bytesOfUnits units ++ bytesOfUnits others :=
  flatMap_append

theorem length_bytesOfUnits (units : List UInt16) : (bytesOfUnits units).length = units.length * 2 := by
  induction units with
  | nil => rfl
  | cons unit units ih =>
    rw [bytesOfUnits_cons, length_append, length_bigEndianBytes, ih, length_cons]
    omega

theorem bigEndian_unit (unit : UInt16) : bigEndian (bigEndianBytes 2 unit.toNat) = unit.toNat :=
  bigEndian_bigEndianBytes unit.toNat_lt

theorem unitsOfBytes_bytesOfUnits (units : List UInt16) : unitsOfBytes (bytesOfUnits units) = units := by
  induction units with
  | nil => rfl
  | cons unit units ih =>
    rw [bytesOfUnits_cons]
    show UInt16.ofNat (bigEndian (bigEndianBytes 2 unit.toNat)) :: unitsOfBytes (bytesOfUnits units) =
      unit :: units
    rw [bigEndian_unit, UInt16.ofNat_toNat, ih]

theorem unitAt_written {before after : Bytes} {left right : List UInt16} {unit : UInt16} {place : Nat}
    (hplace : place = left.length) (hsize : before.length + 2 * left.length < 2 ^ 64) :
    unitAt (before ++ (bytesOfUnits (left ++ unit :: right) ++ after)) before.length place =
      some unit.toNat := by
  have hbytes : before ++ (bytesOfUnits (left ++ unit :: right) ++ after) =
      (before ++ bytesOfUnits left) ++
        (bigEndianBytes 2 unit.toNat ++ (bytesOfUnits right ++ after)) := by
    rw [bytesOfUnits_append, bytesOfUnits_cons, append_assoc, append_assoc, append_assoc]
  have hstart : wrap (before.length + 2 * place) = (before ++ bytesOfUnits left).length := by
    rw [hplace, wrap_of_lt hsize, length_append, length_bytesOfUnits, Nat.mul_comm]
  unfold unitAt
  rw [readRange_at hbytes hstart (length_bigEndianBytes 2 unit.toNat).symm, map_some,
    bigEndian_unit]

theorem colorSuffix_written {before after : Bytes} {units : List UInt16}
    (hsize : before.length + 2 * units.length < 2 ^ 64) :
    colorSuffix (before ++ (bytesOfUnits units ++ after)) before.length units.length =
      some (suffixIn UInt16.toNat units) := by
  unfold colorSuffix
  split_ifs with hshort
  · rw [suffixIn_short hshort]
    rfl
  · obtain ⟨rest, newline, digit, rfl⟩ := @exists_end UInt16 units (by omega)
    have hlength : (rest ++ [newline, digit]).length = rest.length + 2 := length_append
    have hrest : rest ≠ [] := by
      rintro rfl
      exact hshort (lt_succ_self 2)
    have hsplit : rest ++ [newline, digit] = (rest ++ [newline]) ++ [digit] := by
      rw [append_assoc]
      rfl
    have hnewline : unitAt (before ++ (bytesOfUnits (rest ++ [newline, digit]) ++ after)) before.length
        ((rest ++ [newline, digit]).length - 2) = some newline.toNat :=
      unitAt_written (by omega) (by omega)
    have hdigit : unitAt (before ++ (bytesOfUnits (rest ++ [newline, digit]) ++ after)) before.length
        ((rest ++ [newline, digit]).length - 1) = some digit.toNat := by
      rw [hsplit]
      refine unitAt_written ?_ ?_
      · rw [← hsplit, hlength, length_append]
        rfl
      · rw [length_append, length_singleton]
        omega
    rw [hnewline, hdigit, suffixIn_append]
    dsimp only [bind_eq_bind, bind_some]
    by_cases hvalue : newline.toNat = 0x0A
    · rw [if_neg (not_not.mpr hvalue)]
      by_cases hcolor : isColorDigit digit.toNat
      · rw [if_pos hcolor, if_pos ⟨hrest, hvalue, hcolor⟩]
        rfl
      · rw [if_neg hcolor, if_neg fun h => hcolor h.2.2]
        rfl
    · rw [if_pos hvalue, if_neg fun h => hvalue h.2.1]
      rfl

/-- A zero byte is a zero. -/
theorem takeWhile_utf8 {scalars : List Nat} (hscalars : ∀ v ∈ scalars, IsScalar v)
    (hzero : 0 ∉ scalars) : (scalars.flatMap utf8).takeWhile (· ≠ 0) = scalars.flatMap utf8 := by
  rw [takeWhile_eq_self_iff]
  intro byte hbyte
  obtain ⟨v, hv, hmem⟩ := mem_flatMap.mp hbyte
  refine decide_eq_true fun h => ?_
  subst h
  by_cases hsmall : v < 0x80
  · obtain ⟨b, hb, hvalue⟩ := keepsASCII_utf8.ascii v hsmall
    rw [hb, mem_singleton] at hmem
    subst hmem
    obtain rfl : 0 = v := hvalue
    exact hzero hv
  · have hlarge := (keepsASCII_utf8.other v (hscalars v hv) (Nat.not_lt.mp hsmall)).2 0 hmem
    cases hlarge

theorem parseTagUTF16_written (cf : CoreFoundation) {before after : Bytes} {scalars : List Nat}
    (hne : scalars ≠ []) (hscalars : ∀ v ∈ scalars, IsScalar v) (hzero : 0 ∉ scalars)
    (hsize : before.length + 2 * (scalars.flatMap utf16).length < 2 ^ 64) :
    parseTagUTF16 cf (before ++ (bytesOfUnits (scalars.flatMap utf16) ++ after)) before.length
        (scalars.flatMap utf16).length = some (some (readText false (scalars.flatMap utf8))) := by
  have hempty : (scalars.flatMap utf16).length ≠ 0 := fun h =>
    keepsASCII_utf16.flatMap_ne_nil hscalars hne (eq_nil_of_length_eq_zero h)
  unfold parseTagUTF16 readText
  rw [if_neg hempty, colorSuffix_written hsize, suffixIn_utf16 hscalars]
  cases hsuffix : suffixIn UInt8.toNat (scalars.flatMap utf8) with
  | none =>
    have htext : readRange (before ++ (bytesOfUnits (scalars.flatMap utf16) ++ after)) before.length
        (wrap ((scalars.flatMap utf16).length * 2)) = some (bytesOfUnits (scalars.flatMap utf16)) := by
      refine readRange_at rfl rfl ?_
      rw [wrap_of_lt (by omega), length_bytesOfUnits]
    show (readRange (before ++ (bytesOfUnits (scalars.flatMap utf16) ++ after)) before.length
      (wrap ((scalars.flatMap utf16).length * 2))).bind _ = _
    rw [htext]
    dsimp only [bind_some]
    rw [unitsOfBytes_bytesOfUnits, cf.toUTF8_scalars scalars hscalars]
    dsimp only
    rw [takeWhile_utf8 hscalars hzero]
    rfl
  | some color =>
    obtain ⟨rest, -, rfl⟩ := (keepsASCII_utf8.suffixIn_iff hscalars color).mp hsuffix
    have hscalars' : ∀ v ∈ rest, IsScalar v := fun v hv => hscalars v (mem_append_left _ hv)
    have hzero' : 0 ∉ rest := fun h => hzero (mem_append_left _ h)
    have hunits : (rest ++ [0x0A, 0x30 + color.code]).flatMap utf16 =
        rest.flatMap utf16 ++ [0x0A, 0x30 + color.code].flatMap utf16 := flatMap_append
    have hend : ([0x0A, 0x30 + color.code].flatMap utf16).length = 2 := by
      cases color <;> rfl
    have htext : readRange (before ++
        (bytesOfUnits ((rest ++ [0x0A, 0x30 + color.code]).flatMap utf16) ++ after)) before.length
        (wrap ((((rest ++ [0x0A, 0x30 + color.code]).flatMap utf16).length - 2) * 2)) =
        some (bytesOfUnits (rest.flatMap utf16)) := by
      refine @readRange_at _ before _ (bytesOfUnits ([0x0A, 0x30 + color.code].flatMap utf16) ++ after)
        _ _ ?_ rfl ?_
      · rw [hunits, bytesOfUnits_append, append_assoc]
      · rw [wrap_of_lt (by omega), length_bytesOfUnits, hunits, length_append, hend,
          Nat.add_sub_cancel]
    show (readRange (before ++
      (bytesOfUnits ((rest ++ [0x0A, 0x30 + color.code]).flatMap utf16) ++ after)) before.length
      (wrap ((((rest ++ [0x0A, 0x30 + color.code]).flatMap utf16).length - 2) * 2))).bind _ = _
    rw [htext]
    dsimp only [bind_some]
    rw [unitsOfBytes_bytesOfUnits, cf.toUTF8_scalars rest hscalars']
    dsimp only
    rw [takeWhile_utf8 hscalars' hzero', keepsASCII_utf8.take_suffix rest]
    rfl

variable (color : Color)

theorem colorText_scalar : ∀ v ∈ colorText color, IsScalar v ∧ v ≠ 0 := by
  cases color <;> decide

theorem colorText_utf8 : (colorText color).map UInt8.ofNat = (colorText color).flatMap utf8 := by
  cases color <;> rfl

theorem colorText_utf16 : (colorText color).map UInt16.ofNat = (colorText color).flatMap utf16 := by
  cases color <;> rfl

section Objects

variable {cf : CoreFoundation} {xattr : Attribute} {before after : Bytes} {tag : Tag} {objsEnd : Nat}

/-- A string of ASCII that was written before the table is read back. -/
theorem readObject_ascii (htag : Writable cf tag) (hascii : isASCII tag.label)
    (hbytes : xattr.bytes = before ++ (writePListObject cf tag ++ after))
    (hend : xattr.base + before.length + (writePListObject cf tag).length ≤ objsEnd) :
    readObject cf xattr objsEnd before.length = some (some (readBack tag)) := by
  obtain ⟨scalars, hne, hscalars, hlabel⟩ := htag.valid
  have hlabel' : tag.label ≠ [] := by
    rw [hlabel]
    exact keepsASCII_utf8.flatMap_ne_nil hscalars hne
  have hmapped := xattr.mapped
  have hsize := htag.size
  unfold writtenSize at hsize
  rw [if_pos hascii] at hsize
  generalize htext : tag.label ++ (colorText tag.color).map UInt8.ofNat = text
  have hlength : tag.label.length + (colorText tag.color).length = text.length := by
    rw [← htext, length_append, length_map]
  have hwritten : writePListObject cf tag = writeVarSize 0x50 text.length ++ text := by
    unfold writePListObject
    rw [if_pos hascii, append_assoc, htext, hlength]
  rw [hlength] at hsize
  rw [hwritten, append_assoc] at hbytes
  rw [hwritten, length_append] at hend
  have htotal : xattr.bytes.length =
      before.length + ((writeVarSize 0x50 text.length).length + (text.length + after.length)) := by
    rw [hbytes, length_append, length_append, length_append]
  have hmarker := @marker_written before (text ++ after) 0x50 text.length (by decide)
  obtain ⟨first, hfirst, hkind⟩ := map_eq_some_iff.mp hmarker
  have hvl := @extractVarLen_written before (text ++ after) 0x50 text.length (by decide) (by decide)
    hsize (by omega)
  have hread : readRange (before ++ (writeVarSize 0x50 text.length ++ (text ++ after)))
      (before.length + (writeVarSize 0x50 text.length).length) text.length = some text := by
    rw [← append_assoc, ← length_append]
    exact readRange_append _ text after
  have haddress : xattr.address
      (before.length + (writeVarSize 0x50 text.length).length + text.length) ≤ objsEnd := by
    unfold address
    rw [wrap_of_lt (by omega)]
    omega
  have htextNe : text ≠ [] := by
    rw [← htext]
    exact append_ne_nil_of_left_ne_nil hlabel' _
  unfold readObject
  dsimp only [bind_eq_bind]
  rw [hbytes, hfirst]
  dsimp only [bind_some]
  rw [hkind, if_pos (by omega), hvl]
  dsimp only [bind_some]
  rw [if_pos haddress, hread, ← readText_written hlabel', hascii, htext]
  dsimp only [bind_some]
  rw [parseTagASCII_eq htextNe]
  rfl

/-- So is a string of UTF-16, aligned or not. -/
theorem readObject_unicode (htag : Writable cf tag) (hunicode : isASCII tag.label = false)
    (hbytes : xattr.bytes = before ++ (writePListObject cf tag ++ after))
    (hend : xattr.base + before.length + (writePListObject cf tag).length ≤ objsEnd) :
    readObject cf xattr objsEnd before.length = some (some (readBack tag)) := by
  obtain ⟨scalars, hne, hscalars, hlabel⟩ := htag.valid
  have hlabel' : tag.label ≠ [] := by
    rw [hlabel]
    exact keepsASCII_utf8.flatMap_ne_nil hscalars hne
  have hzero : 0 ∉ scalars := by
    intro hmem
    refine htag.plain hunicode ?_
    rw [hlabel]
    exact mem_flatMap.mpr ⟨0, hmem, mem_cons_self⟩
  have hunits : cf.toUTF16 tag.label = some (scalars.flatMap utf16) := by
    rw [hlabel]
    exact cf.toUTF16_scalars scalars hscalars
  have hmapped := xattr.mapped
  have hsize := htag.size
  unfold writtenSize at hsize
  rw [hunicode, if_neg Bool.false_ne_true, hunits, getD_some] at hsize
  -- the label and its colour as one text
  generalize htotal : scalars ++ colorText tag.color = total
  have htotalNe : total ≠ [] := by
    rw [← htotal]
    exact append_ne_nil_of_left_ne_nil hne _
  have htotalScalars : ∀ v ∈ total, IsScalar v := by
    intro v hv
    rw [← htotal, mem_append] at hv
    exact hv.elim (hscalars v) fun hcolor => (colorText_scalar tag.color v hcolor).1
  have htotalZero : 0 ∉ total := by
    intro hmem
    rw [← htotal, mem_append] at hmem
    exact hmem.elim hzero fun hcolor => (colorText_scalar tag.color 0 hcolor).2 rfl
  have htotalUnits : scalars.flatMap utf16 ++ (colorText tag.color).map UInt16.ofNat =
      total.flatMap utf16 := by
    rw [← htotal, flatMap_append, colorText_utf16]
  have htotalBytes : tag.label ++ (colorText tag.color).map UInt8.ofNat = total.flatMap utf8 := by
    rw [← htotal, flatMap_append, colorText_utf8, hlabel]
  have hlength : (scalars.flatMap utf16).length + (colorText tag.color).length =
      (total.flatMap utf16).length := by
    rw [← htotalUnits, length_append, length_map]
  have hwritten : writePListObject cf tag = writeVarSize 0x60 (total.flatMap utf16).length ++
      bytesOfUnits (total.flatMap utf16) := by
    unfold writePListObject
    rw [hunicode, if_neg Bool.false_ne_true, hunits]
    dsimp only
    rw [append_assoc, ← bytesOfUnits_append, htotalUnits, hlength]
  rw [hlength] at hsize
  rw [hwritten, append_assoc] at hbytes
  rw [hwritten, length_append, length_bytesOfUnits] at hend
  have hsum : xattr.bytes.length = before.length +
      ((writeVarSize 0x60 (total.flatMap utf16).length).length +
        ((total.flatMap utf16).length * 2 + after.length)) := by
    rw [hbytes, length_append, length_append, length_append, length_bytesOfUnits]
  have hmarker := @marker_written before (bytesOfUnits (total.flatMap utf16) ++ after) 0x60
    (total.flatMap utf16).length (by decide)
  obtain ⟨first, hfirst, hkind⟩ := map_eq_some_iff.mp hmarker
  have hvl := @extractVarLen_written before (bytesOfUnits (total.flatMap utf16) ++ after) 0x60
    (total.flatMap utf16).length (by decide) (by decide) hsize (by omega)
  have haddress : xattr.address (before.length +
      (writeVarSize 0x60 (total.flatMap utf16).length).length +
        (total.flatMap utf16).length * 2) ≤ objsEnd := by
    unfold address
    rw [wrap_of_lt (by omega)]
    omega
  have hback : readText false (total.flatMap utf8) = readBack tag := by
    rw [← readText_written hlabel', hunicode, htotalBytes]
  have hparse := @parseTagUTF16_written cf (before ++ writeVarSize 0x60 (total.flatMap utf16).length)
    after total htotalNe htotalScalars htotalZero (by rw [length_append]; omega)
  have hcopy : readRange xattr.bytes
      (before.length + (writeVarSize 0x60 (total.flatMap utf16).length).length)
      (wrap ((total.flatMap utf16).length * 2)) = some (bytesOfUnits (total.flatMap utf16)) := by
    rw [hbytes, ← append_assoc, ← length_append]
    refine readRange_at rfl rfl ?_
    rw [wrap_of_lt (by omega), length_bytesOfUnits]
  have hparseCopy := @parseTagUTF16_written cf [] [] total htotalNe htotalScalars htotalZero
    (by rw [length_nil]; omega)
  rw [length_append, append_assoc, ← hbytes, hback] at hparse
  rw [append_nil, nil_append, length_nil, hback] at hparseCopy
  rw [← hbytes] at hfirst hvl
  unfold readObject
  dsimp only [bind_eq_bind]
  rw [hfirst]
  dsimp only [bind_some]
  rw [hkind, if_neg (by omega), if_pos (by omega), hvl]
  dsimp only [bind_some]
  rw [if_pos haddress, hcopy]
  dsimp only [bind_some]
  rw [hparse, hparseCopy, ite_self]

theorem readObject_written (htag : Writable cf tag)
    (hbytes : xattr.bytes = before ++ (writePListObject cf tag ++ after))
    (hend : xattr.base + before.length + (writePListObject cf tag).length ≤ objsEnd) :
    readObject cf xattr objsEnd before.length = some (some (readBack tag)) := by
  cases hascii : isASCII tag.label with
  | true => exact readObject_ascii htag hascii hbytes hend
  | false => exact readObject_unicode htag hascii hbytes hend

end Objects

/-! ## The property list -/

theorem take_drop_append (before middle after : Bytes) :
    ((before ++ (middle ++ after)).drop before.length).take middle.length = middle := by
  rw [drop_left, take_left]

/-- The trailer that was written is the trailer that is read. -/
theorem loadStoredBETrailer_written (front : Bytes) {numObjects table : Nat}
    (hnumObjects : numObjects < 2 ^ 64) (htable : table < 2 ^ 64) :
    loadStoredBETrailer (front ++ storedTrailer numObjects table) =
      { offsetIntSize := 1, objectRefSize := 1, numObjects := numObjects, topObject := 0,
        offsetTableOffset := table } := by
  have hlength : (storedTrailer numObjects table).length = 32 := by
    unfold storedTrailer
    rfl
  have hstored : (front ++ storedTrailer numObjects table).drop
      ((front ++ storedTrailer numObjects table).length - 32) = storedTrailer numObjects table := by
    rw [length_append, hlength, Nat.add_sub_cancel, drop_left]
  have hcount : ((storedTrailer numObjects table).drop 8).take 8 = bigEndianBytes 8 numObjects := by
    have hsplit := take_drop_append [0, 0, 0, 0, 0, 0, 1, 1] (bigEndianBytes 8 numObjects)
      (bigEndianBytes 8 0 ++ bigEndianBytes 8 table)
    exact hsplit
  have htop : ((storedTrailer numObjects table).drop 16).take 8 = bigEndianBytes 8 0 := by
    have hsplit := take_drop_append ([0, 0, 0, 0, 0, 0, 1, 1] ++ bigEndianBytes 8 numObjects)
      (bigEndianBytes 8 0) (bigEndianBytes 8 table)
    exact hsplit
  have hend : ((storedTrailer numObjects table).drop 24).take 8 = bigEndianBytes 8 table := by
    have hsplit := take_drop_append
      ([0, 0, 0, 0, 0, 0, 1, 1] ++ bigEndianBytes 8 numObjects ++ bigEndianBytes 8 0)
      (bigEndianBytes 8 table) []
    exact hsplit
  unfold loadStoredBETrailer
  dsimp only
  rw [hstored, hcount, htop, hend, bigEndian_bigEndianBytes hnumObjects,
    bigEndian_bigEndianBytes (by decide), bigEndian_bigEndianBytes htable]
  rfl

theorem starts_append (place : Nat) (left right : List Bytes) :
    starts place (left ++ right) = starts place left ++ starts (place + left.flatten.length) right := by
  induction left generalizing place with
  | nil => rfl
  | cons bytes left ih =>
    show place :: starts (place + bytes.length) (left ++ right) =
      place :: (starts (place + bytes.length) left ++ _)
    rw [ih, flatten_cons, length_append, Nat.add_assoc]

theorem length_starts (place : Nat) (objects : List Bytes) :
    (starts place objects).length = objects.length := by
  induction objects generalizing place with
  | nil => rfl
  | cons bytes objects ih => exact congrArg Nat.succ (ih _)

theorem length_plistHead (count : Nat) : (plistHead count).length = 9 + count := by
  unfold plistHead
  rw [length_append, length_append, length_map, length_range]
  rfl

section Lists

variable {cf : CoreFoundation} {xattr : Attribute} {tags : List Tag}

/-- What is written for a list of tags, without the limit. -/
def writtenPList (cf : CoreFoundation) (tags : List Tag) : Bytes :=
  plistHead tags.length ++ (tags.map (writePListObject cf)).flatten

/-- The attribute that is written for a list of tags, without the limit. -/
def written (cf : CoreFoundation) (tags : List Tag) : Bytes :=
  writtenPList cf tags ++ (plistOffsets (tags.map (writePListObject cf))).map UInt8.ofNat ++
    storedTrailer (tags.length + 1) (writtenPList cf tags).length

/-- An object with what stands before and after it. -/
theorem written_object (left : List Tag) (tag : Tag) (right : List Tag) :
    ∃ after, written cf (left ++ tag :: right) =
      plistHead (left ++ tag :: right).length ++ (left.map (writePListObject cf)).flatten ++
        (writePListObject cf tag ++ after) := by
  refine ⟨(right.map (writePListObject cf)).flatten ++
    ((plistOffsets ((left ++ tag :: right).map (writePListObject cf))).map UInt8.ofNat ++
      storedTrailer ((left ++ tag :: right).length + 1)
        (writtenPList cf (left ++ tag :: right)).length), ?_⟩
  have hobjects : writtenPList cf (left ++ tag :: right) =
      plistHead (left ++ tag :: right).length ++ ((left.map (writePListObject cf)).flatten ++
        (writePListObject cf tag ++ (right.map (writePListObject cf)).flatten)) := by
    unfold writtenPList
    rw [map_append, flatten_append, map_cons, flatten_cons]
  unfold written
  generalize (writtenPList cf (left ++ tag :: right)).length = table
  rw [hobjects]
  simp

theorem length_written : (written cf tags).length =
    (writtenPList cf tags).length + (tags.length + 1) + 32 := by
  have hlength : (storedTrailer (tags.length + 1) (writtenPList cf tags).length).length = 32 := by
    unfold storedTrailer
    rfl
  unfold written plistOffsets
  rw [length_append, length_append, hlength, length_map, length_cons, length_starts, length_map]

/-- The entry of an object in the offset table. -/
theorem getSizedInt_written {left : List Tag} {tag : Tag} {right : List Tag}
    (hoffsets : ∀ offset ∈ plistOffsets ((left ++ tag :: right).map (writePListObject cf)),
      offset ≤ 255) : getSizedInt (written cf (left ++ tag :: right))
        ((writtenPList cf (left ++ tag :: right)).length + 1 + left.length) 1 =
      some (plistHead (left ++ tag :: right).length ++
        (left.map (writePListObject cf)).flatten).length := by
  generalize hplace : (plistHead (left ++ tag :: right).length ++
    (left.map (writePListObject cf)).flatten).length = place
  have hsplit : plistOffsets ((left ++ tag :: right).map (writePListObject cf)) =
      (prologue.length :: starts (plistHead (left ++ tag :: right).length).length
        (left.map (writePListObject cf))) ++ place ::
        starts (place + (writePListObject cf tag).length) (right.map (writePListObject cf)) := by
    unfold plistOffsets
    rw [length_map, map_append, starts_append, ← length_append, hplace]
    rfl
  have hsmall : place ≤ 255 := by
    refine hoffsets place ?_
    rw [hsplit]
    exact mem_append_right _ mem_cons_self
  have hbyte : (UInt8.ofNat place).toNat = place := by
    rw [toNat_ofNat']
    omega
  unfold getSizedInt
  rw [if_pos (.inl rfl)]
  have hread : readRange (written cf (left ++ tag :: right))
      ((writtenPList cf (left ++ tag :: right)).length + 1 + left.length) 1 =
      some [UInt8.ofNat place] := by
    refine @readRange_at _ (writtenPList cf (left ++ tag :: right) ++
      (prologue.length :: starts (plistHead (left ++ tag :: right).length).length
        (left.map (writePListObject cf))).map UInt8.ofNat) _
      ((starts (place + (writePListObject cf tag).length)
        (right.map (writePListObject cf))).map UInt8.ofNat ++
        storedTrailer ((left ++ tag :: right).length + 1)
          (writtenPList cf (left ++ tag :: right)).length) _ _ ?_ ?_ rfl
    · unfold written
      rw [hsplit, map_append]
      simp
    · rw [length_append, length_map, length_cons, length_starts, length_map]
      omega
  rw [hread, map_some, bigEndian_singleton, hbyte]

/-- The loop reads one tag after the other. -/
theorem readObjects_written {left right acc : List Tag} (hbytes : xattr.bytes = written cf tags)
    (htags : ∀ tag ∈ tags, Writable cf tag)
    (hoffsets : ∀ offset ∈ plistOffsets (tags.map (writePListObject cf)), offset ≤ 255)
    (hsplit : tags = left ++ right) : readObjects cf xattr
        { offsetIntSize := 1, objectRefSize := 1, numObjects := tags.length + 1, topObject := 0,
          offsetTableOffset := (writtenPList cf tags).length }
        right.length (left.length + 1) ((writtenPList cf tags).length + 1 + left.length) acc =
      some (acc ++ right.map readBack) := by
  induction right generalizing left acc with
  | nil =>
    rw [map_nil, append_nil]
    rfl
  | cons tag right ih =>
    have hmapped := xattr.mapped
    have hlength := @length_written cf tags
    have hcount : tags.length = left.length + (right.length + 1) := by
      rw [hsplit, length_append, length_cons]
    obtain ⟨after, hobject⟩ := @written_object cf left tag right
    have hentry := @getSizedInt_written cf left tag right (hsplit ▸ hoffsets)
    have hobjects : (plistHead (left ++ tag :: right).length ++
        (left.map (writePListObject cf)).flatten).length + (writePListObject cf tag).length ≤
        (writtenPList cf tags).length := by
      unfold writtenPList
      rw [hsplit, map_append, flatten_append, map_cons, flatten_cons]
      simp only [length_append]
      omega
    rw [← hsplit, ← hbytes] at hentry hobject
    rw [← hsplit] at hobjects
    generalize plistHead tags.length ++ (left.map (writePListObject cf)).flatten = before
      at hentry hobject hobjects
    rw [hbytes] at hmapped
    have hnext : wrap ((writtenPList cf tags).length + 1 + left.length + 1) =
        (writtenPList cf tags).length + 1 + (left ++ [tag]).length := by
      rw [wrap_of_lt (by omega), length_append, length_singleton]
      omega
    have hrest := @ih (left ++ [tag]) (acc ++ [readBack tag]) (by
      rw [hsplit, append_assoc]
      rfl)
    have hplace : ¬xattr.address before.length ≥ xattr.address (xattr.bytes.length - 32) := by
      unfold address
      rw [hbytes, wrap_of_lt (by omega), wrap_of_lt (by omega)]
      omega
    have hread : readObject cf xattr (xattr.address (writtenPList cf tags).length) before.length =
        some (some (readBack tag)) := by
      refine readObject_written (htags tag ?_) hobject ?_
      · rw [hsplit]
        exact mem_append_right left mem_cons_self
      · unfold address
        rw [wrap_of_lt (by omega)]
        omega
    rw [length_cons]
    unfold readObjects
    dsimp only [bind_eq_bind]
    rw [hentry]
    dsimp only [bind_some]
    rw [if_neg (succ_ne_zero _), if_neg hplace, hread, hnext]
    rw [length_append, length_singleton] at hrest
    rw [length_append, length_singleton]
    refine hrest.trans ?_
    rw [append_assoc]
    rfl

/-- What was written is accepted, and every tag is read. -/
theorem parse_written (hbytes : xattr.bytes = written cf tags)
    (htags : ∀ tag ∈ tags, Writable cf tag)
    (hoffsets : ∀ offset ∈ plistOffsets (tags.map (writePListObject cf)), offset ≤ 255) :
    (parseMDItemUserTags cf xattr).tags = some (tags.map readBack) := by
  have hmapped := xattr.mapped
  have hlength := @length_written cf tags
  have hhead : 9 + tags.length ≤ (writtenPList cf tags).length := by
    unfold writtenPList
    rw [length_append, length_plistHead]
    exact Nat.le_add_right _ _
  rw [hbytes] at hmapped
  have htrailer : loadStoredBETrailer xattr.bytes =
      { offsetIntSize := 1, objectRefSize := 1, numObjects := tags.length + 1, topObject := 0,
        offsetTableOffset := (writtenPList cf tags).length } := by
    rw [hbytes]
    exact loadStoredBETrailer_written _ (by omega) (by omega)
  have haccepted : Accepted xattr.bytes
      { offsetIntSize := 1, objectRefSize := 1, numObjects := tags.length + 1, topObject := 0,
        offsetTableOffset := (writtenPList cf tags).length } := by
    have hprologue : prologue <+: xattr.bytes := by
      rw [hbytes]
      unfold written writtenPList plistHead
      exact prefix_append _ _
    refine ⟨?_, hprologue, succ_ne_zero _, Nat.one_ne_zero, Nat.one_ne_zero, succ_pos _, ?_, ?_⟩
    · rw [hbytes]
      omega
    · show 8 ≤ (writtenPList cf tags).length
      omega
    · show wrap ((writtenPList cf tags).length + wrap ((tags.length + 1) * 1)) ≤ _
      rw [Nat.mul_one, wrap_of_lt (n := tags.length + 1) (by omega), wrap_of_lt (by omega), hbytes]
      omega
  -- the array itself is the first object
  have hfirst : getSizedInt xattr.bytes (writtenPList cf tags).length 1 = some prologue.length := by
    unfold getSizedInt
    rw [if_pos (.inl rfl), hbytes]
    unfold written
    rw [append_assoc]
    exact congrArg (Option.map bigEndian) (readRange_byte _ _ _)
  have hloop := @readObjects_written cf xattr tags [] tags [] hbytes htags hoffsets rfl
  unfold parseMDItemUserTags
  rw [htrailer, if_pos haccepted]
  unfold readObjects
  dsimp only [bind_eq_bind]
  rw [hfirst]
  dsimp only [bind_some]
  rw [if_pos rfl, wrap_of_lt (by omega)]
  exact hloop

/-- The first fourteen tags are written and read. -/
theorem parse_build (hne : tags ≠ []) (htags : ∀ tag ∈ tags, Writable cf tag)
    (hoffsets : ∀ offset ∈ plistOffsets (plistObjects cf tags), offset ≤ 255) :
    ∃ bytes, buildMDItemUserTags cf tags = some bytes ∧ ∀ xattr : Attribute, xattr.bytes = bytes →
      (parseMDItemUserTags cf xattr).tags = some ((tags.take 14).map readBack) := by
  have hobjects : plistObjects cf tags = (tags.take 14).map (writePListObject cf) :=
    map_take.symm
  have hall : (plistOffsets (plistObjects cf tags)).all (· ≤ 255) :=
    all_eq_true.mpr fun offset hoffset => decide_eq_true (hoffsets offset hoffset)
  refine ⟨written cf (tags.take 14), ?_, fun xattr hbytes => ?_⟩
  · unfold buildMDItemUserTags
    rw [if_neg hne, if_pos hall, hobjects, length_map]
    rfl
  · rw [hobjects] at hoffsets
    exact parse_written hbytes (fun tag htag => htags tag (mem_of_mem_take htag)) hoffsets

end Lists

end WinCommander.Utility
