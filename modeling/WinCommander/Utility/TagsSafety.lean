/-
  What is read of an attribute of any content.

  Products and sums of what is stored wrap around before they are compared. Nothing else can go
  wrong: the reads are inside exactly if no wrapped value passes a comparison (`readsSafely_iff`).
  The loop is taken apart by `readObjects_isSome_iff`, and one string by `readObject_isSome_iff`.
-/
import WinCommander.Utility.Tags

namespace WinCommander.Utility

open Library Option Nat Attribute

/-! ## What is asked for -/

def trailerOf (xattr : Attribute) : Trailer := loadStoredBETrailer xattr.bytes

/-- A list is returned, and for each of its entries there is room in an offset table. -/
structure ReadsSafely (cf : CoreFoundation) (xattr : Attribute) : Prop where
  returns : ∃ tags, (parseMDItemUserTags cf xattr).tags = some tags
  requested : (parseMDItemUserTags cf xattr).requested * (trailerOf xattr).offsetIntSize ≤
    xattr.bytes.length

/-- The sizes of the integers that are read. -/
def Supported (sz : Nat) : Prop := sz = 1 ∨ sz = 2 ∨ sz = 4 ∨ sz = 8

instance (sz : Nat) : Decidable (Supported sz) := inferInstanceAs (Decidable (_ ∨ _))

/-- The offset of an object, as it is stored. -/
def offsetOf (xattr : Attribute) (i : Nat) : Nat :=
  (getSizedInt xattr.bytes
    (wrap ((trailerOf xattr).offsetTableOffset + i * (trailerOf xattr).offsetIntSize))
    (trailerOf xattr).offsetIntSize).getD 0

/-- The pointer is not before the trailer. -/
def Corrupted (xattr : Attribute) (offset : Nat) : Prop :=
  xattr.address offset ≥ xattr.address (xattr.bytes.length - 32)

/-- An object is looked at if none up to it is corrupted. -/
def Visited (xattr : Attribute) (i : Nat) : Prop :=
  i < (trailerOf xattr).numObjects ∧ i ≠ (trailerOf xattr).topObject ∧
    ∀ j ≤ i, j ≠ (trailerOf xattr).topObject → ¬Corrupted xattr (offsetOf xattr j)

/-- A string of ASCII whose end does not wrap around, if that is what is compared. -/
def ASCIIInside (xattr : Attribute) (vl : VarLen) : Prop :=
  xattr.address (vl.start + vl.length) ≤ xattr.address (trailerOf xattr).offsetTableOffset →
    xattr.base + vl.start + vl.length < 2 ^ 64

/-- The size of a string of UTF-16 may wrap around, but two units of what is copied are needed. -/
def UTF16Inside (xattr : Attribute) (vl : VarLen) : Prop :=
  xattr.address (vl.start + vl.length * 2) ≤ xattr.address (trailerOf xattr).offsetTableOffset →
    xattr.base + vl.start + wrap (vl.length * 2) < 2 ^ 64 ∧
      (xattr.address vl.start % 2 = 1 → ¬(2 ^ 63 ≤ vl.length ∧ vl.length < 2 ^ 63 + 2))

/-- The string at a marker. -/
def StringInside (xattr : Attribute) (marker : Nat) : Prop :=
  ∀ byteMarker vl, (readRange xattr.bytes marker 1).map bigEndian = some byteMarker →
    extractVarLen xattr.bytes marker = some (some vl) →
      (byteMarker / 16 = 5 → ASCIIInside xattr vl) ∧ (byteMarker / 16 = 6 → UTF16Inside xattr vl)

/-- No value that wraps around passes a comparison. -/
structure NothingWraps (xattr : Attribute) : Prop where
  entries : ((trailerOf xattr).numObjects - 1) * (trailerOf xattr).offsetIntSize ≤ xattr.bytes.length
  table : Supported (trailerOf xattr).offsetIntSize → (trailerOf xattr).offsetTableOffset +
    (trailerOf xattr).numObjects * (trailerOf xattr).offsetIntSize < 2 ^ 64
  offsets : ∀ i, Visited xattr i → xattr.base + offsetOf xattr i < 2 ^ 64
  strings : ∀ i, Visited xattr i → StringInside xattr (offsetOf xattr i)

/-! ## Sizes and lengths -/

theorem bigEndian_take_lt (bytes : Bytes) (count : Nat) : bigEndian (bytes.take count) < 256 ^ count :=
  Nat.lt_of_lt_of_le (bigEndian_lt _)
    (Nat.pow_le_pow_right (by decide) (List.length_take_le count bytes))

theorem trailer_bounds (xattr : Attribute) : (trailerOf xattr).offsetIntSize < 256 ∧
    (trailerOf xattr).numObjects < 2 ^ 64 ∧ (trailerOf xattr).offsetTableOffset < 2 ^ 64 :=
  ⟨bigEndian_take_lt _ 1, bigEndian_take_lt _ 8, bigEndian_take_lt _ 8⟩

theorem getSizedInt_isSome_iff (bytes : Bytes) (offset sz : Nat) :
    (getSizedInt bytes offset sz).isSome ↔ (Supported sz → offset + sz ≤ bytes.length) := by
  unfold getSizedInt Supported
  split_ifs with hsz
  · rw [isSome_map, readRange_isSome_iff]
    constructor
    · rintro (hzero | hinside) _
      · omega
      · exact hinside
    · exact fun h => .inr (h hsz)
  · exact iff_of_true rfl fun h => absurd h hsz

variable {bytes : Bytes}

theorem getSizedInt_lt {offset sz value : Nat} (h : getSizedInt bytes offset sz = some value) :
    value < 2 ^ 64 := by
  unfold getSizedInt at h
  split_ifs at h with hsz
  · obtain ⟨range, hrange, rfl⟩ := map_eq_some_iff.mp h
    have hlength := readRange_length hrange
    refine Nat.lt_of_lt_of_le (bigEndian_lt range) ?_
    rw [hlength]
    rcases hsz with rfl | rfl | rfl | rfl <;> decide
  · obtain rfl := some.inj h
    decide

/-! ## One string -/

theorem readRange_some {offset length : Nat} (h : offset + length ≤ bytes.length) :
    ∃ range, readRange bytes offset length = some range :=
  isSome_iff_exists.mp ((readRange_isSome_iff bytes offset length).mpr (.inr h))

theorem readRange_none (hne : length ≠ 0) (h : bytes.length < offset + length)
    : readRange bytes offset length = none := by
  unfold readRange
  rw [if_neg hne, if_neg (Nat.not_le.mpr h)]

/-- A length that was found; it needs all of eight bytes if it has more than 32 bits. -/
structure Found (bytes : Bytes) (marker : Nat) (vl : VarLen) : Prop where
  after : marker < vl.start
  near : vl.start ≤ marker + 2 + 2 ^ 15
  length : vl.length < 2 ^ 64
  long : 2 ^ 32 ≤ vl.length → vl.start = marker + 10 ∧
    (readRange bytes (marker + 2) 8).map bigEndian = some vl.length

/-- Before the trailer there is room for a marker and the length behind it. -/
theorem extractVarLen_cases (hmarker : marker + 32 < bytes.length) (hsize : bytes.length ≤ 2 ^ 63)
    : extractVarLen bytes marker = some none ∨
      ∃ vl, extractVarLen bytes marker = some (some vl) ∧ Found bytes marker vl := by
  obtain ⟨first, hfirst⟩ := @readRange_some bytes marker 1 (by omega)
  have hnext : wrap (marker + 1) = marker + 1 := wrap_of_lt (by omega)
  have hafter : wrap (marker + 2) = marker + 2 := wrap_of_lt (by omega)
  unfold extractVarLen
  rw [hfirst, hnext, hafter]
  dsimp only [bind_eq_bind, bind_some]
  by_cases hlong : bigEndian first % 16 = 15
  · obtain ⟨second, hsecond⟩ := @readRange_some bytes (marker + 1) 1 (by omega)
    rw [if_pos hlong, hsecond]
    dsimp only [bind_some]
    split_ifs
    · exact .inl rfl
    · have hlenSize : 2 ^ (bigEndian second % 16) ≤ 2 ^ 15 :=
        Nat.pow_le_pow_right (by decide) (Nat.lt_succ_iff.mp (mod_lt _ (by decide)))
      generalize 2 ^ (bigEndian second % 16) = lenSize at hlenSize
      have hsome : (getSizedInt bytes (marker + 2) lenSize).isSome := by
        rw [getSizedInt_isSome_iff]
        unfold Supported
        omega
      obtain ⟨len, hlen⟩ := isSome_iff_exists.mp hsome
      have hstart : wrap (marker + 2 + lenSize) = marker + 2 + lenSize := wrap_of_lt (by omega)
      rw [hlen, hstart]
      refine .inr ⟨_, rfl, ?_, ?_, getSizedInt_lt hlen, fun hmany => ?_⟩
      · show marker < marker + 2 + lenSize
        omega
      · show marker + 2 + lenSize ≤ marker + 2 + 2 ^ 15
        omega
      · -- the other sizes have 32 bits at most
        have height : lenSize = 8 := by
          unfold getSizedInt at hlen
          split_ifs at hlen with hsz
          · obtain ⟨range, hrange, rfl⟩ := map_eq_some_iff.mp hlen
            have hlt := bigEndian_lt range
            rw [readRange_length hrange] at hlt
            rcases hsz with rfl | rfl | rfl | rfl
            · exact absurd hlt (by change 2 ^ 32 ≤ bigEndian range at hmany; omega)
            · exact absurd hlt (by change 2 ^ 32 ≤ bigEndian range at hmany; omega)
            · exact absurd hlt (by change 2 ^ 32 ≤ bigEndian range at hmany; omega)
            · rfl
          · obtain rfl := some.inj hlen
            cases hmany
        subst height
        exact ⟨rfl, hlen⟩
  · rw [if_neg hlong]
    refine .inr ⟨_, rfl, ?_, ?_, ?_, fun hmany => ?_⟩
    · exact lt_succ_self marker
    · show marker + 1 ≤ marker + 2 + 2 ^ 15
      omega
    · show bigEndian first % 16 < 2 ^ 64
      omega
    · change 2 ^ 32 ≤ bigEndian first % 16 at hmany
      omega

variable {start length : Nat}

theorem colorSuffix_short (h : length < 3) : colorSuffix bytes start length = some none := if_pos h

/-- The last two units are there. -/
theorem colorSuffix_isSome (hnewline : wrap (start + 2 * (length - 2)) + 2 ≤ bytes.length)
    (hdigit : wrap (start + 2 * (length - 1)) + 2 ≤ bytes.length) :
    ∃ suffix, colorSuffix bytes start length = some suffix := by
  obtain ⟨newline, hreadNewline⟩ := readRange_some hnewline
  obtain ⟨digit, hreadDigit⟩ := readRange_some hdigit
  unfold colorSuffix unitAt
  by_cases hshort : length < 3
  · exact ⟨none, if_pos hshort⟩
  · rw [if_neg hshort, hreadNewline, hreadDigit]
    dsimp only [bind_eq_bind, map_some, bind_some]
    split
    · exact ⟨none, rfl⟩
    · exact ⟨_, rfl⟩

/-- The unit before the last one is looked at first. -/
theorem colorSuffix_plain (hlong : ¬length < 3)
    (hunit : unitAt bytes start (length - 2) = some unit) (hplain : unit ≠ 0x0A) :
    colorSuffix bytes start length = some none := by
  unfold colorSuffix
  rw [if_neg hlong, hunit]
  exact if_pos hplain

theorem colorSuffix_none (hlong : ¬length < 3)
    (houtside : bytes.length < wrap (start + 2 * (length - 2)) + 2) :
    colorSuffix bytes start length = none := by
  unfold colorSuffix unitAt
  rw [if_neg hlong, readRange_none (by decide) houtside]
  rfl

/-- The text is what remains without a colour. -/
theorem parseTagUTF16_isSome (cf : CoreFoundation)
    (hsuffix : colorSuffix bytes start length = some suffix)
    (htext : start + wrap (length * 2) ≤ bytes.length)
    (hless : suffix ≠ none → start + wrap ((length - 2) * 2) ≤ bytes.length) :
    (parseTagUTF16 cf bytes start length).isSome := by
  unfold parseTagUTF16
  by_cases hempty : length = 0
  · rw [if_pos hempty]
    rfl
  · have hread : start + wrap ((if suffix.isSome then length - 2 else length) * 2) ≤ bytes.length := by
      cases suffix with
      | none => exact htext
      | some color => exact hless (some_ne_none color)
    obtain ⟨text, htext'⟩ := readRange_some hread
    rw [if_neg hempty, hsuffix]
    dsimp only [bind_eq_bind, bind_some]
    rw [htext']
    dsimp only [bind_some]
    cases cf.toUTF8 (unitsOfBytes text) <;> rfl

/-- No text can be read that is as large as what wrapped around. -/
theorem parseTagUTF16_huge (cf : CoreFoundation)
    (hhuge : bytes.length + 4 < start + wrap (length * 2)) (hlarge : 4 < wrap (length * 2)) :
    (parseTagUTF16 cf bytes start length).isSome = false := by
  have hempty : length ≠ 0 := by
    rintro rfl
    cases hlarge
  have hless : wrap ((length - 2) * 2) + 4 = wrap (length * 2) := by
    unfold wrap at hlarge ⊢
    omega
  unfold parseTagUTF16
  rw [if_neg hempty]
  cases hsuffix : colorSuffix bytes start length with
  | none => rfl
  | some suffix =>
    have hnone : readRange bytes start
        (wrap ((if suffix.isSome then length - 2 else length) * 2)) = none := by
      split
      · exact readRange_none (by omega) (by omega)
      · exact readRange_none (by omega) (by omega)
    dsimp only [bind_eq_bind, bind_some]
    rw [hnone]
    rfl

/-- A string that is inside, unless two units are asked for before what it is. -/
theorem parseTagUTF16_inside (cf : CoreFoundation) (hsize : bytes.length ≤ 2 ^ 63)
    (hlength : length < 2 ^ 64) (htext : start + wrap (length * 2) ≤ bytes.length)
    (hwrapped : 2 ^ 63 ≤ length → length < 2 ^ 63 + 2 → ∃ unit, unitAt bytes start (length - 2) = some unit ∧ unit ≠ 0x0A) :
    (parseTagUTF16 cf bytes start length).isSome := by
  by_cases hshort : length < 3
  · exact parseTagUTF16_isSome cf (colorSuffix_short hshort) htext (fun h => absurd rfl h)
  · by_cases hlow : length < 2 ^ 63
    · have hdouble : wrap (length * 2) = length * 2 := wrap_of_lt (by omega)
      have hless : wrap ((length - 2) * 2) = (length - 2) * 2 := wrap_of_lt (by omega)
      have hnewline : wrap (start + 2 * (length - 2)) = start + 2 * (length - 2) :=
        wrap_of_lt (by omega)
      have hdigit : wrap (start + 2 * (length - 1)) = start + 2 * (length - 1) :=
        wrap_of_lt (by omega)
      obtain ⟨suffix, hsuffix⟩ := @colorSuffix_isSome bytes start length (by omega) (by omega)
      exact parseTagUTF16_isSome cf hsuffix htext fun _ => by omega
    · have hdouble : wrap (length * 2) = length * 2 - 2 ^ 64 := wrap_of_le (by omega) (by omega)
      by_cases hfew : length < 2 ^ 63 + 2
      · obtain ⟨unit, hunit, hplain⟩ := hwrapped (Nat.not_lt.mp hlow) hfew
        exact parseTagUTF16_isSome cf (colorSuffix_plain hshort hunit hplain) htext
          (fun h => absurd rfl h)
      · have hless : wrap ((length - 2) * 2) = (length - 2) * 2 - 2 ^ 64 :=
          wrap_of_le (by omega) (by omega)
        have hnewline : wrap (start + 2 * (length - 2)) = start + 2 * (length - 2) - 2 ^ 64 :=
          wrap_of_le (by omega) (by omega)
        have hdigit : wrap (start + 2 * (length - 1)) = start + 2 * (length - 1) - 2 ^ 64 :=
          wrap_of_le (by omega) (by omega)
        obtain ⟨suffix, hsuffix⟩ := @colorSuffix_isSome bytes start length (by omega) (by omega)
        exact parseTagUTF16_isSome cf hsuffix htext fun _ => by omega

/-- The last two units of what is asked for are bytes of the length itself. -/
theorem length_not_newline (hfound : Found bytes marker vl) (hmarker : marker < 2 ^ 63)
    (hlow : 2 ^ 63 ≤ vl.length) (hfew : vl.length < 2 ^ 63 + 2) :
    ∃ unit, unitAt bytes vl.start (vl.length - 2) = some unit ∧ unit ≠ 0x0A := by
  obtain ⟨hstart, hfield⟩ := hfound.long (by omega)
  obtain ⟨field, hread, hvalue⟩ := map_eq_some_iff.mp hfield
  have hlength := readRange_length hread
  match field, hlength with
  | [b0, b1, b2, b3, b4, b5, b6, b7], _ =>
    have hvalue' : 256 * (256 * (256 * (256 * (256 * (256 * (256 * (256 * 0 + b0.toNat) + b1.toNat) +
        b2.toNat) + b3.toNat) + b4.toNat) + b5.toNat) + b6.toNat) + b7.toNat = vl.length := hvalue
    have h6 := b6.toNat_lt
    have h7 := b7.toNat_lt
    unfold unitAt
    by_cases hnone : vl.length = 2 ^ 63
    · have hplace : wrap (vl.start + 2 * (vl.length - 2)) = marker + 2 + 4 := by
        rw [wrap_of_le (by omega) (by omega)]
        omega
      have hpart := @readRange_part bytes _ (marker + 2) 8 4 2 hread (by decide)
      rw [hplace, hpart]
      refine ⟨_, rfl, ?_⟩
      show 256 * (256 * 0 + b4.toNat) + b5.toNat ≠ 0x0A
      omega
    · have hplace : wrap (vl.start + 2 * (vl.length - 2)) = marker + 2 + 6 := by
        rw [wrap_of_le (by omega) (by omega)]
        omega
      have hpart := @readRange_part bytes _ (marker + 2) 8 6 2 hread (by decide)
      rw [hplace, hpart]
      refine ⟨_, rfl, ?_⟩
      show 256 * (256 * 0 + b6.toNat) + b7.toNat ≠ 0x0A
      omega

section Objects

variable (cf : CoreFoundation) (xattr : Attribute)

theorem length_le : xattr.bytes.length ≤ 2 ^ 63 :=
  Nat.le_trans (Nat.le_add_left _ _) (Nat.le_of_lt xattr.mapped)

/-- The end of a string of ASCII, and the string. -/
theorem ascii_iff (hfound : Found xattr.bytes marker vl)
    (hmarker : marker + 32 < xattr.bytes.length) (hend : objsEnd ≤ xattr.base + xattr.bytes.length) :
    (xattr.address (vl.start + vl.length) ≤ objsEnd →
        (readRange xattr.bytes vl.start vl.length).isSome) ↔
      (xattr.address (vl.start + vl.length) ≤ objsEnd →
        xattr.base + vl.start + vl.length < 2 ^ 64) := by
  have hmapped := xattr.mapped
  have hnear := hfound.near
  refine forall_congr' fun hpasses => ?_
  rw [readRange_isSome_iff]
  unfold address at hpasses
  rw [← Nat.add_assoc] at hpasses
  by_cases hfits : xattr.base + vl.start + vl.length < 2 ^ 64
  · rw [wrap_of_lt hfits] at hpasses
    exact iff_of_true (.inr (by omega)) hfits
  · exact iff_of_false (by omega) hfits

theorem wrap_add (n m : Nat) : wrap (n + m) = wrap (n + wrap m) := by
  unfold wrap
  omega

/-- The end of a string of UTF-16, and the string where it is aligned or copied. -/
theorem utf16_iff (hfound : Found xattr.bytes marker vl)
    (hmarker : marker + 32 < xattr.bytes.length) (hend : objsEnd ≤ xattr.base + xattr.bytes.length) :
    (xattr.address (vl.start + vl.length * 2) ≤ objsEnd →
      (if xattr.address vl.start % 2 = 0 then parseTagUTF16 cf xattr.bytes vl.start vl.length
      else readRange xattr.bytes vl.start (wrap (vl.length * 2)) >>= fun strBuf =>
        parseTagUTF16 cf strBuf 0 vl.length).isSome) ↔
      (xattr.address (vl.start + vl.length * 2) ≤ objsEnd →
        xattr.base + vl.start + wrap (vl.length * 2) < 2 ^ 64 ∧
          (xattr.address vl.start % 2 = 1 → ¬(2 ^ 63 ≤ vl.length ∧ vl.length < 2 ^ 63 + 2))) := by
  have hmapped := xattr.mapped
  have hnear := hfound.near
  have hlength := hfound.length
  have hsize := length_le xattr
  refine forall_congr' fun hpasses => ?_
  unfold address at hpasses
  rw [← Nat.add_assoc, wrap_add] at hpasses
  by_cases hfits : xattr.base + vl.start + wrap (vl.length * 2) < 2 ^ 64
  · rw [wrap_of_lt hfits] at hpasses
    have hinside : vl.start + wrap (vl.length * 2) ≤ xattr.bytes.length := by omega
    by_cases heven : xattr.address vl.start % 2 = 0
    · rw [if_pos heven]
      refine iff_of_true (parseTagUTF16_inside cf hsize hlength hinside fun hlow hfew => ?_)
        ⟨hfits, fun hodd => by omega⟩
      exact length_not_newline hfound (by omega) hlow hfew
    · obtain ⟨strBuf, hcopy⟩ := readRange_some hinside
      have hcopied := readRange_length hcopy
      have hodd : xattr.address vl.start % 2 = 1 := by omega
      rw [if_neg heven, hcopy]
      show (parseTagUTF16 cf strBuf 0 vl.length).isSome ↔ _
      by_cases hfew : 2 ^ 63 ≤ vl.length ∧ vl.length < 2 ^ 63 + 2
      · have hlong : ¬vl.length < 3 := by omega
        have hdouble : wrap (vl.length * 2) = vl.length * 2 - 2 ^ 64 :=
          wrap_of_le (by omega) (by omega)
        have hplace : wrap (0 + 2 * (vl.length - 2)) = 2 * (vl.length - 2) := by
          rw [Nat.zero_add]
          exact wrap_of_lt (by omega)
        have hnone : parseTagUTF16 cf strBuf 0 vl.length = none := by
          unfold parseTagUTF16
          rw [if_neg (by omega), colorSuffix_none hlong (by rw [hplace]; omega)]
          rfl
        rw [hnone]
        exact iff_of_false Bool.false_ne_true fun h => h.2 hodd hfew
      · refine iff_of_true (parseTagUTF16_inside cf (by omega) hlength (by omega) ?_)
          ⟨hfits, fun _ => hfew⟩
        exact fun hlow hmany => absurd ⟨hlow, hmany⟩ hfew
  · have hhuge : xattr.bytes.length + 4 < vl.start + wrap (vl.length * 2) := by omega
    have hlarge : 4 < wrap (vl.length * 2) := by omega
    refine iff_of_false ?_ fun h => hfits h.1
    split
    · rw [parseTagUTF16_huge cf hhuge hlarge]
      exact Bool.false_ne_true
    · rw [readRange_none (by omega) (by omega)]
      exact Bool.false_ne_true

/-- A string is read exactly if it is inside. -/
theorem readObject_isSome_iff (hmarker : marker + 32 < xattr.bytes.length)
    (hend : xattr.address (trailerOf xattr).offsetTableOffset ≤ xattr.base + xattr.bytes.length) :
    (readObject cf xattr (xattr.address (trailerOf xattr).offsetTableOffset) marker).isSome ↔
      StringInside xattr marker := by
  obtain ⟨first, hfirst⟩ := @readRange_some xattr.bytes marker 1 (by omega)
  unfold readObject StringInside
  dsimp only [bind_eq_bind]
  rw [hfirst]
  dsimp only [bind_some, map_some]
  rcases extractVarLen_cases hmarker (length_le xattr) with hnone | ⟨vl, hvl, hfound⟩
  · rw [hnone]
    refine iff_of_true ?_ fun _ _ _ h => nomatch h
    split
    · rfl
    · split <;> rfl
  · have hascii := ascii_iff xattr hfound hmarker hend
    have hutf16 := utf16_iff cf xattr hfound hmarker hend
    have hvls : (∀ byteMarker vl', some (bigEndian first) = some byteMarker →
        extractVarLen xattr.bytes marker = some (some vl') →
          (byteMarker / 16 = 5 → ASCIIInside xattr vl') ∧
            (byteMarker / 16 = 6 → UTF16Inside xattr vl')) ↔
        (bigEndian first / 16 = 5 → ASCIIInside xattr vl) ∧
          (bigEndian first / 16 = 6 → UTF16Inside xattr vl) := by
      refine ⟨fun h => h _ vl rfl hvl, fun h byteMarker vl' hbyte hvl' => ?_⟩
      obtain rfl := some.inj hbyte
      obtain rfl := some.inj (some.inj (hvl.symm.trans hvl'))
      exact h
    rw [hvls, hvl]
    dsimp only [bind_some]
    by_cases hfive : bigEndian first / 16 = 5
    · have hsix : ¬bigEndian first / 16 = 6 := by omega
      rw [if_pos hfive, and_iff_left fun h => absurd h hsix, imp_iff_right hfive]
      unfold ASCIIInside
      rw [← hascii]
      split_ifs with hpasses
      · rw [imp_iff_right hpasses]
        cases readRange xattr.bytes vl.start vl.length <;> exact Iff.rfl
      · exact iff_of_true rfl fun h => absurd h hpasses
    · rw [if_neg hfive, and_iff_right fun h => absurd h hfive]
      by_cases hsix : bigEndian first / 16 = 6
      · rw [if_pos hsix, imp_iff_right hsix]
        unfold UTF16Inside
        rw [← hutf16]
        by_cases hpasses : xattr.address (vl.start + vl.length * 2) ≤
            xattr.address (trailerOf xattr).offsetTableOffset
        · rw [if_pos hpasses, imp_iff_right hpasses]
          exact Iff.rfl
        · rw [if_neg hpasses]
          exact iff_of_true rfl fun h => absurd h hpasses
      · rw [if_neg hsix]
        exact iff_of_true rfl fun h => absurd h hsix

/-- With sizes that are not supported the prologue is taken for an object, a string of two units. -/
theorem readObject_prologue (hsize : 8 + 32 < xattr.bytes.length)
    (hprologue : prologue <+: xattr.bytes) (objsEnd : Nat) :
    (readObject cf xattr objsEnd 0).isSome ∧ StringInside xattr 0 := by
  obtain ⟨rest, hbytes⟩ := hprologue
  have hmapped := xattr.mapped
  have hfirst : readRange xattr.bytes 0 1 = some [0x62] := by
    unfold readRange
    rw [if_neg (by decide), if_pos (by omega), ← hbytes]
    rfl
  have hvl : extractVarLen xattr.bytes 0 = some (some ⟨2, 1⟩) := by
    unfold extractVarLen
    rw [hfirst]
    rfl
  have hparse : ∀ {bytes : Bytes} {start : Nat}, bytes.length < 2 ^ 63 → start + 4 ≤ bytes.length →
      (parseTagUTF16 cf bytes start 2).isSome := fun hbytes hinside =>
    parseTagUTF16_inside cf (Nat.le_of_lt hbytes) (by decide) hinside fun h => absurd h (by decide)
  refine ⟨?_, fun byteMarker vl hbyte hvl' => ?_⟩
  · unfold readObject
    dsimp only [bind_eq_bind]
    rw [hfirst, hvl]
    show (if xattr.address 5 ≤ objsEnd then
      if xattr.address 1 % 2 = 0 then parseTagUTF16 cf xattr.bytes 1 2
      else (readRange xattr.bytes 1 4).bind fun strBuf => parseTagUTF16 cf strBuf 0 2
      else some none).isSome
    by_cases hpasses : xattr.address 5 ≤ objsEnd
    · rw [if_pos hpasses]
      by_cases heven : xattr.address 1 % 2 = 0
      · rw [if_pos heven]
        exact hparse (by omega) (by omega)
      · obtain ⟨strBuf, hcopy⟩ := @readRange_some xattr.bytes 1 4 (by omega)
        have hcopied := readRange_length hcopy
        rw [if_neg heven, hcopy]
        exact hparse (by omega) (by omega)
    · rw [if_neg hpasses]
      rfl
  · rw [hfirst] at hbyte
    obtain rfl := some.inj hbyte
    obtain rfl := some.inj (some.inj (hvl.symm.trans hvl'))
    refine ⟨fun h => absurd h (by decide), fun _ _ => ⟨?_, fun _ h => absurd h.1 (by decide)⟩⟩
    show xattr.base + 1 + 4 < 2 ^ 64
    omega

/-! ## The loop -/

/-- Every entry of the table that the loop may come to is there. -/
def TableInside : Prop := ∀ i < (trailerOf xattr).numObjects, getSizedInt xattr.bytes
    (wrap ((trailerOf xattr).offsetTableOffset + i * (trailerOf xattr).offsetIntSize))
    (trailerOf xattr).offsetIntSize = some (offsetOf xattr i)

theorem readObjects_isSome_iff (htable : TableInside xattr)
    (hleft : i + left = (trailerOf xattr).numObjects) (tags : List Tag) :
    (readObjects cf xattr (trailerOf xattr) left i
        (wrap ((trailerOf xattr).offsetTableOffset + i * (trailerOf xattr).offsetIntSize))
        tags).isSome ↔
      ∀ k, i ≤ k → k < (trailerOf xattr).numObjects → k ≠ (trailerOf xattr).topObject →
        (∀ j, i ≤ j → j ≤ k → j ≠ (trailerOf xattr).topObject →
          ¬Corrupted xattr (offsetOf xattr j)) →
        (readObject cf xattr (xattr.address (trailerOf xattr).offsetTableOffset)
          (offsetOf xattr k)).isSome := by
  induction left generalizing i tags with
  | zero => exact iff_of_true rfl fun k hk hlt => absurd hlt (by omega)
  | succ left ih =>
    have hnext : wrap (wrap ((trailerOf xattr).offsetTableOffset +
        i * (trailerOf xattr).offsetIntSize) + (trailerOf xattr).offsetIntSize) =
        wrap ((trailerOf xattr).offsetTableOffset + (i + 1) * (trailerOf xattr).offsetIntSize) := by
      rw [succ_mul]
      unfold wrap
      omega
    unfold readObjects
    rw [htable i (by omega)]
    dsimp only [bind_eq_bind, bind_some]
    rw [hnext]
    by_cases htop : i = (trailerOf xattr).topObject
    · rw [if_pos htop, ih (by omega)]
      constructor
      · intro h k hk hlt hne hvisited
        exact h k (by omega) hlt hne fun j hj => hvisited j (by omega)
      · intro h k hk hlt hne hvisited
        refine h k (by omega) hlt hne fun j hj hjk hjne => hvisited j ?_ hjk hjne
        omega
    · rw [if_neg htop]
      by_cases hcorrupted : Corrupted xattr (offsetOf xattr i)
      · unfold Corrupted at hcorrupted
        rw [if_pos hcorrupted]
        exact iff_of_true rfl fun k hk _ _ hvisited =>
          absurd hcorrupted (hvisited i (Nat.le_refl i) hk htop)
      · have hpasses := hcorrupted
        unfold Corrupted at hpasses
        rw [if_neg hpasses]
        cases htag : readObject cf xattr (xattr.address (trailerOf xattr).offsetTableOffset)
            (offsetOf xattr i) with
        | none =>
          refine iff_of_false Bool.false_ne_true fun h => ?_
          have hread := h i (Nat.le_refl i) (by omega) htop fun j hij hji _ => by
            obtain rfl : j = i := by omega
            exact hcorrupted
          rw [htag] at hread
          cases hread
        | some tag =>
          dsimp only [bind_some]
          rw [ih (by omega)]
          constructor
          · intro h k hk hlt hne hvisited
            by_cases hthis : k = i
            · rw [hthis, htag]
              rfl
            · exact h k (by omega) hlt hne fun j hj => hvisited j (by omega)
          · intro h k hk hlt hne hvisited
            refine h k (by omega) hlt hne fun j hj hjk hjne => ?_
            by_cases hthis : j = i
            · rw [hthis]
              exact hcorrupted
            · exact hvisited j (by omega) hjk hjne

section
variable (haccepted : Accepted xattr.bytes (trailerOf xattr))
include haccepted

/-- The table is read up to its end, which is not after the trailer's start. -/
theorem tableInside_of
    (hfits : Supported (trailerOf xattr).offsetIntSize → (trailerOf xattr).offsetTableOffset + (trailerOf xattr).numObjects * (trailerOf xattr).offsetIntSize < 2 ^ 64) :
    TableInside xattr := by
  intro i hi
  obtain ⟨hlarge, -, -, -, -, -, -, hend⟩ := haccepted
  have hsome : (getSizedInt xattr.bytes
      (wrap ((trailerOf xattr).offsetTableOffset + i * (trailerOf xattr).offsetIntSize))
      (trailerOf xattr).offsetIntSize).isSome := by
    rw [getSizedInt_isSome_iff]
    intro hsupported
    have hfit := hfits hsupported
    have hthis : (i + 1) * (trailerOf xattr).offsetIntSize ≤
        (trailerOf xattr).numObjects * (trailerOf xattr).offsetIntSize :=
      Nat.mul_le_mul_right _ hi
    rw [succ_mul] at hthis
    rw [← wrap_add, wrap_of_lt hfit] at hend
    rw [wrap_of_lt (by omega)]
    omega
  obtain ⟨offset, hoffset⟩ := isSome_iff_exists.mp hsome
  rw [hoffset]
  unfold offsetOf
  rw [hoffset]
  rfl

/-- The offset table begins before the trailer, if anything is read of it. -/
theorem tableOffset_le
    (hfit : (trailerOf xattr).offsetTableOffset + (trailerOf xattr).numObjects * (trailerOf xattr).offsetIntSize < 2 ^ 64) :
    xattr.address (trailerOf xattr).offsetTableOffset ≤ xattr.base + xattr.bytes.length := by
  obtain ⟨hlarge, -, -, -, -, -, -, hend⟩ := haccepted
  have hmapped := xattr.mapped
  rw [← wrap_add, wrap_of_lt hfit] at hend
  unfold address
  rw [wrap_of_lt (by omega)]
  omega

/-- An object that is not corrupted is read exactly if its offset and its string do not wrap. -/
theorem visited_isSome_iff
    (hfits : Supported (trailerOf xattr).offsetIntSize → (trailerOf xattr).offsetTableOffset + (trailerOf xattr).numObjects * (trailerOf xattr).offsetIntSize < 2 ^ 64)
    (hvisited : Visited xattr i) :
    (readObject cf xattr (xattr.address (trailerOf xattr).offsetTableOffset)
        (offsetOf xattr i)).isSome ↔
      xattr.base + offsetOf xattr i < 2 ^ 64 ∧ StringInside xattr (offsetOf xattr i) := by
  have hmapped := xattr.mapped
  obtain ⟨hlt, hne, hbefore⟩ := hvisited
  have hthis := hbefore i (Nat.le_refl i) hne
  have hstored := tableInside_of xattr haccepted hfits i hlt
  by_cases hsupported : Supported (trailerOf xattr).offsetIntSize
  · have hoffset := getSizedInt_lt hstored
    by_cases hlow : xattr.base + offsetOf xattr i < 2 ^ 64
    · have hmarker : offsetOf xattr i + 32 < xattr.bytes.length := by
        unfold Corrupted address at hthis
        rw [wrap_of_lt hlow, wrap_of_lt (by omega)] at hthis
        omega
      rw [and_iff_right hlow]
      exact readObject_isSome_iff cf xattr hmarker
        (tableOffset_le xattr haccepted (hfits hsupported))
    · -- a pointer before the attribute
      have hnone : readRange xattr.bytes (offsetOf xattr i) 1 = none :=
        readRange_none (by decide) (by omega)
      refine iff_of_false ?_ fun h => hlow h.1
      unfold readObject
      dsimp only [bind_eq_bind]
      rw [hnone]
      exact Bool.false_ne_true
  · have hzero : offsetOf xattr i = 0 := by
      unfold getSizedInt at hstored
      unfold Supported at hsupported
      rw [if_neg hsupported] at hstored
      exact (some.inj hstored).symm
    have hread := readObject_prologue cf xattr haccepted.1 haccepted.2.1
      (xattr.address (trailerOf xattr).offsetTableOffset)
    rw [hzero]
    refine iff_of_true hread.1 ⟨?_, hread.2⟩
    omega

theorem parse_accepted : parseMDItemUserTags cf xattr =
      { requested := (trailerOf xattr).numObjects - 1
        tags := readObjects cf xattr (trailerOf xattr) (trailerOf xattr).numObjects 0
          (trailerOf xattr).offsetTableOffset [] } := by
  exact if_pos haccepted

/-- What an accepted attribute returns, once its table is inside. -/
theorem parse_isSome_iff
    (hfits : Supported (trailerOf xattr).offsetIntSize → (trailerOf xattr).offsetTableOffset + (trailerOf xattr).numObjects * (trailerOf xattr).offsetIntSize < 2 ^ 64) :
    (parseMDItemUserTags cf xattr).tags.isSome ↔ ∀ i, Visited xattr i →
        xattr.base + offsetOf xattr i < 2 ^ 64 ∧ StringInside xattr (offsetOf xattr i) := by
  have hstart : wrap ((trailerOf xattr).offsetTableOffset + 0 * (trailerOf xattr).offsetIntSize) =
      (trailerOf xattr).offsetTableOffset := by
    rw [Nat.zero_mul, Nat.add_zero]
    exact wrap_of_lt (trailer_bounds xattr).2.2
  have hloop := readObjects_isSome_iff cf xattr (tableInside_of xattr haccepted hfits)
    (Nat.zero_add (trailerOf xattr).numObjects) []
  rw [hstart] at hloop
  rw [parse_accepted cf xattr haccepted, hloop]
  constructor
  · intro h i hvisited
    rw [← visited_isSome_iff cf xattr haccepted hfits hvisited]
    exact h i (Nat.zero_le i) hvisited.1 hvisited.2.1 fun j _ hj => hvisited.2.2 j hj
  · intro h i _ hlt hne hbefore
    have hvisited : Visited xattr i := ⟨hlt, hne, fun j hj => hbefore j (Nat.zero_le j) hj⟩
    rw [visited_isSome_iff cf xattr haccepted hfits hvisited]
    exact h i hvisited

/-- The first entry of the table is always read. -/
theorem table_fits (hreturns : ∃ tags, (parseMDItemUserTags cf xattr).tags = some tags)
    (hentries : ((trailerOf xattr).numObjects - 1) * (trailerOf xattr).offsetIntSize ≤ xattr.bytes.length)
    (hsupported : Supported (trailerOf xattr).offsetIntSize) : (trailerOf xattr).offsetTableOffset +
      (trailerOf xattr).numObjects * (trailerOf xattr).offsetIntSize < 2 ^ 64 := by
  obtain ⟨tags, htags⟩ := hreturns
  have hmapped := xattr.mapped
  rw [parse_accepted cf xattr haccepted] at htags
  obtain ⟨count, hcount⟩ := exists_eq_succ_of_ne_zero haccepted.2.2.1
  have hfirst : (getSizedInt xattr.bytes (trailerOf xattr).offsetTableOffset
      (trailerOf xattr).offsetIntSize).isSome := by
    rw [hcount] at htags
    obtain ⟨offset, hoffset, -⟩ := bind_eq_some_iff.mp htags
    rw [hoffset]
    rfl
  rw [getSizedInt_isSome_iff] at hfirst
  have hinside := hfirst hsupported
  rw [hcount, succ_sub_one] at hentries
  rw [hcount, succ_mul]
  omega

end

/-- Every byte that is read is inside and no more is asked for than there is room for, exactly if
nothing that wraps around passes a comparison. -/
theorem readsSafely_iff :
    ReadsSafely cf xattr ↔ (Accepted xattr.bytes (trailerOf xattr) → NothingWraps xattr) := by
  by_cases haccepted : Accepted xattr.bytes (trailerOf xattr)
  · have hrequested : (parseMDItemUserTags cf xattr).requested =
        (trailerOf xattr).numObjects - 1 := by
      rw [parse_accepted cf xattr haccepted]
    rw [imp_iff_right haccepted]
    constructor
    · intro hsafe
      have hentries := hsafe.requested
      rw [hrequested] at hentries
      have hfits := table_fits cf xattr haccepted hsafe.returns hentries
      have hinside := (parse_isSome_iff cf xattr haccepted hfits).mp
        (isSome_iff_exists.mpr hsafe.returns)
      exact ⟨hentries, hfits, fun i hi => (hinside i hi).1, fun i hi => (hinside i hi).2⟩
    · intro hwraps
      have hreturns := (parse_isSome_iff cf xattr haccepted hwraps.table).mpr fun i hi =>
        ⟨hwraps.offsets i hi, hwraps.strings i hi⟩
      refine ⟨isSome_iff_exists.mp hreturns, ?_⟩
      rw [hrequested]
      exact hwraps.entries
  · have hparsed : parseMDItemUserTags cf xattr = { requested := 0, tags := some [] } := by
      exact if_neg haccepted
    refine iff_of_true ⟨⟨[], ?_⟩, ?_⟩ fun h => absurd h haccepted
    · rw [hparsed]
    · rw [hparsed]
      exact Nat.le_trans (Nat.le_of_eq (Nat.zero_mul _)) (Nat.zero_le _)

/-- 2 ^ 63 objects with offsets of two bytes make a table that is empty. -/
def overflowingTable : Attribute where
  bytes := prologue ++ [0x00] ++ [0, 0, 0, 0, 0, 0, 2, 1] ++ bigEndianBytes 8 (2 ^ 63) ++
    bigEndianBytes 8 0 ++ bigEndianBytes 8 8
  base := 0
  mapped := by decide

theorem overflowingTable_unsafe : ¬ReadsSafely plainCoreFoundation overflowingTable := by
  intro hsafe
  have hentries := hsafe.requested
  exact absurd hentries (by decide +kernel)

end Objects

end WinCommander.Utility
