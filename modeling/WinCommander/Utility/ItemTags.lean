/-
  The tags of an item: reading them, writing them, adding one and removing one.

  An item has two extended attributes that say tags. The attributes that there are can be listed,
  read and set; what the file system refuses is left out, and so are other attributes.
-/
import WinCommander.Utility.TagsRoundTrip

namespace WinCommander.Utility

open Library List

/-- `com.apple.metadata:_kMDItemUserTags` and `com.apple.FinderInfo`. -/
structure Item where
  userTags : Option Bytes
  finderInfo : Option Bytes

/-- Where an attribute is read to; there is room for 4096 bytes. -/
structure Buffer where
  base : Nat
  mapped : base + 4096 < 2 ^ 63

def parseFinderInfo (bytes : Bytes) : List Tag :=
  if bytes.length ≠ 32 then []
  else
    match ((bytes.getD 9 0).toNat % 16) / 2 with
    | 1 => [⟨utf8OfString "Gray", .gray⟩]
    | 2 => [⟨utf8OfString "Green", .green⟩]
    | 3 => [⟨utf8OfString "Purple", .purple⟩]
    | 4 => [⟨utf8OfString "Blue", .blue⟩]
    | 5 => [⟨utf8OfString "Yellow", .yellow⟩]
    | 6 => [⟨utf8OfString "Red", .red⟩]
    | 7 => [⟨utf8OfString "Orange", .orange⟩]
    | _ => []

def setFinderInfoLabel (bytes : Bytes) (color : Color) : Bytes :=
  bytes.set 9 ((bytes.getD 9 0 &&& 0xF1) ||| UInt8.ofNat (2 * color.code))

/-- An attribute that does not fit in the buffer is not read. -/
def readMDItemUserTags (cf : CoreFoundation) (buf : Buffer) (item : Item) : Option (List Tag) :=
  match item.userTags with
  | none => some []
  | some bytes =>
    if h : bytes.length ≤ 4096 then
      (parseMDItemUserTags cf ⟨bytes, buf.base,
        Nat.lt_of_le_of_lt (Nat.add_le_add_left h buf.base) buf.mapped⟩).tags
    else some []

def readFinderInfo (item : Item) : List Tag := (item.finderInfo.map parseFinderInfo).getD []

def readTags (cf : CoreFoundation) (buf : Buffer) (item : Item) : Option (List Tag) := do
  let tags ← readMDItemUserTags cf buf item
  return if tags ≠ [] then tags else readFinderInfo item

def clearAllTags (item : Item) : Bool × Item :=
  match item.finderInfo with
  | none => (true, { item with userTags := none })
  | some info =>
    if info.length ≠ 32 then (false, { item with userTags := none })
    else (true, { userTags := none, finderInfo := some (setFinderInfoLabel info .none) })

/-- There is no result where the writer aborts. -/
def writeTags (cf : CoreFoundation) (item : Item) (tags : List Tag) : Option (Bool × Item) :=
  match tags with
  | [] => some (clearAllTags item)
  | front :: _ => do
      let blob ← buildMDItemUserTags cf tags
      let info := item.finderInfo.getD (List.replicate 32 0)
      if info.length ≠ 32 then return (false, { item with userTags := some blob })
      return (true, { userTags := some blob, finderInfo := some (setFinderInfoLabel info front.color) })

/-- A tag with the same name is overridden; a new one comes last. -/
def override (newTag : Tag) : List Tag → List Tag
  | [] => [newTag]
  | tag :: tags =>
    if tag.label = newTag.label then newTag :: tags else tag :: override newTag tags

def addTag (cf : CoreFoundation) (buf : Buffer) (item : Item) (newTag : Tag) :
    Option (Bool × Item) := do
  let tags ← readTags cf buf item
  if newTag ∈ tags then return (true, item)
  writeTags cf item (override newTag tags)

def removeTag (cf : CoreFoundation) (buf : Buffer) (item : Item) (label : Bytes) :
    Option (Bool × Item) := do
  let tags ← readTags cf buf item
  if tags.any (·.label = label) then writeTags cf item (tags.eraseP (·.label = label))
  else return (true, item)

/-! ## What is asked for -/

/-- The offsets of what is written fit in one byte. -/
def ShortOffsets (cf : CoreFoundation) (tags : List Tag) : Prop :=
  ∀ offset ∈ plistOffsets (plistObjects cf tags), offset ≤ 255

/-- Tags that can be stored in an item, where they are found again. -/
structure Storable (cf : CoreFoundation) (item : Item) (tags : List Tag) : Prop where
  writable : ∀ tag ∈ tags, Writable cf tag
  offsets : ShortOffsets cf tags
  fits : ∀ bytes, buildMDItemUserTags cf tags = some bytes → bytes.length ≤ 4096
  finderInfo : ∀ info, item.finderInfo = some info → info.length = 32

/-- The tags with other labels. -/
def others (label : Bytes) (tags : List Tag) : List Tag := tags.filter (·.label ≠ label)

/-- What was written is read, up to fourteen tags. -/
def SurviveWriting (cf : CoreFoundation) : Prop :=
  ∀ tags, tags ≠ [] → (∀ tag ∈ tags, Writable cf tag) → ShortOffsets cf tags →
    ∃ bytes, buildMDItemUserTags cf tags = some bytes ∧ ∀ xattr : Attribute, xattr.bytes = bytes →
      (parseMDItemUserTags cf xattr).tags = some ((tags.take 14).map readBack)

/-- After an edit the edited tags are read, and the others of them are as before if they are few
and read as themselves. -/
structure Edited (cf : CoreFoundation) (label : Bytes) (tags edited : List Tag)
    (result : Option (Bool × Item)) : Prop where
  reads : ∃ item, result = some (true, item) ∧
    ∀ buf, readTags cf buf item = some ((edited.take 14).map readBack)
  keeps : edited.length ≤ 14 → (∀ tag ∈ edited, readBack tag = tag) →
    others label ((edited.take 14).map readBack) = others label tags

def SurviveAdding (cf : CoreFoundation) : Prop :=
  ∀ buf item tags newTag, readTags cf buf item = some tags →
    (newTag ∈ tags → addTag cf buf item newTag = some (true, item)) ∧
      (newTag ∉ tags → Storable cf item (override newTag tags) →
        Edited cf newTag.label tags (override newTag tags) (addTag cf buf item newTag))

def SurviveRemoving (cf : CoreFoundation) : Prop :=
  ∀ buf item tags label, readTags cf buf item = some tags →
    ((∀ tag ∈ tags, tag.label ≠ label) → removeTag cf buf item label = some (true, item)) ∧
      ((∃ tag ∈ tags, tag.label = label) → Storable cf item (tags.eraseP (·.label = label)) →
        Edited cf label tags (tags.eraseP (·.label = label)) (removeTag cf buf item label))

/-! ## Writing and reading -/

theorem parseFinderInfo_cleared (info : Bytes) :
    parseFinderInfo (setFinderInfoLabel info .none) = [] := by
  have hcleared : ∀ n < 256, ((UInt8.ofNat n &&& 0xF1) ||| UInt8.ofNat 0).toNat % 16 / 2 = 0 := by
    decide +kernel
  unfold parseFinderInfo setFinderInfoLabel
  by_cases hlength : (info.set 9 ((info.getD 9 0 &&& 0xF1) ||| UInt8.ofNat (2 * Color.none.code))).length
      ≠ 32
  · rw [if_pos hlength]
  · have hinside : 9 < info.length := by
      rw [length_set] at hlength
      omega
    have hbyte := hcleared (info.getD 9 0).toNat (UInt8.toNat_lt _)
    rw [UInt8.ofNat_toNat] at hbyte
    rw [if_neg hlength, List.getD_eq_getElem?_getD, List.getElem?_set_self hinside, Option.getD_some]
    show (match ((info.getD 9 0 &&& 0xF1) ||| UInt8.ofNat 0).toNat % 16 / 2 with
      | 1 => _ | 2 => _ | 3 => _ | 4 => _ | 5 => _ | 6 => _ | 7 => _ | _ => []) = []
    rw [hbyte]
    rfl

theorem readTags_written (h : Storable cf item tags)
    : ∃ item', writeTags cf item tags = some (true, item') ∧
      ∀ buf, readTags cf buf item' = some ((tags.take 14).map readBack) := by
  cases tags with
  | nil =>
    unfold writeTags clearAllTags
    cases hinfo : item.finderInfo with
    | none => exact ⟨_, rfl, fun _ => rfl⟩
    | some info =>
      dsimp only
      rw [if_neg (not_not.mpr (h.finderInfo info hinfo))]
      refine ⟨_, rfl, fun _ => ?_⟩
      show some (parseFinderInfo (setFinderInfoLabel info .none)) = some []
      rw [parseFinderInfo_cleared]
  | cons front rest =>
    obtain ⟨bytes, hbuild, hparse⟩ := parse_build (cons_ne_nil front rest) h.writable h.offsets
    have hinfo : (item.finderInfo.getD (replicate 32 0)).length = 32 := by
      cases hfound : item.finderInfo with
      | none => exact length_replicate
      | some info => exact h.finderInfo info hfound
    unfold writeTags
    dsimp only [Option.bind_eq_bind]
    rw [hbuild]
    dsimp only [Option.bind_some]
    rw [if_neg (not_not.mpr hinfo)]
    refine ⟨_, rfl, fun buf => ?_⟩
    have hfits := h.fits bytes hbuild
    have hread : readMDItemUserTags cf buf
        ⟨some bytes, some (setFinderInfoLabel (item.finderInfo.getD (replicate 32 0))
          front.color)⟩ = some (((front :: rest).take 14).map readBack) := by
      unfold readMDItemUserTags
      dsimp only
      rw [dif_pos hfits]
      exact hparse _ rfl
    unfold readTags
    rw [hread]
    rfl

theorem others_cons_same (h : tag.label = label) (tags : List Tag) :
    others label (tag :: tags) = others label tags := by
  unfold others
  rw [filter_cons, if_neg]
  rw [decide_eq_true_eq]
  exact not_not.mpr h

theorem others_cons_other (h : tag.label ≠ label) (tags : List Tag) :
    others label (tag :: tags) = tag :: others label tags := by
  unfold others
  rw [filter_cons, if_pos (decide_eq_true h)]

theorem others_override (newTag : Tag) (tags : List Tag) :
    others newTag.label (override newTag tags) = others newTag.label tags := by
  induction tags with
  | nil => exact others_cons_same rfl []
  | cons tag tags ih =>
    unfold override
    split_ifs with hsame
    · rw [others_cons_same rfl, others_cons_same hsame]
    · rw [others_cons_other hsame, others_cons_other hsame, ih]

theorem others_eraseP (label : Bytes) (tags : List Tag) :
    others label (tags.eraseP (·.label = label)) = others label tags := by
  induction tags with
  | nil => rfl
  | cons tag tags ih =>
    by_cases hsame : tag.label = label
    · have herased : (tag :: tags).eraseP (·.label = label) = tags :=
        eraseP_cons_of_pos (decide_eq_true hsame)
      rw [herased, others_cons_same hsame]
    · have hkept : (tag :: tags).eraseP (·.label = label) =
          tag :: tags.eraseP (·.label = label) := by
        rw [eraseP_cons, decide_eq_false hsame]
        rfl
      rw [hkept, others_cons_other hsame, others_cons_other hsame, ih]

theorem edited_of (h : Storable cf item edited) (hothers : others label edited = others label tags) :
    Edited cf label tags edited (writeTags cf item edited) where
  reads := readTags_written h
  keeps hfew hsame := by
    rw [take_of_length_le hfew, map_congr_left hsame, map_id', hothers]

theorem tags_survive (cf : CoreFoundation) :
    SurviveWriting cf ∧ SurviveAdding cf ∧ SurviveRemoving cf := by
  refine ⟨fun tags hne htags hoffsets => parse_build hne htags hoffsets,
    fun buf item tags newTag hread => ?_, fun buf item tags label hread => ?_⟩
  · unfold addTag
    dsimp only [Option.bind_eq_bind]
    rw [hread]
    dsimp only [Option.bind_some]
    refine ⟨fun hmem => if_pos hmem, fun hnew hstorable => ?_⟩
    rw [if_neg hnew]
    exact edited_of hstorable (others_override newTag tags)
  · unfold removeTag
    dsimp only [Option.bind_eq_bind]
    rw [hread]
    dsimp only [Option.bind_some]
    constructor
    · intro hnone
      refine if_neg fun hany => ?_
      obtain ⟨tag, htag, hlabel⟩ := any_eq_true.mp hany
      exact hnone tag htag (of_decide_eq_true hlabel)
    · rintro ⟨tag, htag, hlabel⟩ hstorable
      rw [if_pos (any_eq_true.mpr ⟨tag, htag, decide_eq_true hlabel⟩)]
      exact edited_of hstorable (others_eraseP label tags)

/-- Two tags, one with a colour and one that is not ASCII. -/
def twoTags : List Tag := [⟨[0x61], .red⟩, ⟨[0xC3, 0xA9], .none⟩]

theorem twoTags_writable : ∀ tag ∈ twoTags, Writable plainCoreFoundation tag := by
  have hfirst : Writable plainCoreFoundation ⟨[0x61], .red⟩ :=
    ⟨⟨[0x61], by decide, by decide, by decide⟩, by decide +kernel, by decide⟩
  have hsecond : Writable plainCoreFoundation ⟨[0xC3, 0xA9], .none⟩ :=
    ⟨⟨[0xE9], by decide, by decide, by decide⟩, by decide +kernel, by decide⟩
  unfold twoTags
  rw [forall_mem_cons, forall_mem_singleton]
  exact ⟨hfirst, hsecond⟩

theorem twoTags_survive : ∃ bytes, buildMDItemUserTags plainCoreFoundation twoTags = some bytes ∧
    ∀ xattr : Attribute, xattr.bytes = bytes →
      (parseMDItemUserTags plainCoreFoundation xattr).tags = some ((twoTags.take 14).map readBack) :=
  (tags_survive plainCoreFoundation).1 twoTags (by decide) twoTags_writable (by
    unfold ShortOffsets
    decide +kernel)

def fifteenTags : List Tag := List.replicate 15 ⟨[0x61], .none⟩

theorem fifteenTags_lost : ¬∃ bytes,
    buildMDItemUserTags plainCoreFoundation fifteenTags = some bytes ∧
      ∀ xattr : Attribute, xattr.bytes = bytes →
        (parseMDItemUserTags plainCoreFoundation xattr).tags = some fifteenTags := by
  rintro ⟨bytes, hbuild, hparse⟩
  have hwritten : buildMDItemUserTags plainCoreFoundation fifteenTags =
      some (written plainCoreFoundation (replicate 14 ⟨[0x61], .none⟩)) := by
    decide +kernel
  obtain rfl := Option.some.inj (hwritten.symm.trans hbuild)
  have hread := hparse ⟨written plainCoreFoundation (replicate 14 ⟨[0x61], .none⟩), 0,
    by decide +kernel⟩ rfl
  exact absurd hread (by decide +kernel)

end WinCommander.Utility
