/-
  The extended attributes of an AppleDouble file (`ExtractEAFromAppleDouble`).

  What is read is recorded, so that a read outside the buffer shows. Both headers are copied without a
  look at the size, the sum of an offset and a length wraps, and an entry that is not taken leaves an
  empty attribute behind. `Buffer.Sound` is what keeps a buffer from all of this (`safe_iff`).
-/
import WinCommander.Library.Numeral

namespace WinCommander.VFS.AppleDouble

open Library List Option

/-- An attribute, with the place of its data in the buffer. -/
structure AppleDoubleEA where
  data : Nat := 0
  dataSz : UInt32 := 0
  name : Bytes := []
  deriving DecidableEq

/-- The memory from the buffer on. -/
structure Buffer where
  byte : Nat → UInt8
  size : Nat

namespace Buffer

def u16 (b : Buffer) (place : Nat) : UInt16 :=
  (b.byte place).toUInt16 <<< 8 ||| (b.byte (place + 1)).toUInt16

def u32 (b : Buffer) (place : Nat) : UInt32 :=
  (b.u16 place).toUInt32 <<< 16 ||| (b.u16 (place + 2)).toUInt32

/-- The size of the header but for its padding. -/
def unpaddedSize : Nat := 82

def headerSize : Nat := 84

def attrHeaderSize : Nat := 120

def attrEntrySize : Nat := 12

def finderInfoPlace : Nat := 50

def finderInfoSize : UInt32 := 32

def attrHdrMagic : UInt32 := 0x41545452

def isAppleDouble (b : Buffer) : Bool :=
  unpaddedSize ≤ b.size && b.u32 0 = 0x00051607 && b.u32 4 = 0x00020000 && b.u16 24 = 2 &&
    b.u32 26 = 9

def hasFinderInfo (b : Buffer) : Bool :=
  (List.range finderInfoSize.toNat).any fun i => b.byte (finderInfoPlace + i) ≠ 0

def finderInfo : AppleDoubleEA :=
  { data := finderInfoPlace, dataSz := finderInfoSize, name := ascii "com.apple.FinderInfo" }

/-- The bytes before the next zero, or all there are. -/
def lengthAt (b : Buffer) (place : Nat) : Nat :=
  ((List.range (b.size - place)).find? fun i => b.byte (place + i) = 0).getD (b.size - place)

/-- The attribute of an entry, if it seems to be a valid one. The length of its name is counted in 32
    bits. -/
def xattr (b : Buffer) (entry : Nat) : Option AppleDoubleEA :=
  let name := entry + 11
  let namelen := (UInt32.ofNat (b.lengthAt name)).toNat
  let offset := b.u32 entry
  let length := b.u32 (entry + 4)
  if 0 < namelen ∧ name + namelen < b.size ∧ b.byte (name + namelen) = 0 ∧
      (offset + length).toNat ≤ b.size then
    some ⟨offset.toNat, length, (List.range namelen).map fun i => b.byte (name + i)⟩
  else none

/-- Places and lengths. -/
abbrev Reads := List (Nat × Nat)

/-- The offset and the length, the length of the name for `ATTR_NEXT`, and the name. -/
def entryReads (b : Buffer) (entry : Nat) : Reads :=
  [(entry, 8), (entry + 10, 1),
    (entry + 11, min (b.lengthAt (entry + 11) + 1) (b.size - (entry + 11)))]

def attrNext (b : Buffer) (entry : Nat) : Nat := entry + (14 + (b.byte (entry + 10)).toNat) / 4 * 4

def entriesLoop (b : Buffer) : Nat → Nat → List AppleDoubleEA × Reads
  | 0, _ => ([], [])
  | count + 1, entry =>
    if b.size < entry + attrEntrySize then ([], [])
    else
      let later := b.entriesLoop count (b.attrNext entry)
      ((b.xattr entry).toList ++ later.1, b.entryReads entry ++ later.2)

/-- How many entries are declared, and what the loop finds. -/
def attributes (b : Buffer) : Nat × List AppleDoubleEA × Reads :=
  if b.u32 34 ≤ finderInfoSize then (0, [], [])
  else if b.u32 84 ≠ attrHdrMagic then (0, [], [(0, attrHeaderSize)])
  else
    let count := (b.u16 118).toNat
    let found := b.entriesLoop count attrHeaderSize
    (count, found.1, (0, attrHeaderSize) :: found.2)

/-- The attributes with what is read for them. The vector has room for every declared entry. -/
def extractEA (b : Buffer) : List AppleDoubleEA × Reads :=
  if b.isAppleDouble = false then
    ([], if unpaddedSize ≤ b.size then [(0, unpaddedSize)] else [])
  else
    let (declared, found) := b.attributes
    (found.1 ++ (if b.hasFinderInfo then [finderInfo] else []) ++
      List.replicate (declared - found.1.length) {}, (0, headerSize) :: found.2)

/-! ## Sound buffers -/

def Inside (b : Buffer) (place length : Nat) : Prop := place + length ≤ b.size

/-- An attribute that may be returned. -/
def Good (b : Buffer) (ea : AppleDoubleEA) : Prop := ea.name ≠ [] ∧ b.Inside ea.data ea.dataSz.toNat

structure Safe (b : Buffer) : Prop where
  reads : ∀ read ∈ b.extractEA.2, b.Inside read.1 read.2
  attributes : ∀ ea ∈ b.extractEA.1, b.Good ea

/-- An entry with a name that ends in the buffer, and data that does. -/
structure EntryFits (b : Buffer) (entry : Nat) : Prop where
  inside : b.Inside entry attrEntrySize
  named : 0 < b.lengthAt (entry + 11)
  length : b.lengthAt (entry + 11) < 2 ^ 32
  ended : entry + 11 + b.lengthAt (entry + 11) < b.size
  data : b.Inside (b.u32 entry).toNat (b.u32 (entry + 4)).toNat

def EntriesFit (b : Buffer) : Nat → Nat → Prop
  | 0, _ => True
  | count + 1, entry => b.EntryFits entry ∧ b.EntriesFit count (b.attrNext entry)

/-- The buffer holds its headers, and every entry that is declared is one. -/
def Sound (b : Buffer) : Prop :=
  b.isAppleDouble = true → headerSize ≤ b.size ∧
    (finderInfoSize < b.u32 34 → attrHeaderSize ≤ b.size ∧
      (b.u32 84 = attrHdrMagic → b.EntriesFit (b.u16 118).toNat attrHeaderSize))

section Entries

variable {b : Buffer} {entry place : Nat}

theorem byte_of_lt_lengthAt {i : Nat} (h : i < b.lengthAt place) : b.byte (place + i) ≠ 0 := by
  unfold lengthAt at h
  cases hfind : (range (b.size - place)).find? fun i => b.byte (place + i) = 0 with
  | none =>
    rw [hfind] at h
    simpa using find?_range_eq_none.mp hfind i h
  | some n =>
    rw [hfind] at h
    simpa using (find?_range_eq_some.mp hfind).2.2 i h

theorem byte_lengthAt (h : place + b.lengthAt place < b.size) :
    b.byte (place + b.lengthAt place) = 0 := by
  unfold lengthAt at h ⊢
  cases hfind : (range (b.size - place)).find? fun i => b.byte (place + i) = 0 with
  | none =>
    rw [hfind, getD_none] at h
    omega
  | some n => simpa using (find?_range_eq_some.mp hfind).1

/-- A name that seems to be valid is one. -/
theorem name_iff : (0 < (UInt32.ofNat (b.lengthAt place)).toNat ∧
      place + (UInt32.ofNat (b.lengthAt place)).toNat < b.size ∧
      b.byte (place + (UInt32.ofNat (b.lengthAt place)).toNat) = 0) ↔
    0 < b.lengthAt place ∧ b.lengthAt place < 2 ^ 32 ∧ place + b.lengthAt place < b.size := by
  rw [UInt32.toNat_ofNat']
  by_cases hlt : b.lengthAt place < 2 ^ 32
  · rw [Nat.mod_eq_of_lt hlt]
    exact ⟨fun h => ⟨h.1, hlt, h.2.1⟩, fun h => ⟨h.1, h.2.2, byte_lengthAt h.2.2⟩⟩
  · -- A name that long goes on where its counted length ends.
    have hmod := Nat.mod_lt (b.lengthAt place) (Nat.two_pow_pos 32)
    exact iff_of_false (fun h => byte_of_lt_lengthAt (by omega) h.2.2) fun h => hlt h.2.1

theorem xattr_good (h : b.Inside entry attrEntrySize) :
    (∃ ea, b.xattr entry = some ea ∧ b.Good ea) ↔ b.EntryFits entry := by
  have hname := @name_iff b (entry + 11)
  have hsum : (b.u32 entry + b.u32 (entry + 4)).toNat ≤
      (b.u32 entry).toNat + (b.u32 (entry + 4)).toNat := by
    exact Nat.mod_le _ _
  constructor
  · rintro ⟨ea, hsome, -, hdata⟩
    obtain ⟨⟨hpos, hlt, hzero, -⟩, heq⟩ := ite_none_right_eq_some.mp hsome
    obtain ⟨hnamed, hlength, hended⟩ := hname.mp ⟨hpos, hlt, hzero⟩
    rw [← some.inj heq] at hdata
    exact ⟨h, hnamed, hlength, hended, hdata⟩
  · intro hfits
    obtain ⟨hpos, hlt, hzero⟩ := hname.mpr ⟨hfits.named, hfits.length, hfits.ended⟩
    refine ⟨_, if_pos ⟨hpos, hlt, hzero, hsum.trans hfits.data⟩, ?_, hfits.data⟩
    exact mt map_eq_nil_iff.mp (range_eq_nil.not.mpr (Nat.ne_of_gt hpos))

theorem entryReads_inside (h : b.Inside entry attrEntrySize) :
    ∀ read ∈ b.entryReads entry, b.Inside read.1 read.2 := by
  unfold Inside attrEntrySize at h
  unfold entryReads Inside
  simp only [forall_mem_cons]
  exact ⟨by omega, by omega, by omega, fun read hread => absurd hread not_mem_nil⟩

theorem entriesLoop_inside (count entry : Nat) :
    ∀ read ∈ (b.entriesLoop count entry).2, b.Inside read.1 read.2 := by
  induction count generalizing entry with
  | zero => exact fun read hread => absurd hread not_mem_nil
  | succ count ih =>
    unfold entriesLoop
    split
    · exact fun read hread => absurd hread not_mem_nil
    · exact forall_mem_append.mpr ⟨entryReads_inside (Nat.le_of_not_lt ‹_›), ih _⟩

theorem length_entriesLoop (count entry : Nat) : (b.entriesLoop count entry).1.length ≤ count := by
  induction count generalizing entry with
  | zero => exact Nat.le_refl 0
  | succ count ih =>
    unfold entriesLoop
    split
    · exact Nat.zero_le _
    · have hrest := ih (b.attrNext entry)
      rw [length_append]
      cases b.xattr entry <;> dsimp only [toList, length] <;> omega

/-- No entry is left out and all attributes are good exactly if the entries fit. -/
theorem entriesLoop_iff (count entry : Nat) :
    (count ≤ (b.entriesLoop count entry).1.length ∧ ∀ ea ∈ (b.entriesLoop count entry).1, b.Good ea) ↔
      b.EntriesFit count entry := by
  induction count generalizing entry with
  | zero => exact iff_of_true ⟨Nat.le_refl 0, fun ea hea => absurd hea not_mem_nil⟩ trivial
  | succ count ih =>
    have hlength := @length_entriesLoop b count (b.attrNext entry)
    unfold entriesLoop EntriesFit
    split
    · rename_i hout
      exact iff_of_false (fun h => Nat.not_succ_le_zero count h.1)
        fun h => Nat.not_le.mpr hout h.1.inside
    · rw [← ih, ← xattr_good (Nat.le_of_not_lt ‹_›), length_append, forall_mem_append]
      cases b.xattr entry with
      | none => exact iff_of_false (fun h => by simp at h; omega) fun h => by simp at h
      | some ea => simp [and_left_comm, Nat.add_comm 1]

end Entries

/-- What is read and returned is inside the buffer exactly for sound ones. -/
theorem safe_iff (b : Buffer) : b.Safe ↔ b.Sound := by
  have hsafe : b.Safe ↔ (∀ read ∈ b.extractEA.2, b.Inside read.1 read.2) ∧
      ∀ ea ∈ b.extractEA.1, b.Good ea := ⟨fun h => ⟨h.1, h.2⟩, fun h => ⟨h.1, h.2⟩⟩
  rw [hsafe]
  unfold extractEA Sound
  cases hdouble : b.isAppleDouble with
  | false =>
    rw [if_pos rfl]
    refine iff_of_true ⟨?_, fun ea hea => absurd hea not_mem_nil⟩ fun h => Bool.noConfusion h
    split
    · simpa [Inside] using ‹_›
    · exact fun read hread => absurd hread not_mem_nil
  | true =>
    have hsize : unpaddedSize ≤ b.size := by
      unfold isAppleDouble at hdouble
      simp only [Bool.and_eq_true, decide_eq_true_eq] at hdouble
      exact hdouble.1.1.1.1
    have hinfo : ∀ ea ∈ (if b.hasFinderInfo then [finderInfo] else []), b.Good ea := by
      intro ea hea
      obtain rfl : ea = finderInfo := by
        split at hea
        · exact mem_singleton.mp hea
        · exact absurd hea not_mem_nil
      exact ⟨by decide, hsize⟩
    have hempty (declared : Nat) (found : List AppleDoubleEA) :
        (∀ ea ∈ replicate (declared - found.length) ({} : AppleDoubleEA), b.Good ea) ↔
          declared ≤ found.length := by
      rw [forall_mem_replicate, ← Nat.sub_eq_zero_iff_le]
      exact or_iff_left fun h => h.1 rfl
    rw [if_neg Bool.false_ne_true.symm, imp_iff_right rfl]
    dsimp only
    rw [forall_mem_append, forall_mem_append, hempty, forall_mem_cons, and_iff_left hinfo]
    show (headerSize ≤ b.size ∧ _) ∧ _ ↔ _
    rw [and_assoc]
    refine and_congr_right fun _ => ?_
    unfold attributes
    by_cases hshort : b.u32 34 ≤ finderInfoSize
    · rw [if_pos hshort]
      refine iff_of_true ?_ fun hlt => absurd hlt (UInt32.not_lt.mpr hshort)
      simp
    · rw [if_neg hshort, imp_iff_right (UInt32.not_le.mp hshort)]
      by_cases hmagic : b.u32 84 = attrHdrMagic
      · rw [if_neg (not_not.mpr hmagic), imp_iff_right hmagic, ← entriesLoop_iff, forall_mem_cons,
          and_iff_left (entriesLoop_inside _ _)]
        have hinside : b.Inside 0 attrHeaderSize ↔ attrHeaderSize ≤ b.size := by
          rw [Inside, Nat.zero_add]
        exact and_congr hinside and_comm
      · rw [if_pos hmagic]
        simp [Inside, hmagic]

/-- The header of a buffer that declares no attributes ends with two bytes behind it. -/
theorem not_safe_unpadded : ¬Safe {
    byte := fun place => (ascii "\x00\x05\x16\x07\x00\x02\x00\x00").getD place 0 +
      if place = 25 then 2 else if place = 29 then 9 else 0
    size := 82 } := by
  rw [safe_iff]
  intro h
  exact absurd (h (by decide +kernel)).1 (by decide)

end Buffer

end WinCommander.VFS.AppleDouble
