/-
  When the index of an archive is a tree with the sizes of its files.

  `WellFormed` says what the index should be after the listing was read, and `Orderly` which headers
  make it so: those whose directories have no repeated slashes, that name no place twice and no
  place below a file, and whose sizes do not overflow.
-/
import WinCommander.VFS.ArcLA.DirectorySize

namespace WinCommander.VFS.ArcLA

open Library List Option UInt32 AList
open Library.Path (slash dot dotDot)
open Utility.PathManip

/-! ## The index -/

/-- What is found by listing directories, from the root. -/
inductive Listed (dirs : PathToDir) : Bytes → Prop
  | root : Listed dirs [slash]
  | child (key : Bytes) (e : DirEntry) (above : Listed dirs key) (entry : e ∈ entriesOf dirs key)
      (directory : e.st.type = .directory) (there : child key e.name ∈ dirs) :
      Listed dirs (child key e.name)

structure WellFormed (index : Index) : Prop where
  directory : ∀ key ∈ index.pathToDir, key ≠ [slash] → parent key ∈ index.pathToDir ∧
    ∃! i : Nat, ∃ e, (entriesOf index.pathToDir (parent key))[i]? = some e ∧
      e.st.type = .directory ∧ child (parent key) e.name = key
  names : ∀ key, ((entriesOf index.pathToDir key).map DirEntry.name).Nodup ∧
    ∀ e ∈ entriesOf index.pathToDir key, Component e.name
  uids : ∀ uid : UInt32, (recorded index.entryByUID uid.toNat).isSome = true →
    ∃ e, index.findEntryByUID uid = some e ∧ e.aruid = uid
  sizes : ∀ key dir, index.pathToDir.lookup key = some dir →
    dir.contentSize.toNat = below index.pathToDir key ∧ ∀ e ∈ dir.entries, e.st.type = .directory →
        e.st.size.toInt = below index.pathToDir (child key e.name)
  listed : ∀ key ∈ index.pathToDir, Listed index.pathToDir key

/-! ## The headers -/

/-- An entry that the index keeps, with its uid. -/
structure Kept where
  uid : UInt32
  path : Bytes
  stat : Stat

/-- The place of an entry, as that of a directory. -/
def Kept.key (k : Kept) : Bytes := child (parent k.path) (filename k.path)

def kept (headers : List Header) : List Kept :=
  headers.zipIdx.filterMap fun (h, i) =>
    h.kept.map fun (path, stat) => ⟨UInt32.ofNat (i + 1), path, stat⟩

/-- Two entries are at different places, and none is below a file. -/
structure Apart (a b : Kept) : Prop where
  ne : a.key ≠ b.key
  left : a.stat.type ≠ .directory → ¬a.key <+: b.key
  right : b.stat.type ≠ .directory → ¬b.key <+: a.key

instance (a b : Kept) : Decidable (Apart a b) :=
  decidable_of_iff (a.key ≠ b.key ∧ (a.stat.type ≠ .directory → ¬a.key <+: b.key) ∧
    (b.stat.type ≠ .directory → ¬b.key <+: a.key))
    ⟨fun h => ⟨h.1, h.2.1, h.2.2⟩, fun h => ⟨h.ne, h.left, h.right⟩⟩

/-- The sizes of the regular files in a directory and below it, as the headers tell them. -/
def keptBelow (ks : List Kept) (key : Bytes) : Int :=
  ((ks.filter fun k => k.stat.type = .regular ∧ key <+: parent k.path).map
    fun k => k.stat.size.toInt).sum

/-- Uids have 32 bits, one of which is for the directories that are made up. -/
def maxHeaders : Nat := 2 ^ 32 - 1

structure Orderly (headers : List Header) : Prop where
  plain : ∀ k ∈ kept headers, Utility.PathManip.Plain (parent k.path) ∧
      (k.stat.type = .directory → Utility.PathManip.Plain k.path)
  apart : (kept headers).Pairwise Apart
  sizes : ∀ k ∈ kept headers, ∀ directory ∈ (parent k.path).inits, hasTrailingSlash directory = true →
    0 ≤ keptBelow (kept headers) directory ∧
      keptBelow (kept headers) directory < if directory = [slash] then 2 ^ 64 else 2 ^ 63

theorem kept_append (headers : List Header) (h : Header) : kept (headers ++ [h]) = kept headers ++
      (h.kept.map fun (path, stat) => ⟨UInt32.ofNat (headers.length + 1), path, stat⟩).toList := by
  unfold kept
  rw [zipIdx_append, filterMap_append, Nat.zero_add, zipIdx_singleton]
  refine congrArg (filterMap _ headers.zipIdx ++ ·) ?_
  cases hkept : h.kept <;> simp [hkept]

theorem readHeaders_append (src : Stat) (headers : List Header) (h : Header) :
    readHeaders src (headers ++ [h]) = (readHeaders src headers).readHeader src h := by
  unfold readHeaders
  rw [foldl_append]
  rfl

/-- The uid of an entry is the number of its header. -/
theorem uid_of_kept (hcount : headers.length < maxHeaders) (hk : k ∈ kept headers)
    : 0 < k.uid.toNat ∧ k.uid.toNat ≤ headers.length := by
  obtain ⟨⟨h, i⟩, hi, hmap⟩ := mem_filterMap.mp hk
  obtain ⟨entry, -, rfl⟩ := map_eq_some_iff.mp hmap
  have hlt := (mem_zipIdx' hi).1
  unfold maxHeaders at hcount
  have hsize : i + 1 < 2 ^ 32 := by omega
  have huid : (UInt32.ofNat (i + 1)).toNat = i + 1 := toNat_ofNat_of_lt' hsize
  rw [huid]
  omega

theorem kept_sound (hk : k ∈ kept headers) :
    Sound (parent k.path) ∧ Component (filename k.path) ∧ k.path.head? = some slash := by
  obtain ⟨⟨h, i⟩, hi, hmap⟩ := mem_filterMap.mp hk
  obtain ⟨⟨path, stat⟩, hkept, rfl⟩ := map_eq_some_iff.mp hmap
  obtain ⟨hpath, hok⟩ := filter_eq_some_iff.mp hkept
  rw [decide_eq_true_eq] at hok
  obtain ⟨-, hhead, hroot⟩ := head_of_path hpath
  exact ⟨sound_parent hhead hok hroot, component_filename (filename_ne_nil hhead hok hroot), hhead⟩

/-- The uids are distinct. -/
theorem kept_uids (hcount : headers.length < maxHeaders) : ((kept headers).map Kept.uid).Nodup := by
  induction headers using reverseRecOn with
  | nil => exact nodup_nil
  | append_singleton headers h ih =>
    rw [length_append, length_singleton] at hcount
    have hcount' : headers.length < maxHeaders := by omega
    rw [kept_append, map_append]
    cases hkept : h.kept with
    | none =>
      rw [map_none, toList_none, map_nil, append_nil]
      exact ih hcount'
    | some entry =>
      refine nodup_append.mpr ⟨ih hcount', nodup_singleton _, ?_⟩
      intro uid huid other hother heq
      obtain ⟨k, hk, rfl⟩ := mem_map.mp huid
      have hle := (uid_of_kept hcount' hk).2
      rw [mem_singleton.mp hother] at heq
      unfold maxHeaders at hcount
      have hsize : headers.length + 1 < 2 ^ 32 := by omega
      have hlast : (UInt32.ofNat (headers.length + 1)).toNat = headers.length + 1 :=
        toNat_ofNat_of_lt' hsize
      rw [heq] at hle
      have hle' : (UInt32.ofNat (headers.length + 1)).toNat ≤ headers.length := hle
      omega

/-! ## What every listing keeps -/

/-- The sizes of the regular files in a directory, as the headers tell them. -/
def keptSize (ks : List Kept) (key : Bytes) : Int :=
  ((ks.filter fun k => k.stat.type = .regular ∧ parent k.path = key).map
    fun k => k.stat.size.toInt).sum

/-- Each entry that is kept has its place, and what is there is of its type unless the place was
    given to another entry since. -/
structure Loaded (headers : List Header) (r : Reading) : Prop where
  aruid : r.aruid = UInt32.ofNat headers.length
  grown : Grown r.index.pathToDir
  parentDir : r.parentDir ∈ r.index.pathToDir
  keys : ∀ k ∈ kept headers, parent k.path ∈ r.index.pathToDir ∧
    (k.stat.type = .directory → ownPath k.path ∈ r.index.pathToDir)
  entry : ∀ k ∈ kept headers, ∃ i e,
    recorded r.index.entryByUID k.uid.toNat = some (parent k.path, i) ∧
      (entriesOf r.index.pathToDir (parent k.path))[i]? = some e ∧ e.name = filename k.path ∧
      (e.aruid = k.uid → e.st.type = k.stat.type)
  known : ∀ uid place, recorded r.index.entryByUID uid = some place →
    ∃ k ∈ kept headers, k.uid.toNat = uid
  sizes : ∀ key, regularSize (entriesOf r.index.pathToDir key) = keptSize (kept headers) key

theorem Placed.regularSize (h : Placed old e new i) :
    regularSize new = regularSize old + if e.st.type = .regular then e.st.size.toInt else 0 := by
  cases h with
  | @replaced before after found split directory name type =>
    have hnot : e.st.type ≠ .regular := by
      rw [type]
      exact nofun
    have hsingle : ∀ e : DirEntry, e.st.type = .directory → ArcLA.regularSize [e] = 0 := by
      intro e he
      refine regularSize_of_directories fun other hother => ?_
      rw [mem_singleton.mp hother]
      exact he
    rw [split, if_neg hnot, ← singleton_append, ← @List.singleton_append _ found,
      regularSize_append, regularSize_append, regularSize_append, regularSize_append,
      hsingle e type, hsingle found directory, Int.add_zero]
  | appended new => exact regularSize_concat old e

/-- What is built has made-up directories at the end. -/
theorem Builds.entries (h : Builds src dirs path dirs') (hends : hasTrailingSlash path)
    (key : Bytes) : ∃ extra, entriesOf dirs' key = entriesOf dirs key ++ extra ∧
      ∀ e ∈ extra, e.st.type = .directory ∧ e.aruid = syntheticArUID := by
  refine h.keeps (I := fun mid => ∃ extra, entriesOf mid key = entriesOf dirs key ++ extra ∧
    ∀ e ∈ extra, e.st.type = .directory ∧ e.aruid = syntheticArUID) hends
    ⟨[], (append_nil _).symm, fun _ => nofun⟩ ?_
  rintro path' mid - - - hparent hnew ⟨extra, hextra, hsynthetic⟩
  rw [entriesOf_addDummy hparent hnew]
  split_ifs
  · refine ⟨extra ++ [dummyDir src (filename path')], by rw [hextra, append_assoc], ?_⟩
    intro e he
    obtain he | he := mem_append.mp he
    · exact hsynthetic e he
    · rw [mem_singleton.mp he]
      exact ⟨rfl, rfl⟩
  · exact ⟨extra, hextra, hsynthetic⟩

theorem loaded_root : Loaded [] { index := rootIndex } where
  aruid := rfl
  grown := by
    have hmem : ∀ key, key ∈ rootIndex.pathToDir → key = [slash] := by
      intro key hkey
      exact (mem_insert _).mp hkey |>.resolve_right (notMem_empty key)
    refine ⟨(mem_insert _).mpr (.inl rfl), ?_, fun key hkey hne => absurd (hmem key hkey) hne⟩
    intro key hkey
    rw [hmem key hkey]
    exact ⟨rfl, rfl, by decide⟩
  parentDir := (mem_insert _).mpr (.inl rfl)
  keys k hk := absurd hk not_mem_nil
  entry k hk := absurd hk not_mem_nil
  known uid place h := by
    cases h
  sizes key := by
    have hnil : entriesOf rootIndex.pathToDir key = [] := by
      unfold rootIndex
      rw [entriesOf_insert]
      split_ifs
      · rfl
      · rw [entriesOf_of_notMem (notMem_empty key)]
    rw [hnil]
    rfl

theorem keptSize_append (ks : List Kept) (k : Kept) (key : Bytes) :
    keptSize (ks ++ [k]) key = keptSize ks key +
      if k.stat.type = .regular ∧ parent k.path = key then k.stat.size.toInt else 0 :=
  sum_filter_append (fun k : Kept => k.stat.type = .regular ∧ parent k.path = key) _ ks k

theorem hasTrailingSlash_ownPath (path : Bytes) : hasTrailingSlash (ownPath path) := by
  unfold ownPath
  split_ifs with h
  · exact h
  · exact hasTrailingSlash_iff.mpr ⟨path, rfl⟩

/-- Slashes at the end do not change the parts of a path. -/
theorem ownPath_parts (hends : hasTrailingSlash (parent path)) (hname : Component (filename path)) :
    parent (ownPath path) = parent path ∧ filename (ownPath path) = filename path := by
  have hslashes : ∀ b ∈ path.rtakeWhile (· = slash), b = slash := by
    intro b hb
    have hpos := mem_rtakeWhile_imp hb
    rwa [decide_eq_true_eq] at hpos
  unfold ownPath
  split_ifs
  · exact ⟨rfl, rfl⟩
  · have hmore : ∀ b ∈ path.rtakeWhile (· = slash) ++ [slash], b = slash :=
      forall_mem_append.mpr ⟨hslashes, fun b hb => mem_singleton.mp hb⟩
    have hparent := parent_append hends hname hmore
    have hfilename := filename_append hends hname hmore
    rw [← append_assoc, path_eq] at hparent hfilename
    exact ⟨hparent, hfilename⟩

theorem sound_ownPath (habove : Sound (parent path)) (hname : Component (filename path)) :
    Sound (ownPath path) := by
  obtain ⟨hparent, -⟩ := ownPath_parts habove.ends hname
  refine ⟨?_, hasTrailingSlash_ownPath path, ?_⟩
  · obtain ⟨rest, hrest⟩ := parent_le (ownPath path)
    rw [← hrest, hparent, List.head?_append, habove.head]
    rfl
  · intro hbogus
    obtain hnil | hbogus := bogus_parent hbogus
    · rw [hparent] at hnil
      have hhead := habove.head
      rw [hnil] at hhead
      cases hhead
    · exact habove.ok (hparent ▸ hbogus)

section Read

variable {src : Stat} {headers : List Header} {r : Reading} {h : Header}

theorem uid_succ (hcount : headers.length + 1 < maxHeaders) (h : Loaded headers r) :
    r.aruid + 1 = UInt32.ofNat (headers.length + 1) ∧ (r.aruid + 1).toNat = headers.length + 1 ∧
      r.aruid + 1 ≠ syntheticArUID := by
  unfold maxHeaders at hcount
  have hsize : headers.length + 1 < 2 ^ 32 := by omega
  have hsucc : r.aruid + 1 = UInt32.ofNat (headers.length + 1) := by
    rw [h.aruid, ofNat_add]
    rfl
  have huid : (r.aruid + 1).toNat = headers.length + 1 := by
    rw [hsucc]
    exact toNat_ofNat_of_lt' hsize
  refine ⟨hsucc, huid, fun heq => ?_⟩
  rw [heq] at huid
  have hlast : syntheticArUID.toNat = 2 ^ 32 - 1 := rfl
  omega

/-- What a header that is kept does: its parent is built, and the entry is placed there. -/
structure Kept.Read (src : Stat) (r : Reading) (k : Kept) (e : DirEntry) (r' : Reading)
    (dirs : PathToDir) (i : Nat) (entries : List DirEntry) : Prop where
  above : Sound (parent k.path)
  name : Component (filename k.path)
  builds : Builds src r.index.pathToDir (parent k.path) dirs
  aruid : e.aruid = k.uid
  named : e.name = filename k.path
  type : e.st.type = k.stat.type
  size : e.st.size = k.stat.size
  placed : Placed (entriesOf dirs (parent k.path)) e entries i
  keys : ∀ key, key ∈ r'.index.pathToDir ↔
    key ∈ dirs ∨ (k.stat.type = .directory ∧ key = ownPath k.path)
  entriesOf : ∀ key, entriesOf r'.index.pathToDir key =
    if key = parent k.path then entries else ArcLA.entriesOf dirs key
  table : r'.index.entryByUID = recordEntry r.index.entryByUID k.uid (parent k.path, i)
  parentDir : r'.parentDir = parent k.path

theorem read_kept (hloaded : Loaded headers r) {path : Bytes} {stat : Stat}
    (hkept : h.kept = some (path, stat)) :
    ∃ e dirs i entries, Kept.Read src r ⟨r.aruid + 1, path, stat⟩ e (r.readHeader src h) dirs i entries := by
  obtain ⟨habove, hname, dirs, hbuilds, hread⟩ :=
    @readHeader_kept src r h path stat hloaded.grown hloaded.parentDir hkept
  obtain ⟨entries, i, hplaced, hkeys, hentries, htable⟩ :=
    @addEntry_spec path src h { r.index with pathToDir := dirs } hbuilds.mem stat (r.aruid + 1)
  refine ⟨⟨filename path, h.fixup src stat, r.aruid + 1⟩, dirs, i, entries, habove,
    component_filename hname, hbuilds, rfl, rfl, fixup_type h src stat, fixup_size h src stat,
    hplaced, ?_, ?_, ?_, ?_⟩
  · rw [hread]
    exact hkeys
  · rw [hread]
    exact hentries
  · rw [hread]
    exact htable
  · rw [hread]

variable {k : Kept} {e : DirEntry} {r' : Reading} {dirs : PathToDir} {i : Nat}
  {entries : List DirEntry}

section
variable (hread : k.Read src r e r' dirs i entries)
include hread

theorem Kept.Read.mem_of_mem {key : Bytes} (hkey : key ∈ r.index.pathToDir) :
    key ∈ r'.index.pathToDir :=
  (hread.keys key).mpr (.inl (hread.builds.mem_of_mem hkey))

/-- An entry that was there stays where it is, if it is not replaced. -/
theorem Kept.Read.getElem? {key : Bytes}
    (hold : (ArcLA.entriesOf r.index.pathToDir key)[j]? = some old) :
    (ArcLA.entriesOf r'.index.pathToDir key)[j]? =
      if key = parent k.path ∧ j = i then some e else some old := by
  obtain ⟨extra, hextra, -⟩ := hread.builds.entries hread.above.ends key
  have hdirs : (ArcLA.entriesOf dirs key)[j]? = some old := by
    rw [hextra, List.getElem?_append_left (List.getElem?_eq_some_iff.mp hold).1, hold]
  rw [hread.entriesOf]
  by_cases hkey : key = parent k.path
  · subst hkey
    rw [if_pos rfl, hread.placed.getElem?, hdirs]
    exact if_congr (and_iff_right rfl).symm rfl rfl
  · rw [if_neg hkey, if_neg fun hboth => hkey hboth.1, hdirs]

theorem Kept.Read.grown (hgrown : Grown r.index.pathToDir) : Grown r'.index.pathToDir := by
  have hmid := hread.builds.grown hread.above.ends hgrown
  refine ⟨hread.mem_of_mem hgrown.root, ?_, ?_⟩
  · intro key hkey
    obtain hkey | ⟨-, rfl⟩ := (hread.keys key).mp hkey
    · exact hmid.sound key hkey
    · exact sound_ownPath hread.above hread.name
  · intro key hkey hne
    refine (hread.keys _).mpr (.inl ?_)
    obtain hkey | ⟨-, rfl⟩ := (hread.keys key).mp hkey
    · exact hmid.closed key hkey hne
    · rw [(ownPath_parts hread.above.ends hread.name).1]
      exact hread.builds.mem

theorem Kept.Read.sizes (key : Bytes) : regularSize (ArcLA.entriesOf r'.index.pathToDir key) =
      regularSize (ArcLA.entriesOf r.index.pathToDir key) +
        if k.stat.type = .regular ∧ parent k.path = key then k.stat.size.toInt else 0 := by
  obtain ⟨extra, hextra, hsynthetic⟩ := hread.builds.entries hread.above.ends key
  have hdirs : regularSize (ArcLA.entriesOf dirs key) =
      regularSize (ArcLA.entriesOf r.index.pathToDir key) := by
    rw [hextra, regularSize_append, regularSize_of_directories fun e he => (hsynthetic e he).1,
      Int.add_zero]
  rw [hread.entriesOf]
  by_cases hkey : key = parent k.path
  · subst hkey
    rw [if_pos rfl, hread.placed.regularSize, hdirs, hread.type, hread.size]
    exact congrArg _ (if_congr (and_iff_left rfl).symm rfl rfl)
  · rw [if_neg hkey, if_neg fun hboth => hkey hboth.2.symm, hdirs, Int.add_zero]

end

theorem Loaded.read (hloaded : Loaded headers r) (hcount : headers.length + 1 < maxHeaders) :
    Loaded (headers ++ [h]) (r.readHeader src h) := by
  obtain ⟨hsucc, huid, hsynthetic⟩ := uid_succ hcount hloaded
  have hlength : (headers ++ [h]).length = headers.length + 1 := by
    rw [length_append, length_singleton]
  cases hkept : h.kept with
  | none =>
    have hsame : kept (headers ++ [h]) = kept headers := by
      rw [kept_append, hkept, map_none, toList_none, append_nil]
    rw [readHeader_passed hloaded.grown hloaded.parentDir hkept]
    refine ⟨by rw [hlength]; exact hsucc, hloaded.grown, hloaded.parentDir, ?_, ?_, ?_, ?_⟩ <;>
      rw [hsame]
    exacts [hloaded.keys, hloaded.entry, hloaded.known, hloaded.sizes]
  | some entry =>
    obtain ⟨path, stat⟩ := entry
    obtain ⟨e, dirs, i, entries, hread⟩ := @read_kept src headers r h hloaded path stat hkept
    have hsame : kept (headers ++ [h]) = kept headers ++ [⟨r.aruid + 1, path, stat⟩] := by
      rw [kept_append, hkept, hsucc]
      rfl
    have hold : ∀ k ∈ kept headers, k.uid ≠ r.aruid + 1 := by
      intro k hk heq
      have hle := (uid_of_kept (by omega) hk).2
      rw [heq, huid] at hle
      omega
    have haruid : (r.readHeader src h).aruid = r.aruid + 1 := by
      unfold Reading.readHeader
      dsimp only
      split
      · rfl
      · split <;> rfl
    have hrecorded := fun uid => recorded_recordEntry r.index.entryByUID hsynthetic
      (parent path, i) uid
    refine ⟨?_, hread.grown hloaded.grown, ?_, ?_, ?_, ?_, ?_⟩
    · rw [hlength, haruid, hsucc]
    · rw [hread.parentDir]
      exact (hread.keys _).mpr (.inl hread.builds.mem)
    · rw [hsame]
      intro k hk
      obtain hk | hk := mem_append.mp hk
      · obtain ⟨hparent, hown⟩ := hloaded.keys k hk
        exact ⟨hread.mem_of_mem hparent, fun htype => hread.mem_of_mem (hown htype)⟩
      · rw [mem_singleton.mp hk]
        exact ⟨(hread.keys _).mpr (.inl hread.builds.mem),
          fun htype => (hread.keys _).mpr (.inr ⟨htype, rfl⟩)⟩
    · rw [hsame]
      intro k hk
      obtain hk | hk := mem_append.mp hk
      · obtain ⟨j, old, hplace, hget, hname, htype⟩ := hloaded.entry k hk
        have hne : k.uid.toNat ≠ (r.aruid + 1).toNat := mt UInt32.toNat_inj.mp (hold k hk)
        have hplace' : recorded (r.readHeader src h).index.entryByUID k.uid.toNat =
            some (parent k.path, j) := by
          rw [hread.table, hrecorded, if_neg hne, hplace]
        have hget' := hread.getElem? hget
        split_ifs at hget' with hreplaced
        · refine ⟨j, e, hplace', hget', ?_, fun heq => ?_⟩
          · -- The entry that is replaced has the same name.
            obtain ⟨extra, hextra, -⟩ := hread.builds.entries hread.above.ends (parent path)
            have hfound : (entriesOf dirs (parent path))[i]? = some old := by
              rw [← hreplaced.1] at hextra
              rw [← hreplaced.1, ← hreplaced.2, hextra, List.getElem?_append_left (List.getElem?_eq_some_iff.mp hget).1, hget]
            obtain ⟨hnone, -⟩ | ⟨found, hfound', -, hsame', -⟩ := hread.placed.before
            · rw [hfound] at hnone
              cases hnone
            · rw [hfound] at hfound'
              rw [← hsame', ← Option.some.inj hfound', hname]
          · exact absurd (heq.symm.trans hread.aruid) (hold k hk)
        · exact ⟨j, old, hplace', hget', hname, htype⟩
      · rw [mem_singleton.mp hk]
        refine ⟨i, e, ?_, ?_, hread.named, fun _ => hread.type⟩
        · rw [hread.table, hrecorded, if_pos rfl]
        · rw [hread.entriesOf, if_pos rfl, hread.placed.getElem?, if_pos rfl]
    · rw [hsame, hread.table]
      intro uid place hplace
      rw [hrecorded] at hplace
      by_cases hlast : uid = (r.aruid + 1).toNat
      · exact ⟨_, mem_append_right _ (mem_singleton_self _), hlast.symm⟩
      · rw [if_neg hlast] at hplace
        obtain ⟨k, hk, huid⟩ := hloaded.known uid place hplace
        exact ⟨k, mem_append_left _ hk, huid⟩
    · intro key
      rw [hsame, keptSize_append, hread.sizes, hloaded.sizes]

theorem loaded (src : Stat) (hcount : headers.length < maxHeaders) :
    Loaded headers (readHeaders src headers) := by
  induction headers using reverseRecOn with
  | nil => exact loaded_root
  | append_singleton headers h ih =>
    rw [length_append, length_singleton] at hcount
    rw [readHeaders_append]
    exact (ih (by omega)).read hcount

end Read

end WinCommander.VFS.ArcLA
