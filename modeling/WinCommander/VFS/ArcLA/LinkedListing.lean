/-
  The index of an orderly listing is a tree with links.

  `Linking` is kept by every header whose link has a value, if it is one: each entry is from a header
  or made up, and the symlinks are those of the headers. With `Arranged` it makes the index `Linked`.
-/
import WinCommander.VFS.ArcLA.Listing

namespace WinCommander.VFS.ArcLA

open Library List Option AList
open Library.Path (slash dot)
open Utility.PathManip

/-! ## Trees with links -/

/-- A link that is to be resolved, with a value other than the two that lead to its own directory. -/
def Resolvable (uid : UInt32) (s : Symlink) : Prop :=
  s.uid = uid ∧ s.state = .unresolved ∧ s.value ≠ [] ∧ ¬(s.value = dot ∨ s.value = dot ++ [slash])

/-- A tree whose links have entries, and have not been resolved yet. -/
structure Linked (index : Index) : Prop where
  tree : Tree index.pathToDir
  fullPath : ∀ key dir, index.pathToDir.lookup key = some dir → dir.fullPath = key
  uids : ∀ key, ∀ e ∈ entriesOf index.pathToDir key, e.aruid ≠ 0
  links : ∀ key, ∀ e ∈ entriesOf index.pathToDir key,
    e.st.type = .symlink ↔ e.aruid ∈ index.symlinks
  places : ∀ key, ∀ e ∈ entriesOf index.pathToDir key, e.st.type = .symlink →
    ∃ i, recorded index.entryByUID e.aruid.toNat = some (key, i) ∧
      (entriesOf index.pathToDir key)[i]? = some e
  entry : ∀ uid ∈ index.symlinks, ∃ key, ∃ e ∈ entriesOf index.pathToDir key, e.aruid = uid
  fresh : ∀ uid s, index.symlinks.lookup uid = some s → Resolvable uid s

/-! ## Headers with links -/

/-- If it is a link, it has such a value. -/
def Header.Valued (h : Header) : Prop :=
  ∀ stat ∈ h.stat, stat.type = .symlink →
    ∃ value ∈ h.symlink, value ≠ [] ∧ ¬(value = dot ∨ value = dot ++ [slash])

instance (h : Header) : Decidable h.Valued :=
  inferInstanceAs (Decidable (∀ stat ∈ h.stat, stat.type = .symlink →
    ∃ value ∈ h.symlink, value ≠ [] ∧ ¬(value = dot ∨ value = dot ++ [slash])))

/-! ## Full paths -/

/-- Each directory tells its key. -/
def FullPaths (dirs : PathToDir) : Prop := ∀ key dir, dirs.lookup key = some dir → dir.fullPath = key

section FullPaths

variable {src : Stat} {dirs : PathToDir} {key path : Bytes} {dir : Dir}

theorem FullPaths.insert (h : FullPaths dirs) (hdir : dir.fullPath = key) :
    FullPaths (dirs.insert key dir) := by
  intro other found hfound
  by_cases hother : other = key
  · subst hother
    rw [lookup_insert] at hfound
    exact some.inj hfound ▸ hdir
  · rw [lookup_insert_ne hother] at hfound
    exact h other found hfound

theorem FullPaths.addDummy (h : FullPaths dirs) : FullPaths (addDummy src dirs path) := by
  refine FullPaths.insert ?_ rfl
  unfold insertDummyDirInto
  cases hdir : dirs.lookup (parent path) with
  | none => exact h
  | some dir => exact h.insert (h _ dir hdir)

theorem fullPath_place (dir : Dir) (name : Bytes) (st : Stat) (aruid : UInt32) :
    (dir.place name st aruid).1.fullPath = dir.fullPath := by
  unfold Dir.place
  dsimp only
  split <;> rfl

theorem FullPaths.addDirectory {index : Index} (h : FullPaths index.pathToDir) (path : Bytes) :
    FullPaths (index.addDirectory path).pathToDir := by
  unfold Index.addDirectory
  dsimp only
  generalize (if hasTrailingSlash path = true then path else path ++ [slash]) = own
  split_ifs
  · exact h
  · exact h.insert rfl

theorem FullPaths.addEntry {index : Index} (h : FullPaths index.pathToDir) (header : Header)
    (path : Bytes) (stat : Stat) (aruid : UInt32) :
    FullPaths (index.addEntry src header path stat aruid).pathToDir := by
  unfold Index.addEntry
  cases hdir : index.pathToDir.lookup (parent path) with
  | none => exact h
  | some dir =>
    dsimp only
    have hplaced := h.insert ((fullPath_place dir (filename path) (header.fixup src stat) aruid).trans
      (h _ dir hdir))
    have hsymlink : ∀ index : Index, FullPaths index.pathToDir → FullPaths
        (if stat.type = .symlink then index.addSymlink aruid header.symlink else index).pathToDir := by
      intro index hindex
      split_ifs
      · exact hindex
      · exact hindex
    by_cases htype : stat.type = .directory
    · rw [if_pos htype]
      exact (hsymlink _ hplaced).addDirectory path
    · rw [if_neg htype]
      exact hsymlink _ hplaced

end FullPaths

/-! ## Links -/

/-- The links of an index after an entry was added. -/
theorem symlinks_addEntry (src : Stat) (h : Header) {index : Index}
    (hparent : parent path ∈ index.pathToDir) (stat : Stat) (aruid : UInt32) :
    (index.addEntry src h path stat aruid).symlinks =
      if stat.type = .symlink then (index.addSymlink aruid h.symlink).symlinks else index.symlinks := by
  obtain ⟨dir, hdir⟩ := exists_lookup hparent
  have hdirectory : ∀ index : Index, (index.addDirectory path).symlinks = index.symlinks := by
    intro index
    unfold Index.addDirectory
    dsimp only
    split_ifs <;> rfl
  unfold Index.addEntry
  rw [hdir]
  dsimp only
  by_cases htype : stat.type = .symlink
  · rw [if_pos htype, if_pos htype, if_neg (by rw [htype]; exact nofun)]
    rfl
  · rw [if_neg htype, if_neg htype]
    split_ifs
    · rw [hdirectory]
    · rfl

theorem stat_of_kept {h : Header} (hkept : h.kept = some (path, stat)) : h.stat = some stat :=
  (head_of_path (filter_eq_some_iff.mp hkept).1).1

/-- The link that a header with a value adds. -/
theorem lookup_addSymlink {index : Index} {aruid uid : UInt32} {value : Bytes} (hvalue : value ≠ [])
    (hnew : aruid ∉ index.symlinks) : (index.addSymlink aruid (some value)).symlinks.lookup uid =
      if uid = aruid then some { value, uid := aruid } else index.symlinks.lookup uid := by
  obtain ⟨first, rest, rfl⟩ := exists_cons_of_ne_nil hvalue
  unfold Index.addSymlink
  dsimp only
  rw [if_neg hnew]
  split_ifs with huid
  · rw [huid, lookup_insert]
  · rw [lookup_insert_ne huid]

/-- An entry is made up, or it is that of a header. -/
def Named (ks : List Kept) (key : Bytes) (e : DirEntry) : Prop :=
  (e.aruid = syntheticArUID ∧ e.st.type = .directory) ∨
    ∃ k ∈ ks, e.aruid = k.uid ∧ key = parent k.path ∧ e.name = filename k.path ∧
      e.st.type = k.stat.type

theorem Named.append (h : Named ks key e) : Named (ks ++ more) key e :=
  h.imp_right fun ⟨k, hk, hrest⟩ => ⟨k, mem_append_left _ hk, hrest⟩

/-- Where entries and links come from. -/
structure Linking (headers : List Header) (r : Reading) : Prop where
  fullPaths : FullPaths r.index.pathToDir
  entries : ∀ key, ∀ e ∈ entriesOf r.index.pathToDir key, Named (kept headers) key e
  symlinks : ∀ uid, uid ∈ r.index.symlinks ↔ ∃ k ∈ kept headers, k.uid = uid ∧ k.stat.type = .symlink
  fresh : ∀ uid s, r.index.symlinks.lookup uid = some s → Resolvable uid s

theorem linking_root : Linking [] { index := rootIndex } where
  fullPaths := by
    refine FullPaths.insert ?_ rfl
    intro key dir hdir
    cases hdir
  entries key e he := by
    unfold rootIndex at he
    rw [entriesOf_insert] at he
    split_ifs at he
    · exact absurd he not_mem_nil
    · exact absurd he not_mem_nil
  symlinks uid := iff_of_false (notMem_empty uid) fun ⟨_, hk, _⟩ => absurd hk not_mem_nil
  fresh uid s hs := nomatch hs

section Reading

variable {src : Stat} {headers : List Header} {r : Reading} {h : Header}

/-- Whatever else there was stays, and what a header adds is its own or made up. -/
theorem named_read (hloaded : Loaded headers r) (hcount : headers.length + 1 < maxHeaders)
    (hnamed : ∀ key, ∀ e ∈ entriesOf r.index.pathToDir key, Named (kept headers) key e) :
    ∀ key, ∀ e ∈ entriesOf (r.readHeader src h).index.pathToDir key,
      Named (kept (headers ++ [h])) key e := by
  intro key other hother
  obtain ⟨hsucc, -⟩ := uid_succ hcount hloaded
  rw [kept_append]
  cases hkept : h.kept with
  | none =>
    rw [readHeader_passed hloaded.grown hloaded.parentDir hkept] at hother
    exact (hnamed key other hother).append
  | some entry =>
    obtain ⟨path, stat⟩ := entry
    obtain ⟨e, dirs, i, entries, hread⟩ := @read_kept src headers r h hloaded path stat hkept
    rw [map_some, toList_some, ← hsucc]
    have hlast (hkey : key = parent path) (hother : other = e) :
        Named (kept headers ++ [⟨r.aruid + 1, path, stat⟩]) key other := by
      subst hother
      exact .inr ⟨_, mem_append_right _ mem_cons_self, hread.aruid, hkey, hread.named, hread.type⟩
    have hdirs (hother : other ∈ entriesOf dirs key) :
        Named (kept headers ++ [⟨r.aruid + 1, path, stat⟩]) key other := by
      obtain ⟨extra, hextra, hsynthetic⟩ := hread.builds.entries hread.above.ends key
      rw [hextra] at hother
      obtain hbefore | hmade := mem_append.mp hother
      · exact (hnamed key other hbefore).append
      · exact .inl ⟨(hsynthetic other hmade).2, (hsynthetic other hmade).1⟩
    rw [hread.entriesOf] at hother
    split_ifs at hother with hkey
    · obtain hother | hother := hread.placed.mem_cases hother
      · exact hlast hkey hother
      · exact hdirs (hkey ▸ hother)
    · exact hdirs hother

theorem Linking.read (hlinking : Linking headers r) (hloaded : Loaded headers r)
    (hcount : headers.length + 1 < maxHeaders) (hvalued : h.Valued) :
    Linking (headers ++ [h]) (r.readHeader src h) := by
  obtain ⟨hsucc, huid, -⟩ := uid_succ hcount hloaded
  cases hkept : h.kept with
  | none =>
    have hsame : kept (headers ++ [h]) = kept headers := by
      rw [kept_append, hkept, map_none, toList_none, append_nil]
    have hentries := @named_read src headers r h hloaded hcount hlinking.entries
    rw [readHeader_passed hloaded.grown hloaded.parentDir hkept] at hentries ⊢
    refine ⟨hlinking.fullPaths, hentries, ?_, hlinking.fresh⟩
    rw [hsame]
    exact hlinking.symlinks
  | some entry =>
    obtain ⟨path, stat⟩ := entry
    obtain ⟨-, -, mid, hbuilds, heq⟩ :=
      @readHeader_kept src r h path stat hloaded.grown hloaded.parentDir hkept
    obtain ⟨e, dirs, i, entries, hread⟩ := @read_kept src headers r h hloaded path stat hkept
    have hsame : kept (headers ++ [h]) = kept headers ++ [⟨r.aruid + 1, path, stat⟩] := by
      rw [kept_append, hkept, hsucc]
      rfl
    have hold : ∀ k ∈ kept headers, k.uid ≠ r.aruid + 1 := by
      intro k hk hsameuid
      have hle := (uid_of_kept (by omega) hk).2
      rw [hsameuid, huid] at hle
      omega
    have hnew : r.aruid + 1 ∉ r.index.symlinks := by
      intro hmem
      obtain ⟨k, hk, hsameuid, -⟩ := (hlinking.symlinks _).mp hmem
      exact hold k hk hsameuid
    have hmid : FullPaths mid := hbuilds.keeps (I := FullPaths) hread.above.ends hlinking.fullPaths
      fun _ _ _ _ _ _ _ hmid => hmid.addDummy
    have hlinks : ∀ uid, (r.readHeader src h).index.symlinks.lookup uid =
        if uid = r.aruid + 1 ∧ stat.type = .symlink then
          (h.symlink.map fun value => { value, uid := r.aruid + 1 })
        else r.index.symlinks.lookup uid := by
      intro uid
      rw [heq, symlinks_addEntry src h hbuilds.mem]
      by_cases htype : stat.type = .symlink
      · obtain ⟨value, hvalue, hne, -⟩ := hvalued stat (stat_of_kept hkept) htype
        rw [if_pos htype, mem_def.mp hvalue]
        exact (@lookup_addSymlink { r.index with pathToDir := mid } _ uid _ hne hnew).trans
          (if_congr (and_iff_left htype).symm rfl rfl)
      · rw [if_neg htype, if_neg fun hboth => htype hboth.2]
    refine ⟨?_, ?_, ?_, ?_⟩
    · rw [heq]
      exact @FullPaths.addEntry src { r.index with pathToDir := mid } hmid h path stat (r.aruid + 1)
    · exact named_read hloaded hcount hlinking.entries
    · intro uid
      rw [hsame, ← lookup_isSome, hlinks]
      by_cases hlast : uid = r.aruid + 1 ∧ stat.type = .symlink
      · obtain ⟨value, hvalue, -⟩ := hvalued stat (stat_of_kept hkept) hlast.2
        rw [if_pos hlast, mem_def.mp hvalue]
        exact iff_of_true rfl
          ⟨_, mem_append_right _ mem_cons_self, hlast.1.symm, hlast.2⟩
      · rw [if_neg hlast, lookup_isSome, hlinking.symlinks]
        constructor
        · rintro ⟨k, hk, hrest⟩
          exact ⟨k, mem_append_left _ hk, hrest⟩
        · rintro ⟨k, hk, huid, htype⟩
          obtain hk | hk := mem_append.mp hk
          · exact ⟨k, hk, huid, htype⟩
          · rw [mem_singleton.mp hk] at huid htype
            exact absurd ⟨huid.symm, htype⟩ hlast
    · intro uid s hs
      rw [hlinks] at hs
      by_cases hlast : uid = r.aruid + 1 ∧ stat.type = .symlink
      · obtain ⟨value, hvalue, hok⟩ := hvalued stat (stat_of_kept hkept) hlast.2
        rw [if_pos hlast, mem_def.mp hvalue, map_some] at hs
        rw [← some.inj hs]
        exact ⟨hlast.1.symm, rfl, hok⟩
      · rw [if_neg hlast] at hs
        exact hlinking.fresh uid s hs

theorem named_headers (src : Stat) (hcount : headers.length < maxHeaders) :
    ∀ key, ∀ e ∈ entriesOf (readHeaders src headers).index.pathToDir key,
      Named (kept headers) key e := by
  induction headers using List.reverseRecOn with
  | nil => exact linking_root.entries
  | append_singleton headers h ih =>
    rw [length_append, length_singleton] at hcount
    rw [readHeaders_append]
    exact named_read (loaded src (by omega)) hcount (ih (by omega))

theorem linking (src : Stat) (hcount : headers.length < maxHeaders) (hvalued : ∀ h ∈ headers, h.Valued) :
    Linking headers (readHeaders src headers) := by
  induction headers using List.reverseRecOn with
  | nil => exact linking_root
  | append_singleton headers h ih =>
    rw [length_append, length_singleton] at hcount
    rw [readHeaders_append]
    exact (ih (by omega) fun h hh => hvalued h (mem_append_left _ hh)).read
      (loaded src (by omega)) hcount (hvalued h (mem_append_right _ mem_cons_self))

end Reading

/-! ## The tree -/

/-- Sizes do not matter for a tree. -/
theorem Tree.resized (h : Tree dirs) (hresized : Resized dirs dirs') : Tree dirs' := by
  have hback : ∀ key, ∀ e' ∈ entriesOf dirs' key, ∃ e ∈ entriesOf dirs key, Same e e' := by
    intro key e' he'
    obtain ⟨i, hi⟩ := List.getElem?_of_mem he'
    obtain ⟨e, he, hsame⟩ := same_before (hresized.entries key) hi
    exact ⟨e, mem_of_getElem? he, hsame⟩
  refine ⟨hresized.grown h.grown, ?_, ?_, ?_, ?_⟩
  · intro key e' he' hdirectory
    obtain ⟨e, he, hsame⟩ := hback key e' he'
    rw [hresized.keys, hsame.name]
    exact h.there key e he (hsame.type.symm.trans hdirectory)
  · intro key hkey hroot
    obtain ⟨e, he, hdirectory, hchild⟩ := h.named key ((hresized.keys key).mp hkey) hroot
    obtain ⟨i, hi⟩ := List.getElem?_of_mem he
    obtain ⟨e', he', hsame⟩ := same_at (hresized.entries (parent key)) hi
    exact ⟨e', mem_of_getElem? he', hsame.type.trans hdirectory, by rw [hsame.name, hchild]⟩
  · intro key
    rw [names_of_same (hresized.entries key)]
    exact h.distinct key
  · intro key e' he'
    obtain ⟨e, he, hsame⟩ := hback key e' he'
    rw [hsame.name]
    exact h.components key e he

section Final

variable {src : Stat} {headers : List Header}

/-- The entry of a header, with its type. -/
theorem Arranged.entry_of_kept (harranged : Arranged headers r) (hloaded : Loaded headers r)
    (hk : k ∈ kept headers) :
    ∃ i e, recorded r.index.entryByUID k.uid.toNat = some (parent k.path, i) ∧
      (entriesOf r.index.pathToDir (parent k.path))[i]? = some e ∧ e.name = filename k.path ∧
      e.aruid = k.uid ∧ e.st.type = k.stat.type := by
  obtain ⟨i, e, hplace, hget, hname, haruid⟩ := harranged.entry k hk
  obtain ⟨i', e', hplace', hget', -, htype⟩ := hloaded.entry k hk
  obtain ⟨-, rfl⟩ := Prod.mk.inj (some.inj (hplace.symm.trans hplace'))
  obtain rfl := some.inj (hget.symm.trans hget')
  exact ⟨i, e, hplace, hget, hname, haruid, htype haruid⟩

theorem named_listing (src : Stat) (hcount : headers.length < maxHeaders) :
    ∀ key, ∀ e ∈ entriesOf (readArchiveListing src headers).pathToDir key,
      Named (kept headers) key e := by
  intro key e' he'
  obtain ⟨i, hi⟩ := List.getElem?_of_mem he'
  obtain ⟨e, he, hsame⟩ := same_before ((index_resized src headers).entries key) hi
  have hentry := named_headers src hcount key e (mem_of_getElem? he)
  unfold Named at hentry ⊢
  rwa [hsame.aruid, hsame.name, hsame.type]

theorem Orderly.linked (h : Orderly headers) (hcount : headers.length < maxHeaders)
    (hvalued : ∀ h ∈ headers, h.Valued) : Linked (readArchiveListing src headers) := by
  have harranged := arranged src hcount h.plain h.apart
  have hloaded := loaded src hcount
  have hlinking := linking src hcount hvalued
  have hresized := index_resized src headers
  have htree := harranged.tree.resized hresized
  have hnamed := named_listing src hcount
  -- Where the entry of a header is now.
  have hplaced : ∀ k ∈ kept headers, ∃ i e,
      recorded (readArchiveListing src headers).entryByUID k.uid.toNat = some (parent k.path, i) ∧
        (entriesOf (readArchiveListing src headers).pathToDir (parent k.path))[i]? = some e ∧
        e.name = filename k.path ∧ e.aruid = k.uid ∧ e.st.type = k.stat.type := by
    intro k hk
    obtain ⟨i, e, hplace, hget, hname, haruid, htype⟩ := harranged.entry_of_kept hloaded hk
    obtain ⟨e', he', hsame⟩ := same_at (hresized.entries (parent k.path)) hget
    exact ⟨i, e', hplace, he', hsame.name.trans hname, hsame.aruid.trans haruid,
      hsame.type.trans htype⟩
  have huid : ∀ k ∈ kept headers, k.uid ≠ 0 ∧ k.uid ≠ syntheticArUID := by
    intro k hk
    obtain ⟨hpos, hle⟩ := uid_of_kept hcount hk
    unfold maxHeaders at hcount
    constructor
    · intro hzero
      rw [hzero] at hpos
      exact absurd hpos (Nat.lt_irrefl 0)
    · intro hlast
      rw [hlast] at hle
      have hsynthetic : syntheticArUID.toNat = 2 ^ 32 - 1 := rfl
      omega
  refine ⟨htree, ?_, ?_, ?_, ?_, ?_, hlinking.fresh⟩
  · intro key dir hdir
    have hlookup := updated harranged.tree key
    rw [show (updateDirectorySize _ [slash]).1.lookup key = some dir from hdir] at hlookup
    obtain ⟨old, hold, rfl⟩ := map_eq_some_iff.mp hlookup.symm
    exact hlinking.fullPaths key old hold
  · intro key e he
    obtain ⟨haruid, -⟩ | ⟨k, hk, haruid, -⟩ := hnamed key e he
    · rw [haruid]
      decide
    · rw [haruid]
      exact (huid k hk).1
  · intro key e he
    rw [show e.aruid ∈ (readArchiveListing src headers).symlinks ↔ _ from hlinking.symlinks e.aruid]
    obtain ⟨haruid, htype⟩ | ⟨k, hk, haruid, -, -, htype⟩ := hnamed key e he
    · refine iff_of_false (by rw [htype]; exact nofun) ?_
      rintro ⟨k, hk, hsame, -⟩
      exact (huid k hk).2 (hsame.trans haruid)
    · constructor
      · intro hlink
        exact ⟨k, hk, haruid.symm, htype.symm.trans hlink⟩
      · rintro ⟨k', hk', hsame, hlink⟩
        rw [inj_on_of_nodup_map (kept_uids hcount) hk' hk (hsame.trans haruid)] at hlink
        exact htype.trans hlink
  · intro key e he hlink
    obtain ⟨-, htype⟩ | ⟨k, hk, haruid, rfl, hname, -⟩ := hnamed key e he
    · exact nomatch htype.symm.trans hlink
    · obtain ⟨i, e', hplace, hget, hname', -⟩ := hplaced k hk
      obtain rfl := htree.eq_of_name he (mem_of_getElem? hget) (hname.trans hname'.symm)
      exact ⟨i, haruid ▸ hplace, hget⟩
  · intro uid hlink
    obtain ⟨k, hk, rfl, -⟩ := (hlinking.symlinks uid).mp hlink
    obtain ⟨i, e, -, hget, -, haruid, -⟩ := hplaced k hk
    exact ⟨parent k.path, e, mem_of_getElem? hget, haruid⟩

end Final

end WinCommander.VFS.ArcLA
