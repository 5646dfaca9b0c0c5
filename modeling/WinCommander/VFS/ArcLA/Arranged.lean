/-
  The directories of an orderly listing stay a tree.

  While no two entries are at one place and none is below a file, a directory that is made up finds
  its name unused, and so does an entry that is added (`Arranged.addDummy`, `Arranged.place`).
-/
import WinCommander.VFS.ArcLA.WellFormed

namespace WinCommander.VFS.ArcLA

open Library List ArcLA Option
open Library.Path (slash)
open Utility.PathManip

/-! ## Places -/

section Places

variable {headers : List Header} {k other : Kept}

/-- The path of a directory that is plain is its place. -/
theorem ownPath_eq_key (hname : Component (filename k.path))
    (hplain : Utility.PathManip.Plain k.path)
    (hhead : k.path.head? = some slash) : ownPath k.path = k.key := by
  unfold ownPath Kept.key
  split_ifs with hends
  · have hroot : k.path ≠ [slash] := by
      intro hroot
      have hempty : filename [slash] = [] := by decide
      exact hname.nonempty (hroot ▸ hempty)
    exact (eq_child hplain hends hroot hhead).1
  · have heq := path_eq k.path
    have hnone : k.path.rtakeWhile (· = slash) = [] := by
      rw [rtakeWhile_eq_nil_iff]
      intro hne hlast
      rw [decide_eq_true_eq] at hlast
      refine hends ?_
      unfold hasTrailingSlash
      rw [decide_eq_true_eq, List.getLast?_eq_getLast_of_ne_nil hne, hlast]
    rw [hnone, append_nil] at heq
    unfold child
    rw [heq]

end Places

/-! ## Trees that grow -/

section Growing

variable {src : Stat} {dirs : PathToDir} {path : Bytes}

theorem mem_entriesOf_addDummy (hparent : parent path ∈ dirs) (hnew : path ∉ dirs)
    : e ∈ entriesOf (addDummy src dirs path) key ↔
      e ∈ entriesOf dirs key ∨ (key = parent path ∧ e = dummyDir src (filename path)) := by
  rw [entriesOf_addDummy hparent hnew]
  split_ifs with hkey
  · rw [mem_append, mem_singleton]
    exact or_congr_right (and_iff_right hkey).symm
  · exact (or_iff_left fun hboth => hkey hboth.1).symm

/-- A directory is made up where no entry of its name is. -/
theorem Tree.addDummy (h : Tree dirs) (hparent : parent path ∈ dirs) (hnew : path ∉ dirs)
    (hpath : path = child (parent path) (filename path)) (hname : Component (filename path))
    (hfresh : ∀ e ∈ entriesOf dirs (parent path), e.name ≠ filename path) :
    Tree (addDummy src dirs path) where
  grown := h.grown.addDummy (hpath ▸ hasTrailingSlash_child) hparent
  there key e he hdirectory := by
    obtain he | ⟨rfl, rfl⟩ := (mem_entriesOf_addDummy hparent hnew).mp he
    · exact (mem_addDummy hparent).mpr (.inr (h.there key e he hdirectory))
    · exact (mem_addDummy hparent).mpr (.inl hpath.symm)
  named key hkey hroot := by
    obtain rfl | hkey := (mem_addDummy hparent).mp hkey
    · exact ⟨dummyDir src (filename key),
        (mem_entriesOf_addDummy hparent hnew).mpr (.inr ⟨rfl, rfl⟩), rfl, hpath.symm⟩
    · obtain ⟨e, he, hdirectory, hchild⟩ := h.named key hkey hroot
      exact ⟨e, (mem_entriesOf_addDummy hparent hnew).mpr (.inl he), hdirectory, hchild⟩
  distinct key := by
    rw [entriesOf_addDummy hparent hnew]
    by_cases hkey : key = parent path
    · subst hkey
      rw [if_pos rfl, map_append]
      refine nodup_append.mpr ⟨h.distinct _, nodup_singleton _, ?_⟩
      intro name hname' other hother heq
      obtain ⟨e, he, rfl⟩ := mem_map.mp hname'
      exact hfresh e he (heq.trans (mem_singleton.mp hother))
    · rw [if_neg hkey]
      exact h.distinct key
  components key e he := by
    obtain he | ⟨rfl, rfl⟩ := (mem_entriesOf_addDummy hparent hnew).mp he
    · exact h.components key e he
    · exact hname

section Placing

variable {old new : List DirEntry} {e : DirEntry} {i : Nat}

section
variable (h : Placed old e new i)
include h

theorem Placed.mem : e ∈ new := by
  cases h with
  | replaced split directory name type => exact mem_append_right _ mem_cons_self
  | appended fresh => exact mem_append_right _ mem_cons_self

theorem Placed.mem_cases (hother : other ∈ new) : other = e ∨ other ∈ old := by
  cases h with
  | replaced split directory name type =>
    obtain hbefore | hafter := mem_append.mp hother
    · exact .inr (split ▸ mem_append_left _ hbefore)
    · exact (mem_cons.mp hafter).imp_right fun hafter =>
        split ▸ mem_append_right _ (mem_cons_of_mem _ hafter)
  | appended fresh =>
    obtain hold | hnew := mem_append.mp hother
    · exact .inr hold
    · exact .inl (mem_singleton.mp hnew)

/-- An entry stays, or it is a directory that is replaced by one of its name. -/
theorem Placed.stays (hother : other ∈ old) :
    other ∈ new ∨ (other.name = e.name ∧ e.st.type = .directory) := by
  cases h with
  | replaced split directory name type =>
    rw [split] at hother
    obtain hbefore | hafter := mem_append.mp hother
    · exact .inl (mem_append_left _ hbefore)
    · obtain rfl | hafter := mem_cons.mp hafter
      · exact .inr ⟨name, type⟩
      · exact .inl (mem_append_right _ (mem_cons_of_mem _ hafter))
  | appended fresh => exact .inl (mem_append_left _ hother)

theorem Placed.names (hold : (old.map DirEntry.name).Nodup)
    (hfresh : old[i]? = none → ∀ other ∈ old, other.name ≠ e.name) :
    (new.map DirEntry.name).Nodup := by
  cases h with
  | replaced split directory name type =>
    rw [split, map_append, map_cons, name] at hold
    rwa [map_append, map_cons]
  | appended fresh =>
    rw [map_append]
    refine nodup_append.mpr ⟨hold, nodup_singleton _, ?_⟩
    intro name hname other hother heq
    obtain ⟨e', he', rfl⟩ := mem_map.mp hname
    exact hfresh (List.getElem?_eq_none (Nat.le_refl _)) e' he'
      (heq.trans (mem_singleton.mp hother))

end

end Placing

end Growing

/-! ## The invariant -/

/-- Each file is from an entry, each directory is above one, and each entry has its place. -/
structure Arranged (headers : List Header) (r : Reading) : Prop where
  tree : Tree r.index.pathToDir
  files : ∀ key, ∀ e ∈ entriesOf r.index.pathToDir key, e.st.type ≠ .directory →
    ∃ k ∈ kept headers, k.stat.type ≠ .directory ∧ k.key = child key e.name
  rooted : ∀ key ∈ r.index.pathToDir, key ≠ [slash] → ∃ k ∈ kept headers, key <+: k.key
  entry : ∀ k ∈ kept headers, ∃ i e,
    recorded r.index.entryByUID k.uid.toNat = some (parent k.path, i) ∧
      (entriesOf r.index.pathToDir (parent k.path))[i]? = some e ∧ e.name = filename k.path ∧
      e.aruid = k.uid

section Arranging

variable {src : Stat} {headers : List Header} {r r' : Reading} {h : Header} {k : Kept} {e : DirEntry}
  {dirs : PathToDir} {i : Nat} {entries : List DirEntry}

section
variable (harranged : Arranged headers r)
include harranged

/-- The directories above an entry that is apart from all others are made up in the tree. -/
theorem Arranged.builds (hread : k.Read src r e r' dirs i entries)
    (hplain : Utility.PathManip.Plain (parent k.path))
    (hapart : ∀ other ∈ kept headers, Apart other k) :
    Tree dirs ∧ (∀ key, ∀ e ∈ entriesOf dirs key, e.st.type ≠ .directory →
      ∃ k ∈ kept headers, k.stat.type ≠ .directory ∧ k.key = child key e.name) := by
  refine hread.builds.keeps (I := fun mid => Tree mid ∧
    ∀ key, ∀ e ∈ entriesOf mid key, e.st.type ≠ .directory →
      ∃ k ∈ kept headers, k.stat.type ≠ .directory ∧ k.key = child key e.name)
    hread.above.ends ⟨harranged.tree, harranged.files⟩ ?_
  rintro path mid hle hends hfilename hparent hnew ⟨htree, hfiles⟩
  have hhead : path.head? = some slash := by
    obtain ⟨rest, hrest⟩ := parent_le path
    rw [← hrest, List.head?_append, (htree.grown.sound _ hparent).head]
    rfl
  have hroot : path ≠ [slash] := fun hroot => hnew (hroot ▸ htree.grown.root)
  obtain ⟨hpath, hname, -⟩ := eq_child (hplain.of_prefix hle) hends hroot hhead
  refine ⟨htree.addDummy hparent hnew hpath hname ?_, ?_⟩
  · intro e' he' hsame
    by_cases hdirectory : e'.st.type = .directory
    · refine hnew ?_
      rw [hpath, ← hsame]
      exact htree.there _ e' he' hdirectory
    · obtain ⟨other, hother, hfile, hkey⟩ := hfiles _ e' he' hdirectory
      refine (hapart other hother).left hfile ?_
      rw [hkey, hsame, ← hpath]
      exact hle.trans prefix_child
  · intro key e' he' hfile
    obtain he' | ⟨-, rfl⟩ := (mem_entriesOf_addDummy hparent hnew).mp he'
    · exact hfiles key e' he' hfile
    · exact absurd rfl hfile

/-- No entry has the name of one that is added. -/
theorem Arranged.fresh (hread : k.Read src r e r' dirs i entries)
    (hplain : Utility.PathManip.Plain (parent k.path))
    (hapart : ∀ other ∈ kept headers, Apart other k)
    (hadded : (entriesOf dirs (parent k.path))[i]? = none) :
    ∀ other ∈ entriesOf dirs (parent k.path), other.name ≠ e.name := by
  obtain ⟨htree, hfiles⟩ := harranged.builds hread hplain hapart
  intro other hother hsame
  have hchild : child (parent k.path) other.name = k.key := by
    unfold Kept.key
    rw [hsame, hread.named]
  by_cases hdirectory : other.st.type = .directory
  · by_cases htype : k.stat.type = .directory
    · -- A directory would be replaced.
      obtain ⟨-, hnew⟩ | ⟨found, hfound, -⟩ := hread.placed.before
      · exact hnew (hread.type.trans htype) other hother hdirectory hsame
      · rw [hadded] at hfound
        cases hfound
    · -- Something is below it.
      have hthere := htree.there _ other hother hdirectory
      rw [hchild] at hthere
      have hold : k.key ∈ r.index.pathToDir :=
        (hread.builds.mem_cases hthere).resolve_right not_child_le
      have hroot : k.key ≠ [slash] := child_ne_root hread.above.ends hread.name
      obtain ⟨above, habove, hle⟩ := harranged.rooted _ hold hroot
      exact (hapart above habove).right htype hle
  · obtain ⟨above, habove, -, hkey⟩ := hfiles _ other hother hdirectory
    exact (hapart above habove).ne (hkey.trans hchild)

theorem Arranged.tree_read (hread : k.Read src r e r' dirs i entries)
    (hplain : Utility.PathManip.Plain (parent k.path))
    (hown : k.stat.type = .directory → ownPath k.path = k.key)
    (hapart : ∀ other ∈ kept headers, Apart other k) : Tree r'.index.pathToDir := by
  obtain ⟨htree, -⟩ := harranged.builds hread hplain hapart
  have hfresh := harranged.fresh hread hplain hapart
  have hmem : ∀ key other, other ∈ entriesOf r'.index.pathToDir key →
      (key = parent k.path ∧ other = e) ∨ other ∈ entriesOf dirs key := by
    intro key other hother
    rw [hread.entriesOf] at hother
    by_cases hkey : key = parent k.path
    · subst hkey
      rw [if_pos rfl] at hother
      exact (hread.placed.mem_cases hother).imp_left fun heq => ⟨rfl, heq⟩
    · rw [if_neg hkey] at hother
      exact .inr hother
  refine ⟨hread.grown harranged.tree.grown, ?_, ?_, ?_, ?_⟩
  · intro key other hother hdirectory
    obtain ⟨rfl, rfl⟩ | hother := hmem key other hother
    · have htype := hread.type.symm.trans hdirectory
      refine (hread.keys _).mpr (.inr ⟨htype, ?_⟩)
      rw [hown htype, hread.named]
      rfl
    · exact (hread.keys _).mpr (.inl (htree.there key other hother hdirectory))
  · intro key hkey hroot
    have hnew : ∀ key, (∃ other ∈ entriesOf dirs (parent key), other.st.type = .directory ∧
        child (parent key) other.name = key) →
        ∃ other ∈ entriesOf r'.index.pathToDir (parent key), other.st.type = .directory ∧
          child (parent key) other.name = key := by
      rintro key ⟨other, hother, hdirectory, hchild⟩
      rw [hread.entriesOf]
      split_ifs with habove
      · obtain hstays | ⟨hsame, htype⟩ := hread.placed.stays (habove ▸ hother)
        · exact ⟨other, hstays, hdirectory, hchild⟩
        · exact ⟨e, hread.placed.mem, htype, hsame ▸ hchild⟩
      · exact ⟨other, hother, hdirectory, hchild⟩
    obtain hkey | ⟨htype, rfl⟩ := (hread.keys key).mp hkey
    · exact hnew key (htree.named key hkey hroot)
    · have hparent := (ownPath_parts hread.above.ends hread.name).1
      refine ⟨e, ?_, hread.type.trans htype, ?_⟩
      · rw [hread.entriesOf, if_pos hparent]
        exact hread.placed.mem
      · rw [hparent, hread.named, hown htype]
        rfl
  · intro key
    rw [hread.entriesOf]
    by_cases hkey : key = parent k.path
    · subst hkey
      rw [if_pos rfl]
      exact hread.placed.names (htree.distinct _) hfresh
    · rw [if_neg hkey]
      exact htree.distinct key
  · intro key other hother
    obtain ⟨rfl, rfl⟩ | hother := hmem key other hother
    · exact hread.named ▸ hread.name
    · exact htree.components key other hother

theorem Arranged.read (hloaded : Loaded headers r) (hcount : headers.length + 1 < maxHeaders)
    (hplain : ∀ k ∈ kept (headers ++ [h]), Utility.PathManip.Plain (parent k.path) ∧ (k.stat.type = .directory → Utility.PathManip.Plain k.path))
    (hpairwise : (kept (headers ++ [h])).Pairwise Apart) :
    Arranged (headers ++ [h]) (r.readHeader src h) := by
  obtain ⟨hsucc, huid, hsynthetic⟩ := uid_succ hcount hloaded
  cases hkept : h.kept with
  | none =>
    have hsame : kept (headers ++ [h]) = kept headers := by
      rw [kept_append, hkept, map_none, toList_none, append_nil]
    rw [readHeader_passed hloaded.grown hloaded.parentDir hkept]
    refine ⟨harranged.tree, ?_, ?_, ?_⟩ <;> rw [hsame]
    exacts [harranged.files, harranged.rooted, harranged.entry]
  | some entry =>
    obtain ⟨path, stat⟩ := entry
    obtain ⟨e, dirs, i, entries, hread⟩ := @read_kept src headers r h hloaded path stat hkept
    have hsame : kept (headers ++ [h]) = kept headers ++ [⟨r.aruid + 1, path, stat⟩] := by
      rw [kept_append, hkept, hsucc]
      rfl
    have hlast : (⟨r.aruid + 1, path, stat⟩ : Kept) ∈ kept (headers ++ [h]) :=
      hsame ▸ mem_append_right _ mem_cons_self
    obtain ⟨hparent, hdirectory⟩ := hplain _ hlast
    have hold : ∀ other ∈ kept headers, Apart other ⟨r.aruid + 1, path, stat⟩ := by
      rw [hsame] at hpairwise
      exact fun other hother =>
        (pairwise_append.mp hpairwise).2.2 other hother _ mem_cons_self
    have hown : stat.type = .directory →
        ownPath path = Kept.key ⟨r.aruid + 1, path, stat⟩ := fun htype =>
      @ownPath_eq_key ⟨r.aruid + 1, path, stat⟩ hread.name (hdirectory htype)
        (kept_sound hlast).2.2
    obtain ⟨htree, hfiles⟩ := harranged.builds hread hparent hold
    refine ⟨harranged.tree_read hread hparent hown hold, ?_, ?_, ?_⟩
    · intro key other hother hfile
      rw [hsame]
      rw [hread.entriesOf] at hother
      have hdirs : other ∈ entriesOf dirs key → ∃ k ∈ kept headers ++ [⟨r.aruid + 1, path, stat⟩],
          k.stat.type ≠ .directory ∧ k.key = child key other.name := by
        intro hother
        obtain ⟨k, hk, htype, hkey⟩ := hfiles key other hother hfile
        exact ⟨k, mem_append_left _ hk, htype, hkey⟩
      split_ifs at hother with hkey
      · obtain rfl | hother := hread.placed.mem_cases hother
        · refine ⟨_, mem_append_right _ mem_cons_self,
            fun htype => hfile (hread.type.trans htype), ?_⟩
          rw [hkey, hread.named]
          rfl
        · exact hdirs (hkey ▸ hother)
      · exact hdirs hother
    · intro key hkey hroot
      rw [hsame]
      obtain hkey | ⟨htype, rfl⟩ := (hread.keys key).mp hkey
      · obtain hkey | hle := hread.builds.mem_cases hkey
        · obtain ⟨k, hk, hle⟩ := harranged.rooted key hkey hroot
          exact ⟨k, mem_append_left _ hk, hle⟩
        · exact ⟨_, mem_append_right _ mem_cons_self, hle.trans prefix_child⟩
      · exact ⟨_, mem_append_right _ mem_cons_self, hown htype ▸ prefix_rfl⟩
    · intro k hk
      rw [hsame] at hk
      obtain hk | hk := mem_append.mp hk
      · obtain ⟨j, old, hplace, hget, hname, haruid⟩ := harranged.entry k hk
        have hne : k.uid.toNat ≠ (r.aruid + 1).toNat := by
          have hle := (uid_of_kept (by omega) hk).2
          omega
        refine ⟨j, old, ?_, ?_, hname, haruid⟩
        · rw [hread.table, recorded_recordEntry _ hsynthetic, if_neg hne, hplace]
        · rw [hread.getElem? hget, if_neg]
          rintro ⟨hsameparent, rfl⟩
          -- The place would be the same.
          obtain ⟨extra, hextra, -⟩ := hread.builds.entries hread.above.ends (parent k.path)
          have hfound : (entriesOf dirs (parent path))[j]? = some old := by
            rw [← hsameparent, hextra, List.getElem?_append_left (List.getElem?_eq_some_iff.mp hget).1,
              hget]
          obtain ⟨hnone, -⟩ | ⟨found, hfound', -, hsamename, -⟩ := hread.placed.before
          · rw [hfound] at hnone
            cases hnone
          · rw [hfound] at hfound'
            refine (hold k hk).ne ?_
            unfold Kept.key
            rw [hsameparent, ← hname, some.inj hfound', hsamename, hread.named]
      · rw [mem_singleton.mp hk]
        refine ⟨i, e, ?_, ?_, hread.named, hread.aruid⟩
        · rw [hread.table, recorded_recordEntry _ hsynthetic, if_pos rfl]
        · rw [hread.entriesOf, if_pos rfl, hread.placed.getElem?, if_pos rfl]

end

theorem arranged_root : Arranged [] { index := rootIndex } := by
  have hmem : ∀ key, key ∈ rootIndex.pathToDir → key = [slash] := fun key hkey =>
    ((AList.mem_insert _).mp hkey).resolve_right (AList.notMem_empty key)
  have hnil : ∀ key, entriesOf rootIndex.pathToDir key = [] := by
    intro key
    unfold rootIndex
    rw [entriesOf_insert]
    split_ifs
    · rfl
    · rw [entriesOf_of_notMem (AList.notMem_empty key)]
  have hnone : ∀ key, ∀ e, e ∉ entriesOf rootIndex.pathToDir key := by
    intro key e he
    rw [hnil] at he
    exact absurd he not_mem_nil
  refine ⟨⟨loaded_root.grown, ?_, ?_, ?_, ?_⟩, ?_, ?_, ?_⟩
  · exact fun key e he => absurd he (hnone key e)
  · exact fun key hkey hroot => absurd (hmem key hkey) hroot
  · intro key
    rw [hnil]
    exact nodup_nil
  · exact fun key e he => absurd he (hnone key e)
  · exact fun key e he => absurd he (hnone key e)
  · exact fun key hkey hroot => absurd (hmem key hkey) hroot
  · exact fun k hk => absurd hk not_mem_nil

theorem arranged (src : Stat) (hcount : headers.length < maxHeaders)
    (hplain : ∀ k ∈ kept headers, Utility.PathManip.Plain (parent k.path) ∧
      (k.stat.type = .directory → Utility.PathManip.Plain k.path))
    (hpairwise : (kept headers).Pairwise Apart) : Arranged headers (readHeaders src headers) := by
  induction headers using List.reverseRecOn with
  | nil => exact arranged_root
  | append_singleton headers h ih =>
    rw [length_append, length_singleton] at hcount
    have hbefore : kept headers <+: kept (headers ++ [h]) := by
      rw [kept_append]
      exact prefix_append _ _
    rw [readHeaders_append]
    exact (ih (by omega) (fun k hk => hplain k (hbefore.subset hk))
      (hpairwise.sublist hbefore.sublist)).read (loaded src (by omega)) hcount hplain hpairwise

end Arranging

end WinCommander.VFS.ArcLA
