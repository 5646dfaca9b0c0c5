/-
  The index of an archive is well-formed exactly when its headers are orderly.

  An orderly listing is read into a tree (`arranged`), whose sizes are then updated. In the other
  direction the index tells where each entry is, so that two entries cannot share a place.
-/
import WinCommander.VFS.ArcLA.Arranged

namespace WinCommander.VFS.ArcLA

open Library List Option DirEntry
open Library.Path (slash)
open Utility.PathManip

/-! ## Sizes -/

section Sizes

variable {src : Stat} {headers : List Header} {r : Reading}

theorem keptBelow_append (ks : List Kept) (k : Kept) (key : Bytes) :
    keptBelow (ks ++ [k]) key = keptBelow ks key +
      if k.stat.type = .regular ∧ key <+: parent k.path then k.stat.size.toInt else 0 :=
  sum_filter_append (fun k : Kept => k.stat.type = .regular ∧ key <+: parent k.path) _ ks k

/-- The files below a directory are those in the directories below it. -/
theorem sum_keptSize (keys : Finset Bytes) (key : Bytes) (ks : List Kept)
    (hks : ∀ k ∈ ks, parent k.path ∈ keys) :
    ∑ other ∈ keys with key <+: other, keptSize ks other = keptBelow ks key := by
  induction ks using List.reverseRecOn with
  | nil => exact Finset.sum_eq_zero fun _ _ => rfl
  | append_singleton ks k ih =>
    have hparent := hks k (mem_append_right _ mem_cons_self)
    simp only [keptSize_append, Finset.sum_add_distrib]
    rw [ih fun k hk => hks k (mem_append_left _ hk), keptBelow_append]
    refine congrArg (keptBelow ks key + ·) ?_
    rw [Finset.sum_filter]
    by_cases hregular : k.stat.type = .regular
    · by_cases hle : key <+: parent k.path
      · rw [if_pos ⟨hregular, hle⟩, Finset.sum_eq_single_of_mem _ hparent, if_pos hle,
          if_pos ⟨hregular, rfl⟩]
        intro other _ hne
        rw [if_neg fun hboth : _ ∧ parent k.path = other => hne hboth.2.symm, ite_self]
      · rw [if_neg fun hboth => hle hboth.2]
        refine Finset.sum_eq_zero fun other _ => ?_
        by_cases hother : parent k.path = other
        · exact if_neg (hother ▸ hle)
        · rw [if_neg fun hboth : _ ∧ parent k.path = other => hother hboth.2, ite_self]
    · rw [if_neg fun hboth => hregular hboth.1]
      refine Finset.sum_eq_zero fun other _ => ?_
      rw [if_neg fun hboth : k.stat.type = .regular ∧ _ => hregular hboth.1, ite_self]

theorem Loaded.below (hloaded : Loaded headers r) (key : Bytes) :
    below r.index.pathToDir key = keptBelow (kept headers) key := by
  rw [← sum_keptSize r.index.pathToDir.keys.toFinset key (kept headers)
    fun k hk => mem_toFinset.mpr (hloaded.keys k hk).1]
  exact Finset.sum_congr rfl fun other _ => hloaded.sizes other

theorem keptBelow_eq_zero (h : ∀ k ∈ ks, ¬key <+: parent k.path) : keptBelow ks key = 0 := by
  unfold keptBelow
  rw [filter_eq_nil_iff.mpr, map_nil, sum_nil]
  intro k hk
  rw [decide_eq_true_eq]
  exact fun hboth => h k hk hboth.2

end Sizes

/-! ## Orderly listings -/

section Final

variable {src : Stat} {headers : List Header}

theorem index_resized (src : Stat) (headers : List Header) :
    Resized (readHeaders src headers).index.pathToDir (readArchiveListing src headers).pathToDir :=
  resized_updateDirectorySize _ _

variable {entries entries' : List DirEntry}

section
variable (h : List.Forall₂ Same entries entries')
include h

theorem names_of_same : entries'.map name = entries.map name := by
  induction h with
  | nil => rfl
  | cons hsame _ ih => rw [map_cons, map_cons, hsame.name, ih]

theorem same_getElem? (i : Nat) : Option.Rel Same entries[i]? entries'[i]? := by
  induction h generalizing i with
  | nil => exact .none
  | cons hsame _ ih =>
    cases i with
    | zero => exact .some hsame
    | succ i => exact ih i

/-- The entry at a place, as it is after the sizes were updated. -/
theorem same_at {i : Nat} (he : entries[i]? = some e) :
    ∃ e', entries'[i]? = some e' ∧ Same e e' := by
  have hrel := same_getElem? h i
  rw [he] at hrel
  cases hget : entries'[i]? with
  | none =>
    rw [hget] at hrel
    cases hrel
  | some e' =>
    rw [hget] at hrel
    cases hrel with
    | some hsame => exact ⟨e', rfl, hsame⟩

/-- The entry at a place, as it was before. -/
theorem same_before {i : Nat} (he' : entries'[i]? = some e') :
    ∃ e, entries[i]? = some e ∧ Same e e' := by
  have hrel := same_getElem? h i
  rw [he'] at hrel
  cases hget : entries[i]? with
  | none =>
    rw [hget] at hrel
    cases hrel
  | some e =>
    rw [hget] at hrel
    cases hrel with
    | some hsame => exact ⟨e, rfl, hsame⟩

end

theorem findEntryByUID_of_recorded {index : Index} {uid : UInt32} (hpos : 0 < uid.toNat) {key : Bytes}
    {i : Nat} (hplace : recorded index.entryByUID uid.toNat = some (key, i)) :
    index.findEntryByUID uid = (entriesOf index.pathToDir key)[i]? := by
  have hne : uid ≠ 0 := by
    rintro rfl
    exact absurd hpos (Nat.lt_irrefl 0)
  have hget := join_eq_some_iff.mp hplace
  unfold Index.findEntryByUID entriesOf
  rw [if_neg hne, hget]
  dsimp only
  cases index.pathToDir.lookup key <;> rfl

theorem Orderly.sized (h : Orderly headers) (harranged : Arranged headers r)
    (hkey : key ∈ r.index.pathToDir) : 0 ≤ keptBelow (kept headers) key ∧
      keptBelow (kept headers) key < if key = [slash] then 2 ^ 64 else 2 ^ 63 := by
  by_cases habove : ∃ k ∈ kept headers, key <+: parent k.path
  · obtain ⟨k, hk, hle⟩ := habove
    exact h.sizes k hk key ((mem_inits _ _).mpr hle) (harranged.tree.grown.sound key hkey).ends
  · rw [keptBelow_eq_zero fun k hk hle => habove ⟨k, hk, hle⟩]
    refine ⟨Int.le_refl 0, ?_⟩
    split_ifs <;> decide

theorem Tree.listed {dirs dirs' : PathToDir} (h : Tree dirs) (hresized : Resized dirs dirs')
    (hkey : key ∈ dirs) : Listed dirs' key := by
  induction hlength : key.length using Nat.strong_induction_on generalizing key with
  | _ n ih =>
    by_cases hroot : key = [slash]
    · exact hroot ▸ .root
    · obtain ⟨e, he, hdirectory, hchild⟩ := h.named key hkey hroot
      obtain ⟨i, hi⟩ := List.getElem?_of_mem he
      obtain ⟨e', he', hsame⟩ := same_at (hresized.entries (parent key)) hi
      have hlt : (parent key).length < n := hlength ▸ length_parent_of_child hchild
      have hlisted := ih _ hlt (h.grown.closed key hkey hroot) rfl
      have hkey' : child (parent key) e'.name = key := by rw [hsame.name, hchild]
      have hthere : child (parent key) e'.name ∈ dirs' := hkey'.symm ▸ (hresized.keys key).mpr hkey
      rw [← hkey']
      exact .child (parent key) e' hlisted (mem_of_getElem? he')
        (hsame.type.trans hdirectory) hthere

theorem Orderly.wellFormed (h : Orderly headers) (hcount : headers.length < maxHeaders) :
    WellFormed (readArchiveListing src headers) := by
  have harranged := arranged src hcount h.plain h.apart
  have hloaded := loaded src hcount
  have hresized := index_resized src headers
  have htree := harranged.tree
  have hentry := harranged.entry
  refine ⟨?_, ?_, ?_, ?_, ?_⟩
  · intro key hkey hroot
    have hold := (hresized.keys key).mp hkey
    refine ⟨(hresized.keys _).mpr (htree.grown.closed key hold hroot), ?_⟩
    obtain ⟨e, he, hdirectory, hchild⟩ := htree.named key hold hroot
    obtain ⟨i, hi⟩ := List.getElem?_of_mem he
    obtain ⟨e', he', hsame⟩ := same_at (hresized.entries (parent key)) hi
    refine ⟨i, ⟨e', he', hsame.type.trans hdirectory, by rw [hsame.name, hchild]⟩, ?_⟩
    rintro j ⟨other, hother, -, hchild'⟩
    -- The names are distinct.
    have hname : other.name = e'.name := by
      refine child_cancel (hchild'.trans ?_)
      rw [hsame.name, hchild]
    have hnodup := htree.distinct (parent key)
    rw [← names_of_same (hresized.entries (parent key))] at hnodup
    have hj : ((entriesOf (readArchiveListing src headers).pathToDir (parent key)).map
        name)[j]? = some e'.name := by
      rw [List.getElem?_map, hother, map_some, hname]
    have hi' : ((entriesOf (readArchiveListing src headers).pathToDir (parent key)).map
        name)[i]? = some e'.name := by
      rw [List.getElem?_map, he', map_some]
    exact (List.getElem?_inj (List.getElem?_eq_some_iff.mp hj).1 hnodup).mp (hj.trans hi'.symm)
  · intro key
    rw [names_of_same (hresized.entries key)]
    refine ⟨htree.distinct key, fun e he => ?_⟩
    have hname : e.name ∈ (entriesOf (readHeaders src headers).index.pathToDir key).map name :=
      names_of_same (hresized.entries key) ▸ mem_map_of_mem he
    obtain ⟨old, hold, hsame⟩ := mem_map.mp hname
    exact hsame ▸ htree.components key old hold
  · intro uid hrecorded
    obtain ⟨place, hplace⟩ := isSome_iff_exists.mp hrecorded
    obtain ⟨k, hk, huid⟩ := hloaded.known uid.toNat place hplace
    obtain ⟨i, e, hplace', hget, -, haruid⟩ := hentry k hk
    rw [UInt32.toNat_inj.mp huid] at hplace' haruid
    obtain ⟨e', he', hsame⟩ := same_at (hresized.entries (parent k.path)) hget
    refine ⟨e', ?_, hsame.aruid.trans haruid⟩
    have hpos : 0 < uid.toNat := huid ▸ (uid_of_kept hcount hk).1
    rw [@findEntryByUID_of_recorded (readArchiveListing src headers) uid hpos _ _ hplace', he']
  · intro key dir hdir
    have hlookup := updated htree key
    rw [show (updateDirectorySize _ [slash]).1.lookup key = some dir from hdir] at hlookup
    obtain ⟨old, hold, rfl⟩ := map_eq_some_iff.mp hlookup.symm
    have hkey : key ∈ (readHeaders src headers).index.pathToDir :=
      AList.lookup_isSome.mp (isSome_of_eq_some hold)
    refine ⟨?_, ?_⟩
    · obtain ⟨hle, hlt⟩ := h.sized harranged hkey
      have hlt' : keptBelow (kept headers) key < 2 ^ 64 := by
        by_cases hroot : key = [slash]
        · rwa [if_pos hroot] at hlt
        · rw [if_neg hroot] at hlt
          omega
      show ((UInt64.ofInt _).toNat : Int) = _
      rw [toNat_ofInt, hresized.below, hloaded.below, Int.emod_eq_of_lt hle hlt']
    · intro e he hdirectory
      obtain ⟨e, hmem, rfl⟩ := mem_map.mp he
      have hentry : e ∈ entriesOf (readHeaders src headers).index.pathToDir key :=
        entriesOf_of_lookup hold ▸ hmem
      unfold sizedEntry at hdirectory ⊢
      by_cases htype : e.st.type = .directory
      · have hthere := htree.there key e hentry htype
        have hroot := child_ne_root (htree.grown.sound key hkey).ends (htree.components key e hentry)
        obtain ⟨hle, hlt⟩ := h.sized harranged hthere
        rw [if_neg hroot] at hlt
        rw [if_pos htype]
        rw [hloaded.below, toInt_ofInt hle hlt, hresized.below, hloaded.below]
      · rw [if_neg htype] at hdirectory
        exact absurd hdirectory htype
  · exact fun key hkey => htree.listed hresized ((hresized.keys key).mp hkey)

/-! ## Well-formed indices -/

theorem Resized.grown (h : Resized dirs dirs') (hgrown : Grown dirs) : Grown dirs' where
  root := (h.keys _).mpr hgrown.root
  sound key hkey := hgrown.sound key ((h.keys key).mp hkey)
  closed key hkey hne := (h.keys _).mpr (hgrown.closed key ((h.keys key).mp hkey) hne)

section Directories

variable {index : Index} {key : Bytes}

section
variable (h : WellFormed index)
include h

theorem WellFormed.entry_of_key (hkey : key ∈ index.pathToDir) (hroot : key ≠ [slash]) :
    ∃ e ∈ entriesOf index.pathToDir (parent key),
      e.st.type = .directory ∧ child (parent key) e.name = key ∧ Component e.name := by
  obtain ⟨-, i, ⟨e, he, hdirectory, hchild⟩, -⟩ := h.directory key hkey hroot
  have hmem := mem_of_getElem? he
  exact ⟨e, hmem, hdirectory, hchild, (h.names _).2 e hmem⟩

theorem WellFormed.plain (hkey : key ∈ index.pathToDir) : Utility.PathManip.Plain key := by
  induction hlength : key.length using Nat.strong_induction_on generalizing key with
  | _ n ih =>
    by_cases hroot : key = [slash]
    · rw [hroot]
      decide
    · obtain ⟨e, -, -, hchild, hname⟩ := h.entry_of_key hkey hroot
      have hparent := ih _ (hlength ▸ length_parent_of_child hchild) (h.directory key hkey hroot).1 rfl
      exact hchild ▸ hparent.child hname

/-- The directories above a directory are there, too. -/
theorem WellFormed.mem_of_above (hkey : key ∈ index.pathToDir)
    (hends : hasTrailingSlash above = true) (hle : above <+: key) : above ∈ index.pathToDir := by
  induction hlength : key.length using Nat.strong_induction_on generalizing key with
  | _ n ih =>
    by_cases hroot : key = [slash]
    · subst hroot
      rcases prefix_concat_iff.mp (show above <+: [] ++ [slash] from hle) with heq | hnil
      · exact heq ▸ hkey
      · rw [prefix_nil.mp hnil] at hends
        cases hends
    · obtain ⟨e, -, -, hchild, hname⟩ := h.entry_of_key hkey hroot
      rcases prefix_child_cases hname hends (hchild ▸ hle) with heq | hle
      · exact heq.trans hchild ▸ hkey
      · exact ih _ (hlength ▸ length_parent_of_child hchild) (h.directory key hkey hroot).1 hle rfl

theorem WellFormed.eq_of_name (he : e ∈ entriesOf index.pathToDir key)
    (he' : e' ∈ entriesOf index.pathToDir key) (hname : e.name = e'.name) : e = e' :=
  inj_on_of_nodup_map (h.names key).1 he he' hname

end

end Directories

section
variable (h : WellFormed (readArchiveListing src headers))
include h

/-- The entry of a header is where its uid says, and not replaced. -/
theorem WellFormed.entry_of_kept (hcount : headers.length < maxHeaders) {k : Kept}
    (hk : k ∈ kept headers) :
    ∃ e ∈ entriesOf (readArchiveListing src headers).pathToDir (parent k.path),
      e.name = filename k.path ∧ e.aruid = k.uid ∧ e.st.type = k.stat.type := by
  obtain ⟨i, e, hplace, hget, hname, htype⟩ := (loaded src hcount).entry k hk
  obtain ⟨e', he', hsame⟩ := same_at ((index_resized src headers).entries (parent k.path)) hget
  have hplace' : recorded (readArchiveListing src headers).entryByUID k.uid.toNat =
      some (parent k.path, i) := hplace
  obtain ⟨found, hfound, haruid⟩ := h.uids k.uid (by rw [hplace', isSome_some])
  rw [findEntryByUID_of_recorded (uid_of_kept hcount hk).1 hplace', he'] at hfound
  rw [← Option.some.inj hfound] at haruid
  exact ⟨e', mem_of_getElem? he', hsame.name.trans hname, haruid,
    hsame.type.trans (htype (hsame.aruid.symm.trans haruid))⟩

/-- An entry that is at the place of a directory is that directory. -/
theorem WellFormed.not_above (hcount : headers.length < maxHeaders) (ha : a ∈ kept headers)
    (hb : b ∈ kept headers) (hne : a.key ≠ b.key) (hfile : a.stat.type ≠ .directory)
    : ¬a.key <+: b.key := by
  intro hle
  obtain ⟨habove, hname, -⟩ := kept_sound ha
  obtain ⟨-, hname', -⟩ := kept_sound hb
  have hparent : parent b.path ∈ (readArchiveListing src headers).pathToDir :=
    ((index_resized src headers).keys _).mpr ((loaded src hcount).keys b hb).1
  have hbelow : a.key <+: parent b.path :=
    (prefix_child_cases hname' hasTrailingSlash_child hle).resolve_left hne
  have hthere := h.mem_of_above hparent hasTrailingSlash_child hbelow
  obtain ⟨e, he, hdirectory, hchild, -⟩ := h.entry_of_key hthere (child_ne_root habove.ends hname)
  obtain ⟨e', he', hsame, -, htype⟩ := h.entry_of_kept hcount ha
  rw [parent_child habove.ends hname] at he hchild
  have heq := h.eq_of_name he he' ((child_cancel hchild).trans hsame.symm)
  exact hfile (htype.symm.trans (heq ▸ hdirectory))

theorem WellFormed.apart (hcount : headers.length < maxHeaders) :
    (kept headers).Pairwise Apart := by
  have hnodup := kept_uids hcount
  refine (List.Nodup.of_map _ hnodup).pairwise_of_forall_ne fun a ha b hb hne => ?_
  have hkeys : a.key ≠ b.key := by
    intro hkey
    obtain ⟨habove, hname, -⟩ := kept_sound ha
    obtain ⟨habove', hname', -⟩ := kept_sound hb
    have hparent : parent a.path = parent b.path := by
      rw [← parent_child habove.ends hname, ← parent_child habove'.ends hname']
      exact congrArg parent hkey
    have hfilename : filename a.path = filename b.path := by
      rw [← filename_child habove.ends hname, ← filename_child habove'.ends hname']
      exact congrArg filename hkey
    obtain ⟨e, he, hsame, haruid, -⟩ := h.entry_of_kept hcount ha
    obtain ⟨e', he', hsame', haruid', -⟩ := h.entry_of_kept hcount hb
    have heq := h.eq_of_name (hparent ▸ he) he' (by rw [hsame, hsame', hfilename])
    exact hne (inj_on_of_nodup_map hnodup ha hb (by rw [← haruid, ← haruid', heq]))
  exact ⟨hkeys, h.not_above hcount ha hb hkeys, h.not_above hcount hb ha hkeys.symm⟩

theorem WellFormed.orderly (hcount : headers.length < maxHeaders) : Orderly headers := by
  have hloaded := loaded src hcount
  have hresized := index_resized src headers
  refine ⟨fun k hk => ?_, h.apart hcount, ?_⟩
  · obtain ⟨hparent, hown⟩ := hloaded.keys k hk
    refine ⟨h.plain ((hresized.keys _).mpr hparent), fun htype => ?_⟩
    have hplain := h.plain ((hresized.keys _).mpr (hown htype))
    refine hplain.of_prefix ?_
    unfold ownPath
    split_ifs
    · rfl
    · exact prefix_append _ _
  · intro k hk directory hdirectory hends
    have hthere := h.mem_of_above ((hresized.keys _).mpr (hloaded.keys k hk).1) hends
      ((mem_inits _ _).mp hdirectory)
    have hbelow : below (readArchiveListing src headers).pathToDir directory =
        keptBelow (kept headers) directory := (hresized.below directory).trans (hloaded.below directory)
    obtain ⟨dir, hdir⟩ := exists_lookup hthere
    have hsize := (h.sizes directory dir hdir).1
    rw [hbelow] at hsize
    rw [← hsize]
    refine ⟨Int.natCast_nonneg _, ?_⟩
    split_ifs with hroot
    · have hlt := dir.contentSize.toNat_lt
      omega
    · obtain ⟨e, he, htype, hchild, -⟩ := h.entry_of_key hthere hroot
      obtain ⟨above, habove⟩ := exists_lookup (mem_of_entry he)
      have hentry := (h.sizes _ above habove).2 e (entriesOf_of_lookup habove ▸ he) htype
      rw [hchild, hbelow, ← hsize] at hentry
      have hlt := e.st.size.toInt_lt
      omega

end

theorem wellFormed_iff_orderly (src : Stat) (headers : List Header)
    (hcount : headers.length < maxHeaders) :
    WellFormed (readArchiveListing src headers) ↔ Orderly headers :=
  ⟨fun h => h.orderly hcount, fun h => h.wellFormed hcount⟩

/-- A file of three bytes. -/
def fileHeader (pathname : Bytes) : Header where
  stat := some { type := .regular, size := 3 }
  pathname := some pathname

theorem wellFormed_madeUp :
    WellFormed (readArchiveListing { type := .regular } [fileHeader (ascii "d/a"), fileHeader (ascii "b")]) :=
  (wellFormed_iff_orderly { type := .regular } [fileHeader (ascii "d/a"), fileHeader (ascii "b")]
    (by decide)).mpr ⟨by decide +kernel, by decide +kernel, by decide +kernel⟩

/-- A directory is made up where a file of its name is. -/
theorem below_a_file :
    ¬WellFormed (readArchiveListing { type := .regular } [fileHeader (ascii "a"), fileHeader (ascii "a/b")]) := by
  intro h
  have hnames := (h.names [slash]).1
  revert hnames
  decide +kernel

end Final

end WinCommander.VFS.ArcLA
