/-
  What the steps of reading an archive do to its directories.

  A directory is known by its entries (`entriesOf`). Building the directories above an entry is a
  chain of single steps (`Builds`), each of which adds one directory with one entry for it; a header
  is either passed by or builds its parent and places its entry there (`Reads`).
-/
import WinCommander.VFS.ArcLA.Index

namespace WinCommander.VFS.ArcLA

open Library List Option AList
open Library.Path (slash dot dotDot)
open Utility.PathManip

def entriesOf (dirs : PathToDir) (key : Bytes) : List DirEntry :=
  ((dirs.lookup key).map Dir.entries).getD []

section Maps

variable {dirs : PathToDir} {key : Bytes} {dir : Dir}

theorem entriesOf_of_lookup (h : dirs.lookup key = some dir) : entriesOf dirs key = dir.entries := by
  unfold entriesOf
  rw [h]
  rfl

theorem entriesOf_of_notMem (h : key ∉ dirs) : entriesOf dirs key = [] := by
  unfold entriesOf
  rw [lookup_eq_none.mpr h]
  rfl

theorem exists_lookup (h : key ∈ dirs) : ∃ dir, dirs.lookup key = some dir :=
  isSome_iff_exists.mp (lookup_isSome.mpr h)

theorem mem_of_entry (h : e ∈ entriesOf dirs key) : key ∈ dirs := by
  by_contra hnot
  rw [entriesOf_of_notMem hnot] at h
  exact absurd h not_mem_nil

theorem entriesOf_insert (dirs : PathToDir) (key other : Bytes) (dir : Dir) :
    entriesOf (dirs.insert key dir) other = if other = key then dir.entries else entriesOf dirs other := by
  unfold entriesOf
  split_ifs with h
  · rw [h, lookup_insert]
    rfl
  · rw [lookup_insert_ne h]

theorem mem_insert_of_mem (h : key ∈ dirs) (dir : Dir) :
    other ∈ dirs.insert key dir ↔ other ∈ dirs := by
  rw [mem_insert]
  refine or_iff_right_of_imp ?_
  rintro rfl
  exact h

end Maps

/-! ## Directories above an entry -/

section Building

variable {src : Stat} {dirs mid dirs' : PathToDir} {path : Bytes}

/-- A directory with its entry is added to one that is there. -/
def addDummy (src : Stat) (dirs : PathToDir) (path : Bytes) : PathToDir :=
  (insertDummyDirInto src dirs (parent path) (filename path)).insert path
    { fullPath := path, nameInParent := filename path }

theorem mem_addDummy (hparent : parent path ∈ dirs) :
    key ∈ addDummy src dirs path ↔ key = path ∨ key ∈ dirs := by
  obtain ⟨dir, hdir⟩ := exists_lookup hparent
  unfold addDummy insertDummyDirInto
  rw [hdir, mem_insert]
  exact or_congr_right (mem_insert_of_mem hparent _)

theorem entriesOf_addDummy (hparent : parent path ∈ dirs) (hnew : path ∉ dirs) (key : Bytes) :
    entriesOf (addDummy src dirs path) key =
      if key = parent path then entriesOf dirs key ++ [dummyDir src (filename path)]
      else entriesOf dirs key := by
  obtain ⟨dir, hdir⟩ := exists_lookup hparent
  have hne : parent path ≠ path := fun heq => hnew (heq ▸ hparent)
  unfold addDummy insertDummyDirInto
  rw [hdir, entriesOf_insert]
  by_cases hkey : key = path
  · rw [if_pos hkey, hkey, if_neg hne.symm, entriesOf_of_notMem hnew]
  · rw [if_neg hkey, entriesOf_insert]
    by_cases habove : key = parent path
    · rw [if_pos habove, if_pos habove, habove, entriesOf_of_lookup hdir]
    · rw [if_neg habove, if_neg habove]

/-- The directories are built from the first one that is there. -/
inductive Builds (src : Stat) (dirs : PathToDir) : Bytes → PathToDir → Prop
  | found {path : Bytes} (there : path ∈ dirs) : Builds src dirs path dirs
  | built {path : Bytes} {mid : PathToDir} (new : path ∉ dirs) (name : filename path ≠ [])
      (above : parent path ≠ []) (rest : Builds src dirs (parent path) mid) :
      Builds src dirs path (addDummy src mid path)

theorem builds_within (fuel : Nat) (h : findOrBuildDirWithin src fuel dirs path = some dirs') :
    Builds src dirs path dirs' := by
  induction fuel generalizing path dirs' with
  | zero => cases h
  | succ fuel ih =>
    unfold findOrBuildDirWithin at h
    by_cases hthere : path ∈ dirs
    · rw [if_pos hthere] at h
      rw [← some.inj h]
      exact .found hthere
    · rw [if_neg hthere] at h
      by_cases hparent : parent path = []
      · rw [if_pos hparent] at h
        cases h
      · rw [if_neg hparent] at h
        by_cases hname : filename path = []
        · rw [if_pos hname] at h
          cases h
        · rw [if_neg hname] at h
          obtain ⟨mid, hmid, rfl⟩ := map_eq_some_iff.mp h
          exact .built hthere hname hparent (ih hmid)

section
variable (h : Builds src dirs path dirs')
include h

theorem Builds.mem : path ∈ dirs' := by
  induction h with
  | found there => exact there
  | built new name above rest ih => exact (mem_addDummy ih).mpr (.inl rfl)

theorem Builds.mem_of_mem (hkey : key ∈ dirs) : key ∈ dirs' := by
  induction h with
  | found there => exact hkey
  | built new name above rest ih => exact (mem_addDummy rest.mem).mpr (.inr ih)

/-- What is added is the directory and what is above it. -/
theorem Builds.mem_cases (hkey : key ∈ dirs') : key ∈ dirs ∨ key <+: path := by
  induction h with
  | found there => exact .inl hkey
  | @built path mid new name above rest ih =>
    obtain rfl | hkey := (mem_addDummy rest.mem).mp hkey
    · exact .inr prefix_rfl
    · obtain hold | hle := ih hkey
      · exact .inl hold
      · exact .inr (hle.trans (parent_le path))

end

theorem Builds.notMem (h : Builds src dirs (parent path) mid) (hnew : path ∉ dirs)
    (hname : filename path ≠ []) : path ∉ mid := by
  intro hmem
  obtain hold | hle := h.mem_cases hmem
  · exact hnew hold
  · have hlength := hle.length_le
    have hlt := length_parent_lt hname
    omega

/-- A property of the directories is one of those that are built, if each added one keeps it. -/
theorem Builds.keeps {I : PathToDir → Prop} (h : Builds src dirs path dirs')
    (hends : hasTrailingSlash path) (hdirs : I dirs)
    (hadd : ∀ path' mid, path' <+: path → hasTrailingSlash path' → filename path' ≠ [] →
      parent path' ∈ mid → path' ∉ mid → I mid → I (addDummy src mid path')) : I dirs' := by
  induction h with
  | found there => exact hdirs
  | @built path mid new name above rest ih =>
    refine hadd path mid prefix_rfl hends name rest.mem (rest.notMem new name) ?_
    refine ih (hasTrailingSlash_parent above) fun path' mid hle => ?_
    exact hadd path' mid (hle.trans (parent_le path))

end Building

/-! ## Paths that are bogus -/

/-- A path that begins with two slashes has no directory. -/
def Bogus (path : Bytes) : Prop := [slash, slash] <+: path

instance (path : Bytes) : Decidable (Bogus path) := inferInstanceAs (Decidable (_ <+: _))

/-- What the path of a directory looks like. -/
structure Sound (key : Bytes) : Prop where
  head : key.head? = some slash
  ends : hasTrailingSlash key = true
  ok : ¬Bogus key

/-- The root is a directory, and so is the parent of every other one. -/
structure Grown (dirs : PathToDir) : Prop where
  root : [slash] ∈ dirs
  sound : ∀ key ∈ dirs, Sound key
  closed : ∀ key ∈ dirs, key ≠ [slash] → parent key ∈ dirs

section Paths

variable {path : Bytes}

theorem parent_of_filename_eq_nil (h : filename path = []) : parent path = [] := by
  by_contra hne
  have heq : path.rdropWhile (· = slash) = parent path := by
    have hsplit := @List.rdropWhile_append_rtakeWhile _ (fun b : UInt8 => decide (b ≠ slash))
      (path.rdropWhile (· = slash))
    have hnil : (path.rdropWhile (· = slash)).rtakeWhile (· ≠ slash) = [] := h
    rw [hnil, append_nil] at hsplit
    exact hsplit.symm
  have hne' : path.rdropWhile (· = slash) ≠ [] := heq ▸ hne
  have hlast := rdropWhile_last_not (fun b : UInt8 => decide (b = slash)) path hne'
  rw [decide_eq_true_eq] at hlast
  have hslash := hasTrailingSlash_parent hne
  rw [← heq] at hslash
  unfold hasTrailingSlash at hslash
  rw [decide_eq_true_eq, List.getLast?_eq_getLast_of_ne_nil hne'] at hslash
  exact hlast (some.inj hslash)

theorem head_of_parent_eq_nil (h : parent path = []) (hhead : path.head? = some slash) :
    filename path = [] := by
  by_contra hne
  have heq := path_eq path
  rw [h, nil_append] at heq
  rw [← heq, List.head?_append_of_ne_nil _ hne] at hhead
  exact notMem_filename path (mem_of_head? hhead)

/-- A path of slashes is that of the root, or bogus. -/
theorem filename_ne_nil (hhead : path.head? = some slash) (hok : ¬Bogus path)
    (hroot : path ≠ [slash]) : filename path ≠ [] := by
  intro hfilename
  have heq := path_eq path
  rw [parent_of_filename_eq_nil hfilename, hfilename, nil_append, nil_append] at heq
  cases path with
  | nil => cases hhead
  | cons first rest =>
    obtain rfl : first = slash := some.inj hhead
    cases rest with
    | nil => exact hroot rfl
    | cons second rest =>
      have hsecond : second ∈ (slash :: second :: rest).rtakeWhile (· = slash) := by
        rw [heq]
        exact mem_cons_of_mem _ mem_cons_self
      have hsame := mem_rtakeWhile_imp hsecond
      rw [decide_eq_true_eq] at hsame
      exact hok ⟨rest, by rw [hsame]; rfl⟩

theorem sound_parent (hhead : path.head? = some slash) (hok : ¬Bogus path) (hroot : path ≠ [slash]) :
    Sound (parent path) := by
  have hne : parent path ≠ [] := fun h =>
    filename_ne_nil hhead hok hroot (head_of_parent_eq_nil h hhead)
  refine ⟨?_, hasTrailingSlash_parent hne, fun hbogus => hok (hbogus.trans (parent_le path))⟩
  obtain ⟨rest, hrest⟩ := parent_le path
  rw [← hrest, List.head?_append_of_ne_nil _ hne] at hhead
  exact hhead

theorem bogus_parent (h : Bogus path) : parent path = [] ∨ Bogus (parent path) := by
  by_contra hnot
  push Not at hnot
  obtain ⟨hne, hok⟩ := hnot
  obtain ⟨rest, rfl⟩ := h
  have hfilename : filename ([slash, slash] ++ rest) ≠ [] := mt parent_of_filename_eq_nil hne
  have heq := path_eq ([slash, slash] ++ rest)
  cases hparent : parent ([slash, slash] ++ rest) with
  | nil => exact hne hparent
  | cons first above =>
    rw [hparent] at heq
    obtain rfl : first = slash := (cons.inj heq).1
    cases above with
    | nil =>
      have htail : filename ([slash, slash] ++ rest) ++
          ([slash, slash] ++ rest).rtakeWhile (· = slash) = slash :: rest := (cons.inj heq).2
      have hhead := congrArg head? htail
      rw [List.head?_append_of_ne_nil _ hfilename] at hhead
      exact notMem_filename _ (mem_of_head? hhead)
    | cons second above =>
      obtain rfl : second = slash := (cons.inj (cons.inj heq).2).1
      exact hok (hparent ▸ ⟨above, rfl⟩)

end Paths

section Finding

variable {src : Stat} {dirs : PathToDir} {path : Bytes}

theorem findOrBuildDirWithin_of_sound (hgrown : Grown dirs) (fuel : Nat) (hpath : Sound path)
    (hfuel : path.length < fuel) : ∃ dirs', findOrBuildDirWithin src fuel dirs path = some dirs' := by
  induction fuel generalizing path with
  | zero => omega
  | succ fuel ih =>
    unfold findOrBuildDirWithin
    by_cases hthere : path ∈ dirs
    · exact ⟨dirs, if_pos hthere⟩
    · have hroot : path ≠ [slash] := fun heq => hthere (heq ▸ hgrown.root)
      have hname := filename_ne_nil hpath.head hpath.ok hroot
      have habove := sound_parent hpath.head hpath.ok hroot
      have hne : parent path ≠ [] := by
        intro hnil
        have hhead := habove.head
        rw [hnil] at hhead
        cases hhead
      have hlt := length_parent_lt hname
      obtain ⟨mid, hmid⟩ := ih habove (by omega)
      rw [if_neg hthere, if_neg hne, if_neg hname, hmid]
      exact ⟨_, rfl⟩

theorem findOrBuildDirWithin_of_bogus (hgrown : Grown dirs) (fuel : Nat)
    (hpath : path = [] ∨ Bogus path) : findOrBuildDirWithin src fuel dirs path = none := by
  induction fuel generalizing path with
  | zero => rfl
  | succ fuel ih =>
    have hthere : path ∉ dirs := by
      intro hmem
      obtain rfl | hbogus := hpath
      · exact nomatch (hgrown.sound _ hmem).head
      · exact (hgrown.sound _ hmem).ok hbogus
    have hnone : parent path = [] ∨ findOrBuildDirWithin src fuel dirs (parent path) = none := by
      obtain rfl | hbogus := hpath
      · exact .inl rfl
      · exact (bogus_parent hbogus).imp_right fun h => ih (.inr h)
    unfold findOrBuildDirWithin
    rw [if_neg hthere]
    obtain hnil | hnone := hnone
    · rw [if_pos hnil]
    · rw [hnone]
      simp

theorem Grown.addDummy (h : Grown dirs) (hends : hasTrailingSlash path)
    (hparent : parent path ∈ dirs) : Grown (addDummy src dirs path) := by
  have habove := h.sound _ hparent
  refine ⟨(mem_addDummy hparent).mpr (.inr h.root), ?_, ?_⟩
  · intro key hkey
    obtain rfl | hkey := (mem_addDummy hparent).mp hkey
    · refine ⟨?_, hends, ?_⟩
      · obtain ⟨rest, hrest⟩ := parent_le key
        rw [← hrest, List.head?_append, habove.head]
        rfl
      · intro hbogus
        obtain hnil | hbogus := bogus_parent hbogus
        · have hhead := habove.head
          rw [hnil] at hhead
          cases hhead
        · exact habove.ok hbogus
    · exact h.sound key hkey
  · intro key hkey hne
    obtain rfl | hkey := (mem_addDummy hparent).mp hkey
    · exact (mem_addDummy hparent).mpr (.inr hparent)
    · exact (mem_addDummy hparent).mpr (.inr (h.closed key hkey hne))

theorem Builds.grown {dirs' : PathToDir} (h : Builds src dirs path dirs')
    (hends : hasTrailingSlash path) (hgrown : Grown dirs) : Grown dirs' :=
  h.keeps hends hgrown fun _ _ _ hends' _ hparent _ hmid => hmid.addDummy hends' hparent

end Finding

/-! ## Placing an entry -/

/-- The entry replaces a directory of its name, or comes last. -/
inductive Placed (old : List DirEntry) (e : DirEntry) : List DirEntry → Nat → Prop
  | replaced {before after : List DirEntry} {found : DirEntry} (split : old = before ++ found :: after)
      (directory : found.st.type = .directory) (name : found.name = e.name)
      (type : e.st.type = .directory) : Placed old e (before ++ e :: after) before.length
  | appended (new : e.st.type = .directory →
      ∀ other ∈ old, other.st.type = .directory → other.name ≠ e.name) :
      Placed old e (old ++ [e]) old.length

theorem placed (dir : Dir) (name : Bytes) (st : Stat) (aruid : UInt32) :
    Placed dir.entries ⟨name, st, aruid⟩ (dir.place name st aruid).1.entries
      (dir.place name st aruid).2 := by
  unfold Dir.place
  split_ifs with htype
  · cases hfound : dir.entries.findIdx? fun e => e.st.type = .directory ∧ e.name = name with
    | none =>
      refine .appended fun _ other hother hdirectory hname => ?_
      have hnot := List.findIdx?_eq_none_iff.mp hfound other hother
      rw [decide_eq_false_iff_not] at hnot
      exact hnot ⟨hdirectory, hname⟩
    | some i =>
      obtain ⟨hi, hpos, -⟩ := List.findIdx?_eq_some_iff_getElem.mp hfound
      rw [decide_eq_true_eq] at hpos
      have hsplit : dir.entries =
          dir.entries.take i ++ dir.entries[i] :: dir.entries.drop (i + 1) := by
        rw [← drop_eq_getElem_cons hi, take_append_drop]
      have hlength : (dir.entries.take i).length = i := length_take_of_le (Nat.le_of_lt hi)
      have hmodify : (dir.entries.modify i fun e => { e with st, aruid }) =
          dir.entries.take i ++ ⟨name, st, aruid⟩ :: dir.entries.drop (i + 1) := by
        rw [modify_eq_take_cons_drop hi]
        refine congrArg (dir.entries.take i ++ · :: dir.entries.drop (i + 1)) ?_
        rw [← hpos.2]
      have hplaced := Placed.replaced (e := ⟨name, st, aruid⟩) hsplit hpos.1 hpos.2 htype
      dsimp only
      rw [hmodify]
      rwa [hlength] at hplaced
  · exact .appended fun h => absurd h htype

theorem Placed.getElem? (h : Placed old e new i) (j : Nat)
    : new[j]? = if j = i then some e else old[j]? := by
  cases h with
  | @replaced before after found split directory name type =>
    subst split
    split_ifs with hj
    · rw [hj, List.getElem?_append_right (Nat.le_refl _), Nat.sub_self]
      rfl
    · by_cases hlt : j < before.length
      · rw [List.getElem?_append_left hlt, List.getElem?_append_left hlt]
      · rw [List.getElem?_append_right (by omega), List.getElem?_append_right (by omega)]
        obtain ⟨n, hn⟩ : ∃ n, j - before.length = n + 1 := ⟨j - before.length - 1, by omega⟩
        rw [hn, List.getElem?_cons_succ, List.getElem?_cons_succ]
  | appended new =>
    split_ifs with hj
    · rw [hj, List.getElem?_concat_length]
    · by_cases hlt : j < old.length
      · rw [List.getElem?_append_left hlt]
      · rw [List.getElem?_eq_none (by rw [length_append, length_singleton]; omega),
          List.getElem?_eq_none (by omega)]

/-- What was at the place of the entry. -/
theorem Placed.before (h : Placed old e new i) : (old[i]? = none ∧ (e.st.type = .directory →
      ∀ other ∈ old, other.st.type = .directory → other.name ≠ e.name)) ∨
    ∃ found, old[i]? = some found ∧ found.st.type = .directory ∧ found.name = e.name ∧
      e.st.type = .directory := by
  cases h with
  | @replaced before after found split directory name type =>
    refine .inr ⟨found, ?_, directory, name, type⟩
    rw [split, List.getElem?_append_right (Nat.le_refl _), Nat.sub_self]
    rfl
  | appended new => exact .inl ⟨List.getElem?_eq_none (Nat.le_refl _), new⟩

/-! ## The table of uids -/

def recorded (table : List (Option (Bytes × Nat))) (uid : Nat) : Option (Bytes × Nat) :=
  (table[uid]?).join

theorem recorded_recordEntry (table : List (Option (Bytes × Nat))) (haruid : aruid ≠ syntheticArUID)
    (place : Bytes × Nat) (uid : Nat) : recorded (recordEntry table aruid place) uid =
      if uid = aruid.toNat then some place else recorded table uid := by
  have hnext : (aruid + 1).toNat = aruid.toNat + 1 := by
    have hlt : aruid.toNat < 2 ^ 32 - 1 := by
      have hne : aruid.toNat ≠ 2 ^ 32 - 1 := fun h => haruid (UInt32.toNat_inj.mp h)
      have := aruid.toNat_lt
      omega
    rw [UInt32.toNat_add, UInt32.toNat_one, Nat.mod_eq_of_lt (by omega)]
  have hset : ∀ table : List (Option (Bytes × Nat)), aruid.toNat < table.length →
      recorded (table.set aruid.toNat (some place)) uid =
        if uid = aruid.toNat then some place else recorded table uid := by
    intro table hlt
    unfold recorded
    split_ifs with huid
    · rw [huid, List.getElem?_set_self hlt]
      rfl
    · rw [List.getElem?_set_ne (Ne.symm huid)]
  unfold recordEntry
  dsimp only
  by_cases hlength : table.length ≤ aruid.toNat
  · rw [if_pos hlength, hset]
    · by_cases huid : uid = aruid.toNat
      · rw [if_pos huid, if_pos huid]
      · rw [if_neg huid, if_neg huid]
        unfold recorded
        rw [take_of_length_le (by rw [length_append, length_replicate, hnext]; omega)]
        by_cases hlt : uid < table.length
        · rw [List.getElem?_append_left hlt]
        · rw [List.getElem?_append_right (by omega), List.getElem?_eq_none (by omega : table.length ≤ uid)]
          cases hget : (replicate ((aruid + 1).toNat - table.length) (none : Option (Bytes × Nat)))[uid - table.length]? with
          | none => rfl
          | some entry => rw [eq_of_mem_replicate (mem_of_getElem? hget)]; rfl
    · rw [length_take, length_append, length_replicate, hnext]
      omega
  · rw [if_neg hlength]
    exact hset table (by omega)

/-! ## Reading a header -/

/-- The path and the attributes of an entry that the index keeps. -/
def Header.kept (h : Header) : Option (Bytes × Stat) := h.path.filter fun entry => ¬Bogus entry.1

/-- The path of a directory that a header names. -/
def ownPath (path : Bytes) : Bytes := if hasTrailingSlash path then path else path ++ [slash]

theorem fixup_type (h : Header) (src st : Stat) : (h.fixup src st).type = st.type := by
  unfold Header.fixup
  dsimp only
  split_ifs <;> rfl

theorem fixup_size (h : Header) (src st : Stat) : (h.fixup src st).size = st.size := by
  unfold Header.fixup
  dsimp only
  split_ifs <;> rfl

theorem head_of_path {h : Header} (hpath : h.path = some (path, stat)) :
    h.stat = some stat ∧ path.head? = some slash ∧ path ≠ [slash] := by
  unfold Header.path at hpath
  cases hstat : h.stat with
  | none =>
    rw [hstat] at hpath
    cases hpath
  | some stat' =>
    cases hname : h.pathname with
    | none =>
      rw [hstat, hname] at hpath
      cases hpath
    | some pathname =>
      rw [hstat, hname] at hpath
      simp only [ite_none_left_eq_some, some.injEq, Prod.mk.injEq] at hpath
      obtain ⟨-, hroot, -, rfl, rfl⟩ := hpath
      refine ⟨rfl, ?_, hroot⟩
      split_ifs with hhead
      · exact hhead
      · rfl

section Reading

variable {src : Stat} {r : Reading} {h : Header} {path : Bytes} {stat : Stat}

theorem readHeader_passed (hgrown : Grown r.index.pathToDir)
    (hparent : r.parentDir ∈ r.index.pathToDir) (hkept : h.kept = none) :
    r.readHeader src h = { r with aruid := r.aruid + 1 } := by
  unfold Reading.readHeader
  cases hpath : h.path with
  | none => rfl
  | some entry =>
    obtain ⟨path, stat⟩ := entry
    unfold Header.kept at hkept
    rw [hpath] at hkept
    have hbogus : Bogus path := by simpa using hkept
    dsimp only
    have hne : r.parentDir ≠ parent path := by
      intro heq
      rw [heq] at hparent
      obtain hnil | hbogus := bogus_parent hbogus
      · have hhead := (hgrown.sound _ hparent).head
        rw [hnil] at hhead
        cases hhead
      · exact (hgrown.sound _ hparent).ok hbogus
    rw [if_pos hne, findOrBuildDir, findOrBuildDirWithin_of_bogus hgrown _ (bogus_parent hbogus)]

theorem readHeader_kept (hgrown : Grown r.index.pathToDir)
    (hparent : r.parentDir ∈ r.index.pathToDir) (hkept : h.kept = some (path, stat)) :
    Sound (parent path) ∧ filename path ≠ [] ∧
    ∃ dirs, Builds src r.index.pathToDir (parent path) dirs ∧ r.readHeader src h =
        { index := { r.index with pathToDir := dirs }.addEntry src h path stat (r.aruid + 1)
          aruid := r.aruid + 1
          parentDir := parent path } := by
  obtain ⟨hpath, hok⟩ := filter_eq_some_iff.mp hkept
  rw [decide_eq_true_eq] at hok
  obtain ⟨-, hhead, hroot⟩ := head_of_path hpath
  have hsound := sound_parent hhead hok hroot
  refine ⟨hsound, filename_ne_nil hhead hok hroot, ?_⟩
  unfold Reading.readHeader
  rw [hpath]
  dsimp only
  by_cases hsame : r.parentDir = parent path
  · rw [if_neg (not_not.mpr hsame)]
    exact ⟨_, .found (hsame ▸ hparent), rfl⟩
  · obtain ⟨dirs, hdirs⟩ : ∃ dirs, findOrBuildDirWithin src ((parent path).length + 1)
        r.index.pathToDir (parent path) = some dirs :=
      findOrBuildDirWithin_of_sound hgrown _ hsound (Nat.lt_succ_self _)
    rw [if_pos hsame, findOrBuildDir, hdirs]
    exact ⟨dirs, builds_within _ hdirs, rfl⟩

theorem addDirectory_spec (index : Index) (path : Bytes) :
    (∀ key, key ∈ (index.addDirectory path).pathToDir ↔
        key ∈ index.pathToDir ∨ key = ownPath path) ∧
      (∀ key, entriesOf (index.addDirectory path).pathToDir key = entriesOf index.pathToDir key) ∧
      (index.addDirectory path).entryByUID = index.entryByUID := by
  unfold Index.addDirectory ownPath
  dsimp only
  generalize (if hasTrailingSlash path = true then path else path ++ [slash]) = own
  split_ifs with hmem
  · refine ⟨fun key => (or_iff_left_of_imp ?_).symm, fun _ => rfl, rfl⟩
    rintro rfl
    exact hmem
  · refine ⟨fun key => ?_, fun key => ?_, rfl⟩
    · rw [mem_insert]
      exact or_comm
    · rw [entriesOf_insert]
      split_ifs with hkey
      · rw [hkey, entriesOf_of_notMem hmem]
      · rfl

/-- An entry goes to its parent, and a directory is one of the keys then. -/
theorem addEntry_spec (src : Stat) (h : Header) {index : Index} (hparent : parent path ∈ index.pathToDir)
    (stat : Stat) (aruid : UInt32) : ∃ entries i, Placed (entriesOf index.pathToDir (parent path))
        ⟨filename path, h.fixup src stat, aruid⟩ entries i ∧
      (∀ key, key ∈ (index.addEntry src h path stat aruid).pathToDir ↔
        key ∈ index.pathToDir ∨ (stat.type = .directory ∧ key = ownPath path)) ∧
      (∀ key, entriesOf (index.addEntry src h path stat aruid).pathToDir key =
        if key = parent path then entries else entriesOf index.pathToDir key) ∧
      (index.addEntry src h path stat aruid).entryByUID =
        recordEntry index.entryByUID aruid (parent path, i) := by
  obtain ⟨dir, hdir⟩ := exists_lookup hparent
  refine ⟨(dir.place (filename path) (h.fixup src stat) aruid).1.entries,
    (dir.place (filename path) (h.fixup src stat) aruid).2, ?_, ?_⟩
  · rw [entriesOf_of_lookup hdir]
    exact placed dir _ _ _
  · unfold Index.addEntry
    rw [hdir]
    dsimp only
    have hsymlink : ∀ index : Index,
        (if stat.type = .symlink then index.addSymlink aruid h.symlink else index).pathToDir =
            index.pathToDir ∧
          (if stat.type = .symlink then index.addSymlink aruid h.symlink else index).entryByUID =
            index.entryByUID := by
      intro index
      split_ifs
      · exact ⟨rfl, rfl⟩
      · exact ⟨rfl, rfl⟩
    by_cases htype : stat.type = .directory
    · rw [if_pos htype]
      obtain ⟨hmem, hentries, htable⟩ := addDirectory_spec
        (if stat.type = .symlink then Index.addSymlink _ aruid h.symlink else _) path
      rw [(hsymlink _).1] at hmem hentries
      rw [(hsymlink _).2] at htable
      refine ⟨fun key => ?_, fun key => ?_, htable⟩
      · rw [hmem]
        exact or_congr (mem_insert_of_mem hparent _) (and_iff_right htype).symm
      · rw [hentries]
        exact entriesOf_insert _ _ _ _
    · rw [if_neg htype, (hsymlink _).1, (hsymlink _).2]
      refine ⟨fun key => ?_, fun key => entriesOf_insert _ _ _ _, rfl⟩
      rw [mem_insert_of_mem hparent]
      exact (or_iff_left fun hnot => htype hnot.1).symm

end Reading

end WinCommander.VFS.ArcLA
