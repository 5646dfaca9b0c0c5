/-
  The sizes of directories.

  In a `Tree` every directory has one entry for it in its parent. There the recursion over the
  directories finds for each the sizes of the regular files in it and below it (`updated`), as far
  as 64 bits tell them, and changes nothing else.
-/
import WinCommander.VFS.ArcLA.Contents

namespace WinCommander.VFS.ArcLA

open Library List
open Library.Path (slash)
open Utility.PathManip

/-- The sizes of the regular files among the entries. -/
def regularSize (entries : List DirEntry) : Int :=
  ((entries.filter fun e => e.st.type = .regular).map fun e => e.st.size.toInt).sum

/-- The sizes of the regular files in a directory and below it. -/
def below (dirs : PathToDir) (key : Bytes) : Int :=
  ∑ other ∈ dirs.keys.toFinset with key <+: other, regularSize (entriesOf dirs other)

/-! ## Sizes of entries -/

theorem regularSize_append (first second : List DirEntry) :
    regularSize (first ++ second) = regularSize first + regularSize second := by
  unfold regularSize
  rw [filter_append, map_append, sum_append]

theorem regularSize_of_directories (h : ∀ e ∈ entries, e.st.type = .directory)
    : regularSize entries = 0 := by
  unfold regularSize
  rw [filter_eq_nil_iff.mpr, map_nil, sum_nil]
  intro e he
  rw [decide_eq_true_eq, h e he]
  exact nofun

theorem sum_filter_append (p : α → Prop) [DecidablePred p] (f : α → Int) (xs : List α) (x : α) :
    (((xs ++ [x]).filter fun x => p x).map f).sum =
      ((xs.filter fun x => p x).map f).sum + if p x then f x else 0 := by
  rw [filter_append, map_append, sum_append]
  split_ifs with h
  · rw [filter_cons_of_pos (by simpa using h), filter_nil]
    exact congrArg _ sum_singleton
  · rw [filter_cons_of_neg (by simpa using h)]
    rfl

theorem regularSize_concat (entries : List DirEntry) (e : DirEntry) : regularSize (entries ++ [e]) =
      regularSize entries + if e.st.type = .regular then e.st.size.toInt else 0 :=
  sum_filter_append (fun e : DirEntry => e.st.type = .regular) _ entries e

/-! ## Trees -/

/-- Each directory but the root has one entry for it, in its parent, and each entry of a directory
    is for one. -/
structure Tree (dirs : PathToDir) : Prop where
  grown : Grown dirs
  there : ∀ key, ∀ e ∈ entriesOf dirs key, e.st.type = .directory → child key e.name ∈ dirs
  named : ∀ key ∈ dirs, key ≠ [slash] → ∃ e ∈ entriesOf dirs (parent key),
    e.st.type = .directory ∧ child (parent key) e.name = key
  distinct : ∀ key, ((entriesOf dirs key).map DirEntry.name).Nodup
  components : ∀ key, ∀ e ∈ entriesOf dirs key, Component e.name

section Trees

variable {dirs : PathToDir} {path key : Bytes}

theorem Tree.eq_of_name (h : Tree dirs) (he : e ∈ entriesOf dirs key)
    (he' : e' ∈ entriesOf dirs key) (hname : e.name = e'.name) : e = e' :=
  inj_on_of_nodup_map (h.distinct key) he he' hname

/-- What is below a directory is at or below one of the directories in it. -/
theorem Tree.below_entry (h : Tree dirs) (hpath : path ∈ dirs) (hkey : key ∈ dirs)
    (hle : path <+: key) (hne : key ≠ path) :
    ∃ e ∈ entriesOf dirs path, e.st.type = .directory ∧ child path e.name <+: key := by
  induction hlength : key.length using Nat.strong_induction_on generalizing key with
  | _ n ih =>
    by_cases hroot : key = [slash]
    · subst hroot
      rcases prefix_concat_iff.mp (show path <+: [] ++ [slash] from hle) with heq | hnil
      · exact absurd heq.symm hne
      · have hhead := (h.grown.sound path hpath).head
        rw [prefix_nil.mp hnil] at hhead
        cases hhead
    · obtain ⟨e, he, hdirectory, hchild⟩ := h.named key hkey hroot
      have hparent := h.grown.closed key hkey hroot
      rw [← hchild] at hle
      rcases prefix_child_cases (h.components _ e he) (h.grown.sound path hpath).ends hle with
        heq | hle
      · exact absurd (heq.trans hchild).symm hne
      · by_cases habove : parent key = path
        · rw [habove] at he hchild
          exact ⟨e, he, hdirectory, hchild ▸ prefix_rfl⟩
        · have hlt : (parent key).length < n := by
            have hlen := congrArg List.length hchild
            unfold child at hlen
            rw [length_append, length_append, length_singleton] at hlen
            omega
          obtain ⟨e', he', hdirectory', hle'⟩ := ih _ hlt hparent hle habove rfl
          exact ⟨e', he', hdirectory', hle'.trans (parent_le key)⟩

theorem not_child_le : ¬child path name <+: path :=
  fun h => absurd h.length_le (Nat.not_le.mpr length_child)

theorem list_sum_finset_sum (entries : List α) (s : Finset β) (f : α → β → Int) :
    (entries.map fun e => ∑ b ∈ s, f e b).sum = ∑ b ∈ s, (entries.map fun e => f e b).sum := by
  induction entries with
  | nil => simp
  | cons e rest ih => simp only [map_cons, sum_cons, ih, Finset.sum_add_distrib]

theorem sum_of_unique {p : α → Prop} [DecidablePred p] (weight : Int) {xs : List α}
    (hnodup : xs.Nodup) (hx : x ∈ xs) (hp : p x) (hunique : ∀ y ∈ xs, p y → y = x) :
    (xs.map fun y => if p y then weight else 0).sum = weight := by
  induction xs with
  | nil => exact absurd hx not_mem_nil
  | cons y rest ih =>
    obtain ⟨hnot, hnodup⟩ := nodup_cons.mp hnodup
    rw [map_cons, sum_cons]
    by_cases hy : p y
    · have hrest : (rest.map fun y => if p y then weight else 0).sum = 0 := by
        refine sum_eq_zero fun n hn => ?_
        obtain ⟨z, hz, rfl⟩ := mem_map.mp hn
        refine if_neg fun hpz => hnot ?_
        rw [hunique y mem_cons_self hy, ← hunique z (mem_cons_of_mem _ hz) hpz]
        exact hz
      rw [if_pos hy, hrest, Int.add_zero]
    · have hne : x ≠ y := fun heq => hy (heq ▸ hp)
      rw [if_neg hy, Int.zero_add]
      exact ih hnodup ((mem_cons.mp hx).resolve_left hne)
        fun z hz => hunique z (mem_cons_of_mem _ hz)

/-- The directories in a directory. -/
def directoriesIn (dirs : PathToDir) (key : Bytes) : List DirEntry :=
  (entriesOf dirs key).filter fun e => e.st.type = .directory

theorem mem_directoriesIn :
    e ∈ directoriesIn dirs key ↔ e ∈ entriesOf dirs key ∧ e.st.type = .directory := by
  unfold directoriesIn
  rw [mem_filter, decide_eq_true_eq]

/-- What is below a directory is the directory itself, or below one of those in it. -/
theorem Tree.sum_directoriesIn (h : Tree dirs) (hpath : path ∈ dirs) (hkey : key ∈ dirs)
    (weight : Int) : (if path <+: key then weight else 0) = (if key = path then weight else 0) +
      ((directoriesIn dirs path).map fun e => if child path e.name <+: key then weight else 0).sum := by
  have hnone : (∀ e ∈ directoriesIn dirs path, ¬child path e.name <+: key) →
      ((directoriesIn dirs path).map fun e =>
        if child path e.name <+: key then weight else 0).sum = 0 := by
    intro hnot
    refine sum_eq_zero fun n hn => ?_
    obtain ⟨e, he, rfl⟩ := mem_map.mp hn
    exact if_neg (hnot e he)
  by_cases heq : key = path
  · subst heq
    rw [if_pos prefix_rfl, if_pos rfl, hnone fun e _ => not_child_le, Int.add_zero]
  · rw [if_neg heq, Int.zero_add]
    by_cases hle : path <+: key
    · obtain ⟨e, he, hdirectory, hbelow⟩ := h.below_entry hpath hkey hle heq
      have hnodup : (directoriesIn dirs path).Nodup := (List.Nodup.of_map _ (h.distinct path)).filter _
      rw [if_pos hle, sum_of_unique (p := fun e : DirEntry => child path e.name <+: key) weight
        hnodup (mem_directoriesIn.mpr ⟨he, hdirectory⟩) hbelow]
      intro e' he' hbelow'
      obtain ⟨he', -⟩ := mem_directoriesIn.mp he'
      exact h.eq_of_name he' he (name_unique (h.components _ _ he') (h.components _ _ he) hbelow' hbelow)
    · rw [if_neg hle, hnone]
      exact fun e _ hbelow => hle (prefix_child.trans hbelow)

/-- The size of a directory is that of its files and of the directories in it. -/
theorem Tree.below_eq (h : Tree dirs) (hpath : path ∈ dirs) :
    below dirs path = regularSize (entriesOf dirs path) +
      ((directoriesIn dirs path).map fun e => below dirs (child path e.name)).sum := by
  have hown : (∑ other ∈ dirs.keys.toFinset,
      if other = path then regularSize (entriesOf dirs other) else 0) =
        regularSize (entriesOf dirs path) := by
    rw [Finset.sum_ite_eq_of_mem' _ _ _ (mem_toFinset.mpr hpath)]
  unfold below
  simp only [Finset.sum_filter]
  rw [list_sum_finset_sum, ← hown, ← Finset.sum_add_distrib]
  refine Finset.sum_congr rfl fun other hother => ?_
  exact h.sum_directoriesIn hpath (mem_toFinset.mp hother) _

end Trees

/-! ## What stays -/

/-- An entry is only given a size, and only if it is a directory. -/
structure Same (e e' : DirEntry) : Prop where
  name : e'.name = e.name
  aruid : e'.aruid = e.aruid
  type : e'.st.type = e.st.type
  stat : e.st.type ≠ .directory → e'.st = e.st

theorem Same.refl (e : DirEntry) : Same e e := ⟨rfl, rfl, rfl, fun _ => rfl⟩

theorem Same.trans (h : Same e e') (h' : Same e' e'') : Same e e'' where
  name := h'.name.trans h.name
  aruid := h'.aruid.trans h.aruid
  type := h'.type.trans h.type
  stat hnot := (h'.stat (h.type ▸ hnot)).trans (h.stat hnot)

/-- The directories are the same but for sizes. -/
structure Resized (dirs dirs' : PathToDir) : Prop where
  keys : ∀ key, key ∈ dirs' ↔ key ∈ dirs
  entries : ∀ key, List.Forall₂ Same (entriesOf dirs key) (entriesOf dirs' key)

section Resizing

variable {dirs dirs' : PathToDir} {update : PathToDir → Bytes → PathToDir × UInt64} {path : Bytes}

theorem forall₂_same_refl (entries : List DirEntry) : List.Forall₂ Same entries entries :=
  forall₂_same.mpr fun e _ => Same.refl e

theorem Resized.refl (dirs : PathToDir) : Resized dirs dirs :=
  ⟨fun _ => Iff.rfl, fun _ => forall₂_same_refl _⟩

theorem forall₂_same_trans (h : List.Forall₂ Same first second)
    (h' : List.Forall₂ Same second third) : List.Forall₂ Same first third := by
  induction h generalizing third with
  | nil => exact h'
  | cons hsame _ ih =>
    cases h' with
    | cons hsame' hrest => exact .cons (hsame.trans hsame') (ih hrest)

theorem Resized.trans (h : Resized dirs dirs') (h' : Resized dirs' dirs'') : Resized dirs dirs'' :=
  ⟨fun key => (h'.keys key).trans (h.keys key),
    fun key => forall₂_same_trans (h.entries key) (h'.entries key)⟩

section
variable (hupdate : ∀ dirs path, Resized dirs (update dirs path).1)
include hupdate

theorem resized_sizeEntry (dirs : PathToDir) (e : DirEntry) :
    Resized dirs (sizeEntry update path dirs e).1 ∧ Same e (sizeEntry update path dirs e).2.1 := by
  unfold sizeEntry
  cases htype : e.st.type with
  | directory =>
    split_ifs
    · exact ⟨hupdate dirs _, rfl, rfl, rfl, fun hnot => absurd htype hnot⟩
    · exact ⟨Resized.refl dirs, Same.refl e⟩
  | regular | symlink | other => exact ⟨Resized.refl dirs, Same.refl e⟩

theorem resized_sizeEntries (dirs : PathToDir) (entries : List DirEntry) :
    Resized dirs (sizeEntries update path dirs entries).1 ∧
      List.Forall₂ Same entries (sizeEntries update path dirs entries).2.1 := by
  induction entries generalizing dirs with
  | nil => exact ⟨Resized.refl dirs, .nil⟩
  | cons e rest ih =>
    obtain ⟨hfirst, hsame⟩ := @resized_sizeEntry update path hupdate dirs e
    obtain ⟨hrest, hsames⟩ := ih (sizeEntry update path dirs e).1
    exact ⟨hfirst.trans hrest, .cons hsame hsames⟩

end

theorem resized_updateDirectorySizeWithin (fuel : Nat) (dirs : PathToDir) (path : Bytes) :
    Resized dirs (updateDirectorySizeWithin fuel dirs path).1 := by
  induction fuel generalizing dirs path with
  | zero => exact Resized.refl dirs
  | succ fuel ih =>
    unfold updateDirectorySizeWithin
    cases hdir : dirs.lookup path with
    | none => exact Resized.refl dirs
    | some dir =>
      obtain ⟨hrest, hsames⟩ :=
        @resized_sizeEntries (updateDirectorySizeWithin fuel) path ih dirs dir.entries
      have hthere : path ∈ dirs := AList.lookup_isSome.mp (Option.isSome_of_eq_some hdir)
      refine ⟨fun key => ?_, fun key => ?_⟩
      · rw [mem_insert_of_mem ((hrest.keys path).mpr hthere), hrest.keys]
      · rw [entriesOf_insert]
        split_ifs with hkey
        · rw [hkey, entriesOf_of_lookup hdir]
          exact hsames
        · exact hrest.entries key

theorem resized_updateDirectorySize (dirs : PathToDir) (path : Bytes) :
    Resized dirs (updateDirectorySize dirs path).1 := resized_updateDirectorySizeWithin _ _ _

theorem regularSize_of_same (h : List.Forall₂ Same entries entries') :
    regularSize entries' = regularSize entries := by
  induction h with
  | nil => rfl
  | @cons e e' rest rest' hsame _ ih =>
    rw [← singleton_append, ← @List.singleton_append _ e, regularSize_append,
      regularSize_append, ih]
    refine congrArg (· + regularSize rest) ?_
    by_cases hdirectory : e.st.type = .directory
    · rw [regularSize_of_directories, regularSize_of_directories]
      · exact fun other hother => mem_singleton.mp hother ▸ hdirectory
      · exact fun other hother => mem_singleton.mp hother ▸ hsame.type.trans hdirectory
    · unfold regularSize
      rw [filter_singleton, filter_singleton, hsame.stat hdirectory]
      by_cases hregular : e.st.type = .regular
      · simp [hregular, hsame.stat hdirectory]
      · simp [hregular]

theorem Resized.below (h : Resized dirs dirs') (key : Bytes) : below dirs' key = below dirs key := by
  have hkeys : dirs'.keys.toFinset = dirs.keys.toFinset := by
    ext other
    rw [mem_toFinset, mem_toFinset]
    exact h.keys other
  unfold ArcLA.below
  rw [hkeys]
  exact Finset.sum_congr rfl fun other _ => regularSize_of_same (h.entries other)

end Resizing

/-! ## What is updated -/

section Updating

variable (base : PathToDir)

/-- A directory is told its size, in 64 bits. -/
def sizedEntry (key : Bytes) (e : DirEntry) : DirEntry :=
  if e.st.type = .directory then
    { e with st := { e.st with size := (UInt64.ofInt (below base (child key e.name))).toInt64 } }
  else e

def sizedDir (key : Bytes) (dir : Dir) : Dir :=
  { dir with
    entries := dir.entries.map (sizedEntry base key)
    contentSize := UInt64.ofInt (below base key) }

/-- What an entry adds to the size of its directory. -/
def entrySize (key : Bytes) (e : DirEntry) : Int :=
  match e.st.type with
  | .directory => below base (child key e.name)
  | .regular => e.st.size.toInt
  | .symlink | .other => 0

variable {base} {path key : Bytes}

theorem sum_entrySize (entries : List DirEntry) :
    (entries.map (entrySize base path)).sum = regularSize entries +
      ((entries.filter fun e => e.st.type = .directory).map fun e =>
        below base (child path e.name)).sum := by
  induction entries with
  | nil => rfl
  | cons e rest ih =>
    rw [map_cons, sum_cons, ih, ← singleton_append, regularSize_append,
      filter_append, map_append, sum_append]
    have hone : entrySize base path e = regularSize [e] +
        (([e].filter fun e => e.st.type = .directory).map fun e =>
          below base (child path e.name)).sum := by
      unfold entrySize regularSize
      cases htype : e.st.type <;> simp [htype]
    omega

theorem toNat_ofInt (n : Int) : ((UInt64.ofInt n).toNat : Int) = n % 2 ^ 64 := by
  unfold UInt64.ofInt
  have hlt : (n % 2 ^ 64).toNat < 2 ^ 64 := by omega
  rw [UInt64.toNat_ofNat_of_lt' hlt]
  omega

theorem toInt_ofInt (h : 0 ≤ n) (hlt : n < 2 ^ 63) : (UInt64.ofInt n).toInt64.toInt = n := by
  have hcast : (UInt64.ofInt n).toInt64.toInt = (((UInt64.ofInt n).toNat : Nat) : Int).bmod (2 ^ 64) :=
    BitVec.toInt_eq_toNat_bmod _
  rw [hcast, toNat_ofInt, Int.emod_eq_of_lt h (by omega), Int.bmod_eq_of_le (by omega) (by omega)]

theorem toUInt64_eq (size : Int64) : size.toUInt64 = UInt64.ofInt size.toInt := by
  refine UInt64.toNat_inj.mp (Int.ofNat_inj.mp ?_)
  have hcast : size.toInt = ((size.toUInt64.toNat : Nat) : Int).bmod (2 ^ 64) :=
    BitVec.toInt_eq_toNat_bmod _
  have hlt := size.toUInt64.toNat_lt
  rw [toNat_ofInt, hcast, show ((2 : Int) ^ 64) = ((2 ^ 64 : Nat) : Int) from rfl, Int.bmod_emod]
  omega

section Recursion

variable (h : Tree base) {update : PathToDir → Bytes → PathToDir × UInt64} {entries : List DirEntry}
  {dirs : PathToDir}

/-- What the update of a directory has to do, where nothing of it was updated before. -/
def Updates (base : PathToDir) (update : PathToDir → Bytes → PathToDir × UInt64) (path : Bytes) : Prop :=
  ∀ dirs : PathToDir, (∀ key, path <+: key → dirs.lookup key = base.lookup key) →
    (update dirs path).2 = UInt64.ofInt (below base path) ∧ ∀ key, (update dirs path).1.lookup key =
        if path <+: key then (base.lookup key).map (sizedDir base key) else dirs.lookup key

include h in
theorem sizeEntry_spec (he : e ∈ entriesOf base path)
    (hupdate : e.st.type = .directory → Updates base update (child path e.name))
    (hsame : ∀ key, child path e.name <+: key → dirs.lookup key = base.lookup key) :
    (sizeEntry update path dirs e).2.1 = sizedEntry base path e ∧
      (sizeEntry update path dirs e).2.2 = UInt64.ofInt (entrySize base path e) ∧
      ∀ key, (sizeEntry update path dirs e).1.lookup key =
        if e.st.type = .directory ∧ child path e.name <+: key then
          (base.lookup key).map (sizedDir base key) else dirs.lookup key := by
  unfold sizeEntry entrySize
  by_cases hdirectory : e.st.type = .directory
  · obtain ⟨hsize, hlookup⟩ := hupdate hdirectory dirs hsame
    have hthere : child path e.name ∈ dirs := by
      rw [← AList.lookup_isSome, hsame _ prefix_rfl, AList.lookup_isSome]
      exact h.there path e he hdirectory
    rw [hdirectory]
    dsimp only
    unfold sizedEntry
    rw [if_pos hthere, if_pos hdirectory, hsize]
    refine ⟨rfl, rfl, fun key => ?_⟩
    rw [hlookup]
    exact if_congr (and_iff_right rfl).symm rfl rfl
  · unfold sizedEntry
    rw [if_neg hdirectory]
    cases htype : e.st.type with
    | directory => exact absurd htype hdirectory
    | regular => exact ⟨rfl, toUInt64_eq _, fun key => (if_neg fun hboth => nomatch hboth.1).symm⟩
    | symlink | other => exact ⟨rfl, rfl, fun key => (if_neg fun hboth => nomatch hboth.1).symm⟩

include h in
/-- The directories in a directory do not touch each other. -/
theorem sizeEntries_spec (hentries : ∀ e ∈ entries, e ∈ entriesOf base path)
    (hnodup : (entries.map DirEntry.name).Nodup)
    (hupdate : ∀ e ∈ entries, e.st.type = .directory → Updates base update (child path e.name))
    (hsame : ∀ e ∈ entries, ∀ key, child path e.name <+: key → dirs.lookup key = base.lookup key) :
    (sizeEntries update path dirs entries).2.1 = entries.map (sizedEntry base path) ∧
      (sizeEntries update path dirs entries).2.2 =
        UInt64.ofInt (entries.map (entrySize base path)).sum ∧
      ∀ key, (sizeEntries update path dirs entries).1.lookup key =
        if ∃ e ∈ entries, e.st.type = .directory ∧ child path e.name <+: key then
          (base.lookup key).map (sizedDir base key) else dirs.lookup key := by
  induction entries generalizing dirs with
  | nil => exact ⟨rfl, rfl, fun key => (if_neg fun ⟨e, he, _⟩ => absurd he not_mem_nil).symm⟩
  | cons e rest ih =>
    have he := hentries e mem_cons_self
    obtain ⟨hnot, hnodup⟩ := nodup_cons.mp hnodup
    obtain ⟨hentry, hsize, hlookup⟩ := sizeEntry_spec h he (hupdate e mem_cons_self)
      (hsame e mem_cons_self)
    have hapart : ∀ e' ∈ rest, ∀ key, child path e'.name <+: key → ¬child path e.name <+: key := by
      intro e' he' key hbelow' hbelow
      have he'' := hentries e' (mem_cons_of_mem _ he')
      refine hnot (mem_map.mpr ⟨e', he', ?_⟩)
      exact name_unique (h.components _ _ he'') (h.components _ _ he) hbelow' hbelow
    obtain ⟨hrest, hsizes, hlookups⟩ := @ih (sizeEntry update path dirs e).1
      (fun e' he' => hentries e' (mem_cons_of_mem _ he')) hnodup
      (fun e' he' => hupdate e' (mem_cons_of_mem _ he'))
      (fun e' he' key hbelow' => by
        rw [hlookup, if_neg fun hboth => hapart e' he' key hbelow' hboth.2]
        exact hsame e' (mem_cons_of_mem _ he') key hbelow')
    unfold sizeEntries
    dsimp only
    rw [hentry, hsize, hrest, hsizes, map_cons, map_cons, sum_cons, UInt64.ofInt_add]
    refine ⟨rfl, rfl, fun key => ?_⟩
    rw [hlookups, hlookup]
    simp only [exists_mem_cons_iff]
    by_cases hfirst : e.st.type = .directory ∧ child path e.name <+: key
    · rw [if_pos hfirst, ite_self, if_pos (.inl hfirst)]
    · rw [if_neg hfirst]
      exact if_congr (or_iff_right hfirst).symm rfl rfl

include h in
/-- Each directory below a path is given the size of the files in it and below it. -/
theorem updates_within (fuel : Nat) (hpath : path ∈ base)
    (hfuel : ∀ key ∈ base, path <+: key → key.length < path.length + fuel) :
    Updates base (updateDirectorySizeWithin fuel) path := by
  induction fuel generalizing path with
  | zero => exact absurd (hfuel path hpath prefix_rfl) (Nat.lt_irrefl _)
  | succ fuel ih =>
    intro dirs hsame
    obtain ⟨dir, hdir⟩ := exists_lookup hpath
    have hentries := entriesOf_of_lookup hdir
    obtain ⟨hmap, hsize, hlookup⟩ := @sizeEntries_spec base path h (updateDirectorySizeWithin fuel) dir.entries
      dirs (fun e he => hentries ▸ he) (hentries ▸ h.distinct path)
      (fun e he hdirectory => by
        refine ih (h.there path e (hentries ▸ he) hdirectory) fun key hkey hbelow => ?_
        have hlt := hfuel key hkey (prefix_child.trans hbelow)
        have hlength := congrArg List.length (show child path e.name = path ++ e.name ++ [slash] from rfl)
        rw [length_append, length_append, length_singleton] at hlength
        omega)
      (fun e _ key hbelow => hsame key (prefix_child.trans hbelow))
    have htotal : (dir.entries.map (entrySize base path)).sum = below base path := by
      rw [sum_entrySize, h.below_eq hpath]
      unfold directoriesIn
      rw [hentries]
    unfold updateDirectorySizeWithin
    rw [hsame path prefix_rfl, hdir]
    dsimp only
    rw [hmap, hsize, htotal]
    refine ⟨rfl, fun key => ?_⟩
    by_cases hkey : key = path
    · subst hkey
      rw [AList.lookup_insert, if_pos prefix_rfl, hdir]
      rfl
    · rw [AList.lookup_insert_ne hkey, hlookup]
      by_cases hle : path <+: key
      · rw [if_pos hle]
        by_cases hbelow : ∃ e ∈ dir.entries, e.st.type = .directory ∧ child path e.name <+: key
        · rw [if_pos hbelow]
        · -- Nothing else is below the directory.
          have hnone : key ∉ base := fun hmem => hbelow (by
            obtain ⟨e, he, hboth⟩ := h.below_entry hpath hmem hle hkey
            exact ⟨e, hentries ▸ he, hboth⟩)
          rw [if_neg hbelow, hsame key hle, AList.lookup_eq_none.mpr hnone]
          rfl
      · rw [if_neg hle, if_neg]
        rintro ⟨e, -, -, hbelow⟩
        exact hle (prefix_child.trans hbelow)

include h in
theorem updated (key : Bytes) : (updateDirectorySize base [slash]).1.lookup key =
    (base.lookup key).map (sizedDir base key) := by
  have hmax : ∀ key ∈ base, key.length ≤ (base.keys.map List.length).foldr max 0 := by
    intro key hkey
    exact le_max_of_le' 0 (mem_map_of_mem hkey) (Nat.le_refl _)
  have hspec := @updates_within base [slash] h ((base.keys.map List.length).foldr max 0 + 1) h.grown.root
    (fun key hkey _ => by
      have hle := hmax key hkey
      omega) base (fun _ _ => rfl)
  unfold updateDirectorySize
  rw [hspec.2]
  by_cases hle : [slash] <+: key
  · rw [if_pos hle]
  · have hnone : key ∉ base := by
      intro hmem
      obtain ⟨rest, hrest⟩ := List.head?_eq_some_iff.mp (h.grown.sound key hmem).head
      exact hle ⟨rest, hrest.symm⟩
    rw [if_neg hle, AList.lookup_eq_none.mpr hnone]
    rfl

end Recursion

end Updating

end WinCommander.VFS.ArcLA
