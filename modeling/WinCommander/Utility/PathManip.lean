/-
  The parent and the filename of a path, slashes at its end apart.

  A path is its parent, its filename and those slashes (`path_eq`). A directory is told with a slash
  at the end; without repeated slashes it is the path of an entry in its parent (`eq_child`).
-/
import WinCommander.Library.Path

namespace WinCommander.Utility.PathManip

open Library List
open Library.Path (slash)

def filename (path : Bytes) : Bytes := (path.rdropWhile (· = slash)).rtakeWhile (· ≠ slash)

def parent (path : Bytes) : Bytes := (path.rdropWhile (· = slash)).rdropWhile (· ≠ slash)

/-- What one entry of a directory is called. -/
structure Component (name : Bytes) : Prop where
  nonempty : name ≠ []
  simple : slash ∉ name

/-- The path of a directory in another one. -/
def child (directory name : Bytes) : Bytes := directory ++ name ++ [slash]

/-- No two slashes follow each other. -/
def Plain (path : Bytes) : Prop := ¬[slash, slash] <:+: path

instance (path : Bytes) : Decidable (Plain path) := inferInstanceAs (Decidable (¬_))

variable {path directory name : Bytes}

def hasTrailingSlash (path : Bytes) : Bool := path.getLast? = some slash

theorem hasTrailingSlash_iff : hasTrailingSlash path ↔ ∃ initial, path = initial ++ [slash] := by
  unfold hasTrailingSlash
  rw [decide_eq_true_eq]
  exact List.getLast?_eq_some_iff

variable {path directory name : Bytes}

/-! ## The parts of a path -/

theorem notMem_filename (path : Bytes) : slash ∉ filename path := by
  intro h
  have hpos := mem_rtakeWhile_imp h
  rw [decide_eq_true_eq] at hpos
  exact hpos rfl

theorem component_filename (h : filename path ≠ []) : Component (filename path) :=
  ⟨h, notMem_filename path⟩

theorem path_eq (path : Bytes) :
    parent path ++ filename path ++ path.rtakeWhile (· = slash) = path := by
  unfold parent filename
  rw [rdropWhile_append_rtakeWhile, rdropWhile_append_rtakeWhile]

theorem parent_le (path : Bytes) : parent path <+: path :=
  ( rdropWhile_prefix _ _).trans ( rdropWhile_prefix _ _)

theorem length_parent_lt (h : filename path ≠ []) : (parent path).length < path.length := by
  have hlength := congrArg List.length (path_eq path)
  rw [length_append, length_append] at hlength
  have hpos := length_pos_iff.mpr h
  omega

/-- A parent ends in a slash, if it is not empty. -/
theorem hasTrailingSlash_parent (h : parent path ≠ []) : hasTrailingSlash (parent path) := by
  unfold hasTrailingSlash
  have hlast := rdropWhile_last_not (fun b : UInt8 => decide (b ≠ slash)) _ h
  rw [decide_eq_true_eq, not_not] at hlast
  rw [List.getLast?_eq_getLast_of_ne_nil h, decide_eq_true_eq]
  exact congrArg some hlast

theorem rdropWhile_append_all {l s : Bytes} (h : ∀ b ∈ s, p b) :
    (l ++ s).rdropWhile p = l.rdropWhile p := by
  unfold rdropWhile
  rw [reverse_append, dropWhile_append_of_pos]
  exact fun b hb => h b (mem_reverse.mp hb)

theorem rtakeWhile_append_all {l s : Bytes} (h : ∀ b ∈ s, p b) :
    (l ++ s).rtakeWhile p = l.rtakeWhile p ++ s := by
  unfold rtakeWhile
  rw [reverse_append, takeWhile_append_of_pos, reverse_append, reverse_reverse]
  exact fun b hb => h b (mem_reverse.mp hb)

theorem stripped_eq (hname : Component name) (hslashes : ∀ b ∈ slashes, b = slash) :
    (directory ++ name ++ slashes).rdropWhile (· = slash) = directory ++ name := by
  rw [rdropWhile_append_all fun b hb => decide_eq_true (hslashes b hb), rdropWhile_eq_self_iff]
  intro hne hlast
  rw [getLast_append_of_ne_nil hne hname.nonempty, decide_eq_true_eq] at hlast
  exact hname.simple (hlast ▸ getLast_mem hname.nonempty)

theorem filename_append (hdirectory : hasTrailingSlash directory) (hname : Component name)
    (hslashes : ∀ b ∈ slashes, b = slash) : filename (directory ++ name ++ slashes) = name := by
  obtain ⟨initial, rfl⟩ := hasTrailingSlash_iff.mp hdirectory
  unfold filename
  rw [stripped_eq hname hslashes, rtakeWhile_append_all, rtakeWhile_concat_neg, nil_append]
  · simp
  · intro b hb
    rw [decide_eq_true_eq]
    rintro rfl
    exact hname.simple hb

theorem parent_append (hdirectory : hasTrailingSlash directory) (hname : Component name)
    (hslashes : ∀ b ∈ slashes, b = slash) : parent (directory ++ name ++ slashes) = directory := by
  obtain ⟨initial, rfl⟩ := hasTrailingSlash_iff.mp hdirectory
  unfold parent
  rw [stripped_eq hname hslashes, rdropWhile_append_all, rdropWhile_concat_neg]
  · simp
  · intro b hb
    rw [decide_eq_true_eq]
    rintro rfl
    exact hname.simple hb

/-! ## Directories -/

section Child

variable (hdirectory : hasTrailingSlash directory = true) (hname : Component name)
include hdirectory hname

theorem parent_child : parent (child directory name) = directory :=
  parent_append hdirectory hname fun _ hb => mem_singleton.mp hb

theorem filename_child : filename (child directory name) = name :=
  filename_append hdirectory hname fun _ hb => mem_singleton.mp hb

end Child

theorem hasTrailingSlash_child : hasTrailingSlash (child directory name) :=
  hasTrailingSlash_iff.mpr ⟨directory ++ name, rfl⟩

theorem prefix_child : directory <+: child directory name := by
  unfold child
  rw [append_assoc]
  exact prefix_append _ _

theorem length_child : directory.length < (child directory name).length := by
  unfold child
  rw [length_append, length_append, length_singleton]
  omega

/-- A directory is longer than what it is in. -/
theorem length_parent_of_child (h : child (parent path) name = path) :
    (parent path).length < path.length := by
  conv_rhs => rw [← h]
  exact length_child

/-- A directory without repeated slashes is the path of an entry in its parent. -/
theorem eq_child (hplain : Plain path) (hslash : hasTrailingSlash path)
    (hroot : path ≠ [slash]) (hhead : path.head? = some slash) :
    path = child (parent path) (filename path) ∧ Component (filename path) ∧
      hasTrailingSlash (parent path) := by
  have heq := path_eq path
  -- There is one slash at the end, and it is not all of the path.
  obtain ⟨initial, hinitial⟩ := hasTrailingSlash_iff.mp hslash
  have hend : path.rtakeWhile (· = slash) = [slash] := by
    rw [hinitial, rtakeWhile_concat_pos (fun b => decide (b = slash)) _ _ (decide_eq_true rfl),
      rtakeWhile_eq_nil_iff.mpr, nil_append]
    intro hne hlast
    rw [decide_eq_true_eq] at hlast
    refine hplain ⟨initial.dropLast, [], ?_⟩
    rw [append_nil, hinitial]
    conv_rhs => rw [← dropLast_append_getLast hne, hlast]
    rw [append_assoc]
    rfl
  rw [hend] at heq
  have hfilename : filename path ≠ [] := by
    intro hempty
    rw [hempty, append_nil] at heq
    by_cases hparent : parent path = []
    · rw [hparent] at heq
      exact hroot heq.symm
    · obtain ⟨above, habove⟩ := hasTrailingSlash_iff.mp (hasTrailingSlash_parent hparent)
      refine hplain ⟨above, [], ?_⟩
      rw [append_nil, ← heq, habove, append_assoc]
      rfl
  refine ⟨heq.symm, component_filename hfilename, hasTrailingSlash_parent fun hparent => ?_⟩
  rw [hparent, nil_append] at heq
  rw [← heq, List.head?_append_of_ne_nil _ hfilename] at hhead
  exact notMem_filename path (mem_of_head? hhead)

theorem Plain.of_prefix (h : Plain other) (hle : path <+: other) : Plain path :=
  fun hwithin => h (hwithin.trans hle.isInfix)

theorem child_ne_root (hdirectory : hasTrailingSlash directory) (hname : Component name) :
    child directory name ≠ [slash] := by
  intro h
  obtain ⟨initial, rfl⟩ := hasTrailingSlash_iff.mp hdirectory
  have hlength := congrArg List.length h
  have hpos := length_pos_iff.mpr hname.nonempty
  unfold child at hlength
  simp only [length_append, length_singleton] at hlength
  omega

theorem child_cancel (h : child directory name = child directory name') : name = name' := by
  exact append_cancel_left (append_cancel_right h)

/-- A directory in one without repeated slashes has none. -/
theorem Plain.child (h : Plain directory) (hname : Component name) : Plain (child directory name) := by
  have hlast : ¬[slash, slash] <:+: name ++ [slash] := by
    intro hwithin
    have hcount := hwithin.sublist.count_le slash
    rw [count_append, count_eq_zero.mpr hname.simple] at hcount
    exact absurd hcount (by decide)
  have hhead : ¬[slash] <+: name ++ [slash] := by
    intro hle
    obtain ⟨first, rest, rfl⟩ := exists_cons_of_ne_nil hname.nonempty
    have heq := (cons_prefix_cons.mp hle).1
    exact hname.simple (heq ▸ mem_cons_self)
  intro hwithin
  unfold PathManip.child at hwithin
  rw [append_assoc] at hwithin
  obtain hold | hnew | ⟨initial, rest, heq, hend, hle⟩ := infix_append_iff.mp hwithin
  · exact h hold
  · exact hlast hnew
  · obtain ⟨-, rfl⟩ | ⟨initial', rfl, heq'⟩ := cons_eq_append_iff.mp heq
    · exact hlast hle.isInfix
    · obtain ⟨rfl, rfl⟩ | ⟨initial'', rfl, heq''⟩ := cons_eq_append_iff.mp heq'
      · exact hhead hle
      · rw [(nil_eq_append_iff.mp heq'').1] at hend
        exact h hend.isInfix

/-- What is above a directory is the directory in it or above that. -/
theorem prefix_child_cases (hname : Component name) (habove : hasTrailingSlash above)
    (hle : above <+: child directory name) :
    above = child directory name ∨ above <+: directory := by
  obtain heq | hle := prefix_concat_iff.mp hle
  · exact .inl heq
  · obtain hle' | hle' := prefix_or_prefix_of_prefix hle (prefix_append directory name)
    · exact .inr hle'
    · obtain ⟨rest, rfl⟩ := hle'
      by_cases hrest : rest = []
      · rw [hrest, append_nil]
        exact .inr prefix_rfl
      · obtain ⟨initial, hinitial⟩ := hasTrailingSlash_iff.mp habove
        refine absurd ?_ hname.simple
        have hlast : slash = rest.getLast hrest := by
          have hsame := congrArg getLast? hinitial
          rw [List.getLast?_append_of_ne_nil _ hrest, List.getLast?_concat,
            List.getLast?_eq_getLast_of_ne_nil hrest] at hsame
          exact (Option.some.inj hsame).symm
        rw [hlast]
        exact ((prefix_append_right_inj directory).mp hle).subset (getLast_mem hrest)

/-- A path is below one entry of a directory at most. -/
theorem name_unique (hname : Component name) (hname' : Component name')
    (h : child directory name <+: other) (h' : child directory name' <+: other) : name = name' := by
  have hcut : ∀ {first second : Bytes}, slash ∉ first → slash ∉ second →
      first ++ [slash] <+: second ++ [slash] → first = second := by
    intro first second hfirst hsecond hle
    obtain heq | hle := prefix_concat_iff.mp hle
    · exact (append_inj' heq rfl).1
    · exact absurd (hle.subset (mem_append_right _ (mem_singleton_self slash))) hsecond
  unfold child at h h'
  rcases prefix_or_prefix_of_prefix h h' with hle | hle <;>
    rw [append_assoc, append_assoc, prefix_append_right_inj] at hle
  · exact hcut hname.simple hname'.simple hle
  · exact (hcut hname'.simple hname.simple hle).symm

end WinCommander.Utility.PathManip
