/-
  Absolute paths in their normal form, as `std::filesystem::path` takes them apart.

  A path is a list of file names. Its text has no slash at the end unless it is the root; the text
  of a directory has one always.
-/
import WinCommander.Library.Path

namespace WinCommander.Library.Path

open List

/-- A name in a directory. -/
structure FileName where
  bytes : Bytes
  isName : IsName bytes
  noNul : 0 ∉ bytes

instance : DecidableEq FileName := fun a b =>
  decidable_of_iff (a.bytes = b.bytes) ⟨fun h => by cases a; cases b; simp_all, fun h => h ▸ rfl⟩

def text (path : List FileName) : Bytes := render (path.map FileName.bytes)

def directoryText (path : List FileName) : Bytes :=
  if path = [] then [slash] else text path ++ [slash]

/-! ## `std::filesystem::path` -/

def filename (path : Bytes) : Bytes := path.rtakeWhile (· ≠ slash)

def parentPath (path : Bytes) : Bytes :=
  let directory := path.rdropWhile (· ≠ slash)
  let stripped := directory.rdropWhile (· = slash)
  if stripped = [] then directory.take 1 else stripped

/-- `operator/=`: an absolute path replaces the other one. -/
def appendPath (path other : Bytes) : Bytes :=
  if other.head? = some slash then other
  else if filename path = [] then path ++ other
  else path ++ slash :: other

/-! ## Paths in normal form -/

theorem directoryText_of_ne {path : List FileName} (h : path ≠ []) :
    directoryText path = text path ++ [slash] := if_neg h

variable (path : List FileName) {a b : List FileName}

theorem text_concat (name : FileName) :
    text (path ++ [name]) = directoryText path ++ name.bytes := by
  unfold text
  rw [map_append, map_singleton]
  by_cases h : path = []
  · subst h
    show render [name.bytes] = [slash] ++ name.bytes
    unfold render
    rw [intercalate_singleton]
    rfl
  · rw [directoryText_of_ne h]
    unfold text render
    rw [intercalate_append (by simpa using h) (by simp), intercalate_singleton]
    simp

/-- The last byte of a path below the root is part of a name. -/
theorem text_eq_concat {path : List FileName} (h : path ≠ []) :
    ∃ initial last, text path = initial ++ [last] ∧ last ≠ slash := by
  obtain ⟨above, name, rfl⟩ := eq_nil_or_concat path |>.resolve_left h
  rw [concat_eq_append, text_concat]
  obtain ⟨initial, last, hname⟩ := eq_nil_or_concat name.bytes |>.resolve_left name.isName.nonempty
  refine ⟨directoryText above ++ initial, last, ?_, ?_⟩
  · rw [hname, concat_eq_append, append_assoc]
  · rintro rfl
    refine name.isName.simple ?_
    rw [hname, concat_eq_append]
    exact mem_append_right _ mem_cons_self

theorem directoryText_eq_concat : ∃ initial, directoryText path = initial ++ [slash] := by
  unfold directoryText
  split
  · exact ⟨[], rfl⟩
  · exact ⟨text path, rfl⟩

section
variable (name : FileName)
include name

theorem rtakeWhile_directory :
    (directoryText path ++ name.bytes).rtakeWhile (· ≠ slash) = name.bytes := by
  obtain ⟨initial, h⟩ := directoryText_eq_concat path
  unfold rtakeWhile
  rw [h, reverse_append, takeWhile_append_of_pos]
  · simp
  · intro b hb
    rw [decide_eq_true_eq]
    rintro rfl
    exact name.isName.simple (mem_reverse.mp hb)

theorem rdropWhile_directory :
    (directoryText path ++ name.bytes).rdropWhile (· ≠ slash) = directoryText path := by
  obtain ⟨initial, h⟩ := directoryText_eq_concat path
  unfold rdropWhile
  rw [h, reverse_append, dropWhile_append_of_pos]
  · simp
  · intro b hb
    rw [decide_eq_true_eq]
    rintro rfl
    exact name.isName.simple (mem_reverse.mp hb)

theorem filename_text : filename (text (path ++ [name])) = name.bytes := by
  rw [text_concat]
  exact rtakeWhile_directory path name

theorem parentPath_text : parentPath (text (path ++ [name])) = text path := by
  unfold parentPath
  rw [text_concat, rdropWhile_directory]
  dsimp only
  by_cases h : path = []
  · subst h
    rfl
  · rw [directoryText_of_ne h]
    obtain ⟨initial, last, htext, hlast⟩ := text_eq_concat h
    have hstripped : (text path ++ [slash]).rdropWhile (· = slash) = text path := by
      rw [rdropWhile_concat_pos (fun b => decide (b = slash)) _ _ (decide_eq_true rfl), htext,
        rdropWhile_concat_neg (fun b => decide (b = slash)) _ _ (by simpa using hlast)]
    rw [hstripped, if_neg]
    rw [htext]
    exact concat_ne_nil _ _

end

/-- The root is the only path whose text ends in a slash. -/
theorem text_eq_root {path : List FileName} : text path = [slash] ↔ path = [] := by
  constructor
  · intro h
    by_contra hne
    obtain ⟨initial, last, htext, hlast⟩ := text_eq_concat hne
    rw [h] at htext
    have hconcat : [] ++ [slash] = initial ++ [last] := htext
    exact hlast (singleton_inj.mp (append_inj' hconcat rfl).2).symm
  · rintro rfl
    rfl

theorem text_injective (h : text a = text b) : a = b := by
  have hbytes := render_injective (a := a.map FileName.bytes) (b := b.map FileName.bytes)
    (by simpa using fun n _ => n.isName) (by simpa using fun n _ => n.isName) h
  refine map_injective_iff.mpr ?_ hbytes
  intro m n hmn
  cases m
  cases n
  simp_all

theorem directoryText_injective (h : directoryText a = directoryText b) : a = b := by
  unfold directoryText at h
  by_cases ha : a = []
  · rw [if_pos ha] at h
    by_cases hb : b = []
    · rw [ha, hb]
    · rw [if_neg hb] at h
      obtain ⟨initial, last, htext, hlast⟩ := text_eq_concat hb
      have hlength := congrArg List.length h
      rw [htext] at hlength
      simp at hlength
  · rw [if_neg ha] at h
    split_ifs at h
    · obtain ⟨initial, last, htext, hlast⟩ := text_eq_concat ha
      have hlength := congrArg List.length h
      rw [htext] at hlength
      simp at hlength
    · exact text_injective (append_inj' h rfl).1

/-- What lies below a directory begins with its text. -/
theorem directoryText_prefix (h : a <+: b) : directoryText a <+: directoryText b := by
  obtain ⟨rest, rfl⟩ := h
  induction rest using reverseRecOn with
  | nil => rw [append_nil]
  | append_singleton rest name ih =>
    refine ih.trans ?_
    have hne : a ++ rest ++ [name] ≠ [] := append_ne_nil_of_right_ne_nil _ (by simp)
    rw [← append_assoc, directoryText_of_ne hne, text_concat, append_assoc]
    exact prefix_append _ _

end WinCommander.Library.Path
