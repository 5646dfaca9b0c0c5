/-
  Tables whose rows are sorted by a key, with a second column beside them.

  A row is found by a search for the first row that does not come before a key. `located` says
  where that is; the rules below it say what inserting, replacing and erasing at that place does to
  both columns.
-/
import Mathlib

namespace WinCommander.Library.SortedTable

open List Option

variable {α β κ : Type} [Ord κ] (key : α → κ)

/-- The index of the first row that does not come before the key. -/
def lowerBound (rows : List α) (k : κ) : Nat :=
  (rows.takeWhile fun a => (compare (key a) k).isLT).length

/-- The row of the key, if it is where the search ends. -/
def find [DecidableEq κ] (rows : List α) (k : κ) : Option α :=
  rows[lowerBound key rows k]?.filter fun a => key a = k

/-- The keys are strictly increasing. -/
def Sorted (rows : List α) : Prop := rows.Pairwise fun a b => compare (key a) (key b) = .lt

variable {key} {rows : List α} {marks : List β} {k : κ}

/-! ## Finding -/

variable {before after : List α} {entry : α × β}

theorem lowerBound_append (hbefore : ∀ a ∈ before, compare (key a) k = .lt) :
    lowerBound key (before ++ after) k = before.length + lowerBound key after k := by
  unfold lowerBound
  rw [takeWhile_append_of_pos, length_append]
  intro a ha
  rw [hbefore a ha]
  rfl

theorem lowerBound_of_not_lt (hafter : ∀ a ∈ after, compare (key a) k ≠ .lt) :
    lowerBound key after k = 0 := by
  cases after with
  | nil => rfl
  | cons a rest =>
    unfold lowerBound
    rw [takeWhile_cons_of_neg]
    · rfl
    · rw [Ordering.isLT_iff_eq_lt]
      exact hafter a mem_cons_self

/-- The rows before the key and those after it, and the row of the key between them if there is
    one. -/
theorem split [Std.LawfulEqOrd κ] [Std.TransOrd κ] (h : Sorted key rows) (k : κ) :
    (∃ before after, rows = before ++ after ∧ (∀ a ∈ before, compare (key a) k = .lt) ∧
      ∀ a ∈ after, compare k (key a) = .lt) ∨
    ∃ before row after, rows = before ++ row :: after ∧ key row = k ∧
      (∀ a ∈ before, compare (key a) k = .lt) ∧ ∀ a ∈ after, compare k (key a) = .lt := by
  induction rows with
  | nil => exact .inl ⟨[], [], rfl, fun _ => nofun, fun _ => nofun⟩
  | cons first rest ih =>
    obtain ⟨hfirst, hrest⟩ := pairwise_cons.mp h
    cases hcompare : compare (key first) k with
    | lt =>
      rcases ih hrest with ⟨before, after, rfl, hbefore, hafter⟩ |
        ⟨before, row, after, rfl, hrow, hbefore, hafter⟩
      · exact .inl ⟨first :: before, after, rfl, forall_mem_cons.mpr ⟨hcompare, hbefore⟩, hafter⟩
      · exact .inr ⟨first :: before, row, after, rfl, hrow,
          forall_mem_cons.mpr ⟨hcompare, hbefore⟩, hafter⟩
    | eq =>
      have hkey : key first = k := Std.LawfulEqCmp.eq_of_compare hcompare
      exact .inr ⟨[], first, rest, rfl, hkey, fun _ => nofun, hkey ▸ hfirst⟩
    | gt =>
      have hlt : compare k (key first) = .lt := Std.OrientedCmp.lt_of_gt hcompare
      refine .inl ⟨[], first :: rest, rfl, fun _ => nofun, forall_mem_cons.mpr ⟨hlt, ?_⟩⟩
      exact fun a ha => Std.TransCmp.lt_trans hlt (hfirst a ha)

theorem not_lt_of_gt [Std.OrientedOrd κ] (h : compare k (key a) = .lt) :
    compare (key a) k ≠ .lt := by
  rw [Std.OrientedCmp.gt_of_lt h]
  exact nofun

theorem ne_of_lt [Std.ReflOrd κ] (h : compare k k' = .lt) : k ≠ k' := by
  rintro rfl
  rw [Std.ReflOrd.compare_self] at h
  cases h

theorem mem_of_find [DecidableEq κ] (h : find key rows k = some row) :
    row ∈ rows ∧ key row = k := by
  obtain ⟨hrow, hkey⟩ := filter_eq_some_iff.mp h
  exact ⟨mem_of_getElem? hrow, of_decide_eq_true hkey⟩

section Find

variable [DecidableEq κ] [Std.LawfulEqOrd κ] [Std.TransOrd κ]

/-- What the search finds, and where. -/
theorem located (h : Sorted key rows) (k : κ) :
    (∃ before after, rows = before ++ after ∧ lowerBound key rows k = before.length ∧
      find key rows k = none ∧ (∀ a ∈ before, compare (key a) k = .lt) ∧
      ∀ a ∈ after, compare k (key a) = .lt) ∨
    ∃ before row after, rows = before ++ row :: after ∧ lowerBound key rows k = before.length ∧
      find key rows k = some row ∧ key row = k ∧ (∀ a ∈ before, compare (key a) k = .lt) ∧
      ∀ a ∈ after, compare k (key a) = .lt := by
  rcases split h k with ⟨before, after, rfl, hbefore, hafter⟩ |
    ⟨before, row, after, rfl, hrow, hbefore, hafter⟩
  · have hindex : lowerBound key (before ++ after) k = before.length := by
      rw [lowerBound_append hbefore, lowerBound_of_not_lt fun a ha => not_lt_of_gt (hafter a ha)]
      rfl
    refine .inl ⟨before, after, rfl, hindex, ?_, hbefore, hafter⟩
    unfold find
    rw [hindex, List.getElem?_append_right (Nat.le_refl _), Nat.sub_self]
    cases after with
    | nil => rfl
    | cons first rest =>
      have hlt := hafter first mem_cons_self
      refine filter_eq_none_iff.mpr fun a ha => ?_
      rw [← some.inj ha, decide_eq_true_eq]
      intro hkey
      rw [hkey, Std.ReflOrd.compare_self] at hlt
      cases hlt
  · have hindex : lowerBound key (before ++ row :: after) k = before.length := by
      rw [lowerBound_append hbefore, lowerBound_of_not_lt]
      · rfl
      · refine forall_mem_cons.mpr ⟨?_, fun a ha => not_lt_of_gt (hafter a ha)⟩
        rw [hrow, Std.ReflOrd.compare_self]
        exact nofun
    refine .inr ⟨before, row, after, rfl, hindex, ?_, hrow, hbefore, hafter⟩
    unfold find
    rw [hindex, List.getElem?_append_right (Nat.le_refl _), Nat.sub_self]
    exact filter_eq_some_iff.mpr ⟨rfl, decide_eq_true hrow⟩

theorem find_eq_none_iff (h : Sorted key rows) : find key rows k = none ↔ ∀ a ∈ rows, key a ≠ k := by
  rcases located h k with ⟨before, after, rfl, -, hnone, hbefore, hafter⟩ |
    ⟨before, row, after, rfl, -, hsome, hrow, -⟩
  · refine iff_of_true hnone fun a ha => ?_
    rcases mem_append.mp ha with ha | ha
    · exact ne_of_lt (hbefore a ha)
    · exact (ne_of_lt (hafter a ha)).symm
  · refine iff_of_false ?_ ?_
    · rw [hsome]
      exact nofun
    · intro hall
      exact hall row (mem_append_right _ mem_cons_self) hrow

end Find

/-! ## Changing both columns -/

theorem split_column (hlength : marks.length = (before ++ after).length) :
    ∃ marksBefore marksAfter, marks = marksBefore ++ marksAfter ∧
      marksBefore.length = before.length ∧ marksAfter.length = after.length := by
  refine ⟨marks.take before.length, marks.drop before.length, (take_append_drop _ _).symm, ?_, ?_⟩
  · rw [length_take, hlength, length_append]
    omega
  · rw [length_drop, hlength, length_append]
    omega

theorem split_column_cons (hlength : marks.length = (before ++ row :: after).length) :
    ∃ marksBefore mark marksAfter, marks = marksBefore ++ mark :: marksAfter ∧
      marksBefore.length = before.length ∧ marksAfter.length = after.length := by
  obtain ⟨marksBefore, marksAfter, rfl, hbefore, hafter⟩ := split_column hlength
  cases marksAfter with
  | nil => cases hafter
  | cons mark rest => exact ⟨marksBefore, mark, rest, rfl, hbefore, Nat.succ.inj hafter⟩

theorem insertIdx_append_length (before after : List α) (a : α) :
    (before ++ after).insertIdx before.length a = before ++ a :: after := by
  induction before with
  | nil => rfl
  | cons first rest ih =>
    rw [cons_append, length_cons, insertIdx_succ_cons, ih, cons_append]

theorem set_append_length (before after : List α) (row a : α) :
    (before ++ row :: after).set before.length a = before ++ a :: after := by
  rw [set_append_right _ _ (Nat.le_refl _), Nat.sub_self, set_cons_zero]

theorem eraseIdx_append_length (before after : List α) (row : α) :
    (before ++ row :: after).eraseIdx before.length = before ++ after := by
  rw [eraseIdx_append_of_length_le (Nat.le_refl _), Nat.sub_self, eraseIdx_cons_zero]

variable {a row : α} {b : β}

theorem sorted_between (h : Sorted key (before ++ after))
    (hbefore : ∀ a ∈ before, compare (key a) k = .lt)
    (hafter : ∀ a ∈ after, compare k (key a) = .lt) (ha : key a = k) :
    Sorted key (before ++ a :: after) := by
  subst ha
  obtain ⟨hsorted, hsorted', hcross⟩ := pairwise_append.mp h
  refine pairwise_append.mpr ⟨hsorted, pairwise_cons.mpr ⟨hafter, hsorted'⟩, ?_⟩
  intro first hfirst
  exact forall_mem_cons.mpr ⟨hbefore first hfirst, hcross first hfirst⟩

theorem sorted_eraseIdx (h : Sorted key rows) (i : Nat) : Sorted key (rows.eraseIdx i) :=
  h.sublist (eraseIdx_sublist rows i)

/-- The other rows are those with another key. -/
theorem mem_others [Std.ReflOrd κ] (hlength : marksBefore.length = before.length)
    (hbefore : ∀ a ∈ before, compare (key a) k = .lt)
    (hafter : ∀ a ∈ after, compare k (key a) = .lt) (hrow : key row = k) :
    entry ∈ before.zip marksBefore ++ after.zip marksAfter ↔
      entry ∈ (before ++ row :: after).zip (marksBefore ++ mark :: marksAfter) ∧ key entry.1 ≠ k := by
  rw [zip_append hlength.symm, zip_cons_cons]
  simp only [mem_append, mem_cons]
  constructor
  · rintro (hmem | hmem)
    · exact ⟨.inl hmem, ne_of_lt (hbefore _ (of_mem_zip hmem).1)⟩
    · exact ⟨.inr (.inr hmem), (ne_of_lt (hafter _ (of_mem_zip hmem).1)).symm⟩
  · rintro ⟨hmem | rfl | hmem, hne⟩
    · exact .inl hmem
    · exact absurd hrow hne
    · exact .inr hmem

variable [DecidableEq κ] [Std.LawfulEqOrd κ] [Std.TransOrd κ]

section
variable (h : Sorted key rows)
include h

theorem sorted_insertIdx (hnone : find key rows k = none) (ha : key a = k) :
    Sorted key (rows.insertIdx (lowerBound key rows k) a) := by
  rcases located h k with ⟨before, after, rfl, hindex, -, hbefore, hafter⟩ |
    ⟨before, row, after, rfl, -, hsome, -⟩
  · rw [hindex, insertIdx_append_length]
    exact sorted_between h hbefore hafter ha
  · rw [hsome] at hnone
    cases hnone

theorem sorted_set (hsome : find key rows k = some row) (ha : key a = k) :
    Sorted key (rows.set (lowerBound key rows k) a) := by
  rcases located h k with ⟨before, after, rfl, -, hnone, -⟩ |
    ⟨before, row', after, rfl, hindex, -, -, hbefore, hafter⟩
  · rw [hsome] at hnone
    cases hnone
  · rw [hindex, set_append_length]
    refine sorted_between (h.sublist ?_) hbefore hafter ha
    exact List.Sublist.append_left (sublist_cons_self row' after) before

/-- The found row has its mark beside it. -/
theorem mem_zip_of_find (hlength : marks.length = rows.length) (hsome : find key rows k = some row) :
    ∃ mark, marks[lowerBound key rows k]? = some mark ∧ (row, mark) ∈ rows.zip marks := by
  rcases located h k with ⟨before, after, rfl, -, hnone, -⟩ |
    ⟨before, row', after, rfl, hindex, hsome', -⟩
  · rw [hsome] at hnone
    cases hnone
  · obtain ⟨marksBefore, mark, marksAfter, rfl, hbefore, -⟩ := split_column_cons hlength
    rw [hsome] at hsome'
    refine ⟨mark, ?_, ?_⟩
    · rw [hindex, ← hbefore, List.getElem?_append_right (Nat.le_refl _), Nat.sub_self]
      rfl
    · rw [some.inj hsome', zip_append hbefore.symm, zip_cons_cons]
      exact mem_append_right _ mem_cons_self

theorem mem_zip_insertIdx (hlength : marks.length = rows.length) (hnone : find key rows k = none) :
    entry ∈ (rows.insertIdx (lowerBound key rows k) a).zip
        (marks.insertIdx (lowerBound key rows k) b) ↔ entry = (a, b) ∨ entry ∈ rows.zip marks := by
  rcases located h k with ⟨before, after, rfl, hindex, -⟩ | ⟨before, row, after, rfl, -, hsome, -⟩
  · obtain ⟨marksBefore, marksAfter, rfl, hbefore, -⟩ := split_column hlength
    rw [hindex, insertIdx_append_length]
    rw [← hbefore, insertIdx_append_length]
    rw [zip_append hbefore.symm, zip_append hbefore.symm, zip_cons_cons]
    simp only [mem_append, mem_cons]
    tauto
  · rw [hsome] at hnone
    cases hnone

theorem mem_zip_set (hlength : marks.length = rows.length) (hsome : find key rows k = some row) :
    entry ∈ (rows.set (lowerBound key rows k) a).zip (marks.set (lowerBound key rows k) b) ↔
      entry = (a, b) ∨ (entry ∈ rows.zip marks ∧ key entry.1 ≠ k) := by
  rcases located h k with ⟨before, after, rfl, -, hnone, -⟩ |
    ⟨before, row', after, rfl, hindex, -, hrow, hbefore, hafter⟩
  · rw [hsome] at hnone
    cases hnone
  · obtain ⟨marksBefore, mark, marksAfter, rfl, hmarks, -⟩ := split_column_cons hlength
    rw [hindex, set_append_length]
    rw [← hmarks, set_append_length, ← mem_others hmarks hbefore hafter hrow,
      zip_append hmarks.symm, zip_cons_cons]
    simp only [mem_append, mem_cons]
    tauto

theorem mem_zip_eraseIdx (hlength : marks.length = rows.length) (hsome : find key rows k = some row) :
    entry ∈ (rows.eraseIdx (lowerBound key rows k)).zip (marks.eraseIdx (lowerBound key rows k)) ↔
      entry ∈ rows.zip marks ∧ key entry.1 ≠ k := by
  rcases located h k with ⟨before, after, rfl, -, hnone, -⟩ |
    ⟨before, row', after, rfl, hindex, -, hrow, hbefore, hafter⟩
  · rw [hsome] at hnone
    cases hnone
  · obtain ⟨marksBefore, mark, marksAfter, rfl, hmarks, -⟩ := split_column_cons hlength
    rw [hindex, eraseIdx_append_length]
    rw [← hmarks, eraseIdx_append_length, ← mem_others hmarks hbefore hafter hrow,
      zip_append hmarks.symm]

end

end WinCommander.Library.SortedTable
