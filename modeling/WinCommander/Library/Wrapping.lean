/-
  Lines that are laid out in rows of some width, and read back from them.

  A row is flagged when the next one continues its line. Reading drops the blank tail of every
  row, so a line is read back whole exactly when no cut has a blank before it (`rejoin_eq_iff`).
-/
import Mathlib

namespace WinCommander.Library

open List Nat

structure Row (α : Type) where
  cells : List α
  wrapped : Bool := false
deriving DecidableEq

section

variable {α : Type} (blank : α → Bool)

/-- A row up to its blank tail. -/
def trim (cells : List α) : List α := cells.rdropWhile blank

/-- The lines that some rows hold. -/
def unwrap : List (Row α) → List (List α)
  | [] => []
  | row :: rest =>
    if row.wrapped then
      match unwrap rest with
      | [] => [trim blank row.cells]
      | line :: lines => (trim blank row.cells ++ line) :: lines
    else trim blank row.cells :: unwrap rest

/-- A line in rows, with as many cuts as are left. -/
def cut (width : Nat) : Nat → List α → List (Row α)
  | 0, line => [⟨line, false⟩]
  | cuts + 1, line =>
    if width < line.length then ⟨line.take width, true⟩ :: cut width cuts (line.drop width)
    else [⟨line, false⟩]

def cutAll (width : Nat) (lines : List (List α)) : List (Row α) :=
  lines.flatMap fun line => cut width line.length line

/-- What is read back of a line. -/
def rejoin (width cuts : Nat) (line : List α) : List α :=
  (cut width cuts line).flatMap fun row => trim blank row.cells

/-- The same lines, but for empty ones at the end. -/
def SameLines (xs ys : List (List α)) : Prop := ∀ i, xs.getD i [] = ys.getD i []

/-- There is no blank before a cut. -/
def CutsAtText (width : Nat) (line : List α) : Prop :=
  ∀ k, 0 < k → ∀ h : k * width < line.length, ¬ blank (line.get ⟨k * width - 1, by omega⟩)

/-! ## Trimming -/

variable {blank}

theorem length_trim_le (blank : α → Bool) (cells : List α) : (trim blank cells).length ≤ cells.length :=
  ( rdropWhile_prefix _ _).length_le

variable {cells : List α} {row : Row α} {line : List α} {width : Nat}

theorem trim_eq_iff : trim blank cells = cells ↔ ∀ h : cells ≠ [], ¬ blank (cells.getLast h) :=
  rdropWhile_eq_self_iff

theorem trim_eq_nil_iff : trim blank cells = [] ↔ ∀ cell ∈ cells, blank cell :=
  rdropWhile_eq_nil_iff

theorem trim_trim (cells : List α) : trim blank (trim blank cells) = trim blank cells :=
  rdropWhile_idempotent _ _

theorem trim_append_blank (cells : List α) (hcell : blank cell) (count : Nat) :
    trim blank (cells ++ replicate count cell) = trim blank cells := by
  induction count with
  | zero => rw [replicate_zero, append_nil]
  | succ count ih =>
    rw [replicate_succ', ← append_assoc]
    exact (rdropWhile_concat_pos _ _ _ hcell).trans ih

/-- A trimmed list before which something is put stays trimmed, unless it is empty. -/
theorem trim_append (hxs : trim blank xs = xs) (hys : trim blank ys = ys) :
    trim blank (xs ++ ys) = xs ++ ys := by
  rw [trim_eq_iff] at hxs hys ⊢
  intro h
  by_cases hnil : ys = []
  · subst hnil
    simpa using hxs (by simpa using h)
  · rw [getLast_append_of_ne_nil _ hnil]
    exact hys hnil

/-! ## Reading rows -/

@[simp] theorem unwrap_nil : unwrap blank ([] : List (Row α)) = [] := rfl

theorem unwrap_not_wrapped (hrow : row.wrapped = false) (rest : List (Row α)) :
    unwrap blank (row :: rest) = trim blank row.cells :: unwrap blank rest := by
  rw [unwrap, hrow]
  rfl

theorem unwrap_wrapped (hrow : row.wrapped) (hrest : unwrap blank rest = line :: lines) :
    unwrap blank (row :: rest) = (trim blank row.cells ++ line) :: lines := by
  rw [unwrap, hrow, hrest]
  rfl

/-- Lines are trimmed. -/
theorem trim_of_mem_unwrap (h : line ∈ unwrap blank rows) : trim blank line = line := by
  induction rows generalizing line with
  | nil => exact absurd h (not_mem_nil)
  | cons row rest ih =>
    unfold unwrap at h
    split at h
    · split at h
      · rw [mem_singleton.mp h]
        exact trim_trim _
      · next first lines hrest =>
        obtain rfl | hmem := mem_cons.mp h
        · exact trim_append (trim_trim _) (ih (hrest ▸ mem_cons_self))
        · exact ih (hrest ▸ mem_cons_of_mem _ hmem)
    · obtain rfl | hmem := mem_cons.mp h
      · exact trim_trim _
      · exact ih hmem

/-- Only the trimmed cells and the flags of rows are read. -/
theorem unwrap_congr
    (h : xs.map (fun row => (trim blank row.cells, row.wrapped)) = ys.map (fun row => (trim blank row.cells, row.wrapped))) :
    unwrap blank xs = unwrap blank ys := by
  induction xs generalizing ys with
  | nil =>
    rw [map_eq_nil_iff.mp h.symm]
  | cons x xs ih =>
    cases ys with
    | nil => exact absurd h (cons_ne_nil _ _)
    | cons y ys =>
      obtain ⟨hhead, htail⟩ := cons.inj h
      obtain ⟨hcells, hwrapped⟩ := Prod.mk.inj hhead
      unfold unwrap
      rw [ih htail, hcells, hwrapped]

/-- Rows all of whose cells are blank hold nothing. -/
theorem unwrap_blank (h : ∀ row ∈ rows, ∀ cell ∈ row.cells, blank cell) :
    ∀ line ∈ unwrap blank rows, line = [] := by
  induction rows with
  | nil => exact fun line hline => absurd hline (not_mem_nil)
  | cons row rest ih =>
    have htrim : trim blank row.cells = [] := trim_eq_nil_iff.mpr (h row mem_cons_self)
    have hrest := ih fun row' hrow' => h row' (mem_cons_of_mem _ hrow')
    intro line hline
    unfold unwrap at hline
    rw [htrim] at hline
    split at hline
    · split at hline
      · exact mem_singleton.mp hline
      · next first lines heq =>
        obtain rfl | hmem := mem_cons.mp hline
        · exact hrest _ (heq ▸ mem_cons_self)
        · exact hrest _ (heq ▸ mem_cons_of_mem _ hmem)
    · obtain rfl | hmem := mem_cons.mp hline
      · rfl
      · exact hrest _ hmem

/-! ## Cutting lines -/

/-- A line that was cut is read as one line again. -/
theorem unwrap_cut_append (width cuts : Nat) (line : List α) (rest : List (Row α)) :
    unwrap blank (cut width cuts line ++ rest) =
      rejoin blank width cuts line :: unwrap blank rest := by
  induction cuts generalizing line with
  | zero => exact (unwrap_not_wrapped rfl rest).trans (by simp [rejoin, cut])
  | succ cuts ih =>
    unfold rejoin cut
    split
    · rw [cons_append, unwrap_wrapped rfl (ih _)]
      rfl
    · exact (unwrap_not_wrapped rfl rest).trans (by simp)

theorem unwrap_cutAll_append (width : Nat) (lines : List (List α)) (rest : List (Row α)) :
    unwrap blank (cutAll width lines ++ rest) =
      lines.map (fun line => rejoin blank width line.length line) ++ unwrap blank rest := by
  induction lines with
  | nil => rfl
  | cons line lines ih =>
    unfold cutAll
    rw [flatMap_cons, append_assoc, unwrap_cut_append, map_cons, cons_append]
    exact congrArg _ ih

theorem length_rejoin_le (blank : α → Bool) (width cuts : Nat) (line : List α) :
    (rejoin blank width cuts line).length ≤ line.length := by
  induction cuts generalizing line with
  | zero =>
    unfold rejoin cut
    simpa using length_trim_le blank line
  | succ cuts ih =>
    unfold rejoin cut
    split
    · have hhead := length_trim_le blank (line.take width)
      have htail := ih (line.drop width)
      unfold rejoin at htail
      rw [flatMap_cons, length_append]
      rw [length_take] at hhead
      rw [length_drop] at htail
      dsimp only
      omega
    · simpa using length_trim_le blank line

theorem trim_take_eq_iff (hwidth : 0 < width) (hlt : width < cells.length) :
    trim blank (cells.take width) = cells.take width ↔ ¬ blank cells[width - 1] := by
  have hne : cells.take width ≠ [] := by
    intro h
    have hlength := congrArg List.length h
    rw [length_take, length_nil] at hlength
    omega
  have hlast : (cells.take width).getLast hne = cells[width - 1] := by
    rw [getLast_eq_getElem, getElem_take]
    congr 1
    rw [length_take]
    omega
  rw [trim_eq_iff]
  constructor
  · intro h
    exact hlast ▸ h hne
  · intro h _
    exact hlast ▸ h

theorem trim_drop (hline : trim blank line = line) (count : Nat) :
    trim blank (line.drop count) = line.drop count := by
  rw [trim_eq_iff] at hline ⊢
  intro h
  have hne : line ≠ [] := fun hnil => h (by rw [hnil, drop_nil])
  rw [getLast_drop h]
  exact hline hne

theorem cutsAtText_iff_drop (hwidth : 0 < width) (hlt : width < cells.length) :
    CutsAtText blank width cells ↔
      ¬ blank cells[width - 1] ∧ CutsAtText blank width (cells.drop width) := by
  constructor
  · intro h
    refine ⟨?_, fun k hk hlength => ?_⟩
    · have hfirst := h 1 Nat.one_pos (by omega)
      simpa only [Nat.one_mul, get_eq_getElem] using hfirst
    · rw [length_drop] at hlength
      have hnext : (k + 1) * width < cells.length := by
        rw [Nat.add_mul, Nat.one_mul]
        omega
      have hcell := h (k + 1) (succ_pos k) hnext
      have hpos : 0 < k * width := Nat.mul_pos hk hwidth
      rw [get_eq_getElem, getElem_drop]
      have hindex : width + (k * width - 1) = (k + 1) * width - 1 := by
        rw [Nat.add_mul, Nat.one_mul]
        omega
      simpa only [hindex, get_eq_getElem] using hcell
  · rintro ⟨hfirst, hrest⟩ k hk hlength
    match k, hk with
    | 1, _ => simpa only [Nat.one_mul, get_eq_getElem] using hfirst
    | k + 2, _ =>
      have hmul : (k + 2) * width = width + (k + 1) * width := by
        rw [show k + 2 = 1 + (k + 1) by omega, Nat.add_mul, Nat.one_mul]
      have hdrop : (k + 1) * width < (cells.drop width).length := by
        rw [length_drop]
        omega
      have hcell := hrest (k + 1) (succ_pos k) hdrop
      have hpos : 0 < (k + 1) * width := Nat.mul_pos (succ_pos k) hwidth
      rw [get_eq_getElem, getElem_drop] at hcell
      have hindex : width + ((k + 1) * width - 1) = (k + 2) * width - 1 := by omega
      simpa only [hindex, get_eq_getElem] using hcell

/-- A line is read back whole exactly when no cut has a blank before it. -/
theorem rejoin_eq_iff (hwidth : 0 < width) (hcuts : line.length ≤ cuts)
    (hline : trim blank line = line) :
    rejoin blank width cuts line = line ↔ CutsAtText blank width line := by
  induction cuts generalizing line with
  | zero =>
    rw [eq_nil_of_length_eq_zero (le_zero.mp hcuts)]
    exact ⟨fun _ k _ h => absurd h (Nat.not_lt_zero _), fun _ => rfl⟩
  | succ cuts ih =>
    by_cases hlt : width < line.length
    · have hrejoin : rejoin blank width (cuts + 1) line =
          trim blank (line.take width) ++ rejoin blank width cuts (line.drop width) := by
        rw [rejoin, cut, if_pos hlt]
        rfl
      have hdrop : (line.drop width).length ≤ cuts := by
        rw [length_drop]
        omega
      have hrest := ih hdrop (trim_drop hline width)
      rw [hrejoin, cutsAtText_iff_drop hwidth hlt, ← hrest, ← trim_take_eq_iff hwidth hlt]
      constructor
      · intro heq
        have hhead := length_trim_le blank (line.take width)
        have htail := length_rejoin_le blank width cuts (line.drop width)
        have hlengths := congrArg List.length heq
        rw [length_append] at hlengths
        rw [length_take] at hhead
        rw [length_drop] at htail
        have hlength : (trim blank (line.take width)).length = (line.take width).length := by
          rw [length_take]
          omega
        exact append_inj (heq.trans (take_append_drop width line).symm) hlength
      · rintro ⟨hhead, htail⟩
        rw [hhead, htail, take_append_drop]
    · have hrejoin : rejoin blank width (cuts + 1) line = trim blank line := by
        rw [rejoin, cut, if_neg hlt]
        simp
      rw [hrejoin]
      refine ⟨fun _ k hk h => ?_, fun _ => hline⟩
      have hle : 1 * width ≤ k * width := Nat.mul_le_mul_right width hk
      omega

/-! ## The rows of a line -/

/-- How many rows a line takes. -/
def rowsOf (width : Nat) (line : List α) : Nat := max 1 ((line.length + width - 1) / width)

def rowsOfAll (width : Nat) (lines : List (List α)) : Nat := (lines.map (rowsOf width)).sum

theorem rowsOf_drop (hwidth : 0 < width) (hlt : width < line.length) :
    rowsOf width line = rowsOf width (line.drop width) + 1 := by
  have hrest : (line.drop width).length + width - 1 = line.length - 1 := by
    rw [length_drop]
    omega
  have hall : line.length + width - 1 = line.length - 1 + width := by omega
  have hpos : 1 ≤ (line.length - 1) / width := by
    rw [Nat.le_div_iff_mul_le hwidth]
    omega
  unfold rowsOf
  rw [hrest, hall, add_div_right _ hwidth]
  omega

theorem rowsOf_short (hwidth : 0 < width) (hle : line.length ≤ width) : rowsOf width line = 1 := by
  have hdiv : (line.length + width - 1) / width < 2 := by
    rw [Nat.div_lt_iff_lt_mul hwidth]
    omega
  unfold rowsOf
  omega

theorem length_cut (hwidth : 0 < width) (hcuts : line.length ≤ cuts) :
    (cut width cuts line).length = rowsOf width line := by
  induction cuts generalizing line with
  | zero => exact (rowsOf_short hwidth (by omega)).symm
  | succ cuts ih =>
    unfold cut
    split
    · next hlt =>
      have hdrop : (line.drop width).length ≤ cuts := by
        rw [length_drop]
        omega
      rw [length_cons, ih hdrop, rowsOf_drop hwidth hlt]
    · exact (rowsOf_short hwidth (by omega)).symm

theorem length_cutAll (hwidth : 0 < width) (lines : List (List α)) :
    (cutAll width lines).length = rowsOfAll width lines := by
  unfold cutAll rowsOfAll
  rw [length_flatMap]
  congr 2
  funext line
  exact length_cut hwidth (Nat.le_refl _)

theorem length_of_mem_cut (hwidth : 0 < width) (hcuts : line.length ≤ cuts)
    (hrow : row ∈ cut width cuts line) : row.cells.length ≤ width := by
  induction cuts generalizing line with
  | zero =>
    rw [mem_singleton.mp hrow]
    dsimp only
    omega
  | succ cuts ih =>
    unfold cut at hrow
    split at hrow
    · obtain rfl | hmem := mem_cons.mp hrow
      · rw [length_take]
        exact Nat.min_le_left _ _
      · refine ih ?_ hmem
        rw [length_drop]
        omega
    · rw [mem_singleton.mp hrow]
      dsimp only
      omega

/-- Only an empty line has an empty row. -/
theorem cells_ne_nil_of_mem_cut (hwidth : 0 < width) (hline : line ≠ [])
    (hrow : row ∈ cut width cuts line) : row.cells ≠ [] := by
  have hpos : 0 < line.length := length_pos_iff.mpr hline
  induction cuts generalizing line with
  | zero =>
    rw [mem_singleton.mp hrow]
    exact hline
  | succ cuts ih =>
    unfold cut at hrow
    split at hrow
    · next hlt =>
      obtain rfl | hmem := mem_cons.mp hrow
      · intro hnil
        have hlength := congrArg List.length hnil
        rw [length_take, length_nil] at hlength
        omega
      · have hdrop : 0 < (line.drop width).length := by
          rw [length_drop]
          omega
        exact ih (length_pos_iff.mp hdrop) hmem hdrop
    · rw [mem_singleton.mp hrow]
      exact hline

/-- The first rows are empty when the first lines are. -/
theorem take_cutAll_empty_iff (hwidth : 0 < width) (lines : List (List α)) (count : Nat) :
    (∀ row ∈ (cutAll width lines).take count, row.cells = []) ↔
      ∀ line ∈ lines.take count, line = [] := by
  induction lines generalizing count with
  | nil => simp [cutAll]
  | cons line lines ih =>
    cases count with
    | zero => simp
    | succ count =>
      have hcons : cutAll width (line :: lines) = cut width line.length line ++ cutAll width lines :=
        rfl
      by_cases hline : line = []
      · subst hline
        rw [hcons, show cut width ([] : List α).length [] = [⟨[], false⟩] from rfl,
          singleton_append, take_succ_cons, take_succ_cons, forall_mem_cons, forall_mem_cons, ih]
      · refine ⟨fun h => ?_, fun h => absurd (h line mem_cons_self) hline⟩
        obtain ⟨row, rest, hrow⟩ : ∃ row rest, cut width line.length line = row :: rest := by
          refine exists_cons_of_length_pos ?_
          rw [length_cut hwidth (Nat.le_refl _)]
          exact Nat.le_max_left _ _
        have hmem : row ∈ cut width line.length line := hrow ▸ mem_cons_self
        rw [hcons, hrow, cons_append, take_succ_cons] at h
        exact absurd (h row mem_cons_self) (cells_ne_nil_of_mem_cut hwidth hline hmem)

/-- A row that is continued holds text when no cut has a blank before it. -/
theorem not_blank_of_mem_cut (hwidth : 0 < width) (hline : CutsAtText blank width line)
    (hrow : row ∈ cut width cuts line) (hwrapped : row.wrapped)
    : ¬ ∀ cell ∈ row.cells, blank cell := by
  induction cuts generalizing line with
  | zero =>
    rw [mem_singleton.mp hrow] at hwrapped
    cases hwrapped
  | succ cuts ih =>
    unfold cut at hrow
    split at hrow
    · next hlt =>
      rw [cutsAtText_iff_drop hwidth hlt] at hline
      obtain rfl | hmem := mem_cons.mp hrow
      · intro hblank
        refine hline.1 (hblank _ ?_)
        rw [mem_take_iff_getElem]
        exact ⟨width - 1, by omega, rfl⟩
      · exact ih hline.2 hmem
    · rw [mem_singleton.mp hrow] at hwrapped
      cases hwrapped

/-! ## Laying out again -/

theorem getD_map_nil (f : List α → List α) (hf : f [] = []) (lines : List (List α)) (i : Nat) :
    (lines.map f).getD i [] = f (lines.getD i []) := by
  rw [List.getD_eq_getElem?_getD, List.getD_eq_getElem?_getD, List.getElem?_map]
  cases lines[i]? with
  | none => exact hf.symm
  | some line => rfl

/-- What some lines become in rows of another width, with blank rows after them, is the same
exactly when all cuts are at text. -/
theorem sameLines_cutAll_iff (hwidth : 0 < width) (hlines : ∀ line ∈ lines, trim blank line = line)
    (hrest : ∀ row ∈ rest, ∀ cell ∈ row.cells, blank cell) :
    SameLines (unwrap blank (cutAll width lines ++ rest)) lines ↔
      ∀ line ∈ lines, CutsAtText blank width line := by
  have hback (i : Nat) : (unwrap blank (cutAll width lines ++ rest)).getD i [] =
      rejoin blank width (lines.getD i []).length (lines.getD i []) := by
    rw [unwrap_cutAll_append, ← getD_map_nil (fun line => rejoin blank width line.length line) rfl]
    by_cases hi : i < (lines.map fun line => rejoin blank width line.length line).length
    · exact getD_append _ _ _ _ hi
    · rw [getD_append_right _ _ _ _ (Nat.le_of_not_lt hi),
        getD_eq_default _ _ (Nat.le_of_not_lt hi), List.getD_eq_getElem?_getD]
      cases hget : (unwrap blank rest)[i - (lines.map fun line =>
          rejoin blank width line.length line).length]? with
      | none => rfl
      | some line => exact unwrap_blank hrest line (mem_of_getElem? hget)
  constructor
  · intro h line hline
    obtain ⟨i, hi, rfl⟩ := mem_iff_getElem.mp hline
    have hsame := h i
    rw [hback, getD_eq_getElem _ _ hi] at hsame
    exact (rejoin_eq_iff hwidth (Nat.le_refl _) (hlines _ hline)).mp hsame
  · intro h i
    rw [hback]
    by_cases hi : i < lines.length
    · rw [getD_eq_getElem _ _ hi]
      have hmem := getElem_mem hi
      exact (rejoin_eq_iff hwidth (Nat.le_refl _) (hlines _ hmem)).mpr (h _ hmem)
    · rw [getD_eq_default _ _ (Nat.le_of_not_lt hi)]
      rfl

end

end WinCommander.Library
