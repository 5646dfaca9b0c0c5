/-
  The line index of a text that is highlighted (`hl::Document`).

  The search for a position's line ends at the first line that does not start before it: a position
  inside of a line is given to the next one. So the lines are what they should be only if every
  line but the last is empty (`consistent_iff_emptyLines`).
-/
import WinCommander.Library.Bisection
import WinCommander.Library.Numeral

namespace WinCommander.Viewer.Document

open List Library Nat Option

def cr : UInt8 := 0x0D

def lf : UInt8 := 0x0A

section Source

variable (text : Bytes)

/-- The constructor adds a line behind the byte at `i`. -/
def breaks (i : Nat) : Bool := decide (text[i]? = some lf ∧ i < text.length - 1)

/-- `m_Lines`, of 32 bits each. -/
def lines : List Nat :=
  0 :: ((range text.length).filter (breaks text)).map fun i => (i + 1) % 2 ^ 32

def lineFromPosition (pos : Nat) : Nat :=
  let it := lowerBound (fun i => (lines text)[i]?.any (· < pos)) (lines text).length
  if it = (lines text).length then (lines text).length - 1 else it

def lineStart (line : Int) : Nat :=
  if line < 0 then 0 else (lines text).getD line.toNat text.length

def lineEnd (line : Int) : Int :=
  if line < 0 then 0
  else if (line + 1).toNat ≥ (lines text).length then text.length
  else
    let position : Int := (lines text).getD (line + 1).toNat 0 - 1
    if position > 0 ∧ text[(position - 1).toNat]? = some cr then position - 1 else position

end Source

/-! ## What the lines should be -/

section Purpose

variable (text : Bytes)

/-- The number of lines that end before the position. -/
def lineAt (pos : Nat) : Nat := (range pos).countP fun i => text[i]? = some lf

/-- The position of the terminator of a line, of one byte or of two. -/
def Terminates (line position : Nat) : Prop :=
  lineStart text line ≤ position ∧
    (text[position]? = some lf ∧ position + 1 = lineStart text (line + 1) ∧
        (∀ before, before + 1 = position → lineStart text line ≤ before → text[before]? ≠ some cr) ∨
      text[position]? = some cr ∧ text[position + 1]? = some lf ∧
        position + 2 = lineStart text (line + 1))

structure Consistent : Prop where
  contains : ∀ p < text.length, lineFromPosition text p = lineAt text p ∧
    lineStart text (lineFromPosition text p) ≤ p ∧ p < lineStart text (lineFromPosition text p + 1)
  monotone : ∀ p q, p ≤ q → q < text.length → lineFromPosition text p ≤ lineFromPosition text q
  increasing : ∀ line : Nat, line + 1 < (lines text).length →
    lineStart text line < lineStart text (line + 1)
  ends : ∀ line : Nat, line + 1 < (lines text).length →
    ∃ position : Nat, lineEnd text line = position ∧ Terminates text line position
  last : lineEnd text ((lines text).length - 1 : Nat) = text.length

/-- Every line that another one follows is its line feed only, and the table has room for it. -/
def EmptyLines : Prop :=
  ∀ i, i + 1 < text.length → text[i]? = some lf → i + 1 < 2 ^ 32 ∧ ∀ j < i, text[j]? = some lf

end Purpose

variable {text : Bytes}

theorem breaks_iff : breaks text i ↔ text[i]? = some lf ∧ i + 1 < text.length := by
  unfold breaks
  rw [decide_eq_true_eq, Nat.lt_sub_iff_add_lt]

theorem lineStart_natCast (line : Nat) :
    lineStart text line = (lines text).getD line text.length := by
  unfold lineStart
  rw [if_neg (by omega), Int.toNat_natCast]

/-! ## A table without gaps -/

/-- What is kept of the numbers below `n` if nothing is kept behind a number that is not. -/
theorem filter_range_eq {kept : Nat → Bool} (n : Nat) (h : ∀ i < n, kept i → ∀ j < i, kept j) :
    ∃ m, (range n).filter kept = range m := by
  induction n with
  | zero => exact ⟨0, rfl⟩
  | succ n ih =>
    rw [range_succ, filter_append]
    cases hkept : kept n with
    | true =>
      refine ⟨n + 1, ?_⟩
      rw [filter_eq_self.mpr fun j hj => h n (lt_succ_self n) hkept j (mem_range.mp hj),
        filter_singleton, hkept, range_succ]
      rfl
    | false =>
      obtain ⟨m, hm⟩ := ih fun i hi => h i (lt_succ_of_lt hi)
      refine ⟨m, ?_⟩
      rw [hm, filter_singleton, hkept]
      exact append_nil _

theorem countP_lt_range (m p : Nat) : (range p).countP (fun i => decide (i < m)) = min p m := by
  induction p with
  | zero => exact (Nat.zero_min m).symm
  | succ p ih =>
    rw [range_succ, countP_append, ih, countP_singleton]
    simp only [decide_eq_true_eq]
    split <;> omega

/-- The lines of such a text start one behind the other. -/
theorem lines_eq (h : EmptyLines text) :
    ∃ m, lines text = range (m + 1) ∧ ∀ i, breaks text i ↔ i < m := by
  obtain ⟨m, hm⟩ := @filter_range_eq (breaks text) text.length fun i _ hbreak j hj => by
    obtain ⟨hlf, hlt⟩ := breaks_iff.mp hbreak
    exact breaks_iff.mpr ⟨(h i hlt hlf).2 j hj, by omega⟩
  have hbreaks : ∀ i, breaks text i ↔ i < m := by
    intro i
    rw [← mem_range, ← hm, mem_filter, mem_range]
    exact (and_iff_right_of_imp fun hbreak => by have := (breaks_iff.mp hbreak).2; omega).symm
  refine ⟨m, ?_, hbreaks⟩
  unfold lines
  rw [hm, range_succ_eq_map]
  refine congrArg _ (map_congr_left fun i hi => ?_)
  obtain ⟨hlf, hlt⟩ := breaks_iff.mp ((hbreaks i).mpr (mem_range.mp hi))
  exact mod_eq_of_lt (h i hlt hlf).1

section Gapless

variable {m : Nat}

theorem lineAt_eq (hbreaks : ∀ i, breaks text i ↔ i < m) (hp : p < text.length)
    : lineAt text p = min p m := by
  rw [← countP_lt_range]
  refine countP_congr fun i hi => ?_
  rw [decide_eq_true_eq, decide_eq_true_eq, ← hbreaks, breaks_iff]
  have hlt := mem_range.mp hi
  exact (and_iff_left (by omega)).symm

variable (hlines : lines text = range (m + 1))

include hlines

theorem lineFromPosition_eq (p : Nat) : lineFromPosition text p = min p m := by
  have hbound : lowerBound (fun i => (lines text)[i]?.any (· < p)) (lines text).length =
      min p (m + 1) := by
    rw [hlines, length_range, lowerBound_eq_iff (Nat.min_le_right _ _)]
    intro i _
    dsimp only
    by_cases hi : i < m + 1
    · rw [getElem?_range hi, any_some]
      exact decide_eq_decide.mpr (by omega)
    · rw [getElem?_eq_none (by rw [length_range]; omega), any_none]
      exact (decide_eq_false (by omega)).symm
  unfold lineFromPosition
  rw [hbound, hlines, length_range]
  dsimp only
  split <;> omega

theorem lineStart_of_le {line : Nat} (h : line ≤ m) : lineStart text line = line := by
  rw [lineStart_natCast, hlines, getD_eq_getElem?_getD, getElem?_range (lt_succ_of_le h)]
  rfl

theorem lineStart_of_gt {line : Nat} (h : m < line) : lineStart text line = text.length := by
  rw [lineStart_natCast, hlines, getD_eq_default]
  rwa [length_range]

variable (hbreaks : ∀ i, breaks text i = true ↔ i < m)

include hbreaks

theorem lineEnd_eq {line : Nat} (h : line < m) : lineEnd text line = line := by
  have hposition : ((lines text).getD ((line : Int) + 1).toNat 0 : Int) - 1 = line := by
    rw [hlines, getD_eq_getElem?_getD, getElem?_range (by omega)]
    show ((((line : Int) + 1).toNat : Nat) : Int) - 1 = line
    omega
  unfold lineEnd
  rw [if_neg (by omega), if_neg (by rw [hlines, length_range]; omega)]
  rw [hposition, if_neg]
  rintro ⟨hpos, hcr⟩
  have hlf := (breaks_iff.mp ((hbreaks ((line : Int) - 1).toNat).mpr (by omega))).1
  rw [hlf] at hcr
  cases hcr

theorem consistent_of_range : Consistent text := by
  refine ⟨?_, ?_, ?_, ?_, ?_⟩
  · intro p hp
    rw [lineFromPosition_eq hlines, lineStart_of_le hlines (Nat.min_le_right p m)]
    refine ⟨(lineAt_eq hbreaks hp).symm, Nat.min_le_left p m, ?_⟩
    by_cases hlast : p < m
    · rw [← cast_add_one, lineStart_of_le hlines (by omega)]
      omega
    · rw [← cast_add_one, lineStart_of_gt hlines (by omega)]
      exact hp
  · intro p q hpq _
    rw [lineFromPosition_eq hlines, lineFromPosition_eq hlines]
    omega
  · intro line hline
    rw [hlines, length_range] at hline
    rw [← cast_add_one, lineStart_of_le hlines (by omega), lineStart_of_le hlines (by omega)]
    exact lt_succ_self line
  · intro line hline
    rw [hlines, length_range] at hline
    have hlf := (breaks_iff.mp ((hbreaks line).mpr (by omega))).1
    refine ⟨line, lineEnd_eq hlines hbreaks (by omega), ?_⟩
    unfold Terminates
    rw [← cast_add_one, lineStart_of_le hlines (by omega), lineStart_of_le hlines (by omega)]
    exact ⟨Nat.le_refl _, .inl ⟨hlf, rfl, fun before _ _ => by omega⟩⟩
  · unfold lineEnd
    rw [hlines, length_range, if_neg (by omega), if_pos (by omega)]

end Gapless

/-! ## Texts with other lines -/

theorem getElem?_filter_range (hi : i < n) (h : kept i) :
    ((range n).filter kept)[(range i).countP kept]? = some i := by
  induction n with
  | zero => omega
  | succ n ih =>
    rw [range_succ, filter_append]
    by_cases hlast : i = n
    · subst hlast
      rw [countP_eq_length_filter, getElem?_append_right (Nat.le_refl _), Nat.sub_self,
        filter_singleton, h]
      rfl
    · have hbefore := ih (by omega)
      rw [getElem?_append_left (List.getElem?_eq_some_iff.mp hbefore).1, hbefore]

theorem lines_behind (h : breaks text i) :
    (lines text)[lineAt text i + 1]? = some ((i + 1) % 2 ^ 32) := by
  have hlt := (breaks_iff.mp h).2
  have hline : lineAt text i = (range i).countP (breaks text) := by
    refine countP_congr fun j hj => ?_
    rw [breaks_iff, decide_eq_true_eq]
    have hj := mem_range.mp hj
    exact (and_iff_left (by omega)).symm
  unfold lines
  rw [getElem?_cons_succ, hline, getElem?_map, getElem?_filter_range (by omega) h]
  rfl

theorem emptyLines_of_consistent (h : Consistent text) : EmptyLines text := by
  intro i hlt hlf
  have hbehind := lines_behind (breaks_iff.mpr ⟨hlf, hlt⟩)
  obtain ⟨hfound, -, hbefore⟩ := h.contains i (by omega)
  refine ⟨?_, ?_⟩
  · -- the next start is behind the position, which a start that was cut is not
    rw [hfound, ← cast_add_one, lineStart_natCast, getD_eq_getElem?_getD, hbehind] at hbefore
    change i < (i + 1) % 2 ^ 32 at hbefore
    omega
  · intro j hj
    by_contra hother
    have hsame : lineAt text (j + 1) = lineAt text j := by
      unfold lineAt
      rw [range_succ, countP_append, countP_singleton, if_neg (by simpa using hother), Nat.add_zero]
    obtain ⟨hline, hstart, -⟩ := h.contains j (by omega)
    have hnext := (h.contains (j + 1) (by omega)).1
    have hmono : lineAt text (j + 1) ≤ lineAt text i := by
      refine Sublist.countP_le (range_sublist.mpr (succ_le_of_lt hj))
    have hlength := (List.getElem?_eq_some_iff.mp hbehind).1
    rw [hsame] at hnext hmono
    rw [hline, lineStart_natCast] at hstart
    unfold lineFromPosition at hnext
    dsimp only at hnext
    split at hnext
    · omega
    · have hnot := not_before_lowerBound (fun i => (lines text)[i]?.any (· < j + 1))
        (n := (lines text).length) (by omega)
      rw [hnext, getElem?_eq_getElem (by omega), any_some, decide_eq_false_iff_not] at hnot
      rw [getD_eq_getElem _ _ (by omega)] at hstart
      omega

/-- The lines are consistent exactly if every line but the last one is empty. -/
theorem consistent_iff_emptyLines (text : Bytes) : Consistent text ↔ EmptyLines text := by
  refine ⟨emptyLines_of_consistent, fun h => ?_⟩
  obtain ⟨m, hlines, hbreaks⟩ := lines_eq h
  exact consistent_of_range hlines hbreaks

/-- The line feed of the first of two lines is given to the second. -/
theorem not_consistent_two : ¬Consistent [0x61, lf, 0x62] := by
  intro h
  have hfound := (h.contains 1 (by decide)).1
  cases hfound

end WinCommander.Viewer.Document
