/-
  `std::lower_bound` on places, as it bisects a range that need not be partitioned.

  The places that a search looks at on the way to a result depend on the result only (`probes`),
  so that the search ends there exactly if each of them answers as a partition at the result
  would (`lowerBound_eq_iff`).
-/
import Mathlib

namespace WinCommander.Library

variable {before : Nat → Bool}

/-- The range of `length` places from `first` on, halved until nothing is left; `fuel` bounds the
    number of rounds. -/
def bisect (before : Nat → Bool) : (fuel first length : Nat) → Nat
  | 0, first, _ => first
  | fuel + 1, first, length =>
    if length = 0 then first
    else
      let half := length / 2
      if before (first + half) then bisect before fuel (first + half + 1) (length - (half + 1))
      else bisect before fuel first half

/-- The first place among `n` that does not come before what is searched, if they are partitioned. -/
def lowerBound (before : Nat → Bool) (n : Nat) : Nat := bisect before n 0 n

/-- The places that a search with the given result looks at. -/
def probes (result : Nat) : (fuel first length : Nat) → List Nat
  | 0, _, _ => []
  | fuel + 1, first, length =>
    if length = 0 then []
    else
      let half := length / 2
      (first + half) ::
        if first + half < result then probes result fuel (first + half + 1) (length - (half + 1))
        else probes result fuel first half

/-- A search among `n` places for the place `result` is answered on its way as a partition there
    would answer. -/
def Bisects (before : Nat → Bool) (n result : Nat) : Prop :=
  ∀ place ∈ probes result n 0 n, before place = decide (place < result)

theorem bisect_bounds (before : Nat → Bool) (fuel first length : Nat) (hfuel : length ≤ fuel) :
    first ≤ bisect before fuel first length ∧ bisect before fuel first length ≤ first + length := by
  induction fuel generalizing first length with
  | zero =>
    have hzero : length = 0 := Nat.le_zero.mp hfuel
    exact ⟨Nat.le_refl _, Nat.le_add_right _ _⟩
  | succ fuel ih =>
    unfold bisect
    split_ifs
    · exact ⟨Nat.le_refl _, Nat.le_add_right _ _⟩
    · dsimp only
      split
      · have hrest := ih (first + length / 2 + 1) (length - (length / 2 + 1)) (by omega)
        omega
      · have hrest := ih first (length / 2) (by omega)
        omega

theorem bisect_eq_iff (before : Nat → Bool) (fuel first length result : Nat)
    (hfuel : length ≤ fuel) (hlow : first ≤ result) (hhigh : result ≤ first + length) :
    bisect before fuel first length = result ↔
      ∀ place ∈ probes result fuel first length, before place = decide (place < result) := by
  induction fuel generalizing first length with
  | zero =>
    have hzero : length = 0 := Nat.le_zero.mp hfuel
    refine iff_of_true ?_ fun _ hmem => nomatch hmem
    unfold bisect
    omega
  | succ fuel ih =>
    unfold bisect probes
    by_cases hzero : length = 0
    · rw [if_pos hzero, if_pos hzero]
      exact iff_of_true (by omega) fun _ hmem => nomatch hmem
    · rw [if_neg hzero, if_neg hzero]
      dsimp only
      have hright := bisect_bounds before fuel (first + length / 2 + 1)
        (length - (length / 2 + 1)) (by omega)
      have hleft := bisect_bounds before fuel first (length / 2) (by omega)
      rw [List.forall_mem_cons]
      cases hprobe : before (first + length / 2) with
      | true =>
        rw [if_pos rfl]
        by_cases hside : first + length / 2 < result
        · rw [if_pos hside, ih _ _ (by omega) (by omega) (by omega)]
          exact (and_iff_right (by simpa using hside)).symm
        · exact iff_of_false (by omega) fun h => hside (by simpa using h.1)
      | false =>
        rw [if_neg Bool.false_ne_true]
        by_cases hside : first + length / 2 < result
        · refine iff_of_false (by omega) fun h => ?_
          have hnot : decide (first + length / 2 < result) = false := h.1.symm
          exact of_decide_eq_false hnot hside
        · rw [if_neg hside, ih _ _ (by omega) hlow (by omega)]
          exact (and_iff_right (by simpa using hside)).symm

/-- The place where a search ends does not come before what is searched, whatever the order is. -/
theorem not_before_bisect (before : Nat → Bool) (fuel first length : Nat) (hfuel : length ≤ fuel)
    (h : bisect before fuel first length < first + length) :
    before (bisect before fuel first length) = false := by
  induction fuel generalizing first length with
  | zero =>
    unfold bisect at h
    omega
  | succ fuel ih =>
    unfold bisect at h ⊢
    split_ifs at h ⊢
    · omega
    dsimp only at h ⊢
    split_ifs at h ⊢ with hprobe
    · exact ih _ _ (by omega) (by omega)
    · rcases Nat.lt_or_ge (bisect before fuel first (length / 2)) (first + length / 2) with hlt | hge
      · exact ih _ _ (by omega) hlt
      · have hbounds := bisect_bounds before fuel first (length / 2) (by omega)
        rw [show bisect before fuel first (length / 2) = first + length / 2 by omega]
        exact Bool.eq_false_of_not_eq_true hprobe

theorem lowerBound_eq_iff (h : result ≤ n) :
    lowerBound before n = result ↔ Bisects before n result :=
  bisect_eq_iff before n 0 n result (Nat.le_refl n) (Nat.zero_le result) (by omega)

theorem not_before_lowerBound (before : Nat → Bool) (h : lowerBound before n < n) :
    before (lowerBound before n) = false :=
  not_before_bisect before n 0 n (Nat.le_refl n) (by rwa [Nat.zero_add])

end WinCommander.Library
