/-
  Subsequences found greedily: what is wanted first is taken where it is first found.
-/
import Mathlib

namespace WinCommander.Library

open List

variable {α : Type} {wanted : α} {rest : List α}

/-- What is skipped does not matter to what is wanted first. -/
theorem sublist_skip {skipped tail : List α} (hskipped : ∀ a ∈ skipped, a ≠ wanted) :
    (wanted :: rest).Sublist (skipped ++ wanted :: tail) ↔ rest.Sublist tail := by
  induction skipped with
  | nil => exact cons_sublist_cons
  | cons a skipped ih =>
    obtain ⟨hne, hskipped⟩ := forall_mem_cons.mp hskipped
    rw [cons_append, ← ih hskipped]
    constructor
    · intro h
      cases h with
      | cons _ h => exact h
      | cons_cons _ h => exact absurd rfl hne
    · exact fun h => h.cons a

/-- The same with the place where it is first found. -/
theorem sublist_first {xs : List α} (hfound : xs[k]? = some wanted)
    (hfirst : ∀ j < k, xs[j]? ≠ some wanted) :
    (wanted :: rest).Sublist xs ↔ rest.Sublist (xs.drop (k + 1)) := by
  obtain ⟨hk, heq⟩ := List.getElem?_eq_some_iff.mp hfound
  have hsplit : xs = xs.take k ++ wanted :: xs.drop (k + 1) := by
    rw [← heq, ← drop_eq_getElem_cons hk, take_append_drop]
  have hskipped : ∀ a ∈ xs.take k, a ≠ wanted := by
    intro a ha hwanted
    obtain ⟨j, hj, hget⟩ := mem_iff_getElem.mp ha
    rw [length_take] at hj
    rw [getElem_take] at hget
    refine hfirst j (by omega) ?_
    rw [List.getElem?_eq_getElem (by omega), hget, hwanted]
  conv_lhs => rw [hsplit]
  exact sublist_skip hskipped

end WinCommander.Library
