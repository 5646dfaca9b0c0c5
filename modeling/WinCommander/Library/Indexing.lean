/-
  Lists as arrays of entries: single entries changed in place, one after the other, and the
  table that says where an index stands in a list of indices.
-/
import Mathlib

namespace WinCommander.Library

open List

variable {α : Type}

theorem getD_modify (xs : List α) (k : Nat) (f : α → α) (i : Nat) (d : α) :
    (xs.modify k f).getD i d = if k = i ∧ i < xs.length then f (xs.getD i d) else xs.getD i d := by
  rw [List.getD_eq_getElem?_getD, List.getD_eq_getElem?_getD, List.getElem?_modify]
  by_cases hi : i < xs.length
  · rw [List.getElem?_eq_getElem hi]
    by_cases hk : k = i
    · simp [hk, hi]
    · simp [hk]
  · simp [hi]

theorem getD_map_default (hf : f d = d) (xs : List α) (i : Nat) :
    (xs.map f).getD i d = f (xs.getD i d) := by
  rw [List.getD_eq_getElem?_getD, List.getD_eq_getElem?_getD, List.getElem?_map]
  cases xs[i]? with
  | none => exact hf.symm
  | some a => rfl

section Fold

variable {f : Nat → α → α} (ks : List Nat) (xs : List α)

theorem length_foldl_modify : (ks.foldl (fun xs k => xs.modify k (f k)) xs).length = xs.length := by
  induction ks generalizing xs with
  | nil => rfl
  | cons k ks ih =>
    rw [foldl_cons, ih, length_modify]

/-- Changes that have the same effect the second time reach each entry named. -/
theorem getD_foldl_modify (hagain : ∀ k a, f k (f k a) = f k a) (hi : i < xs.length) (d : α) :
    (ks.foldl (fun xs k => xs.modify k (f k)) xs).getD i d =
      if i ∈ ks then f i (xs.getD i d) else xs.getD i d := by
  induction ks generalizing xs with
  | nil => rfl
  | cons k ks ih =>
    have hlength : i < (xs.modify k (f k)).length := by
      rw [length_modify]
      exact hi
    rw [foldl_cons, ih _ hlength, getD_modify]
    by_cases hk : k = i
    · subst hk
      simp [hi, hagain]
    · have hne : i ≠ k := fun h => hk h.symm
      simp [hk, hne]

end Fold

/-- The places of a list are written into a table at the indices that stand there. -/
def place (table : List (Option Nat)) (entries : List (Nat × Nat)) : List (Option Nat) :=
  entries.foldl (fun table (index, spot) => table.set index (some spot)) table

theorem length_place (table : List (Option Nat)) (entries : List (Nat × Nat)) :
    (place table entries).length = table.length := by
  unfold place
  induction entries generalizing table with
  | nil => rfl
  | cons e entries ih =>
    rw [foldl_cons, ih]
    exact length_set

theorem getD_place (table : List (Option Nat)) (xs : List Nat) (start : Nat) (hnodup : xs.Nodup)
    (hindex : index < table.length) : (place table (xs.zipIdx start)).getD index none =
      if index ∈ xs then some (start + xs.idxOf index) else table.getD index none := by
  unfold place
  induction xs generalizing table start with
  | nil => rfl
  | cons x xs ih =>
    obtain ⟨hx, hnodup⟩ := nodup_cons.mp hnodup
    have hlength : index < (table.set x (some start)).length := by
      rw [length_set]
      exact hindex
    rw [zipIdx_cons, foldl_cons, ih _ _ hnodup hlength]
    by_cases heq : x = index
    · subst heq
      rw [if_neg hx, if_pos mem_cons_self, idxOf_cons_self]
      simp [hindex]
    · have hne : index ≠ x := fun h => heq h.symm
      simp [heq, hne, Nat.add_assoc, Nat.add_comm 1]

/-- A sum over indices when the share of one of them changes. -/
theorem sum_map_of_differs [AddCommGroup M] {f g : Nat → M} {xs : List Nat} (hnodup : xs.Nodup)
    (ha : a ∈ xs) (hsame : ∀ b, b ≠ a → f b = g b) :
    (xs.map f).sum = (xs.map g).sum + (f a - g a) := by
  induction xs with
  | nil => exact absurd ha not_mem_nil
  | cons x xs ih =>
    obtain ⟨hx, hnodup⟩ := nodup_cons.mp hnodup
    rw [map_cons, map_cons, sum_cons, sum_cons]
    rcases mem_cons.mp ha with rfl | ha
    · have htail : xs.map f = xs.map g := by
        apply map_congr_left
        intro b hb
        exact hsame b fun heq => hx (heq ▸ hb)
      rw [htail]
      abel
    · have hne : x ≠ a := fun heq => hx (heq ▸ ha)
      rw [ih hnodup ha, hsame x hne]
      abel

end WinCommander.Library
