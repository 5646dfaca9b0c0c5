/-
  Tries: data at the nodes, and the children of a node in a table that is sorted by their keys.

  `find` walks down a path of keys. The rules say what replacing a child does to every walk.
-/
import Mathlib

namespace WinCommander.Library

open List

structure Trie (κ δ : Type) where
  data : δ
  children : List (κ × Trie κ δ) := []

namespace Trie

variable {κ δ : Type} [DecidableEq κ]

/-- A node below which there is nothing. -/
def leaf (data : δ) : Trie κ δ := { data }

def child (trie : Trie κ δ) (key : κ) : Option (Trie κ δ) := trie.children.lookup key

def find (trie : Trie κ δ) : List κ → Option (Trie κ δ)
  | [] => some trie
  | key :: path => (trie.child key).bind (·.find path)

variable {trie node : Trie κ δ} {key other : κ} {path : List κ}

theorem find_nil : trie.find [] = some trie := rfl

theorem find_cons : trie.find (key :: path) = (trie.child key).bind (·.find path) := rfl

theorem children_eq_nil : trie.children = [] ↔ ∀ key, trie.child key = none := by
  unfold child
  constructor
  · intro h key
    rw [h, lookup_nil]
  · intro h
    cases hrows : trie.children with
    | nil => rfl
    | cons row rows =>
      have hfirst := h row.1
      rw [hrows, lookup_cons, beq_self_eq_true] at hfirst
      cases hfirst

/-! ## Replacing a child -/

variable [LT κ] [DecidableLT κ]

/-- The rows stay sorted; a row of the same key is replaced. -/
def place (key : κ) (node : Trie κ δ) : List (κ × Trie κ δ) → List (κ × Trie κ δ)
  | [] => [(key, node)]
  | row :: rows =>
    if key = row.1 then (key, node) :: rows
    else if key < row.1 then (key, node) :: row :: rows
    else row :: place key node rows

def setChild (trie : Trie κ δ) (key : κ) (node : Trie κ δ) : Trie κ δ :=
  { trie with children := place key node trie.children }

theorem lookup_place (rows : List (κ × Trie κ δ)) :
    (place key node rows).lookup other = if other = key then some node else rows.lookup other := by
  induction rows with
  | nil =>
    rw [place, lookup_cons, lookup_nil]
    split_ifs with h
    · rw [beq_iff_eq.mpr h]
    · rw [beq_eq_false_iff_ne.mpr h]
  | cons row rows ih =>
    obtain ⟨first, found⟩ := row
    rw [place]
    by_cases hsame : key = first
    · rw [if_pos hsame, lookup_cons, lookup_cons, ← hsame]
      split_ifs with h
      · rw [beq_iff_eq.mpr h]
      · rw [beq_eq_false_iff_ne.mpr h]
    · rw [if_neg hsame]
      by_cases hlt : key < first
      · rw [if_pos hlt, lookup_cons]
        split_ifs with h
        · rw [beq_iff_eq.mpr h]
        · rw [beq_eq_false_iff_ne.mpr h]
      · rw [if_neg hlt, lookup_cons, lookup_cons, ih]
        by_cases h : other = key
        · rw [if_pos h, if_pos h, beq_eq_false_iff_ne.mpr (h ▸ hsame)]
        · rw [if_neg h, if_neg h]

/-- Only the walks through the child see that it is replaced. -/
theorem find_setChild : (trie.setChild key node).find (other :: path) =
    if other = key then node.find path else trie.find (other :: path) := by
  rw [find_cons, find_cons]
  unfold child setChild
  rw [lookup_place]
  by_cases h : other = key
  · rw [if_pos h, if_pos h, Option.bind_some]
  · rw [if_neg h, if_neg h]

end Trie

end WinCommander.Library
