/-
  Finite maps from a key to a list of values, each value once.

  `add` and `remove` are described by what is a value of which key after them, for one value and for
  one value under a list of keys.
-/
import Mathlib

namespace WinCommander.Library

open AList List

variable {κ τ : Type} [DecidableEq κ]

abbrev Multimap (κ τ : Type) := AList fun _ : κ => List τ

namespace Multimap

/-- The values of a key; none when the key is not there. -/
def valuesOf (map : Multimap κ τ) (key : κ) : List τ := (map.lookup key).getD []

theorem valuesOf_insert (map : Multimap κ τ) (key key' : κ) (values : List τ) :
    valuesOf (map.insert key values) key' = if key' = key then values else map.valuesOf key' := by
  unfold valuesOf
  split_ifs with h
  · rw [h, lookup_insert]
    rfl
  · rw [lookup_insert_ne h]

theorem valuesOf_erase (map : Multimap κ τ) (key key' : κ) :
    valuesOf (map.erase key) key' = if key' = key then [] else map.valuesOf key' := by
  unfold valuesOf
  split_ifs with h
  · rw [h, lookup_erase]
    rfl
  · rw [lookup_erase_ne h]

variable [DecidableEq τ]

def add (map : Multimap κ τ) (key : κ) (value : τ) : Multimap κ τ :=
  match map.lookup key with
  | none => map.insert key [value]
  | some values => if value ∈ values then map else map.insert key (values ++ [value])

/-- A key without values is dropped. -/
def remove (map : Multimap κ τ) (key : κ) (value : τ) : Multimap κ τ :=
  match map.lookup key with
  | none => map
  | some values =>
    let kept := values.filter (· ≠ value)
    if kept = [] then map.erase key else map.insert key kept

theorem mem_add {map : Multimap κ τ} : value' ∈ (map.add key value).valuesOf key' ↔
      value' ∈ map.valuesOf key' ∨ key' = key ∧ value' = value := by
  unfold add
  cases hlookup : map.lookup key with
  | none =>
    have hnone : map.valuesOf key = [] := by
      unfold valuesOf
      rw [hlookup]
      rfl
    rw [valuesOf_insert]
    by_cases h : key' = key
    · rw [if_pos h, h, hnone]
      simp
    · simp [h]
  | some values =>
    have hsome : map.valuesOf key = values := by
      unfold valuesOf
      rw [hlookup]
      rfl
    dsimp only
    split_ifs with hmem
    · constructor
      · exact .inl
      · rintro (h | ⟨rfl, rfl⟩)
        · exact h
        · rw [hsome]
          exact hmem
    · rw [valuesOf_insert]
      by_cases h : key' = key
      · rw [if_pos h, h, hsome]
        simp
      · simp [h]

theorem mem_remove {map : Multimap κ τ} : value' ∈ (map.remove key value).valuesOf key' ↔
      value' ∈ map.valuesOf key' ∧ ¬(key' = key ∧ value' = value) := by
  unfold remove
  cases hlookup : map.lookup key with
  | none =>
    have hnone : map.valuesOf key = [] := by
      unfold valuesOf
      rw [hlookup]
      rfl
    dsimp only
    constructor
    · intro h
      refine ⟨h, fun heq => ?_⟩
      rw [heq.1, hnone] at h
      exact not_mem_nil h
    · exact And.left
  | some values =>
    have hsome : map.valuesOf key = values := by
      unfold valuesOf
      rw [hlookup]
      rfl
    have hkept : ∀ value', value' ∈ values.filter (· ≠ value) ↔ value' ∈ values ∧ value' ≠ value := by
      simp [mem_filter]
    dsimp only
    by_cases h : key' = key
    · rw [h, hsome]
      split
      next hnil =>
        rw [valuesOf_erase, if_pos rfl, ← hnil, hkept]
        simp
      next =>
        rw [valuesOf_insert, if_pos rfl, hkept]
        simp
    · split
      · rw [valuesOf_erase]
        simp [h]
      · rw [valuesOf_insert]
        simp [h]

theorem mem_foldl_remove {map : Multimap κ τ} {keys : List κ} :
    value' ∈ (keys.foldl (fun map key => map.remove key value) map).valuesOf key' ↔
      value' ∈ map.valuesOf key' ∧ ¬(key' ∈ keys ∧ value' = value) := by
  induction keys generalizing map with
  | nil => simp
  | cons key keys ih =>
    rw [foldl_cons, ih, mem_remove, mem_cons]
    grind

end Multimap

end WinCommander.Library
