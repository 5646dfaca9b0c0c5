/-
  Growable arrays with a capacity.

  The items fit the capacity, which is part of the value. How much more than requested an
  allocation provides is not said: each operation that may allocate takes that slack. The
  number of allocations tells whether an operation moved the items.
-/
import WinCommander.Library.Numeral

namespace WinCommander.Library

structure Growable (α : Type) where
  items : List α
  capacity : Nat
  allocations : Nat
  fits : items.length ≤ capacity
deriving DecidableEq

namespace Growable

variable {α : Type} (v : Growable α)

def empty : Growable α := ⟨[], 0, 0, Nat.le_refl _⟩

/-- An array that comes with its storage. -/
def ofList (items : List α) (slack : Nat) : Growable α :=
  ⟨items, items.length + slack, 0, Nat.le_add_right _ _⟩

/-- `reserve`: room for `n` items at least. -/
def reserve (n slack : Nat) : Growable α :=
  if h : n ≤ v.capacity then v
  else ⟨v.items, n + slack, v.allocations + 1,
    Nat.le_trans v.fits (Nat.le_trans (Nat.le_of_not_le h) (Nat.le_add_right _ _))⟩

/-- `emplace_back`, within the capacity or into a new allocation. -/
def emplaceBack (a : α) (slack : Nat) : Growable α :=
  if h : v.items.length < v.capacity then
    ⟨v.items ++ [a], v.capacity, v.allocations, by rw [List.length_append]; exact h⟩
  else ⟨v.items ++ [a], v.items.length + 1 + slack, v.allocations + 1,
    by rw [List.length_append]; exact Nat.le_add_right _ _⟩

def set (i : Nat) (a : α) : Growable α :=
  ⟨v.items.set i a, v.capacity, v.allocations, by rw [List.length_set]; exact v.fits⟩

@[simp] theorem items_reserve (n slack : Nat) : (v.reserve n slack).items = v.items := by
  unfold reserve
  split <;> rfl

theorem le_capacity_reserve (n slack : Nat) : n ≤ (v.reserve n slack).capacity := by
  unfold reserve
  split
  · next h => exact h
  · exact Nat.le_add_right _ _

@[simp] theorem items_set (i : Nat) (a : α) : (v.set i a).items = v.items.set i a := rfl

@[simp] theorem items_emplaceBack (a : α) (slack : Nat) :
    (v.emplaceBack a slack).items = v.items ++ [a] := by
  unfold emplaceBack
  split <;> rfl

/-- With room, nothing is allocated. -/
theorem emplaceBack_of_lt {v : Growable α} (h : v.items.length < v.capacity) (a : α) (slack : Nat) :
    (v.emplaceBack a slack).capacity = v.capacity ∧
      (v.emplaceBack a slack).allocations = v.allocations := by
  unfold emplaceBack
  rw [dif_pos h]
  exact ⟨rfl, rfl⟩

end Growable

end WinCommander.Library
