/-
  A fixed table of optional entries, searched from the front.

  What the table holds is the list of its entries; filling an empty slot adds one entry to
  it, emptying a slot takes that entry away, and emptying every slot of a kind filters it.
-/
import Mathlib

namespace WinCommander.Library

open List Option

structure SlotTable (α : Type) (capacity : Nat) where
  slots : List (Option α)
  length_slots : slots.length = capacity

namespace SlotTable

variable {α : Type} {capacity : Nat}

def empty (capacity : Nat) : SlotTable α capacity :=
  { slots := List.replicate capacity none, length_slots := length_replicate }

def active (table : SlotTable α capacity) : List α := table.slots.reduceOption

/-- The first empty slot. -/
def freeSlot (table : SlotTable α capacity) : Option Nat :=
  table.slots.findIdx? (·.isNone)

/-- The first entry that meets the condition, and its slot. -/
def findEntry (table : SlotTable α capacity) (p : α → Bool) : Option (Nat × α) := do
  let slot ← table.slots.findIdx? (·.any p)
  let entry ← table.slots[slot]?.join
  return (slot, entry)

def assign (table : SlotTable α capacity) (slot : Nat) (entry : Option α) : SlotTable α capacity :=
  { slots := table.slots.set slot entry,
    length_slots := by rw [length_set, table.length_slots] }

/-- Empties every slot whose entry meets the condition. -/
def clearAll (table : SlotTable α capacity) (p : α → Bool) : SlotTable α capacity :=
  { slots := table.slots.map fun slot => slot.filter fun entry => !p entry,
    length_slots := by rw [length_map, table.length_slots] }

variable (table : SlotTable α capacity)

theorem active_empty : (empty capacity : SlotTable α capacity).active = [] :=
  reduceOption_replicate_none

theorem length_active_le : table.active.length ≤ capacity := by
  have h := reduceOption_length_le table.slots
  rw [table.length_slots] at h
  exact h

theorem reduceOption_cons (head : Option α) (rest : List (Option α)) :
    (head :: rest).reduceOption = head.toList ++ rest.reduceOption := by
  cases head <;> rfl

theorem reduceOption_set {slots : List (Option α)} {slot : Nat} {old : Option α} (new : Option α)
    (h : slots[slot]? = some old) :
    (old.toList ++ (slots.set slot new).reduceOption).Perm (new.toList ++ slots.reduceOption) := by
  induction slots generalizing slot with
  | nil => exact absurd h (by simp)
  | cons head rest ih =>
    cases slot with
    | zero =>
      rw [List.getElem?_cons_zero, Option.some.injEq] at h
      rw [h, set_cons_zero, reduceOption_cons, reduceOption_cons]
      exact perm_append_comm_assoc _ _ _
    | succ slot =>
      rw [List.getElem?_cons_succ] at h
      rw [set_cons_succ, reduceOption_cons, reduceOption_cons]
      exact (perm_append_comm_assoc _ _ _).trans
        (((ih h).append_left _).trans (perm_append_comm_assoc _ _ _))

/-- Filling a free slot adds the entry. -/
theorem active_assign_some (h : table.freeSlot = some slot) :
    (table.assign slot (some entry)).active.Perm (entry :: table.active) := by
  obtain ⟨hslot, hnone, -⟩ := List.findIdx?_eq_some_iff_getElem.mp h
  refine @reduceOption_set _ _ _ none (some entry) ?_
  rw [List.getElem?_eq_getElem hslot, isNone_iff_eq_none.mp hnone]

/-- What is found is an entry of the table, and clearing its slot takes it away. -/
theorem findEntry_eq_some (h : table.findEntry p = some (slot, entry)) :
    p entry ∧ table.active.Perm (entry :: (table.assign slot none).active) := by
  unfold findEntry at h
  rw [bind_eq_bind, bind_eq_some_iff] at h
  obtain ⟨found, hfound, h⟩ := h
  rw [bind_eq_bind, bind_eq_some_iff] at h
  obtain ⟨other, hother, h⟩ := h
  cases h
  obtain ⟨hslot, hany, -⟩ := List.findIdx?_eq_some_iff_getElem.mp hfound
  rw [List.getElem?_eq_getElem hslot] at hother
  have hget : table.slots[slot] = some entry := hother
  rw [hget] at hany
  refine ⟨hany, (@reduceOption_set _ _ _ (some entry) none ?_).symm⟩
  rw [List.getElem?_eq_getElem hslot, hget]

theorem active_clearAll (p : α → Bool) :
    (table.clearAll p).active = table.active.filter fun entry => !p entry := by
  unfold active clearAll
  dsimp only
  induction table.slots with
  | nil => rfl
  | cons head rest ih =>
    cases head with
    | none => exact ih
    | some entry =>
      rw [map_cons, reduceOption_cons_of_some, filter_cons]
      by_cases hp : p entry
      · have hnone : Option.filter (fun entry => !p entry) (some entry) = none := by simp [hp]
        rw [hnone, reduceOption_cons_of_none, ih, if_neg (by simp [hp])]
      · have hsome : Option.filter (fun entry => !p entry) (some entry) = some entry := by
          simp [hp]
        rw [hsome, reduceOption_cons_of_some, ih, if_pos (by simp [hp])]

end SlotTable

end WinCommander.Library
