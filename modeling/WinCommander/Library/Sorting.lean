/-
  Sorting by a comparison that is a strict weak order.

  A sort is known by what it promises only: for such a comparison it returns a permutation of
  its input in order.
-/
import Mathlib

namespace WinCommander.Library

open List

variable {α β : Type} {less : α → α → Bool}

/-- What a sort asks of its comparison. -/
structure StrictWeakOrder (less : α → α → Bool) : Prop where
  asymm : ∀ {a b : α}, less a b = true → less b a = false
  negTrans : ∀ {a b c : α}, less a b = false → less b c = false → less a c = false

/-- No element is less than one before it. -/
def Ordered (less : α → α → Bool) (xs : List α) : Prop := xs.Pairwise fun a b => less b a = false

namespace StrictWeakOrder

/-- The comparison by a key. -/
theorem on (h : StrictWeakOrder less) (f : β → α) :
    StrictWeakOrder fun a b => less (f a) (f b) where
  asymm hab := h.asymm hab
  negTrans hab hbc := h.negTrans hab hbc

/-- The same order backwards. -/
theorem flip (h : StrictWeakOrder less) : StrictWeakOrder fun a b => less b a where
  asymm hab := h.asymm hab
  negTrans hab hbc := h.negTrans hbc hab

section
variable (cmp : α → α → Ordering)
include cmp

theorem isLE_of_isLT_false [Std.OrientedCmp cmp] (h : (cmp a b).isLT = false) : (cmp b a).isLE := by
  have hswap : cmp b a = (cmp a b).swap := Std.OrientedCmp.eq_swap
  rw [hswap]
  cases hcmp : cmp a b <;> simp_all

/-- A lawful three-way comparison orders by its first result. -/
theorem of_isLT [Std.TransCmp cmp] : StrictWeakOrder fun a b => (cmp a b).isLT where
  asymm {a b} hab := by
    have hswap : cmp b a = (cmp a b).swap := Std.OrientedCmp.eq_swap
    rw [hswap, Ordering.isLT_swap]
    cases hcmp : cmp a b <;> simp_all
  negTrans {a b c} hab hbc := by
    have hca : (cmp c a).isLE :=
      Std.TransCmp.isLE_trans (isLE_of_isLT_false cmp hbc) (isLE_of_isLT_false cmp hab)
    have hswap : cmp a c = (cmp c a).swap := Std.OrientedCmp.eq_swap
    rw [hswap]
    cases hcmp : cmp c a <;> simp_all

/-- A three-way comparison of keys. -/
theorem transCmp_on [Std.TransCmp cmp] (f : β → α) : Std.TransCmp fun a b => cmp (f a) (f b) where
  eq_swap := Std.OrientedCmp.eq_swap
  isLE_trans := Std.TransCmp.isLE_trans

end

end StrictWeakOrder

/-- An element that is not skipped stands at the front of what is left, or behind the front. -/
theorem dropWhile_of_pairwise {skip : α → Bool} {R : α → α → Prop} {xs : List α}
    (hsorted : xs.Pairwise R) {x : α} (hx : x ∈ xs) (hkeep : skip x = false) :
    ∃ head rest, xs.dropWhile skip = head :: rest ∧ skip head = false ∧
      (x = head ∨ R head x ∧ x ∈ rest) := by
  induction xs with
  | nil => exact absurd hx not_mem_nil
  | cons a xs ih =>
    obtain ⟨hhead, htail⟩ := pairwise_cons.mp hsorted
    rw [dropWhile_cons]
    cases ha : skip a with
    | true =>
      rw [if_pos rfl]
      rcases mem_cons.mp hx with rfl | hmem
      · rw [ha] at hkeep
        exact absurd hkeep.symm Bool.false_ne_true
      · exact ih htail hmem
    | false =>
      rw [if_neg Bool.false_ne_true]
      rcases mem_cons.mp hx with rfl | hmem
      · exact ⟨x, xs, rfl, ha, Or.inl rfl⟩
      · exact ⟨a, xs, rfl, ha, Or.inr ⟨hhead x hmem, hmem⟩⟩

/-- A sorting routine, with the number of times that it calls the comparison. -/
structure Sorter (α : Type) where
  sort : (α → α → Bool) → List α → List α
  comparisons : (α → α → Bool) → List α → Nat
  perm : ∀ {less : α → α → Bool} (xs : List α), StrictWeakOrder less → (sort less xs).Perm xs
  ordered : ∀ {less : α → α → Bool} (xs : List α), StrictWeakOrder less →
    Ordered less (sort less xs)

/-- Insertion sort, which compares each element at most with all others. -/
def Sorter.insertion : Sorter α where
  sort less xs := xs.insertionSort fun a b => less b a = false
  comparisons _ xs := xs.length
  perm xs _ := perm_insertionSort _ xs
  ordered {less} xs h := by
    have htotal : Std.Total fun a b => less b a = false := ⟨fun a b => by
      by_cases hba : less b a = true
      · exact Or.inr (h.asymm hba)
      · exact Or.inl (by simpa using hba)⟩
    have htrans : IsTrans α fun a b => less b a = false := ⟨fun a b c hab hbc =>
      h.negTrans hbc hab⟩
    exact pairwise_insertionSort _ xs

end WinCommander.Library
