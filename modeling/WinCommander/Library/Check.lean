/-
  Checks that refuse with an error, and what a successful run of them says.

  A function that validates its input is a sequence of `refuse c e` steps. `seq_ok_iff`
  and `refuse_ok_iff` turn the success of the whole sequence into the conjunction of the
  negated conditions, so no proof about such a function unfolds the sequence twice.
-/
import Mathlib

namespace WinCommander.Library

variable {ε α β : Type}

/-- Stop with `e` when `c` holds. -/
def refuse (c : Prop) [Decidable c] (e : ε) : Except ε Unit :=
  if c then .error e else .ok ()

/-- The value of `o`, or the error `e`. -/
def demand (o : Option α) (e : ε) : Except ε α :=
  match o with
  | some a => .ok a
  | none => .error e

@[simp] theorem refuse_of [Decidable c] (e : ε) (h : c) : refuse c e = .error e :=
  if_pos h

@[simp] theorem refuse_of_not [Decidable c] (e : ε) (h : ¬c) : refuse c e = .ok () :=
  if_neg h

@[simp] theorem refuse_ok_iff [Decidable c] : refuse c e = .ok u ↔ ¬c := by
  unfold refuse
  split_ifs with h <;> simp [h]

@[simp] theorem demand_some (a : α) (e : ε) : demand (some a) e = .ok a := rfl

@[simp] theorem demand_none (e : ε) : demand (none : Option α) e = .error e := rfl

@[simp] theorem demand_ok_iff : demand o e = .ok a ↔ o = some a := by
  cases o <;> simp

@[simp] theorem ok_bind (a : α) (f : α → Except ε β) : (Except.ok a >>= f) = f a := rfl

@[simp] theorem error_bind (e : ε) (f : α → Except ε β) :
    ((Except.error e : Except ε α) >>= f) = .error e := rfl

@[simp] theorem pure_ok (a : α) : (pure a : Except ε α) = .ok a := rfl

@[simp] theorem mapError_ok_iff {x : Except ε α} : x.mapError f = .ok a ↔ x = .ok a := by
  cases x <;> simp [Except.mapError]

theorem map_ok_iff {x : Except ε α} : x.map f = .ok b ↔ ∃ a, x = .ok a ∧ f a = b := by
  cases x <;> simp [Except.map]

theorem bind_ok_iff {f : α → Except ε β} : x >>= f = .ok b ↔ ∃ a, x = .ok a ∧ f a = .ok b := by
  cases x <;> simp

theorem seq_ok_iff {f : Unit → Except ε β} : x >>= f = .ok b ↔ x = .ok () ∧ f () = .ok b := by
  cases x <;> simp

/-- The values of a list one after another, up to the first error. -/
def traverse (f : α → Except ε β) : List α → Except ε (List β)
  | [] => .ok []
  | a :: as => do
      let b ← f a
      let bs ← traverse f as
      return b :: bs

theorem traverse_ok (f : α → Except ε β) (g : α → β) (as : List α)
    (h : ∀ a ∈ as, f a = .ok (g a)) : traverse f as = .ok (as.map g) := by
  induction as with
  | nil => rfl
  | cons a as ih =>
    rw [traverse, h a List.mem_cons_self, ok_bind, ih fun x hx => h x (List.mem_cons_of_mem _ hx)]
    rfl

end WinCommander.Library
