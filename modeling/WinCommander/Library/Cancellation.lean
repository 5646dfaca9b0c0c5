/-
  Computations that ask now and then whether they are cancelled.

  What such a computation does between two questions does not depend on the answers, as an
  answer of yes ends it. It is its result and the number of questions on the way to it.
-/
import Mathlib

namespace WinCommander.Library

variable {α β : Type}

/-- A result, and how often the checker is asked before it is there. -/
structure Polled (α : Type) where
  polls : Nat
  result : α

namespace Polled

instance : Monad Polled where
  pure a := ⟨0, a⟩
  bind x f := ⟨x.polls + (f x.result).polls, (f x.result).result⟩

@[simp] theorem result_pure (a : α) : (pure a : Polled α).result = a := rfl

@[simp] theorem result_bind (x : Polled α) (f : α → Polled β) :
    (x >>= f).result = (f x.result).result := rfl

/-- One question. -/
def poll : Polled Unit := ⟨1, ()⟩

/-- The questions of a loop of `n` rounds that asks in every round divisible by `stride`. -/
def pollEvery (stride n : Nat) : Polled Unit := ⟨(n + stride - 1) / stride, ()⟩

/-- The questions of a comparison called `n` times, which asks at every multiple of `stride`. -/
def pollCalls (stride n : Nat) : Polled Unit := ⟨n / stride, ()⟩

/-- The computation under a checker, `checker k` being its answer to question `k`. -/
def run (checker : Nat → Bool) (x : Polled α) : Option α :=
  if (List.range x.polls).any checker then none else some x.result

end Polled

end WinCommander.Library
