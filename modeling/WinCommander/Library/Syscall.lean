/-
  Programs that ask their environment for replies and may be stopped at any question.

  A `Prog ρ σ α` runs against the list of replies its environment will give and a state it
  shares with it. It returns a value, or the replies run out: the process was stopped where
  it asked. `Triple P m Q C` is a Hoare triple with a crash condition: from a state in `P`,
  a return satisfies `Q` and a stop leaves a state in `C`. Every list of replies is
  covered, so a triple speaks of every failure and of every point a process can stop at.

  The rules follow the program: one for each constructor, and `Triple.loop` for a loop that
  repeats a question.
-/
import Mathlib

namespace WinCommander.Library

/-- How a run ended: stopped at a question, or returned with the replies it left. -/
inductive Outcome (ρ σ α : Type) where
  | stopped (state : σ)
  | returned (value : α) (state : σ) (replies : List ρ)

/-- A program over state `σ` that asks for replies of type `ρ`. -/
def Prog (ρ σ α : Type) := List ρ → σ → Outcome ρ σ α

namespace Prog

variable {ρ σ α β : Type}

def ret (a : α) : Prog ρ σ α := fun replies s => .returned a s replies

def andThen (m : Prog ρ σ α) (f : α → Prog ρ σ β) : Prog ρ σ β := fun replies s =>
  match m replies s with
  | .stopped s' => .stopped s'
  | .returned a s' replies' => f a replies' s'

instance : Monad (Prog ρ σ) where
  pure := ret
  bind := andThen

/-- Ask the environment. -/
def ask : Prog ρ σ ρ := fun replies s =>
  match replies with
  | [] => .stopped s
  | r :: rest => .returned r s rest

def get : Prog ρ σ σ := fun replies s => .returned s s replies

def modify (f : σ → σ) : Prog ρ σ Unit := fun replies s => .returned () (f s) replies

/-- Ask until `body` makes something of the reply; until then it carries a value on. -/
def loop {τ : Type} (body : ρ → τ → τ ⊕ α) : τ → Prog ρ σ α
  | _, [], s => .stopped s
  | t, r :: rest, s =>
    match body r t with
    | .inl t' => loop body t' rest s
    | .inr a => .returned a s rest

/-- Go on with the value of `m`, or return what `onError` makes of its error. -/
def attempt {ε : Type} (m : Prog ρ σ (Except ε α)) (onError : ε → β) (f : α → Prog ρ σ β) :
    Prog ρ σ β :=
  m >>= fun
    | .error e => pure (onError e)
    | .ok a => f a

/-- An error stops the rest, however the steps are grouped. -/
theorem attempt_attempt (m : Prog ρ σ (Except ε α)) (f : α → Prog ρ σ (Except ε β))
    (g : β → Prog ρ σ (Except ε γ)) : attempt (attempt m Except.error f) Except.error g =
      attempt m Except.error fun a => attempt (f a) Except.error g := by
  funext replies s
  show andThen (andThen m _) _ replies s = andThen m _ replies s
  unfold andThen
  rcases m replies s with s' | ⟨e | a, s', rest⟩
  · rfl
  · rfl
  · rfl

/-- From `P`, a return satisfies `Q` and a stop leaves `C`. -/
def Triple (P : σ → Prop) (m : Prog ρ σ α) (Q : α → σ → Prop) (C : σ → Prop) : Prop :=
  ∀ replies s, P s → match m replies s with
    | .stopped s' => C s'
    | .returned a s' _ => Q a s'

variable {P P' C C' : σ → Prop} {Q Q' : α → σ → Prop} {R : β → σ → Prop}

theorem Triple.ret (h : ∀ s, P s → Q a s) : Triple P (pure a : Prog ρ σ α) Q C :=
  fun _ s hs => h s hs

variable {m : Prog ρ σ α}

theorem Triple.bind (hm : Triple P m Q C) (hf : ∀ a, Triple (Q a) (f a) R C) :
    Triple P (m >>= f) R C := by
  intro replies s hs
  have h := hm replies s hs
  show match andThen m f replies s with
    | .stopped s' => C s'
    | .returned b s' _ => R b s'
  unfold andThen
  cases hr : m replies s with
  | stopped s' =>
    rw [hr] at h
    exact h
  | returned a s' rest =>
    rw [hr] at h
    exact hf a rest s' h

/-- The value of a run, passed through a function. -/
theorem Triple.map (f : α → β) (hm : Triple P m Q C) :
    Triple P (m >>= fun a => pure (f a)) (fun b s => ∃ a, b = f a ∧ Q a s) C :=
  Triple.bind hm fun a => Triple.ret fun _ h => ⟨a, rfl, h⟩

theorem Triple.attempt {m : Prog ρ σ (Except ε α)} {Q : Except ε α → σ → Prop} (hm : Triple P m Q C)
    (herror : ∀ e s, Q (.error e) s → R (onError e) s) (hok : ∀ a, Triple (Q (.ok a)) (f a) R C)
    : Triple P (Prog.attempt m onError f) R C := by
  refine Triple.bind hm fun result => ?_
  cases result with
  | error e => exact Triple.ret (herror e)
  | ok a => exact hok a

theorem Triple.ask {Q : ρ → σ → Prop} (h : ∀ s, P s → ∀ r, Q r s) (hc : ∀ s, P s → C s) :
    Triple P (Prog.ask : Prog ρ σ ρ) Q C := by
  intro replies s hs
  cases replies with
  | nil => exact hc s hs
  | cons r rest => exact h s hs r

theorem Triple.get {Q : σ → σ → Prop} (h : ∀ s, P s → Q s s) :
    Triple P (Prog.get : Prog ρ σ σ) Q C :=
  fun _ s hs => h s hs

theorem Triple.modify {Q : Unit → σ → Prop} (h : ∀ s, P s → Q () (f s)) :
    Triple P (Prog.modify f : Prog ρ σ Unit) Q C :=
  fun _ s hs => h s hs

/-- The loop rule: `I` is kept while the question repeats. -/
theorem Triple.loop (I : τ → σ → Prop) (hinl : ∀ r t t' s, I t s → body r t = .inl t' → I t' s)
    (hinr : ∀ r t a s, I t s → body r t = .inr a → Q a s) (hc : ∀ t s, I t s → C s) (t : τ) :
    Triple (I t) (Prog.loop body t) Q C := by
  intro replies
  induction replies generalizing t with
  | nil => exact fun s hs => hc t s hs
  | cons r rest ih =>
    intro s hs
    unfold Prog.loop
    rcases hb : body r t with t' | a
    · exact ih t' s (hinl r t t' s hs hb)
    · exact hinr r t a s hs hb

section
variable (h : Triple P m Q C)
include h

theorem Triple.consequence (hp : ∀ s, P' s → P s) (hq : ∀ a s, Q a s → Q' a s)
    (hc : ∀ s, C s → C' s) : Triple P' m Q' C' := by
  intro replies s hs
  have hm := h replies s (hp s hs)
  cases hr : m replies s with
  | stopped s' =>
    rw [hr] at hm
    exact hc s' hm
  | returned a s' rest =>
    rw [hr] at hm
    exact hq a s' hm

theorem Triple.post (hq : ∀ a s, Q a s → Q' a s) : Triple P m Q' C :=
  h.consequence (fun _ hs => hs) hq fun _ hs => hs

theorem Triple.pre (hp : ∀ s, P' s → P s) : Triple P' m Q C :=
  h.consequence hp (fun _ _ hs => hs) fun _ hs => hs

theorem Triple.stops (hc : ∀ s, C s → C' s) : Triple P m Q C' :=
  h.consequence (fun _ hs => hs) (fun _ _ hs => hs) hc

end

/-- A fact about the start state that does not mention it is available throughout. -/
theorem Triple.intro (h : φ → Triple P m Q C) : Triple (fun s => φ ∧ P s) m Q C :=
  fun replies s hs => h hs.1 replies s hs.2

end Prog

end WinCommander.Library
