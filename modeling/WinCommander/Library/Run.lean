/-
  Runs of a deterministic machine: a step takes an event and returns the next state and a
  report.

  The rules carry what one step does to a whole run: an invariant of the states, one that
  also speaks of the reports so far, possibly for the runs whose events meet a condition only,
  and a relation between the first state and the last.
-/
import Mathlib

namespace WinCommander.Library

open List

variable {σ ε ρ : Type} {step : σ → ε → σ × ρ}

/-- The state after the events, and their reports in order. -/
def runAll (step : σ → ε → σ × ρ) : σ → List ε → σ × List ρ
  | s, [] => (s, [])
  | s, e :: rest =>
    let later := runAll step (step s e).1 rest
    (later.1, (step s e).2 :: later.2)

@[simp] theorem runAll_nil (s : σ) : runAll step s [] = (s, []) := rfl

theorem runAll_append (s : σ) (first second : List ε) : runAll step s (first ++ second) =
      ((runAll step (runAll step s first).1 second).1,
        (runAll step s first).2 ++ (runAll step (runAll step s first).1 second).2) := by
  induction first generalizing s with
  | nil => rfl
  | cons e rest ih => rw [cons_append, runAll, runAll, ih, cons_append]

/-- Every event of the run meets the condition in the state that it finds. -/
def Meets (step : σ → ε → σ × ρ) (C : σ → ε → Prop) : σ → List ε → Prop
  | _, [] => True
  | s, e :: rest => C s e ∧ Meets step C (step s e).1 rest

instance Meets.decidable (C : σ → ε → Prop) [∀ s e, Decidable (C s e)] :
    ∀ (events : List ε) (s : σ), Decidable (Meets step C s events)
  | [], _ => isTrue trivial
  | e :: rest, s =>
    have := Meets.decidable C rest (step s e).1
    inferInstanceAs (Decidable (C s e ∧ Meets step C (step s e).1 rest))

theorem meets_append (C : σ → ε → Prop) (s : σ) (first second : List ε) :
    Meets step C s (first ++ second) ↔
      Meets step C s first ∧ Meets step C (runAll step s first).1 second := by
  induction first generalizing s with
  | nil => exact (iff_of_eq (true_and _)).symm
  | cons e rest ih =>
    rw [cons_append, Meets, Meets, ih, and_assoc]
    rfl

theorem meets_of_forall (h : ∀ s e, C s e) (s : σ) (events : List ε) : Meets step C s events := by
  induction events generalizing s with
  | nil => trivial
  | cons e rest ih => exact ⟨h s e, ih (step s e).1⟩

theorem meets_true (s : σ) (events : List ε) : Meets step (fun _ _ => True) s events :=
  meets_of_forall (fun _ _ => trivial) s events

/-- An invariant of the state and the reports so far, of the runs whose events meet a condition. -/
theorem runAll_meets (C : σ → ε → Prop) (I : σ → List ρ → Prop)
    (hstep : ∀ s past e, C s e → I s past → I (step s e).1 (past ++ [(step s e).2])) (past : List ρ)
    (events : List ε) (hmeets : Meets step C s events) (hs : I s past) :
    I (runAll step s events).1 (past ++ (runAll step s events).2) := by
  induction events generalizing s past with
  | nil =>
    rw [runAll_nil, append_nil]
    exact hs
  | cons e rest ih =>
    have h := ih (past ++ [(step s e).2]) hmeets.2 (hstep s past e hmeets.1 hs)
    rw [append_assoc] at h
    exact h

/-- An invariant of the state and the reports so far. -/
theorem runAll_reports (I : σ → List ρ → Prop)
    (hstep : ∀ s past e, I s past → I (step s e).1 (past ++ [(step s e).2])) (past : List ρ)
    (events : List ε) (hs : I s past) :
    I (runAll step s events).1 (past ++ (runAll step s events).2) :=
  runAll_meets (fun _ _ => True) I (fun s past e _ h => hstep s past e h) past events
    (meets_true s events) hs

/-- An invariant of the state. -/
theorem runAll_invariant (I : σ → Prop) (hstep : ∀ s e, I s → I (step s e).1) (events : List ε)
    (hs : I s) : I (runAll step s events).1 :=
  runAll_reports (fun s _ => I s) (fun s _ e h => hstep s e h) [] events hs

/-- A preorder on what `f` sees of a state, which every step from an invariant state follows. -/
theorem runAll_related (I : σ → Prop) (f : σ → τ) (R : τ → τ → Prop) [IsPreorder τ R]
    (hinv : ∀ s e, I s → I (step s e).1) (hstep : ∀ s e, I s → R (f s) (f (step s e).1))
    (events : List ε) (hs : I s) : R (f s) (f (runAll step s events).1) := by
  induction events generalizing s with
  | nil => exact refl_of R (f s)
  | cons e rest ih => exact trans_of R (hstep s e hs) (ih (hinv s e hs))

/-! ## Histories -/

/-- Every report meets a condition on those before it. -/
def Each (C : List ρ → ρ → Prop) (past : List ρ) : Prop :=
  ∀ before report after, past = before ++ report :: after → C before report

theorem each_nil (C : List ρ → ρ → Prop) : Each C [] := by
  intro before report after h
  exact absurd h.symm (append_ne_nil_of_right_ne_nil _ (cons_ne_nil _ _))

theorem Each.concat {C : List ρ → ρ → Prop} {past : List ρ} {last : ρ} (h : Each C past)
    (hlast : C past last) : Each C (past ++ [last]) := by
  intro before report after heq
  rcases eq_nil_or_concat after with rfl | ⟨initial, final, rfl⟩
  · obtain ⟨rfl, hsame⟩ := append_inj' heq rfl
    rw [← singleton_inj.mp hsame]
    exact hlast
  · rw [concat_eq_append, ← cons_append, ← append_assoc] at heq
    exact h before report initial (append_inj' heq rfl).1

theorem Each.append (h : Each C past)
    (hmore : ∀ before report after, more = before ++ report :: after → C (past ++ before) report) :
    Each C (past ++ more) := by
  induction more using List.reverseRecOn with
  | nil =>
    rw [append_nil]
    exact h
  | append_singleton more last ih =>
    rw [← append_assoc]
    refine (ih fun before report after heq => ?_).concat (hmore more last [] rfl)
    exact hmore before report (after ++ [last]) (by rw [heq, append_assoc, cons_append])

end WinCommander.Library
