/-
  Threads with call callStacks that share a state and exclude each other by mutexes.

  A step is a call of one thread, or an advance of the frame on top of its stack. A frame that
  awaits code outside the program may have further calls above it; that code has nothing else
  to call. No mutex is stored: a thread has a mutex as long as one of its frames holds it, and
  a frame that wants a mutex does not advance before the other threads are without it.

  `Kept.run` carries an invariant over every interleaving. What it asks of an advance is about
  one frame and the others, of all threads, in any order.
-/
import WinCommander.Library.Run

namespace WinCommander.Library

open List Bool

structure ThreadProgram (σ φ κ γ ε ρ : Type) where
  entry : γ → φ
  /-- The frame returns when there is no next one. -/
  advance : σ → φ → ε → σ × Option φ × Option ρ
  awaits : φ → Bool
  wants : φ → Option κ
  holds : φ → κ → Bool
  recursive : κ → Bool
  entry_holds : ∀ call lock, holds (entry call) lock = false
  advance_holds : ∀ s f e f' lock, (advance s f e).2.1 = some f' → holds f' lock = true →
    holds f lock = true ∨ wants f = some lock

structure Threads (σ φ : Type) where
  shared : σ
  callStacks : List (List φ)

inductive ThreadEvent (γ ε : Type) where
  | call (thread : Nat) (call : γ)
  | advance (thread : Nat) (answers : ε)

variable {σ φ κ γ ε ρ : Type}

namespace Threads

/-- The frames of all threads. -/
def frames (sys : Threads σ φ) : List φ := sys.callStacks.flatten

def top (sys : Threads σ φ) (thread : Nat) : Option φ := sys.callStacks[thread]?.bind List.head?

end Threads

namespace ThreadProgram

variable (p : ThreadProgram σ φ κ γ ε ρ)

/-- No other thread has the mutex, nor this one itself unless it is recursive. -/
def granted (others : List (List φ)) (below : List φ) (f : φ) : Bool :=
  match p.wants f with
  | none => true
  | some lock =>
    others.all (·.all fun g => !p.holds g lock) &&
      (p.recursive lock || below.all fun g => !p.holds g lock)

/-- A call or an advance that is not possible changes nothing. -/
def step (sys : Threads σ φ) : ThreadEvent γ ε → Threads σ φ × Option ρ
  | .call thread call =>
    match sys.callStacks[thread]? with
    | none => (sys, none)
    | some stack =>
      if stack.head?.all p.awaits then
        ({ sys with callStacks := sys.callStacks.set thread (p.entry call :: stack) }, none)
      else (sys, none)
  | .advance thread answers =>
    match sys.callStacks[thread]? with
    | some (f :: below) =>
      if p.granted (sys.callStacks.eraseIdx thread) below f then
        let (shared, next, report) := p.advance sys.shared f answers
        ({ shared := shared, callStacks := sys.callStacks.set thread (next.toList ++ below) }, report)
      else (sys, none)
    | _ => (sys, none)

/-- The frames below the top await, and no two threads have the same mutex. -/
structure WellNested (callStacks : List (List φ)) : Prop where
  below : ∀ stack ∈ callStacks, ∀ f ∈ stack.tail, p.awaits f = true
  exclusive : callStacks.Pairwise fun a b =>
    ∀ lock, ∀ f ∈ a, ∀ g ∈ b, p.holds f lock = true → p.holds g lock = false

/-- What a frame that advances knows of another one: it awaits in the same thread, or has
  none of the mutexes. -/
def Apart (f g : φ) : Prop :=
  p.awaits g = true ∨ ∀ lock, p.holds f lock = true ∨ p.wants f = some lock → p.holds g lock = false

/-! ## One step -/

/-- What a step does: the threads besides the one that moves are `rest`. -/
inductive Moves (sys : Threads σ φ) : ThreadEvent γ ε → Threads σ φ × Option ρ → Prop
  | stays (event : ThreadEvent γ ε) : Moves sys event (sys, none)
  | calls (thread : Nat) (call : γ) (stack : List φ) (rest callStacks : List (List φ))
      (before : sys.callStacks.Perm (stack :: rest)) (awaited : stack.head?.all p.awaits = true)
      (after : callStacks.Perm ((p.entry call :: stack) :: rest)) :
      Moves sys (.call thread call) ({ sys with callStacks := callStacks }, none)
  | advances (thread : Nat) (answers : ε) (f : φ) (below : List φ) (rest callStacks : List (List φ))
      (top : sys.top thread = some f) (before : sys.callStacks.Perm ((f :: below) :: rest))
      (free : p.granted rest below f = true)
      (after : callStacks.Perm (((p.advance sys.shared f answers).2.1.toList ++ below) :: rest)) :
      Moves sys (.advance thread answers)
        ({ shared := (p.advance sys.shared f answers).1, callStacks := callStacks },
          (p.advance sys.shared f answers).2.2)

theorem perm_of_getElem? {callStacks : List (List φ)} (h : callStacks[thread]? = some stack) :
    callStacks.Perm (stack :: callStacks.eraseIdx thread) ∧
      ∀ stack', (callStacks.set thread stack').Perm (stack' :: callStacks.eraseIdx thread) := by
  obtain ⟨hlt, heq⟩ := List.getElem?_eq_some_iff.mp h
  refine ⟨?_, fun stack' => set_perm_cons_eraseIdx hlt stack'⟩
  have hperm := (getElem_cons_eraseIdx_perm hlt).symm
  rw [heq] at hperm
  exact hperm

theorem step_moves (sys : Threads σ φ) (event : ThreadEvent γ ε) :
    p.Moves sys event (p.step sys event) := by
  cases event with
  | call thread call =>
    cases hstack : sys.callStacks[thread]? with
    | none =>
      simp only [step, hstack]
      exact .stays _
    | some stack =>
      simp only [step, hstack]
      split
      · next hawaited =>
          obtain ⟨hbefore, hafter⟩ := perm_of_getElem? hstack
          exact .calls thread call stack _ _ hbefore hawaited (hafter _)
      · exact .stays _
  | advance thread answers =>
    rcases hstack : sys.callStacks[thread]? with - | - | ⟨f, below⟩
    · simp only [step, hstack]
      exact .stays _
    · simp only [step, hstack]
      exact .stays _
    · simp only [step, hstack]
      split
      · next hfree =>
          obtain ⟨hbefore, hafter⟩ := perm_of_getElem? hstack
          have htop : sys.top thread = some f := by
            rw [Threads.top, hstack]
            rfl
          exact .advances thread answers f below _ _ htop hbefore hfree (hafter _)
      · exact .stays _

/-! ## Mutual exclusion -/

variable {p}

theorem WellNested.perm (h : p.WellNested callStacks) (hperm : callStacks.Perm callStacks')
    : p.WellNested callStacks' := by
  refine ⟨fun stack hmem => h.below stack (hperm.mem_iff.mpr hmem), ?_⟩
  refine (hperm.pairwise_iff ?_).mp h.exclusive
  intro a b hab lock f hf g hg hheld
  by_contra hother
  rw [not_eq_false] at hother
  rw [hab lock g hg f hf hother] at hheld
  cases hheld

variable {rest : List (List φ)} {result : Threads σ φ × Option ρ} {sys : Threads σ φ}

theorem wellNested_cons : p.WellNested (stack :: rest) ↔ (∀ f ∈ stack.tail, p.awaits f) ∧
        (∀ other ∈ rest, ∀ lock, ∀ f ∈ stack, ∀ g ∈ other,
          p.holds f lock → p.holds g lock = false) ∧ p.WellNested rest := by
  constructor
  · rintro ⟨hbelow, hexclusive⟩
    rw [pairwise_cons] at hexclusive
    exact ⟨hbelow stack mem_cons_self, hexclusive.1,
      fun other hmem => hbelow other (mem_cons_of_mem _ hmem), hexclusive.2⟩
  · rintro ⟨hbelow, hexclusive, hrest⟩
    refine ⟨?_, pairwise_cons.mpr ⟨hexclusive, hrest.exclusive⟩⟩
    intro other hmem
    obtain rfl | hmem := mem_cons.mp hmem
    · exact hbelow
    · exact hrest.below other hmem

/-- The wanted mutex is free in the other threads. -/
theorem free_of_granted (h : p.granted rest below f) (hwants : p.wants f = some lock) :
    ∀ other ∈ rest, ∀ g ∈ other, p.holds g lock = false := by
  intro other hother g hg
  unfold granted at h
  rw [hwants] at h
  have hall := all_eq_true.mp (and_eq_true_iff.mp h).1 other hother
  have hfree := all_eq_true.mp hall g hg
  rw [not_eq_true'] at hfree
  exact hfree

theorem apart_of_granted (h : p.WellNested ((f :: below) :: rest))
    (hfree : p.granted rest below f) : ∀ g ∈ below ++ rest.flatten, p.Apart f g := by
  obtain ⟨hbelow, hexclusive, -⟩ := wellNested_cons.mp h
  intro g hg
  obtain hg | hg := mem_append.mp hg
  · exact .inl (hbelow g hg)
  · obtain ⟨other, hother, hg⟩ := mem_flatten.mp hg
    refine .inr fun lock hlock => ?_
    obtain hheld | hwants := hlock
    · exact hexclusive other hother lock f mem_cons_self g hg hheld
    · exact free_of_granted hfree hwants other hother g hg

theorem Moves.wellNested (h : p.Moves sys event result) (hsys : p.WellNested sys.callStacks)
    : p.WellNested result.1.callStacks := by
  cases h with
  | stays => exact hsys
  | calls thread call stack rest callStacks before awaited after =>
    refine WellNested.perm ?_ after.symm
    obtain ⟨hbelow, hexclusive, hrest⟩ := wellNested_cons.mp (hsys.perm before)
    refine wellNested_cons.mpr ⟨?_, ?_, hrest⟩
    · intro f hf
      cases stack with
      | nil => exact absurd hf not_mem_nil
      | cons g below =>
        obtain rfl | hf := mem_cons.mp hf
        · exact awaited
        · exact hbelow f hf
    · intro other hother lock f hf g hg hheld
      obtain rfl | hf := mem_cons.mp hf
      · rw [p.entry_holds call lock] at hheld
        cases hheld
      · exact hexclusive other hother lock f hf g hg hheld
  | advances thread answers f below rest callStacks top before free after =>
    refine WellNested.perm ?_ after.symm
    obtain ⟨hbelow, hexclusive, hrest⟩ := wellNested_cons.mp (hsys.perm before)
    cases hnext : (p.advance sys.shared f answers).2.1 with
    | none =>
      refine wellNested_cons.mpr ⟨fun g hg => hbelow g (mem_of_mem_tail hg), ?_, hrest⟩
      intro other hother lock g hg
      exact hexclusive other hother lock g (mem_cons_of_mem _ hg)
    | some f' =>
      refine wellNested_cons.mpr ⟨hbelow, ?_, hrest⟩
      intro other hother lock g hg g' hg' hheld
      obtain rfl | hg := mem_cons.mp hg
      · obtain hheld | hwants := p.advance_holds _ _ _ _ lock hnext hheld
        · exact hexclusive other hother lock f mem_cons_self g' hg' hheld
        · exact free_of_granted free hwants other hother g' hg'
      · exact hexclusive other hother lock g (mem_cons_of_mem _ hg) g' hg' hheld

/-! ## Invariants of runs -/

variable (p)

/-- The condition on the frame that is to advance. -/
def Advancing (C : σ → φ → ε → Prop) (sys : Threads σ φ) : ThreadEvent γ ε → Prop
  | .call _ _ => True
  | .advance thread answers => ∀ f ∈ sys.top thread, C sys.shared f answers

instance (C : σ → φ → ε → Prop) [∀ s f e, Decidable (C s f e)] (sys : Threads σ φ) :
    ∀ event : ThreadEvent γ ε, Decidable (Advancing C sys event)
  | .call _ _ => inferInstanceAs (Decidable True)
  | .advance thread answers => inferInstanceAs (Decidable (∀ f ∈ sys.top thread, C sys.shared f answers))

/-- An invariant of the shared state, of the frames of all threads and of the reports so far. -/
structure Kept (C : σ → φ → ε → Prop) (I : σ → List φ → List (Option ρ) → Prop) : Prop where
  reorder : ∀ {s frames frames' past}, frames.Perm frames' → I s frames past → I s frames' past
  stay : ∀ {s frames past}, I s frames past → I s frames (past ++ [none])
  call : ∀ {s frames past} call, I s frames past → I s (p.entry call :: frames) (past ++ [none])
  advance : ∀ {s f others past} answers, I s (f :: others) past → C s f answers →
    (∀ g ∈ others, p.Apart f g) →
    I (p.advance s f answers).1 ((p.advance s f answers).2.1.toList ++ others)
      (past ++ [(p.advance s f answers).2.2])

variable {p} {C : σ → φ → ε → Prop} {I : σ → List φ → List (Option ρ) → Prop}

theorem Kept.moves (h : p.Kept C I) (hmoves : p.Moves sys event result)
    (hnested : p.WellNested sys.callStacks) (hcond : Advancing C sys event)
    (hsys : I sys.shared sys.frames past) :
    I result.1.shared result.1.frames (past ++ [result.2]) := by
  cases hmoves with
  | stays => exact h.stay hsys
  | calls thread call stack rest callStacks before awaited after =>
    exact h.reorder after.flatten.symm (h.call call (h.reorder before.flatten hsys))
  | advances thread answers f below rest callStacks top before free after =>
    have hbefore : I sys.shared (f :: (below ++ rest.flatten)) past :=
      h.reorder before.flatten hsys
    have hafter := h.advance answers hbefore (hcond f top)
      (apart_of_granted (hnested.perm before) free)
    rw [← append_assoc] at hafter
    exact h.reorder after.flatten.symm hafter

/-- From every state in which the invariant holds, over every interleaving. -/
theorem Kept.run (h : p.Kept C I) (events : List (ThreadEvent γ ε))
    (hmeets : Meets p.step (Advancing C) sys events) (hnested : p.WellNested sys.callStacks)
    (hsys : I sys.shared sys.frames []) :
    I (runAll p.step sys events).1.shared (runAll p.step sys events).1.frames
      (runAll p.step sys events).2 := by
  have hrun := runAll_meets (Advancing C)
    (fun sys past => p.WellNested sys.callStacks ∧ I sys.shared sys.frames past)
    (fun sys past event hcond hinv =>
      ⟨(p.step_moves sys event).wellNested hinv.1,
        h.moves (p.step_moves sys event) hinv.1 hcond hinv.2⟩)
    [] events hmeets ⟨hnested, hsys⟩
  exact hrun.2

/-- Threads that run nothing. -/
theorem wellNested_idle (h : ∀ stack ∈ callStacks, stack = []) : p.WellNested callStacks := by
  refine ⟨?_, ?_⟩
  · intro stack hstack f hf
    rw [h stack hstack] at hf
    exact absurd hf not_mem_nil
  · refine List.Pairwise.imp_of_mem ?_ (pairwise_of_forall fun _ _ => trivial)
    intro a b ha _ _ lock f hf
    rw [h a ha] at hf
    exact absurd hf not_mem_nil

end ThreadProgram

end WinCommander.Library
