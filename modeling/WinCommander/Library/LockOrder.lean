/-
  Threads that take their mutexes in an order never all wait.

  What a frame has comes before what it waits for. What it has while outside code runs comes
  before every other mutex and is recursive, since that code may call again.
-/
import WinCommander.Library.Threads

namespace WinCommander.Library.ThreadProgram

open List

variable {σ φ κ γ ε ρ : Type} {p : ThreadProgram σ φ κ γ ε ρ}

variable (p) in
structure Ordered (rank : κ → Nat) (last : Nat) : Prop where
  bounded : ∀ lock, rank lock ≤ last
  rising : ∀ f held wanted, p.holds f held → p.wants f = some wanted → rank held < rank wanted
  outside : ∀ f held, p.awaits f → p.holds f held →
    p.recursive held ∧ ∀ lock, lock = held ∨ rank held < rank lock

variable (p) in
/-- While a thread is in a call, one can go on. -/
def Live (callStacks : List (List φ)) : Prop :=
  (∃ stack ∈ callStacks, stack ≠ []) → ∃ (thread : Nat) (f : φ) (below : List φ),
    callStacks[thread]? = some (f :: below) ∧ p.granted (callStacks.eraseIdx thread) below f

variable {rank : κ → Nat} {last thread : Nat} {callStacks : List (List φ)}

/-- The way from a thread that waits, among threads that all do, to one that waits for more. -/
theorem Ordered.follow (h : p.Ordered rank last) (hnested : p.WellNested callStacks)
    (hwaits : ∀ (thread : Nat) (f : φ) (below : List φ), callStacks[thread]? = some (f :: below) →
      ¬p.granted (callStacks.eraseIdx thread) below f)
    (hstack : callStacks[thread]? = some (f :: below)) (hwants : p.wants f = some lock) :
    ∃ (other : Nat) (g : φ) (under : List φ) (next : κ),
      callStacks[other]? = some (g :: under) ∧ p.wants g = some next ∧ rank lock < rank next := by
  have hbelow : p.recursive lock ∨ ∀ g ∈ below, p.holds g lock = false := by
    have hawaits : ∀ g ∈ below, p.awaits g := hnested.below _ (mem_of_getElem? hstack)
    have houtside := h.outside
    grind
  obtain ⟨stack, hmem, g, hg, hheld⟩ : ∃ stack ∈ callStacks.eraseIdx thread, ∃ g ∈ stack,
      p.holds g lock := by
    have hwait := hwaits thread f below hstack
    simp only [granted, hwants] at hwait
    grind
  obtain ⟨other, -, hother⟩ := mem_eraseIdx_iff_getElem?.mp hmem
  cases stack with
  | nil => cases hg
  | cons top under =>
    have hwait := hwaits other top under hother
    cases htop : p.wants top with
    | none => simp [granted, htop] at hwait
    | some next =>
      refine ⟨other, top, under, next, hother, htop, ?_⟩
      obtain rfl | hg := mem_cons.mp hg
      · exact h.rising g lock next hheld htop
      · obtain ⟨hrecursive, hfirst⟩ :=
          h.outside g lock (hnested.below _ (mem_of_getElem? hother) g hg) hheld
        refine (hfirst next).resolve_left fun hsame => hwait ?_
        -- The thread that has the mutex takes it once more.
        have hapart := (wellNested_cons.mp (hnested.perm (perm_of_getElem? hother).1)).2.1
        simp only [granted, htop, hsame, hrecursive]
        grind

theorem Ordered.live (h : p.Ordered rank last) (hnested : p.WellNested callStacks) :
    p.Live callStacks := by
  intro ⟨stack, hmem, hbusy⟩
  by_contra hnone
  push Not at hnone
  -- The induction is on how many mutexes may still come.
  have hrises : ∀ (later thread : Nat) (f : φ) (below : List φ) (lock : κ),
      callStacks[thread]? = some (f :: below) → p.wants f = some lock → rank lock + later ≤ last := by
    intro later
    induction later with
    | zero => exact fun _ _ _ lock _ _ => h.bounded lock
    | succ later ih =>
      intro thread f below lock hstack hwants
      obtain ⟨other, g, under, next, hother, hnext, hlt⟩ := h.follow hnested hnone hstack hwants
      have hlater := ih other g under next hother hnext
      omega
  obtain ⟨thread, hthread⟩ := mem_iff_getElem?.mp hmem
  cases stack with
  | nil => exact hbusy rfl
  | cons f below =>
    cases hwants : p.wants f with
    | none => exact hnone thread f below hthread (by simp [granted, hwants])
    | some lock =>
      have hlast := hrises (last + 1) thread f below lock hthread hwants
      omega

/-- Over every interleaving of threads that have called nothing yet. -/
theorem Ordered.run (h : p.Ordered rank last) (shared : σ) (threads : Nat)
    (events : List (ThreadEvent γ ε)) :
    p.Live (runAll p.step ⟨shared, replicate threads []⟩ events).1.callStacks :=
  h.live (runAll_invariant (fun sys : Threads σ φ => p.WellNested sys.callStacks)
    (fun sys event hnested => (p.step_moves sys event).wellNested hnested) events
    (wellNested_idle fun _ hmem => eq_of_mem_replicate hmem))

end WinCommander.Library.ThreadProgram
