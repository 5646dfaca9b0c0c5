/-
  The producer publishes a lifecycle, and the reducer follows it, over whole runs.
-/
import WinCommander.Pane.Publishing
import WinCommander.Pane.Following

namespace WinCommander.Pane

open Library List Producer

variable {Error : Type}

/-! ## Mutations -/

/-- The mutation that is executed, whether it was violated, and whether destruction waits. -/
def Producer.mutation (producer : Producer Error) : Option (PaneLifecycleEvent Error) × Bool × Bool :=
  (producer.finishing, producer.mutationViolated, producer.destructionRequestedDuringMutation)

/-- The flags of a mutation are down when none is executed. -/
def Undisturbed (mutation : Option (PaneLifecycleEvent Error) × Bool × Bool) : Prop :=
  (mutation.1 = none → mutation.2.1 = false) ∧ (mutation.2.2 = true → mutation.2.1 = true)

theorem mutation_drain (producer : Producer Error) :
    producer.drainNotifications.mutation = producer.mutation := by
  unfold drainNotifications
  split
  · rfl
  · unfold notifyNext
    split <;> rfl

variable {producer : Producer Error}

theorem undisturbed_drain (h : Undisturbed producer.mutation) :
    Undisturbed producer.drainNotifications.mutation := by
  rw [mutation_drain]
  exact h

theorem undisturbed_guarded
    (hoperation : producer.finishing = none → Undisturbed operation.1.mutation) :
    Undisturbed (producer.guarded message operation).1.mutation := by
  unfold guarded
  split_ifs with hfinishing
  · refine ⟨fun hnone => ?_, fun _ => rfl⟩
    have hnil : producer.finishing = none := hnone
    rw [hnil] at hfinishing
    cases hfinishing
  · exact hoperation (Option.not_isSome_iff_eq_none.mp hfinishing)

section
variable (h : Undisturbed producer.mutation)
include h

theorem undisturbed_checked {operation : β → Producer Error × Except ProducerException α}
    (hoperation : ∀ found, Undisturbed (operation found).1.mutation) :
    Undisturbed (producer.checked checks operation).1.mutation := by
  cases checks with
  | error exception => exact h
  | ok found => exact hoperation found

theorem undisturbed_finish (requestId : PaneRequestId) (terminal : FinishPayload Error)
    (mutates : Bool) : Undisturbed (producer.finish requestId terminal mutates).1.mutation := by
  refine undisturbed_guarded fun _ => ?_
  split
  · exact h
  split
  · exact h
  split
  · exact h
  refine undisturbed_checked h fun _ => ?_
  split
  · exact ⟨fun hnone => (nomatch hnone), fun hrequested => (nomatch hrequested)⟩
  · exact undisturbed_drain h

theorem undisturbed_shutdownNow : Undisturbed producer.shutdownNow.1.mutation := by
  unfold shutdownNow
  split
  · exact h
  split
  · exact h
  · exact undisturbed_checked h fun _ => undisturbed_drain h

theorem undisturbed_shutdownOrDiscard : Undisturbed producer.shutdownOrDiscard.mutation := by
  have hnow := undisturbed_shutdownNow h
  unfold shutdownOrDiscard
  split
  · next hresult =>
      rw [hresult] at hnow
      exact hnow
  · next hresult =>
      rw [hresult] at hnow
      exact hnow

end

theorem undisturbed_abandonFinish (producer : Producer Error) :
    Undisturbed producer.abandonFinish.mutation := by
  unfold abandonFinish
  dsimp only
  split
  · exact undisturbed_shutdownOrDiscard ⟨fun _ => rfl, fun hrequested => (nomatch hrequested)⟩
  · next hnone => exact ⟨fun _ => rfl, fun hrequested => absurd hrequested hnone⟩

theorem undisturbed_step (h : Undisturbed producer.mutation) (call : PaneCall Error) :
    Undisturbed (paneStep producer call).1.mutation := by
  cases call with
  | start descriptor =>
    exact undisturbed_guarded fun _ => undisturbed_checked h fun _ => undisturbed_drain h
  | reject descriptor rejection =>
    exact undisturbed_guarded fun _ => undisturbed_checked h fun _ => undisturbed_drain h
  | supersedeAndStart descriptor =>
    exact undisturbed_guarded fun _ => undisturbed_checked h fun _ => undisturbed_drain h
  | finish requestId terminal mutates => exact undisturbed_finish h requestId terminal mutates
  | mutationReturned =>
    unfold paneStep
    dsimp only
    split
    · unfold mutationReturned
      split
      · exact undisturbed_abandonFinish _
      · next hviolated =>
          refine undisturbed_drain ⟨fun _ => eq_false_of_ne_true hviolated, h.2⟩
    · exact h
  | mutationThrew =>
    unfold paneStep
    dsimp only
    split
    · exact undisturbed_abandonFinish _
    · exact h
  | shutdown => exact undisturbed_guarded fun _ => undisturbed_shutdownNow h
  | subscribe => exact h
  | destroy =>
    change Undisturbed producer.shutdownForDestruction.mutation
    unfold shutdownForDestruction
    split
    · next hfinishing =>
        refine ⟨fun hnone => ?_, fun _ => rfl⟩
        have hnil : producer.finishing = none := hnone
        rw [hnil] at hfinishing
        cases hfinishing
    · exact undisturbed_shutdownOrDiscard h
  | observersReturned =>
    unfold paneStep
    dsimp only
    split
    · unfold notifyNext
      split <;> exact h
    · exact h

/-- What a mutation may call back: the operations, but not destruction. -/
def PaneCall.isOperation : PaneCall Error → Bool
  | .start _ | .reject _ _ | .supersedeAndStart _ | .finish _ _ _ | .shutdown | .subscribe => true
  | .mutationReturned | .mutationThrew | .destroy | .observersReturned => false

/-- During a mutation an operation does no more than to violate it. -/
theorem operation_during_mutation (hfinishing : producer.finishing = some event)
    (hcall : call.isOperation) :
    ∃ violated, (paneStep producer call).1 = { producer with mutationViolated := violated } := by
  have hguarded {α : Type} (message : String)
      (operation : Producer Error × Except ProducerException α) :
      (producer.guarded message operation).1 = { producer with mutationViolated := true } := by
    unfold guarded
    rw [if_pos (by rw [hfinishing]; rfl)]
  cases call with
  | start descriptor => exact ⟨true, (hguarded _ _ : (producer.start descriptor).1 = _)⟩
  | reject descriptor rejection =>
    exact ⟨true, (hguarded _ _ : (producer.reject descriptor rejection).1 = _)⟩
  | supersedeAndStart descriptor =>
    exact ⟨true, (hguarded _ _ : (producer.supersedeAndStart descriptor).1 = _)⟩
  | finish requestId terminal mutates =>
    exact ⟨true, (hguarded _ _ : (producer.finish requestId terminal mutates).1 = _)⟩
  | shutdown => exact ⟨true, (hguarded _ _ : producer.shutdown.1 = _)⟩
  | subscribe => exact ⟨producer.mutationViolated, rfl⟩
  | mutationReturned | mutationThrew | destroy | observersReturned => cases hcall

theorem operations_during_mutation (hfinishing : producer.finishing = some event)
    (hcalls : ∀ call ∈ calls, call.isOperation) : ∃ violated, (runAll paneStep producer calls).1 =
      { producer with mutationViolated := violated } := by
  induction calls generalizing producer with
  | nil => exact ⟨producer.mutationViolated, rfl⟩
  | cons call rest ih =>
    obtain ⟨violated, hstep⟩ :=
      operation_during_mutation hfinishing (hcalls call mem_cons_self)
    have hnext : (paneStep producer call).1.finishing = some event := by
      rw [hstep]
      exact hfinishing
    obtain ⟨violated', hrest⟩ := ih hnext fun other hother =>
      hcalls other (mem_cons_of_mem _ hother)
    refine ⟨violated', hrest.trans ?_⟩
    rw [hstep]

/-- The state in which a mutation begins. -/
theorem finish_mutating
    (h : (paneStep producer (.finish requestId terminal true)).2 = .ok .mutating) :
    ∃ event, (paneStep producer (.finish requestId terminal true)).1 = { producer with
        mutationViolated := false, destructionRequestedDuringMutation := false,
        finishing := some event } := by
  change Except.map finishAnswer (producer.finish requestId terminal true).2 = _ at h
  change ∃ event, (producer.finish requestId terminal true).1 = _
  revert h
  unfold finish guarded checked
  split
  · exact fun h => (nomatch h)
  split
  · exact fun h => (nomatch h)
  split
  · exact fun h => (nomatch h)
  split
  · exact fun h => (nomatch h)
  split
  · exact fun h => (nomatch h)
  · exact fun _ => ⟨_, rfl⟩

/-- A mutation that throws, or that was violated, leaves everything as `Finish` found it. -/
theorem finish_undone (h : Undisturbed producer.mutation) (hidle : producer.finishing = none)
    (hmutating : (paneStep producer (.finish requestId terminal true)).2 = .ok .mutating)
    (hcalls : ∀ call ∈ calls, call.isOperation) :
    let mutated := (runAll paneStep (paneStep producer (.finish requestId terminal true)).1 calls).1
    (paneStep mutated .mutationThrew).1 = producer ∧
      (mutated.mutationViolated → (paneStep mutated .mutationReturned).1 = producer) := by
  intro mutated
  obtain ⟨event, hbegun⟩ := finish_mutating hmutating
  have hrunning : (paneStep producer (.finish requestId terminal true)).1.finishing = some event := by
    rw [hbegun]
  obtain ⟨violated, hmutated⟩ := operations_during_mutation hrunning hcalls
  have hviolated : producer.mutationViolated = false := h.1 hidle
  have hrequested : producer.destructionRequestedDuringMutation = false := by
    refine eq_false_of_ne_true fun htrue => ?_
    have hcontrary : producer.mutationViolated := h.2 htrue
    rw [hcontrary] at hviolated
    cases hviolated
  have hstate : mutated = { producer with
        mutationViolated := violated, destructionRequestedDuringMutation := false,
        finishing := some event } := by
    change (runAll paneStep (paneStep producer _).1 calls).1 = _
    rw [hmutated, hbegun]
  have habandoned : mutated.abandonFinish = producer := by
    have hflags : { producer with
        finishing := none, mutationViolated := false,
        destructionRequestedDuringMutation := false } = producer := by
      cases producer
      cases hidle
      cases hviolated
      cases hrequested
      rfl
    rw [hstate]
    unfold abandonFinish
    dsimp only
    exact hflags
  rw [hstate] at habandoned ⊢
  refine ⟨habandoned, fun htrue => ?_⟩
  change (mutationReturned _ event).1 = producer
  unfold mutationReturned
  rw [if_pos htrue]
  exact habandoned

/-! ## Both sides -/

section

variable [BEq Error]

/-- What a reducer is given: the next event with the projection read for it, or a projection. -/
inductive ReducerInput (Error : Type) where
  | event (event : PaneLifecycleEvent Error) (postCommitProjection : Option (PaneState Error))
  | projection (committedState : PaneState Error)

def ReducerInput.event? : ReducerInput Error → Option (PaneLifecycleEvent Error)
  | .event read _ => some read
  | .projection _ => none

/-- The answer to an event; projections answer for themselves. -/
def reducerStep (reducer : Reducer Error) (input : ReducerInput Error) :
    Reducer Error × Option PaneLifecycleReducerStatus :=
  match input with
  | .event event projection =>
    let (reducer, result) := reducer.apply event projection
    (reducer, some result.status)
  | .projection committedState => ((reducer.updateCommittedProjection committedState).1, none)

/-- A reducer that is given a lifecycle, event by event, follows it to its end. -/
theorem following_run (h : Following pane state reducer) (inputs : List (ReducerInput Error))
    (hadvance : state.advanceAll pane (inputs.filterMap ReducerInput.event?) = some last)
    (hbound : ∀ event ∈ inputs.filterMap ReducerInput.event?, event.eventSequence < 2 ^ 64) :
    Following pane last (runAll reducerStep reducer inputs).1 ∧
      ∀ status, some status ∈ (runAll reducerStep reducer inputs).2 → status.accepted := by
  induction inputs generalizing state reducer with
  | nil =>
    cases hadvance
    exact ⟨h, fun status hstatus => absurd hstatus not_mem_nil⟩
  | cons input rest ih =>
    cases input with
    | event event projection =>
      obtain ⟨next, hnext, hrest⟩ := Option.bind_eq_some_iff.mp hadvance
      obtain ⟨hfollowing, haccepted⟩ :=
        following_apply h hnext (hbound event mem_cons_self) projection
      obtain ⟨hlast, hstatuses⟩ := ih hfollowing hrest fun other hother =>
        hbound other (mem_cons_of_mem _ hother)
      refine ⟨hlast, fun status hstatus => ?_⟩
      rcases mem_cons.mp hstatus with hhead | htail
      · cases hhead
        exact haccepted
      · exact hstatuses status htail
    | projection committedState =>
      obtain ⟨hlast, hstatuses⟩ := ih (following_update h committedState) hadvance hbound
      refine ⟨hlast, fun status hstatus => ?_⟩
      rcases mem_cons.mp hstatus with hhead | htail
      · cases hhead
      · exact hstatuses status htail

end

/-! ## Whole runs -/

/-- How a reducer that reads what a producer published keeps up with it. -/
def Followed [BEq Error] (producer : Producer Error) : Prop :=
  ∀ (initial : PaneState Error) (reducer : Reducer Error) (inputs : List (ReducerInput Error)),
    Reducer.create producer.paneId initial = some reducer →
    inputs.filterMap ReducerInput.event? <+: producer.published →
      (∀ status, some status ∈ (runAll reducerStep reducer inputs).2 → status.accepted = true) ∧
      (inputs.filterMap ReducerInput.event? = producer.published →
        (runAll reducerStep reducer inputs).1.owned.state.loadPhase.isWorking =
          producer.activeRequest.isSome)

/-- A `Finish` whose mutation throws, or was violated, has never been. -/
def Undone (producer : Producer Error) : Prop :=
  producer.finishing = none → ∀ (requestId : PaneRequestId) (terminal : FinishPayload Error),
    (paneStep producer (.finish requestId terminal true)).2 = .ok .mutating →
    ∀ calls : List (PaneCall Error), (∀ call ∈ calls, call.isOperation = true) →
      let mutated :=
        (runAll paneStep (paneStep producer (.finish requestId terminal true)).1 calls).1
      (paneStep mutated .mutationThrew).1 = producer ∧
        (mutated.mutationViolated = true → (paneStep mutated .mutationReturned).1 = producer)

theorem Publishing.followed [BEq Error] (h : Publishing producer) : Followed producer := by
  intro initial reducer inputs hcreate hprefix
  obtain ⟨rest, hrest⟩ := hprefix
  have hlifecycle := h.lifecycle
  rw [← hrest] at hlifecycle
  obtain ⟨middle, hmiddle, hlast⟩ := Lifecycle.advanceAll_prefix hlifecycle
  obtain ⟨hfollowing, haccepted⟩ :=
    following_run (following_create hcreate) inputs hmiddle fun event hevent =>
      h.eventSequence_lt (hrest ▸ mem_append_left _ hevent)
  refine ⟨haccepted, fun hall => ?_⟩
  have hnil : rest = [] := by
    rw [← hall] at hrest
    exact append_right_eq_self.mp hrest
  rw [hnil] at hlast
  cases hlast
  rw [hfollowing.phase]
  exact Bool.or_false _

/-- Whatever is called, and in whatever order: the events of a producer account for its
requests, a reducer keeps up with them, and a `Finish` that fails has never been. -/
theorem producer_reducer_agree [BEq Error] (pane : PaneId) (limits : CounterLimits)
    (calls : List (PaneCall Error)) :
    Accounted (runAll paneStep (.create pane limits : Producer Error) calls).1 ∧
    Followed (runAll paneStep (.create pane limits : Producer Error) calls).1 ∧
    Undone (runAll paneStep (.create pane limits : Producer Error) calls).1 := by
  have hpublishing := run_publishing pane limits calls
  have hundisturbed :
      Undisturbed (runAll paneStep (.create pane limits : Producer Error) calls).1.mutation :=
    runAll_invariant (fun producer : Producer Error => Undisturbed producer.mutation)
      (fun _ call h => undisturbed_step h call) calls ⟨fun _ => rfl, fun h => absurd h Bool.false_ne_true⟩
  exact ⟨hpublishing.accounted, hpublishing.followed,
    fun hidle _ _ hmutating _ hcalls => finish_undone hundisturbed hidle hmutating hcalls⟩

end WinCommander.Pane
