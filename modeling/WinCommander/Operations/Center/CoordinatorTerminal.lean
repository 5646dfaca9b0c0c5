/-
  No durable terminal outcome is lost to a concurrent cancel, as long as every step is harmless.

  `cancel_loses_outcome` runs the two steps that are not: `Stop` throws after it has reported a
  terminal outcome, which stays parked for good; and a second, different outcome replaces the
  parked one, where `ApplyDurableTerminal` leaves a record alone that has ended already.
-/
import WinCommander.Library.LockOrder
import WinCommander.Operations.Center.CoordinatorSteps

namespace WinCommander.Operations.Center

open Library List Frame Option
open Journal (OperationJournalState)

/-- No call has been made yet for a record that has not ended. -/
structure Idle (id : OperationId) (sys : Threads Control Frame) : Prop where
  callStacks : ∀ stack ∈ sys.callStacks, stack = []
  lowered : sys.shared.cancelInFlight = false
  empty : sys.shared.deferredTerminal = none
  ongoing : ∃ record, sys.shared.model.find id = some record ∧ record.state.isTerminal = false

def Frame.isCancel : Frame → Bool
  | .cancel _ _ => true
  | .reduceStarted _ | .reduceDurableTerminal _ _ | .setPaused _ _ _ => false

/-- The record has ended in the state of the first report, and its residency is retired. -/
def Settled (id : OperationId) (sys : Threads Control Frame) (past : List (Option Report)) : Prop :=
  ∃ record, sys.shared.model.find id = some record ∧ record.state.isTerminal = true ∧
    outcomeOf past = some record.state ∧ sys.shared.registered = false

/-- Once a durable outcome has been reported and no `Cancel` is in flight, the record is settled,
  and no later call changes it. -/
def OutcomeKept (id : OperationId) (sys : Threads Control Frame)
    (events : List (ThreadEvent CoordinatorCall Answers)) : Prop :=
  let after := runAll (coordinator id).step sys events
  (∃ s, Terminal s ∧ some (.returned s) ∈ after.2) → (∀ f ∈ after.1.frames, f.isCancel = false) →
    Settled id after.1 after.2 ∧
      ∀ later, (runAll (coordinator id).step after.1 later).1.shared.model.find id =
        after.1.shared.model.find id

instance (c : Control) (f : Frame) (a : Answers) : Decidable (Harmless c f a) := by
  unfold Harmless
  split <;> infer_instance

variable {id : OperationId} {sys : Threads Control Frame}

theorem Frame.isCancel_of_inFlight {f : Frame} (h : f.inFlight) : f.isCancel := by
  unfold inFlight at h
  split at h
  · rfl
  · rfl
  · rfl
  · cases h

theorem Frame.isCancel_of_replaying {f : Frame} (h : f.replaying) : f.isCancel := by
  unfold replaying at h
  split at h
  · rfl
  · rfl
  · cases h

theorem Idle.consistent (h : Idle id sys) : ∃ record, sys.shared.model.find id = some record ∧
      Consistent sys.shared.registered sys.shared record sys.frames [] := by
  obtain ⟨record, hfind, hongoing⟩ := h.ongoing
  have hframes : sys.frames = [] := flatten_eq_nil_iff.mpr h.callStacks
  rw [hframes]
  refine ⟨record, hfind, ?_, ?_, ?_, ?_, fun _ => rfl, fun hregistered => hregistered, ?_, ?_, ?_⟩
  · rw [h.lowered]
    rfl
  · exact fun f hf => absurd hf not_mem_nil
  · exact fun f hf => absurd hf not_mem_nil
  · intro s hs
    rw [h.empty] at hs
    cases hs
  · rw [hongoing]
    exact fun hterminal => (nomatch hterminal)
  · exact fun _ hsome => (nomatch hsome)
  · exact fun s _ hmem => absurd hmem not_mem_nil

/-- What is left to do needs a `Cancel` in flight. -/
theorem Consistent.settled (h : Consistent start sys.shared record sys.frames past)
    (hfind : sys.shared.model.find id = some record) (hs : Terminal s)
    (hreturned : some (.returned s) ∈ past) (hquiet : ∀ f ∈ sys.frames, f.isCancel = false) :
    Settled id sys past := by
  rcases h.noted s hs hreturned with ⟨hterminal, hretired⟩ | hparked | ⟨f, hf, hreplaying⟩
  · exact ⟨record, hfind, hterminal, h.outcome hterminal, hretired⟩
  · obtain ⟨parked, hparked⟩ := isSome_iff_exists.mp hparked
    have hcount := h.counted
    rw [(h.parked parked hparked).1, if_pos rfl] at hcount
    have hpos : 0 < sys.frames.countP inFlight := by omega
    obtain ⟨f, hf, hflying⟩ := countP_pos_iff.mp hpos
    have hcancel := isCancel_of_inFlight hflying
    rw [hquiet f hf] at hcancel
    cases hcancel
  · have hcancel := isCancel_of_replaying hreplaying
    rw [hquiet f hf] at hcancel
    cases hcancel

theorem find_run_terminal (hfind : sys.shared.model.find id = some record)
    (hterminal : record.state.isTerminal) (events : List (ThreadEvent CoordinatorCall Answers)) :
    (runAll (coordinator id).step sys events).1.shared.model.find id = some record :=
  runAll_invariant (fun sys : Threads Control Frame => sys.shared.model.find id = some record)
    (fun _ event h => step_terminal h hterminal event) events hfind

/-- In every run whose steps are harmless, no durable terminal outcome is lost. -/
theorem cancel_keeps_outcome (id : OperationId) (sys : Threads Control Frame)
    (events : List (ThreadEvent CoordinatorCall Answers)) (hidle : Idle id sys)
    (hharmless : Meets (coordinator id).step (ThreadProgram.Advancing Harmless) sys events) :
    OutcomeKept id sys events := by
  rintro ⟨s, hs, hreturned⟩ hquiet
  obtain ⟨record, hfind, hconsistent⟩ := (coordinator_kept id sys.shared.registered).run events
    hharmless (ThreadProgram.wellNested_idle hidle.callStacks) hidle.consistent
  have hsettled := hconsistent.settled hfind hs hreturned hquiet
  refine ⟨hsettled, ?_⟩
  obtain ⟨ended, hended, hterminal, -, -⟩ := hsettled
  intro later
  rw [hended]
  exact find_run_terminal hended hterminal later

/-! ## Three runs -/

def runningRecord : OperationRecord where
  operationId := ⟨7, by decide⟩
  planId := []
  operationType := .copy
  state := .running
  revision := 2
  createdAt := 0
  startedAt := some 1
  finishedAt := none
  controls := controlsFor .running

/-- One thread, and an operation that runs with a residency. -/
def runningOperation : Threads Control Frame where
  shared := { model := { records := Growable.ofList [runningRecord] 0 }, registered := true }
  callStacks := [[]]

/-- The thread goes on `n` times; `Stop` returns true or throws. -/
def goesOn (n : Nat) (stopped : Option Bool) : List (ThreadEvent CoordinatorCall Answers) :=
  List.replicate n (.advance 0 ⟨5, some true, stopped⟩)

/-- `Cancel`, up to `Stop`, which calls `ReduceDurableTerminal`. -/
def stopReports (s : OperationJournalState) : List (ThreadEvent CoordinatorCall Answers) :=
  .call 0 (.cancel 2) :: goesOn 4 (some true) ++ .call 0 (.reduceDurableTerminal s) :: goesOn 4 (some true)

theorem runningOperation_idle : Idle runningRecord.operationId runningOperation :=
  ⟨by decide, rfl, rfl, runningRecord, by decide +kernel, rfl⟩

def replayedRun : List (ThreadEvent CoordinatorCall Answers) :=
  stopReports .completed ++ goesOn 20 (some true)

theorem cancel_keeps_outcome_replayed : Settled runningRecord.operationId
      (runAll (coordinator runningRecord.operationId).step runningOperation replayedRun).1
      (runAll (coordinator runningRecord.operationId).step runningOperation replayedRun).2 :=
  (cancel_keeps_outcome _ _ replayedRun runningOperation_idle (by decide +kernel)
    ⟨.completed, by decide, by decide +kernel⟩ (by decide +kernel)).1

def throwingRun : List (ThreadEvent CoordinatorCall Answers) := stopReports .completed ++ goesOn 2 none

def overwritingRun : List (ThreadEvent CoordinatorCall Answers) :=
  stopReports .completed ++ .call 0 (.reduceDurableTerminal .failed) :: goesOn 24 (some true)

/-- The parked outcome is lost when `Stop` throws, and replaced when there is another one. -/
theorem cancel_loses_outcome : Idle runningRecord.operationId runningOperation ∧
      ¬OutcomeKept runningRecord.operationId runningOperation throwingRun ∧
      ¬OutcomeKept runningRecord.operationId runningOperation overwritingRun := by
  refine ⟨runningOperation_idle, ?_, ?_⟩
  · intro h
    have hstate : ((runAll (coordinator runningRecord.operationId).step runningOperation
        throwingRun).1.shared.model.find runningRecord.operationId).map (·.state) = some .running := by
      decide +kernel
    obtain ⟨⟨record, hfind, hterminal, -⟩, -⟩ :=
      h ⟨.completed, by decide, by decide +kernel⟩ (by decide +kernel)
    rw [hfind] at hstate
    have hrunning : record.state = .running := some.inj hstate
    rw [hrunning] at hterminal
    cases hterminal
  · intro h
    have hstate : ((runAll (coordinator runningRecord.operationId).step runningOperation
        overwritingRun).1.shared.model.find runningRecord.operationId).map (·.state) =
        some .failed := by
      decide +kernel
    have hfirst : outcomeOf (runAll (coordinator runningRecord.operationId).step runningOperation
        overwritingRun).2 = some .completed := by
      decide +kernel
    obtain ⟨⟨record, hfind, -, houtcome, -⟩, -⟩ :=
      h ⟨.completed, by decide, by decide +kernel⟩ (by decide +kernel)
    rw [hfind] at hstate
    have hfailed : record.state = .failed := some.inj hstate
    rw [hfirst, hfailed] at houtcome
    cases houtcome

/-! ## The two mutexes -/

theorem coordinator_ordered (id : OperationId) : (coordinator id).Ordered
    (fun | .cancelGate => 0 | .reductionLock => 1) 1 where
  bounded lock := by cases lock <;> decide
  rising f held wanted hheld hwants := by
    replace hheld : f.holds held := hheld
    replace hwants : f.wants = some wanted := hwants
    unfold Frame.wants at hwants
    cases held <;> grind [Frame.holds, Frame.holdsGate]
  outside f held hawaits hheld := by
    replace hheld : f.holds held := hheld
    replace hawaits : f.awaits := hawaits
    cases held with
    | cancelGate => exact ⟨rfl, fun lock => by cases lock <;> simp⟩
    | reductionLock =>
      unfold Frame.awaits at hawaits
      split at hawaits <;> simp [Frame.holds, Frame.reduction] at *

/-- In no interleaving of the calls that control an operation do all threads wait. -/
theorem coordinator_live (id : OperationId) (control : Control) (threads : Nat)
    (events : List (ThreadEvent CoordinatorCall Answers)) : (coordinator id).Live
      (runAll (coordinator id).step ⟨control, List.replicate threads []⟩ events).1.callStacks :=
  (coordinator_ordered id).run control threads events

end WinCommander.Operations.Center
