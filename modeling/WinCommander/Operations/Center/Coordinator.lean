/-
  `OperationCenterCoordinator`: the calls that control one live operation, as threads with call
  callStacks.

  A frame stands at the next thing that it does which other threads can see: a mutex it takes,
  a look at the model, a change. `Operation::Stop`, `Pause` and `Resume` are code outside the
  coordinator and may call it again in the same thread; `cancel_gate` is recursive. Nobody
  registers the operation again, so its residency is told by whether it is registered.
-/
import WinCommander.Library.Threads
import WinCommander.Operations.Center.Model

namespace WinCommander.Operations.Center

open Library Option
open Journal (OperationJournalState)

def operationCenterStateFromJournal : OperationJournalState → Option OperationRecordState
  | .interrupted => some .interrupted
  | .completed => some .completed
  | .failed => some .failed
  | .cancelled => some .cancelled
  | .admitted | .running => none
  | .outside _ => none

def ModelState.find (m : ModelState) (id : OperationId) : Option OperationRecord :=
  (findRecord m.records.items id).map (·.1)

/-! ## Results -/

inductive OperationCenterCancelResultCode where
  | accepted | operationNotFound | staleRevision | cancelUnavailable | residencyUnavailable
  | cancelInProgress | stopRejected
deriving DecidableEq

structure OperationCenterCancelResult where
  code : OperationCenterCancelResultCode
  currentRecord : Option OperationRecord := none
deriving DecidableEq

inductive OperationCenterPauseIntent where
  | pause | resume
deriving DecidableEq

inductive OperationCenterPauseResultCode where
  | accepted | operationNotFound | staleRevision | controlUnavailable | residencyUnavailable
deriving DecidableEq

structure OperationCenterPauseResult where
  code : OperationCenterPauseResultCode
  currentRecord : Option OperationRecord := none
deriving DecidableEq

/-- `result_for_current`. -/
def cancelResultFor (expectedRevision : UInt64) (record : OperationRecord) :
    OperationCenterCancelResultCode :=
  if record.revision ≠ expectedRevision then .staleRevision
  else if ¬record.controls.canCancel then .cancelUnavailable
  else .accepted

def pauseAvailable (pausing : Bool) (record : OperationRecord) : Bool :=
  if pausing then record.controls.canPause else record.controls.canResume

/-- `validate`. -/
def pauseResultFor (expectedRevision : UInt64) (intent : OperationCenterPauseIntent)
    (record : OperationRecord) : OperationCenterPauseResultCode :=
  if record.revision ≠ expectedRevision then .staleRevision
  else if ¬pauseAvailable (intent = .pause) record then .controlUnavailable
  else .accepted

/-! ## Reductions -/

/-- What runs under the reduction lock. -/
inductive Reduction where
  | started
  | paused (pausing : Bool)
  | cancelling
  | terminal (journalState : OperationJournalState)
deriving DecidableEq

namespace Reduction

/-- `ReduceStarted`. -/
def startedNexts (record : OperationRecord) : List OperationRecordState :=
  if record.state ≠ .queued then [] else [.running]

/-- `ReducePaused`. -/
def pausedNexts (pausing : Bool) (record : OperationRecord) : List OperationRecordState :=
  if ¬pauseAvailable pausing record then [] else [if pausing then .paused else .running]

/-- `ReduceCancelling`. -/
def cancellingNexts (record : OperationRecord) : List OperationRecordState :=
  if ¬record.controls.canCancel then [] else [.cancelling]

/-- `ApplyDurableTerminal`; its callers have looked at the journal state. -/
def terminalNexts (journalState : OperationJournalState) (record : OperationRecord) :
    List OperationRecordState :=
  match operationCenterStateFromJournal journalState with
  | none => []
  | some terminalState =>
    if record.state.isTerminal then []
    else if record.state ≠ .finalizing then [.finalizing, terminalState]
    else [terminalState]

/-- The transitions that are to be made, given the record that was found. -/
def nexts : Reduction → OperationRecord → List OperationRecordState
  | .started => startedNexts
  | .paused pausing => pausedNexts pausing
  | .cancelling => cancellingNexts
  | .terminal journalState => terminalNexts journalState

end Reduction

inductive ReducePc where
  | lock
  | find
  | write (revision : UInt64) (nexts : List OperationRecordState)
  | unlock
deriving DecidableEq

/-- One step of a reduction. A transition that fails ends it. -/
def Reduction.step (reduction : Reduction) (id : OperationId) (m : ModelState) (now : TimePoint) :
    ReducePc → ModelState × Option ReducePc
  | .lock => (m, some .find)
  | .find =>
    match m.find id with
    | none => (m, some .unlock)
    | some record => (m, some (.write record.revision (reduction.nexts record)))
  | .write _ [] => (m, some .unlock)
  | .write revision (next :: rest) =>
    match m.transition id revision next now with
    | (m', .recorded record) => (m', some (.write record.revision rest))
    | (m', _) => (m', some .unlock)
  | .unlock => (m, none)

/-! ## Frames -/

inductive DurablePc where
  | find
  | gate
  | check
  /-- `ApplyDurableTerminal` under the gate. -/
  | held (pc : ReducePc)
  | retire
  | ungate
  /-- `ApplyDurableTerminal` of an operation without a residency. -/
  | bare (pc : ReducePc)
deriving DecidableEq

inductive CancelPc where
  | find
  | residency (initial : OperationRecord)
  | gate
  | check
  | stop
  | cancelling (pc : ReducePc)
  | settle (accepted : Bool)
  | replay (accepted : Bool) (journalState : OperationJournalState) (pc : ReducePc)
  | retire (accepted : Bool)
  | result (accepted : Bool)
  | ungate (result : OperationCenterCancelResult)
deriving DecidableEq

inductive PausePc where
  | find
  | residency (initial : OperationRecord)
  | gate
  | check
  | act
  | reduce (pc : ReducePc)
  | result
  | ungate (result : OperationCenterPauseResult)
deriving DecidableEq

inductive Frame where
  | reduceStarted (pc : ReducePc)
  | reduceDurableTerminal (journalState : OperationJournalState) (pc : DurablePc)
  | cancel (expectedRevision : UInt64) (pc : CancelPc)
  | setPaused (expectedRevision : UInt64) (intent : OperationCenterPauseIntent) (pc : PausePc)
deriving DecidableEq

inductive CoordinatorCall where
  | reduceStarted
  | reduceDurableTerminal (journalState : OperationJournalState)
  | cancel (expectedRevision : UInt64)
  | setPaused (expectedRevision : UInt64) (intent : OperationCenterPauseIntent)
deriving DecidableEq

def CoordinatorCall.entry : CoordinatorCall → Frame
  | .reduceStarted => .reduceStarted .lock
  | .reduceDurableTerminal journalState => .reduceDurableTerminal journalState .find
  | .cancel expectedRevision => .cancel expectedRevision .find
  | .setPaused expectedRevision intent => .setPaused expectedRevision intent .find

inductive CoordinatorLock where
  | cancelGate | reductionLock
deriving DecidableEq

/-- What the code outside the coordinator says when it is asked. -/
structure Answers where
  now : TimePoint
  /-- Whether the pool still runs the operation; no answer when asking throws. -/
  resident : Option Bool
  /-- What `Stop` returns (`Pause` and `Resume` return nothing); no answer when it throws. -/
  stopped : Option Bool
deriving DecidableEq

/-- The model, and the residency of the operation. -/
structure Control where
  model : ModelState
  registered : Bool
  cancelInFlight : Bool := false
  deferredTerminal : Option OperationJournalState := none
deriving DecidableEq

inductive Report where
  /-- A terminal outcome takes effect: it is parked, or its reduction has the lock. -/
  | reported (journalState : OperationJournalState)
  | returned (journalState : OperationJournalState)
  | cancelled (result : OperationCenterCancelResult)
  | paused (result : OperationCenterPauseResult)
deriving DecidableEq

/-! ## Steps -/

variable (id : OperationId) (c : Control) (a : Answers)

def reducing (reduction : Reduction) (pc : ReducePc) (inside : ReducePc → Frame)
    (after : Option Frame) : Control × Option Frame :=
  let (model, next) := reduction.step id c.model a.now pc
  ({ c with model := model }, (next.map inside).or after)

def reduceDurableTerminalStep (journalState : OperationJournalState) :
    DurablePc → Control × Option Frame × Option Report
  | .find =>
    if operationCenterStateFromJournal journalState = none then (c, none, some (.returned journalState))
    else if c.registered then (c, some (.reduceDurableTerminal journalState .gate), none)
    else (c, some (.reduceDurableTerminal journalState (.bare .lock)), none)
  | .gate => (c, some (.reduceDurableTerminal journalState .check), none)
  | .check =>
    if c.cancelInFlight then
      ({ c with deferredTerminal := some journalState },
        some (.reduceDurableTerminal journalState .ungate), some (.reported journalState))
    else (c, some (.reduceDurableTerminal journalState (.held .lock)), none)
  | .held pc =>
    let (c', next) := reducing id c a (.terminal journalState) pc
      (fun pc' => .reduceDurableTerminal journalState (.held pc'))
      (some (.reduceDurableTerminal journalState .retire))
    (c', next, if pc = .lock then some (.reported journalState) else none)
  | .retire =>
    ({ c with registered := false }, some (.reduceDurableTerminal journalState .ungate), none)
  | .ungate => (c, none, some (.returned journalState))
  | .bare pc =>
    let (c', next) := reducing id c a (.terminal journalState) pc
      (fun pc' => .reduceDurableTerminal journalState (.bare pc')) none
    (c', next, if pc = .lock then some (.reported journalState)
      else if next = none then some (.returned journalState) else none)

def cancelStep (expectedRevision : UInt64) : CancelPc → Control × Option Frame × Option Report
  | .find =>
    match c.model.find id with
    | none => (c, none, some (.cancelled { code := .operationNotFound }))
    | some initial =>
      let code := cancelResultFor expectedRevision initial
      if code ≠ .accepted then (c, none, some (.cancelled ⟨code, some initial⟩))
      else (c, some (.cancel expectedRevision (.residency initial)), none)
  | .residency initial =>
    if c.registered then (c, some (.cancel expectedRevision .gate), none)
    else (c, none, some (.cancelled ⟨.residencyUnavailable, some initial⟩))
  | .gate => (c, some (.cancel expectedRevision .check), none)
  | .check =>
    let ungate (result : OperationCenterCancelResult) : Control × Option Frame × Option Report :=
      (c, some (.cancel expectedRevision (.ungate result)), none)
    match c.model.find id with
    | none => ungate { code := .operationNotFound }
    | some current =>
      let code := cancelResultFor expectedRevision current
      if code ≠ .accepted then ungate ⟨code, some current⟩
      else if c.cancelInFlight then ungate ⟨.cancelInProgress, some current⟩
      else
        match a.resident with
        | none => ungate { code := .residencyUnavailable }
        | some false => ungate ⟨.residencyUnavailable, some current⟩
        | some true =>
          ({ c with cancelInFlight := true }, some (.cancel expectedRevision .stop), none)
  | .stop =>
    match a.stopped with
    | none =>
      ({ c with cancelInFlight := false },
        some (.cancel expectedRevision (.ungate { code := .residencyUnavailable })), none)
    | some true => (c, some (.cancel expectedRevision (.cancelling .lock)), none)
    | some false => (c, some (.cancel expectedRevision (.settle false)), none)
  | .cancelling pc =>
    let (c', next) := reducing id c a .cancelling pc
      (fun pc' => .cancel expectedRevision (.cancelling pc'))
      (some (.cancel expectedRevision (.settle true)))
    (c', next, none)
  | .settle accepted =>
    let c' := { c with cancelInFlight := false, deferredTerminal := none }
    match c.deferredTerminal with
    | some journalState => (c', some (.cancel expectedRevision (.replay accepted journalState .lock)), none)
    | none => (c', some (.cancel expectedRevision (.result accepted)), none)
  | .replay accepted journalState pc =>
    let (c', next) := reducing id c a (.terminal journalState) pc
      (fun pc' => .cancel expectedRevision (.replay accepted journalState pc'))
      (some (.cancel expectedRevision (.retire accepted)))
    (c', next, none)
  | .retire accepted =>
    ({ c with registered := false }, some (.cancel expectedRevision (.result accepted)), none)
  | .result accepted =>
    let result := ⟨if accepted then .accepted else .stopRejected, c.model.find id⟩
    (c, some (.cancel expectedRevision (.ungate result)), none)
  | .ungate result => (c, none, some (.cancelled result))

def setPausedStep (expectedRevision : UInt64) (intent : OperationCenterPauseIntent) :
    PausePc → Control × Option Frame × Option Report
  | .find =>
    match c.model.find id with
    | none => (c, none, some (.paused { code := .operationNotFound }))
    | some initial =>
      let code := pauseResultFor expectedRevision intent initial
      if code ≠ .accepted then (c, none, some (.paused ⟨code, some initial⟩))
      else (c, some (.setPaused expectedRevision intent (.residency initial)), none)
  | .residency initial =>
    if c.registered then (c, some (.setPaused expectedRevision intent .gate), none)
    else (c, none, some (.paused ⟨.residencyUnavailable, some initial⟩))
  | .gate => (c, some (.setPaused expectedRevision intent .check), none)
  | .check =>
    let ungate (result : OperationCenterPauseResult) : Control × Option Frame × Option Report :=
      (c, some (.setPaused expectedRevision intent (.ungate result)), none)
    match c.model.find id with
    | none => ungate { code := .operationNotFound }
    | some current =>
      let code := pauseResultFor expectedRevision intent current
      if code ≠ .accepted then ungate ⟨code, some current⟩
      else
        match a.resident with
        | none => ungate { code := .residencyUnavailable }
        | some false => ungate ⟨.residencyUnavailable, some current⟩
        | some true => (c, some (.setPaused expectedRevision intent .act), none)
  | .act =>
    match a.stopped with
    | none =>
      (c, some (.setPaused expectedRevision intent (.ungate { code := .residencyUnavailable })), none)
    | some _ => (c, some (.setPaused expectedRevision intent (.reduce .lock)), none)
  | .reduce pc =>
    let (c', next) := reducing id c a (.paused (intent = .pause)) pc
      (fun pc' => .setPaused expectedRevision intent (.reduce pc'))
      (some (.setPaused expectedRevision intent .result))
    (c', next, none)
  | .result =>
    (c, some (.setPaused expectedRevision intent (.ungate ⟨.accepted, c.model.find id⟩)), none)
  | .ungate result => (c, none, some (.paused result))

def Frame.advance : Frame → Control × Option Frame × Option Report
  | .reduceStarted pc =>
    let (c', next) := reducing id c a .started pc .reduceStarted none
    (c', next, none)
  | .reduceDurableTerminal journalState pc => reduceDurableTerminalStep id c a journalState pc
  | .cancel expectedRevision pc => cancelStep id c a expectedRevision pc
  | .setPaused expectedRevision intent pc => setPausedStep id c a expectedRevision intent pc

/-! ## Mutexes -/

namespace Frame

/-- The reduction that the frame is in. -/
def reduction : Frame → Option (Reduction × ReducePc)
  | .reduceStarted pc => some (.started, pc)
  | .reduceDurableTerminal s (.held pc) => some (.terminal s, pc)
  | .reduceDurableTerminal s (.bare pc) => some (.terminal s, pc)
  | .cancel _ (.cancelling pc) => some (.cancelling, pc)
  | .cancel _ (.replay _ s pc) => some (.terminal s, pc)
  | .setPaused _ intent (.reduce pc) => some (.paused (intent = .pause), pc)
  | _ => none

def holdsGate : Frame → Bool
  | .reduceStarted _ => false
  | .reduceDurableTerminal _ pc =>
    match pc with
    | .find | .gate | .bare _ => false
    | .check | .held _ | .retire | .ungate => true
  | .cancel _ pc =>
    match pc with
    | .find | .residency _ | .gate => false
    | .check | .stop | .cancelling _ | .settle _ | .replay _ _ _ | .retire _ | .result _
    | .ungate _ => true
  | .setPaused _ _ pc =>
    match pc with
    | .find | .residency _ | .gate => false
    | .check | .act | .reduce _ | .result | .ungate _ => true

def holds (f : Frame) : CoordinatorLock → Bool
  | .cancelGate => f.holdsGate
  | .reductionLock =>
    match f.reduction with
    | none | some (_, .lock) => false
    | some (_, .find) | some (_, .write _ _) | some (_, .unlock) => true

def wants (f : Frame) : Option CoordinatorLock :=
  match f.reduction with
  | some (_, .lock) => some .reductionLock
  | some (_, .find) | some (_, .write _ _) | some (_, .unlock) => none
  | none =>
    match f with
    | .reduceDurableTerminal _ .gate | .cancel _ .gate | .setPaused _ _ .gate => some .cancelGate
    | _ => none

/-- In `Stop`, `Pause` or `Resume`. -/
def awaits : Frame → Bool
  | .cancel _ .stop | .setPaused _ _ .act => true
  | _ => false

end Frame

section

variable {id c a}

variable {pc : ReducePc} {reduction : Reduction} {after : Option Frame}

/-- A reduction ends by leaving the lock. -/
theorem Reduction.step_ends (h : (reduction.step id m now pc).2 = none) : pc = .unlock := by
  unfold Reduction.step at h
  split at h
  · cases h
  · split at h <;> cases h
  · cases h
  · split at h <;> cases h
  · rfl

/-- What a reduction does next, seen from its frame. -/
theorem reducing_next (h : (reducing id c a reduction pc inside after).2 = some f') :
    (∃ pc', pc ≠ .unlock ∧ f' = inside pc') ∨ pc = .unlock ∧ after = some f' := by
  unfold reducing at h
  cases hnext : (reduction.step id c.model a.now pc).2 with
  | none =>
    simp only [hnext] at h
    exact .inr ⟨Reduction.step_ends hnext, h⟩
  | some pc' =>
    simp only [hnext] at h
    refine .inl ⟨pc', ?_, (some.inj h).symm⟩
    rintro rfl
    cases hnext

theorem reducing_ends (h : (reducing id c a reduction pc inside after).2 = none) :
    pc = .unlock := by
  unfold reducing at h
  cases hnext : (reduction.step id c.model a.now pc).2 with
  | none => exact Reduction.step_ends hnext
  | some pc' =>
    simp only [hnext] at h
    cases h

variable {f' : Frame} {lock : CoordinatorLock}

/-- A reduction takes the lock in its first step; its call has the gate all the time or never. -/
theorem reducing_holds (inside : ReducePc → Frame)
    (hinside : ∀ pc, (inside pc).reduction = some (reduction, pc))
    (hgate : ∀ pc', (inside pc').holdsGate = (inside pc).holdsGate)
    (hafter : ∀ g ∈ after, g.reduction = none ∧ g.holdsGate = (inside pc).holdsGate)
    (h : (reducing id c a reduction pc inside after).2 = some f') (hheld : f'.holds lock) :
    (inside pc).holds lock ∨ (inside pc).wants = some lock := by
  rcases reducing_next h with ⟨pc', hpc, rfl⟩ | ⟨rfl, hnext⟩
  · cases lock with
    | cancelGate => exact .inl ((hgate pc').symm.trans hheld)
    | reductionLock =>
      unfold Frame.holds Frame.wants
      rw [hinside]
      cases pc with
      | lock => exact .inr rfl
      | find | write _ _ => exact .inl rfl
      | unlock => exact absurd rfl hpc
  · obtain ⟨hfree, hsame⟩ := hafter f' hnext
    cases lock with
    | cancelGate => exact .inl (hsame.symm.trans hheld)
    | reductionLock =>
      rw [Frame.holds, hfree] at hheld
      cases hheld

attribute [local simp] Frame.holds Frame.wants Frame.reduction Frame.holdsGate

theorem reduceDurableTerminalStep_holds {pc : DurablePc}
    (h : (reduceDurableTerminalStep id c a s pc).2.1 = some f') (hheld : f'.holds lock) :
    (Frame.reduceDurableTerminal s pc).holds lock ∨
      (Frame.reduceDurableTerminal s pc).wants = some lock := by
  cases pc with
  | held pc =>
    refine reducing_holds (fun pc => .reduceDurableTerminal s (.held pc)) (fun _ => rfl)
      (fun _ => rfl) (fun g hg => ?_) h hheld
    cases hg
    exact ⟨rfl, rfl⟩
  | bare pc =>
    exact reducing_holds (fun pc => .reduceDurableTerminal s (.bare pc)) (fun _ => rfl)
      (fun _ => rfl) (fun g hg => absurd hg (not_mem_none g)) h hheld
  | find | gate | check | retire | ungate =>
    simp only [reduceDurableTerminalStep] at h
    repeat' split at h
    all_goals cases h
    all_goals cases lock <;> simp_all

theorem cancelStep_holds {pc : CancelPc} (h : (cancelStep id c a revision pc).2.1 = some f')
    (hheld : f'.holds lock) :
    (Frame.cancel revision pc).holds lock ∨ (Frame.cancel revision pc).wants = some lock := by
  cases pc with
  | cancelling pc =>
    refine reducing_holds (fun pc => .cancel revision (.cancelling pc)) (fun _ => rfl)
      (fun _ => rfl) (fun g hg => ?_) h hheld
    cases hg
    exact ⟨rfl, rfl⟩
  | replay accepted s pc =>
    refine reducing_holds (fun pc => .cancel revision (.replay accepted s pc))
      (fun _ => rfl) (fun _ => rfl) (fun g hg => ?_) h hheld
    cases hg
    exact ⟨rfl, rfl⟩
  | find | residency _ | gate | check | stop | settle _ | retire _ | result _ | ungate _ =>
    simp only [cancelStep] at h
    repeat' split at h
    all_goals cases h
    all_goals cases lock <;> simp_all

theorem setPausedStep_holds {pc : PausePc}
    (h : (setPausedStep id c a revision intent pc).2.1 = some f') (hheld : f'.holds lock) :
    (Frame.setPaused revision intent pc).holds lock ∨
      (Frame.setPaused revision intent pc).wants = some lock := by
  cases pc with
  | reduce pc =>
    refine reducing_holds (fun pc => .setPaused revision intent (.reduce pc))
      (fun _ => rfl) (fun _ => rfl) (fun g hg => ?_) h hheld
    cases hg
    exact ⟨rfl, rfl⟩
  | find | residency _ | gate | check | act | result | ungate _ =>
    simp only [setPausedStep] at h
    repeat' split at h
    all_goals cases h
    all_goals cases lock <;> simp_all

/-- A frame has no mutex that it has not wanted before. -/
theorem advance_holds {f : Frame} (h : (f.advance id c a).2.1 = some f')
    (hheld : f'.holds lock) : f.holds lock ∨ f.wants = some lock := by
  cases f with
  | reduceStarted pc =>
    exact reducing_holds .reduceStarted (fun _ => rfl) (fun _ => rfl)
      (fun g hg => absurd hg (not_mem_none g)) h hheld
  | reduceDurableTerminal s pc => exact reduceDurableTerminalStep_holds h hheld
  | cancel revision pc => exact cancelStep_holds h hheld
  | setPaused revision intent pc => exact setPausedStep_holds h hheld

end

/-- The coordinator's calls on one operation. -/
def coordinator (id : OperationId) :
    ThreadProgram Control Frame CoordinatorLock CoordinatorCall Answers Report where
  entry := CoordinatorCall.entry
  advance := fun c f a => f.advance id c a
  awaits := Frame.awaits
  wants := Frame.wants
  holds := Frame.holds
  recursive lock := lock = .cancelGate
  entry_holds call lock := by cases call <;> cases lock <;> rfl
  advance_holds _ _ _ _ _ h hheld := advance_holds h hheld

end WinCommander.Operations.Center
