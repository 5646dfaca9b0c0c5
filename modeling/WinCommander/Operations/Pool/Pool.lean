/-
  `Pool`: the operations between their admission and their release.

  A frame stands before the next critical section of its call, or before the outside code that it
  calls next: observers, a finalizer, `Start`, the completion callback. Such code may call the pool
  again. The queueing policy runs inside a critical section and has nothing to call.

  The jobs of the operations are their states, which others may change at any time, and the end of
  each, which happens once.
-/
import WinCommander.Library.Threads
import WinCommander.Operations.Submission.Slot

namespace WinCommander.Operations.Pooling

open Library List
open Submission (PoolEnqueueResult PoolTerminalFinalizationDecision PoolRetryFinalizationResult)

variable {Op : Type}

/-! ## The data -/

inductive OperationState where
  | cold | running | paused | stopped | completed
deriving DecidableEq

def OperationState.ended : OperationState → Bool
  | .stopped | .completed => true
  | _ => false

structure FinalizingOperation (Op : Type) where
  operation : Op
  hasFinalizer : Bool
  /-- Which object it is. -/
  ticket : Nat
  inProgress : Bool := false

/-- What is set before the first operation. -/
structure Settings where
  concurrency : Nat := 5
  /-- There is a `ShouldBeQueuedCallback`. -/
  hasPolicy : Bool := false
  hasCompletionCallback : Bool := false

structure Pool (Op : Type) where
  runningOperations : List Op := []
  pendingOperations : List Op := []
  finalizingOperations : List (FinalizingOperation Op) := []
  terminalFinalizers : List (FinalizingOperation Op) := []
  shuttingDown : Bool := false
  /-- The tickets given out so far. -/
  tickets : Nat := 0
  states : Op → OperationState
  /-- The operations whose end the pool observes. -/
  observed : List Op := []

inductive PolicyAnswer where
  | queue | startNow | throws
deriving DecidableEq

inductive FinalizerAnswer where
  | answers (decision : UInt8)
  | throws
deriving DecidableEq

/-- What outside code does during a step. -/
structure Answers (Op : Type) where
  policy : Op → PolicyAnswer := fun _ => .queue
  finalizer : FinalizerAnswer := .answers 0
  throws : Bool := false

inductive Report (Op : Type) where
  | accepted (operation : Op)
  | refused (operation : Op) (result : PoolEnqueueResult)
  | started (operation : Op)
  | finalizerRuns (operation : Op)
  | decided (operation : Op) (decision : PoolTerminalFinalizationDecision)
  | released (operation : Op)
  | completionRuns (operation : Op)
  /-- What `RetryFinalization` returns, unless it throws. -/
  | retried (operation : Op) (result : Option PoolRetryFinalizationResult)
deriving DecidableEq

/-- A call of `OperationFinalizationDidRelease`, with whether it has an error to throw. -/
structure Releasing (Op : Type) where
  operation : Op
  reportCompletion : Bool
  error : Bool := false

/-! ## Frames -/

inductive Frame (Op : Type) where
  | tryEnqueue (operation : Op) (hasFinalizer : Bool)
  | enqueue (operation : Op) (hasFinalizer : Bool)
  | additionObservers
  -- `StartPendingOperations`, in `OperationFinalizationDidRelease` or not.
  | startPending (releasing : Option (Releasing Op))
  | kickstart (toStart : List Op) (releasing : Option (Releasing Op))
  | gate (operation : Op) (rest : List Op) (releasing : Option (Releasing Op))
  | start (operation : Op) (rest : List Op) (releasing : Option (Releasing Op))
  | startObservers (rest : List Op) (releasing : Option (Releasing Op))
  | didFinish (operation : Op)
  -- `RetryFinalization`, in `OperationDidFinish` or not.
  | retry (operation : Op) (inFinish : Bool)
  | finalizer (finalizing : FinalizingOperation Op) (inFinish : Bool)
  | retain (finalizing : FinalizingOperation Op) (inFinish : Bool)
  | release (finalizing : FinalizingOperation Op) (decision : PoolTerminalFinalizationDecision)
  | removalObservers (releasing : Releasing Op)
  | complete (releasing : Releasing Op)
  | completionCallback (releasing : Releasing Op)
  | shutdown
  | shutdownGate
  -- The job of an operation ends, or is run, paused or resumed by others.
  | finish (operation : Op) (completed : Bool)
  | finishObservers (operation : Op)
  | turn (operation : Op) (state : OperationState)

inductive Call (Op : Type) where
  | tryEnqueue (operation : Op) (hasFinalizer : Bool)
  | retryFinalization (operation : Op)
  | stopAndWaitForShutdown
  | finish (operation : Op) (completed : Bool)
  | turn (operation : Op) (state : OperationState)

def Call.entry : Call Op → Frame Op
  | .tryEnqueue operation hasFinalizer => .tryEnqueue operation hasFinalizer
  | .retryFinalization operation => .retry operation false
  | .stopAndWaitForShutdown => .shutdown
  | .finish operation completed => .finish operation completed
  | .turn operation state => .turn operation state

/-- `m_Lock` and the recursive `m_StartGate`. -/
inductive Mutex where
  | lock | startGate
deriving DecidableEq

namespace Frame

/-- Outside code is running. -/
def awaits : Frame Op → Bool
  | .additionObservers | .startObservers _ _ | .finalizer _ _ | .removalObservers _
  | .completionCallback _ | .finishObservers _ => true
  | _ => false

def wants : Frame Op → Option Mutex
  | .tryEnqueue _ _ | .startPending _ | .gate _ _ _ | .didFinish _ | .retry _ _ | .retain _ _
  | .release _ _ | .shutdown => some .lock
  | .kickstart (_ :: _) _ | .shutdownGate => some .startGate
  | _ => none

def holds : Frame Op → Mutex → Bool
  | .enqueue _ _, .lock => true
  | .gate _ _ _, .startGate | .start _ _ _, .startGate | .startObservers _ _, .startGate => true
  | _, _ => false

end Frame

/-! ## Steps -/

abbrev PoolStep (Op : Type) := Pool Op × Option (Frame Op) × Option (Report Op)

/-- An exception and a value out of range retain. -/
def FinalizerAnswer.decision : FinalizerAnswer → PoolTerminalFinalizationDecision
  | .answers 0 => .release
  | .answers 1 => .releaseWithoutCompletion
  | _ => .retain

/-- What `RetryFinalization` returns after a release. -/
def Releasing.result (releasing : Releasing Op) (throws : Bool) :
    Option PoolRetryFinalizationResult :=
  if releasing.error || throws then none else some .released

/-- The rest of `OperationFinalizationDidRelease`, if that is where operations are started. -/
def afterStart (releasing : Option (Releasing Op)) : Option (Frame Op) := releasing.map .complete

/-- `StartPendingOperations` in `OperationDidFinish`. -/
def afterRetry (inFinish : Bool) : Option (Frame Op) :=
  if inFinish then some (.startPending none) else none

@[simp] theorem afterStart_eq_some :
    afterStart releasing = some f ↔ ∃ r, releasing = some r ∧ f = .complete r := by
  cases releasing with
  | none => simp [afterStart]
  | some r => simp [afterStart, eq_comm]

@[simp] theorem afterRetry_eq_some :
    afterRetry inFinish = some f ↔ inFinish ∧ f = .startPending none := by
  cases inFinish with
  | false => simp [afterRetry]
  | true => simp [afterRetry, eq_comm]

/-- The operations that fill the pool, and those that stay. -/
def gather (concurrency runningNow : Nat) : Nat → List Op → List Op × List Op
  | _, [] => ([], [])
  | gathered, operation :: rest =>
    if runningNow + gathered < concurrency then
      let (toStart, left) := gather concurrency runningNow (gathered + 1) rest
      (operation :: toStart, left)
    else ([], operation :: rest)

variable [DecidableEq Op]

namespace Pool

variable (settings : Settings) (s : Pool Op)

def isFinalizing (operation : Op) : Prop :=
  operation ∈ s.finalizingOperations.map FinalizingOperation.operation

instance (operation : Op) : Decidable (s.isFinalizing operation) :=
  inferInstanceAs (Decidable (operation ∈ _))

/-- `TryEnqueue` as far as the checks. -/
def tryEnqueue (operation : Op) (hasFinalizer : Bool) : PoolStep Op :=
  if s.shuttingDown then (s, none, some (.refused operation .shuttingDown))
  else if operation ∈ s.runningOperations ∨ operation ∈ s.pendingOperations ∨
      s.isFinalizing operation then
    (s, none, some (.refused operation .duplicate))
  else if s.states operation ≠ .cold then (s, none, some (.refused operation .notCold))
  else (s, some (.enqueue operation hasFinalizer), none)

def enqueue (operation : Op) (hasFinalizer : Bool) : PoolStep Op :=
  ({ s with
      pendingOperations := s.pendingOperations ++ [operation]
      terminalFinalizers := s.terminalFinalizers ++ [{ operation, hasFinalizer, ticket := s.tickets }]
      tickets := s.tickets + 1
      observed := operation :: s.observed }, some .additionObservers, some (.accepted operation))

/-- No policy decision counts when one has thrown. -/
def startsWithoutQueue (policy : Op → PolicyAnswer) (operation : Op) : Bool :=
  settings.hasPolicy && s.pendingOperations.all (fun other => policy other != .throws) &&
    policy operation == .startNow

/-- `StartPendingOperations` as far as the operations to start. -/
def startPending (policy : Op → PolicyAnswer) (releasing : Option (Releasing Op)) : PoolStep Op :=
  if s.shuttingDown then (s, afterStart releasing, none)
  else
    let unqueued := s.pendingOperations.filter (s.startsWithoutQueue settings policy)
    let queued := s.pendingOperations.filter fun operation =>
      !s.startsWithoutQueue settings policy operation
    let running := s.runningOperations ++ unqueued
    let (gathered, left) := gather settings.concurrency running.length 0 queued
    ({ s with pendingOperations := left, runningOperations := running ++ gathered },
      some (.kickstart (unqueued ++ gathered) releasing), none)

def kickstart (toStart : List Op) (releasing : Option (Releasing Op)) : PoolStep Op :=
  match toStart with
  | [] => (s, afterStart releasing, none)
  | operation :: rest => (s, some (.gate operation rest releasing), none)

def gate (operation : Op) (rest : List Op) (releasing : Option (Releasing Op)) : PoolStep Op :=
  if s.shuttingDown then (s, some (.kickstart rest releasing), none)
  else (s, some (.start operation rest releasing), none)

/-- The state in which others see an operation from now on. -/
def setState (operation : Op) (state : OperationState) : Pool Op :=
  { s with states := fun other => if other = operation then state else s.states other }

/-- `Start` runs a job that is cold. -/
def start (operation : Op) (rest : List Op) (releasing : Option (Releasing Op)) : PoolStep Op :=
  (if s.states operation = .cold then s.setState operation .running else s,
    some (.startObservers rest releasing), some (.started operation))

/-- `OperationDidFinish` as far as the lists. -/
def didFinish (operation : Op) : PoolStep Op :=
  if s.isFinalizing operation then (s, none, none)
  else if operation ∉ s.runningOperations ∧ operation ∉ s.pendingOperations then (s, none, none)
  else
    match s.terminalFinalizers.find? fun finalizing => finalizing.operation = operation with
    | none => (s, none, none)
    | some finalizing =>
      ({ s with
          finalizingOperations := s.finalizingOperations ++ [finalizing]
          runningOperations := s.runningOperations.filter (· ≠ operation)
          pendingOperations := s.pendingOperations.filter (· ≠ operation)
          terminalFinalizers := s.terminalFinalizers.eraseP fun finalizing =>
            finalizing.operation = operation }, some (.retry operation true), none)

/-- `in_progress` of the object with a ticket. -/
def setInProgress (ticket : Nat) (inProgress : Bool) : Pool Op :=
  { s with
    finalizingOperations := s.finalizingOperations.map fun finalizing =>
      if finalizing.ticket = ticket then { finalizing with inProgress } else finalizing }

/-- `RetryFinalization` as far as its finalizer, if there is one. -/
def retry (operation : Op) (inFinish : Bool) : PoolStep Op :=
  match s.finalizingOperations.find? fun finalizing => finalizing.operation = operation with
  | none => (s, none, some (.retried operation (some .notFinalizing)))
  | some finalizing =>
    if finalizing.inProgress then
      (s, afterRetry inFinish, some (.retried operation (some .inProgress)))
    else if finalizing.hasFinalizer then
      (s.setInProgress finalizing.ticket true, some (.finalizer finalizing inFinish),
        some (.finalizerRuns operation))
    else
      (s.setInProgress finalizing.ticket true, some (.release finalizing .release),
        some (.decided operation .release))

def finalizer (finalizing : FinalizingOperation Op) (inFinish : Bool) (answer : FinalizerAnswer) :
    PoolStep Op :=
  (s, some (if answer.decision = .retain then .retain finalizing inFinish
      else .release finalizing answer.decision),
    some (.decided finalizing.operation answer.decision))

def has (finalizing : FinalizingOperation Op) : Prop :=
  finalizing.ticket ∈ s.finalizingOperations.map FinalizingOperation.ticket

instance (finalizing : FinalizingOperation Op) : Decidable (s.has finalizing) :=
  inferInstanceAs (Decidable (_ ∈ _))

def retain (finalizing : FinalizingOperation Op) (inFinish : Bool) : PoolStep Op :=
  if s.has finalizing then
    (s.setInProgress finalizing.ticket false, afterRetry inFinish,
      some (.retried finalizing.operation (some .retained)))
  else (s, none, some (.retried finalizing.operation (some .notFinalizing)))

def release (finalizing : FinalizingOperation Op) (decision : PoolTerminalFinalizationDecision) :
    PoolStep Op :=
  if s.has finalizing then
    ({ s with
        finalizingOperations := s.finalizingOperations.eraseP fun other =>
          other.ticket = finalizing.ticket }, some (.removalObservers
        { operation := finalizing.operation, reportCompletion := decision = .release }),
      some (.released finalizing.operation))
  else (s, none, some (.retried finalizing.operation (some .notFinalizing)))

def complete (releasing : Releasing Op) : PoolStep Op :=
  if releasing.reportCompletion ∧ s.states releasing.operation = .completed ∧
      settings.hasCompletionCallback then
    (s, some (.completionCallback releasing), some (.completionRuns releasing.operation))
  else (s, none, some (.retried releasing.operation (releasing.result false)))

/-- The end of a job, completed or stopped. -/
def finish (operation : Op) (completed : Bool) : PoolStep Op :=
  if (s.states operation).ended then (s, none, none)
  else
    (s.setState operation (if completed then .completed else .stopped),
      some (.finishObservers operation), none)

def turn (operation : Op) (state : OperationState) : Pool Op :=
  if (s.states operation).ended || state.ended then s else s.setState operation state

def advance (answers : Answers Op) : Frame Op → PoolStep Op
  | .tryEnqueue operation hasFinalizer => s.tryEnqueue operation hasFinalizer
  | .enqueue operation hasFinalizer => s.enqueue operation hasFinalizer
  | .additionObservers => (s, some (.startPending none), none)
  | .startPending releasing => s.startPending settings answers.policy releasing
  | .kickstart toStart releasing => s.kickstart toStart releasing
  | .gate operation rest releasing => s.gate operation rest releasing
  | .start operation rest releasing => s.start operation rest releasing
  | .startObservers rest releasing => (s, some (.kickstart rest releasing), none)
  | .didFinish operation => s.didFinish operation
  | .retry operation inFinish => s.retry operation inFinish
  | .finalizer finalizing inFinish => s.finalizer finalizing inFinish answers.finalizer
  | .retain finalizing inFinish => s.retain finalizing inFinish
  | .release finalizing decision => s.release finalizing decision
  | .removalObservers releasing =>
    (s, some (.startPending (some { releasing with error := answers.throws })), none)
  | .complete releasing => s.complete settings releasing
  | .completionCallback releasing =>
    (s, none, some (.retried releasing.operation (releasing.result answers.throws)))
  | .shutdown => ({ s with shuttingDown := true }, some .shutdownGate, none)
  | .shutdownGate => (s, none, none)
  | .finish operation completed => s.finish operation completed
  | .finishObservers operation =>
    (s, if operation ∈ s.observed then some (.didFinish operation) else none, none)
  | .turn operation state => (s.turn operation state, none, none)

end Pool

/-! ## What a step does -/

/-- The lists are those of another state, and no operation has come back from its end. -/
structure SameLists (s s' : Pool Op) : Prop where
  running : s'.runningOperations = s.runningOperations
  pending : s'.pendingOperations = s.pendingOperations
  finalizing : s'.finalizingOperations = s.finalizingOperations
  terminal : s'.terminalFinalizers = s.terminalFinalizers
  tickets : s'.tickets = s.tickets
  ended : ∀ operation, (s.states operation).ended = true → (s'.states operation).ended = true
  down : s.shuttingDown = true → s'.shuttingDown = true

/-- The ways in which a frame goes on. -/
inductive Advances (settings : Settings) (s : Pool Op) : Frame Op → PoolStep Op → Prop
  | refused (operation : Op) (hasFinalizer : Bool) (result : PoolEnqueueResult) :
      Advances settings s (.tryEnqueue operation hasFinalizer)
        (s, none, some (.refused operation result))
  | admitted (operation : Op) (hasFinalizer : Bool) (running : operation ∉ s.runningOperations)
      (pending : operation ∉ s.pendingOperations) (finalizing : ¬s.isFinalizing operation)
      (cold : s.states operation = .cold) : Advances settings s (.tryEnqueue operation hasFinalizer)
        (s, some (.enqueue operation hasFinalizer), none)
  | enqueued (operation : Op) (hasFinalizer : Bool) :
      Advances settings s (.enqueue operation hasFinalizer) (s.enqueue operation hasFinalizer)
  | added : Advances settings s .additionObservers (s, some (.startPending none), none)
  | shutOut (releasing : Option (Releasing Op)) (down : s.shuttingDown = true) :
      Advances settings s (.startPending releasing) (s, afterStart releasing, none)
  | gathered (releasing : Option (Releasing Op)) (toStart left : List Op)
      (parts : s.pendingOperations.Perm (toStart ++ left))
      (full : settings.concurrency ≤ (s.runningOperations ++ toStart).length ∨ left = []) :
      Advances settings s (.startPending releasing)
        ({ s with pendingOperations := left, runningOperations := s.runningOperations ++ toStart },
          some (.kickstart toStart releasing), none)
  | allStarted (releasing : Option (Releasing Op)) :
      Advances settings s (.kickstart [] releasing) (s, afterStart releasing, none)
  | nextStart (operation : Op) (rest : List Op) (releasing : Option (Releasing Op)) :
      Advances settings s (.kickstart (operation :: rest) releasing)
        (s, some (.gate operation rest releasing), none)
  | skipped (operation : Op) (rest : List Op) (releasing : Option (Releasing Op)) :
      Advances settings s (.gate operation rest releasing)
        (s, some (.kickstart rest releasing), none)
  | opened (operation : Op) (rest : List Op) (releasing : Option (Releasing Op)) :
      Advances settings s (.gate operation rest releasing)
        (s, some (.start operation rest releasing), none)
  | started (operation : Op) (rest : List Op) (releasing : Option (Releasing Op)) (s' : Pool Op)
      (same : SameLists s s') : Advances settings s (.start operation rest releasing)
        (s', some (.startObservers rest releasing), some (.started operation))
  | startTold (rest : List Op) (releasing : Option (Releasing Op)) :
      Advances settings s (.startObservers rest releasing)
        (s, some (.kickstart rest releasing), none)
  | notTaken (operation : Op) : Advances settings s (.didFinish operation) (s, none, none)
  | taken (finalizing : FinalizingOperation Op) (before after : List (FinalizingOperation Op))
      (listed : finalizing.operation ∈ s.runningOperations ∨
        finalizing.operation ∈ s.pendingOperations)
      (registered : s.terminalFinalizers = before ++ finalizing :: after) :
      Advances settings s (.didFinish finalizing.operation)
        ({ s with
            finalizingOperations := s.finalizingOperations ++ [finalizing]
            runningOperations := s.runningOperations.filter (· ≠ finalizing.operation)
            pendingOperations := s.pendingOperations.filter (· ≠ finalizing.operation)
            terminalFinalizers := before ++ after }, some (.retry finalizing.operation true), none)
  | notFinalizing (operation : Op) (inFinish : Bool) (missing : ¬s.isFinalizing operation) :
      Advances settings s (.retry operation inFinish)
        (s, none, some (.retried operation (some .notFinalizing)))
  | busy (operation : Op) (inFinish : Bool) : Advances settings s (.retry operation inFinish)
        (s, afterRetry inFinish, some (.retried operation (some .inProgress)))
  | run (finalizing : FinalizingOperation Op) (inFinish : Bool)
      (mem : finalizing ∈ s.finalizingOperations) (idle : finalizing.inProgress = false) :
      Advances settings s (.retry finalizing.operation inFinish)
        (s.setInProgress finalizing.ticket true, some (.finalizer finalizing inFinish),
          some (.finalizerRuns finalizing.operation))
  | unfinalized (finalizing : FinalizingOperation Op) (inFinish : Bool)
      (mem : finalizing ∈ s.finalizingOperations) (idle : finalizing.inProgress = false) :
      Advances settings s (.retry finalizing.operation inFinish)
        (s.setInProgress finalizing.ticket true, some (.release finalizing .release),
          some (.decided finalizing.operation .release))
  | keeps (finalizing : FinalizingOperation Op) (inFinish : Bool) :
      Advances settings s (.finalizer finalizing inFinish)
        (s, some (.retain finalizing inFinish), some (.decided finalizing.operation .retain))
  | lets (finalizing : FinalizingOperation Op) (inFinish : Bool)
      (decision : PoolTerminalFinalizationDecision) (letsGo : decision ≠ .retain) :
      Advances settings s (.finalizer finalizing inFinish)
        (s, some (.release finalizing decision), some (.decided finalizing.operation decision))
  | retained (finalizing : FinalizingOperation Op) (inFinish : Bool) (found : s.has finalizing) :
      Advances settings s (.retain finalizing inFinish)
        (s.setInProgress finalizing.ticket false, afterRetry inFinish,
          some (.retried finalizing.operation (some .retained)))
  | retainedNone (finalizing : FinalizingOperation Op) (inFinish : Bool)
      (missing : ¬s.has finalizing) : Advances settings s (.retain finalizing inFinish)
        (s, none, some (.retried finalizing.operation (some .notFinalizing)))
  | released (finalizing other : FinalizingOperation Op)
      (decision : PoolTerminalFinalizationDecision) (before after : List (FinalizingOperation Op))
      (found : s.finalizingOperations = before ++ other :: after)
      (same : other.ticket = finalizing.ticket) : Advances settings s (.release finalizing decision)
        ({ s with finalizingOperations := before ++ after },
          some (.removalObservers
            { operation := finalizing.operation, reportCompletion := decision = .release }),
          some (.released finalizing.operation))
  | releasedNone (finalizing : FinalizingOperation Op)
      (decision : PoolTerminalFinalizationDecision) (missing : ¬s.has finalizing) :
      Advances settings s (.release finalizing decision)
        (s, none, some (.retried finalizing.operation (some .notFinalizing)))
  | removed (releasing : Releasing Op) (error : Bool) :
      Advances settings s (.removalObservers releasing)
        (s, some (.startPending (some { releasing with error })), none)
  | completes (releasing : Releasing Op) (reports : releasing.reportCompletion = true) :
      Advances settings s (.complete releasing)
        (s, some (.completionCallback releasing), some (.completionRuns releasing.operation))
  | completesNone (releasing : Releasing Op) (result : Option PoolRetryFinalizationResult) :
      Advances settings s (.complete releasing) (s, none, some (.retried releasing.operation result))
  | completed (releasing : Releasing Op) (result : Option PoolRetryFinalizationResult) :
      Advances settings s (.completionCallback releasing)
        (s, none, some (.retried releasing.operation result))
  | shutdown (s' : Pool Op) (same : SameLists s s') :
      Advances settings s .shutdown (s', some .shutdownGate, none)
  | shutdownDone : Advances settings s .shutdownGate (s, none, none)
  | alreadyEnded (operation : Op) (completed : Bool) :
      Advances settings s (.finish operation completed) (s, none, none)
  | finishes (operation : Op) (completed : Bool) (s' : Pool Op) (same : SameLists s s')
      (now : (s'.states operation).ended = true) :
      Advances settings s (.finish operation completed) (s', some (.finishObservers operation), none)
  | told (operation : Op) :
      Advances settings s (.finishObservers operation) (s, some (.didFinish operation), none)
  | untold (operation : Op) : Advances settings s (.finishObservers operation) (s, none, none)
  | turns (operation : Op) (state : OperationState) (s' : Pool Op) (same : SameLists s s') :
      Advances settings s (.turn operation state) (s', none, none)

variable (concurrency runningNow gathered : Nat)

omit [DecidableEq Op] in
theorem gather_append (operations : List Op) :
    (gather concurrency runningNow gathered operations).1 ++
      (gather concurrency runningNow gathered operations).2 = operations := by
  induction operations generalizing gathered with
  | nil => rfl
  | cons operation rest ih =>
    by_cases h : runningNow + gathered < concurrency
    · simp only [gather, if_pos h]
      rw [cons_append, ih]
    · simp only [gather, if_neg h]
      rfl

omit [DecidableEq Op] in
/-- The pool is full, or none is left. -/
theorem gather_full (operations : List Op) : concurrency ≤ runningNow + gathered +
        (gather concurrency runningNow gathered operations).1.length ∨
      (gather concurrency runningNow gathered operations).2 = [] := by
  induction operations generalizing gathered with
  | nil => exact .inr rfl
  | cons operation rest ih =>
    by_cases h : runningNow + gathered < concurrency
    · simp only [gather, if_pos h, length_cons]
      rcases ih (gathered + 1) with hfull | hnone
      · left
        omega
      · exact .inr hnone
    · left
      omega

/-- The first element that a search finds is the one that is erased. -/
theorem eraseP_of_find? (h : l.find? p = some a) :
    ∃ before after, l = before ++ a :: after ∧ l.eraseP p = before ++ after := by
  obtain ⟨ha, before, after, rfl, hbefore⟩ := List.find?_eq_some_iff_append.mp h
  refine ⟨before, after, rfl, ?_⟩
  rw [eraseP_append_right]
  · rw [eraseP_cons_of_pos ha]
  · intro b hb hpb
    have hnot := hbefore b hb
    rw [hpb] at hnot
    cases hnot

namespace Pool

variable {settings : Settings} {s : Pool Op}

omit [DecidableEq Op] in
theorem sameLists_refl : SameLists s s :=
  ⟨rfl, rfl, rfl, rfl, rfl, fun _ h => h, fun h => h⟩

theorem setState_ended (h : (s.states operation).ended → state.ended) :
    SameLists s (s.setState operation state) := by
  refine ⟨rfl, rfl, rfl, rfl, rfl, ?_, fun h => h⟩
  intro other hother
  show (if other = operation then state else s.states other).ended
  split_ifs with hsame
  · rw [hsame] at hother
    exact h hother
  · exact hother

variable (operation : Op) (finalizing : FinalizingOperation Op)

theorem tryEnqueue_advances (hasFinalizer : Bool) :
    Advances settings s (.tryEnqueue operation hasFinalizer)
      (s.tryEnqueue operation hasFinalizer) := by
  unfold tryEnqueue
  by_cases hdown : s.shuttingDown
  · rw [if_pos hdown]
    exact .refused _ _ _
  rw [if_neg hdown]
  by_cases hlisted : operation ∈ s.runningOperations ∨ operation ∈ s.pendingOperations ∨
      s.isFinalizing operation
  · rw [if_pos hlisted]
    exact .refused _ _ _
  rw [if_neg hlisted]
  by_cases hcold : s.states operation = .cold
  · rw [if_neg (not_not.mpr hcold)]
    push Not at hlisted
    exact .admitted _ _ hlisted.1 hlisted.2.1 hlisted.2.2 hcold
  · rw [if_pos hcold]
    exact .refused _ _ _

theorem startPending_advances (policy : Op → PolicyAnswer) (releasing : Option (Releasing Op)) :
    Advances settings s (.startPending releasing) (s.startPending settings policy releasing) := by
  unfold startPending
  by_cases hdown : s.shuttingDown
  · rw [if_pos hdown]
    exact .shutOut _ hdown
  rw [if_neg hdown]
  dsimp only
  rw [append_assoc]
  refine .gathered releasing _ _ ?_ ?_
  · rw [append_assoc, gather_append]
    exact (filter_append_perm _ _).symm
  · have hfull := gather_full settings.concurrency
      (s.runningOperations ++
        s.pendingOperations.filter (s.startsWithoutQueue settings policy)).length 0
      (s.pendingOperations.filter fun operation => !s.startsWithoutQueue settings policy operation)
    rw [Nat.add_zero, ← length_append, append_assoc] at hfull
    exact hfull

theorem start_advances (rest : List Op) (releasing : Option (Releasing Op)) :
    Advances settings s (.start operation rest releasing) (s.start operation rest releasing) := by
  unfold start
  split_ifs with hcold
  · refine .started _ _ _ _ (setState_ended ?_)
    rw [hcold]
    exact fun h => absurd h Bool.false_ne_true
  · exact .started _ _ _ _ sameLists_refl

theorem didFinish_advances :
    Advances settings s (.didFinish operation) (s.didFinish operation) := by
  unfold didFinish
  by_cases hfinalizing : s.isFinalizing operation
  · rw [if_pos hfinalizing]
    exact .notTaken _
  rw [if_neg hfinalizing]
  by_cases hlisted : operation ∉ s.runningOperations ∧ operation ∉ s.pendingOperations
  · rw [if_pos hlisted]
    exact .notTaken _
  rw [if_neg hlisted]
  cases hfind : s.terminalFinalizers.find? fun finalizing => finalizing.operation = operation with
  | none => exact .notTaken _
  | some finalizing =>
    have hsame := List.find?_some hfind
    rw [decide_eq_true_eq] at hsame
    obtain ⟨before, after, hlist, herase⟩ := eraseP_of_find? hfind
    subst hsame
    rw [herase]
    refine .taken finalizing before after ?_ hlist
    rw [not_and_or, not_not, not_not] at hlisted
    exact hlisted

theorem retry_advances (inFinish : Bool) :
    Advances settings s (.retry operation inFinish) (s.retry operation inFinish) := by
  unfold retry
  cases hfind : s.finalizingOperations.find?
      fun finalizing => finalizing.operation = operation with
  | none =>
    refine .notFinalizing _ _ ?_
    intro hmem
    obtain ⟨finalizing, hmem, hsame⟩ := mem_map.mp hmem
    exact List.find?_eq_none.mp hfind finalizing hmem (decide_eq_true hsame)
  | some finalizing =>
    have hsame := List.find?_some hfind
    rw [decide_eq_true_eq] at hsame
    have hmem := List.mem_of_find?_eq_some hfind
    subst hsame
    dsimp only
    by_cases hbusy : finalizing.inProgress
    · rw [if_pos hbusy]
      exact .busy _ _
    rw [if_neg hbusy]
    have hidle : finalizing.inProgress = false := eq_false_of_ne_true hbusy
    split_ifs
    · exact .run finalizing inFinish hmem hidle
    · exact .unfinalized finalizing inFinish hmem hidle

theorem finalizer_advances (inFinish : Bool) (answer : FinalizerAnswer) :
    Advances settings s (.finalizer finalizing inFinish)
      (s.finalizer finalizing inFinish answer) := by
  unfold finalizer
  split_ifs with hretain
  · rw [hretain]
    exact .keeps _ _
  · exact .lets _ _ _ hretain

theorem retain_advances (inFinish : Bool) :
    Advances settings s (.retain finalizing inFinish) (s.retain finalizing inFinish) := by
  unfold retain
  split_ifs with hfound
  · exact .retained _ _ hfound
  · exact .retainedNone _ _ hfound

theorem release_advances (decision : PoolTerminalFinalizationDecision) :
    Advances settings s (.release finalizing decision) (s.release finalizing decision) := by
  unfold release
  split_ifs with hfound
  · obtain ⟨found, hmem, hticket⟩ := mem_map.mp hfound
    obtain ⟨other, before, after, -, hother, hlist, herase⟩ :=
      exists_of_eraseP (p := fun other => decide (other.ticket = finalizing.ticket)) hmem
        (decide_eq_true hticket)
    rw [herase]
    exact .released finalizing other decision before after hlist (of_decide_eq_true hother)
  · exact .releasedNone _ _ hfound

theorem complete_advances (releasing : Releasing Op) :
    Advances settings s (.complete releasing) (s.complete settings releasing) := by
  unfold complete
  split_ifs with hreports
  · exact .completes _ hreports.1
  · exact .completesNone _ _

theorem finish_advances (completed : Bool) :
    Advances settings s (.finish operation completed) (s.finish operation completed) := by
  unfold finish
  by_cases hended : (s.states operation).ended
  · rw [if_pos hended]
    exact .alreadyEnded _ _
  rw [if_neg hended]
  refine .finishes _ _ _ (setState_ended fun h => absurd h hended) ?_
  show (if operation = operation then _ else s.states operation).ended
  rw [if_pos rfl]
  cases completed <;> rfl

theorem turn_sameLists (state : OperationState) : SameLists s (s.turn operation state) := by
  unfold turn
  split_ifs with hended
  · exact sameLists_refl
  · rw [Bool.or_eq_true, not_or] at hended
    exact setState_ended fun h => absurd h hended.1

/-- Every step is one of them. -/
theorem advances (settings : Settings) (s : Pool Op) (answers : Answers Op) :
    ∀ f : Frame Op, Advances settings s f (s.advance settings answers f)
  | .tryEnqueue operation hasFinalizer => tryEnqueue_advances operation hasFinalizer
  | .enqueue operation hasFinalizer => .enqueued operation hasFinalizer
  | .additionObservers => .added
  | .startPending releasing => startPending_advances answers.policy releasing
  | .kickstart [] releasing => .allStarted releasing
  | .kickstart (operation :: rest) releasing => .nextStart operation rest releasing
  | .gate operation rest releasing => by
    show Advances settings s _ (s.gate operation rest releasing)
    unfold gate
    split_ifs
    · exact .skipped _ _ _
    · exact .opened _ _ _
  | .start operation rest releasing => start_advances operation rest releasing
  | .startObservers rest releasing => .startTold rest releasing
  | .didFinish operation => didFinish_advances operation
  | .retry operation inFinish => retry_advances operation inFinish
  | .finalizer finalizing inFinish => finalizer_advances finalizing inFinish answers.finalizer
  | .retain finalizing inFinish => retain_advances finalizing inFinish
  | .release finalizing decision => release_advances finalizing decision
  | .removalObservers releasing => .removed releasing answers.throws
  | .complete releasing => complete_advances releasing
  | .completionCallback releasing => .completed releasing _
  | .shutdown => .shutdown _ ⟨rfl, rfl, rfl, rfl, rfl, fun _ h => h, fun _ => rfl⟩
  | .shutdownGate => .shutdownDone
  | .finish operation completed => finish_advances operation completed
  | .finishObservers operation => by
    show Advances settings s _ (s, if operation ∈ s.observed then _ else _, none)
    split_ifs
    · exact .told _
    · exact .untold _
  | .turn operation state => .turns operation state _ (turn_sameLists operation state)

end Pool

/-- A frame that takes a mutex, or has it already, is next. -/
theorem advance_holds (settings : Settings) (s : Pool Op) (f : Frame Op) (answers : Answers Op)
    (f' : Frame Op) (mutex : Mutex) (h : (s.advance settings answers f).2.1 = some f')
    (hheld : f'.holds mutex) : f.holds mutex ∨ f.wants = some mutex := by
  have hadvances := s.advances settings answers f
  generalize s.advance settings answers f = result at hadvances h
  cases hadvances <;> cases mutex <;>
    grind [Frame.holds, Frame.wants, afterStart_eq_some, afterRetry_eq_some, Pool.enqueue]

/-- The pool and everything that calls it. -/
def program (settings : Settings) :
    ThreadProgram (Pool Op) (Frame Op) Mutex (Call Op) (Answers Op) (Report Op) where
  entry := Call.entry
  advance s f answers := s.advance settings answers f
  awaits := Frame.awaits
  wants := Frame.wants
  holds := Frame.holds
  recursive mutex := mutex == .startGate
  entry_holds call mutex := by cases call <;> rfl
  advance_holds := advance_holds settings

/-- An empty pool and threads that have called nothing yet. -/
def started (states : Op → OperationState) (threads : Nat) : Threads (Pool Op) (Frame Op) :=
  ⟨{ states }, List.replicate threads []⟩

end WinCommander.Operations.Pooling
