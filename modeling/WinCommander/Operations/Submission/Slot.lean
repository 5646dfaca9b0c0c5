/-
  The slot of `CopyOperationRunReceiptCustodian` that has the run receipt of one operation, and
  what each critical section of the custodian does with it.

  The journal is what it answers to `Finalize`, and what a reopened one has of the plan.
-/
import WinCommander.Operations.Journal.Codec

namespace WinCommander.Operations.Submission

open Library
open Journal (OperationJournalState OperationJournalItemResult OperationJournalError
  OperationJournalErrorCode OperationJournalEntry)

/-! ## The data -/

structure CopyOperationTerminalEvidence where
  state : OperationJournalState
  itemResults : List OperationJournalItemResult
deriving DecidableEq

inductive CopyOperationTerminalResultError where
  | pending | inconsistent
deriving DecidableEq

inductive CopyOperationRunReceiptCustodyStatus where
  | finalized | retryRequired | reconcileRequired | contractViolation | notFound | busy
deriving DecidableEq

structure CopyOperationRunReceiptCustodyResult where
  status : CopyOperationRunReceiptCustodyStatus
  journalError : Option OperationJournalError := none
deriving DecidableEq

inductive CopyOperationRunReceiptReconciliationStatus where
  | terminalConfirmed | interruptedConfirmed | mismatch | retryRequired | contractViolation
  | notFound | busy
deriving DecidableEq

structure CopyOperationRunReceiptReconciliationResult where
  status : CopyOperationRunReceiptReconciliationStatus
  poolReleaseRequired : Bool := false
deriving DecidableEq

inductive CopyOperationDurableTerminalConfirmation where
  | finalized | reconciledTerminal | reconciledInterrupted
deriving DecidableEq

structure CopyOperationDurableTerminalOutcome where
  planId : Bytes
  state : OperationJournalState
  itemResults : List OperationJournalItemResult
  confirmation : CopyOperationDurableTerminalConfirmation
deriving DecidableEq

inductive PoolEnqueueResult where
  | accepted | shuttingDown | notCold | duplicate
deriving DecidableEq

inductive PoolTerminalFinalizationDecision where
  | release | releaseWithoutCompletion | retain
deriving DecidableEq

inductive PoolRetryFinalizationResult where
  | released | retained | notFinalizing | inProgress
deriving DecidableEq

inductive CopyOperationRunReceiptPoolReleaseStatus where
  | released | retained | inProgress | notFound | busy | contractViolation
deriving DecidableEq

inductive Phase where
  | reserved | armed | enqueueInProgress | poolOwned | retryRequired | reconcileRequired
  | contractViolation | reconciled | releaseInProgress | finalized | released
deriving DecidableEq

/-- `Slot`; of the pointers and the callbacks it is told whether they are there. -/
structure Slot where
  plan : OperationPlan
  terminalOutcomePlanId : Bytes
  journal : Bool := true
  receipt : Bool := false
  terminalEvidenceAcquired : Bool := false
  terminalResultError : Option CopyOperationTerminalResultError := none
  terminalEvidence : Option CopyOperationTerminalEvidence := none
  terminalObserver : Bool
  terminalObserverDelivered : Bool := false
  lastJournalError : Option OperationJournalError := none
  operation : Bool := false
  poolOwned : Bool := false
  poolReleaseLatched : Bool := false
  reconciliationStatus : Option CopyOperationRunReceiptReconciliationStatus := none
  phase : Phase := .reserved
deriving DecidableEq

/-! ## Item results -/

def einval : Int32 := 22
def ealready : Int32 := 37

/-- `CopyOrchestratorCancelledItemResult`. -/
def cancelledItemResult : OperationJournalItemResult where
  itemIndex := 0
  status := .cancelled
  error := .cancelled
  systemError := 0
  priorError := .none
  priorSystemError := 0
  bytes := 0
  destinationPublication := .notPublished
  sourceRemoval := .notRemoved
  filesystemSyncStatus := .notAttempted
  filesystemSyncSystemError := 0
  recoveryAction := .none

/-- `CopyOrchestratorEnqueueFailureItemResult`. -/
def enqueueFailureItemResult (result : PoolEnqueueResult) : OperationJournalItemResult :=
  if result = .shuttingDown then cancelledItemResult
  else {
    itemIndex := 0
    status := .failed
    error := .unknown
    systemError := if result = .duplicate then ealready else einval
    priorError := .none
    priorSystemError := 0
    bytes := 0
    destinationPublication := .notPublished
    sourceRemoval := .notRemoved
    filesystemSyncStatus := .notAttempted
    filesystemSyncSystemError := 0
    recoveryAction := .retry }

/-- One statement per source. -/
def preRunningEvidence (plan : OperationPlan) (result : OperationJournalItemResult)
    (terminalState : OperationJournalState) : CopyOperationTerminalEvidence where
  state := terminalState
  itemResults := (List.range plan.sources.length).map fun index =>
    { result with itemIndex := UInt64.ofNat index }

/-- What an answer of `TryEnqueue` that is not `Accepted`, or an exception, is recorded as. -/
def rejection : Option PoolEnqueueResult → OperationJournalItemResult × OperationJournalState
  | some result =>
    (enqueueFailureItemResult result, if result = .shuttingDown then .cancelled else .failed)
  | none => (enqueueFailureItemResult .notCold, .failed)

/-! ## The journal -/

/-- How an attempt of `Finalize` ends. -/
inductive FinalizeAnswer where
  | stored
  | refused (error : OperationJournalError)
  | threw
deriving DecidableEq

/-- `CopyOrchestratorContractJournalError`. -/
def contractJournalError : OperationJournalErrorCode → Bool
  | .invalidRunReceipt | .runReceiptAlreadyConsumed | .invalidItemResult | .invalidTransition => true
  | _ => false

/-- The errors after which the journal is not asked again. -/
def uncertainJournalError : OperationJournalErrorCode → Bool
  | .durabilityUncertain | .journalUnusable => true
  | _ => false

/-- A journal that was opened again: whether its storage is the slot's, and its entry of the plan,
if `Snapshot` does not throw. -/
structure Reopened where
  sameStorage : Bool
  entry : Option OperationJournalEntry
deriving DecidableEq

/-- A status that settles the operation. -/
def CopyOperationRunReceiptReconciliationStatus.confirmed :
    CopyOperationRunReceiptReconciliationStatus → Bool
  | .terminalConfirmed | .interruptedConfirmed => true
  | _ => false

/-! ## The pool -/

/-- Whether the pool has let go of the operation, by what `RetryFinalization` returned (nothing
when it threw) and whether the release had been decided. -/
def releaseConfirmed (released : Option PoolRetryFinalizationResult) (latched : Bool) : Bool :=
  latched && match released with
    | none | some .released | some .notFinalizing => true
    | some .retained | some .inProgress => false

/-- What `ReleaseReconciled` answers when it is not confirmed. -/
def unconfirmedRelease :
    Option PoolRetryFinalizationResult → CopyOperationRunReceiptPoolReleaseStatus
  | some .inProgress => .inProgress
  | some .retained => .retained
  | none | some .notFinalizing | some .released => .contractViolation

namespace Slot

/-- `Slot::Slot`. -/
def new (plan : OperationPlan) (terminalObserver : Bool) : Slot :=
  { plan, terminalOutcomePlanId := plan.id, terminalObserver }

/-! ## Before the pool -/

/-- `Arm` with a receipt that was issued for the plan by the slot's journal, or not. -/
def arm (slot : Slot) (receiptFits : Bool) : Slot × Bool :=
  if slot.phase ≠ .reserved ∨ !slot.journal ∨ !receiptFits then (slot, false)
  else ({ slot with receipt := true, phase := .armed }, true)

def beginEnqueue (slot : Slot) : Slot × Bool :=
  if slot.phase ≠ .armed ∨ slot.terminalEvidenceAcquired ∨ !slot.receipt then (slot, false)
  else ({ slot with operation := true, phase := .enqueueInProgress }, true)

/-- Takes evidence of an operation that does not run, in the phase that is expected. -/
def acquireBefore (slot : Slot) (expected : Phase) (result : OperationJournalItemResult)
    (terminalState : OperationJournalState) : Slot × Bool :=
  if slot.phase ≠ expected ∨ slot.terminalEvidenceAcquired then
    ({ slot with phase := .contractViolation }, false)
  else
    ({ slot with
      terminalEvidence := some (preRunningEvidence slot.plan result terminalState)
      terminalEvidenceAcquired := true
      phase := .armed }, true)

/-- The beginning of `FinalizeBeforeEnqueue`. -/
def finalizeBeforeEnqueue (slot : Slot) : OperationJournalItemResult → OperationJournalState →
    Slot × Bool :=
  slot.acquireBefore .armed

/-- The beginning of `RejectEnqueue`. -/
def rejectEnqueue (slot : Slot) : OperationJournalItemResult → OperationJournalState → Slot × Bool :=
  slot.acquireBefore .enqueueInProgress

/-- `CommitEnqueue`, and whether the slot is to leave the table. -/
def commitEnqueue (slot : Slot) : Slot × Bool :=
  if slot.phase = .enqueueInProgress then
    ({ slot with phase := .poolOwned, poolOwned := true }, false)
  else if slot.phase ≠ .finalized ∧ slot.phase ≠ .reconcileRequired then (slot, false)
  else ({ slot with poolOwned := true }, slot.phase = .finalized)

/-! ## Finalizing -/

/-- A publication of which it is not known whether it is durable. -/
def surrender (slot : Slot) : Slot :=
  { slot with receipt := false, journal := false, phase := .reconcileRequired }

def finalize (slot : Slot) : Slot :=
  { slot with receipt := false, lastJournalError := none, phase := .finalized }

def finalizeCustodiedSlot (slot : Slot) (answer : FinalizeAnswer) :
    Slot × CopyOperationRunReceiptCustodyResult :=
  if slot.phase ≠ .armed ∧ slot.phase ≠ .retryRequired then (slot, { status := .busy })
  else if !slot.journal || !slot.receipt || !slot.terminalEvidenceAcquired ||
      slot.terminalEvidence.isNone then
    ({ slot with phase := .contractViolation }, { status := .contractViolation })
  else
    match answer with
    | .threw =>
      ({ slot with phase := .retryRequired, lastJournalError := none },
        { status := .retryRequired })
    | .stored => (slot.finalize, { status := .finalized })
    | .refused error =>
      let slot := { slot with lastJournalError := some error }
      if uncertainJournalError error.code then (slot.surrender, ⟨.reconcileRequired, some error⟩)
      else if contractJournalError error.code then
        ({ slot with phase := .contractViolation }, ⟨.contractViolation, some error⟩)
      else ({ slot with phase := .retryRequired }, ⟨.retryRequired, some error⟩)

/-- What the accessor of the execution product says. -/
inductive EvidenceAnswer where
  | acquired (evidence : CopyOperationTerminalEvidence)
  | refused (error : CopyOperationTerminalResultError)
  | threw
deriving DecidableEq

/-- Asks for the terminal evidence, once; nothing when the pool is to retain the operation. -/
def acquireEvidence (slot : Slot) (answer : EvidenceAnswer) :
    Slot × Option CopyOperationTerminalEvidence :=
  if !slot.terminalEvidenceAcquired then
    match answer with
    | .threw => (slot, none)
    | .refused .pending => (slot, none)
    | .refused .inconsistent =>
      ({ slot with
        terminalResultError := some .inconsistent
        terminalEvidenceAcquired := true
        phase := .contractViolation }, none)
    | .acquired evidence =>
      ({ slot with terminalEvidence := some evidence, terminalEvidenceAcquired := true },
        some evidence)
  else
    match slot.terminalEvidence with
    | some evidence => (slot, some evidence)
    | none => ({ slot with phase := .contractViolation }, none)

/-- What `FinalizePoolSlot` goes on with after its critical section. -/
inductive PoolNext where
  | retain
  /-- An outcome that is durable already. -/
  | deliver (confirmation : CopyOperationDurableTerminalConfirmation)
  | recorded (evidence : CopyOperationTerminalEvidence)
deriving DecidableEq

/-- How an attempt of the pool ends. -/
def finalizeOwned (slot : Slot) (evidence : CopyOperationTerminalEvidence) :
    FinalizeAnswer → Slot × PoolNext
  | .threw => (slot, .retain)
  | .stored => (slot.finalize, .recorded evidence)
  | .refused error =>
    let slot := { slot with lastJournalError := some error }
    if uncertainJournalError error.code then (slot.surrender, .retain)
    else if contractJournalError error.code then
      ({ slot with phase := .contractViolation }, .retain)
    else (slot, .retain)

def reconciledConfirmation (slot : Slot) : CopyOperationDurableTerminalConfirmation :=
  if slot.reconciliationStatus = some .interruptedConfirmed then .reconciledInterrupted
  else .reconciledTerminal

/-- The critical section of `FinalizePoolSlot`. -/
def finalizePoolSlot (slot : Slot) (evidence : EvidenceAnswer) (answer : FinalizeAnswer) :
    Slot × PoolNext :=
  if slot.phase = .reconciled ∨ slot.phase = .releaseInProgress then
    ({ slot with poolReleaseLatched := true }, .deliver slot.reconciledConfirmation)
  else if slot.phase = .finalized then (slot, .deliver .finalized)
  else if slot.phase ≠ .enqueueInProgress ∧ slot.phase ≠ .poolOwned then (slot, .retain)
  else if !slot.receipt || !slot.journal then (slot, .retain)
  else
    match slot.acquireEvidence evidence with
    | (slot, none) => (slot, .retain)
    | (slot, some evidence) => slot.finalizeOwned evidence answer

def releaseDecision (slot : Slot) : PoolTerminalFinalizationDecision :=
  if slot.reconciliationStatus = some .interruptedConfirmed then .releaseWithoutCompletion
  else
    match slot.terminalEvidence with
    | none => .retain
    | some evidence =>
      if evidence.state = .completed then .release else .releaseWithoutCompletion

/-! ## The observer -/

/-- The evidence that a confirmation is about, in a phase in which it may be delivered. -/
def confirmedEvidence (slot : Slot) :
    CopyOperationDurableTerminalConfirmation → Option CopyOperationTerminalEvidence
  | .finalized => if slot.phase ≠ .finalized then none else slot.terminalEvidence
  | .reconciledTerminal =>
    if (slot.phase ≠ .reconciled ∧ slot.phase ≠ .releaseInProgress) ∨
        slot.reconciliationStatus ≠ some .terminalConfirmed then none
    else slot.terminalEvidence
  | .reconciledInterrupted =>
    if (slot.phase ≠ .reconciled ∧ slot.phase ≠ .releaseInProgress) ∨
        slot.reconciliationStatus ≠ some .interruptedConfirmed then none
    else some ⟨.interrupted, []⟩

/-- The item results are moved out of the evidence that they are taken from. -/
def moveItemResults (slot : Slot) (confirmation : CopyOperationDurableTerminalConfirmation) : Slot :=
  if confirmation = .reconciledInterrupted then slot
  else
    { slot with
      terminalEvidence := slot.terminalEvidence.map fun evidence =>
        { evidence with itemResults := [] } }

/-- `DeliverTerminalOutcome`: the outcome that the observer is called with, if it is. The outcome
is built or that throws. -/
def deliverTerminalOutcome (slot : Slot) (confirmation : CopyOperationDurableTerminalConfirmation)
    (built : Bool) : Slot × Option CopyOperationDurableTerminalOutcome :=
  if slot.terminalObserverDelivered || !slot.terminalObserver then (slot, none)
  else
    match slot.confirmedEvidence confirmation with
    | none => (slot, none)
    | some evidence =>
      let delivered := { slot.moveItemResults confirmation with
        terminalOutcomePlanId := [], terminalObserver := false, terminalObserverDelivered := true }
      (delivered, if built then
          some ⟨slot.terminalOutcomePlanId, evidence.state, evidence.itemResults, confirmation⟩
        else none)

/-! ## Recovery -/

/-- What `Retry` answers when it does not try again. -/
def retryRefusal (slot : Slot) : Option CopyOperationRunReceiptCustodyResult :=
  match slot.phase with
  | .retryRequired => none
  | .reconcileRequired => some ⟨.reconcileRequired, slot.lastJournalError⟩
  | .contractViolation => some ⟨.contractViolation, slot.lastJournalError⟩
  | _ => some ⟨.busy, slot.lastJournalError⟩

/-- What a reopened journal says of the operation. -/
def verdict (slot : Slot) (evidence : CopyOperationTerminalEvidence) (reopened : Reopened) :
    CopyOperationRunReceiptReconciliationStatus :=
  if !reopened.sameStorage then .mismatch
  else
    match reopened.entry with
    | none => .mismatch
    | some entry =>
      if entry.plan ≠ slot.plan then .mismatch
      else if entry.state = evidence.state ∧ entry.itemResults = evidence.itemResults then
        .terminalConfirmed
      else if entry.state = .interrupted ∧ entry.itemResults = [] then .interruptedConfirmed
      else .mismatch

/-- What `Reconcile` goes on with after its critical section. -/
inductive ReconcileNext where
  | leave (result : CopyOperationRunReceiptReconciliationResult)
  /-- The operation was never the pool's: it is delivered and released here. -/
  | settle (status : CopyOperationRunReceiptReconciliationStatus)
deriving DecidableEq

/-- `ReconcileRequired`: the verdict is taken down if it settles the operation. -/
def reconcileRequired (slot : Slot) (reopened : Reopened) : Slot × ReconcileNext :=
  match slot.terminalEvidence with
  | none => (slot, .leave { status := .contractViolation })
  | some evidence =>
    let status := slot.verdict evidence reopened
    if !slot.terminalEvidenceAcquired then (slot, .leave { status := .contractViolation })
    else if status.confirmed then
      ({ slot with reconciliationStatus := some status, phase := .reconciled },
        if slot.poolOwned then .leave ⟨status, true⟩ else .settle status)
    else (slot, .leave { status := .mismatch })

/-- The critical section of `Reconcile`. -/
def reconcile (slot : Slot) (reopened : Reopened) : Slot × ReconcileNext :=
  match slot.phase with
  | .reconcileRequired => slot.reconcileRequired reopened
  | .retryRequired => (slot, .leave { status := .retryRequired })
  | .contractViolation => (slot, .leave { status := .contractViolation })
  | .reconciled =>
    match slot.reconciliationStatus with
    | none => (slot, .leave { status := .contractViolation })
    | some status => (slot, .leave ⟨status, slot.poolOwned⟩)
  | _ => (slot, .leave { status := .busy })

/-- The second critical section of `Reconcile`, and whether the slot is to leave the table. -/
def releaseSettled (slot : Slot) : Slot × Bool :=
  if slot.phase ≠ .reconciled then (slot, false) else ({ slot with phase := .released }, true)

/-- The beginning of `ReleaseReconciled`: an answer, or the confirmation that is to be delivered. -/
def beginRelease (slot : Slot) :
    Slot × Except CopyOperationRunReceiptPoolReleaseStatus CopyOperationDurableTerminalConfirmation :=
  if slot.phase = .releaseInProgress then (slot, .error .inProgress)
  else if slot.phase = .contractViolation then (slot, .error .contractViolation)
  else if slot.phase ≠ .reconciled ∨ !slot.poolOwned ∨ slot.reconciliationStatus.isNone then
    (slot, .error .busy)
  else if !slot.operation then (slot, .error .contractViolation)
  else ({ slot with phase := .releaseInProgress }, .ok slot.reconciledConfirmation)

/-- A release that is not confirmed is undone. -/
def revertRelease (slot : Slot) : Slot :=
  if slot.phase = .releaseInProgress then { slot with phase := .reconciled } else slot

end Slot

end WinCommander.Operations.Submission
