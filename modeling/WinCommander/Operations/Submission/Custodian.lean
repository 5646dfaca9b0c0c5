/-
  `CopyOperationRunReceiptCustodian` and the pool around one operation, as threads.

  A frame stands before the next critical section of its call, and an advance is one critical
  section, so that no mutex is held between two advances. The pool is the part of `Pool` that
  calls the finalizer: `TryEnqueue`, `OperationDidFinish` and `RetryFinalization`. Another slot
  of the same plan, after this one has left the table, is another operation.
-/
import WinCommander.Library.Threads
import WinCommander.Operations.Submission.Slot

namespace WinCommander.Operations.Submission

open Library
open Journal (OperationJournalState OperationJournalItemResult)

/-! ## State -/

/-- Where the pool has the operation. -/
inductive PoolEntry where
  | absent
  /-- Pending or running. -/
  | active
  | finalizing (inProgress : Bool)
  | gone
deriving DecidableEq

/-- The slot as it is reserved and later, the table and the pool. -/
structure Custody where
  slot : Slot
  reserved : Bool := false
  inTable : Bool := false
  pool : PoolEntry := .absent
  /-- Nobody has the pool any more. -/
  poolExpired : Bool := false
deriving DecidableEq

def Custody.start (plan : OperationPlan) (terminalObserver : Bool) : Custody :=
  { slot := Slot.new plan terminalObserver }

/-- The slot was in the table and is not any more. -/
def Custody.left (c : Custody) : Bool := c.reserved && !c.inTable

/-- What code outside of the custodian says when it is asked. -/
structure Answers where
  /-- There is room for a slot. -/
  room : Bool := true
  receiptFits : Bool := true
  /-- The submission ends before the pool, with what it records. -/
  givesUp : Option (OperationJournalItemResult × OperationJournalState) := none
  /-- The answer of `TryEnqueue`; nothing when it throws. -/
  enqueued : Option PoolEnqueueResult := some .accepted
  evidence : Slot.EvidenceAnswer := .threw
  finalize : FinalizeAnswer := .threw
  /-- The outcome for the observer could be built. -/
  built : Bool := true
  reopened : Reopened := ⟨false, none⟩
  poolExpired : Bool := false
  /-- An observer of the pool throws after the operation was let go. -/
  releaseThrows : Bool := false
deriving DecidableEq

inductive Report where
  /-- `Finalize` has succeeded with this. -/
  | recorded (evidence : CopyOperationTerminalEvidence)
  | established (status : CopyOperationRunReceiptReconciliationStatus)
      (evidence : Option CopyOperationTerminalEvidence)
  /-- The observer is called. -/
  | delivered (outcome : CopyOperationDurableTerminalOutcome)
  /-- `FinalizePoolSlot` returns; whether the slot had left the table when it was called. -/
  | answered (late : Bool) (decision : PoolTerminalFinalizationDecision)
  | custody (result : CopyOperationRunReceiptCustodyResult)
  | reconciliation (result : CopyOperationRunReceiptReconciliationResult)
  | poolRelease (status : CopyOperationRunReceiptPoolReleaseStatus)
deriving DecidableEq

/-! ## Frames -/

/-- `RetryFinalization`, with the finalizer that it calls. -/
inductive PoolPc where
  | enter
  | finalize
  | deliver (late own : Bool) (confirmation : CopyOperationDurableTerminalConfirmation)
  | decide (late own : Bool)
  | erase (late : Bool) (decision : PoolTerminalFinalizationDecision)
  | leave (decision : PoolTerminalFinalizationDecision)
deriving DecidableEq

/-- The calls of the submitting thread, one after the other. -/
inductive SubmitPc where
  | reserve
  | arm
  | release
  | prepare
  | before (result : OperationJournalItemResult) (terminalState : OperationJournalState)
  | enqueue
  | commit
  | reject (enqueued : Option PoolEnqueueResult)
deriving DecidableEq

/-- The ends that the calls share. -/
inductive SettlePc where
  | finalize
  | deliver
  | erase (returns : Option Report)
deriving DecidableEq

inductive ReconcilePc where
  | find
  | check
  | deliver (status : CopyOperationRunReceiptReconciliationStatus)
  | release (status : CopyOperationRunReceiptReconciliationStatus)
  | leave (result : CopyOperationRunReceiptReconciliationResult)
deriving DecidableEq

inductive ReleasePc where
  | find
  | check
  | deliver (confirmation : CopyOperationDurableTerminalConfirmation)
  | pool (pc : PoolPc)
  | latch (released : Option PoolRetryFinalizationResult)
  | revert (released : Option PoolRetryFinalizationResult)
  | confirm
deriving DecidableEq

inductive FinishPc where
  | didFinish
  | retry (pc : PoolPc)
deriving DecidableEq

inductive RetryPc where
  | find
  | check
deriving DecidableEq

inductive Frame where
  | submit (pc : SubmitPc)
  | settle (pc : SettlePc)
  | finish (pc : FinishPc)
  | retry (pc : RetryPc)
  | reconcile (pc : ReconcilePc)
  | release (pc : ReleasePc)
deriving DecidableEq

inductive CustodianCall where
  | submit
  | operationDidFinish
  | retryFinalization
  | retry
  | reconcile
  | releaseReconciled
deriving DecidableEq

def CustodianCall.entry : CustodianCall → Frame
  | .submit => .submit .reserve
  | .operationDidFinish => .finish .didFinish
  | .retryFinalization => .finish (.retry .enter)
  | .retry => .retry .find
  | .reconcile => .reconcile .find
  | .releaseReconciled => .release .find

/-! ## Steps -/

variable (c : Custody) (a : Answers)

/-- `DeliverTerminalOutcome`. -/
def deliver (confirmation : CopyOperationDurableTerminalConfirmation) : Custody × Option Report :=
  let (slot, outcome) := c.slot.deliverTerminalOutcome confirmation a.built
  ({ c with slot }, outcome.map .delivered)

/-- What a frame of the pool goes on with: its next place, or what `RetryFinalization` returns
(nothing when it throws). -/
abbrev PoolStep := Custody × (PoolPc ⊕ Option PoolRetryFinalizationResult) × Option Report

/-- The finalizer is called once at a time, and not after the pool has let go. -/
def enterStep : PoolStep :=
  match c.pool with
  | .finalizing true => (c, .inr (some .inProgress), none)
  | .finalizing false =>
    if c.poolExpired then (c, .inr (some .notFinalizing), none)
    else ({ c with pool := .finalizing true }, .inl .finalize, none)
  | _ => (c, .inr (some .notFinalizing), none)

def finalizeStep : PoolStep :=
  let (slot, next) := c.slot.finalizePoolSlot a.evidence a.finalize
  match next with
  | .retain => ({ c with slot }, .inl (.leave .retain), some (.answered c.left .retain))
  | .deliver confirmation => ({ c with slot }, .inl (.deliver c.left false confirmation), none)
  | .recorded evidence =>
    ({ c with slot }, .inl (.deliver c.left true .finalized), some (.recorded evidence))

def leaveStep (decision : PoolTerminalFinalizationDecision) : PoolStep :=
  if decision = .retain then ({ c with pool := .finalizing false }, .inr (some .retained), none)
  else ({ c with pool := .gone }, .inr (if a.releaseThrows then none else some .released), none)

def poolStep : PoolPc → PoolStep
  | .enter => enterStep c
  | .finalize => finalizeStep c a
  | .deliver late own confirmation =>
    let (c', report) := deliver c a confirmation
    (c', .inl (.decide late own), report)
  | .decide late own =>
    let decision := c.slot.releaseDecision
    if own then (c, .inl (.erase late decision), none)
    else (c, .inl (.leave decision), some (.answered late decision))
  | .erase late decision =>
    ({ c with inTable := false }, .inl (.leave decision), some (.answered late decision))
  | .leave decision => leaveStep c a decision

/-- What an advance gives: the state, the frame after it and a report. -/
abbrev FrameStep := Custody × Option Frame × Option Report

/-- Goes on with the ends that are shared when the evidence was acquired. -/
def settleAfter (acquired : Slot × Bool) : FrameStep :=
  ({ c with slot := acquired.1 },
    if acquired.2 then some (.settle .finalize) else none,
    if acquired.2 then none else some (.custody { status := .contractViolation }))

def enqueueStep : FrameStep :=
  match a.enqueued with
  | some .accepted =>
    if c.pool = .absent then ({ c with pool := .active }, some (.submit .commit), none)
    else (c, some (.submit (.reject (some .duplicate))), none)
  | answer => (c, some (.submit (.reject answer)), none)

def submitStep : SubmitPc → FrameStep
  | .reserve =>
    if c.reserved || !a.room then (c, none, none)
    else ({ c with reserved := true, inTable := true }, some (.submit .arm), none)
  | .arm =>
    let (slot, armed) := c.slot.arm a.receiptFits
    ({ c with slot }, some (.submit (if armed then .prepare else .release)), none)
  | .release =>
    if c.slot.phase ≠ .reserved then (c, none, none)
    else ({ c with slot := { c.slot with phase := .released } }, some (.settle (.erase none)), none)
  | .prepare =>
    match a.givesUp with
    | some (result, terminalState) => (c, some (.submit (.before result terminalState)), none)
    | none =>
      let (slot, begun) := c.slot.beginEnqueue
      ({ c with slot },
        some (.submit (if begun then .enqueue
          else .before (enqueueFailureItemResult .notCold) .failed)), none)
  | .before result terminalState => settleAfter c (c.slot.finalizeBeforeEnqueue result terminalState)
  | .enqueue => enqueueStep c a
  | .commit =>
    let (slot, leaves) := c.slot.commitEnqueue
    ({ c with slot }, if leaves then some (.settle (.erase none)) else none, none)
  | .reject enqueued =>
    let (result, terminalState) := rejection enqueued
    settleAfter c (c.slot.rejectEnqueue result terminalState)

/-- `FinalizeCustodiedSlot` and what its callers do after it. -/
def settleStep : SettlePc → FrameStep
  | .finalize =>
    let (slot, result) := c.slot.finalizeCustodiedSlot a.finalize
    if result.status = .finalized then
      ({ c with slot }, some (.settle .deliver), c.slot.terminalEvidence.map .recorded)
    else ({ c with slot }, none, some (.custody result))
  | .deliver =>
    let (c', report) := deliver c a .finalized
    (c', some (.settle (.erase (some (.custody { status := .finalized })))), report)
  | .erase returns => ({ c with inTable := false }, none, returns)

def finishStep : FinishPc → FrameStep
  | .didFinish =>
    if c.pool = .active ∧ !c.poolExpired then
      ({ c with pool := .finalizing false }, some (.finish (.retry .enter)), none)
    else (c, none, none)
  | .retry pc =>
    let (c', next, report) := poolStep c a pc
    (c', next.elim (fun pc' => some (.finish (.retry pc'))) fun _ => none, report)

def retryStep : RetryPc → FrameStep
  | .find =>
    if c.inTable then (c, some (.retry .check), none)
    else (c, none, some (.custody { status := .notFound }))
  | .check =>
    match c.slot.retryRefusal with
    | none => (c, some (.settle .finalize), none)
    | some result => (c, none, some (.custody result))

def reconcileStep : ReconcilePc → FrameStep
  | .find =>
    if c.inTable then (c, some (.reconcile .check), none)
    else (c, none, some (.reconciliation { status := .notFound }))
  | .check =>
    let (slot, next) := c.slot.reconcile a.reopened
    let report := if slot.phase = .reconciled ∧ c.slot.phase ≠ .reconciled then
        slot.reconciliationStatus.map (.established · slot.terminalEvidence)
      else none
    match next with
    | .leave result => ({ c with slot }, some (.reconcile (.leave result)), report)
    | .settle status => ({ c with slot }, some (.reconcile (.deliver status)), report)
  | .deliver status =>
    let (c', report) := deliver c a
      (if status = .interruptedConfirmed then .reconciledInterrupted else .reconciledTerminal)
    (c', some (.reconcile (.release status)), report)
  | .release status =>
    let (slot, leaves) := c.slot.releaseSettled
    ({ c with slot },
      if leaves then some (.settle (.erase (some (.reconciliation { status }))))
      else some (.reconcile (.leave { status := .contractViolation })), none)
  | .leave result => (c, none, some (.reconciliation result))

def releaseStep : ReleasePc → FrameStep
  | .find =>
    if c.inTable then (c, some (.release .check), none)
    else (c, none, some (.poolRelease .notFound))
  | .check =>
    match c.slot.beginRelease with
    | (slot, .error status) => ({ c with slot }, none, some (.poolRelease status))
    | (slot, .ok confirmation) =>
      -- The pool cannot expire while it calls the finalizer.
      if a.poolExpired ∧ c.pool ≠ .finalizing true then
        ({ c with slot, poolExpired := true }, some (.release (.deliver confirmation)), none)
      else if c.poolExpired then
        ({ c with slot }, some (.release (.deliver confirmation)), none)
      else ({ c with slot }, some (.release (.pool .enter)), none)
  | .deliver confirmation =>
    let (c', report) := deliver c a confirmation
    (c', some (.release .confirm), report)
  | .pool pc =>
    let (c', next, report) := poolStep c a pc
    (c', some (.release (next.elim .pool .latch)), report)
  | .latch released =>
    (c, some (.release (if releaseConfirmed released c.slot.poolReleaseLatched then .confirm
      else .revert released)), none)
  | .revert released =>
    ({ c with slot := c.slot.revertRelease }, none, some (.poolRelease (unconfirmedRelease released)))
  | .confirm =>
    ({ c with slot := { c.slot with phase := .released } },
      some (.settle (.erase (some (.poolRelease .released)))), none)

def Frame.advance : Frame → FrameStep
  | .submit pc => submitStep c a pc
  | .settle pc => settleStep c a pc
  | .finish pc => finishStep c a pc
  | .retry pc => retryStep c pc
  | .reconcile pc => reconcileStep c a pc
  | .release pc => releaseStep c a pc

/-- The calls on one operation; none of them has a mutex between two advances. -/
def custodian : ThreadProgram Custody Frame Empty CustodianCall Answers Report where
  entry := CustodianCall.entry
  advance := fun c f a => f.advance c a
  awaits _ := false
  wants _ := none
  holds _ _ := false
  recursive _ := false
  entry_holds _ _ := rfl
  advance_holds _ _ _ _ _ _ hheld := absurd hheld Bool.false_ne_true

end WinCommander.Operations.Submission
