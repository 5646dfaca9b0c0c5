/-
  `OperationJournalEncode` and `OperationJournalDecode`.

  Encoder and decoder are separate code, each with its own token tables and checks, and
  are modelled as such, statement by statement. rapidjson is parsed with three different
  sets of flags on the way, so there are three reader parameters (`Readers`).
-/
import WinCommander.Operations.Journal.Entry

namespace WinCommander.Operations.Journal

open Library

/-! ## Errors and limits -/

inductive OperationJournalErrorCode where
  | invalidParentPath | parentOpenFailed | lockOpenFailed | journalAlreadyOpen | journalOpenFailed
  | journalReadFailed | journalTooLarge | malformedJournal | unsupportedSchemaVersion
  | corruptJournal | duplicateOperationId | duplicatePlanId | planCodecFailed | planAlreadyAdmitted
  | planNotFound | invalidTransition | invalidAdmissionReceipt | admissionReceiptAlreadyConsumed
  | invalidRunReceipt | runReceiptAlreadyConsumed | invalidItemResult | resourceLimitExceeded
  | temporaryCreateFailed | writeFailed | fileSyncFailed | closeFailed | renameFailed
  | durabilityUncertain | journalUnusable
deriving DecidableEq

structure OperationJournalError where
  code : OperationJournalErrorCode
  systemError : Int
  planCodecError : Option OperationPlanCodecError
deriving DecidableEq

/-- `OperationJournalFailure` without a system error. -/
def failure (code : OperationJournalErrorCode) : OperationJournalError := ⟨code, 0, none⟩

/-- `OperationJournalFailure` with `errno`. -/
def systemFailure (code : OperationJournalErrorCode) (errno : Int) : OperationJournalError :=
  ⟨code, errno, none⟩

/-- `OperationJournalCodecFailure`. -/
def codecFailure (error : OperationPlanCodecError) : OperationJournalError :=
  ⟨.planCodecFailed, 0, some error⟩

def schemaVersion : Nat := 4
def maxEntries : Nat := 10000
def maxItemResults : Nat := 100000
def maxJournalBytes : Nat := 128 * 1024 * 1024

/-- The three parser configurations: of `OperationPlanCodec::Decode`, of the plan that
    `OperationJournalEncode` embeds, and of `OperationJournalDecode`. -/
structure Readers where
  plan : Json.Reader
  embedded : Json.Reader
  journal : Json.Reader

/-- `OperationJournalOperationIdSequence`. -/
def operationIdSequence (id : OperationId) : UInt64 :=
  match fromChars (id.toString.drop 3) with
  | some (sequence, []) => sequence
  | _ => 0

@[simp] theorem operationIdSequence_eq (id : OperationId) : operationIdSequence id = id.sequence := by
  have h : id.toString.drop 3 = decimal id.sequence.toNat ++ [] := by
    rw [OperationId.toString, List.append_nil]
    exact List.drop_left' rfl
  rw [operationIdSequence, h, fromChars_decimal id.sequence [] (by simp)]

/-! ## Tokens -/

def stateToken : OperationJournalState → Option Bytes
  | .admitted => some (ascii "admitted")
  | .running => some (ascii "running")
  | .interrupted => some (ascii "interrupted")
  | .completed => some (ascii "completed")
  | .failed => some (ascii "failed")
  | .cancelled => some (ascii "cancelled")
  | .outside _ => none

def itemStatusToken : OperationJournalItemStatus → Option Bytes
  | .succeeded => some (ascii "succeeded")
  | .failed => some (ascii "failed")
  | .cancelled => some (ascii "cancelled")
  | .skipped => some (ascii "skipped")
  | .outside _ => none

def itemErrorToken : OperationJournalItemError → Option Bytes
  | .none => some (ascii "none")
  | .sourceChanged => some (ascii "source_changed")
  | .destinationChanged => some (ascii "destination_changed")
  | .permissionDenied => some (ascii "permission_denied")
  | .read => some (ascii "read")
  | .write => some (ascii "write")
  | .metadata => some (ascii "metadata")
  | .commit => some (ascii "commit")
  | .cleanup => some (ascii "cleanup")
  | .cancelled => some (ascii "cancelled")
  | .unknown => some (ascii "unknown")
  | .outside _ => none

def recoveryActionToken : OperationJournalRecoveryAction → Option Bytes
  | .none => some (ascii "none")
  | .retry => some (ascii "retry")
  | .inspectDestination => some (ascii "inspect_destination")
  | .removeTemporaryItem => some (ascii "remove_temporary_item")
  | .restoreSource => some (ascii "restore_source")
  | .inspectSource => some (ascii "inspect_source")
  | .outside _ => none

def filesystemSyncStatusToken : OperationJournalFilesystemSyncStatus → Option Bytes
  | .notAttempted => some (ascii "not_attempted")
  | .confirmed => some (ascii "confirmed")
  | .failed => some (ascii "failed")
  | .outside _ => none

def publicationStateToken : OperationJournalPublicationState → Option Bytes
  | .notPublished => some (ascii "not_published")
  | .published => some (ascii "published")
  | .unknown => some (ascii "unknown")
  | .outside _ => none

def removalStateToken : OperationJournalRemovalState → Option Bytes
  | .notRemoved => some (ascii "not_removed")
  | .removed => some (ascii "removed")
  | .unknown => some (ascii "unknown")
  | .outside _ => none

/-- `OperationJournalParseToken`. -/
def parseJournalToken {α : Type} (tokens : List (Bytes × α)) : Json → Except OperationJournalError α :=
  parseToken (failure .corruptJournal) (failure .corruptJournal) tokens

def parseState : Json → Except OperationJournalError OperationJournalState :=
  parseJournalToken
    [(ascii "admitted", .admitted), (ascii "running", .running), (ascii "interrupted", .interrupted),
     (ascii "completed", .completed), (ascii "failed", .failed), (ascii "cancelled", .cancelled)]

def parseItemStatus : Json → Except OperationJournalError OperationJournalItemStatus :=
  parseJournalToken
    [(ascii "succeeded", .succeeded), (ascii "failed", .failed), (ascii "cancelled", .cancelled),
     (ascii "skipped", .skipped)]

def parseItemError : Json → Except OperationJournalError OperationJournalItemError :=
  parseJournalToken
    [(ascii "none", .none), (ascii "source_changed", .sourceChanged),
     (ascii "destination_changed", .destinationChanged),
     (ascii "permission_denied", .permissionDenied), (ascii "read", .read), (ascii "write", .write),
     (ascii "metadata", .metadata), (ascii "commit", .commit), (ascii "cleanup", .cleanup),
     (ascii "cancelled", .cancelled), (ascii "unknown", .unknown)]

def parseRecoveryAction : Json → Except OperationJournalError OperationJournalRecoveryAction :=
  parseJournalToken
    [(ascii "none", .none), (ascii "retry", .retry),
     (ascii "inspect_destination", .inspectDestination),
     (ascii "remove_temporary_item", .removeTemporaryItem),
     (ascii "restore_source", .restoreSource), (ascii "inspect_source", .inspectSource)]

def parseFilesystemSyncStatus :
    Json → Except OperationJournalError OperationJournalFilesystemSyncStatus :=
  parseJournalToken
    [(ascii "not_attempted", .notAttempted), (ascii "confirmed", .confirmed),
     (ascii "failed", .failed)]

def parsePublicationState : Json → Except OperationJournalError OperationJournalPublicationState :=
  parseJournalToken
    [(ascii "not_published", .notPublished), (ascii "published", .published),
     (ascii "unknown", .unknown)]

def parseRemovalState : Json → Except OperationJournalError OperationJournalRemovalState :=
  parseJournalToken
    [(ascii "not_removed", .notRemoved), (ascii "removed", .removed), (ascii "unknown", .unknown)]

/-- `OperationJournalMembers`. -/
def journalMembers : List Bytes → Json → Except OperationJournalError (List Json) :=
  jsonMembers (failure .corruptJournal) (failure .corruptJournal) (failure .corruptJournal)
    (failure .corruptJournal)

/-- `OperationJournalEpochNanoseconds`. -/
def journalEpochNanoseconds : TimePoint → Except OperationJournalError Int64 :=
  epochNanoseconds (failure .corruptJournal) (failure .resourceLimitExceeded)

/-- `OperationJournalTimePoint`. -/
def journalTimePoint : Int64 → Except OperationJournalError TimePoint :=
  timePoint (failure .corruptJournal) (failure .corruptJournal)

/-! ## Names -/

def rootNames : List Bytes := [ascii "version", ascii "next_operation_sequence", ascii "entries"]

def olderRootNames : List Bytes := [ascii "version", ascii "entries"]

def entryNames : List Bytes :=
  [ascii "operation_id", ascii "plan", ascii "state", ascii "updated_at_epoch_nanoseconds",
   ascii "item_results"]

def firstEntryNames : List Bytes :=
  [ascii "plan", ascii "state", ascii "updated_at_epoch_nanoseconds", ascii "item_results"]

def itemNames : List Bytes :=
  [ascii "item_index", ascii "status", ascii "error", ascii "system_error", ascii "prior_error",
   ascii "prior_system_error", ascii "bytes", ascii "destination_publication",
   ascii "source_removal", ascii "filesystem_sync_status", ascii "filesystem_sync_system_error",
   ascii "recovery_action"]

def olderItemNames : List Bytes :=
  [ascii "item_index", ascii "status", ascii "error", ascii "system_error", ascii "prior_error",
   ascii "prior_system_error", ascii "bytes", ascii "destination_publication",
   ascii "filesystem_sync_status", ascii "filesystem_sync_system_error", ascii "recovery_action"]

/-! ## Encode -/

def encodeItem (plan : OperationPlan) (item : OperationJournalItemResult) :
    Except OperationJournalError Json := do
  let refused := failure .invalidItemResult
  let status ← demand (itemStatusToken item.status) refused
  let error ← demand (itemErrorToken item.error) refused
  let priorError ← demand (itemErrorToken item.priorError) refused
  let destinationPublication ← demand (publicationStateToken item.destinationPublication) refused
  let sourceRemoval ← demand (removalStateToken item.sourceRemoval) refused
  let filesystemSyncStatus ← demand (filesystemSyncStatusToken item.filesystemSyncStatus) refused
  let recovery ← demand (recoveryActionToken item.recoveryAction) refused
  refuse (¬validItemResult plan item) refused
  return .obj (itemNames.zip
    [.int item.itemIndex.toNat, .str status, .str error, .int item.systemError.toInt,
     .str priorError, .int item.priorSystemError.toInt, .int item.bytes.toNat,
     .str destinationPublication, .str sourceRemoval, .str filesystemSyncStatus,
     .int item.filesystemSyncSystemError.toInt, .str recovery])

def encodeEntry (readers : Readers) (entry : OperationJournalEntry) (total : Nat) :
    Except OperationJournalError (Json × Nat) := do
  refuse (entry.itemResults.length > maxItemResults - total) (failure .resourceLimitExceeded)
  refuse (¬validEntryLifecycle entry) (failure .invalidTransition)
  let encodedPlan ← (PlanCodec.encode entry.plan).mapError codecFailure
  let planDocument ← demand (readers.embedded.parse encodedPlan) (failure .corruptJournal)
  refuse (¬PlanCodec.isObject planDocument) (failure .corruptJournal)
  let updatedAt ← journalEpochNanoseconds entry.updatedAt
  let state ← demand (stateToken entry.state) (failure .corruptJournal)
  let items ← Library.traverse (encodeItem entry.plan) entry.itemResults
  return (.obj (entryNames.zip
    [.str entry.operationId.toString, planDocument, .str state, .int updatedAt.toInt, .arr items]),
    total + entry.itemResults.length)

def encodeEntries (readers : Readers) :
    List OperationJournalEntry → Nat → Except OperationJournalError (List Json)
  | [], _ => .ok []
  | entry :: rest, total => do
      let (value, total) ← encodeEntry readers entry total
      let values ← encodeEntries readers rest total
      return value :: values

/-- `OperationJournalEncode`. -/
def encode (readers : Readers) (entries : List OperationJournalEntry) (nextSequence : UInt64) :
    Except OperationJournalError Bytes := do
  refuse (entries.length > maxEntries ∨ nextSequence = 0) (failure .resourceLimitExceeded)
  let values ← encodeEntries readers entries 0
  let buffer := Json.write (.obj (rootNames.zip
    [.int schemaVersion, .int nextSequence.toNat, .arr values]))
  refuse (buffer.length > maxJournalBytes) (failure .resourceLimitExceeded)
  return buffer

/-! ## Decode -/

/-- The values of an item's members; before version 4 there is no `source_removal`. -/
structure ItemValues where
  itemIndex : Json
  status : Json
  error : Json
  systemError : Json
  priorError : Json
  priorSystemError : Json
  bytes : Json
  destinationPublication : Json
  sourceRemoval : OperationJournalRemovalState
  filesystemSyncStatus : Json
  filesystemSyncSystemError : Json
  recoveryAction : Json

def itemValues (version : Nat) (value : Json) : Except OperationJournalError ItemValues := do
  if version = schemaVersion then
    match ← journalMembers itemNames value with
    | [index, status, error, systemError, priorError, priorSystemError, bytes, publication, removal,
       syncStatus, syncSystemError, recovery] => do
        let sourceRemoval ← parseRemovalState removal
        return ⟨index, status, error, systemError, priorError, priorSystemError, bytes, publication,
          sourceRemoval, syncStatus, syncSystemError, recovery⟩
    | _ => .error (failure .corruptJournal)
  else
    match ← journalMembers olderItemNames value with
    | [index, status, error, systemError, priorError, priorSystemError, bytes, publication,
       syncStatus, syncSystemError, recovery] =>
        return ⟨index, status, error, systemError, priorError, priorSystemError, bytes, publication,
          .notRemoved, syncStatus, syncSystemError, recovery⟩
    | _ => .error (failure .corruptJournal)

def decodeItem (version : Nat) (plan : OperationPlan) (previous : Option UInt64) (value : Json) :
    Except OperationJournalError OperationJournalItemResult := do
  let corrupt := failure .corruptJournal
  let values ← itemValues version value
  let itemIndex ← demand (asUint64 values.itemIndex) corrupt
  let systemError ← demand (asInt values.systemError) corrupt
  let priorSystemError ← demand (asInt values.priorSystemError) corrupt
  let bytes ← demand (asUint64 values.bytes) corrupt
  let filesystemSyncSystemError ← demand (asInt values.filesystemSyncSystemError) corrupt
  let status ← parseItemStatus values.status
  let error ← parseItemError values.error
  let priorError ← parseItemError values.priorError
  let destinationPublication ← parsePublicationState values.destinationPublication
  let filesystemSyncStatus ← parseFilesystemSyncStatus values.filesystemSyncStatus
  let recoveryAction ← parseRecoveryAction values.recoveryAction
  let result : OperationJournalItemResult :=
    ⟨itemIndex, status, error, systemError, priorError, priorSystemError, bytes,
     destinationPublication, values.sourceRemoval, filesystemSyncStatus, filesystemSyncSystemError,
     recoveryAction⟩
  refuse (¬validItemResult plan result ∨ previous.any (· ≥ result.itemIndex)) corrupt
  return result

def decodeItems (version : Nat) (plan : OperationPlan) :
    Option UInt64 → List Json → Except OperationJournalError (List OperationJournalItemResult)
  | _, [] => .ok []
  | previous, value :: rest => do
      let result ← decodeItem version plan previous value
      let results ← decodeItems version plan (some result.itemIndex) rest
      return result :: results

/-- The members of an entry and its operation id. Version 1 has no ids: an entry gets the
    one of its position. -/
def entryValues (version count : Nat) (value : Json) :
    Except OperationJournalError (OperationId × Json × Json × Json × Json) := do
  if version = 1 then
    match ← journalMembers firstEntryNames value with
    | [plan, state, updatedAt, items] => do
        let operationId ← demand (OperationId.parse (ascii "op-" ++ decimal (count + 1)))
          (failure .corruptJournal)
        return (operationId, plan, state, updatedAt, items)
    | _ => .error (failure .corruptJournal)
  else
    match ← journalMembers entryNames value with
    | [.str id, plan, state, updatedAt, items] => do
        let operationId ← demand (OperationId.parse id) (failure .corruptJournal)
        return (operationId, plan, state, updatedAt, items)
    | _ => .error (failure .corruptJournal)

def arrayElements : Json → Except OperationJournalError (List Json)
  | .arr values => .ok values
  | _ => .error (failure .corruptJournal)

/-- One pass of the loop over the entries; `entries` are the ones already decoded. -/
def decodeEntry (readers : Readers) (version : Nat) (entries : List OperationJournalEntry)
    (total : Nat) (value : Json) : Except OperationJournalError (OperationJournalEntry × Nat) := do
  let (operationId, planValue, stateValue, updatedAtValue, itemsValue) ←
    entryValues version entries.length value
  let plan ← (PlanCodec.decode readers.plan (Json.write planValue)).mapError codecFailure
  refuse (∃ existing ∈ entries, existing.plan.id = plan.id) (failure .duplicatePlanId)
  refuse (∃ existing ∈ entries, existing.operationId = operationId) (failure .duplicateOperationId)
  let state ← parseState stateValue
  let nanoseconds ← demand (asInt64 updatedAtValue) (failure .corruptJournal)
  let items ← arrayElements itemsValue
  let updatedAt ← journalTimePoint nanoseconds
  refuse (items.length > maxItemResults - total) (failure .resourceLimitExceeded)
  let itemResults ← decodeItems version plan none items
  let entry : OperationJournalEntry := ⟨operationId, plan, state, updatedAt, itemResults⟩
  refuse (¬validEntryLifecycle entry) (failure .corruptJournal)
  return (entry, total + items.length)

/-- The loop over the entries, appending to `entries`. -/
def decodeEntries (readers : Readers) (version : Nat) :
    List OperationJournalEntry → Nat → List Json →
      Except OperationJournalError (List OperationJournalEntry)
  | entries, _, [] => .ok entries
  | entries, total, value :: rest => do
      let (entry, total) ← decodeEntry readers version entries total value
      decodeEntries readers version (entries ++ [entry]) total rest

/-- `OperationJournalDecoded`. -/
structure OperationJournalDecoded where
  entries : List OperationJournalEntry
  nextOperationSequence : UInt64
  requiresMigration : Bool
deriving DecidableEq

/-- `std::max`. -/
def stdMax (a b : UInt64) : UInt64 := if a < b then b else a

def maximumSequence (entries : List OperationJournalEntry) : UInt64 :=
  entries.foldl (fun maximum entry => stdMax maximum (operationIdSequence entry.operationId)) 0

/-- The sequence and the entries array of the root, by version. -/
def rootValues (version : Nat) (document : Json) : Except OperationJournalError (UInt64 × Json) := do
  if version = schemaVersion then
    match ← journalMembers rootNames document with
    | [_, highWater, entries] => do
        let nextSequence ← demand (asUint64 highWater) (failure .corruptJournal)
        refuse (nextSequence = 0) (failure .corruptJournal)
        return (nextSequence, entries)
    | _ => .error (failure .corruptJournal)
  else
    match ← journalMembers olderRootNames document with
    | [_, entries] => return (1, entries)
    | _ => .error (failure .corruptJournal)

/-- `Decode` after the text has been parsed into the object `members`. -/
def decodeMembers (readers : Readers) (members : List (Bytes × Json)) :
    Except OperationJournalError OperationJournalDecoded := do
  let version ← demand ((members.lookup (ascii "version")).bind asUint) (failure .corruptJournal)
  refuse (version ≠ 1 ∧ version ≠ 2 ∧ version ≠ 3 ∧ version ≠ schemaVersion)
    (failure .unsupportedSchemaVersion)
  let (nextSequence, entriesValue) ← rootValues version (.obj members)
  let values ← arrayElements entriesValue
  refuse (values.length > maxEntries) (failure .resourceLimitExceeded)
  let entries ← decodeEntries readers version [] 0 values
  let maximum := maximumSequence entries
  refuse (maximum = UInt64.ofNat (2 ^ 64 - 1)) (failure .resourceLimitExceeded)
  if version = schemaVersion then
    refuse (nextSequence < maximum + 1) (failure .corruptJournal)
    return ⟨entries, nextSequence, false⟩
  else
    return ⟨entries, maximum + 1, true⟩

/-- `OperationJournalDecode`. -/
def decode (readers : Readers) (json : Bytes) :
    Except OperationJournalError OperationJournalDecoded := do
  refuse (json.length > maxJournalBytes) (failure .journalTooLarge)
  match readers.journal.parse json with
  | some (.obj members) => decodeMembers readers members
  | _ => .error (failure .malformedJournal)

end WinCommander.Operations.Journal
