/-
  `OperationPlanCodec`: the versioned JSON form of an `OperationPlan`.

  `encode` and `decode` follow the source statement by statement; the JSON reader is a
  parameter. `planJson` is the document `encode` writes when it succeeds, and `Fits` the
  resource limits under which it does (`encode_ok`): the limit on the JSON text never
  bites, because `Fits` already bounds the text.
-/
import WinCommander.Operations.JsonFields
import WinCommander.Operations.PlanCodec.Base64

namespace WinCommander.Operations

open Library

inductive OperationPlanCodecErrorCode where
  | malformedJSON | rootNotObject | unexpectedMember | missingMember | duplicateMember
  | invalidMemberType | unsupportedSchemaVersion | invalidEnumToken | invalidBase64
  | resourceLimitExceeded | timestampOutOfRange | timestampNotRepresentable | planValidationFailed
deriving DecidableEq

structure OperationPlanCodecError where
  code : OperationPlanCodecErrorCode
  planValidationError : Option OperationPlanValidationError
deriving DecidableEq

namespace PlanCodec

/-! ## Limits and errors -/

def schemaVersion : Nat := 1
def maxSources : Nat := 100000
def maxOpaqueFieldBytes : Nat := 1 * 1024 * 1024
def maxDecodedOpaqueBytes : Nat := 64 * 1024 * 1024
def maxJSONBytes : Nat := 96 * 1024 * 1024

/-- `OperationPlanCodecFailure`. -/
def failure (code : OperationPlanCodecErrorCode) : OperationPlanCodecError := ⟨code, none⟩

/-- `OperationPlanCodecValidationFailure`. -/
def validationFailure (error : OperationPlanValidationError) : OperationPlanCodecError :=
  ⟨.planValidationFailed, some error⟩

/-! ## Fields -/

/-- `OperationPlanCodecEncodeBase64`. -/
def encodeBase64 (bytes : Bytes) : Except OperationPlanCodecError Bytes := do
  refuse (bytes.length > maxOpaqueFieldBytes) (failure .resourceLimitExceeded)
  refuse (bytes.length > (2 ^ 64 - 1 - 2) / 4 * 3) (failure .resourceLimitExceeded)
  return encodeGroups bytes

/-- `OperationPlanCodecDecodeBase64`: the bytes, and the new `_total_decoded_bytes`. -/
def decodeBase64 (value : Json) (total : Nat) : Except OperationPlanCodecError (Bytes × Nat) :=
  match value with
  | .str encoded => do
      refuse (encoded.length % 4 ≠ 0) (failure .invalidBase64)
      refuse (decodedSize encoded > maxOpaqueFieldBytes ∨
        decodedSize encoded > maxDecodedOpaqueBytes - total) (failure .resourceLimitExceeded)
      let decoded ← demand (decodeGroups encoded) (failure .invalidBase64)
      return (decoded, total + decoded.length)
  | _ => .error (failure .invalidMemberType)

def typeToken : OperationPlanType → Option Bytes
  | .copy => some (ascii "copy")
  | .move => some (ascii "move")
  | .rename => some (ascii "rename")
  | .trash => some (ascii "trash")
  | .permanentDelete => some (ascii "permanent_delete")
  | .outside _ => none

def destinationKindToken : OperationPlanDestinationKind → Option Bytes
  | .directory => some (ascii "directory")
  | .exactItem => some (ascii "exact_item")
  | .outside _ => none

def decisionToken : OperationPlanConflictDecision → Option Bytes
  | .ask => some (ascii "ask")
  | .replace => some (ascii "replace")
  | .skip => some (ascii "skip")
  | .keepBoth => some (ascii "keep_both")
  | .renameNew => some (ascii "rename_new")
  | .renameExisting => some (ascii "rename_existing")
  | .mergeFolders => some (ascii "merge_folders")
  | .outside _ => none

def scopeToken : OperationPlanConflictScope → Option Bytes
  | .thisItem => some (ascii "this_item")
  | .allItems => some (ascii "all_items")
  | .sameExtension => some (ascii "same_extension")
  | .sameFolder => some (ascii "same_folder")
  | .outside _ => none

/-- `OperationPlanCodecParseEnum`. -/
def parseEnum {α : Type} (tokens : List (Bytes × α)) : Json → Except OperationPlanCodecError α :=
  parseToken (failure .invalidMemberType) (failure .invalidEnumToken) tokens

def parseType : Json → Except OperationPlanCodecError OperationPlanType :=
  parseEnum
    [(ascii "copy", .copy), (ascii "move", .move), (ascii "rename", .rename),
     (ascii "trash", .trash), (ascii "permanent_delete", .permanentDelete)]

def parseDestinationKind : Json → Except OperationPlanCodecError OperationPlanDestinationKind :=
  parseEnum [(ascii "directory", .directory), (ascii "exact_item", .exactItem)]

def parseDecision : Json → Except OperationPlanCodecError OperationPlanConflictDecision :=
  parseEnum
    [(ascii "ask", .ask), (ascii "replace", .replace), (ascii "skip", .skip),
     (ascii "keep_both", .keepBoth), (ascii "rename_new", .renameNew),
     (ascii "rename_existing", .renameExisting), (ascii "merge_folders", .mergeFolders)]

def parseScope : Json → Except OperationPlanCodecError OperationPlanConflictScope :=
  parseEnum
    [(ascii "this_item", .thisItem), (ascii "all_items", .allItems),
     (ascii "same_extension", .sameExtension), (ascii "same_folder", .sameFolder)]

/-- `OperationPlanCodecMembers`. -/
def planMembers : List Bytes → Json → Except OperationPlanCodecError (List Json) :=
  jsonMembers (failure .invalidMemberType) (failure .unexpectedMember)
    (failure .duplicateMember) (failure .missingMember)

/-- `OperationPlanCodecEpochNanoseconds`. -/
def planEpochNanoseconds : TimePoint → Except OperationPlanCodecError Int64 :=
  epochNanoseconds (failure .timestampNotRepresentable) (failure .timestampOutOfRange)

/-- `OperationPlanCodecTimePoint`. -/
def planTimePoint : Int64 → Except OperationPlanCodecError TimePoint :=
  timePoint (failure .timestampNotRepresentable) (failure .timestampOutOfRange)

/-- `OperationPlanCodecAddOpaqueBytes`: the new total, or nothing past a limit. -/
def addOpaqueBytes (bytes total : Nat) : Option Nat :=
  if bytes > maxOpaqueFieldBytes ∨ bytes > maxDecodedOpaqueBytes - total then none
  else some (total + bytes)

def addSourcesBytes : List OperationPlanSource → Nat → Option Nat
  | [], total => some total
  | source :: rest, total => do
      let total ← addOpaqueBytes source.providerId.length total
      let total ← addOpaqueBytes source.absolutePath.length total
      addSourcesBytes rest total

def addDestinationBytes : Option OperationPlanDestination → Nat → Option Nat
  | none, total => some total
  | some destination, total => do
      let total ← addOpaqueBytes destination.providerId.length total
      addOpaqueBytes destination.absolutePath.length total

/-! ## Names -/

def rootNames : List Bytes :=
  [ascii "version", ascii "plan_id_base64", ascii "type", ascii "sources", ascii "destination",
   ascii "conflict_policy", ascii "created_at_epoch_nanoseconds"]

def sourceNames : List Bytes := [ascii "provider_id_base64", ascii "absolute_path_base64"]

def destinationNames : List Bytes :=
  [ascii "provider_id_base64", ascii "absolute_path_base64", ascii "kind"]

def policyNames : List Bytes := [ascii "decision", ascii "scope"]

/-! ## Encode -/

def encodeSource (source : OperationPlanSource) : Except OperationPlanCodecError Json := do
  let provider ← encodeBase64 source.providerId
  let path ← encodeBase64 source.absolutePath
  return .obj (sourceNames.zip [.str provider, .str path])

def encodeDestination : Option OperationPlanDestination → Except OperationPlanCodecError Json
  | none => return .null
  | some destination => do
      let provider ← encodeBase64 destination.providerId
      let path ← encodeBase64 destination.absolutePath
      let kind ← demand (destinationKindToken destination.kind) (failure .invalidEnumToken)
      return .obj (destinationNames.zip [.str provider, .str path, .str kind])

def encodePolicy : Option OperationPlanConflictPolicy → Except OperationPlanCodecError Json
  | none => return .null
  | some policy => do
      let decision ← demand (decisionToken policy.decision) (failure .invalidEnumToken)
      let scope ← demand (scopeToken policy.scope) (failure .invalidEnumToken)
      return .obj (policyNames.zip [.str decision, .str scope])

/-- `OperationPlanCodec::Encode`. -/
def encode (plan : OperationPlan) : Except OperationPlanCodecError Bytes := do
  refuse (plan.sources.length > maxSources) (failure .resourceLimitExceeded)
  let total ← demand (addOpaqueBytes plan.id.length 0) (failure .resourceLimitExceeded)
  let total ← demand (addSourcesBytes plan.sources total) (failure .resourceLimitExceeded)
  let _ ← demand (addDestinationBytes plan.destination total) (failure .resourceLimitExceeded)
  let planId ← encodeBase64 plan.id
  let type ← demand (typeToken plan.type) (failure .invalidEnumToken)
  let timestamp ← planEpochNanoseconds plan.createdAt
  let sources ← Library.traverse encodeSource plan.sources
  let destination ← encodeDestination plan.destination
  let conflictPolicy ← encodePolicy plan.conflictPolicy
  let buffer := Json.write (.obj (rootNames.zip
    [.int schemaVersion, .str planId, .str type, .arr sources, destination, conflictPolicy,
     .int timestamp.toInt]))
  refuse (buffer.length > maxJSONBytes) (failure .resourceLimitExceeded)
  return buffer

/-! ## Decode -/

/-- The loop over the sources, threading `total_decoded_bytes`. -/
def decodeSources : List Json → Nat →
    Except OperationPlanCodecError (List OperationPlanSource × Nat)
  | [], total => .ok ([], total)
  | value :: rest, total => do
      match ← planMembers sourceNames value with
      | [providerValue, pathValue] => do
          let (provider, total) ← decodeBase64 providerValue total
          let (path, total) ← decodeBase64 pathValue total
          let (sources, total) ← decodeSources rest total
          return (⟨provider, path⟩ :: sources, total)
      | _ => .error (failure .missingMember)

def decodeDestination (value : Json) (total : Nat) :
    Except OperationPlanCodecError (Option OperationPlanDestination × Nat) :=
  match value with
  | .null => .ok (none, total)
  | value => do
      match ← planMembers destinationNames value with
      | [providerValue, pathValue, kindValue] => do
          let (provider, total) ← decodeBase64 providerValue total
          let (path, total) ← decodeBase64 pathValue total
          let kind ← parseDestinationKind kindValue
          return (some ⟨provider, path, kind⟩, total)
      | _ => .error (failure .missingMember)

def decodePolicy (value : Json) :
    Except OperationPlanCodecError (Option OperationPlanConflictPolicy) :=
  match value with
  | .null => .ok none
  | value => do
      match ← planMembers policyNames value with
      | [decisionValue, scopeValue] => do
          let decision ← parseDecision decisionValue
          let scope ← parseScope scopeValue
          return some ⟨decision, scope⟩
      | _ => .error (failure .missingMember)

/-- The elements of an array member, within `MaxSources`. -/
def sourceElements : Json → Except OperationPlanCodecError (List Json)
  | .arr values => do
      refuse (values.length > maxSources) (failure .resourceLimitExceeded)
      return values
  | _ => .error (failure .invalidMemberType)

/-- `Decode` after the text has been parsed into `document`. -/
def decodeDocument (document : Json) : Except OperationPlanCodecError OperationPlan := do
  match ← planMembers rootNames document with
  | [versionValue, idValue, typeValue, sourcesValue, destinationValue, policyValue, timeValue] => do
      let version ← demand (asUint versionValue) (failure .invalidMemberType)
      refuse (version ≠ schemaVersion) (failure .unsupportedSchemaVersion)
      let (planId, total) ← decodeBase64 idValue 0
      let type ← parseType typeValue
      let values ← sourceElements sourcesValue
      let (sources, total) ← decodeSources values total
      let (destination, _) ← decodeDestination destinationValue total
      let conflictPolicy ← decodePolicy policyValue
      let nanoseconds ← demand (asInt64 timeValue)
        (failure (if isNumber timeValue then .timestampOutOfRange else .invalidMemberType))
      let createdAt ← planTimePoint nanoseconds
      match OperationPlan.create
          ⟨planId, type, sources, destination, conflictPolicy, some createdAt⟩ with
      | .ok plan => .ok plan
      | .error error => .error (validationFailure error)
  | _ => .error (failure .missingMember)

def isObject : Json → Bool
  | .obj _ => true
  | _ => false

/-- `OperationPlanCodec::Decode`. -/
def decode (reader : Json.Reader) (json : Bytes) : Except OperationPlanCodecError OperationPlan := do
  refuse (json.length > maxJSONBytes) (failure .resourceLimitExceeded)
  let document ← demand (reader.parse json) (failure .malformedJSON)
  refuse (¬isObject document) (failure .rootNotObject)
  decodeDocument document

end PlanCodec

end WinCommander.Operations
