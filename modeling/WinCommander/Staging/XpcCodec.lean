/-
  The XPC codec of the cross-volume staging protocol.

  A dictionary is a finite typed map; each level of nesting is a type of its own, and what is
  nested deeper than the grammar goes counts as a value of another type. A descriptor in a
  dictionary is the right to an open file; `right` tells which file a descriptor number of the
  process stands for, and what duplicating the two rights of a `Begin` gives is an argument.
  Creating a dictionary does not fail.
-/
import WinCommander.Library.TypedMap
import WinCommander.Staging.Protocol

namespace WinCommander.Staging

open Library

inductive XpcValue (δ : Type) where
  | uint64 (value : UInt64)
  | int64 (value : Int64)
  | data (bytes : Bytes)
  | fd (right : Nat)
  | dictionary (members : δ)
  | other (value : Nat)
deriving DecidableEq

abbrev TimestampObject := TypedMap (XpcValue Empty)
abbrev SealObject := TypedMap (XpcValue TimestampObject)
abbrev Message := TypedMap (XpcValue SealObject)

inductive CodecError where
  | invalidArgument | notDictionary | unknownMember | wrongType | outOfRange
  | invalidProtocolValue | invalidDescriptor | descriptorDuplicationFailed
deriving DecidableEq

inductive MessageKind where
  | begin | commit | abort | beginResult | completionResult
deriving DecidableEq

def MessageKind.number : MessageKind → UInt64
  | .begin => 1
  | .commit => 2
  | .abort => 3
  | .beginResult => 4
  | .completionResult => 5

/-! ## Fields -/

def XpcValue.uint64? {δ : Type} : XpcValue δ → Option UInt64
  | .uint64 value => some value
  | _ => none

def XpcValue.int64? {δ : Type} : XpcValue δ → Option Int64
  | .int64 value => some value
  | _ => none

def XpcValue.data? {δ : Type} : XpcValue δ → Option Bytes
  | .data bytes => some bytes
  | _ => none

def XpcValue.dictionary? {δ : Type} : XpcValue δ → Option δ
  | .dictionary members => some members
  | _ => none

def XpcValue.fd? {δ : Type} : XpcValue δ → Option Nat
  | .fd right => some right
  | _ => none

def kBeginFields : List String :=
  ["kind", "version", "correlation", "source-seal", "destination-parent-seal", "destination-name",
    "source-fd", "destination-parent-fd"]

def kLeaseRequestFields : List String := ["kind", "version", "correlation", "lease-token"]

def kBeginResultFields : List String :=
  ["kind", "version", "correlation", "disposition", "failure", "lease-token"]

def kCompletionResultFields : List String :=
  ["kind", "version", "correlation", "publication", "failure", "system-error", "filesystem-sync",
    "filesystem-sync-system-error"]

def kSealFields : List String :=
  ["device", "inode", "uid", "gid", "mode", "flags", "link-count", "byte-size", "birth-time",
    "modification-time", "status-change-time"]

def kTimestampFields : List String := ["seconds", "nanoseconds"]

section

variable {δ : Type} (dictionary : TypedMap (XpcValue δ)) (key : String)

/-- `ValueWithType`: the value at a key, if it has the type that `ofType` selects. -/
def valueWithType {α : Type} (ofType : XpcValue δ → Option α) : Option α :=
  (dictionary.lookup key).bind ofType

def uint64Value : Except CodecError UInt64 :=
  demand (valueWithType dictionary key XpcValue.uint64?) .wrongType

def int64Value : Except CodecError Int64 :=
  demand (valueWithType dictionary key XpcValue.int64?) .wrongType

def dataValue : Except CodecError Bytes :=
  demand (valueWithType dictionary key XpcValue.data?) .wrongType

def dictionaryValue : Except CodecError δ :=
  demand (valueWithType dictionary key XpcValue.dictionary?) .wrongType

def fdValue : Except CodecError Nat :=
  demand (valueWithType dictionary key XpcValue.fd?) .invalidDescriptor

def fixedDataValue (n : Nat) : Except CodecError (Octets n) := do
  let bytes ← dataValue dictionary key
  if h : bytes.length = n then .ok ⟨bytes, h⟩ else .error .outOfRange

/-- A value that has to fit 32 bits. -/
def narrowed (value : UInt64) : Except CodecError UInt32 :=
  if value > 0xFFFFFFFF then .error .outOfRange else .ok value.toUInt32

/-- The enumerators in the order of their values; as many as the decoder's literal count. -/
def decodeEnum {ε : Type} (enumerators : List ε) : Except CodecError ε := do
  let value ← uint64Value dictionary key
  match enumerators[value.toNat]? with
  | some enumerator => .ok enumerator
  | none => .error .outOfRange

end

/-! ## Timestamps and seals -/

def encodeTimestamp (timestamp : Timestamp) : TimestampObject :=
  .ofMembers [("seconds", .int64 timestamp.seconds),
    ("nanoseconds", .uint64 timestamp.nanoseconds.toUInt64)]

def decodeTimestamp (object : TimestampObject) : Except CodecError Timestamp := do
  refuse (object.hasExactFields kTimestampFields = false) .unknownMember
  let seconds ← int64Value object "seconds"
  let nanoseconds ← uint64Value object "nanoseconds"
  return { seconds := seconds, nanoseconds := ← narrowed nanoseconds }

def encodeSeal (value : ObjectSeal) : SealObject :=
  .ofMembers [("device", .uint64 value.device), ("inode", .uint64 value.inode),
    ("uid", .uint64 value.uid.toUInt64), ("gid", .uint64 value.gid.toUInt64),
    ("mode", .uint64 value.mode.toUInt64), ("flags", .uint64 value.flags.toUInt64),
    ("link-count", .uint64 value.linkCount), ("byte-size", .uint64 value.byteSize),
    ("birth-time", .dictionary (encodeTimestamp value.birthTime)),
    ("modification-time", .dictionary (encodeTimestamp value.modificationTime)),
    ("status-change-time", .dictionary (encodeTimestamp value.statusChangeTime))]

def decodeSeal (object : SealObject) : Except CodecError ObjectSeal := do
  refuse (object.hasExactFields kSealFields = false) .unknownMember
  let device ← uint64Value object "device"
  let inode ← uint64Value object "inode"
  let uid ← uint64Value object "uid"
  let gid ← uint64Value object "gid"
  let mode ← uint64Value object "mode"
  let flags ← uint64Value object "flags"
  let linkCount ← uint64Value object "link-count"
  let byteSize ← uint64Value object "byte-size"
  let uid ← narrowed uid
  let gid ← narrowed gid
  let mode ← narrowed mode
  let flags ← narrowed flags
  let birthTimeValue ← dictionaryValue object "birth-time"
  let modificationTimeValue ← dictionaryValue object "modification-time"
  let statusChangeTimeValue ← dictionaryValue object "status-change-time"
  let birthTime ← (decodeTimestamp birthTimeValue).mapError fun _ => .invalidProtocolValue
  let modificationTime ←
    (decodeTimestamp modificationTimeValue).mapError fun _ => .invalidProtocolValue
  let statusChangeTime ←
    (decodeTimestamp statusChangeTimeValue).mapError fun _ => .invalidProtocolValue
  return { device, inode, uid, gid, mode, flags, linkCount, byteSize, birthTime, modificationTime,
           statusChangeTime }

/-! ## Headers -/

/-- What `EncodeEnvelope` and `PopulateEnvelope` set. -/
def envelope (kind : MessageKind) (header : Header) : List (String × XpcValue SealObject) :=
  [("kind", .uint64 kind.number), ("version", .uint64 header.version.toUInt64),
    ("correlation", .data header.correlation.1)]

def decodeHeader (dictionary : Message) (kind : MessageKind) : Except CodecError Header := do
  let number ← (uint64Value dictionary "kind").mapError fun _ => .invalidProtocolValue
  refuse (number ≠ kind.number) .invalidProtocolValue
  let version ← (uint64Value dictionary "version").mapError fun _ => .outOfRange
  let version ← narrowed version
  let correlation ← fixedDataValue dictionary "correlation" 16
  let header : Header := { version := version, correlation := correlation }
  refuse (¬Accepts header.validate) .invalidProtocolValue
  return header

/-- The argument of a decoder, if it is a dictionary with exactly these fields. -/
def exactDictionary (object : XpcValue Message) (fields : List String) :
    Except CodecError Message := do
  match object with
  | .dictionary dictionary => do
      refuse (dictionary.hasExactFields fields = false) .unknownMember
      return dictionary
  | _ => .error .notDictionary

/-! ## `Commit` and `Abort` -/

/-- What commit and abort requests consist of. -/
structure LeaseRequest where
  header : Header
  lease : Lease
deriving DecidableEq

def encodeLeaseRequest (request : LeaseRequest) (kind : MessageKind) : Except CodecError Message := do
  refuse (¬Accepts (validateRequestWithLease request.header request.lease)) .invalidArgument
  return .ofMembers (envelope kind request.header ++
    [("lease-token", .data request.lease.token.bytes.1)])

def decodeLeaseRequest (object : XpcValue Message) (kind : MessageKind) :
    Except CodecError LeaseRequest := do
  let dictionary ← exactDictionary object kLeaseRequestFields
  let header ← decodeHeader dictionary kind
  let token ← fixedDataValue dictionary "lease-token" 32
  let request : LeaseRequest := { header := header, lease := { header := header, token := ⟨token⟩ } }
  refuse (¬Accepts (validateRequestWithLease request.header request.lease)) .invalidProtocolValue
  return request

def encodeCommit (request : CommitRequest) : Except CodecError Message :=
  encodeLeaseRequest ⟨request.header, request.lease⟩ .commit

def decodeCommit (object : XpcValue Message) : Except CodecError CommitRequest :=
  (decodeLeaseRequest object .commit).map fun request => ⟨request.header, request.lease⟩

def encodeAbort (request : AbortRequest) : Except CodecError Message :=
  encodeLeaseRequest ⟨request.header, request.lease⟩ .abort

def decodeAbort (object : XpcValue Message) : Except CodecError AbortRequest :=
  (decodeLeaseRequest object .abort).map fun request => ⟨request.header, request.lease⟩

/-! ## `Begin` -/

/-- Descriptor numbers, borrowed or owned. -/
structure BeginDescriptors where
  sourceFd : Int
  destinationParentFd : Int
deriving DecidableEq

structure DecodedBegin where
  request : BeginRequest
  descriptors : BeginDescriptors
deriving DecidableEq

def encodeBegin (right : Int → Nat) (request : BeginRequest) (descriptors : BeginDescriptors) :
    Except CodecError Message := do
  refuse (¬Accepts request.validate ∨ descriptors.sourceFd < 0 ∨
    descriptors.destinationParentFd < 0 ∨
    descriptors.sourceFd = descriptors.destinationParentFd) .invalidArgument
  return .ofMembers (envelope .begin request.header ++
    [("source-seal", .dictionary (encodeSeal request.source)),
      ("destination-parent-seal", .dictionary (encodeSeal request.destinationParent)),
      ("destination-name", .data request.destinationName.bytes),
      ("source-fd", .fd (right descriptors.sourceFd)),
      ("destination-parent-fd", .fd (right descriptors.destinationParentFd))])

/-- `duplicates` are the numbers of the two duplicated descriptors, negative on failure. -/
def decodeBegin (object : XpcValue Message) (duplicates : BeginDescriptors) :
    Except CodecError DecodedBegin := do
  let dictionary ← exactDictionary object kBeginFields
  let header ← decodeHeader dictionary .begin
  let sourceSealValue ← dictionaryValue dictionary "source-seal"
  let destinationParentSealValue ← dictionaryValue dictionary "destination-parent-seal"
  let destinationNameValue ← dataValue dictionary "destination-name"
  let source ← (decodeSeal sourceSealValue).mapError fun _ => .invalidProtocolValue
  let destinationParent ←
    (decodeSeal destinationParentSealValue).mapError fun _ => .invalidProtocolValue
  let destinationName ←
    (DestinationComponent.create destinationNameValue).mapError fun _ => .invalidProtocolValue
  let _ ← fdValue dictionary "source-fd"
  let _ ← fdValue dictionary "destination-parent-fd"
  let request : BeginRequest := { header, source, destinationParent, destinationName }
  refuse (¬Accepts request.validate) .invalidProtocolValue
  refuse (duplicates.sourceFd < 0) .descriptorDuplicationFailed
  refuse (duplicates.destinationParentFd < 0) .descriptorDuplicationFailed
  refuse (duplicates.sourceFd = duplicates.destinationParentFd) .invalidDescriptor
  return { request := request, descriptors := duplicates }

/-! ## Results -/

def beginDispositions : List BeginDisposition := [.granted, .rejected]

def beginFailures : List BeginFailure :=
  [.none, .unsupported, .invalidRequest, .sourceStale, .destinationParentStale,
    .destinationExists, .cancelled, .helperFailure]

def publications : List Publication := [.notPublished, .published, .unknown]

def completionFailures : List CompletionFailure :=
  [.none, .aborted, .cancelled, .sourceStale, .destinationParentStale, .destinationExists,
    .metadataFailed, .fileSystemSyncFailed, .helperFailure]

def filesystemSyncs : List FilesystemSync := [.notAttempted, .confirmed, .failed]

/-- `static_cast<uint64_t>` of an enumerator. -/
def enumValue {ε : Type} [DecidableEq ε] (enumerators : List ε) (enumerator : ε) : UInt64 :=
  (enumerators.idxOf enumerator).toUInt64

/-- The checks that `PopulateEnvelope` makes, and the members it and its caller then set. -/
def populate (reply : XpcValue Message) (members : List (String × XpcValue SealObject)) :
    Except CodecError Message :=
  match reply with
  | .dictionary dictionary =>
    if dictionary.keys.card ≠ 0 then .error .invalidArgument
    else .ok (members.foldl (fun map member => map.insert member.1 member.2) dictionary)
  | _ => .error .invalidArgument

def populateBeginResultReply (reply : XpcValue Message) (result : BeginResult) :
    Except CodecError Message := do
  refuse (¬Accepts result.validate) .invalidArgument
  populate reply (envelope .beginResult result.header ++
    [("disposition", .uint64 (enumValue beginDispositions result.disposition)),
      ("failure", .uint64 (enumValue beginFailures result.failure)),
      ("lease-token", .data result.lease.token.bytes.1)])

def encodeBeginResult (result : BeginResult) : Except CodecError Message := do
  refuse (¬Accepts result.validate) .invalidArgument
  populateBeginResultReply (.dictionary ∅) result

def decodeBeginResult (object : XpcValue Message) : Except CodecError BeginResult := do
  let dictionary ← exactDictionary object kBeginResultFields
  let (header, disposition, failure, token) ← (do
    let header ← decodeHeader dictionary .beginResult
    let disposition ← decodeEnum dictionary "disposition" beginDispositions
    let failure ← decodeEnum dictionary "failure" beginFailures
    let token ← fixedDataValue dictionary "lease-token" 32
    return (header, disposition, failure, token) : Except CodecError _).mapError
      fun _ => .invalidProtocolValue
  let result : BeginResult :=
    { header, disposition, failure, lease := { header := header, token := ⟨token⟩ } }
  refuse (¬Accepts result.validate) .invalidProtocolValue
  return result

def populateCompletionResultReply (reply : XpcValue Message) (result : CompletionResult) :
    Except CodecError Message := do
  refuse (¬Accepts result.validate) .invalidArgument
  populate reply (envelope .completionResult result.header ++
    [("publication", .uint64 (enumValue publications result.publication)),
      ("failure", .uint64 (enumValue completionFailures result.failure)),
      ("system-error", .int64 result.systemError.toInt64),
      ("filesystem-sync", .uint64 (enumValue filesystemSyncs result.filesystemSync)),
      ("filesystem-sync-system-error", .int64 result.filesystemSyncSystemError.toInt64)])

def encodeCompletionResult (result : CompletionResult) : Except CodecError Message := do
  refuse (¬Accepts result.validate) .invalidArgument
  populateCompletionResultReply (.dictionary ∅) result

/-- A value between the limits of `int32_t`. -/
def narrowedSigned (value : Int64) : Except CodecError Int32 :=
  if value < -2147483648 ∨ value > 2147483647 then .error .outOfRange else .ok value.toInt32

def decodeCompletionResult (object : XpcValue Message) : Except CodecError CompletionResult := do
  let dictionary ← exactDictionary object kCompletionResultFields
  let (header, publication, failure, systemError, filesystemSync, filesystemSyncSystemError) ← (do
    let header ← decodeHeader dictionary .completionResult
    let publication ← decodeEnum dictionary "publication" publications
    let failure ← decodeEnum dictionary "failure" completionFailures
    let systemError ← int64Value dictionary "system-error"
    let filesystemSync ← decodeEnum dictionary "filesystem-sync" filesystemSyncs
    let filesystemSyncSystemError ← int64Value dictionary "filesystem-sync-system-error"
    return (header, publication, failure, systemError, filesystemSync, filesystemSyncSystemError) :
      Except CodecError _).mapError fun _ => .invalidProtocolValue
  let systemError ← narrowedSigned systemError
  let filesystemSyncSystemError ← narrowedSigned filesystemSyncSystemError
  let result : CompletionResult :=
    { header, publication, failure, systemError, filesystemSync, filesystemSyncSystemError }
  refuse (¬Accepts result.validate) .invalidProtocolValue
  return result

end WinCommander.Staging
