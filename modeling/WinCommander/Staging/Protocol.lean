/-
  The cross-volume staging protocol: its values and what `Validate` accepts.

  A fixed array of bytes is a list of that length. The enumerations have their enumerators
  only: no code of the helper makes another value of them.
-/
import WinCommander.Library.Check
import WinCommander.Library.Numeral

namespace WinCommander.Staging

open Library List

/-- `std::array<uint8_t, n>`. -/
abbrev Octets (n : Nat) := { bytes : Bytes // bytes.length = n }

def Octets.zero (n : Nat) : Octets n := ⟨List.replicate n 0, length_replicate⟩

/-- `IsAllZero`. -/
def isAllZero (bytes : Bytes) : Bool := bytes.all (· == 0)

def kProtocolVersion : UInt32 := 1

abbrev CorrelationID := Octets 16

structure Header where
  version : UInt32 := kProtocolVersion
  correlation : CorrelationID
deriving DecidableEq

structure Timestamp where
  seconds : Int64 := 0
  nanoseconds : UInt32 := 0
deriving DecidableEq

structure ObjectSeal where
  device : UInt64 := 0
  inode : UInt64 := 0
  uid : UInt32 := 0
  gid : UInt32 := 0
  mode : UInt32 := 0
  flags : UInt32 := 0
  linkCount : UInt64 := 0
  byteSize : UInt64 := 0
  birthTime : Timestamp := {}
  modificationTime : Timestamp := {}
  statusChangeTime : Timestamp := {}
deriving DecidableEq

def kMaximumDestinationComponentBytes : Nat := 255

/-- `IsValidDestinationComponentBytes`. -/
def isValidDestinationComponentBytes (bytes : Bytes) : Bool :=
  if bytes = [] ∨ bytes.length > kMaximumDestinationComponentBytes then false
  else if bytes = ascii "." then false
  else if bytes = ascii ".." then false
  else bytes.all fun byte => byte != 0 && byte != 47

/-- Default-constructed, or made by `Create`. -/
structure DestinationComponent where
  bytes : Bytes
  made : bytes = [] ∨ isValidDestinationComponentBytes bytes = true
deriving DecidableEq

structure BeginRequest where
  header : Header
  source : ObjectSeal
  destinationParent : ObjectSeal
  destinationName : DestinationComponent
deriving DecidableEq

structure LeaseToken where
  bytes : Octets 32
deriving DecidableEq

structure Lease where
  header : Header
  token : LeaseToken
deriving DecidableEq

structure CommitRequest where
  header : Header
  lease : Lease
deriving DecidableEq

structure AbortRequest where
  header : Header
  lease : Lease
deriving DecidableEq

inductive BeginDisposition where
  | granted | rejected
deriving DecidableEq

inductive BeginFailure where
  | none | unsupported | invalidRequest | sourceStale | destinationParentStale
  | destinationExists | cancelled | helperFailure
deriving DecidableEq

structure BeginResult where
  header : Header
  disposition : BeginDisposition
  failure : BeginFailure
  lease : Lease
deriving DecidableEq

inductive Publication where
  | notPublished | published | unknown
deriving DecidableEq

inductive CompletionFailure where
  | none | aborted | cancelled | sourceStale | destinationParentStale | destinationExists
  | metadataFailed | fileSystemSyncFailed | helperFailure
deriving DecidableEq

inductive FilesystemSync where
  | notAttempted | confirmed | failed
deriving DecidableEq

structure CompletionResult where
  header : Header
  publication : Publication
  failure : CompletionFailure
  systemError : Int32
  filesystemSync : FilesystemSync
  filesystemSyncSystemError : Int32
deriving DecidableEq

inductive ValidationError where
  | unsupportedVersion | invalidCorrelation | invalidLease | invalidDestinationComponent
  | invalidTimestamp | invalidSourceSeal | invalidDestinationParentSeal | inconsistentLease
  | inconsistentBeginResult | inconsistentCompletionResult
deriving DecidableEq

/-- The errors of `errno.h` that the helper names. -/
def EIO : Int32 := 5
def EEXIST : Int32 := 17
def ESTALE : Int32 := 70
def EOPNOTSUPP : Int32 := 102

/-- `DestinationComponent::Create`. -/
def DestinationComponent.create (bytes : Bytes) : Except ValidationError DestinationComponent :=
  if h : isValidDestinationComponentBytes bytes = true then .ok ⟨bytes, .inr h⟩
  else .error .invalidDestinationComponent

/-! ## `Validate` -/

def isValidTimestamp (timestamp : Timestamp) : Bool := timestamp.nanoseconds < 1000000000

/-- `S_IFMT` and the two kinds of objects that are sealed. -/
def S_IFMT : UInt32 := 0xF000
def S_IFREG : UInt32 := 0x8000
def S_IFDIR : UInt32 := 0x4000

def hasValidTimestamps (objectSeal : ObjectSeal) : Bool :=
  isValidTimestamp objectSeal.birthTime && isValidTimestamp objectSeal.modificationTime &&
    isValidTimestamp objectSeal.statusChangeTime

def isValidObjectSeal (objectSeal : ObjectSeal) (expectedType : UInt32) : Bool :=
  objectSeal.mode &&& S_IFMT == expectedType && objectSeal.inode != 0 && objectSeal.linkCount != 0 &&
    hasValidTimestamps objectSeal

def Header.validate (header : Header) : Except ValidationError Unit := do
  refuse (header.version ≠ kProtocolVersion) .unsupportedVersion
  refuse (isAllZero header.correlation.1 = true) .invalidCorrelation

def BeginRequest.validate (request : BeginRequest) : Except ValidationError Unit := do
  request.header.validate
  refuse (isValidDestinationComponentBytes request.destinationName.bytes = false)
    .invalidDestinationComponent
  refuse (isValidObjectSeal request.source S_IFREG = false)
    (if hasValidTimestamps request.source then .invalidSourceSeal else .invalidTimestamp)
  refuse (isValidObjectSeal request.destinationParent S_IFDIR = false)
    (if hasValidTimestamps request.destinationParent then .invalidDestinationParentSeal
      else .invalidTimestamp)

def Lease.validate (lease : Lease) : Except ValidationError Unit := do
  lease.header.validate
  refuse (isAllZero lease.token.bytes.1 = true) .invalidLease

def validateRequestWithLease (header : Header) (lease : Lease) : Except ValidationError Unit := do
  header.validate
  lease.validate
  refuse (header ≠ lease.header) .inconsistentLease

def CommitRequest.validate (request : CommitRequest) : Except ValidationError Unit :=
  validateRequestWithLease request.header request.lease

def AbortRequest.validate (request : AbortRequest) : Except ValidationError Unit :=
  validateRequestWithLease request.header request.lease

def isZeroLease (lease : Lease) : Bool := isAllZero lease.token.bytes.1

def BeginResult.validate (result : BeginResult) : Except ValidationError Unit := do
  result.header.validate
  match result.disposition with
  | .granted =>
    refuse (result.failure ≠ .none) .inconsistentBeginResult
    (validateRequestWithLease result.header result.lease).mapError fun _ =>
      .inconsistentBeginResult
  | .rejected =>
    refuse (result.failure = .none ∨ isZeroLease result.lease = false) .inconsistentBeginResult

/-- The failures that go with a published destination. -/
def publishedConsistent (result : CompletionResult) : Bool :=
  match result.failure with
  | .none => result.systemError == 0 && result.filesystemSync == .confirmed
  | .metadataFailed => result.systemError != 0 && result.filesystemSync != .notAttempted
  | .fileSystemSyncFailed =>
    result.systemError != 0 && result.filesystemSync == .failed &&
      result.filesystemSyncSystemError == result.systemError
  | .helperFailure => result.systemError != 0 && result.filesystemSync != .notAttempted
  | .aborted | .cancelled | .sourceStale | .destinationParentStale | .destinationExists => false

/-- The failures that go with a destination that was not published. -/
def notPublishedConsistent (result : CompletionResult) : Bool :=
  match result.failure with
  | .aborted | .cancelled => result.systemError == 0
  | .sourceStale | .destinationParentStale => result.systemError == ESTALE
  | .destinationExists => result.systemError == EEXIST
  | .helperFailure => result.systemError != 0
  | .none | .metadataFailed | .fileSystemSyncFailed => false

def CompletionResult.validate (result : CompletionResult) : Except ValidationError Unit := do
  result.header.validate
  refuse (result.systemError < 0 ∨ result.filesystemSyncSystemError < 0)
    .inconsistentCompletionResult
  refuse (if result.filesystemSync = .failed then result.filesystemSyncSystemError = 0
      else result.filesystemSyncSystemError ≠ 0) .inconsistentCompletionResult
  match result.publication with
  | .published => refuse (publishedConsistent result = false) .inconsistentCompletionResult
  | .unknown =>
    refuse (¬(result.failure = .helperFailure ∧ result.systemError ≠ 0 ∧
      result.filesystemSync = .notAttempted)) .inconsistentCompletionResult
  | .notPublished => do
      refuse (result.filesystemSync ≠ .notAttempted) .inconsistentCompletionResult
      refuse (notPublishedConsistent result = false) .inconsistentCompletionResult

/-! ## What is accepted -/

/-- `Validate` has no objection. -/
def Accepts (validation : Except ValidationError Unit) : Prop := validation = .ok ()

instance (validation : Except ValidationError Unit) : Decidable (Accepts validation) :=
  match validation with
  | .ok () => isTrue rfl
  | .error _ => isFalse fun h => by cases h

theorem accepts_header_iff {header : Header} :
    Accepts header.validate ↔ header.version = kProtocolVersion ∧
      isAllZero header.correlation.1 = false := by
  unfold Accepts Header.validate
  rw [seq_ok_iff, refuse_ok_iff, refuse_ok_iff, not_not, Bool.not_eq_true]

theorem accepts_lease_iff {lease : Lease} : Accepts lease.validate ↔ Accepts lease.header.validate ∧
      isAllZero lease.token.bytes.1 = false := by
  unfold Accepts Lease.validate
  rw [seq_ok_iff, refuse_ok_iff, Bool.not_eq_true]

theorem accepts_request_iff :
    Accepts (validateRequestWithLease header lease) ↔ Accepts header.validate ∧
      isAllZero lease.token.bytes.1 = false ∧ header = lease.header := by
  have hexpand : Accepts (validateRequestWithLease header lease) ↔
      Accepts header.validate ∧ Accepts lease.validate ∧ header = lease.header := by
    unfold Accepts validateRequestWithLease
    rw [seq_ok_iff, seq_ok_iff, refuse_ok_iff, not_not]
  rw [hexpand, accepts_lease_iff]
  constructor
  · rintro ⟨hheader, ⟨-, htoken⟩, hsame⟩
    exact ⟨hheader, htoken, hsame⟩
  · rintro ⟨hheader, htoken, rfl⟩
    exact ⟨hheader, ⟨hheader, htoken⟩, rfl⟩

theorem isAllZero_replicate (n : Nat) : isAllZero (List.replicate n 0) := by
  unfold isAllZero
  rw [all_eq_true]
  intro byte hbyte
  rw [eq_of_mem_replicate hbyte]
  rfl

theorem create_ok_iff : DestinationComponent.create bytes = .ok component ↔
      isValidDestinationComponentBytes bytes ∧ component.bytes = bytes := by
  unfold DestinationComponent.create
  split
  · next h =>
      constructor
      · intro heq
        cases heq
        exact ⟨h, rfl⟩
      · rintro ⟨-, rfl⟩
        rfl
  · next h =>
      constructor
      · intro heq
        cases heq
      · exact fun hvalid => absurd hvalid.1 h

end WinCommander.Staging
