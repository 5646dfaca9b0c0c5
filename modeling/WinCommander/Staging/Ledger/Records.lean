/-
  The records of a protected root: what the ledger writes into its files, and what it reads.

  `euid` stands for `geteuid()`. The appends of one line are one append here: a builder fails
  exactly when its contents do not fit.
-/
import WinCommander.Library.Lines
import WinCommander.Staging.Protocol

namespace WinCommander.Staging

open Library

def kSchema : Bytes := ascii "wincommander-cross-volume-ledger-v1"
def kLifecycleSchema : Bytes := ascii "wincommander-cross-volume-lifecycle-v1"
def kRecordMaximumBytes : Nat := 1024
def kLifecycleManifestMaximumBytes : Nat := 4096

inductive ArtifactRole where
  | sourceSnapshot | destinationStage
deriving DecidableEq

structure ArtifactID where
  bytes : Octets 32
deriving DecidableEq

structure RootIdentity where
  device : UInt64 := 0
  inode : UInt64 := 0
deriving DecidableEq

def roleName : ArtifactRole → Bytes
  | .sourceSnapshot => ascii "source-snapshot"
  | .destinationStage => ascii "destination-stage"

def parseRole (value : Bytes) : Option ArtifactRole :=
  if value = ascii "source-snapshot" then some .sourceSnapshot
  else if value = ascii "destination-stage" then some .destinationStage
  else none

/-- `RecordState` and `LifecycleManifestState`. -/
inductive RecordState where
  | reserved | sealed
deriving DecidableEq

def RecordState.name : RecordState → Bytes
  | .reserved => ascii "reserved"
  | .sealed => ascii "sealed"

def parseState (value : Bytes) : Option RecordState :=
  if value = ascii "reserved" then some .reserved
  else if value = ascii "sealed" then some .sealed
  else none

/-! ## Seals -/

structure Timespec where
  seconds : Int64
  nanoseconds : Int64
deriving DecidableEq

/-- What `fstat` tells about an object; device and inode as they are cast. -/
structure Stat where
  device : UInt64
  inode : UInt64
  uid : UInt32
  gid : UInt32
  mode : UInt32
  flags : UInt32
  linkCount : UInt16
  size : Int64
  birthTime : Timespec
  modificationTime : Timespec
  statusChangeTime : Timespec
deriving DecidableEq

def Timespec.timestamp? (time : Timespec) : Option Timestamp :=
  if time.nanoseconds < 0 ∨ time.nanoseconds ≥ 1000000000 then none
  else some { seconds := time.seconds, nanoseconds := time.nanoseconds.toUInt64.toUInt32 }

def sealFromStat (status : Stat) : Option ObjectSeal :=
  if status.size < 0 ∨ status.linkCount = 0 then none
  else do
    let birthTime ← status.birthTime.timestamp?
    let modificationTime ← status.modificationTime.timestamp?
    let statusChangeTime ← status.statusChangeTime.timestamp?
    return { device := status.device, inode := status.inode, uid := status.uid, gid := status.gid,
             mode := status.mode, flags := status.flags, linkCount := status.linkCount.toUInt64,
             byteSize := status.size.toUInt64, birthTime, modificationTime, statusChangeTime }

def isValidArtifactSeal (euid : UInt32) (objectSeal : ObjectSeal) (rootDevice : UInt64) : Bool :=
  objectSeal.device == rootDevice && objectSeal.inode != 0 && objectSeal.uid == euid &&
    objectSeal.mode &&& S_IFMT == S_IFREG && objectSeal.mode &&& 0xFFF == 0x180 &&
    objectSeal.linkCount == 1 && hasValidTimestamps objectSeal

/-- `AppendLifecycleSeal`; the lines of an artifact seal in a record have the same suffixes. -/
def sealFields (start : Bytes) (objectSeal : ObjectSeal) : List Field :=
  [(start ++ ascii "device", decimal objectSeal.device.toNat),
    (start ++ ascii "inode", decimal objectSeal.inode.toNat),
    (start ++ ascii "uid", decimal objectSeal.uid.toNat),
    (start ++ ascii "gid", decimal objectSeal.gid.toNat),
    (start ++ ascii "mode", decimal objectSeal.mode.toNat),
    (start ++ ascii "flags", decimal objectSeal.flags.toNat),
    (start ++ ascii "nlink", decimal objectSeal.linkCount.toNat),
    (start ++ ascii "size", decimal objectSeal.byteSize.toNat),
    (start ++ ascii "birth_seconds", decimal objectSeal.birthTime.seconds.toUInt64.toNat),
    (start ++ ascii "birth_nanoseconds", decimal objectSeal.birthTime.nanoseconds.toNat),
    (start ++ ascii "mtime_seconds", decimal objectSeal.modificationTime.seconds.toUInt64.toNat),
    (start ++ ascii "mtime_nanoseconds", decimal objectSeal.modificationTime.nanoseconds.toNat),
    (start ++ ascii "ctime_seconds", decimal objectSeal.statusChangeTime.seconds.toUInt64.toNat),
    (start ++ ascii "ctime_nanoseconds", decimal objectSeal.statusChangeTime.nanoseconds.toNat)]

/-- The names that `ParseLifecycleSeal` asks for. -/
def sealFieldNames (start : Bytes) : List Bytes :=
  [start ++ ascii "device", start ++ ascii "inode", start ++ ascii "uid", start ++ ascii "gid",
    start ++ ascii "mode", start ++ ascii "flags", start ++ ascii "nlink", start ++ ascii "size",
    start ++ ascii "birth_seconds", start ++ ascii "birth_nanoseconds",
    start ++ ascii "mtime_seconds", start ++ ascii "mtime_nanoseconds",
    start ++ ascii "ctime_seconds", start ++ ascii "ctime_nanoseconds"]

def parseUint32 (value : Bytes) : Option UInt32 :=
  (parseUnsigned value).bind fun parsed =>
    if parsed > 0xFFFFFFFF then none else some parsed.toUInt32

def parseTimestamp (seconds nanoseconds : Bytes) : Option Timestamp := do
  let encodedSeconds ← parseUnsigned seconds
  let nanoseconds ← parseUint32 nanoseconds
  if encodedSeconds > 0x7FFFFFFFFFFFFFFF ∨ nanoseconds ≥ 1000000000 then none
  else some { seconds := encodedSeconds.toInt64, nanoseconds }

def parseSealValues : List Bytes → Option ObjectSeal
  | [device, inode, uid, gid, mode, flags, linkCount, byteSize, birthSeconds, birthNanoseconds,
      modificationSeconds, modificationNanoseconds, statusChangeSeconds, statusChangeNanoseconds] =>
      do
      let device ← parseUnsigned device
      let inode ← parseUnsigned inode
      let uid ← parseUint32 uid
      let gid ← parseUint32 gid
      let mode ← parseUint32 mode
      let flags ← parseUint32 flags
      let linkCount ← parseUnsigned linkCount
      let byteSize ← parseUnsigned byteSize
      let birthTime ← parseTimestamp birthSeconds birthNanoseconds
      let modificationTime ← parseTimestamp modificationSeconds modificationNanoseconds
      let statusChangeTime ← parseTimestamp statusChangeSeconds statusChangeNanoseconds
      return { device, inode, uid, gid, mode, flags, linkCount, byteSize, birthTime,
               modificationTime, statusChangeTime }
  | _ => none

/-- `ParseLifecycleSeal`. -/
def parseSeal (start contents : Bytes) : Option (ObjectSeal × Bytes) := do
  let (values, rest) ← takeFields (sealFieldNames start) contents
  let objectSeal ← parseSealValues values
  return (objectSeal, rest)

/-! ## Ledger records -/

structure DecodedRecord where
  header : Header
  role : ArtifactRole
  id : ArtifactID
  state : RecordState := .reserved
  artifactSeal : ObjectSeal := {}
deriving DecidableEq

/-- The first fields of a record. -/
def recordHeadFields (root : RootIdentity) (record : DecodedRecord) : List Field :=
  [(ascii "schema", kSchema), (ascii "root_device", decimal root.device.toNat),
    (ascii "root_inode", decimal root.inode.toNat),
    (ascii "correlation", encodeHex record.header.correlation.1),
    (ascii "role", roleName record.role), (ascii "artifact", encodeHex record.id.bytes.1),
    (ascii "state", record.state.name)]

/-- The fields of the artifact, in a sealed record only. -/
def recordArtifactFields (record : DecodedRecord) : List Field :=
  match record.state with
  | .reserved => []
  | .sealed => sealFields (ascii "artifact_") record.artifactSeal

def recordFields (root : RootIdentity) (record : DecodedRecord) : List Field :=
  recordHeadFields root record ++ recordArtifactFields record

def buildRecordContents (root : RootIdentity) (record : DecodedRecord) : Option Bytes :=
  appendFields kRecordMaximumBytes [] (recordFields root record)

/-- `DecodeHex` into an array. -/
def decodeOctets (n : Nat) (value : Bytes) : Option (Octets n) :=
  (decodeHex value).bind fun bytes => if h : bytes.length = n then some ⟨bytes, h⟩ else none

/-- `ParseArtifactSeal`. -/
def parseArtifactSeal (euid : UInt32) (rootDevice : UInt64) (contents : Bytes) :
    Option (ObjectSeal × Bytes) :=
  (parseSeal (ascii "artifact_") contents).filter fun parsed =>
    isValidArtifactSeal euid parsed.1 rootDevice

/-- The names that `DecodeRecord` asks for. -/
def recordHeadNames : List Bytes :=
  [ascii "schema", ascii "root_device", ascii "root_inode", ascii "correlation", ascii "role",
    ascii "artifact", ascii "state"]

/-- `DecodeRecord` after the first lines. -/
def decodeRecordValues (euid : UInt32) (root : RootIdentity) (values : List Bytes) (rest : Bytes) :
    Option DecodedRecord :=
  match values with
  | [schema, rootDevice, rootInode, correlation, role, artifact, state] => do
      guard (schema = kSchema)
      let parsedDevice ← parseUnsigned rootDevice
      let parsedInode ← parseUnsigned rootInode
      guard (parsedDevice = root.device ∧ parsedInode = root.inode)
      let correlation ← decodeOctets 16 correlation
      let artifact ← decodeOctets 32 artifact
      guard (isAllZero artifact.1 = false)
      let header : Header := { correlation }
      guard (Accepts header.validate)
      let role ← parseRole role
      match ← parseState state with
      | .reserved =>
        guard (rest = [])
        return { header, role, id := ⟨artifact⟩ }
      | .sealed =>
        let (artifactSeal, rest) ← parseArtifactSeal euid root.device rest
        guard (rest = [])
        return { header, role, id := ⟨artifact⟩, state := .sealed, artifactSeal }
  | _ => none

def decodeRecord (euid : UInt32) (root : RootIdentity) (contents : Bytes) : Option DecodedRecord := do
  guard (0 ∉ contents)
  let (values, rest) ← takeFields recordHeadNames contents
  decodeRecordValues euid root values rest

/-! ## Lifecycle manifests -/

structure LifecycleManifest where
  header : Header
  sourceRoot : RootIdentity
  destinationRoot : RootIdentity
  sourceSnapshotId : ArtifactID
  destinationStageId : ArtifactID
  sourceSnapshotSeal : ObjectSeal
  destinationStageSeal : ObjectSeal
  sourceSeal : ObjectSeal
  destinationParentSeal : ObjectSeal
  destinationName : Bytes
deriving DecidableEq

/-- The fields before the seals. -/
def lifecycleHeadFields (manifest : LifecycleManifest) : List Field :=
  [(ascii "schema", kLifecycleSchema), (ascii "correlation", encodeHex manifest.header.correlation.1),
    (ascii "source_root_device", decimal manifest.sourceRoot.device.toNat),
    (ascii "source_root_inode", decimal manifest.sourceRoot.inode.toNat),
    (ascii "destination_root_device", decimal manifest.destinationRoot.device.toNat),
    (ascii "destination_root_inode", decimal manifest.destinationRoot.inode.toNat),
    (ascii "source_snapshot_artifact", encodeHex manifest.sourceSnapshotId.bytes.1),
    (ascii "destination_stage_artifact", encodeHex manifest.destinationStageId.bytes.1)]

/-- The fields after the seals. -/
def lifecycleTailFields (manifest : LifecycleManifest) (state : RecordState) : List Field :=
  [(ascii "destination_name", encodeHex manifest.destinationName), (ascii "state", state.name)]

def lifecycleManifestFields (manifest : LifecycleManifest) (state : RecordState) : List Field :=
  lifecycleHeadFields manifest ++
  (sealFields (ascii "source_snapshot_") manifest.sourceSnapshotSeal ++
  (sealFields (ascii "destination_stage_") manifest.destinationStageSeal ++
  (sealFields (ascii "source_") manifest.sourceSeal ++
  (sealFields (ascii "destination_parent_") manifest.destinationParentSeal ++
  lifecycleTailFields manifest state))))

def buildLifecycleManifestContents (manifest : LifecycleManifest) (state : RecordState) :
    Option Bytes :=
  (appendFields kLifecycleManifestMaximumBytes [] (lifecycleManifestFields manifest state)).filter
    fun contents => contents.length < kLifecycleManifestMaximumBytes

/-- The request that a manifest records, if its destination has a name. -/
def LifecycleManifest.request (manifest : LifecycleManifest) : Except ValidationError BeginRequest := do
  let destinationName ← DestinationComponent.create manifest.destinationName
  return { header := manifest.header, source := manifest.sourceSeal,
           destinationParent := manifest.destinationParentSeal, destinationName }

/-- What `DecodeLifecycleManifest` checks of the values it has read. -/
def LifecycleManifest.consistent (euid : UInt32) (manifest : LifecycleManifest) : Bool :=
  !isAllZero manifest.sourceSnapshotId.bytes.1 && !isAllZero manifest.destinationStageId.bytes.1 &&
    manifest.sourceRoot.device != 0 && manifest.sourceRoot.inode != 0 &&
    manifest.destinationRoot.device != 0 && manifest.destinationRoot.inode != 0 &&
    isValidArtifactSeal euid manifest.sourceSnapshotSeal manifest.sourceRoot.device &&
    isValidArtifactSeal euid manifest.destinationStageSeal manifest.destinationRoot.device &&
    manifest.sourceSnapshotSeal.byteSize == manifest.sourceSeal.byteSize &&
    manifest.destinationStageSeal.byteSize == manifest.sourceSeal.byteSize &&
    manifest.sourceSeal.device == manifest.sourceRoot.device &&
    manifest.destinationParentSeal.device == manifest.destinationRoot.device &&
    decide (Accepts (manifest.request >>= BeginRequest.validate))

/-- `DecodeLifecycleDestinationName`. -/
def decodeLifecycleDestinationName (encoded : Bytes) : Option Bytes :=
  if encoded = [] ∨ encoded.length % 2 ≠ 0 ∨ encoded.length / 2 > kMaximumDestinationComponentBytes then
    none
  else decodeHex encoded

/-- The names that `DecodeLifecycleManifest` asks for before the seals. -/
def lifecycleHeadNames : List Bytes :=
  [ascii "schema", ascii "correlation", ascii "source_root_device", ascii "source_root_inode",
    ascii "destination_root_device", ascii "destination_root_inode",
    ascii "source_snapshot_artifact", ascii "destination_stage_artifact"]

/-- The values before the seals. -/
structure LifecycleHead where
  header : Header
  sourceRoot : RootIdentity
  destinationRoot : RootIdentity
  sourceSnapshotId : ArtifactID
  destinationStageId : ArtifactID

def decodeLifecycleHead : List Bytes → Option LifecycleHead
  | [schema, correlation, sourceRootDevice, sourceRootInode, destinationRootDevice,
      destinationRootInode, sourceSnapshotArtifact, destinationStageArtifact] => do
      guard (schema = kLifecycleSchema)
      let correlation ← decodeOctets 16 correlation
      let sourceRootDevice ← parseUnsigned sourceRootDevice
      let sourceRootInode ← parseUnsigned sourceRootInode
      let destinationRootDevice ← parseUnsigned destinationRootDevice
      let destinationRootInode ← parseUnsigned destinationRootInode
      let sourceSnapshotArtifact ← decodeOctets 32 sourceSnapshotArtifact
      let destinationStageArtifact ← decodeOctets 32 destinationStageArtifact
      return { header := { correlation }, sourceRoot := ⟨sourceRootDevice, sourceRootInode⟩,
               destinationRoot := ⟨destinationRootDevice, destinationRootInode⟩,
               sourceSnapshotId := ⟨sourceSnapshotArtifact⟩,
               destinationStageId := ⟨destinationStageArtifact⟩ }
  | _ => none

def decodeLifecycleTail : List Bytes → Option (Bytes × RecordState)
  | [destinationName, state] => do
      let destinationName ← decodeLifecycleDestinationName destinationName
      let state ← parseState state
      return (destinationName, state)
  | _ => none

/-- All values are parsed before they are checked; either way a bad one refuses the manifest. -/
def decodeLifecycleManifest (euid : UInt32) (contents : Bytes) :
    Option (LifecycleManifest × RecordState) := do
  guard (0 ∉ contents)
  let (values, rest) ← takeFields lifecycleHeadNames contents
  let head ← decodeLifecycleHead values
  let (sourceSnapshotSeal, rest) ← parseSeal (ascii "source_snapshot_") rest
  let (destinationStageSeal, rest) ← parseSeal (ascii "destination_stage_") rest
  let (sourceSeal, rest) ← parseSeal (ascii "source_") rest
  let (destinationParentSeal, rest) ← parseSeal (ascii "destination_parent_") rest
  let (values, rest) ← takeFields [ascii "destination_name", ascii "state"] rest
  guard (rest = [])
  let (destinationName, state) ← decodeLifecycleTail values
  let manifest : LifecycleManifest :=
    { header := head.header, sourceRoot := head.sourceRoot,
      destinationRoot := head.destinationRoot, sourceSnapshotId := head.sourceSnapshotId,
      destinationStageId := head.destinationStageId, sourceSnapshotSeal, destinationStageSeal,
      sourceSeal, destinationParentSeal, destinationName }
  guard (manifest.consistent euid = true)
  return (manifest, state)

end WinCommander.Staging
