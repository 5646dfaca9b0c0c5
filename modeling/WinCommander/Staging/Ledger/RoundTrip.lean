/-
  What the ledger writes, and when it can be read back.

  A timestamp is printed as an unsigned number and read back only up to the largest signed one;
  a record that holds a time before 1970 is written, and cannot be read.
-/
import WinCommander.Staging.Ledger.Records

namespace WinCommander.Staging

open Library List Option Field UInt32

/-! ## Seals -/

theorem parseUint32_decimal (n : UInt32) : parseUint32 (decimal n.toNat) = some n := by
  unfold parseUint32
  have hle : ¬n.toUInt64 > 0xFFFFFFFF := by
    rw [gt_iff_lt, UInt64.lt_iff_toNat_lt, toNat_toUInt64]
    have hlt := n.toNat_lt
    change ¬4294967295 < n.toNat
    omega
  rw [← toNat_toUInt64, parseUnsigned_decimal, bind_some, if_neg hle, toUInt32_toUInt64]

theorem seconds_le_iff (seconds : Int64) : seconds.toUInt64 > 0x7FFFFFFFFFFFFFFF ↔ seconds < 0 := by
  rw [gt_iff_lt, UInt64.lt_iff_toNat_lt, Int64.lt_iff_toInt_lt]
  have hsign := BitVec.toInt_eq_toNat_cond seconds.toBitVec
  have hlt := seconds.toBitVec.isLt
  change 9223372036854775807 < seconds.toBitVec.toNat ↔ seconds.toBitVec.toInt < 0
  rw [hsign]
  split <;> omega

/-- The reader takes it. -/
def Timestamp.readable (timestamp : Timestamp) : Bool := 0 ≤ timestamp.seconds

def ObjectSeal.readable (objectSeal : ObjectSeal) : Bool :=
  objectSeal.birthTime.readable && objectSeal.modificationTime.readable &&
    objectSeal.statusChangeTime.readable

theorem parseTimestamp_decimal {timestamp : Timestamp} (h : isValidTimestamp timestamp) :
    parseTimestamp (decimal timestamp.seconds.toUInt64.toNat)
        (decimal timestamp.nanoseconds.toNat) =
      if timestamp.readable = true then some timestamp else none := by
  have hnanoseconds : timestamp.nanoseconds < 1000000000 := of_decide_eq_true h
  have hiff : timestamp.seconds.toUInt64 > 0x7FFFFFFFFFFFFFFF ∨
      timestamp.nanoseconds ≥ 1000000000 ↔ ¬timestamp.readable := by
    rw [seconds_le_iff, or_iff_left (UInt32.not_le.mpr hnanoseconds)]
    unfold Timestamp.readable
    rw [decide_eq_true_iff, Int64.not_le]
  unfold parseTimestamp
  rw [parseUnsigned_decimal, parseUint32_decimal]
  change (if _ ∨ _ then none else some _) = _
  by_cases hreadable : timestamp.readable
  · rw [if_pos hreadable, if_neg (fun hbad => hiff.mp hbad hreadable), Int64.toInt64_toUInt64]
  · rw [if_neg hreadable, if_pos (hiff.mpr hreadable)]

theorem plainFields_sealFields {start : Bytes} (h : Plain start) (objectSeal : ObjectSeal) :
    PlainFields (sealFields start objectSeal) := by
  have hline {suffix : String} (hsuffix : Plain (ascii suffix)) (n : Nat) :
      Plain (start ++ ascii suffix) ∧ Plain (decimal n) :=
    ⟨plain_append.mpr ⟨h, hsuffix⟩, plain_decimal n⟩
  unfold sealFields PlainFields
  simp only [forall_mem_cons]
  refine ⟨hline (by decide) _, hline (by decide) _, hline (by decide) _, hline (by decide) _,
    hline (by decide) _, hline (by decide) _, hline (by decide) _, hline (by decide) _,
    hline (by decide) _, hline (by decide) _, hline (by decide) _, hline (by decide) _,
    hline (by decide) _, hline (by decide) _, ?_⟩
  intro field hfield
  cases hfield

variable {objectSeal : ObjectSeal}

theorem parseSeal_written {start : Bytes} (hstart : Plain start)
    (h : hasValidTimestamps objectSeal) (rest : Bytes) :
    parseSeal start (written (sealFields start objectSeal) ++ rest) =
      if objectSeal.readable = true then some (objectSeal, rest) else none := by
  unfold hasValidTimestamps at h
  rw [Bool.and_eq_true, Bool.and_eq_true] at h
  obtain ⟨⟨hbirth, hmodification⟩, hstatusChange⟩ := h
  have htake : takeFields (sealFieldNames start) (written (sealFields start objectSeal) ++ rest) =
      some ((sealFields start objectSeal).map Prod.snd, rest) :=
    takeFields_written (plainFields_sealFields hstart objectSeal) rest
  have hparse : parseSealValues ((sealFields start objectSeal).map Prod.snd) =
      if objectSeal.readable = true then some objectSeal else none := by
    unfold sealFields
    simp only [map_cons, map_nil]
    unfold parseSealValues ObjectSeal.readable
    simp only [parseUnsigned_decimal, parseUint32_decimal, parseTimestamp_decimal hbirth,
      parseTimestamp_decimal hmodification, parseTimestamp_decimal hstatusChange, Bool.and_eq_true]
    by_cases hall : (objectSeal.birthTime.readable ∧
        objectSeal.modificationTime.readable) ∧ objectSeal.statusChangeTime.readable
    · rw [if_pos hall.1.1, if_pos hall.1.2, if_pos hall.2, if_pos hall]
      rfl
    · rw [if_neg hall]
      by_cases hfirst : objectSeal.birthTime.readable
      · by_cases hsecond : objectSeal.modificationTime.readable
        · rw [if_neg (fun hthird => hall ⟨⟨hfirst, hsecond⟩, hthird⟩), if_pos hfirst, if_pos hsecond]
          rfl
        · rw [if_pos hfirst, if_neg hsecond]
          rfl
      · rw [if_neg hfirst]
        rfl
  unfold parseSeal
  rw [htake]
  change (parseSealValues _).bind _ = _
  rw [hparse]
  by_cases hreadable : objectSeal.readable
  · rw [if_pos hreadable, if_pos hreadable]
    rfl
  · rw [if_neg hreadable, if_neg hreadable]
    rfl

/-! ## Names and states -/

theorem plain_roleName (role : ArtifactRole) : Plain (roleName role) := by
  cases role <;> decide

theorem plain_stateName (state : RecordState) : Plain state.name := by
  cases state <;> decide

theorem parseRole_roleName (role : ArtifactRole) : parseRole (roleName role) = some role := by
  cases role <;> decide

theorem parseState_name (state : RecordState) : parseState state.name = some state := by
  cases state <;> decide

theorem decodeOctets_encodeHex {n : Nat} (octets : Octets n) :
    decodeOctets n (encodeHex octets.1) = some octets := by
  unfold decodeOctets
  rw [decodeHex_encodeHex, bind_some, dif_pos octets.2]

/-! ## Ledger records -/

/-- A record as the ledger writes it. -/
structure LedgerRecord (euid : UInt32) (root : RootIdentity) extends DecodedRecord where
  accepted : Accepts header.validate
  nonzero : isAllZero id.bytes.1 = false
  artifact : match state with
    | .reserved => artifactSeal = {}
    | .sealed => isValidArtifactSeal euid artifactSeal root.device = true

/-- The reader takes it. -/
def DecodedRecord.readable (record : DecodedRecord) : Bool :=
  match record.state with
  | .reserved => true
  | .sealed => record.artifactSeal.readable

variable (root : RootIdentity) {euid : UInt32}

variable (record : DecodedRecord)

theorem plainFields_recordHead : PlainFields (recordHeadFields root record) := by
  unfold PlainFields recordHeadFields
  simp only [forall_mem_cons]
  refine ⟨⟨by decide, by decide⟩, ⟨by decide, plain_decimal _⟩, ⟨by decide, plain_decimal _⟩,
    ⟨by decide, plain_encodeHex _⟩, ⟨by decide, plain_roleName _⟩, ⟨by decide, plain_encodeHex _⟩,
    ⟨by decide, plain_stateName _⟩, ?_⟩
  intro field hfield
  cases hfield

theorem plainFields_recordArtifact : PlainFields (recordArtifactFields record) := by
  unfold recordArtifactFields
  split
  · intro field hfield
    cases hfield
  · exact plainFields_sealFields (by decide) _

theorem sealFields_length_le (start : Bytes) (objectSeal : ObjectSeal) :
    (written (sealFields start objectSeal)).length ≤ 14 * (start.length + 39) := by
  have hline {suffix : String} (hsuffix : (ascii suffix).length ≤ 17) {n : Nat}
      (hn : (decimal n).length ≤ 20) :
      width (start ++ ascii suffix, decimal n) ≤ start.length + 39 := by
    change (start ++ ascii suffix).length + (decimal n).length + 2 ≤ _
    rw [length_append]
    omega
  have hwide {suffix : String} (hsuffix : (ascii suffix).length ≤ 17) (n : UInt64) :=
    hline hsuffix (decimal_length_le_of_uint64 n)
  have hnarrow {suffix : String} (hsuffix : (ascii suffix).length ≤ 17) (n : UInt32) :=
    hline hsuffix (Nat.le_trans (decimal_length_le_of_uint32 n) (by decide))
  suffices hwidth : ∀ field ∈ sealFields start objectSeal, field.width ≤ start.length + 39 from
    written_length_le hwidth
  unfold sealFields
  simp only [forall_mem_cons]
  refine ⟨hwide (by decide) _, hwide (by decide) _, hnarrow (by decide) _, hnarrow (by decide) _,
    hnarrow (by decide) _, hnarrow (by decide) _, hwide (by decide) _, hwide (by decide) _,
    hwide (by decide) _, hnarrow (by decide) _, hwide (by decide) _, hnarrow (by decide) _,
    hwide (by decide) _, hnarrow (by decide) _, ?_⟩
  intro field hfield
  cases hfield

theorem record_length_lt : (written (recordFields root record)).length < kRecordMaximumBytes := by
  have hrole : (roleName record.role).length ≤ 17 := by
    cases record.role <;> decide
  have hstate : record.state.name.length ≤ 8 := by
    cases record.state <;> decide
  have hdevice := decimal_length_le_of_uint64 root.device
  have hinode := decimal_length_le_of_uint64 root.inode
  have hcorrelation := encodeHex_length record.header.correlation.1
  rw [record.header.correlation.2] at hcorrelation
  have hartifact := encodeHex_length record.id.bytes.1
  rw [record.id.bytes.2] at hartifact
  have htail : (written (recordArtifactFields record)).length ≤ 672 := by
    unfold recordArtifactFields
    split
    · exact Nat.zero_le _
    · exact sealFields_length_le _ _
  unfold recordFields recordHeadFields
  rw [written_append, length_append, written_length]
  simp only [map_cons, map_nil, sum_cons, sum_nil, width, hcorrelation, hartifact]
  change 6 + 35 + 2 + (11 + _ + 2 + (10 + _ + 2 + (11 + 32 + 2 + (4 + _ + 2 +
    (8 + 64 + 2 + (5 + _ + 2 + 0)))))) + _ < 1024
  omega

/-- What has been built is read back, unless its seal holds a negative time. -/
theorem decodeRecord_written {root : RootIdentity} (record : LedgerRecord euid root) :
    decodeRecord euid root (written (recordFields root record.toDecodedRecord)) =
      if record.readable = true then some record.toDecodedRecord else none := by
  obtain ⟨record, haccepted, hnonzero, hartifact⟩ := record
  have hhead := plainFields_recordHead root record
  have hnoNul : (0 : UInt8) ∉ written (recordFields root record) :=
    written_noNul (plainFields_append.mpr ⟨hhead, plainFields_recordArtifact record⟩)
  have htake : takeFields recordHeadNames (written (recordFields root record)) =
      some ([kSchema, decimal root.device.toNat, decimal root.inode.toNat,
        encodeHex record.header.correlation.1, roleName record.role, encodeHex record.id.bytes.1,
        record.state.name], written (recordArtifactFields record)) := by
    unfold recordFields
    rw [written_append]
    exact takeFields_written hhead _
  have hheader : ({ correlation := record.header.correlation } : Header) = record.header := by
    rw [← (accepts_header_iff.mp haccepted).1]
  unfold decodeRecord
  simp only [bind_eq_bind]
  rw [guard_bind, if_pos hnoNul, htake, bind_some]
  unfold decodeRecordValues
  simp only [guard_bind, parseUnsigned_decimal, decodeOctets_encodeHex, parseRole_roleName,
    parseState_name, bind_eq_bind, bind_some, and_self, if_true]
  rw [if_pos hnonzero, hheader, if_pos haccepted]
  obtain ⟨header, role, id, state, artifactSeal⟩ := record
  cases state with
  | reserved =>
    have hdefault : artifactSeal = {} := hartifact
    rw [hdefault]
    rfl
  | sealed =>
    have hvalid : isValidArtifactSeal euid artifactSeal root.device := hartifact
    have htimes : hasValidTimestamps artifactSeal := by
      exact (Bool.and_eq_true _ _ ▸ hvalid).2
    have hparse := parseSeal_written (by decide : Plain (ascii "artifact_")) htimes []
    rw [append_nil] at hparse
    change (parseArtifactSeal euid root.device (written (sealFields _ artifactSeal))).bind _ =
      if artifactSeal.readable = true then _ else _
    unfold parseArtifactSeal
    rw [hparse]
    by_cases hreadable : artifactSeal.readable
    · rw [if_pos hreadable, if_pos hreadable]
      unfold Option.filter
      dsimp only
      rw [if_pos hvalid]
      rfl
    · rw [if_neg hreadable, if_neg hreadable]
      rfl

/-! ## Lifecycle manifests -/

/-- What `RecordStaged` has checked before it builds a manifest. -/
structure StagedFiles (euid : UInt32) where
  request : BeginRequest
  sourceRoot : RootIdentity
  destinationRoot : RootIdentity
  snapshotId : ArtifactID
  stageId : ArtifactID
  snapshotSeal : ObjectSeal
  stageSeal : ObjectSeal
  accepted : Accepts request.validate
  distinct : sourceRoot.device ≠ destinationRoot.device
  snapshotNonzero : isAllZero snapshotId.bytes.1 = false
  stageNonzero : isAllZero stageId.bytes.1 = false
  sourceDevice : request.source.device = sourceRoot.device
  destinationDevice : request.destinationParent.device = destinationRoot.device
  snapshotValid : isValidArtifactSeal euid snapshotSeal sourceRoot.device = true
  stageValid : isValidArtifactSeal euid stageSeal destinationRoot.device = true
  snapshotSize : snapshotSeal.byteSize = request.source.byteSize
  stageSize : stageSeal.byteSize = request.source.byteSize

/-- The manifest that `RecordStaged` writes. -/
def StagedFiles.manifest {euid : UInt32} (staged : StagedFiles euid) : LifecycleManifest :=
  { header := staged.request.header, sourceRoot := staged.sourceRoot,
    destinationRoot := staged.destinationRoot, sourceSnapshotId := staged.snapshotId,
    destinationStageId := staged.stageId, sourceSnapshotSeal := staged.snapshotSeal,
    destinationStageSeal := staged.stageSeal, sourceSeal := staged.request.source,
    destinationParentSeal := staged.request.destinationParent,
    destinationName := staged.request.destinationName.bytes }

def LifecycleManifest.sealsReadable (manifest : LifecycleManifest) : Bool :=
  manifest.sourceSnapshotSeal.readable && manifest.destinationStageSeal.readable &&
    manifest.sourceSeal.readable && manifest.destinationParentSeal.readable

def RootIdentity.nonzero (root : RootIdentity) : Bool := root.device != 0 && root.inode != 0

/-- The reader takes it: no time is negative, and no number of a root is zero. -/
def LifecycleManifest.readable (manifest : LifecycleManifest) : Bool :=
  manifest.sealsReadable && manifest.sourceRoot.nonzero && manifest.destinationRoot.nonzero

theorem accepts_begin_iff {request : BeginRequest} :
    Accepts request.validate ↔ Accepts request.header.validate ∧
      isValidDestinationComponentBytes request.destinationName.bytes ∧
      isValidObjectSeal request.source S_IFREG ∧
      isValidObjectSeal request.destinationParent S_IFDIR := by
  unfold Accepts BeginRequest.validate
  rw [seq_ok_iff, seq_ok_iff, seq_ok_iff, refuse_ok_iff, refuse_ok_iff, refuse_ok_iff,
    Bool.not_eq_false, Bool.not_eq_false, Bool.not_eq_false]

theorem hasValidTimestamps_of_objectSeal {expectedType : UInt32}
    (h : isValidObjectSeal objectSeal expectedType) : hasValidTimestamps objectSeal := by
  exact (Bool.and_eq_true _ _ ▸ h).2

theorem hasValidTimestamps_of_artifactSeal {rootDevice : UInt64}
    (h : isValidArtifactSeal euid objectSeal rootDevice) : hasValidTimestamps objectSeal := by
  exact (Bool.and_eq_true _ _ ▸ h).2

variable (staged : StagedFiles euid) (manifest : LifecycleManifest)

/-- What has been checked makes the manifest consistent, but for the numbers of the roots. -/
theorem StagedFiles.consistent_iff : staged.manifest.consistent euid =
      (staged.sourceRoot.nonzero && staged.destinationRoot.nonzero) := by
  obtain ⟨-, hname, -, -⟩ := accepts_begin_iff.mp staged.accepted
  have hrequest : staged.manifest.request = .ok staged.request := by
    unfold LifecycleManifest.request
    have hcreate : DestinationComponent.create staged.manifest.destinationName =
        .ok staged.request.destinationName := create_ok_iff.mpr ⟨hname, rfl⟩
    rw [hcreate]
    rfl
  have haccepts : Accepts (staged.manifest.request >>= BeginRequest.validate) := by
    rw [hrequest]
    exact staged.accepted
  unfold LifecycleManifest.consistent RootIdentity.nonzero
  change (!isAllZero staged.snapshotId.bytes.1 && !isAllZero staged.stageId.bytes.1 &&
    staged.sourceRoot.device != 0 && staged.sourceRoot.inode != 0 &&
    staged.destinationRoot.device != 0 && staged.destinationRoot.inode != 0 &&
    isValidArtifactSeal euid staged.snapshotSeal staged.sourceRoot.device &&
    isValidArtifactSeal euid staged.stageSeal staged.destinationRoot.device &&
    staged.snapshotSeal.byteSize == staged.request.source.byteSize &&
    staged.stageSeal.byteSize == staged.request.source.byteSize &&
    staged.request.source.device == staged.sourceRoot.device &&
    staged.request.destinationParent.device == staged.destinationRoot.device && _) = _
  rw [staged.snapshotNonzero, staged.stageNonzero, staged.snapshotValid, staged.stageValid,
    staged.snapshotSize, staged.stageSize, staged.sourceDevice, staged.destinationDevice,
    decide_eq_true haccepts]
  simp [Bool.true_and, Bool.and_true, Bool.and_assoc]

theorem plainFields_lifecycleHead : PlainFields (lifecycleHeadFields manifest) := by
  unfold PlainFields lifecycleHeadFields
  simp only [forall_mem_cons]
  refine ⟨⟨by decide, by decide⟩, ⟨by decide, plain_encodeHex _⟩, ⟨by decide, plain_decimal _⟩,
    ⟨by decide, plain_decimal _⟩, ⟨by decide, plain_decimal _⟩, ⟨by decide, plain_decimal _⟩,
    ⟨by decide, plain_encodeHex _⟩, ⟨by decide, plain_encodeHex _⟩, ?_⟩
  intro field hfield
  cases hfield

theorem plainFields_lifecycleTail (state : RecordState) :
    PlainFields (lifecycleTailFields manifest state) := by
  unfold PlainFields lifecycleTailFields
  simp only [forall_mem_cons]
  refine ⟨⟨by decide, plain_encodeHex _⟩, ⟨by decide, plain_stateName _⟩, ?_⟩
  intro field hfield
  cases hfield

theorem plainFields_lifecycle (state : RecordState) :
    PlainFields (lifecycleManifestFields manifest state) := by
  unfold lifecycleManifestFields
  simp only [plainFields_append]
  exact ⟨plainFields_lifecycleHead manifest, plainFields_sealFields (by decide) _,
    plainFields_sealFields (by decide) _, plainFields_sealFields (by decide) _,
    plainFields_sealFields (by decide) _, plainFields_lifecycleTail manifest state⟩

theorem lifecycle_length_lt {manifest : LifecycleManifest}
    (hname : manifest.destinationName.length ≤ kMaximumDestinationComponentBytes)
    (state : RecordState) :
    (written (lifecycleManifestFields manifest state)).length < kLifecycleManifestMaximumBytes := by
  have hstate : state.name.length ≤ 8 := by
    cases state <;> decide
  have hcorrelation := encodeHex_length manifest.header.correlation.1
  rw [manifest.header.correlation.2] at hcorrelation
  have hsnapshot := encodeHex_length manifest.sourceSnapshotId.bytes.1
  rw [manifest.sourceSnapshotId.bytes.2] at hsnapshot
  have hstage := encodeHex_length manifest.destinationStageId.bytes.1
  rw [manifest.destinationStageId.bytes.2] at hstage
  have hdestination := encodeHex_length manifest.destinationName
  have h1 := decimal_length_le_of_uint64 manifest.sourceRoot.device
  have h2 := decimal_length_le_of_uint64 manifest.sourceRoot.inode
  have h3 := decimal_length_le_of_uint64 manifest.destinationRoot.device
  have h4 := decimal_length_le_of_uint64 manifest.destinationRoot.inode
  have hhead : (written (lifecycleHeadFields manifest)).length ≤ 500 := by
    unfold lifecycleHeadFields
    rw [written_length]
    simp only [map_cons, map_nil, sum_cons, sum_nil, width, hcorrelation, hsnapshot, hstage]
    change 6 + 38 + 2 + (11 + 32 + 2 + (18 + _ + 2 + (17 + _ + 2 + (23 + _ + 2 + (22 + _ + 2 +
      (24 + 64 + 2 + (26 + 64 + 2 + 0))))))) ≤ 500
    omega
  have htail : (written (lifecycleTailFields manifest state)).length ≤ 543 := by
    unfold lifecycleTailFields
    rw [written_length]
    simp only [map_cons, map_nil, sum_cons, sum_nil, width, hdestination]
    change 16 + _ + 2 + (5 + _ + 2 + 0) ≤ 543
    change _ ≤ 255 at hname
    omega
  have hseals := And.intro (sealFields_length_le (ascii "source_snapshot_") manifest.sourceSnapshotSeal)
    (And.intro (sealFields_length_le (ascii "destination_stage_") manifest.destinationStageSeal)
    (And.intro (sealFields_length_le (ascii "source_") manifest.sourceSeal)
    (sealFields_length_le (ascii "destination_parent_") manifest.destinationParentSeal)))
  change _ ≤ 14 * (16 + 39) ∧ _ ≤ 14 * (18 + 39) ∧ _ ≤ 14 * (7 + 39) ∧ _ ≤ 14 * (19 + 39) at hseals
  unfold lifecycleManifestFields
  simp only [written_append, length_append]
  change _ < 4096
  omega

theorem decodeLifecycleDestinationName_encodeHex {name : Bytes}
    (h : isValidDestinationComponentBytes name) :
    decodeLifecycleDestinationName (encodeHex name) = some name := by
  unfold isValidDestinationComponentBytes at h
  split at h
  · cases h
  next hsize =>
  rw [not_or] at hsize
  have hlength := encodeHex_length name
  have hpos : 0 < name.length := length_pos_iff.mpr hsize.1
  have hnot : ¬(encodeHex name = [] ∨ (encodeHex name).length % 2 ≠ 0 ∨
      (encodeHex name).length / 2 > kMaximumDestinationComponentBytes) := by
    rintro (hnil | hodd | hlong)
    · rw [hnil] at hlength
      change 0 = _ at hlength
      omega
    · omega
    · omega
  unfold decodeLifecycleDestinationName
  rw [if_neg hnot, decodeHex_encodeHex]

/-- The values before the seals are read back. -/
theorem decodeLifecycleHead_values {manifest : LifecycleManifest}
    (hversion : manifest.header.version = kProtocolVersion) :
    decodeLifecycleHead ((lifecycleHeadFields manifest).map Prod.snd) =
      some { header := manifest.header, sourceRoot := manifest.sourceRoot,
             destinationRoot := manifest.destinationRoot,
             sourceSnapshotId := manifest.sourceSnapshotId,
             destinationStageId := manifest.destinationStageId } := by
  have hheader : ({ correlation := manifest.header.correlation } : Header) = manifest.header := by
    rw [← hversion]
  unfold lifecycleHeadFields
  simp only [map_cons, map_nil]
  unfold decodeLifecycleHead
  simp only [guard_bind, parseUnsigned_decimal, decodeOctets_encodeHex, bind_eq_bind,
    bind_some, if_true, hheader]
  rfl

/-- What has been built is read back, unless a seal holds a negative time or a root a zero. -/
theorem decodeLifecycleManifest_written (state : RecordState) :
    decodeLifecycleManifest euid (written (lifecycleManifestFields staged.manifest state)) =
      if staged.manifest.readable = true then some (staged.manifest, state) else none := by
  obtain ⟨hheader, hname, hsource, hparent⟩ := accepts_begin_iff.mp staged.accepted
  have hhead := takeFields_written (plainFields_lifecycleHead staged.manifest)
  have htail := takeFields_written (plainFields_lifecycleTail staged.manifest state) []
  have hsnapshot := parseSeal_written (by decide : Plain (ascii "source_snapshot_"))
    (hasValidTimestamps_of_artifactSeal staged.snapshotValid)
  have hstage := parseSeal_written (by decide : Plain (ascii "destination_stage_"))
    (hasValidTimestamps_of_artifactSeal staged.stageValid)
  have hsourceSeal := parseSeal_written (by decide : Plain (ascii "source_"))
    (hasValidTimestamps_of_objectSeal hsource)
  have hparentSeal := parseSeal_written (by decide : Plain (ascii "destination_parent_"))
    (hasValidTimestamps_of_objectSeal hparent)
  have hdecodeTail : decodeLifecycleTail ((lifecycleTailFields staged.manifest state).map Prod.snd) =
      some (staged.manifest.destinationName, state) := by
    change (decodeLifecycleDestinationName (encodeHex staged.request.destinationName.bytes)).bind _ = _
    rw [decodeLifecycleDestinationName_encodeHex hname, bind_some, parseState_name]
    rfl
  rw [append_nil] at htail
  unfold decodeLifecycleManifest
  simp only [bind_eq_bind]
  rw [guard_bind, if_pos (written_noNul (plainFields_lifecycle _ _))]
  unfold lifecycleManifestFields
  simp only [written_append]
  change (takeFields ((lifecycleHeadFields staged.manifest).map Prod.fst) _).bind _ = _
  rw [hhead, bind_some]
  dsimp only
  rw [decodeLifecycleHead_values (accepts_header_iff.mp hheader).1, bind_some]
  change (parseSeal _ (written (sealFields _ staged.snapshotSeal) ++ _)).bind _ = _
  rw [hsnapshot, ite_some_bind]
  change (if _ then (parseSeal _ (written (sealFields _ staged.stageSeal) ++ _)).bind _ else _) = _
  rw [hstage, ite_some_bind]
  change (if _ then if _ then
    (parseSeal _ (written (sealFields _ staged.request.source) ++ _)).bind _ else _ else _) = _
  rw [hsourceSeal, ite_some_bind]
  change (if _ then if _ then if _ then
    (parseSeal _ (written (sealFields _ staged.request.destinationParent) ++ _)).bind _
    else _ else _ else _) = _
  rw [hparentSeal, ite_some_bind]
  change (if _ then if _ then if _ then if _ then
    (takeFields ((lifecycleTailFields staged.manifest state).map Prod.fst) _).bind _
    else _ else _ else _ else _) = _
  rw [htail, bind_some]
  dsimp only
  rw [hdecodeTail, guard_bind, if_pos rfl, bind_some, guard_bind, ← ite_and, ← ite_and, ← ite_and, ← ite_and]
  refine if_congr ?_ rfl rfl
  change ((_ ∧ _) ∧ _) ∧ staged.manifest.consistent euid ↔ _
  rw [staged.consistent_iff]
  unfold LifecycleManifest.readable LifecycleManifest.sealsReadable
  simp only [Bool.and_eq_true, and_assoc]
  rfl

/-! ## Both codecs -/

theorem buildRecordContents_eq :
    buildRecordContents root record = some (written (recordFields root record)) := by
  have hlength := record_length_lt root record
  exact appendFields_of_le (Nat.le_of_lt hlength)

theorem buildLifecycleManifestContents_eq (state : RecordState) :
    buildLifecycleManifestContents staged.manifest state =
      some (written (lifecycleManifestFields staged.manifest state)) := by
  obtain ⟨-, hname, -, -⟩ := accepts_begin_iff.mp staged.accepted
  have hsize : staged.manifest.destinationName.length ≤ kMaximumDestinationComponentBytes := by
    unfold isValidDestinationComponentBytes at hname
    split at hname
    · cases hname
    · next hbounds => exact Nat.not_lt.mp fun hlong => hbounds (.inr hlong)
  have hlength := lifecycle_length_lt hsize state
  unfold buildLifecycleManifestContents
  rw [appendFields_of_le (Nat.le_of_lt hlength)]
  unfold Option.filter
  dsimp only
  rw [nil_append, if_pos (decide_eq_true hlength)]

/-- A manifest and a record are always written; they are read back exactly when they are readable,
and refused when they are not. -/
theorem ledgerCodec_exact (euid : UInt32) :
    (∀ (staged : StagedFiles euid) (state : RecordState), ∃ contents,
      buildLifecycleManifestContents staged.manifest state = some contents ∧
      (decodeLifecycleManifest euid contents = some (staged.manifest, state) ↔
        staged.manifest.readable = true) ∧
      (decodeLifecycleManifest euid contents = none ↔ staged.manifest.readable = false)) ∧
    ∀ (root : RootIdentity) (record : LedgerRecord euid root), ∃ contents,
      buildRecordContents root record.toDecodedRecord = some contents ∧
      contents.length < kRecordMaximumBytes ∧
      (decodeRecord euid root contents = some record.toDecodedRecord ↔ record.readable = true) ∧
      (decodeRecord euid root contents = none ↔ record.readable = false) := by
  refine ⟨fun staged state => ⟨_, buildLifecycleManifestContents_eq staged state, ?_⟩,
    fun root record => ⟨_, buildRecordContents_eq root record.toDecodedRecord,
      record_length_lt root record.toDecodedRecord, ?_⟩⟩
  · rw [decodeLifecycleManifest_written staged state]
    cases staged.manifest.readable
    · exact ⟨⟨fun h => (nomatch h), fun h => (nomatch h)⟩, ⟨fun _ => rfl, fun _ => rfl⟩⟩
    · exact ⟨⟨fun _ => rfl, fun _ => rfl⟩, ⟨fun h => (nomatch h), fun h => (nomatch h)⟩⟩
  · rw [decodeRecord_written record]
    cases record.readable
    · exact ⟨⟨fun h => (nomatch h), fun h => (nomatch h)⟩, ⟨fun _ => rfl, fun _ => rfl⟩⟩
    · exact ⟨⟨fun _ => rfl, fun _ => rfl⟩, ⟨fun h => (nomatch h), fun h => (nomatch h)⟩⟩

/-- A source that was last modified one second before 1970. -/
def statBefore1970 : Stat :=
  { device := 1, inode := 10, uid := 501, gid := 20, mode := 0x81A4, flags := 0, linkCount := 1,
    size := 5, birthTime := ⟨-1, 0⟩, modificationTime := ⟨-1, 0⟩, statusChangeTime := ⟨0, 0⟩ }

/-- Its staging, with everything else as usual. -/
def stagedBefore1970 : StagedFiles 501 where
  request :=
    { header := { correlation := ⟨List.replicate 16 1, rfl⟩ }
      source :=
        { device := 1, inode := 10, uid := 501, gid := 20, mode := 0x81A4, linkCount := 1,
          byteSize := 5, birthTime := ⟨-1, 0⟩, modificationTime := ⟨-1, 0⟩ }
      destinationParent := { device := 2, inode := 7, mode := 0x41ED, linkCount := 2 }
      destinationName := ⟨ascii "a", .inr rfl⟩ }
  sourceRoot := ⟨1, 3⟩
  destinationRoot := ⟨2, 4⟩
  snapshotId := ⟨⟨List.replicate 32 1, rfl⟩⟩
  stageId := ⟨⟨List.replicate 32 2, rfl⟩⟩
  snapshotSeal := { device := 1, inode := 11, uid := 501, mode := 0x8180, linkCount := 1, byteSize := 5 }
  stageSeal := { device := 2, inode := 12, uid := 501, mode := 0x8180, linkCount := 1, byteSize := 5 }
  accepted := by decide
  distinct := by decide
  snapshotNonzero := by decide
  stageNonzero := by decide
  sourceDevice := rfl
  destinationDevice := rfl
  snapshotValid := by decide
  stageValid := by decide
  snapshotSize := rfl
  stageSize := rfl

/-- The manifest of a source from before 1970 is written, and never read again. -/
theorem ledgerCodec_before1970 :
    sealFromStat statBefore1970 = some stagedBefore1970.request.source ∧
    (buildLifecycleManifestContents stagedBefore1970.manifest .sealed).isSome = true ∧
    (buildLifecycleManifestContents stagedBefore1970.manifest .sealed).bind
      (decodeLifecycleManifest 501) = none := by
  have hunreadable : ¬stagedBefore1970.manifest.readable := by decide
  refine ⟨by decide, ?_, ?_⟩
  · rw [buildLifecycleManifestContents_eq]
    rfl
  · rw [buildLifecycleManifestContents_eq, bind_some, decodeLifecycleManifest_written,
      if_neg hunreadable]

end WinCommander.Staging
