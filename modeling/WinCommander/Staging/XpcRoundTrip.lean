/-
  The staging codec is exact: what a decoder takes is what the encoder makes, and nothing else.

  For each level of a message one equivalence is proved, from the inside out: the decoder
  returns `x` exactly when the dictionary is the one that `x` is encoded to. Both directions
  of the round trip, and that the decoders do not overlap, follow.
-/
import WinCommander.Staging.XpcCodec

namespace WinCommander.Staging

open Library List XpcValue IsEmpty TypedMap

/-! ## Fields -/

section

variable {δ : Type} {dictionary : TypedMap (XpcValue δ)} {key : String}

theorem valueWithType_eq_some_iff {make : α → XpcValue δ}
    (h : ∀ value a, ofType value = some a ↔ value = make a) :
    valueWithType dictionary key ofType = some a ↔ dictionary.lookup key = some (make a) := by
  unfold valueWithType
  rw [Option.bind_eq_some_iff]
  constructor
  · rintro ⟨value, hlookup, hvalue⟩
    rw [hlookup, (h value a).mp hvalue]
  · intro hlookup
    exact ⟨make a, hlookup, (h (make a) a).mpr rfl⟩

theorem uint64Value_ok_iff :
    uint64Value dictionary key = .ok value ↔ dictionary.lookup key = some (.uint64 value) :=
  demand_ok_iff.trans <| valueWithType_eq_some_iff fun value a => by
    cases value <;> simp [uint64?]

theorem int64Value_ok_iff :
    int64Value dictionary key = .ok value ↔ dictionary.lookup key = some (.int64 value) :=
  demand_ok_iff.trans <| valueWithType_eq_some_iff fun value a => by
    cases value <;> simp [int64?]

theorem dataValue_ok_iff :
    dataValue dictionary key = .ok bytes ↔ dictionary.lookup key = some (.data bytes) :=
  demand_ok_iff.trans <| valueWithType_eq_some_iff fun value a => by
    cases value <;> simp [data?]

theorem dictionaryValue_ok_iff : dictionaryValue dictionary key = .ok members ↔
      dictionary.lookup key = some (.dictionary members) :=
  demand_ok_iff.trans <| valueWithType_eq_some_iff fun value a => by
    cases value <;> simp [dictionary?]

theorem fdValue_ok_iff :
    fdValue dictionary key = .ok right ↔ dictionary.lookup key = some (.fd right) :=
  demand_ok_iff.trans <| valueWithType_eq_some_iff fun value a => by
    cases value <;> simp [fd?]

theorem fixedDataValue_ok_iff : fixedDataValue dictionary key n = .ok octets ↔
      dictionary.lookup key = some (.data octets.1) := by
  unfold fixedDataValue
  rw [bind_ok_iff]
  constructor
  · rintro ⟨bytes, hdata, hlength⟩
    split at hlength
    · cases hlength
      exact dataValue_ok_iff.mp hdata
    · cases hlength
  · intro hlookup
    refine ⟨octets.1, dataValue_ok_iff.mpr hlookup, ?_⟩
    rw [dif_pos octets.2]

/-- Nothing is lost where a value fits. -/
theorem narrowed_ok_iff : narrowed value = .ok narrow ↔ value = narrow.toUInt64 := by
  unfold narrowed
  constructor
  · intro h
    split at h
    · cases h
    · next hfits =>
        cases h
        rw [UInt64.toUInt64_toUInt32]
        have hle : value.toNat ≤ 0xFFFFFFFF :=
          UInt64.le_iff_toNat_le.mp (UInt64.not_lt.mp hfits)
        refine UInt64.toNat_inj.mp ?_
        exact (Nat.mod_eq_of_lt (Nat.lt_succ_of_le hle)).symm
  · rintro rfl
    have hfits : narrow.toUInt64 ≤ 0xFFFFFFFF :=
      UInt64.le_iff_toNat_le.mpr (Nat.le_of_lt_succ narrow.toNat_lt)
    rw [if_neg (UInt64.not_lt.mpr hfits), UInt32.toUInt32_toUInt64]

theorem narrowedSigned_ok_iff : narrowedSigned value = .ok narrow ↔ value = narrow.toInt64 := by
  unfold narrowedSigned
  constructor
  · intro h
    split at h
    · cases h
    · next hfits =>
        cases h
        rw [not_or, Int64.not_lt, Int64.not_lt] at hfits
        refine Int64.toInt_inj.mp ?_
        have hlow : -2147483648 ≤ value.toInt := Int64.le_iff_toInt_le.mp hfits.1
        have hhigh : value.toInt ≤ 2147483647 := Int64.le_iff_toInt_le.mp hfits.2
        rw [Int32.toInt_toInt64, Int64.toInt_toInt32]
        exact (Int.bmod_eq_of_le hlow (by omega)).symm
  · rintro rfl
    have hlow := narrow.le_toInt
    have hhigh := narrow.toInt_lt
    rw [if_neg, Int32.toInt32_toInt64]
    rw [not_or, Int64.not_lt, Int64.not_lt, Int64.le_iff_toInt_le, Int64.le_iff_toInt_le,
      Int32.toInt_toInt64]
    exact ⟨hlow, Int.le_of_lt_add_one hhigh⟩

theorem getElem?_eq_some_iff_idxOf [DecidableEq ε] {enumerators : List ε}
    (hnodup : enumerators.Nodup) (hmem : enumerator ∈ enumerators) :
    enumerators[i]? = some enumerator ↔ i = enumerators.idxOf enumerator := by
  constructor
  · intro h
    obtain ⟨hi, rfl⟩ := List.getElem?_eq_some_iff.mp h
    exact (hnodup.idxOf_getElem i hi).symm
  · rintro rfl
    exact List.getElem?_idxOf hmem

/-- Every enumerator once, and few enough to be numbered. -/
def Enumerates {ε : Type} (enumerators : List ε) : Prop :=
  enumerators.Nodup ∧ (∀ enumerator, enumerator ∈ enumerators) ∧ enumerators.length < 2 ^ 64

theorem decodeEnum_ok_iff [DecidableEq ε] {enumerators : List ε}
    (henumerates : Enumerates enumerators) :
    decodeEnum dictionary key enumerators = .ok enumerator ↔
      dictionary.lookup key = some (.uint64 (enumValue enumerators enumerator)) := by
  obtain ⟨hnodup, hall, hshort⟩ := henumerates
  have hmem := hall enumerator
  have hindex : (enumValue enumerators enumerator).toNat = enumerators.idxOf enumerator :=
    UInt64.toNat_ofNat_of_lt' ((idxOf_lt_length_of_mem hmem).trans hshort)
  unfold decodeEnum
  rw [bind_ok_iff]
  constructor
  · rintro ⟨value, hvalue, hfound⟩
    have helem : enumerators[value.toNat]? = some enumerator := by
      split at hfound
      · next found hget =>
          cases hfound
          exact hget
      · cases hfound
    have hidx := (getElem?_eq_some_iff_idxOf hnodup hmem).mp helem
    rw [uint64Value_ok_iff.mp hvalue, UInt64.toNat_inj.mp (hidx.trans hindex.symm)]
  · intro hlookup
    refine ⟨_, uint64Value_ok_iff.mpr hlookup, ?_⟩
    rw [hindex, List.getElem?_idxOf hmem]

end

/-! ## Timestamps and seals -/

theorem decodeTimestamp_ok_iff :
    decodeTimestamp object = .ok timestamp ↔ object = encodeTimestamp timestamp := by
  obtain ⟨seconds, nanoseconds⟩ := timestamp
  unfold decodeTimestamp encodeTimestamp
  rw [eq_ofMembers_iff kTimestampFields rfl (by decide)]
  simp [bind_ok_iff, refuse_ok_iff, uint64Value_ok_iff, int64Value_ok_iff, narrowed_ok_iff, pure_ok, Timestamp.mk.injEq]

theorem decodeSeal_ok_iff : decodeSeal object = .ok value ↔ object = encodeSeal value := by
  obtain ⟨device, inode, uid, gid, mode, flags, linkCount, byteSize, birthTime, modificationTime,
    statusChangeTime⟩ := value
  unfold decodeSeal encodeSeal
  rw [eq_ofMembers_iff kSealFields rfl (by decide)]
  simp [bind_ok_iff, refuse_ok_iff, uint64Value_ok_iff, dictionaryValue_ok_iff, mapError_ok_iff, narrowed_ok_iff, decodeTimestamp_ok_iff, pure_ok, ObjectSeal.mk.injEq]

/-! ## Headers and requests with a lease -/

variable {dictionary : Message} {object : XpcValue Message}
  {members : List (String × XpcValue SealObject)}

theorem decodeHeader_ok_iff : decodeHeader dictionary kind = .ok header ↔
      (∀ member ∈ envelope kind header, dictionary.lookup member.1 = some member.2) ∧
        Accepts header.validate := by
  obtain ⟨version, correlation⟩ := header
  unfold decodeHeader envelope
  simp only [bind_ok_iff, refuse_ok_iff, uint64Value_ok_iff, mapError_ok_iff, narrowed_ok_iff,
    fixedDataValue_ok_iff, pure_ok, Except.ok.injEq, Header.mk.injEq, forall_mem_cons, not_mem_nil,
    forall_iff, implies_true, not_not, existsAndEq, exists_const, and_true, true_and, and_assoc]

theorem exactDictionary_ok_iff : exactDictionary object fields = .ok dictionary ↔
      object = .dictionary dictionary ∧ dictionary.hasExactFields fields := by
  unfold exactDictionary
  cases object with
  | dictionary found =>
    simp only [bind_ok_iff, refuse_ok_iff, pure_ok, Except.ok.injEq, Bool.not_eq_false,
      XpcValue.dictionary.injEq, exists_const]
    constructor
    · rintro ⟨hexact, rfl⟩
      exact ⟨rfl, hexact⟩
    · rintro ⟨rfl, hexact⟩
      exact ⟨hexact, rfl⟩
  | uint64 | int64 | data | fd | other => simp

/-- The dictionaries with these fields, this envelope and the members that the kind adds. -/
theorem eq_message_iff (fields : List String)
    (hfields : ["kind", "version", "correlation"] ++ members.map Prod.fst = fields)
    (hnodup : fields.Nodup) : dictionary = .ofMembers (envelope kind header ++ members) ↔
      dictionary.hasExactFields fields ∧
        (∀ member ∈ envelope kind header, dictionary.lookup member.1 = some member.2) ∧
        ∀ member ∈ members, dictionary.lookup member.1 = some member.2 := by
  rw [eq_ofMembers_iff fields (by rw [map_append, ← hfields]; rfl) hnodup, forall_mem_append]

theorem encodeLeaseRequest_ok_iff : encodeLeaseRequest request kind = .ok dictionary ↔
      Accepts (validateRequestWithLease request.header request.lease) ∧
        dictionary = .ofMembers (envelope kind request.header ++
          [("lease-token", .data request.lease.token.bytes.1)]) := by
  unfold encodeLeaseRequest
  rw [seq_ok_iff, refuse_ok_iff, not_not, pure_ok, Except.ok.injEq, eq_comm (b := dictionary)]

theorem decodeLeaseRequest_ok_iff : decodeLeaseRequest object kind = .ok request ↔
      ∃ dictionary, object = .dictionary dictionary ∧
        encodeLeaseRequest request kind = .ok dictionary := by
  obtain ⟨header, leaseHeader, ⟨token⟩⟩ := request
  unfold decodeLeaseRequest
  rw [bind_ok_iff]
  refine exists_congr fun dictionary => ?_
  rw [exactDictionary_ok_iff, encodeLeaseRequest_ok_iff, and_assoc,
    eq_message_iff kLeaseRequestFields rfl (by decide)]
  simp only [bind_ok_iff, refuse_ok_iff, decodeHeader_ok_iff, fixedDataValue_ok_iff, pure_ok,
    Except.ok.injEq, LeaseRequest.mk.injEq, Lease.mk.injEq, LeaseToken.mk.injEq, not_not,
    accepts_request_iff, forall_mem_singleton, existsAndEq, exists_const, and_true, true_and,
    and_assoc]
  constructor
  · rintro ⟨hobject, hexact, henvelope, hheader, hmember, -, htoken, hsame⟩
    exact ⟨hobject, hheader, htoken, hsame, hexact, henvelope, hmember⟩
  · rintro ⟨hobject, hheader, htoken, hsame, hexact, henvelope, hmember⟩
    exact ⟨hobject, hexact, henvelope, hheader, hmember, hheader, htoken, hsame⟩

theorem decodeCommit_ok_iff : decodeCommit object = .ok request ↔
      ∃ dictionary, object = .dictionary dictionary ∧ encodeCommit request = .ok dictionary := by
  unfold decodeCommit encodeCommit
  rw [← decodeLeaseRequest_ok_iff, map_ok_iff]
  constructor
  · rintro ⟨found, hfound, rfl⟩
    exact hfound
  · intro hfound
    exact ⟨_, hfound, rfl⟩

theorem decodeAbort_ok_iff : decodeAbort object = .ok request ↔
      ∃ dictionary, object = .dictionary dictionary ∧ encodeAbort request = .ok dictionary := by
  unfold decodeAbort encodeAbort
  rw [← decodeLeaseRequest_ok_iff, map_ok_iff]
  constructor
  · rintro ⟨found, hfound, rfl⟩
    exact hfound
  · intro hfound
    exact ⟨_, hfound, rfl⟩

/-! ## `Begin` -/

/-- Open, and not one and the same. -/
def BeginDescriptors.Usable (descriptors : BeginDescriptors) : Prop :=
  0 ≤ descriptors.sourceFd ∧ 0 ≤ descriptors.destinationParentFd ∧
    descriptors.sourceFd ≠ descriptors.destinationParentFd

/-- What is set for a request and the rights to its two files. -/
def beginMembers (request : BeginRequest) (sourceRight destinationParentRight : Nat) :
    List (String × XpcValue SealObject) :=
  [("source-seal", .dictionary (encodeSeal request.source)),
    ("destination-parent-seal", .dictionary (encodeSeal request.destinationParent)),
    ("destination-name", .data request.destinationName.bytes),
    ("source-fd", .fd sourceRight), ("destination-parent-fd", .fd destinationParentRight)]

variable {request : BeginRequest} {result : BeginResult}

theorem eq_beginMessage_iff : dictionary = .ofMembers (envelope .begin request.header ++
        beginMembers request sourceRight destinationParentRight) ↔
      dictionary.hasExactFields kBeginFields ∧ (∀ member ∈ envelope .begin request.header,
          dictionary.lookup member.1 = some member.2) ∧
        dictionary.lookup "source-seal" = some (.dictionary (encodeSeal request.source)) ∧
        dictionary.lookup "destination-parent-seal" =
          some (.dictionary (encodeSeal request.destinationParent)) ∧
        dictionary.lookup "destination-name" = some (.data request.destinationName.bytes) ∧
        dictionary.lookup "source-fd" = some (.fd sourceRight) ∧
        dictionary.lookup "destination-parent-fd" = some (.fd destinationParentRight) := by
  rw [eq_message_iff kBeginFields rfl (by decide)]
  simp [beginMembers]

theorem encodeBegin_ok_iff : encodeBegin right request descriptors = .ok dictionary ↔
      Accepts request.validate ∧ descriptors.Usable ∧
        dictionary = .ofMembers (envelope .begin request.header ++
          beginMembers request (right descriptors.sourceFd)
            (right descriptors.destinationParentFd)) := by
  unfold encodeBegin BeginDescriptors.Usable
  rw [seq_ok_iff, refuse_ok_iff, pure_ok, Except.ok.injEq, eq_comm (b := dictionary)]
  simp [not_or, not_lt, and_assoc, beginMembers]

theorem accepts_begin_imp (h : Accepts request.validate) : Accepts request.header.validate ∧
      isValidDestinationComponentBytes request.destinationName.bytes := by
  unfold Accepts BeginRequest.validate at h
  rw [seq_ok_iff, seq_ok_iff, refuse_ok_iff, Bool.not_eq_false] at h
  exact ⟨h.1, h.2.1⟩

variable {duplicates : BeginDescriptors}

theorem decodeBegin_ok_iff : decodeBegin object duplicates = .ok decoded ↔
      ∃ dictionary, object = .dictionary dictionary ∧
        Accepts decoded.request.validate ∧ duplicates.Usable ∧ decoded.descriptors = duplicates ∧
        ∃ sourceRight destinationParentRight,
          dictionary = .ofMembers (envelope .begin decoded.request.header ++
            beginMembers decoded.request sourceRight destinationParentRight) := by
  obtain ⟨⟨header, source, destinationParent, destinationName⟩, descriptors⟩ := decoded
  unfold decodeBegin
  rw [bind_ok_iff]
  refine exists_congr fun dictionary => ?_
  simp only [exactDictionary_ok_iff, bind_ok_iff, refuse_ok_iff, decodeHeader_ok_iff,
    dictionaryValue_ok_iff, dataValue_ok_iff, mapError_ok_iff, decodeSeal_ok_iff, create_ok_iff,
    fdValue_ok_iff, pure_ok, Except.ok.injEq, DecodedBegin.mk.injEq, BeginRequest.mk.injEq, not_not,
    not_lt, existsAndEq, exists_const, true_and, and_assoc]
  constructor
  · rintro ⟨hobject, hexact, sourceRight, parentRight, henvelope, -, hsource, hparent, hname, -,
      hsourceFd, hparentFd, haccepts, hopen, hparentOpen, hdistinct, rfl⟩
    exact ⟨hobject, haccepts, ⟨hopen, hparentOpen, hdistinct⟩, rfl, sourceRight, parentRight,
      eq_beginMessage_iff.mpr
        ⟨hexact, henvelope, hsource, hparent, hname, hsourceFd, hparentFd⟩⟩
  · rintro ⟨hobject, haccepts, ⟨hopen, hparentOpen, hdistinct⟩, rfl, sourceRight, parentRight,
      hmessage⟩
    obtain ⟨hexact, henvelope, hsource, hparent, hname, hsourceFd, hparentFd⟩ :=
      eq_beginMessage_iff.mp hmessage
    obtain ⟨hheader, hvalid⟩ := accepts_begin_imp haccepts
    exact ⟨hobject, hexact, sourceRight, parentRight, henvelope, hheader, hsource, hparent, hname,
      hvalid, hsourceFd, hparentFd, haccepts, hopen, hparentOpen, hdistinct, rfl⟩

/-! ## Results -/

theorem populate_empty_ok_iff :
    populate (.dictionary ∅) members = .ok dictionary ↔ dictionary = .ofMembers members := by
  have hempty : (∅ : Message).keys.card = 0 := rfl
  unfold populate ofMembers
  dsimp only
  rw [if_neg (not_not.mpr hempty), Except.ok.injEq, eq_comm]

theorem accepts_beginResult_imp (h : Accepts result.validate) : Accepts result.header.validate := by
  unfold Accepts BeginResult.validate at h
  rw [seq_ok_iff] at h
  exact h.1

theorem accepts_completionResult_imp {result : CompletionResult} (h : Accepts result.validate) :
    Accepts result.header.validate := by
  unfold Accepts CompletionResult.validate at h
  rw [seq_ok_iff] at h
  exact h.1

def beginResultMembers (result : BeginResult) : List (String × XpcValue SealObject) :=
  [("disposition", .uint64 (enumValue beginDispositions result.disposition)),
    ("failure", .uint64 (enumValue beginFailures result.failure)),
    ("lease-token", .data result.lease.token.bytes.1)]

theorem encodeBeginResult_ok_iff :
    encodeBeginResult result = .ok dictionary ↔ Accepts result.validate ∧
      dictionary = .ofMembers (envelope .beginResult result.header ++ beginResultMembers result) := by
  unfold encodeBeginResult populateBeginResultReply beginResultMembers
  rw [seq_ok_iff, seq_ok_iff, refuse_ok_iff, not_not, populate_empty_ok_iff]
  constructor
  · rintro ⟨haccepts, -, hmessage⟩
    exact ⟨haccepts, hmessage⟩
  · rintro ⟨haccepts, hmessage⟩
    exact ⟨haccepts, haccepts, hmessage⟩

theorem eq_beginResultMessage_iff :
    dictionary = .ofMembers (envelope .beginResult result.header ++ beginResultMembers result) ↔
      dictionary.hasExactFields kBeginResultFields ∧
        (∀ member ∈ envelope .beginResult result.header,
          dictionary.lookup member.1 = some member.2) ∧ dictionary.lookup "disposition" =
          some (.uint64 (enumValue beginDispositions result.disposition)) ∧
        dictionary.lookup "failure" = some (.uint64 (enumValue beginFailures result.failure)) ∧
        dictionary.lookup "lease-token" = some (.data result.lease.token.bytes.1) := by
  rw [eq_message_iff kBeginResultFields rfl (by decide)]
  simp [beginResultMembers]

theorem enumerates_beginDispositions : Enumerates beginDispositions :=
  ⟨by decide, fun disposition => by cases disposition <;> decide, by decide⟩

theorem enumerates_beginFailures : Enumerates beginFailures :=
  ⟨by decide, fun failure => by cases failure <;> decide, by decide⟩

/-- A decoded lease carries the header of its message. -/
theorem decodeBeginResult_ok_iff : decodeBeginResult object = .ok result ↔
      ∃ dictionary, object = .dictionary dictionary ∧ encodeBeginResult result = .ok dictionary ∧
        result.lease.header = result.header := by
  obtain ⟨header, disposition, failure, ⟨leaseHeader, ⟨token⟩⟩⟩ := result
  unfold decodeBeginResult
  rw [bind_ok_iff]
  refine exists_congr fun dictionary => ?_
  simp only [exactDictionary_ok_iff, encodeBeginResult_ok_iff, bind_ok_iff, refuse_ok_iff,
    decodeHeader_ok_iff, decodeEnum_ok_iff enumerates_beginDispositions,
    decodeEnum_ok_iff enumerates_beginFailures, mapError_ok_iff, fixedDataValue_ok_iff, pure_ok,
    Except.ok.injEq, BeginResult.mk.injEq, Lease.mk.injEq, LeaseToken.mk.injEq, not_not,
    existsAndEq, exists_const, true_and, and_true, and_assoc]
  constructor
  · rintro ⟨hobject, hexact, henvelope, -, hdisposition, hfailure, htoken, haccepts, rfl⟩
    exact ⟨hobject, haccepts,
      eq_beginResultMessage_iff.mpr ⟨hexact, henvelope, hdisposition, hfailure, htoken⟩, rfl⟩
  · rintro ⟨hobject, haccepts, hmessage, rfl⟩
    obtain ⟨hexact, henvelope, hdisposition, hfailure, htoken⟩ :=
      eq_beginResultMessage_iff.mp hmessage
    exact ⟨hobject, hexact, henvelope, accepts_beginResult_imp haccepts, hdisposition, hfailure,
      htoken, haccepts, rfl⟩

def completionResultMembers (result : CompletionResult) : List (String × XpcValue SealObject) :=
  [("publication", .uint64 (enumValue publications result.publication)),
    ("failure", .uint64 (enumValue completionFailures result.failure)),
    ("system-error", .int64 result.systemError.toInt64),
    ("filesystem-sync", .uint64 (enumValue filesystemSyncs result.filesystemSync)),
    ("filesystem-sync-system-error", .int64 result.filesystemSyncSystemError.toInt64)]

theorem encodeCompletionResult_ok_iff {result : CompletionResult} :
    encodeCompletionResult result = .ok dictionary ↔ Accepts result.validate ∧
      dictionary = .ofMembers (envelope .completionResult result.header ++
        completionResultMembers result) := by
  unfold encodeCompletionResult populateCompletionResultReply completionResultMembers
  rw [seq_ok_iff, seq_ok_iff, refuse_ok_iff, not_not, populate_empty_ok_iff]
  constructor
  · rintro ⟨haccepts, -, hmessage⟩
    exact ⟨haccepts, hmessage⟩
  · rintro ⟨haccepts, hmessage⟩
    exact ⟨haccepts, haccepts, hmessage⟩

theorem eq_completionResultMessage_iff {result : CompletionResult} :
    dictionary = .ofMembers (envelope .completionResult result.header ++
        completionResultMembers result) ↔ dictionary.hasExactFields kCompletionResultFields ∧
        (∀ member ∈ envelope .completionResult result.header,
          dictionary.lookup member.1 = some member.2) ∧ dictionary.lookup "publication" =
          some (.uint64 (enumValue publications result.publication)) ∧
        dictionary.lookup "failure" = some (.uint64 (enumValue completionFailures result.failure)) ∧
        dictionary.lookup "system-error" = some (.int64 result.systemError.toInt64) ∧
        dictionary.lookup "filesystem-sync" =
          some (.uint64 (enumValue filesystemSyncs result.filesystemSync)) ∧
        dictionary.lookup "filesystem-sync-system-error" =
          some (.int64 result.filesystemSyncSystemError.toInt64) := by
  rw [eq_message_iff kCompletionResultFields rfl (by decide)]
  simp [completionResultMembers]

theorem enumerates_publications : Enumerates publications :=
  ⟨by decide, fun publication => by cases publication <;> decide, by decide⟩

theorem enumerates_completionFailures : Enumerates completionFailures :=
  ⟨by decide, fun failure => by cases failure <;> decide, by decide⟩

theorem enumerates_filesystemSyncs : Enumerates filesystemSyncs :=
  ⟨by decide, fun filesystemSync => by cases filesystemSync <;> decide, by decide⟩

theorem decodeCompletionResult_ok_iff {result : CompletionResult} :
    decodeCompletionResult object = .ok result ↔ ∃ dictionary, object = .dictionary dictionary ∧
        encodeCompletionResult result = .ok dictionary := by
  obtain ⟨header, publication, failure, systemError, filesystemSync, syncSystemError⟩ := result
  unfold decodeCompletionResult
  rw [bind_ok_iff]
  refine exists_congr fun dictionary => ?_
  simp only [exactDictionary_ok_iff, encodeCompletionResult_ok_iff, bind_ok_iff, refuse_ok_iff,
    decodeHeader_ok_iff, decodeEnum_ok_iff enumerates_publications,
    decodeEnum_ok_iff enumerates_completionFailures, decodeEnum_ok_iff enumerates_filesystemSyncs,
    int64Value_ok_iff, narrowedSigned_ok_iff, mapError_ok_iff, pure_ok, Except.ok.injEq,
    CompletionResult.mk.injEq, not_not, existsAndEq, exists_const, true_and, and_true, and_assoc]
  constructor
  · rintro ⟨hobject, hexact, henvelope, -, hpublication, hfailure, herror, hsync, hsyncError,
      haccepts⟩
    exact ⟨hobject, haccepts, eq_completionResultMessage_iff.mpr
      ⟨hexact, henvelope, hpublication, hfailure, herror, hsync, hsyncError⟩⟩
  · rintro ⟨hobject, haccepts, hmessage⟩
    obtain ⟨hexact, henvelope, hpublication, hfailure, herror, hsync, hsyncError⟩ :=
      eq_completionResultMessage_iff.mp hmessage
    exact ⟨hobject, hexact, henvelope, accepts_completionResult_imp haccepts, hpublication,
      hfailure, herror, hsync, hsyncError, haccepts⟩

/-! ## All five kinds -/

inductive AnyMessage where
  | begin (decoded : DecodedBegin)
  | commit (request : CommitRequest)
  | abort (request : AbortRequest)
  | beginResult (result : BeginResult)
  | completionResult (result : CompletionResult)
deriving DecidableEq

namespace AnyMessage

def kind : AnyMessage → MessageKind
  | .begin _ => .begin
  | .commit _ => .commit
  | .abort _ => .abort
  | .beginResult _ => .beginResult
  | .completionResult _ => .completionResult

def encode (right : Int → Nat) : AnyMessage → Except CodecError Message
  | .begin decoded => encodeBegin right decoded.request decoded.descriptors
  | .commit request => encodeCommit request
  | .abort request => encodeAbort request
  | .beginResult result => encodeBeginResult result
  | .completionResult result => encodeCompletionResult result

/-- Accepted by `Validate`, the descriptors of a `Begin` open, the lease of a rejection empty. -/
def Sendable : AnyMessage → Prop
  | .begin decoded => Accepts decoded.request.validate ∧ decoded.descriptors.Usable
  | .commit request => Accepts request.validate
  | .abort request => Accepts request.validate
  | .beginResult result => Accepts result.validate ∧
      (result.disposition = .rejected → result.lease.header = result.header)
  | .completionResult result => Accepts result.validate

/-- The message as it arrives, with the descriptors of the receiver. -/
def withDescriptors (duplicates : BeginDescriptors) : AnyMessage → AnyMessage
  | .begin decoded => .begin { decoded with descriptors := duplicates }
  | message => message

/-- The descriptors stand for the rights in the dictionary. -/
def RightsIn (right : Int → Nat) (dictionary : Message) : AnyMessage → Prop
  | .begin decoded =>
    dictionary.lookup "source-fd" = some (.fd (right decoded.descriptors.sourceFd)) ∧
      dictionary.lookup "destination-parent-fd" =
        some (.fd (right decoded.descriptors.destinationParentFd))
  | _ => True

/-- The decoder of a kind; `duplicates` matter to `Begin` only. -/
def decode (kind : MessageKind) (object : XpcValue Message) (duplicates : BeginDescriptors) :
    Except CodecError AnyMessage :=
  match kind with
  | .begin => (decodeBegin object duplicates).map .begin
  | .commit => (decodeCommit object).map .commit
  | .abort => (decodeAbort object).map .abort
  | .beginResult => (decodeBeginResult object).map .beginResult
  | .completionResult => (decodeCompletionResult object).map .completionResult

end AnyMessage

instance (descriptors : BeginDescriptors) : Decidable descriptors.Usable :=
  inferInstanceAs (Decidable (_ ∧ _))

instance (message : AnyMessage) : Decidable message.Sendable :=
  match message with
  | .begin _ => inferInstanceAs (Decidable (_ ∧ _))
  | .commit _ | .abort _ | .completionResult _ => inferInstanceAs (Decidable (Accepts _))
  | .beginResult _ => inferInstanceAs (Decidable (_ ∧ _))

/-- A granted lease has the header of the result. -/
theorem lease_header_of_sendable (h : (AnyMessage.beginResult result).Sendable) :
    result.lease.header = result.header := by
  obtain ⟨haccepts, hrejected⟩ := h
  by_cases hdisposition : result.disposition = .rejected
  · exact hrejected hdisposition
  · have hgranted : result.disposition = .granted := by
      cases hcase : result.disposition with
      | granted => rfl
      | rejected => exact absurd hcase hdisposition
    unfold Accepts BeginResult.validate at haccepts
    rw [seq_ok_iff, hgranted] at haccepts
    have hlease := (seq_ok_iff.mp haccepts.2).2
    rw [mapError_ok_iff] at hlease
    exact (accepts_request_iff.mp hlease).2.2.symm

variable {message : AnyMessage}

/-- What is sent is what arrives. -/
theorem decode_encode (right : Int → Nat) (hsendable : message.Sendable)
    (husable : duplicates.Usable) :
    ∃ dictionary, message.encode right = .ok dictionary ∧ message.RightsIn right dictionary ∧
      AnyMessage.decode message.kind (.dictionary dictionary) duplicates =
        .ok (message.withDescriptors duplicates) := by
  cases message with
  | begin decoded =>
    obtain ⟨haccepts, hdescriptors⟩ := hsendable
    have hmessage := eq_beginMessage_iff.mp <| Eq.refl <| ofMembers <|
      envelope .begin decoded.request.header ++ beginMembers decoded.request
        (right decoded.descriptors.sourceFd) (right decoded.descriptors.destinationParentFd)
    let received : DecodedBegin := { request := decoded.request, descriptors := duplicates }
    have hdecode : decodeBegin _ duplicates = .ok received := decodeBegin_ok_iff.mpr
      ⟨_, rfl, haccepts, husable, rfl, right decoded.descriptors.sourceFd,
        right decoded.descriptors.destinationParentFd, rfl⟩
    exact ⟨_, encodeBegin_ok_iff.mpr ⟨haccepts, hdescriptors, rfl⟩, hmessage.2.2.2.2.2,
      map_ok_iff.mpr ⟨received, hdecode, rfl⟩⟩
  | commit request =>
    have hencode : encodeCommit request = .ok _ := encodeLeaseRequest_ok_iff.mpr ⟨hsendable, rfl⟩
    exact ⟨_, hencode, trivial,
      map_ok_iff.mpr ⟨request, decodeCommit_ok_iff.mpr ⟨_, rfl, hencode⟩, rfl⟩⟩
  | abort request =>
    have hencode : encodeAbort request = .ok _ := encodeLeaseRequest_ok_iff.mpr ⟨hsendable, rfl⟩
    exact ⟨_, hencode, trivial,
      map_ok_iff.mpr ⟨request, decodeAbort_ok_iff.mpr ⟨_, rfl, hencode⟩, rfl⟩⟩
  | beginResult result =>
    have hencode := encodeBeginResult_ok_iff.mpr ⟨hsendable.1, rfl⟩
    have hdecode := decodeBeginResult_ok_iff.mpr
      ⟨_, rfl, hencode, lease_header_of_sendable hsendable⟩
    exact ⟨_, hencode, trivial, map_ok_iff.mpr ⟨result, hdecode, rfl⟩⟩
  | completionResult result =>
    have hencode := encodeCompletionResult_ok_iff.mpr ⟨hsendable, rfl⟩
    exact ⟨_, hencode, trivial,
      map_ok_iff.mpr ⟨result, decodeCompletionResult_ok_iff.mpr ⟨_, rfl, hencode⟩, rfl⟩⟩

/-- What is accepted is what the encoder makes of it. -/
theorem encode_decode (h : AnyMessage.decode kind object duplicates = .ok message) :
    message.kind = kind ∧ ∃ dictionary, object = .dictionary dictionary ∧
      (∃ right, message.RightsIn right dictionary) ∧
      ∀ right, message.RightsIn right dictionary → message.encode right = .ok dictionary := by
  cases kind with
  | begin =>
    obtain ⟨decoded, hdecode, rfl⟩ := map_ok_iff.mp h
    obtain ⟨dictionary, hobject, haccepts, husable, hsame, sourceRight, parentRight, hmessage⟩ :=
      decodeBegin_ok_iff.mp hdecode
    obtain ⟨-, -, -, -, -, hsource, hparent⟩ := eq_beginMessage_iff.mp hmessage
    refine ⟨rfl, dictionary, hobject, ?_, ?_⟩
    · refine ⟨fun fd => if fd = decoded.descriptors.sourceFd then sourceRight else parentRight,
        ?_, ?_⟩
      · dsimp only
        rw [hsource, if_pos rfl]
      · have hdistinct := hsame ▸ husable.2.2
        dsimp only
        rw [hparent, if_neg (Ne.symm hdistinct)]
    · rintro right ⟨hright, hparentRight⟩
      refine encodeBegin_ok_iff.mpr ⟨haccepts, hsame ▸ husable, ?_⟩
      have hfirst : sourceRight = right decoded.descriptors.sourceFd := by
        rw [hsource] at hright
        injection hright with hright
        injection hright
      have hsecond : parentRight = right decoded.descriptors.destinationParentFd := by
        rw [hparent] at hparentRight
        injection hparentRight with hparentRight
        injection hparentRight
      rw [← hfirst, ← hsecond]
      exact hmessage
  | commit =>
    obtain ⟨request, hdecode, rfl⟩ := map_ok_iff.mp h
    obtain ⟨dictionary, hobject, hencode⟩ := decodeCommit_ok_iff.mp hdecode
    exact ⟨rfl, dictionary, hobject, ⟨fun _ => 0, trivial⟩, fun _ _ => hencode⟩
  | abort =>
    obtain ⟨request, hdecode, rfl⟩ := map_ok_iff.mp h
    obtain ⟨dictionary, hobject, hencode⟩ := decodeAbort_ok_iff.mp hdecode
    exact ⟨rfl, dictionary, hobject, ⟨fun _ => 0, trivial⟩, fun _ _ => hencode⟩
  | beginResult =>
    obtain ⟨result, hdecode, rfl⟩ := map_ok_iff.mp h
    obtain ⟨dictionary, hobject, hencode, -⟩ := decodeBeginResult_ok_iff.mp hdecode
    exact ⟨rfl, dictionary, hobject, ⟨fun _ => 0, trivial⟩, fun _ _ => hencode⟩
  | completionResult =>
    obtain ⟨result, hdecode, rfl⟩ := map_ok_iff.mp h
    obtain ⟨dictionary, hobject, hencode⟩ := decodeCompletionResult_ok_iff.mp hdecode
    exact ⟨rfl, dictionary, hobject, ⟨fun _ => 0, trivial⟩, fun _ _ => hencode⟩

/-- The kind of an encoded message stands in it. -/
theorem lookup_kind_of_encode {right : Int → Nat} (h : message.encode right = .ok dictionary) :
    dictionary.lookup "kind" = some (.uint64 message.kind.number) := by
  have henvelope : ∃ header, ∀ member ∈ envelope message.kind header,
      dictionary.lookup member.1 = some member.2 := by
    cases message with
    | begin decoded =>
      exact ⟨_, (eq_beginMessage_iff.mp (encodeBegin_ok_iff.mp h).2.2).2.1⟩
    | commit request =>
      have hmessage := (encodeLeaseRequest_ok_iff.mp h).2
      exact ⟨_, ((eq_message_iff kLeaseRequestFields rfl (by decide)).mp hmessage).2.1⟩
    | abort request =>
      have hmessage := (encodeLeaseRequest_ok_iff.mp h).2
      exact ⟨_, ((eq_message_iff kLeaseRequestFields rfl (by decide)).mp hmessage).2.1⟩
    | beginResult result =>
      exact ⟨_, (eq_beginResultMessage_iff.mp (encodeBeginResult_ok_iff.mp h).2).2.1⟩
    | completionResult result =>
      exact ⟨_, (eq_completionResultMessage_iff.mp (encodeCompletionResult_ok_iff.mp h).2).2.1⟩
  obtain ⟨header, hmembers⟩ := henvelope
  exact hmembers ("kind", .uint64 message.kind.number) mem_cons_self

theorem MessageKind.number_injective {kind kind' : MessageKind} (h : kind.number = kind'.number) :
    kind = kind' := by
  cases kind <;> cases kind' <;> first | rfl | cases h

/--
  Sending and receiving are inverse to each other, and a dictionary belongs to one kind only.
  A received `Begin` is compared under any reading of its descriptors that agrees with the
  rights in the dictionary.
-/
theorem stagingCodec_exact :
    (∀ (right : Int → Nat) (message : AnyMessage) (duplicates : BeginDescriptors),
      message.Sendable → duplicates.Usable →
      ∃ dictionary, message.encode right = .ok dictionary ∧ message.RightsIn right dictionary ∧
        AnyMessage.decode message.kind (.dictionary dictionary) duplicates =
          .ok (message.withDescriptors duplicates)) ∧
    (∀ (kind : MessageKind) (object : XpcValue Message) (duplicates : BeginDescriptors)
      (message : AnyMessage), AnyMessage.decode kind object duplicates = .ok message →
      message.kind = kind ∧ ∃ dictionary, object = .dictionary dictionary ∧
        (∃ right, message.RightsIn right dictionary) ∧
        ∀ right, message.RightsIn right dictionary → message.encode right = .ok dictionary) ∧
    ∀ (kind kind' : MessageKind) (object : XpcValue Message)
      (duplicates duplicates' : BeginDescriptors) (message message' : AnyMessage),
      AnyMessage.decode kind object duplicates = .ok message →
      AnyMessage.decode kind' object duplicates' = .ok message' → kind = kind' := by
  refine ⟨fun right _ _ hsendable husable => decode_encode right hsendable husable,
    fun _ _ _ _ h => encode_decode h, ?_⟩
  intro kind kind' object duplicates duplicates' message message' h h'
  obtain ⟨hkind, dictionary, hobject, ⟨right, hright⟩, hencode⟩ := encode_decode h
  obtain ⟨hkind', dictionary', hobject', ⟨right', hright'⟩, hencode'⟩ := encode_decode h'
  have hsame : dictionary = dictionary' := by
    rw [hobject] at hobject'
    injection hobject'
  have hnumber := lookup_kind_of_encode (hencode right hright)
  have hnumber' := lookup_kind_of_encode (hencode' right' hright')
  rw [hsame, hnumber'] at hnumber
  injection hnumber with hnumber
  injection hnumber with hnumber
  rw [← hkind, ← hkind']
  exact (MessageKind.number_injective hnumber).symm

/-- An abort request goes through and comes back as it was sent. -/
theorem stagingCodec_exact_abort :
    let header : Header := { correlation := ⟨List.replicate 16 7, by decide⟩ }
    let request : AbortRequest :=
      { header := header, lease := { header := header, token := ⟨⟨List.replicate 32 9, by decide⟩⟩ } }
    ∃ dictionary, encodeAbort request = .ok dictionary ∧
      decodeAbort (.dictionary dictionary) = .ok request := by
  intro header request
  obtain ⟨dictionary, hencode, -, hdecode⟩ := stagingCodec_exact.1 (fun _ => 0) (.abort request)
    { sourceFd := 0, destinationParentFd := 1 } (by decide) (by decide)
  obtain ⟨found, hfound, hsame⟩ := map_ok_iff.mp hdecode
  injection hsame with hsame
  exact ⟨dictionary, hencode, hsame ▸ hfound⟩

end WinCommander.Staging
