/-
  `OperationPlanCodec` is canonical and lossless.

  `Fits` are the limits on the fields of a plan. `encode_ok` says that encoding succeeds
  exactly on the plans that fit and writes `planJson`; `decodeDocument_planJson` that the
  decoder reads it back; `fits_of_decode` that every accepted document holds a plan that
  fits. The base64 layer is exact on its own (`decodeBase64_encode`, `encodeBase64_decode`).
-/
import WinCommander.Operations.PlanCodec.Codec

namespace WinCommander.Operations.PlanCodec

open Library List Option Json OperationPlan

/-! ## Base64 fields -/

theorem encodeBase64_ok {bytes text : Bytes} : encodeBase64 bytes = .ok text ↔
    bytes.length ≤ maxOpaqueFieldBytes ∧ text = encodeGroups bytes := by
  have hsize : maxOpaqueFieldBytes ≤ (2 ^ 64 - 1 - 2) / 4 * 3 := by decide
  simp only [encodeBase64, seq_ok_iff, refuse_ok_iff, pure_ok, Except.ok.injEq, not_lt]
  constructor
  · rintro ⟨h, -, rfl⟩
    exact ⟨h, rfl⟩
  · rintro ⟨h, rfl⟩
    exact ⟨h, by omega, rfl⟩

variable {total total' : Nat} {value : Json}

theorem decodeBase64_ok {bytes : Bytes} : decodeBase64 value total = .ok (bytes, total') ↔
      value = .str (encodeGroups bytes) ∧ bytes.length ≤ maxOpaqueFieldBytes ∧
        bytes.length ≤ maxDecodedOpaqueBytes - total ∧ total' = total + bytes.length := by
  constructor
  · intro h
    cases value with
    | str encoded =>
      simp only [decodeBase64, bind_ok_iff, refuse_ok_iff, demand_ok_iff, pure_ok, exists_const,
        Except.ok.injEq, Prod.mk.injEq, not_or, not_lt] at h
      obtain ⟨-, ⟨hfield, htotal⟩, decoded, hd, rfl, rfl⟩ := h
      have he := encodeGroups_of_decode encoded decoded hd
      rw [← he, decodedSize_encode] at hfield htotal
      exact ⟨by rw [he], hfield, htotal, rfl⟩
    | _ => exact absurd h (by simp [decodeBase64])
  · rintro ⟨rfl, hfield, htotal, rfl⟩
    have hlen : (encodeGroups bytes).length % 4 = 0 := by
      rw [encodeGroups_length]
      omega
    simp only [decodeBase64, seq_ok_iff, refuse_ok_iff, decodedSize_encode, decodeGroups_encode,
      demand_some, ok_bind, pure_ok, not_or, not_lt, hlen]
    exact ⟨by simp, ⟨hfield, htotal⟩, trivial⟩

/-! ## Tokens -/

theorem parseType_ok {type : OperationPlanType} :
    parseType value = .ok type ↔ ∃ token, value = .str token ∧ typeToken type = some token := by
  rw [parseType, parseEnum, parseToken_ok (by decide)]
  cases type <;> simp [typeToken, eq_comm]

theorem parseDestinationKind_ok {kind : OperationPlanDestinationKind} :
    parseDestinationKind value = .ok kind ↔
      ∃ token, value = .str token ∧ destinationKindToken kind = some token := by
  rw [parseDestinationKind, parseEnum, parseToken_ok (by decide)]
  cases kind <;> simp [destinationKindToken, eq_comm]

theorem parseDecision_ok {decision : OperationPlanConflictDecision} :
    parseDecision value = .ok decision ↔
      ∃ token, value = .str token ∧ decisionToken decision = some token := by
  rw [parseDecision, parseEnum, parseToken_ok (by decide)]
  cases decision <;> simp [decisionToken, eq_comm]

theorem parseScope_ok {scope : OperationPlanConflictScope} :
    parseScope value = .ok scope ↔ ∃ token, value = .str token ∧ scopeToken scope = some token := by
  rw [parseScope, parseEnum, parseToken_ok (by decide)]
  cases scope <;> simp [scopeToken, eq_comm]

/-! ## The limits -/

def sourceBytes (source : OperationPlanSource) : Nat :=
  source.providerId.length + source.absolutePath.length

def destinationBytes : Option OperationPlanDestination → Nat
  | none => 0
  | some destination => destination.providerId.length + destination.absolutePath.length

/-- The opaque bytes of a plan: its id, the sources and the destination. -/
def opaqueBytes (plan : OperationPlan) : Nat :=
  plan.id.length + (plan.sources.map sourceBytes).sum + destinationBytes plan.destination

/-- The resource limits on the fields, and a time that nanoseconds can represent. -/
structure Fits (plan : OperationPlan) : Prop where
  sources_le : plan.sources.length ≤ maxSources
  id_le : plan.id.length ≤ maxOpaqueFieldBytes
  source_le : ∀ s ∈ plan.sources,
    s.providerId.length ≤ maxOpaqueFieldBytes ∧ s.absolutePath.length ≤ maxOpaqueFieldBytes
  destination_le : ∀ d ∈ plan.destination,
    d.providerId.length ≤ maxOpaqueFieldBytes ∧ d.absolutePath.length ≤ maxOpaqueFieldBytes
  total_le : opaqueBytes plan ≤ maxDecodedOpaqueBytes
  time : ∃ nanoseconds : Int64, nanoseconds.toInt = plan.createdAt.toInt * 1000

theorem addOpaqueBytes_ok {bytes total total' : Nat} : addOpaqueBytes bytes total = some total' ↔
      bytes ≤ maxOpaqueFieldBytes ∧ bytes ≤ maxDecodedOpaqueBytes - total ∧
        total' = total + bytes := by
  unfold addOpaqueBytes
  split_ifs with h
  · simp only [false_iff, not_and]
    omega
  · rw [some.injEq]
    omega

variable {sources : List OperationPlanSource} {destination : Option OperationPlanDestination}

theorem addSourcesBytes_ok (ht : total ≤ maxDecodedOpaqueBytes) :
    addSourcesBytes sources total = some total' ↔
      (∀ s ∈ sources, s.providerId.length ≤ maxOpaqueFieldBytes ∧
        s.absolutePath.length ≤ maxOpaqueFieldBytes) ∧
      total + (sources.map sourceBytes).sum ≤ maxDecodedOpaqueBytes ∧
      total' = total + (sources.map sourceBytes).sum := by
  induction sources generalizing total with
  | nil =>
    simp [addSourcesBytes]
    omega
  | cons s rest ih =>
    simp only [addSourcesBytes, bind_eq_bind, bind_eq_some_iff, addOpaqueBytes_ok,
      map_cons, sum_cons, sourceBytes]
    constructor
    · rintro ⟨t1, ⟨hp, hpt, rfl⟩, t2, ⟨hq, hqt, rfl⟩, h⟩
      obtain ⟨hok, hle, heq⟩ := (ih (by omega)).mp h
      refine ⟨forall_mem_cons.mpr ⟨⟨hp, hq⟩, hok⟩, by omega, by omega⟩
    · rintro ⟨hok, hle, rfl⟩
      obtain ⟨⟨hp, hq⟩, hok⟩ := forall_mem_cons.mp hok
      refine ⟨_, ⟨hp, by omega, rfl⟩, _, ⟨hq, by omega, rfl⟩, (ih (by omega)).mpr ⟨hok, ?_, ?_⟩⟩
      all_goals omega

theorem addDestinationBytes_ok (ht : total ≤ maxDecodedOpaqueBytes) :
    addDestinationBytes destination total = some total' ↔
      (∀ d ∈ destination, d.providerId.length ≤ maxOpaqueFieldBytes ∧
        d.absolutePath.length ≤ maxOpaqueFieldBytes) ∧
      total + destinationBytes destination ≤ maxDecodedOpaqueBytes ∧
      total' = total + destinationBytes destination := by
  cases destination with
  | none =>
    simp [addDestinationBytes, destinationBytes]
    omega
  | some d =>
    simp only [addDestinationBytes, destinationBytes, bind_eq_bind,
      bind_eq_some_iff, addOpaqueBytes_ok, mem_some_iff, forall_eq']
    constructor
    · rintro ⟨t1, ⟨hp, hpt, rfl⟩, hq, hqt, rfl⟩
      exact ⟨⟨hp, hq⟩, by omega, by omega⟩
    · rintro ⟨⟨hp, hq⟩, hle, rfl⟩
      exact ⟨_, ⟨hp, by omega, rfl⟩, hq, by omega, by omega⟩

/-! ## The document -/

def sourceJson (source : OperationPlanSource) : Json :=
  .obj (sourceNames.zip
    [.str (encodeGroups source.providerId), .str (encodeGroups source.absolutePath)])

def destinationJson : Option OperationPlanDestination → Json
  | none => .null
  | some d => .obj (destinationNames.zip
      [.str (encodeGroups d.providerId), .str (encodeGroups d.absolutePath),
       .str ((destinationKindToken d.kind).getD [])])

def policyJson : Option OperationPlanConflictPolicy → Json
  | none => .null
  | some p => .obj (policyNames.zip
      [.str ((decisionToken p.decision).getD []), .str ((scopeToken p.scope).getD [])])

/-- The values of the root's members, in the order of `rootNames`. -/
def planValues (plan : OperationPlan) : List Json :=
  [.int schemaVersion, .str (encodeGroups plan.id), .str ((typeToken plan.type).getD []),
   .arr (plan.sources.map sourceJson), destinationJson plan.destination,
   policyJson plan.conflictPolicy, .int (plan.createdAt.toInt * 1000)]

/-- What `encode` writes. -/
def planJson (plan : OperationPlan) : Json := .obj (rootNames.zip (planValues plan))

/-! ## Every part is plain -/

variable (bytes : Bytes)

theorem ascii_base64 : Json.Ascii (encodeGroups bytes) := by
  intro b hb
  have := encodeGroups_chars bytes b hb
  simp only [isBase64Char, Bool.and_eq_true, decide_eq_true_eq] at this
  exact this.1.1.2

theorem copied_base64 : ∀ b ∈ encodeGroups bytes, copied b := by
  intro b hb
  have := encodeGroups_chars bytes b hb
  simp only [isBase64Char, Bool.and_eq_true, decide_eq_true_eq, bne_iff_ne] at this
  obtain ⟨⟨⟨hlow, -⟩, hq⟩, hs⟩ := this
  simp [copied, hlow, hq, hs]

/-- A short ASCII token. -/
def IsToken (token : Bytes) : Prop :=
  Json.Ascii token ∧ (Json.writeString token).length ≤ 40

instance (token : Bytes) : Decidable (IsToken token) :=
  inferInstanceAs (Decidable (_ ∧ _))

theorem isToken_nil : IsToken [] := by decide

theorem typeToken_isToken (type : OperationPlanType) : IsToken ((typeToken type).getD []) := by
  cases type with
  | outside value => exact isToken_nil
  | _ => decide

theorem destinationKindToken_isToken (kind : OperationPlanDestinationKind) :
    IsToken ((destinationKindToken kind).getD []) := by
  cases kind with
  | outside value => exact isToken_nil
  | _ => decide

theorem decisionToken_isToken (decision : OperationPlanConflictDecision) :
    IsToken ((decisionToken decision).getD []) := by
  cases decision with
  | outside value => exact isToken_nil
  | _ => decide

theorem scopeToken_isToken (scope : OperationPlanConflictScope) :
    IsToken ((scopeToken scope).getD []) := by
  cases scope with
  | outside value => exact isToken_nil
  | _ => decide

variable (source : OperationPlanSource) (policy : Option OperationPlanConflictPolicy)

theorem plain_sourceJson : Json.Plain (sourceJson source) := by
  refine (plain_obj_iff _).mpr ?_
  simp only [sourceNames, zip_cons_cons, zip_nil_right, forall_mem_cons,
    not_mem_nil, false_imp_iff, implies_true, and_true]
  exact ⟨⟨by decide, ascii_base64 _⟩, by decide, ascii_base64 _⟩

theorem plain_destinationJson (destination : Option OperationPlanDestination) :
    Json.Plain (destinationJson destination) := by
  cases destination with
  | none => exact trivial
  | some d =>
    refine (plain_obj_iff _).mpr ?_
    simp only [destinationNames, zip_cons_cons, zip_nil_right, forall_mem_cons,
      not_mem_nil, false_imp_iff, implies_true, and_true]
    exact ⟨⟨by decide, ascii_base64 _⟩, ⟨by decide, ascii_base64 _⟩, by decide,
      (destinationKindToken_isToken d.kind).1⟩

theorem plain_policyJson : Json.Plain (policyJson policy) := by
  cases policy with
  | none => exact trivial
  | some p =>
    refine (plain_obj_iff _).mpr ?_
    simp only [policyNames, zip_cons_cons, zip_nil_right, forall_mem_cons,
      not_mem_nil, false_imp_iff, implies_true, and_true]
    exact ⟨⟨by decide, (decisionToken_isToken p.decision).1⟩, by decide,
      (scopeToken_isToken p.scope).1⟩

theorem plain_planJson (plan : OperationPlan) (h : Fits plan) : Json.Plain (planJson plan) := by
  obtain ⟨n, hn⟩ := h.time
  have hl := n.le_toInt
  have hu := n.toInt_lt
  refine (plain_obj_iff _).mpr ?_
  simp only [rootNames, planValues, zip_cons_cons, zip_nil_right, forall_mem_cons,
    not_mem_nil, false_imp_iff, implies_true, and_true]
  refine ⟨⟨by decide, plain_int (by decide) (by decide)⟩, ⟨by decide, ascii_base64 _⟩,
    ⟨by decide, (typeToken_isToken plan.type).1⟩, ⟨by decide, (plain_arr_iff _).mpr ?_⟩,
    ⟨by decide, plain_destinationJson _⟩, ⟨by decide, plain_policyJson _⟩, by decide,
    plain_int (by omega) (by omega)⟩
  intro value hvalue
  obtain ⟨source, -, rfl⟩ := mem_map.mp hvalue
  exact plain_sourceJson source

/-! ## The length of the document -/

theorem write_base64_length :
    3 * (write (.str (encodeGroups bytes))).length ≤ 4 * bytes.length + 14 := by
  rw [write, writeString_length (copied_base64 bytes), encodeGroups_length]
  omega

theorem write_sourceJson_length :
    3 * (write (sourceJson source)).length ≤ 4 * sourceBytes source + 172 := by
  have h := write_obj_length (sourceNames.zip
    [.str (encodeGroups source.providerId), .str (encodeGroups source.absolutePath)])
  have hp := write_base64_length source.providerId
  have hq := write_base64_length source.absolutePath
  have n1 : (writeString (ascii "provider_id_base64")).length = 20 := by decide
  have n2 : (writeString (ascii "absolute_path_base64")).length = 22 := by decide
  simp only [sourceNames, zip_cons_cons, zip_nil_right, map_cons, map_nil,
    sum_cons, sum_nil, n1, n2] at h
  simp only [sourceJson, sourceNames, zip_cons_cons, zip_nil_right, sourceBytes]
  omega

theorem write_sources_length (sources : List OperationPlanSource) :
    3 * (write (.arr (sources.map sourceJson))).length ≤
      6 + 4 * (sources.map sourceBytes).sum + 175 * sources.length := by
  have h := write_arr_length (sources.map sourceJson)
  have hsum : 3 * ((sources.map sourceJson).map fun x => (write x).length + 1).sum ≤
      4 * (sources.map sourceBytes).sum + 175 * sources.length := by
    induction sources with
    | nil => decide
    | cons s rest ih =>
      have hs := write_sourceJson_length s
      have := ih (write_arr_length _)
      simp only [map_cons, sum_cons, length_cons]
      omega
  omega

theorem write_destinationJson_length (destination : Option OperationPlanDestination) :
    3 * (write (destinationJson destination)).length ≤ 4 * destinationBytes destination + 400 := by
  cases destination with
  | none => decide
  | some d =>
    have h := write_obj_length (destinationNames.zip
      [.str (encodeGroups d.providerId), .str (encodeGroups d.absolutePath),
       .str ((destinationKindToken d.kind).getD [])])
    have hp := write_base64_length d.providerId
    have hq := write_base64_length d.absolutePath
    have hk := (destinationKindToken_isToken d.kind).2
    have n1 : (writeString (ascii "provider_id_base64")).length = 20 := by decide
    have n2 : (writeString (ascii "absolute_path_base64")).length = 22 := by decide
    have n3 : (writeString (ascii "kind")).length = 6 := by decide
    rw [← write] at hk
    simp only [destinationNames, zip_cons_cons, zip_nil_right, map_cons,
      map_nil, sum_cons, sum_nil, n1, n2, n3] at h
    simp only [destinationJson, destinationNames, zip_cons_cons, zip_nil_right, destinationBytes]
    omega

theorem write_policyJson_length : (write (policyJson policy)).length ≤ 110 := by
  cases policy with
  | none => decide
  | some p =>
    have h := write_obj_length (policyNames.zip
      [.str ((decisionToken p.decision).getD []), .str ((scopeToken p.scope).getD [])])
    have hd := (decisionToken_isToken p.decision).2
    have hs := (scopeToken_isToken p.scope).2
    have n1 : (writeString (ascii "decision")).length = 10 := by decide
    have n2 : (writeString (ascii "scope")).length = 7 := by decide
    rw [← write] at hd hs
    simp only [policyNames, zip_cons_cons, zip_nil_right, map_cons,
      map_nil, sum_cons, sum_nil, n1, n2] at h
    simp only [policyJson, policyNames, zip_cons_cons, zip_nil_right]
    omega

theorem writeInt_length {i : Int} (hl : -2 ^ 63 ≤ i) (hu : i < 2 ^ 64) :
    (writeInt i).length ≤ 21 := by
  have h : (decimal i.natAbs).length ≤ 20 := decimal_length_le (by decide) (by omega)
  unfold writeInt
  split_ifs
  · rw [length_cons]
    omega
  · omega

/-- The limits on the fields keep the text far below the limit on the text. -/
theorem write_planJson_length (plan : OperationPlan) (h : Fits plan) :
    (write (planJson plan)).length ≤ maxJSONBytes := by
  have hobj := write_obj_length (rootNames.zip (planValues plan))
  have hid := write_base64_length plan.id
  have htype := (typeToken_isToken plan.type).2
  have hsources := write_sources_length plan.sources
  have hdestination := write_destinationJson_length plan.destination
  have hpolicy := write_policyJson_length plan.conflictPolicy
  have hversion : (write (.int schemaVersion)).length = 1 := by decide
  have htime : (write (.int (plan.createdAt.toInt * 1000))).length ≤ 21 := by
    obtain ⟨n, hn⟩ := h.time
    have hl := n.le_toInt
    have hu := n.toInt_lt
    exact writeInt_length (by omega) (by omega)
  have names : (rootNames.map fun name => (writeString name).length).sum ≤ 200 := by decide
  have htotal := h.total_le
  have hcount := h.sources_le
  rw [← write] at htype
  simp only [rootNames, map_cons, map_nil, sum_cons, sum_nil] at names
  simp only [rootNames, planValues, zip_cons_cons, zip_nil_right, map_cons,
    map_nil, sum_cons, sum_nil] at hobj
  simp only [opaqueBytes, maxDecodedOpaqueBytes] at htotal
  simp only [maxSources] at hcount
  simp only [planJson, rootNames, planValues, zip_cons_cons, zip_nil_right, maxJSONBytes]
  omega

/-! ## Encode -/

theorem encodeSource_ok (hp : source.providerId.length ≤ maxOpaqueFieldBytes)
    (hq : source.absolutePath.length ≤ maxOpaqueFieldBytes) :
    encodeSource source = .ok (sourceJson source) := by
  rw [encodeSource, encodeBase64_ok.mpr ⟨hp, rfl⟩, ok_bind, encodeBase64_ok.mpr ⟨hq, rfl⟩, ok_bind]
  rfl

section
variable (plan : OperationPlan)
include plan

theorem typeToken_isSome : ∃ token, typeToken plan.type = some token := by
  have h : plan.type.isValid := plan.wellFormed.type_valid
  cases ht : plan.type with
  | outside value =>
    rw [ht] at h
    cases h
  | _ => exact ⟨_, rfl⟩

theorem destinationKindToken_isSome {d : OperationPlanDestination} (hd : plan.destination = some d)
    : ∃ token, destinationKindToken d.kind = some token := by
  have h : d.kind.isValid := (plan.wellFormed.destination d hd).kind
  cases hk : d.kind with
  | outside value =>
    rw [hk] at h
    cases h
  | _ => exact ⟨_, rfl⟩

theorem policyTokens_isSome {p : OperationPlanConflictPolicy} (hp : plan.conflictPolicy = some p) :
    (∃ token, decisionToken p.decision = some token) ∧ ∃ token, scopeToken p.scope = some token := by
  obtain ⟨hd, hs⟩ := plan.wellFormed.policy p hp
  constructor
  · cases hk : p.decision with
    | outside value =>
      rw [hk] at hd
      cases hd
    | _ => exact ⟨_, rfl⟩
  · cases hk : p.scope with
    | outside value =>
      rw [hk] at hs
      cases hs
    | _ => exact ⟨_, rfl⟩

theorem encodeDestination_ok (h : Fits plan) :
    encodeDestination plan.destination = .ok (destinationJson plan.destination) := by
  cases hd : plan.destination with
  | none => rfl
  | some d =>
    obtain ⟨hp, hq⟩ := h.destination_le d hd
    obtain ⟨token, hk⟩ := destinationKindToken_isSome plan hd
    rw [encodeDestination, encodeBase64_ok.mpr ⟨hp, rfl⟩, ok_bind,
      encodeBase64_ok.mpr ⟨hq, rfl⟩, ok_bind, destinationJson, hk]
    rfl

theorem encodePolicy_ok :
    encodePolicy plan.conflictPolicy = .ok (policyJson plan.conflictPolicy) := by
  cases hp : plan.conflictPolicy with
  | none => rfl
  | some p =>
    obtain ⟨⟨decision, hd⟩, scope, hs⟩ := policyTokens_isSome plan hp
    rw [encodePolicy, policyJson, hd, hs]
    rfl

end

variable {plan : OperationPlan}

/-- The first three checks of `encode` are the limits of `Fits` on the fields. -/
theorem fits_of_encode {text : Bytes} (h : encode plan = .ok text) : Fits plan := by
  simp only [encode, bind_ok_iff, refuse_ok_iff, demand_ok_iff, exists_const, not_lt] at h
  obtain ⟨hsources, total, hid, total', hsrc, total'', hdst, planId, -, type, -, n, hn, -⟩ := h
  obtain ⟨hidle, hidt, rfl⟩ := addOpaqueBytes_ok.mp hid
  obtain ⟨hsle, hst, rfl⟩ := (addSourcesBytes_ok (by omega)).mp hsrc
  obtain ⟨hdle, hdt, -⟩ := (addDestinationBytes_ok hst).mp hdst
  refine ⟨hsources, hidle, hsle, hdle, ?_, n, epochNanoseconds_ok.mp hn⟩
  unfold opaqueBytes
  omega

/-- `encode` succeeds exactly on the plans that fit, and writes `planJson`. -/
theorem encode_ok {text : Bytes} :
    encode plan = .ok text ↔ Fits plan ∧ text = write (planJson plan) := by
  have onFit : Fits plan → encode plan = .ok (write (planJson plan)) := by
    intro h
    have htotal := h.total_le
    unfold opaqueBytes at htotal
    obtain ⟨token, htoken⟩ := typeToken_isSome plan
    obtain ⟨n, hn⟩ := h.time
    have hid : addOpaqueBytes plan.id.length 0 = some (0 + plan.id.length) :=
      addOpaqueBytes_ok.mpr ⟨h.id_le, by omega, rfl⟩
    have hsrc : addSourcesBytes plan.sources (0 + plan.id.length) = some _ :=
      (addSourcesBytes_ok (by omega)).mpr ⟨h.source_le, by omega, rfl⟩
    have hdst : addDestinationBytes plan.destination
        (0 + plan.id.length + (plan.sources.map sourceBytes).sum) = some _ :=
      (addDestinationBytes_ok (by omega)).mpr ⟨h.destination_le, by omega, rfl⟩
    have hsources : Library.traverse encodeSource plan.sources = .ok (plan.sources.map sourceJson) :=
      traverse_ok _ _ _ fun s hs => encodeSource_ok s (h.source_le s hs).1 (h.source_le s hs).2
    have hlen := write_planJson_length plan h
    rw [encode, refuse_of_not _ (Nat.not_lt.mpr h.sources_le), ok_bind, hid, demand_some, ok_bind,
      hsrc, demand_some, ok_bind, hdst, demand_some, ok_bind, encodeBase64_ok.mpr ⟨h.id_le, rfl⟩,
      ok_bind, htoken, demand_some, ok_bind, planEpochNanoseconds, epochNanoseconds_ok.mpr hn,
      ok_bind, hsources, ok_bind, encodeDestination_ok plan h, ok_bind, encodePolicy_ok, ok_bind]
    have hdoc : obj (rootNames.zip [.int schemaVersion, .str (encodeGroups plan.id),
        .str token, .arr (plan.sources.map sourceJson), destinationJson plan.destination,
        policyJson plan.conflictPolicy, .int n.toInt]) = planJson plan := by
      rw [planJson, planValues, htoken, hn]
      rfl
    rw [hdoc]
    dsimp only
    rw [refuse_of_not _ (Nat.not_lt.mpr hlen), ok_bind, pure_ok]
  constructor
  · intro h
    have hfits := fits_of_encode h
    exact ⟨hfits, Except.ok.inj (h.symm.trans (onFit hfits))⟩
  · rintro ⟨h, rfl⟩
    exact onFit h

/-! ## Decode -/

theorem planMembers_zip (names : List Bytes) (values : List Json) (hnd : names.Nodup)
    (hlen : values.length = names.length) :
    planMembers names (.obj (names.zip values)) = .ok values :=
  jsonMembers_zip _ _ _ _ names values hnd hlen

theorem decodeSources_json (sources : List OperationPlanSource) (total : Nat)
    (hfield : ∀ s ∈ sources, s.providerId.length ≤ maxOpaqueFieldBytes ∧
      s.absolutePath.length ≤ maxOpaqueFieldBytes)
    (htotal : total + (sources.map sourceBytes).sum ≤ maxDecodedOpaqueBytes) :
    decodeSources (sources.map sourceJson) total =
      .ok (sources, total + (sources.map sourceBytes).sum) := by
  induction sources generalizing total with
  | nil => rfl
  | cons s rest ih =>
    obtain ⟨⟨hp, hq⟩, hrest⟩ := forall_mem_cons.mp hfield
    simp only [map_cons, sum_cons, sourceBytes] at htotal ⊢
    rw [decodeSources, sourceJson, planMembers_zip _ _ (by decide) rfl, ok_bind]
    dsimp only
    rw [decodeBase64_ok.mpr ⟨rfl, hp, by omega, rfl⟩, ok_bind]
    rw [decodeBase64_ok.mpr ⟨rfl, hq, by omega, rfl⟩, ok_bind]
    rw [ih _ hrest (by omega), ok_bind]
    rw [pure_ok, show total + s.providerId.length + s.absolutePath.length +
      (rest.map sourceBytes).sum = total + (s.providerId.length + s.absolutePath.length +
      (rest.map sourceBytes).sum) by omega]

theorem decodeDestination_json (plan : OperationPlan) (total : Nat) (h : Fits plan)
    (htotal : total + destinationBytes plan.destination ≤ maxDecodedOpaqueBytes) :
    ∃ total', decodeDestination (destinationJson plan.destination) total =
      .ok (plan.destination, total') := by
  cases hd : plan.destination with
  | none => exact ⟨total, rfl⟩
  | some d =>
    obtain ⟨hp, hq⟩ := h.destination_le d hd
    obtain ⟨token, hk⟩ := destinationKindToken_isSome plan hd
    rw [hd, destinationBytes] at htotal
    refine ⟨total + d.providerId.length + d.absolutePath.length, ?_⟩
    rw [destinationJson, hk, decodeDestination, planMembers_zip _ _ (by decide) rfl, ok_bind]
    · dsimp only
      rw [decodeBase64_ok.mpr ⟨rfl, hp, by omega, rfl⟩, ok_bind]
      rw [decodeBase64_ok.mpr ⟨rfl, hq, by omega, rfl⟩, ok_bind]
      rw [getD_some, parseDestinationKind_ok.mpr ⟨token, rfl, hk⟩]
      rfl
    · simp

theorem decodePolicy_json (plan : OperationPlan) :
    decodePolicy (policyJson plan.conflictPolicy) = .ok plan.conflictPolicy := by
  cases hp : plan.conflictPolicy with
  | none => rfl
  | some p =>
    obtain ⟨⟨decision, hd⟩, scope, hs⟩ := policyTokens_isSome plan hp
    rw [policyJson, hd, hs, decodePolicy, planMembers_zip _ _ (by decide) rfl, ok_bind]
    · dsimp only
      rw [getD_some, getD_some, parseDecision_ok.mpr ⟨decision, rfl, hd⟩, ok_bind,
        parseScope_ok.mpr ⟨scope, rfl, hs⟩]
      rfl
    · simp

/-- The decoder reads the document of a plan that fits back to that plan. -/
theorem decodeDocument_planJson (plan : OperationPlan) (h : Fits plan) :
    decodeDocument (planJson plan) = .ok plan := by
  have htotal := h.total_le
  unfold opaqueBytes at htotal
  obtain ⟨token, htoken⟩ := typeToken_isSome plan
  obtain ⟨n, hn⟩ := h.time
  obtain ⟨total', hdst⟩ := decodeDestination_json plan
    (0 + plan.id.length + (plan.sources.map sourceBytes).sum) h (by omega)
  rw [decodeDocument, planJson, planMembers_zip _ _ (by decide) rfl, ok_bind]
  rw [planValues]
  dsimp only
  rw [show asUint (.int schemaVersion) = some 1 from rfl, demand_some, ok_bind,
    refuse_of_not _ (by decide), ok_bind, decodeBase64_ok.mpr ⟨rfl, h.id_le, by omega, rfl⟩, ok_bind]
  have htime : asInt64 (.int (plan.createdAt.toInt * 1000)) = some n := by
    rw [← hn, asInt64_toInt]
  rw [htoken, getD_some, parseType_ok.mpr ⟨token, rfl, htoken⟩, ok_bind, sourceElements,
    refuse_of_not _ (by rw [length_map]; exact Nat.not_lt.mpr h.sources_le), ok_bind, pure_ok,
    ok_bind, decodeSources_json _ _ h.source_le (by omega), ok_bind]
  rw [hdst, ok_bind]
  rw [decodePolicy_json, ok_bind, htime, demand_some, ok_bind, planTimePoint,
    timePoint_ok.mpr hn, ok_bind, ← toInput, create_toInput]

theorem decodeSources_ok {values : List Json} (ht : total ≤ maxDecodedOpaqueBytes)
    (h : decodeSources values total = .ok (sources, total')) : sources.length = values.length ∧
      (∀ s ∈ sources, s.providerId.length ≤ maxOpaqueFieldBytes ∧
        s.absolutePath.length ≤ maxOpaqueFieldBytes) ∧
      total' = total + (sources.map sourceBytes).sum ∧ total' ≤ maxDecodedOpaqueBytes := by
  induction values generalizing total sources with
  | nil =>
    obtain ⟨rfl, rfl⟩ := h
    exact ⟨rfl, by simp, rfl, ht⟩
  | cons value rest ih =>
    obtain ⟨members, -, h⟩ := bind_ok_iff.mp h
    split at h
    · simp only [bind_ok_iff, Prod.exists, pure_ok, Except.ok.injEq, Prod.mk.injEq] at h
      obtain ⟨provider, t1, hp, path, t2, hq, tail, t3, hrest, rfl, rfl⟩ := h
      obtain ⟨-, hpf, hpt, rfl⟩ := decodeBase64_ok.mp hp
      obtain ⟨-, hqf, hqt, rfl⟩ := decodeBase64_ok.mp hq
      obtain ⟨hlen, hfields, hsum, hle⟩ := ih (by omega) hrest
      refine ⟨by simp [hlen], forall_mem_cons.mpr ⟨⟨hpf, hqf⟩, hfields⟩, ?_, hle⟩
      simp only [map_cons, sum_cons, sourceBytes]
      omega
    · exact absurd h (by simp)

theorem decodeDestination_ok (ht : total ≤ maxDecodedOpaqueBytes)
    (h : decodeDestination value total = .ok (destination, total')) :
    (∀ d ∈ destination, d.providerId.length ≤ maxOpaqueFieldBytes ∧
      d.absolutePath.length ≤ maxOpaqueFieldBytes) ∧
      total + destinationBytes destination ≤ maxDecodedOpaqueBytes := by
  unfold decodeDestination at h
  split at h
  · cases h
    exact ⟨by simp, ht⟩
  · obtain ⟨members, -, h⟩ := bind_ok_iff.mp h
    split at h
    · obtain ⟨⟨provider, t1⟩, hp, h⟩ := bind_ok_iff.mp h
      obtain ⟨⟨path, t2⟩, hq, h⟩ := bind_ok_iff.mp h
      obtain ⟨kind, -, h⟩ := bind_ok_iff.mp h
      obtain ⟨-, hpf, hpt, rfl⟩ := decodeBase64_ok.mp hp
      obtain ⟨-, hqf, hqt, rfl⟩ := decodeBase64_ok.mp hq
      cases h
      refine ⟨fun d hd => ?_, ?_⟩
      · cases hd
        exact ⟨hpf, hqf⟩
      · simp only [destinationBytes]
        omega
    · exact absurd h (by simp)

/-- Every document the decoder accepts holds a plan that fits. -/
theorem fits_of_decode {document : Json} (h : decodeDocument document = .ok plan) : Fits plan := by
  obtain ⟨members, -, h⟩ := bind_ok_iff.mp h
  split at h
  · obtain ⟨version, -, h⟩ := bind_ok_iff.mp h
    obtain ⟨-, h⟩ := seq_ok_iff.mp h
    obtain ⟨⟨planId, t1⟩, hid, h⟩ := bind_ok_iff.mp h
    obtain ⟨type, -, h⟩ := bind_ok_iff.mp h
    obtain ⟨values, hvalues, h⟩ := bind_ok_iff.mp h
    obtain ⟨⟨sources, t2⟩, hsources, h⟩ := bind_ok_iff.mp h
    obtain ⟨⟨destination, t3⟩, hdst, h⟩ := bind_ok_iff.mp h
    obtain ⟨policy, -, h⟩ := bind_ok_iff.mp h
    obtain ⟨n, -, h⟩ := bind_ok_iff.mp h
    obtain ⟨createdAt, htime, h⟩ := bind_ok_iff.mp h
    split at h
    · next created hcreate =>
        cases h
        have hinput := toInput_of_create hcreate
        simp only [toInput, OperationPlanInput.mk.injEq, some.injEq] at hinput
        obtain ⟨hid', -, hsrc', hdst', -, htime'⟩ := hinput
        subst hid' hsrc' hdst' htime'
        obtain ⟨-, hidf, hidt, rfl⟩ := decodeBase64_ok.mp hid
        have hcount : values.length ≤ maxSources := by
          unfold sourceElements at hvalues
          split at hvalues
          · obtain ⟨hle, hv⟩ := seq_ok_iff.mp hvalues
            cases hv
            exact Nat.not_lt.mp (refuse_ok_iff.mp hle)
          · exact absurd hvalues (by simp)
        obtain ⟨hlen, hsf, rfl, hst⟩ := decodeSources_ok (by omega) hsources
        obtain ⟨hdf, hdt⟩ := decodeDestination_ok hst hdst
        refine ⟨by omega, hidf, hsf, hdf, ?_, n, timePoint_ok.mp htime⟩
        unfold opaqueBytes
        omega
    · exact absurd h (by simp)
  · exact absurd h (by simp)

/-! ## The codec -/

/-- The decoder reads what the encoder wrote. -/
theorem decode_of_encode (reader : Json.Reader) {text : Bytes} (h : encode plan = .ok text) :
    decode reader text = .ok plan := by
  obtain ⟨hfits, rfl⟩ := encode_ok.mp h
  rw [decode, refuse_of_not _ (Nat.not_lt.mpr (write_planJson_length plan hfits)), ok_bind,
    reader.parse_write _ (plain_planJson plan hfits), demand_some, ok_bind,
    refuse_of_not _ (by simp [planJson, isObject]), ok_bind, decodeDocument_planJson plan hfits]

/-- The encoder accepts what the decoder accepted. -/
theorem encode_of_decode (reader : Json.Reader) {json : Bytes} (h : decode reader json = .ok plan) :
    ∃ text, encode plan = .ok text := by
  simp only [decode, bind_ok_iff, refuse_ok_iff, demand_ok_iff, exists_const] at h
  obtain ⟨-, document, -, -, h⟩ := h
  exact ⟨_, encode_ok.mpr ⟨fits_of_decode h, rfl⟩⟩

theorem decodeBase64_injective {text text' bytes : Bytes} {t t' s s' : Nat}
    (h : decodeBase64 (.str text) t = .ok (bytes, t'))
    (h' : decodeBase64 (.str text') s = .ok (bytes, s')) : text = text' := by
  obtain ⟨he, -⟩ := decodeBase64_ok.mp h
  obtain ⟨he', -⟩ := decodeBase64_ok.mp h'
  exact (str.inj he).trans (str.inj he').symm

/-- `OperationPlanCodec` is canonical and lossless, over exact base64 fields. -/
theorem planCodec_canonical_lossless (reader : Json.Reader) :
    (∀ plan text, encode plan = .ok text → decode reader text = .ok plan) ∧
    (∀ json plan, decode reader json = .ok plan →
      ∃ text, encode plan = .ok text ∧ decode reader text = .ok plan) ∧
    (∀ bytes total, bytes.length ≤ maxOpaqueFieldBytes →
      bytes.length ≤ maxDecodedOpaqueBytes - total → ∃ text, encodeBase64 bytes = .ok text ∧
        decodeBase64 (.str text) total = .ok (bytes, total + bytes.length)) ∧
    (∀ text bytes total total', decodeBase64 (.str text) total = .ok (bytes, total') →
      encodeBase64 bytes = .ok text) ∧
    (∀ text text' bytes t t' s s', decodeBase64 (.str text) t = .ok (bytes, t') →
      decodeBase64 (.str text') s = .ok (bytes, s') → text = text') := by
  refine ⟨fun plan text => decode_of_encode reader, ?_, ?_, ?_, ?_⟩
  · intro json plan h
    obtain ⟨text, ht⟩ := encode_of_decode reader h
    exact ⟨text, ht, decode_of_encode reader ht⟩
  · intro bytes total hfield htotal
    exact ⟨encodeGroups bytes, encodeBase64_ok.mpr ⟨hfield, rfl⟩,
      decodeBase64_ok.mpr ⟨rfl, hfield, htotal, rfl⟩⟩
  · intro text bytes total total' h
    obtain ⟨he, hfield, -⟩ := decodeBase64_ok.mp h
    exact encodeBase64_ok.mpr ⟨hfield, str.inj he⟩
  · intro text text' bytes t t' s s' h h'
    exact decodeBase64_injective h h'

theorem copyPlan_fits : Fits copyPlan := by
  refine ⟨by decide, by decide, by decide, by decide, by decide, 0, by decide⟩

/-- One plan through the encoder and the reference reader. -/
theorem planCodec_canonical_lossless_copyPlan :
    decode Reader.reference (write (planJson copyPlan)) = .ok copyPlan :=
  (planCodec_canonical_lossless Reader.reference).1 copyPlan _
    (encode_ok.mpr ⟨copyPlan_fits, rfl⟩)

end WinCommander.Operations.PlanCodec
