/-
  `OperationPlan`: the immutable description of a filesystem mutation.

  `OperationPlanInput.validate` is the sequence of checks of `OperationPlan::Create`, in
  the source's order. An `OperationPlan` carries the fact that its fields pass them, so a
  plan that `Create` would refuse cannot be built. An enumeration that reaches `Create`
  from outside may hold a byte that is no enumerator; the constructor `outside` is that.

  Proved: `Create` rebuilds every plan from its own fields (`create_toInput`), and what
  validity says field by field (`OperationPlan.wellFormed`).
-/
import WinCommander.Library.Check
import WinCommander.Library.Numeral

namespace WinCommander.Operations

open Library List

/-! ## The data -/

inductive OperationPlanType where
  | copy | move | rename | trash | permanentDelete
  | outside (value : UInt8)
deriving DecidableEq

inductive OperationPlanDestinationKind where
  | directory | exactItem
  | outside (value : UInt8)
deriving DecidableEq

inductive OperationPlanConflictDecision where
  | ask | replace | skip | keepBoth | renameNew | renameExisting | mergeFolders
  | outside (value : UInt8)
deriving DecidableEq

inductive OperationPlanConflictScope where
  | thisItem | allItems | sameExtension | sameFolder
  | outside (value : UInt8)
deriving DecidableEq

inductive OperationPlanValidationError where
  | invalidPlanId | invalidType | emptySources | invalidSourceProviderId | invalidSourcePath
  | duplicateSource | missingDestination | unexpectedDestination | invalidDestinationProviderId
  | invalidDestinationPath | invalidDestinationKind | exactDestinationRequiresSingleSource
  | renameRequiresSingleSource | renameRequiresExactDestination | renameRequiresSameProvider
  | missingConflictPolicy | unexpectedConflictPolicy | missingCreatedAt | invalidConflictDecision
  | invalidConflictScope
deriving DecidableEq

structure OperationPlanSource where
  providerId : Bytes
  absolutePath : Bytes
deriving DecidableEq

structure OperationPlanDestination where
  providerId : Bytes
  absolutePath : Bytes
  kind : OperationPlanDestinationKind
deriving DecidableEq

structure OperationPlanConflictPolicy where
  decision : OperationPlanConflictDecision
  scope : OperationPlanConflictScope
deriving DecidableEq

/-- A `system_clock` time point: its signed 64-bit count of microsecond ticks. -/
abbrev TimePoint := Int64

structure OperationPlanInput where
  planId : Bytes
  type : OperationPlanType
  sources : List OperationPlanSource
  destination : Option OperationPlanDestination
  conflictPolicy : Option OperationPlanConflictPolicy
  createdAt : Option TimePoint
deriving DecidableEq

/-! ## Validation -/

def OperationPlanType.isValid : OperationPlanType → Bool
  | .outside _ => false
  | _ => true

def OperationPlanDestinationKind.isValid : OperationPlanDestinationKind → Bool
  | .outside _ => false
  | _ => true

def OperationPlanConflictDecision.isValid : OperationPlanConflictDecision → Bool
  | .outside _ => false
  | _ => true

def OperationPlanConflictScope.isValid : OperationPlanConflictScope → Bool
  | .outside _ => false
  | _ => true

/-- `'/'`. -/
abbrev slash : UInt8 := 0x2F

def isValidAbsolutePath (path : Bytes) : Bool :=
  path.head? == some slash && !path.contains 0

def isValidIdentity (identity : Bytes) : Bool :=
  !identity.isEmpty && !identity.contains 0

namespace OperationPlanInput

def checkPolicy (input : OperationPlanInput) : Except OperationPlanValidationError Unit :=
  match input.conflictPolicy with
  | none => .ok ()
  | some policy => do
      refuse (¬policy.decision.isValid) .invalidConflictDecision
      refuse (¬policy.scope.isValid) .invalidConflictScope

/-- The loop over the sources; `identities` are the ones already seen. -/
def checkSources (identities : List OperationPlanSource) :
    List OperationPlanSource → Except OperationPlanValidationError Unit
  | [] => .ok ()
  | source :: rest => do
      refuse (¬isValidIdentity source.providerId) .invalidSourceProviderId
      refuse (¬isValidAbsolutePath source.absolutePath) .invalidSourcePath
      refuse (source ∈ identities) .duplicateSource
      checkSources (source :: identities) rest

def checkDestination (input : OperationPlanInput) : Except OperationPlanValidationError Unit :=
  match input.destination with
  | none => .ok ()
  | some destination => do
      refuse (¬isValidIdentity destination.providerId) .invalidDestinationProviderId
      refuse (¬isValidAbsolutePath destination.absolutePath) .invalidDestinationPath
      refuse (¬destination.kind.isValid) .invalidDestinationKind
      refuse (destination.kind = .exactItem ∧
        (destination.absolutePath = [slash] ∨ destination.absolutePath.getLast? = some slash))
        .invalidDestinationPath

/-- The last switch of `Create`: what each type requires of policy and destination. -/
def checkType (input : OperationPlanInput) : Except OperationPlanValidationError Unit :=
  match input.type with
  | .copy | .move => do
      refuse (input.conflictPolicy = none) .missingConflictPolicy
      let destination ← demand input.destination .missingDestination
      refuse (destination.kind = .exactItem ∧ input.sources.length ≠ 1)
        .exactDestinationRequiresSingleSource
  | .rename => do
      refuse (input.conflictPolicy = none) .missingConflictPolicy
      refuse (input.sources.length ≠ 1) .renameRequiresSingleSource
      let destination ← demand input.destination .missingDestination
      refuse (destination.kind ≠ .exactItem) .renameRequiresExactDestination
      refuse (some destination.providerId ≠ input.sources.head?.map (·.providerId))
        .renameRequiresSameProvider
  | .trash | .permanentDelete => do
      refuse (input.conflictPolicy ≠ none) .unexpectedConflictPolicy
      refuse (input.destination ≠ none) .unexpectedDestination
  | .outside _ => .ok ()

/-- The checks of `OperationPlan::Create`. -/
def validate (input : OperationPlanInput) : Except OperationPlanValidationError Unit := do
  refuse (¬isValidIdentity input.planId) .invalidPlanId
  refuse (¬input.type.isValid) .invalidType
  refuse (input.createdAt = none) .missingCreatedAt
  refuse (input.sources = []) .emptySources
  input.checkPolicy
  checkSources [] input.sources
  input.checkDestination
  input.checkType

end OperationPlanInput

/-! ## The plan -/

structure OperationPlan where
  id : Bytes
  type : OperationPlanType
  sources : List OperationPlanSource
  destination : Option OperationPlanDestination
  conflictPolicy : Option OperationPlanConflictPolicy
  createdAt : TimePoint
  /-- What `Create` checked. -/
  valid : OperationPlanInput.validate
    ⟨id, type, sources, destination, conflictPolicy, some createdAt⟩ = .ok ()
deriving DecidableEq

namespace OperationPlan

def toInput (plan : OperationPlan) : OperationPlanInput :=
  ⟨plan.id, plan.type, plan.sources, plan.destination, plan.conflictPolicy, some plan.createdAt⟩

/-- `OperationPlan::Create`. An input without a time never passes `validate`. -/
def create (input : OperationPlanInput) : Except OperationPlanValidationError OperationPlan :=
  match input with
  | ⟨planId, type, sources, destination, conflictPolicy, some createdAt⟩ =>
    match h : OperationPlanInput.validate
        ⟨planId, type, sources, destination, conflictPolicy, some createdAt⟩ with
    | .ok () => .ok ⟨planId, type, sources, destination, conflictPolicy, createdAt, h⟩
    | .error e => .error e
  | input => do
      input.validate
      .error .missingCreatedAt

theorem create_toInput (plan : OperationPlan) : create plan.toInput = .ok plan := by
  obtain ⟨id, type, sources, destination, conflictPolicy, createdAt, valid⟩ := plan
  simp only [create, toInput]
  split
  · rfl
  · next e h =>
      rw [valid] at h
      exact absurd h (by simp)

theorem toInput_of_create (h : create input = .ok plan) : plan.toInput = input := by
  obtain ⟨planId, type, sources, destination, conflictPolicy, createdAt⟩ := input
  cases createdAt with
  | none =>
    obtain ⟨u, -, hu⟩ := bind_ok_iff.mp h
    exact absurd hu (by simp)
  | some createdAt =>
    simp only [create] at h
    split at h
    · cases h
      rfl
    · exact absurd h (by simp)

end OperationPlan

/-! ## What validity says -/

namespace OperationPlanInput

structure SourceOk (source : OperationPlanSource) : Prop where
  identity : isValidIdentity source.providerId = true
  path : isValidAbsolutePath source.absolutePath = true

structure DestinationOk (destination : OperationPlanDestination) : Prop where
  identity : isValidIdentity destination.providerId = true
  path : isValidAbsolutePath destination.absolutePath = true
  kind : destination.kind.isValid = true
  exact_name : destination.kind = .exactItem → destination.absolutePath ≠ [slash] ∧
    destination.absolutePath.getLast? ≠ some slash

theorem DestinationOk.directory_of_not_exact {destination : OperationPlanDestination}
    (h : DestinationOk destination) (hne : destination.kind ≠ .exactItem) :
    destination.kind = .directory := by
  have hvalid := h.kind
  cases hkind : destination.kind with
  | directory => rfl
  | exactItem => exact absurd hkind hne
  | outside _ =>
    rw [hkind] at hvalid
    cases hvalid

/-- Policy and destination as the type requires them. -/
def TypeOk (input : OperationPlanInput) : Prop :=
  match input.type with
  | .copy | .move => input.conflictPolicy ≠ none ∧ ∃ d, input.destination = some d ∧
      (d.kind = .exactItem → input.sources.length = 1)
  | .rename => input.conflictPolicy ≠ none ∧ input.sources.length = 1 ∧
      ∃ d, input.destination = some d ∧ d.kind = .exactItem ∧
        some d.providerId = input.sources.head?.map (·.providerId)
  | .trash | .permanentDelete => input.conflictPolicy = none ∧ input.destination = none
  | .outside _ => True

/-- The conjunction of what `validate` checks. -/
structure WellFormed (input : OperationPlanInput) : Prop where
  planId : isValidIdentity input.planId = true
  type_valid : input.type.isValid = true
  createdAt : input.createdAt ≠ none
  sources_ne : input.sources ≠ []
  policy : ∀ p ∈ input.conflictPolicy, p.decision.isValid = true ∧ p.scope.isValid = true
  source : ∀ s ∈ input.sources, SourceOk s
  nodup : input.sources.Nodup
  destination : ∀ d ∈ input.destination, DestinationOk d
  forType : input.TypeOk

theorem checkPolicy_ok (input : OperationPlanInput) : input.checkPolicy = .ok () ↔
    ∀ p ∈ input.conflictPolicy, p.decision.isValid ∧ p.scope.isValid := by
  unfold checkPolicy
  cases input.conflictPolicy with
  | none => simp
  | some policy => simp [seq_ok_iff]

theorem checkSources_ok (seen sources : List OperationPlanSource) :
    checkSources seen sources = .ok () ↔
      (∀ s ∈ sources, SourceOk s) ∧ sources.Nodup ∧ ∀ s ∈ sources, s ∉ seen := by
  induction sources generalizing seen with
  | nil => simp [checkSources]
  | cons s rest ih =>
    simp only [checkSources, seq_ok_iff, refuse_ok_iff, ih, not_not, nodup_cons]
    constructor
    · rintro ⟨hid, hpath, hs, hok, hnd, hseen⟩
      refine ⟨forall_mem_cons.mpr ⟨⟨hid, hpath⟩, hok⟩, ⟨fun hm => ?_, hnd⟩,
        forall_mem_cons.mpr ⟨hs, fun t ht hin => ?_⟩⟩
      · exact hseen s hm mem_cons_self
      · exact hseen t ht (mem_cons_of_mem _ hin)
    · rintro ⟨hok, ⟨hs, hnd⟩, hseen⟩
      obtain ⟨hsok, hok⟩ := forall_mem_cons.mp hok
      obtain ⟨hs', hseen⟩ := forall_mem_cons.mp hseen
      refine ⟨hsok.identity, hsok.path, hs', hok, hnd, fun t ht hin => ?_⟩
      rcases mem_cons.mp hin with rfl | hin
      · exact hs ht
      · exact hseen t ht hin

section
variable (input : OperationPlanInput)
include input

theorem checkDestination_ok :
    input.checkDestination = .ok () ↔ ∀ d ∈ input.destination, DestinationOk d := by
  unfold checkDestination
  cases input.destination with
  | none => simp
  | some d =>
    simp only [seq_ok_iff, refuse_ok_iff, not_not, Option.mem_some_iff, forall_eq', not_and, not_or]
    constructor
    · rintro ⟨h1, h2, h3, h4⟩
      exact ⟨h1, h2, h3, h4⟩
    · intro h
      exact ⟨h.identity, h.path, h.kind, h.exact_name⟩

theorem checkType_ok : input.checkType = .ok () ↔ input.TypeOk := by
  unfold checkType TypeOk
  cases input.type <;>
    simp [bind_ok_iff, refuse_ok_iff]

theorem validate_ok : input.validate = .ok () ↔ input.WellFormed := by
  simp only [validate, seq_ok_iff, refuse_ok_iff, not_not, checkPolicy_ok,
    checkSources_ok, checkDestination_ok, checkType_ok]
  constructor
  · rintro ⟨h1, h2, h3, h4, h5, ⟨h6, h7, -⟩, h8, h9⟩
    exact ⟨h1, h2, h3, h4, h5, h6, h7, h8, h9⟩
  · intro h
    exact ⟨h.planId, h.type_valid, h.createdAt, h.sources_ne, h.policy,
      ⟨h.source, h.nodup, by simp⟩, h.destination, h.forType⟩

end

end OperationPlanInput

theorem OperationPlan.wellFormed (plan : OperationPlan) : plan.toInput.WellFormed :=
  (OperationPlanInput.validate_ok _).mp plan.valid

/-- Copy `/a` into the directory `/b`, asking about conflicts. -/
def copyPlan : OperationPlan where
  id := ascii "plan"
  type := .copy
  sources := [⟨ascii "native", ascii "/a"⟩]
  destination := some ⟨ascii "native", ascii "/b", .directory⟩
  conflictPolicy := some ⟨.ask, .thisItem⟩
  createdAt := 0
  valid := by decide

end WinCommander.Operations
