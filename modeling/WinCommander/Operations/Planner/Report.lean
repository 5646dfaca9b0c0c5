/-
  `OperationPlanner`: evidence, blockers and the preflight report.

  An enumeration that a probe answers with may hold a byte that is no enumerator; the
  constructor `outside` is that.
-/
import WinCommander.Operations.Planner.Paths

namespace WinCommander.Operations.Planner

open Library

/-! ## Evidence -/

inductive OperationPlanningProbeError where
  | unsupported | unsupportedItem | invalidName | unavailable | cancelled | permissionDenied
  | failed
  | outside (value : UInt8)
deriving DecidableEq

abbrev OperationPlanningProbeResult (α : Type) := Except OperationPlanningProbeError α

inductive OperationPlanningPathIdentitySemantics where
  | exactBytes | asciiCaseSensitive | asciiCaseInsensitive | unavailable
  | outside (value : UInt8)
deriving DecidableEq

structure OperationPlanningProviderEvidence where
  canCopyFrom : Bool := false
  canCopyTo : Bool := false
  pathIdentity : OperationPlanningPathIdentitySemantics := .unavailable
  canReplaceFile : Bool := false
  canReplaceDirectory : Bool := false
  canCopySymlinkTo : Bool := false
  canRename : Bool := false
  canDeletePermanently : Bool := false
deriving DecidableEq

inductive OperationPlanningItemKind where
  | missing | file | directory | symlink | other
  | outside (value : UInt8)
deriving DecidableEq

structure OperationPlanningItemEvidence where
  kind : OperationPlanningItemKind := .missing
  byteSize : Option UInt64 := none
deriving DecidableEq

structure OperationPlanningNameEvidence where
  valid : Bool := false
deriving DecidableEq

inductive OperationPlanningRequiredAccess where
  | read | write | replaceFile | replaceDirectory | rename | delete
deriving DecidableEq

inductive OperationPlanningAccessState where
  | granted | permissionRequired | denied
  | outside (value : UInt8)
deriving DecidableEq

structure OperationPlanningAccessEvidence where
  state : OperationPlanningAccessState := .denied
deriving DecidableEq

structure OperationPlanningEstimateEvidence where
  files : UInt64 := 0
  bytes : UInt64 := 0
  containsSymlinks : Bool := false
deriving DecidableEq

structure OperationPlanningSpaceEvidence where
  availableBytes : Option UInt64 := none
deriving DecidableEq

def OperationPlanningItemKind.isValid : OperationPlanningItemKind → Bool
  | .outside _ => false
  | _ => true

namespace OperationPlanningPathIdentitySemantics

def isValid : OperationPlanningPathIdentitySemantics → Bool
  | .outside _ => false
  | _ => true

def combine (lhs rhs : OperationPlanningPathIdentitySemantics) :
    OperationPlanningPathIdentitySemantics :=
  if lhs = .unavailable ∨ rhs = .unavailable then .unavailable
  else if lhs = .asciiCaseInsensitive ∨ rhs = .asciiCaseInsensitive then .asciiCaseInsensitive
  else if lhs = .asciiCaseSensitive ∨ rhs = .asciiCaseSensitive then .asciiCaseSensitive
  else .exactBytes

def supportsComparison (semantics : OperationPlanningPathIdentitySemantics) (lhs rhs : Bytes) :
    Bool :=
  if semantics = .unavailable then false
  else if semantics = .exactBytes then true
  else !containsNonASCII lhs && !containsNonASCII rhs

/-- How the planner compares paths under these semantics. -/
def caseSensitive (semantics : OperationPlanningPathIdentitySemantics) : Bool :=
  semantics != .asciiCaseInsensitive

end OperationPlanningPathIdentitySemantics

def OperationPlanningRequiredAccess.code : OperationPlanningRequiredAccess → UInt8
  | .read => 0
  | .write => 1
  | .replaceFile => 2
  | .replaceDirectory => 3
  | .rename => 4
  | .delete => 5

theorem OperationPlanningRequiredAccess.code_inj {a b : OperationPlanningRequiredAccess}
    (h : a.code = b.code) : a = b := by
  cases a <;> cases b <;> first | rfl | cases h

/-! ## The probes -/

/-- What a preflight asks of the world. -/
inductive Question where
  | provider (path : OperationPlanningPath)
  | item (path : OperationPlanningPath)
  | destinationName (path : OperationPlanningPath)
  | access (path : OperationPlanningPath) (required : OperationPlanningRequiredAccess)
  | estimate (source destination : OperationPlanningPath)
  | space (path : OperationPlanningPath)
deriving DecidableEq

/-- `OperationPlanningProbes`. An answer may depend on everything asked before (the first
  argument), may be an error, and is `none` when the probe throws. -/
structure OperationPlanningProbes where
  provider : List Question → OperationPlanningPath →
    Option (OperationPlanningProbeResult OperationPlanningProviderEvidence)
  item : List Question → OperationPlanningPath →
    Option (OperationPlanningProbeResult OperationPlanningItemEvidence)
  destinationName : List Question → OperationPlanningPath →
    Option (OperationPlanningProbeResult OperationPlanningNameEvidence)
  access : List Question → OperationPlanningPath → OperationPlanningRequiredAccess →
    Option (OperationPlanningProbeResult OperationPlanningAccessEvidence)
  estimate : List Question → OperationPlanningPath → OperationPlanningPath →
    Option (OperationPlanningProbeResult OperationPlanningEstimateEvidence)
  space : List Question → OperationPlanningPath →
    Option (OperationPlanningProbeResult OperationPlanningSpaceEvidence)

/-! ## The report -/

inductive OperationPlanningBlockerCode where
  | unsupportedPlanType | providerCapabilityUnsupported | providerUnavailable | sourceMissing
  | sourceUnreadable | destinationMissing | destinationNotDirectory | destinationNotWritable
  | permissionRequired | permissionDenied | invalidSourceName | invalidDestinationName
  | destinationNameEvidenceUnavailable | pathIdentityUnavailable | samePath
  | recursiveDestination | duplicateDestination | conflictDecisionRequired
  | conflictPolicyUnsupported | insufficientSpace | estimateOverflow | nothingToDo
  | probeCancelled | probeFailed
deriving DecidableEq

structure OperationPlanningBlocker where
  code : OperationPlanningBlockerCode
  path : Option OperationPlanningPath
deriving DecidableEq

inductive OperationPlanningWarningCode where
  | estimateUnavailable | spaceUnknown | destructiveReplacement | runtimeRevalidationRequired
deriving DecidableEq

structure OperationPlanningWarning where
  code : OperationPlanningWarningCode
  path : Option OperationPlanningPath
deriving DecidableEq

structure OperationPlanningProviderSnapshot where
  path : OperationPlanningPath
  evidence : OperationPlanningProviderEvidence
deriving DecidableEq

structure OperationPlanningItemSnapshot where
  path : OperationPlanningPath
  evidence : OperationPlanningItemEvidence
deriving DecidableEq

structure OperationPlanningAccessSnapshot where
  path : OperationPlanningPath
  required : OperationPlanningRequiredAccess
  evidence : OperationPlanningAccessEvidence
deriving DecidableEq

structure OperationPlanningNameSnapshot where
  path : OperationPlanningPath
  evidence : OperationPlanningNameEvidence
deriving DecidableEq

structure OperationPlanningConflict where
  source : OperationPlanningPath
  destination : OperationPlanningPath
  decision : OperationPlanConflictDecision
deriving DecidableEq

structure OperationPlanningDestructiveEffect where
  destination : OperationPlanningPath
deriving DecidableEq

structure OperationPlannedCopyItem where
  source : OperationPlanningPath
  destination : OperationPlanningPath
  sourceKind : OperationPlanningItemKind
  estimate : Option OperationPlanningEstimateEvidence
deriving DecidableEq

structure OperationPlannedDeleteItem where
  source : OperationPlanningPath
  sourceKind : OperationPlanningItemKind
  estimate : Option OperationPlanningEstimateEvidence
deriving DecidableEq

structure OperationPreflightReport where
  items : List OperationPlannedCopyItem := []
  deletedItems : List OperationPlannedDeleteItem := []
  providerEvidence : List OperationPlanningProviderSnapshot := []
  itemEvidence : List OperationPlanningItemSnapshot := []
  nameEvidence : List OperationPlanningNameSnapshot := []
  accessEvidence : List OperationPlanningAccessSnapshot := []
  conflicts : List OperationPlanningConflict := []
  destructiveEffects : List OperationPlanningDestructiveEffect := []
  warnings : List OperationPlanningWarning := []
  destinationSpace : Option OperationPlanningSpaceEvidence := none
  estimatedFiles : Option UInt64 := none
  estimatedBytes : Option UInt64 := none
  requiresConfirmation : Bool := false
deriving DecidableEq

inductive OperationPreflightResult where
  | accepted (plan : OperationPlan) (report : OperationPreflightReport)
  | blocked (plan : OperationPlan) (report : OperationPreflightReport)
      (blockers : List OperationPlanningBlocker)
deriving DecidableEq

/-! ## What a report shows -/

namespace OperationPreflightReport

variable (probes : OperationPlanningProbes) (report : OperationPreflightReport)

/-- The report shows this evidence of the item, and it is what the probe answered. Items are
  probed once for all spellings of a path. -/
def Shown (path : OperationPlanningPath) (evidence : OperationPlanningItemEvidence) : Prop :=
  ⟨path.normalized, evidence⟩ ∈ report.itemEvidence ∧
    ∃ asked spelling, spelling.normalized = path.normalized ∧
      probes.item asked spelling = some (.ok evidence)

/-- The item was probed as this kind. -/
def Probed (path : OperationPlanningPath) (kind : OperationPlanningItemKind) : Prop :=
  ∃ evidence, evidence.kind = kind ∧ report.Shown probes path evidence

/-- The access was probed and granted, and the report shows it. -/
def Granted (path : OperationPlanningPath) (required : OperationPlanningRequiredAccess) : Prop :=
  ⟨path, required, ⟨.granted⟩⟩ ∈ report.accessEvidence ∧
    ∃ asked, probes.access asked path required = some (.ok ⟨.granted⟩)

/-- The provider of the path was probed, and the report shows its evidence. -/
def Provided (path : OperationPlanningPath) (evidence : OperationPlanningProviderEvidence) : Prop :=
  ⟨path, evidence⟩ ∈ report.providerEvidence ∧
    ∃ asked, probes.provider asked path = some (.ok evidence)

end OperationPreflightReport

end WinCommander.Operations.Planner
