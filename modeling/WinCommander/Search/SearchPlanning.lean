/-
  Search requests, backends and plans: `SearchPlanning::Plan`, which makes a plan of a request, and
  `SearchPlanning::IsValid`, the check that a plan passes before a run of it starts.
-/
import WinCommander.Pane.PaneState

namespace WinCommander.Search

open Library
open Pane (PaneId)

/-! ## Requests -/

inductive SearchNameMatch where
  | contains | exact
deriving DecidableEq

inductive SearchFileType where
  | any | regularFile | directory | symbolicLink | package | other
deriving DecidableEq

inductive SearchScope where
  | currentFolder | recursive | currentDisk | spotlightWholeMac
deriving DecidableEq

structure SearchSizeRange where
  minimumBytes : Option UInt64 := none
  maximumBytes : Option UInt64 := none
deriving DecidableEq

structure SearchModifiedRange where
  earliestSeconds : Option Int64 := none
  latestSeconds : Option Int64 := none
deriving DecidableEq

structure SearchFilters where
  nameMatch : SearchNameMatch := .contains
  extension : Option Bytes := none
  fileType : SearchFileType := .any
  size : SearchSizeRange := {}
  modified : SearchModifiedRange := {}
  content : Option Bytes := none
  includeHidden : Bool := false
deriving DecidableEq

structure SearchRequest where
  query : Bytes := []
  scope : SearchScope := .currentFolder
  filters : SearchFilters := {}
deriving DecidableEq

/-! ## Backends and plans -/

inductive SearchBackendKind where
  | directScan | spotlight
deriving DecidableEq

inductive SearchBackendSupport where
  | supported | unsupported | unavailable | indexUnavailable
deriving DecidableEq

inductive SearchBackendLimitation where
  | recursiveScopeUnavailable | currentDiskScopeUnavailable | wholeMacScopeRequiresSpotlight
  | contentSearchUnavailable | metadataSearchUnavailable | hiddenItemsUnavailable
  | fullDiskAccessMissing | permissionDeniedLocations | resultPathsUnavailable
  | providerUnavailable | spotlightUnavailable | spotlightIndexUnavailable
deriving DecidableEq

structure SearchBackendCapabilities where
  name : Bool := true
  extension : Bool := true
  type : Bool := false
  size : Bool := false
  modified : Bool := false
  content : Bool := false
  hiddenItems : Bool := false
  recursiveScope : Bool := false
  currentDiskScope : Bool := false
  wholeMacScope : Bool := false
  determinateProgress : Bool := false
deriving DecidableEq

structure SearchBackendDescriptor where
  kind : SearchBackendKind := .directScan
  support : SearchBackendSupport := .unavailable
  capabilities : SearchBackendCapabilities := {}
  limitations : List SearchBackendLimitation := []
deriving DecidableEq

structure SearchPlan where
  request : SearchRequest := {}
  backend : SearchBackendDescriptor := {}
  executionRoot : Bytes := []
deriving DecidableEq

def hasLimitation (backend : SearchBackendDescriptor) (limitation : SearchBackendLimitation) : Bool :=
  backend.limitations.contains limitation

/-! ## Normalization -/

inductive SearchPlanningFailure where
  | emptyCriteria | invalidExtension | invalidSizeRange | invalidModifiedRange
  | missingCurrentFolder | missingCurrentDiskRoot
deriving DecidableEq

/-- `std::isspace` in the C locale. -/
def isSpace (byte : UInt8) : Bool := byte == 32 || (9 ≤ byte && byte ≤ 13)

def trim (value : Bytes) : Bytes := ((value.dropWhile isSpace).reverse.dropWhile isSpace).reverse

def trimOptional : Option Bytes → Option Bytes
  | none => none
  | some value => if trim value = [] then none else some (trim value)

def usesMetadata (request : SearchRequest) : Bool :=
  request.filters.fileType ≠ .any || request.filters.size.minimumBytes.isSome ||
    request.filters.size.maximumBytes.isSome || request.filters.modified.earliestSeconds.isSome ||
    request.filters.modified.latestSeconds.isSome

def hasCriteria (request : SearchRequest) : Bool :=
  request.query ≠ [] || request.filters.extension.isSome || request.filters.fileType ≠ .any ||
    request.filters.size.minimumBytes.isSome || request.filters.size.maximumBytes.isSome ||
    request.filters.modified.earliestSeconds.isSome ||
    request.filters.modified.latestSeconds.isSome || request.filters.content.isSome

/-- Dots in front are dropped; what is left is a name without a separator. -/
def normalizeExtension : Option Bytes → Except SearchPlanningFailure (Option Bytes)
  | none => .ok none
  | some value =>
    let stripped := value.dropWhile (· == 46)
    if stripped = [] ∨ 47 ∈ stripped then .error .invalidExtension else .ok (some stripped)

def sizeRangeValid (size : SearchSizeRange) : Bool :=
  match size.minimumBytes, size.maximumBytes with
  | some minimum, some maximum => minimum ≤ maximum
  | _, _ => true

def modifiedRangeValid (modified : SearchModifiedRange) : Bool :=
  match modified.earliestSeconds, modified.latestSeconds with
  | some earliest, some latest => earliest ≤ latest
  | _, _ => true

def normalize (request : SearchRequest) : Except SearchPlanningFailure SearchRequest :=
  match normalizeExtension (trimOptional request.filters.extension) with
  | .error failure => .error failure
  | .ok extension =>
    let normalized : SearchRequest :=
      { request with
        query := trim request.query
        filters := { request.filters with
          extension := extension, content := trimOptional request.filters.content } }
    if ¬sizeRangeValid request.filters.size then .error .invalidSizeRange
    else if ¬modifiedRangeValid request.filters.modified then .error .invalidModifiedRange
    else if ¬hasCriteria normalized then .error .emptyCriteria
    else .ok normalized

/-! ## Planning -/

structure SearchPlanningFacts where
  currentFolder : Bytes := []
  currentDiskRoot : Option Bytes := none
  providerAvailable : Bool := true
  providerIsNative : Bool := false
  providerSupportsRecursive : Bool := false
  providerSupportsCurrentDisk : Bool := false
  providerSupportsMetadata : Bool := false
  providerSupportsContent : Bool := false
  providerSupportsHiddenItems : Bool := false
  providerReportsDeterminateProgress : Bool := false
  spotlightAvailable : Bool := false
  spotlightIndexAvailable : Bool := false
  spotlightSupportsContent : Bool := true
  fullDiskAccess : Bool := false
deriving DecidableEq

def addLimitation (backend : SearchBackendDescriptor) (limitation : SearchBackendLimitation) :
    SearchBackendDescriptor :=
  if hasLimitation backend limitation then backend
  else { backend with limitations := backend.limitations ++ [limitation] }

def markUnsupported (backend : SearchBackendDescriptor) (limitation : SearchBackendLimitation) :
    SearchBackendDescriptor :=
  addLimitation
    { backend with
      support := if backend.support = .supported then .unsupported else backend.support }
    limitation

def directCapabilities (facts : SearchPlanningFacts) : SearchBackendCapabilities where
  name := true
  extension := true
  type := facts.providerSupportsMetadata
  size := facts.providerSupportsMetadata
  modified := facts.providerSupportsMetadata
  content := facts.providerSupportsContent
  hiddenItems := facts.providerSupportsHiddenItems
  recursiveScope := facts.providerSupportsRecursive
  currentDiskScope := facts.providerIsNative && facts.providerSupportsCurrentDisk
  wholeMacScope := false
  determinateProgress := facts.providerReportsDeterminateProgress

def spotlightCapabilities (facts : SearchPlanningFacts) : SearchBackendCapabilities where
  name := true
  extension := true
  type := true
  size := true
  modified := true
  content := facts.spotlightSupportsContent
  hiddenItems := true
  recursiveScope := true
  currentDiskScope := true
  wholeMacScope := true
  determinateProgress := false

/-- The backend of a search of the whole Mac. -/
def spotlightBackend (facts : SearchPlanningFacts) : SearchBackendDescriptor :=
  let backend : SearchBackendDescriptor :=
    { kind := .spotlight, capabilities := spotlightCapabilities facts, support := .supported }
  let backend :=
    if !facts.spotlightAvailable then
      addLimitation { backend with support := .unavailable } .spotlightUnavailable
    else if !facts.spotlightIndexAvailable then
      addLimitation { backend with support := .indexUnavailable } .spotlightIndexUnavailable
    else backend
  if !facts.fullDiskAccess then addLimitation backend .fullDiskAccessMissing else backend

/-- The backend that goes through the folders of a provider. -/
def directBackend (facts : SearchPlanningFacts) : SearchBackendDescriptor :=
  let backend : SearchBackendDescriptor :=
    { kind := .directScan, capabilities := directCapabilities facts, support := .supported }
  if !facts.providerAvailable then
    addLimitation { backend with support := .unavailable } .providerUnavailable
  else backend

def markIf (condition : Bool) (limitation : SearchBackendLimitation)
    (backend : SearchBackendDescriptor) : SearchBackendDescriptor :=
  if condition then markUnsupported backend limitation else backend

def SearchBackendCapabilities.metadata (capabilities : SearchBackendCapabilities) : Bool :=
  capabilities.type && capabilities.size && capabilities.modified

/-- What the filters ask for that the backend lacks. -/
def markFilters (request : SearchRequest) (backend : SearchBackendDescriptor) :
    SearchBackendDescriptor :=
  let content := markIf (request.filters.content.isSome && !backend.capabilities.content)
    .contentSearchUnavailable backend
  let metadata := markIf (usesMetadata request && !backend.capabilities.metadata)
    .metadataSearchUnavailable content
  markIf (request.filters.includeHidden && !backend.capabilities.hiddenItems)
    .hiddenItemsUnavailable metadata

/-- What the scope asks for that the backend lacks. -/
def markScope (request : SearchRequest) (backend : SearchBackendDescriptor) :
    SearchBackendDescriptor :=
  let recursive := markIf (request.scope = .recursive && !backend.capabilities.recursiveScope)
    .recursiveScopeUnavailable backend
  markIf (request.scope = .currentDisk && !backend.capabilities.currentDiskScope)
    .currentDiskScopeUnavailable recursive

/-- Where a scan starts. -/
def scanRoot (request : SearchRequest) (facts : SearchPlanningFacts) :
    Except SearchPlanningFailure Bytes :=
  if trim facts.currentFolder = [] then .error .missingCurrentFolder
  else if request.scope = .currentDisk then
    match trimOptional facts.currentDiskRoot with
    | none => .error .missingCurrentDiskRoot
    | some root => .ok root
  else .ok (trim facts.currentFolder)

/-- `SearchPlanning::Plan`. -/
def planSearch (request : SearchRequest) (facts : SearchPlanningFacts) :
    Except SearchPlanningFailure SearchPlan := do
  let normalized ← normalize request
  if normalized.scope = .spotlightWholeMac then
    return {
      request := normalized
      backend := markFilters normalized (spotlightBackend facts)
      executionRoot := [] }
  else do
    let executionRoot ← scanRoot normalized facts
    return {
      request := normalized
      backend := markFilters normalized (markScope normalized (directBackend facts))
      executionRoot := executionRoot }

/-! ## Valid plans -/

def isUnsupportedLimitation : SearchBackendLimitation → Bool
  | .recursiveScopeUnavailable | .currentDiskScopeUnavailable | .wholeMacScopeRequiresSpotlight
  | .contentSearchUnavailable | .metadataSearchUnavailable | .hiddenItemsUnavailable => true
  | _ => false

/-- A plan names a limitation only where it has a reason to. -/
def limitationFits (plan : SearchPlan) : SearchBackendLimitation → Bool
  | .recursiveScopeUnavailable =>
    plan.request.scope = .recursive && !plan.backend.capabilities.recursiveScope
  | .currentDiskScopeUnavailable =>
    plan.request.scope = .currentDisk && !plan.backend.capabilities.currentDiskScope
  | .wholeMacScopeRequiresSpotlight => false
  | .contentSearchUnavailable =>
    plan.request.filters.content.isSome && !plan.backend.capabilities.content
  | .metadataSearchUnavailable =>
    usesMetadata plan.request && !plan.backend.capabilities.metadata
  | .hiddenItemsUnavailable =>
    plan.request.filters.includeHidden && !plan.backend.capabilities.hiddenItems
  | .fullDiskAccessMissing => plan.request.scope = .spotlightWholeMac
  | .providerUnavailable =>
    plan.request.scope ≠ .spotlightWholeMac && plan.backend.support = .unavailable
  | .spotlightUnavailable =>
    plan.request.scope = .spotlightWholeMac && plan.backend.support = .unavailable
  | .spotlightIndexUnavailable =>
    plan.request.scope = .spotlightWholeMac && plan.backend.support = .indexUnavailable
  | .permissionDeniedLocations | .resultPathsUnavailable => false

/-- A supported plan can do all that its request asks for. -/
def supportedFits (plan : SearchPlan) : Bool :=
  let capabilities := plan.backend.capabilities
  let filters := plan.request.filters
  !(filters.content.isSome && !capabilities.content) &&
    !(usesMetadata plan.request && !capabilities.metadata) &&
    !(filters.includeHidden && !capabilities.hiddenItems) &&
    !(plan.request.scope = .recursive && !capabilities.recursiveScope) &&
    !(plan.request.scope = .currentDisk && !capabilities.currentDiskScope) &&
    !plan.backend.limitations.any (· ≠ .fullDiskAccessMissing) &&
    !(hasLimitation plan.backend .fullDiskAccessMissing && plan.request.scope ≠ .spotlightWholeMac)

/-- What is not supported says why. -/
def supportFits (plan : SearchPlan) : Bool :=
  match plan.backend.support with
  | .supported => supportedFits plan
  | .unsupported => plan.backend.limitations.any isUnsupportedLimitation
  | .unavailable =>
    if plan.request.scope = .spotlightWholeMac then hasLimitation plan.backend .spotlightUnavailable
    else hasLimitation plan.backend .providerUnavailable
  | .indexUnavailable =>
    plan.request.scope = .spotlightWholeMac &&
      hasLimitation plan.backend .spotlightIndexUnavailable

def isValid (plan : SearchPlan) : Bool :=
  let spotlightScope : Bool := plan.request.scope = .spotlightWholeMac
  match normalize plan.request with
  | .error _ => false
  | .ok normalized =>
    normalized = plan.request &&
      spotlightScope = decide (plan.backend.kind = .spotlight) &&
      !(!spotlightScope && plan.executionRoot.isEmpty) &&
      !(spotlightScope && !plan.executionRoot.isEmpty) &&
      !(!plan.request.query.isEmpty && !plan.backend.capabilities.name) &&
      !(plan.request.filters.extension.isSome && !plan.backend.capabilities.extension) &&
      spotlightScope = plan.backend.capabilities.wholeMacScope &&
      decide plan.backend.limitations.Nodup &&
      plan.backend.limitations.all (limitationFits plan) &&
      supportFits plan

end WinCommander.Search
