/-
  `OperationPlanner::Preflight` and the run behind it.

  `OperationPlanningRun` is a review whose state is the run's members: it objects by adding
  a blocker and never removes one, and the plan is accepted when there is none at the end.
  A probe that throws counts as `Failed`. Every early return of the source is a `block`
  (a blocker, then return) or a `leave`.
-/
import WinCommander.Library.Review
import WinCommander.Operations.Planner.Report

namespace WinCommander.Operations.Planner

open Library
open Review (read leave orLeave leaveIf doIf forEach)

abbrev Cache (α : Type) := List (Bytes × OperationPlanningProbeResult α)

/-- The members of `OperationPlanningRun`, with what the probes have been asked. -/
structure RunState where
  asked : List Question := []
  report : OperationPreflightReport := {}
  blockers : List OperationPlanningBlocker := []
  providerCache : Cache OperationPlanningProviderEvidence := []
  itemCache : Cache OperationPlanningItemEvidence := []
  nameCache : Cache OperationPlanningNameEvidence := []
  accessCache : Cache OperationPlanningAccessEvidence := []
  estimateCache : Cache OperationPlanningEstimateEvidence := []
  effectiveDestinations : List Bytes := []
  cancelled : Bool := false
deriving DecidableEq

def RunState.clean (s : RunState) : Prop := s.blockers = []

abbrev Planning (α : Type) := Review RunState RunState.clean α

/-! ## Blockers, warnings and the report -/

/-- Each blocker and each warning is listed once. -/
def listOnce {α : Type} [DecidableEq α] (list : List α) (entry : α) : List α :=
  if entry ∈ list then list else list ++ [entry]

theorem listOnce_ne_nil [DecidableEq α] (list : List α) (entry : α) : listOnce list entry ≠ [] := by
  unfold listOnce
  split
  · next h => exact List.ne_nil_of_mem h
  · exact List.concat_ne_nil _ _

def addBlocker (code : OperationPlanningBlockerCode) (path : Option OperationPlanningPath) :
    Planning Unit :=
  Review.modify (fun s => { s with blockers := listOnce s.blockers ⟨code, path⟩ })
    fun _ h => absurd h (listOnce_ne_nil _ _)

/-- A blocker, then an early return. -/
def block {α : Type} (code : OperationPlanningBlockerCode) (path : Option OperationPlanningPath) :
    Planning α := do
  addBlocker code path
  leave

def blockIf (c : Prop) [Decidable c] (code : OperationPlanningBlockerCode)
    (path : Option OperationPlanningPath) : Planning Unit :=
  doIf c (block code path)

def updateReport (f : OperationPreflightReport → OperationPreflightReport) : Planning Unit :=
  Review.modify (fun s => { s with report := f s.report }) fun _ h => h

def addWarning (code : OperationPlanningWarningCode) (path : Option OperationPlanningPath) :
    Planning Unit :=
  updateReport fun r => { r with warnings := listOnce r.warnings ⟨code, path⟩ }

def probeBlocker : OperationPlanningProbeError → OperationPlanningBlockerCode
  | .unsupported | .unsupportedItem => .providerCapabilityUnsupported
  | .invalidName => .invalidDestinationName
  | .unavailable => .providerUnavailable
  | .cancelled => .probeCancelled
  | .permissionDenied => .permissionDenied
  | .failed | .outside _ => .probeFailed

def addProbeBlocker (error : OperationPlanningProbeError) (path : OperationPlanningPath) :
    Planning Unit := do
  addBlocker (probeBlocker error) path
  doIf (probeBlocker error = .probeCancelled)
    (Review.modify (fun s => { s with cancelled := true }) fun _ h => h)

/-! ## The probes, each with its cache -/

section Probes

variable (probes : OperationPlanningProbes)

/-- The cached answer for this key, or a fresh one. -/
def cached {α : Type} (cache : RunState → Cache α) (key : Bytes) (fresh : Planning (Option α)) :
    Planning (Option α) := do
  match (← read cache).lookup key with
  | some (.ok evidence) => return some evidence
  | some (.error _) => return none
  | none => fresh

/-- Ask, and store the answer. A probe that throws has failed. -/
def ask {α : Type} (question : Question)
    (answer : List Question → Option (OperationPlanningProbeResult α))
    (store : OperationPlanningProbeResult α → RunState → RunState)
    (h : ∀ result s, (store result s).clean → s.clean) : Planning (OperationPlanningProbeResult α) :=
  Review.act
    (fun s =>
      let result := (answer s.asked).getD (.error .failed)
      (store result { s with asked := s.asked ++ [question] }, result))
    fun s hs => h _ { s with asked := s.asked ++ [question] } hs

/-- `Provider`; `none` is its null pointer. -/
def provider (path : OperationPlanningPath) : Planning (Option OperationPlanningProviderEvidence) :=
  cached RunState.providerCache path.key do
    let result ← ask (.provider path) (probes.provider · path)
      (fun result s => { s with providerCache := (path.key, result) :: s.providerCache })
      fun _ _ h => h
    match result with
    | .error error => do
        addProbeBlocker error path
        return none
    | .ok evidence =>
      if evidence.pathIdentity.isValid then do
        updateReport fun r => { r with providerEvidence := r.providerEvidence ++ [⟨path, evidence⟩] }
        return some evidence
      else do
        addBlocker .probeFailed path
        return none

/-- `Item`: one answer for all spellings of a path. -/
def item (path : OperationPlanningPath) : Planning (Option OperationPlanningItemEvidence) :=
  cached RunState.itemCache path.itemKey do
    let result ← ask (.item path) (probes.item · path)
      (fun result s => { s with itemCache := (path.itemKey, result) :: s.itemCache })
      fun _ _ h => h
    match result with
    | .error error => do
        addProbeBlocker error path
        return none
    | .ok evidence =>
      if evidence.kind.isValid then do
        updateReport fun r =>
          { r with itemEvidence := r.itemEvidence ++ [⟨path.normalized, evidence⟩] }
        return some evidence
      else do
        addBlocker .probeFailed path
        return none

/-- `Name`. -/
def destinationName (path : OperationPlanningPath) :
    Planning (Option OperationPlanningNameEvidence) :=
  cached RunState.nameCache path.key do
    let result ← ask (.destinationName path) (probes.destinationName · path)
      (fun result s => { s with nameCache := (path.key, result) :: s.nameCache })
      fun _ _ h => h
    match result with
    | .error error => do
        addProbeBlocker error path
        return none
    | .ok evidence => do
        updateReport fun r => { r with nameEvidence := r.nameEvidence ++ [⟨path, evidence⟩] }
        return some evidence

/-- `AccessKey`. -/
def accessKey (path : OperationPlanningPath) (required : OperationPlanningRequiredAccess) : Bytes :=
  path.key ++ [required.code]

/-- `Access`. An access that is not granted blocks, and is returned all the same. -/
def access (path : OperationPlanningPath) (required : OperationPlanningRequiredAccess) :
    Planning (Option OperationPlanningAccessEvidence) :=
  cached RunState.accessCache (accessKey path required) do
    let result ← ask (.access path required) (fun asked => probes.access asked path required)
      (fun result s => { s with accessCache := (accessKey path required, result) :: s.accessCache })
      fun _ _ h => h
    match result with
    | .error error => do
        addProbeBlocker error path
        return none
    | .ok evidence => do
        updateReport fun r =>
          { r with accessEvidence := r.accessEvidence ++ [⟨path, required, evidence⟩] }
        match evidence.state with
        | .granted => pure ()
        | .permissionRequired => addBlocker .permissionRequired path
        | .denied => addBlocker .permissionDenied path
        | .outside _ => addBlocker .probeFailed path
        return some evidence

/-- `Estimate`. -/
def estimate (path destination : OperationPlanningPath) :
    Planning (Option OperationPlanningEstimateEvidence) :=
  cached RunState.estimateCache (path.key ++ 0 :: destination.key) do
    let result ← ask (.estimate path destination) (fun asked => probes.estimate asked path destination)
      (fun result s => { s with
        estimateCache := (path.key ++ 0 :: destination.key, result) :: s.estimateCache })
      fun _ _ h => h
    match result with
    | .error .unsupported => do
        addWarning .estimateUnavailable path
        return none
    | .error error => do
        addProbeBlocker error path
        return none
    | .ok evidence => return some evidence

def checkSpace (path : OperationPlanningPath) : Planning Unit := do
  let result ← ask (.space path) (probes.space · path) (fun _ s => s) fun _ _ h => h
  match result with
  | .error .unsupported => addWarning .spaceUnknown path
  | .error error => addProbeBlocker error path
  | .ok evidence => do
      updateReport fun r => { r with destinationSpace := some evidence }
      match evidence.availableBytes with
      | none => addWarning .spaceUnknown path
      | some available => do
          let estimated ← read (·.report.estimatedBytes)
          doIf (∃ bytes ∈ estimated, available < bytes) (addBlocker .insufficientSpace path)

end Probes

/-! ## Totals -/

structure Totals where
  files : UInt64 := 0
  bytes : UInt64 := 0
  complete : Bool := true
deriving DecidableEq

/-- `accumulate` over the reviewed items; the two vectors share the loop. -/
def accumulate (totals : Totals) :
    List (OperationPlanningPath × Option OperationPlanningEstimateEvidence) → Planning Totals
  | [] => return totals
  | (_, none) :: rest => accumulate { totals with complete := false } rest
  | (source, some e) :: rest => do
      if 0xFFFFFFFFFFFFFFFF - totals.files < e.files ∨ 0xFFFFFFFFFFFFFFFF - totals.bytes < e.bytes then do
        addBlocker .estimateOverflow source
        accumulate { totals with complete := false } rest
      else
        accumulate { totals with files := totals.files + e.files, bytes := totals.bytes + e.bytes } rest

def calculateTotals : Planning Unit := do
  let report ← read RunState.report
  let totals ← accumulate {} (report.items.map (fun i => (i.source, i.estimate)) ++
    report.deletedItems.map fun i => (i.source, i.estimate))
  doIf totals.complete
    (updateReport fun r =>
      { r with estimatedFiles := some totals.files, estimatedBytes := some totals.bytes })

/-- The source's path. -/
def sourcePath (source : OperationPlanSource) : OperationPlanningPath :=
  ⟨source.providerId, source.absolutePath⟩

/-- What both `size` estimates of a single file say. -/
def fileEstimate (evidence : OperationPlanningItemEvidence) :
    Option OperationPlanningEstimateEvidence :=
  evidence.byteSize.map fun size => { files := 1, bytes := size }

section Runs

variable (probes : OperationPlanningProbes) (plan : OperationPlan)

/-! ## Permanent deletion -/

/-- An access that was granted, or an early return. -/
def grantedOrLeave (path : OperationPlanningPath) (required : OperationPlanningRequiredAccess) :
    Planning Unit := do
  let evidence ← orLeave (access probes path required)
  leaveIf (evidence.state ≠ .granted)

def leaveIfCancelled : Planning Unit := do
  leaveIf (← read RunState.cancelled)

def planDeleteSource (source : OperationPlanSource) : Planning Unit := do
  let source := sourcePath source
  let evidence ← orLeave (provider probes source.parent)
  blockIf (¬evidence.canDeletePermanently) .providerCapabilityUnsupported source.parent
  let parentItem ← orLeave (item probes source.parent)
  blockIf (parentItem.kind ≠ .directory) .sourceMissing source.parent
  let sourceItem ← orLeave (item probes source)
  blockIf (sourceItem.kind = .missing) .sourceMissing source
  blockIf (sourceItem.kind ≠ .file) .providerCapabilityUnsupported source
  grantedOrLeave probes source.parent .delete
  leaveIfCancelled
  updateReport fun r => { r with deletedItems := r.deletedItems ++
    [⟨source, sourceItem.kind, fileEstimate sourceItem⟩] }

/-- `NothingToDo`, when nothing was planned and nothing was in the way. -/
def checkNothingToDo (planned : RunState → Bool) : Planning Unit := do
  let s ← read id
  doIf (¬planned s ∧ s.blockers = []) (addBlocker .nothingToDo none)

def finishDelete : Planning Unit := do
  calculateTotals
  addWarning .runtimeRevalidationRequired none
  checkNothingToDo fun s => s.cancelled || !s.report.deletedItems.isEmpty

def runPermanentDelete : Planning Unit := do
  forEach RunState.cancelled (planDeleteSource probes) plan.sources
  finishDelete

/-! ## What copying and moving share -/

/-- The directory that the planned items appear in. -/
def destinationDirectory (destination : OperationPlanDestination) : OperationPlanningPath :=
  ⟨destination.providerId,
    if destination.kind = .directory then trimTrailingSlashes destination.absolutePath
    else parentPath destination.absolutePath⟩

def effectiveDestination (destination : OperationPlanDestination) (name : Bytes) :
    OperationPlanningPath :=
  ⟨destination.providerId,
    if destination.kind = .directory then joinPath destination.absolutePath name
    else destination.absolutePath⟩

/-- The provider of the destination directory, and whether the directory is ready. -/
def checkDestination (capable : OperationPlanningProviderEvidence → Bool)
    (required : OperationPlanningRequiredAccess) (directory : OperationPlanningPath) :
    Planning (Option OperationPlanningProviderEvidence × Bool) := do
  match ← provider probes directory with
  | none => return (none, false)
  | some evidence =>
    if capable evidence then
      match ← item probes directory with
      | none => return (some evidence, false)
      | some directoryItem =>
        if directoryItem.kind = .missing then do
          addBlocker .destinationMissing directory
          return (some evidence, false)
        else if directoryItem.kind ≠ .directory then do
          addBlocker .destinationNotDirectory directory
          return (some evidence, false)
        else do
          let granted ← access probes directory required
          return (some evidence, granted = some ⟨.granted⟩)
    else do
      addBlocker .destinationNotWritable directory
      return (some evidence, false)

/-- The name a provider has not seen before. -/
def checkDestinationName (destination : OperationPlanningPath) : Planning Unit := do
  let name ← orLeave (destinationName probes destination)
  blockIf (¬name.valid) .invalidDestinationName destination

/-- The semantics of a destination provider, if there is one. -/
def destinationIdentity (provider : Option OperationPlanningProviderEvidence) :
    OperationPlanningPathIdentitySemantics :=
  provider.elim .unavailable (·.pathIdentity)

def checkNotSame (comparison : OperationPlanningPathIdentitySemantics)
    (source destination : OperationPlanningPath) : Planning Unit := do
  blockIf (¬comparison.supportsComparison source.absolutePath destination.absolutePath)
    .pathIdentityUnavailable destination
  blockIf (samePath source destination comparison.caseSensitive) .samePath destination

/-- Two sources of one plan must not share an effective destination. -/
def claimDestination (identity : OperationPlanningPathIdentitySemantics)
    (destination : OperationPlanningPath) : Planning Unit := do
  blockIf (¬identity.supportsComparison destination.absolutePath destination.absolutePath)
    .pathIdentityUnavailable destination
  let key := destination.providerId ++ 0 :: comparablePath identity.caseSensitive destination.absolutePath
  blockIf (key ∈ (← read RunState.effectiveDestinations)) .duplicateDestination destination
  Review.modify (fun s => { s with effectiveDestinations := key :: s.effectiveDestinations })
    fun _ h => h

def addItem (planned : OperationPlannedCopyItem) : Planning Unit :=
  updateReport fun r => { r with items := r.items ++ [planned] }

/-! ## Copy -/

/-- What `PlanSource` does about an item that exists at the destination. -/
def resolveConflict (decision : OperationPlanConflictDecision)
    (source destination : OperationPlanningPath)
    (sourceItem destinationItem : OperationPlanningItemEvidence) : Planning Unit := do
  updateReport fun r => { r with conflicts := r.conflicts ++ [⟨source, destination, decision⟩] }
  match decision with
  | .ask => block .conflictDecisionRequired destination
  | .replace => do
      blockIf (sourceItem.kind ≠ destinationItem.kind) .conflictPolicyUnsupported destination
      blockIf (sourceItem.kind = .directory) .conflictPolicyUnsupported destination
      let replacementProvider ← orLeave (provider probes destination)
      let replacingDirectory := destinationItem.kind = .directory
      blockIf (¬if replacingDirectory then replacementProvider.canReplaceDirectory
        else replacementProvider.canReplaceFile) .providerCapabilityUnsupported destination
      grantedOrLeave probes destination (if replacingDirectory then .replaceDirectory else .replaceFile)
      updateReport fun r => { r with destructiveEffects := r.destructiveEffects ++ [⟨destination⟩] }
      addWarning .destructiveReplacement destination
      updateReport fun r => { r with requiresConfirmation := true }
  | .skip => leave
  | .mergeFolders => block .conflictPolicyUnsupported destination
  | .keepBoth | .renameNew | .renameExisting => block .conflictPolicyUnsupported destination
  -- The switch has no default; a plan holds no such decision.
  | .outside _ => pure ()

/-- The size of a file that is known needs no probe. -/
def estimateItem (source destination : OperationPlanningPath)
    (sourceItem : OperationPlanningItemEvidence) :
    Planning (Option OperationPlanningEstimateEvidence) :=
  if (sourceItem.kind = .file ∨ sourceItem.kind = .symlink) ∧ sourceItem.byteSize ≠ none then
    pure (fileEstimate sourceItem)
  else estimate probes source destination

/-- The end of `PlanSource`: the estimate, and the item. -/
def planItem (destinationProvider : Option OperationPlanningProviderEvidence)
    (source destination : OperationPlanningPath) (sourceItem : OperationPlanningItemEvidence) :
    Planning Unit := do
  let before ← read (·.blockers.length)
  let estimated ← estimateItem probes source destination sourceItem
  let canCopySymlink := destinationProvider.any (·.canCopySymlinkTo)
  blockIf (estimated.any (·.containsSymlinks) ∧ ¬canCopySymlink) .providerCapabilityUnsupported destination
  blockIf (sourceItem.kind = .directory ∧ estimated = none ∧ ¬canCopySymlink)
    .providerCapabilityUnsupported destination
  let now ← read (·.blockers.length)
  blockIf (sourceItem.kind = .directory ∧ estimated = none ∧
    source.providerId ≠ destination.providerId ∧ now = before)
    .destinationNameEvidenceUnavailable destination
  addItem ⟨source, destination, sourceItem.kind, estimated⟩

/-- The checks of `PlanSource` on the source. -/
def checkSource (destination : OperationPlanDestination)
    (destinationProvider : Option OperationPlanningProviderEvidence)
    (source effective : OperationPlanningPath) :
    Planning (OperationPlanningProviderEvidence × OperationPlanningItemEvidence) := do
  let sourceProvider ← orLeave (provider probes source)
  blockIf (¬sourceProvider.canCopyFrom) .sourceUnreadable source
  let sourceItem ← orLeave (item probes source)
  blockIf (sourceItem.kind = .missing) .sourceMissing source
  blockIf (sourceItem.kind = .other) .providerCapabilityUnsupported source
  blockIf (sourceItem.kind = .symlink ∧ ¬destinationProvider.any (·.canCopySymlinkTo))
    .providerCapabilityUnsupported effective
  -- A name that comes from the same provider needs no evidence.
  doIf (¬(destination.kind = .directory ∧ source.providerId = effective.providerId))
    (checkDestinationName probes effective)
  grantedOrLeave probes source .read
  leaveIfCancelled
  return (sourceProvider, sourceItem)

/-- `PlanSource` checks the identity of both ends within one provider only. -/
def checkNotRecursive (comparison : OperationPlanningPathIdentitySemantics)
    (source effective : OperationPlanningPath) (kind : OperationPlanningItemKind) : Planning Unit := do
  checkNotSame comparison source effective
  blockIf (kind = .directory ∧ isDescendant source effective comparison.caseSensitive)
    .recursiveDestination effective

def planSource (destination : OperationPlanDestination) (decision : OperationPlanConflictDecision)
    (destinationProvider : Option OperationPlanningProviderEvidence) (ready : Bool)
    (source : OperationPlanSource) : Planning Unit := do
  let source := sourcePath source
  let name := baseName source.absolutePath
  blockIf (name = []) .invalidSourceName source
  let effective := effectiveDestination destination name
  let (sourceProvider, sourceItem) ← checkSource probes destination destinationProvider source effective
  let identity := destinationIdentity destinationProvider
  doIf (source.providerId = effective.providerId)
    (checkNotRecursive (.combine sourceProvider.pathIdentity identity) source effective sourceItem.kind)
  leaveIf (¬ready)
  let destinationItem ← orLeave (item probes effective)
  blockIf (destinationItem.kind = .other) .providerCapabilityUnsupported effective
  doIf (destinationItem.kind ≠ .missing)
    (resolveConflict probes decision source effective sourceItem destinationItem)
  doIf (1 < plan.sources.length) (claimDestination identity effective)
  planItem probes destinationProvider source effective sourceItem

/-- The conflict policies that a copy does not support. -/
def copyPolicyUnsupported (policy : OperationPlanConflictPolicy) : Bool :=
  policy.decision = .keepBoth || policy.decision = .renameNew || policy.decision = .renameExisting ||
    policy.decision = .mergeFolders ||
    (policy.decision != .ask && (policy.scope = .sameExtension || policy.scope = .sameFolder ||
      (policy.scope = .thisItem && plan.sources.length != 1)))

/-- `Run` for a copy. `Create` makes sure that there is a policy and a destination. -/
def runCopy : Planning Unit := do
  let policy ← orLeave (pure plan.conflictPolicy)
  blockIf (copyPolicyUnsupported plan policy) .conflictPolicyUnsupported none
  let destination ← orLeave (pure plan.destination)
  let directory := destinationDirectory destination
  let (destinationProvider, ready) ← checkDestination probes (·.canCopyTo) .write directory
  forEach RunState.cancelled (planSource probes plan destination policy.decision destinationProvider ready)
    plan.sources
  calculateTotals
  let s ← read id
  doIf (¬s.cancelled ∧ s.report.items ≠ []) (checkSpace probes directory)
  addWarning .runtimeRevalidationRequired none
  checkNothingToDo fun s => !s.report.items.isEmpty

/-! ## Move -/

/-- The checks of `PlanMoveSource` on the source and its parent. -/
def checkMoveSource (destination : OperationPlanDestination) (source effective : OperationPlanningPath) :
    Planning (OperationPlanningProviderEvidence × OperationPlanningItemEvidence) := do
  let sourceProvider ← orLeave (provider probes source.parent)
  blockIf (¬sourceProvider.canRename) .providerCapabilityUnsupported source.parent
  let parentItem ← orLeave (item probes source.parent)
  blockIf (parentItem.kind ≠ .directory) .sourceMissing source.parent
  let sourceItem ← orLeave (item probes source)
  blockIf (sourceItem.kind = .missing) .sourceMissing source
  blockIf (sourceItem.kind ≠ .file) .providerCapabilityUnsupported source
  doIf (destination.kind ≠ .directory) (checkDestinationName probes effective)
  grantedOrLeave probes source.parent .rename
  leaveIfCancelled
  return (sourceProvider, sourceItem)

def planMoveSource (destination : OperationPlanDestination) (decision : OperationPlanConflictDecision)
    (destinationProvider : Option OperationPlanningProviderEvidence) (ready : Bool)
    (source : OperationPlanSource) : Planning Unit := do
  let source := sourcePath source
  let name := baseName source.absolutePath
  blockIf (name = []) .invalidSourceName source
  let effective := effectiveDestination destination name
  let (sourceProvider, sourceItem) ← checkMoveSource probes destination source effective
  let identity := destinationIdentity destinationProvider
  checkNotSame (.combine sourceProvider.pathIdentity identity) source effective
  leaveIf (¬ready)
  let destinationItem ← orLeave (item probes effective)
  doIf (destinationItem.kind ≠ .missing) do
    updateReport fun r => { r with conflicts := r.conflicts ++ [⟨source, effective, decision⟩] }
    block .conflictDecisionRequired effective
  doIf (1 < plan.sources.length) (claimDestination identity effective)
  addItem ⟨source, effective, sourceItem.kind, fileEstimate sourceItem⟩

def finishMove : Planning Unit := do
  calculateTotals
  addWarning .runtimeRevalidationRequired none
  checkNothingToDo fun s => s.cancelled || !s.report.items.isEmpty

def runMove : Planning Unit := do
  let policy ← orLeave (pure plan.conflictPolicy)
  let destination ← orLeave (pure plan.destination)
  blockIf (destination.kind ≠ .exactItem ∧ destination.kind ≠ .directory) .unsupportedPlanType none
  blockIf (policy.decision ≠ .ask ∨ policy.scope ≠ .thisItem) .conflictPolicyUnsupported none
  -- Refused before anything is probed.
  blockIf (∃ source ∈ plan.sources, source.providerId ≠ destination.providerId)
    .providerCapabilityUnsupported (some ⟨destination.providerId, destination.absolutePath⟩)
  let (destinationProvider, ready) ←
    checkDestination probes (·.canRename) .rename (destinationDirectory destination)
  forEach RunState.cancelled
    (planMoveSource probes plan destination policy.decision destinationProvider ready) plan.sources
  finishMove

/-! ## Preflight -/

/-- `OperationPlanningRun::Run`. -/
def run : Planning Unit :=
  match plan.type with
  | .move => runMove probes plan
  | .permanentDelete => runPermanentDelete probes plan
  | .copy => runCopy probes plan
  | .rename | .trash | .outside _ => addBlocker .unsupportedPlanType none

/-- `OperationPlanner::Preflight`. A run that returns early ends in `Block`, after a blocker. -/
def preflight : OperationPreflightResult :=
  let s := ((run probes plan).run {}).1
  if s.blockers = [] then .accepted plan s.report else .blocked plan s.report s.blockers

end Runs

end WinCommander.Operations.Planner
