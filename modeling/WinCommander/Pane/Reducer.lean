/-
  `PaneLifecycleReducer`: composes a pane's committed projections with its lifecycle events.
-/
import WinCommander.Pane.PaneState

namespace WinCommander.Pane

variable {Error : Type} [BEq Error]

/-! ## Committed projections -/

def isValidSortState (sortState : PaneSortState) (loadPhase : PaneLoadPhase) : Bool :=
  if sortState.collation = .unknown ∧ loadPhase = .loaded then false
  else
    match sortState.key with
    | .unknown => loadPhase != .loaded && sortState.direction == .none
    | .unsorted => sortState.direction == .none
    | .rawName => sortState.direction == .ascending
    | .name | .extension | .size | .modifiedTime | .createdTime | .addedTime | .accessedTime =>
      sortState.direction == .ascending || sortState.direction == .descending

def groupingKeyForSort : PaneSortKey → PaneGroupingKey
  | .unsorted | .rawName | .name => .name
  | .extension => .extension
  | .size => .size
  | .modifiedTime => .modifiedTime
  | .createdTime => .createdTime
  | .addedTime => .addedTime
  | .accessedTime => .accessedTime
  | .unknown => .unknown

def isValidGroupingState (sortState : PaneSortState) (groupingState : PaneGroupingState) : Bool :=
  if groupingState.enabled = false then groupingState.key == .unknown
  else
    let expectedKey := groupingKeyForSort sortState.key
    expectedKey != .unknown && groupingState.key == expectedKey

def isValidViewState (viewState : PaneViewState) (loadPhase : PaneLoadPhase) : Bool :=
  if viewState.layoutIndex.any (· < 0) then false
  else
    match viewState.mode with
    | .unknown => loadPhase != .loaded && viewState.layoutIndex.isNone
    | .icons | .details | .gallery => true

def isValidHistoryState (state : PaneState Error) : Bool :=
  if state.currentHistoryEntryId = some 0 then false
  else if state.currentHistoryEntryId.isNone ∧
      (state.historyAvailability.canGoBack ∨ state.historyAvailability.canGoForward) then false
  else true

/-- Every selected item is one of the listing, and none twice. -/
def selectionIsValid (state : PaneState Error) (listing : Listing) : Bool :=
  (state.selectedItems.items.all fun item =>
      item.listing == some listing && item.index < listing.count) &&
    (state.selectedItems.items.map (·.index)).Nodup

/-- The payload is the one that was validated with the trusted projection. -/
def selectionWasValidated (state : PaneState Error) (trusted : Option (PaneState Error)) : Bool :=
  !state.selectedItems.items.isEmpty &&
    trusted.any fun trusted =>
      state.listing == trusted.listing &&
        state.selectedItems.storageIdentity == trusted.selectedItems.storageIdentity

def isCommittedProjection (state : PaneState Error) (trusted : Option (PaneState Error)) : Bool :=
  if state.visibleError.isSome then false
  else if isValidSortState state.sortState state.loadPhase = false then false
  else if isValidGroupingState state.sortState state.groupingState = false then false
  else if isValidViewState state.viewState state.loadPhase = false then false
  else if isValidHistoryState state = false then false
  else if state.loadPhase = .empty then
    state.focusedItem.listing.isNone && state.selectedItems.items.isEmpty &&
      state.itemCount == 0 && state.selectedCount == 0 && state.selectedBytes == 0
  else
    match state.loadPhase, state.listing with
    | .loaded, some listing =>
      let selectedSize := state.selectedItems.items.length
      if state.focusedItem.listing.isSome ∧ (state.focusedItem.listing ≠ some listing ∨
          state.focusedItem.index ≥ listing.count) then false
      else if selectedSize > 2147483647 ∨ state.itemCount < 0 ∨ state.selectedCount < 0 ∨
          state.selectedCount > state.itemCount ∨ state.selectedCount.toInt ≠ selectedSize ∨
          state.selectedBytes < 0 ∨ (state.selectedCount = 0 ∧ state.selectedBytes ≠ 0) then false
      else if selectionWasValidated state trusted then true
      else selectionIsValid state listing
    | _, _ => false

/-! ## The reducer -/

inductive PaneLifecycleReducerStatus where
  | applied | noVisibleChange | wrongPane | staleSequence | sequenceGap | invalidTransition
  | invalidCommittedProjection | staleCommittedProjection | commitProjectionMismatch
deriving DecidableEq

structure PaneLifecycleReducerResult where
  status : PaneLifecycleReducerStatus := .invalidTransition
  stateChanged : Bool := false
deriving DecidableEq

structure OwnedState (Error : Type) where
  committedState : PaneState Error
  state : PaneState Error
  lastEventSequence : Option Nat := none
  activeRequest : Option PaneActiveRequest := none
  expectedReplacement : Option PaneRequestId := none
  visibleError : Option Error := none
  navigationFailed : Bool := false
  commitProjectionFailed : Bool := false

structure Reducer (Error : Type) where
  paneId : PaneId
  owned : OwnedState Error

namespace OwnedState

def clearTerminalOverlay (owned : OwnedState Error) : OwnedState Error :=
  { owned with visibleError := none, navigationFailed := false, commitProjectionFailed := false }

/-- The phase that `Recompose` gives to the public state. -/
def recomposedPhase (owned : OwnedState Error) : PaneLoadPhase :=
  match owned.activeRequest with
  | some request => if request.descriptor.kind = .navigation then .loading else .refreshing
  | none =>
    if owned.expectedReplacement.isSome then owned.state.loadPhase
    else if owned.navigationFailed ∨ owned.commitProjectionFailed then .failed
    else owned.committedState.loadPhase

def recompose (owned : OwnedState Error) : OwnedState Error :=
  { owned with
    state :=
      { owned.committedState with
        visibleError := owned.visibleError, loadPhase := owned.recomposedPhase } }

end OwnedState

namespace Reducer

/-- The constructor throws for a state that is no committed projection. -/
def create (pane : PaneId) (initialCommittedState : PaneState Error) : Option (Reducer Error) :=
  if isCommittedProjection initialCommittedState none then
    some
      { paneId := pane,
        owned := { committedState := initialCommittedState, state := initialCommittedState } }
  else none

def commit (reducer : Reducer Error) (next : OwnedState Error)
    (status : PaneLifecycleReducerStatus) : Reducer Error × PaneLifecycleReducerResult :=
  let stateChanged := next.state != reducer.owned.state
  ({ reducer with owned := next },
    { status := if !stateChanged && status == .applied then .noVisibleChange else status,
      stateChanged })

inductive SequenceValidation where
  | current | stale | gap
deriving DecidableEq

def validateSequence (reducer : Reducer Error) (sequence : Nat) : SequenceValidation :=
  if sequence = 0 then .gap
  else
    match reducer.owned.lastEventSequence with
    | none => .current
    | some last =>
      if sequence ≤ last then .stale
      else if last = 2 ^ 64 - 1 ∨ sequence ≠ last + 1 then .gap
      else .current

def matchesActive (reducer : Reducer Error) (event : PaneLifecycleEvent Error) : Bool :=
  reducer.owned.activeRequest ==
    some { requestId := event.requestId, descriptor := event.descriptor }

/-- Refused, and nothing has changed. -/
def refused (reducer : Reducer Error) (status : PaneLifecycleReducerStatus) :
    Reducer Error × PaneLifecycleReducerResult :=
  (reducer, { status })

def seedActive (reducer : Reducer Error) (request : PaneActiveRequest) :
    Reducer Error × PaneLifecycleReducerResult :=
  let owned := reducer.owned
  if request.requestId.value = 0 ∨ owned.lastEventSequence.isSome ∨ owned.activeRequest.isSome ∨
      owned.expectedReplacement.isSome then reducer.refused .invalidTransition
  else
    let next := { owned with activeRequest := some request }
    reducer.commit next.clearTerminalOverlay.recompose .applied

def seedRetainedFailure (reducer : Reducer Error) (request : PaneActiveRequest)
    (failure : PaneLifecycleEvent Error) (checkpointSequence : Nat) :
    Reducer Error × PaneLifecycleReducerResult :=
  let owned := reducer.owned
  match failure.payload with
  | .failed error =>
    if request.requestId.value = 0 ∨ owned.lastEventSequence.isSome ∨
        owned.activeRequest.isSome ∨ owned.expectedReplacement.isSome ∨
        failure.paneId ≠ reducer.paneId ∨ failure.requestId ≠ request.requestId ∨
        failure.descriptor ≠ request.descriptor ∨ failure.eventSequence = 0 ∨
        checkpointSequence < failure.eventSequence then reducer.refused .invalidTransition
    else
      let next :=
        { owned with
          lastEventSequence := some checkpointSequence, visibleError := some error,
          navigationFailed := failure.descriptor.kind == PaneRequestKind.navigation,
          commitProjectionFailed := false }
      reducer.commit next.recompose .applied
  | _ => reducer.refused .invalidTransition

def updateCommittedProjection (reducer : Reducer Error) (committedState : PaneState Error) :
    Reducer Error × PaneLifecycleReducerResult :=
  let owned := reducer.owned
  if isCommittedProjection committedState (some owned.committedState) = false then
    reducer.refused .invalidCommittedProjection
  else if committedState.locationGeneration < owned.committedState.locationGeneration then
    reducer.refused .staleCommittedProjection
  else
    let isNewLocation :=
      committedState.locationGeneration > owned.committedState.locationGeneration
    let next := { owned with committedState }
    let next :=
      if isNewLocation ∧ next.activeRequest = none ∧ next.expectedReplacement = none then
        next.clearTerminalOverlay
      else next
    reducer.commit next.recompose .applied

/-- The projection that a `Committed` event announces; `unsigned long` has 64 bits. -/
def projectionMatches (reducer : Reducer Error) (committed : PaneLifecycleCommitted)
    (projection : PaneState Error) : Bool :=
  isCommittedProjection projection (some reducer.owned.committedState) &&
    projection.locationGeneration == committed.controllerGeneration &&
    projection.listing == committed.listing &&
    projection.locationGeneration ≥ reducer.owned.committedState.locationGeneration

/-- The owned state after an event that ends the active request. -/
def ended (reducer : Reducer Error) (event : PaneLifecycleEvent Error) : OwnedState Error :=
  { reducer.owned with
    lastEventSequence := some event.eventSequence, activeRequest := none,
    expectedReplacement := none }

/-- `Apply` once the pane, the request and the sequence are in order. -/
def applyPayload (reducer : Reducer Error) (event : PaneLifecycleEvent Error)
    (postCommitProjection : Option (PaneState Error)) :
    Reducer Error × PaneLifecycleReducerResult :=
  let owned := reducer.owned
  match event.payload with
  | .started =>
    if owned.activeRequest.isSome then reducer.refused .invalidTransition
    else if owned.expectedReplacement.isSome ∧ owned.expectedReplacement ≠ some event.requestId then
      reducer.refused .invalidTransition
    else
      let next :=
        { owned with
          lastEventSequence := some event.eventSequence,
          activeRequest := some { requestId := event.requestId, descriptor := event.descriptor },
          expectedReplacement := none }
      reducer.commit next.clearTerminalOverlay.recompose .applied
  | .committed committed =>
    if reducer.matchesActive event = false ∨ owned.expectedReplacement.isSome then
      reducer.refused .invalidTransition
    else
      match postCommitProjection.filter (reducer.projectionMatches committed) with
      | none =>
        let next := { (reducer.ended event).clearTerminalOverlay with
          commitProjectionFailed := true }
        reducer.commit next.recompose .commitProjectionMismatch
      | some projection =>
        let next := { reducer.ended event with committedState := projection }
        reducer.commit next.clearTerminalOverlay.recompose .applied
  | .failed error =>
    if reducer.matchesActive event = false ∨ owned.expectedReplacement.isSome then
      reducer.refused .invalidTransition
    else
      let next :=
        { reducer.ended event with
          visibleError := some error,
          navigationFailed := event.descriptor.kind == PaneRequestKind.navigation,
          commitProjectionFailed := false }
      reducer.commit next.recompose .applied
  | .cancelled _ =>
    if reducer.matchesActive event = false ∨ owned.expectedReplacement.isSome then
      reducer.refused .invalidTransition
    else reducer.commit (reducer.ended event).clearTerminalOverlay.recompose .applied
  | .superseded replacement =>
    if reducer.matchesActive event = false ∨ owned.expectedReplacement.isSome ∨
        replacement.value = 0 ∨ replacement = event.requestId then
      reducer.refused .invalidTransition
    else
      -- The public state stays as it is until the replacement starts.
      reducer.commit { reducer.ended event with expectedReplacement := some replacement }
        .noVisibleChange
  | .rejected _ =>
    if owned.expectedReplacement.isSome then reducer.refused .invalidTransition
    else
      reducer.commit { owned with lastEventSequence := some event.eventSequence }
        .noVisibleChange

def apply (reducer : Reducer Error) (event : PaneLifecycleEvent Error)
    (postCommitProjection : Option (PaneState Error)) :
    Reducer Error × PaneLifecycleReducerResult :=
  if event.paneId ≠ reducer.paneId then reducer.refused .wrongPane
  else if event.requestId.value = 0 then reducer.refused .invalidTransition
  else
    match reducer.validateSequence event.eventSequence with
    | .stale => reducer.refused .staleSequence
    | .gap => reducer.refused .sequenceGap
    | .current => reducer.applyPayload event postCommitProjection

end Reducer

end WinCommander.Pane
