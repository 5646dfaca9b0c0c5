/-
  Pane states and the requests, events and payloads of a pane's loading lifecycle.

  Hosts and listings are compared by address, so each is its identity here, a listing with the
  number of its items. Errors are compared only, and stay a parameter. Identifiers and counters
  are natural numbers; the limits of the counters keep them within 64 bits.
-/
import WinCommander.Library.Numeral

namespace WinCommander.Pane

open Library

abbrev VFSHostPtr := Option Nat

structure Listing where
  identity : Nat
  count : Nat
deriving DecidableEq

abbrev VFSListingPtr := Option Listing

/-- An entry of a listing; none of any when the listing is null. -/
structure VFSListingItem where
  listing : VFSListingPtr := none
  index : Nat := 0
deriving DecidableEq

structure PaneId where
  value : Nat
deriving DecidableEq

structure PaneRequestId where
  value : Nat
deriving DecidableEq

/-! ## Pane states -/

inductive PaneLoadPhase where
  | empty | loading | loaded | refreshing | failed
deriving DecidableEq

inductive PaneSortKey where
  | unknown | unsorted | rawName | name | extension | size | modifiedTime | createdTime
  | addedTime | accessedTime
deriving DecidableEq

inductive PaneSortDirection where
  | none | ascending | descending
deriving DecidableEq

inductive PaneTextCollation where
  | unknown | natural | caseInsensitive | caseSensitive
deriving DecidableEq

structure PaneSortState where
  key : PaneSortKey := .unknown
  direction : PaneSortDirection := .none
  collation : PaneTextCollation := .unknown
  separatesDirectories : Bool := false
  extensionlessDirectories : Bool := false
deriving DecidableEq

inductive PaneGroupingKey where
  | unknown | name | extension | size | modifiedTime | createdTime | addedTime | accessedTime
deriving DecidableEq

structure PaneGroupingState where
  enabled : Bool := false
  key : PaneGroupingKey := .unknown
deriving DecidableEq

inductive PaneViewMode where
  | unknown | icons | details | gallery
deriving DecidableEq

structure PaneViewState where
  mode : PaneViewMode := .unknown
  layoutIndex : Option Int32 := none
deriving DecidableEq

structure PaneHistoryAvailability where
  canGoBack : Bool := false
  canGoForward : Bool := false
deriving DecidableEq

/-- The shared payload of a selection: where it is stored, and what it holds. -/
structure PaneSelectedItems where
  storageIdentity : Option Nat := none
  items : List VFSListingItem := []

/-- Two payloads are equal when their items are. -/
instance : BEq PaneSelectedItems where
  beq a b := (a.storageIdentity.isSome && a.storageIdentity == b.storageIdentity) || a.items == b.items

structure PaneState (Error : Type) where
  locationGeneration : UInt64 := 0
  loadPhase : PaneLoadPhase := .empty
  isUniform : Bool := false
  path : Bytes := []
  displayTitle : Bytes := []
  host : VFSHostPtr := none
  listing : VFSListingPtr := none
  focusedItem : VFSListingItem := {}
  selectedItems : PaneSelectedItems := {}
  sortState : PaneSortState := {}
  groupingState : PaneGroupingState := {}
  viewState : PaneViewState := {}
  historyAvailability : PaneHistoryAvailability := {}
  currentHistoryEntryId : Option UInt64 := none
  showsHiddenFiles : Bool := false
  itemCount : Int32 := 0
  selectedCount : Int32 := 0
  selectedBytes : Int64 := 0
  visibleError : Option Error := none
deriving BEq

/-! ## Requests and events -/

inductive PaneRequestKind where
  | navigation | refresh
deriving DecidableEq

structure PaneRequestLocation where
  host : VFSHostPtr
  path : Bytes
deriving DecidableEq

structure PaneRequestDescriptor where
  kind : PaneRequestKind := .navigation
  target : Option PaneRequestLocation := none
  initiatedByUser : Bool := false
deriving DecidableEq

inductive PaneCancellationReason where
  | user | queueStopped | producerShutdown | internalAbort
deriving DecidableEq

inductive PaneRejectionReason where
  | busy | invalidRequest | unavailable
deriving DecidableEq

structure PaneLifecycleCommitted where
  controllerGeneration : UInt64
  listing : VFSListingPtr
deriving DecidableEq

structure PaneLifecycleRejected (Error : Type) where
  reason : PaneRejectionReason := .unavailable
  conflictingRequest : Option PaneRequestId := none
  admissionError : Option Error := none

/-- `PaneLifecycleFinishPayload`. -/
inductive FinishPayload (Error : Type) where
  | committed (committed : PaneLifecycleCommitted)
  | failed (error : Error)
  | cancelled (reason : PaneCancellationReason)

/-- `PaneLifecycleEventPayload`. -/
inductive EventPayload (Error : Type) where
  | started
  | committed (committed : PaneLifecycleCommitted)
  | failed (error : Error)
  | cancelled (reason : PaneCancellationReason)
  | superseded (replacement : PaneRequestId)
  | rejected (rejection : PaneLifecycleRejected Error)

def FinishPayload.toEvent {Error : Type} : FinishPayload Error → EventPayload Error
  | .committed model => .committed model
  | .failed reason => .failed reason
  | .cancelled reason => .cancelled reason

namespace EventPayload

variable {Error : Type}

def isStarted : EventPayload Error → Bool
  | .started => true
  | _ => false

def isRejected : EventPayload Error → Bool
  | .rejected _ => true
  | _ => false

/-- `IsPaneLifecycleAcceptedTerminal`. -/
def isAcceptedTerminal : EventPayload Error → Bool
  | .committed _ | .failed _ | .cancelled _ | .superseded _ => true
  | .started | .rejected _ => false

end EventPayload

structure PaneLifecycleEvent (Error : Type) where
  paneId : PaneId
  requestId : PaneRequestId
  eventSequence : Nat
  descriptor : PaneRequestDescriptor
  payload : EventPayload Error

structure PaneActiveRequest where
  requestId : PaneRequestId
  descriptor : PaneRequestDescriptor
deriving DecidableEq

end WinCommander.Pane
