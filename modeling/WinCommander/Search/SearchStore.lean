/-
  `SearchStore`: the search mode of one pane, as a machine that takes calls.

  A store starts runs and is told of their progress by calls that carry a run id, which may be of
  any run. `answer_cases` says all that a call can do: be refused and change nothing, start a run,
  move the run it names along, or reset.

  A `double` is its value, or one of those without one.
-/
import WinCommander.Library.Run
import WinCommander.Search.SearchPlanning

namespace WinCommander.Search

open Library
open Pane (PaneId)

/-! ## The state -/

structure SearchRunId where
  paneId : PaneId
  generation : UInt64 := 0
deriving DecidableEq

inductive SearchPhase where
  | idle | preparing | running | partiallyCompleted | completed | cancelled | failed | noResults
  | tooManyResults | indexUnavailable | backendUnavailable | permissionLimitedResults
deriving DecidableEq

structure SearchResultReference where
  count : UInt64 := 0
  generation : UInt64 := 0
  token : Bytes := []
deriving DecidableEq

inductive SearchFailureCode where
  | executionFailed | providerDisconnected | permissionDenied | invalidBackendReply
deriving DecidableEq

structure SearchFailure where
  code : SearchFailureCode := .executionFailed
  detail : Bytes := []
deriving DecidableEq

inductive Double where
  | nan | negativeInfinity | positiveInfinity | finite (value : Rat)
deriving DecidableEq

/-- `<`, which no comparison with `nan` satisfies. -/
def Double.less : Double → Double → Bool
  | .finite value, .finite other => value < other
  | .negativeInfinity, .finite _ | .finite _, .positiveInfinity
  | .negativeInfinity, .positiveInfinity => true
  | _, _ => false

def Double.isFinite : Double → Bool
  | .finite _ => true
  | _ => false

structure SearchSnapshot where
  paneId : PaneId
  revision : UInt64 := 0
  runId : Option SearchRunId := none
  phase : SearchPhase := .idle
  request : Option SearchRequest := none
  backend : Option SearchBackendDescriptor := none
  determinateProgress : Option Double := none
  currentLocation : Option Bytes := none
  scannedCount : Option UInt64 := none
  foundCount : Option UInt64 := none
  results : Option SearchResultReference := none
  failure : Option SearchFailure := none
deriving DecidableEq

inductive SearchStoreFailure where
  | zeroPaneId | invalidPlan | runIdExhausted | noActiveRun | staleRun | terminalRun
  | invalidTransition | invalidProgress | invalidResults | missingResults | limitationMismatch
  | invalidLimitation
deriving DecidableEq

structure SearchProgressUpdate where
  determinateProgress : Option Double := none
  currentLocation : Option Bytes := none
  scannedCount : Option UInt64 := none
  foundCount : Option UInt64 := none
deriving DecidableEq

inductive SearchCompletionKind where
  | complete | partialResults | tooManyResults | permissionLimited
deriving DecidableEq

structure SearchStore where
  state : SearchSnapshot
  lastRunGeneration : UInt64 := 0
deriving DecidableEq

/-! ## The calls -/

def isTerminal : SearchPhase → Bool
  | .idle | .preparing | .running => false
  | _ => true

def create (paneId : PaneId) : Except SearchStoreFailure SearchStore :=
  if paneId.value = 0 then .error .zeroPaneId else .ok { state := { paneId } }

/-- The phase in which a run of the backend starts. -/
def startPhase : SearchBackendSupport → SearchPhase
  | .supported => .preparing
  | .indexUnavailable => .indexUnavailable
  | .unsupported | .unavailable => .backendUnavailable

/-- What a call returns and the store after it. A refused call leaves the store as it was. -/
abbrev Answer (α : Type) := Except SearchStoreFailure (α × SearchStore)

namespace SearchStore

/-- A run of the plan, with nothing left of an earlier one. -/
def started (store : SearchStore) (plan : SearchPlan) (runId : SearchRunId) : SearchSnapshot where
  paneId := store.state.paneId
  revision := store.state.revision + 1
  runId := some runId
  phase := startPhase plan.backend.support
  request := some plan.request
  backend := some plan.backend

def start (store : SearchStore) (plan : SearchPlan) : Answer SearchRunId :=
  if ¬isValid plan then .error .invalidPlan
  else if store.lastRunGeneration = 18446744073709551615 then .error .runIdExhausted
  else
    let runId : SearchRunId :=
      { paneId := store.state.paneId, generation := store.lastRunGeneration + 1 }
    .ok (runId, ⟨store.started plan runId, runId.generation⟩)

def validateActive (store : SearchStore) (runId : SearchRunId) : Except SearchStoreFailure Unit :=
  match store.state.runId with
  | none => .error .noActiveRun
  | some current =>
    if runId ≠ current then .error .staleRun
    else if isTerminal store.state.phase then .error .terminalRun
    else .ok ()

def isActivePhase (store : SearchStore) : Bool :=
  store.state.phase = .preparing || store.state.phase = .running

/-- The state is set and the revision counted. -/
def commit (store : SearchStore) (state : SearchSnapshot) : Answer Unit :=
  .ok ((), { store with state := { state with revision := store.state.revision + 1 } })

def markRunning (store : SearchStore) (runId : SearchRunId) : Answer Unit :=
  match store.validateActive runId with
  | .error failure => .error failure
  | .ok () =>
    if store.state.phase ≠ .preparing then .error .invalidTransition
    else store.commit { store.state with phase := .running }

/-- Below what is stored already. -/
def below (count stored : Option UInt64) : Bool :=
  match count, stored with
  | some count, some stored => count < stored
  | _, _ => false

def invalidProgress (stored : Option Double) : Option Double → Bool
  | none => false
  | some progress =>
    !progress.isFinite || progress.less (.finite 0) || (Double.finite 1).less progress ||
      stored.any progress.less

def updateProgress (store : SearchStore) (runId : SearchRunId) (update : SearchProgressUpdate) :
    Answer Unit :=
  match store.validateActive runId with
  | .error failure => .error failure
  | .ok () =>
    if store.state.phase ≠ .running then .error .invalidTransition
    else if update = {} then .error .invalidProgress
    else if invalidProgress store.state.determinateProgress update.determinateProgress then
      .error .invalidProgress
    else if update.currentLocation = some [] then .error .invalidProgress
    else if below update.scannedCount store.state.scannedCount then .error .invalidProgress
    else if below update.foundCount store.state.foundCount then .error .invalidProgress
    else
      store.commit
        { store.state with
          determinateProgress := update.determinateProgress.or store.state.determinateProgress
          currentLocation := update.currentLocation.or store.state.currentLocation
          scannedCount := update.scannedCount.or store.state.scannedCount
          foundCount := update.foundCount.or store.state.foundCount }

/-- A run always has a backend (`WellFormed`), so that its limitations can be read. -/
def limitations (store : SearchStore) : List SearchBackendLimitation :=
  (store.state.backend.getD {}).limitations

def reportLimitation (store : SearchStore) (runId : SearchRunId)
    (limitation : SearchBackendLimitation) : Answer Unit :=
  match store.validateActive runId with
  | .error failure => .error failure
  | .ok () =>
    if ¬store.isActivePhase then .error .invalidTransition
    else if (limitation ≠ .permissionDeniedLocations ∧ limitation ≠ .resultPathsUnavailable) ∨
        limitation ∈ store.limitations then .error .invalidLimitation
    else
      store.commit
        { store.state with
          backend := store.state.backend.map fun backend =>
            { backend with limitations := backend.limitations ++ [limitation] } }

def publishResults (store : SearchStore) (runId : SearchRunId) (results : SearchResultReference) :
    Answer Unit :=
  match store.validateActive runId with
  | .error failure => .error failure
  | .ok () =>
    if store.state.phase ≠ .running then .error .invalidTransition
    else if results.generation = 0 ∨ results.token = [] ∨
        store.state.results.any (results.generation ≤ ·.generation) then .error .invalidResults
    else store.commit { store.state with results := some results }

def commitTerminal (store : SearchStore) (state : SearchSnapshot) (phase : SearchPhase) :
    Answer Unit :=
  store.commit { state with phase, currentLocation := none }

def complete (store : SearchStore) (runId : SearchRunId) (kind : SearchCompletionKind) :
    Answer Unit :=
  match store.validateActive runId with
  | .error failure => .error failure
  | .ok () =>
    if ¬store.isActivePhase then .error .invalidTransition
    else
      match kind with
      | .complete =>
        let count := (store.state.results.map (·.count)).getD 0
        store.commitTerminal store.state (if count = 0 then .noResults else .completed)
      | .partialResults =>
        if store.state.results = none ∨ store.limitations = [] then .error .missingResults
        else store.commitTerminal store.state .partiallyCompleted
      | .tooManyResults =>
        if store.state.results = none then .error .missingResults
        else store.commitTerminal store.state .tooManyResults
      | .permissionLimited =>
        if .fullDiskAccessMissing ∉ store.limitations ∧
            .permissionDeniedLocations ∉ store.limitations then .error .limitationMismatch
        else store.commitTerminal store.state .permissionLimitedResults

def cancel (store : SearchStore) (runId : SearchRunId) : Answer Unit :=
  match store.validateActive runId with
  | .error failure => .error failure
  | .ok () => store.commitTerminal store.state .cancelled

def fail (store : SearchStore) (runId : SearchRunId) (failure : SearchFailure) : Answer Unit :=
  match store.validateActive runId with
  | .error refusal => .error refusal
  | .ok () =>
    if failure.detail = [] then .error .invalidTransition
    else store.commitTerminal { store.state with failure := some failure } .failed

def reset (store : SearchStore) : SearchStore :=
  { store with state := { paneId := store.state.paneId, revision := store.state.revision + 1 } }

end SearchStore

/-! ## Runs of calls -/

inductive Call where
  | start (plan : SearchPlan)
  | markRunning (runId : SearchRunId)
  | updateProgress (runId : SearchRunId) (update : SearchProgressUpdate)
  | reportLimitation (runId : SearchRunId) (limitation : SearchBackendLimitation)
  | publishResults (runId : SearchRunId) (results : SearchResultReference)
  | complete (runId : SearchRunId) (kind : SearchCompletionKind)
  | cancel (runId : SearchRunId)
  | fail (runId : SearchRunId) (failure : SearchFailure)
  | reset
deriving DecidableEq

/-- The run id that a call carries. -/
def Call.runId : Call → Option SearchRunId
  | .start _ | .reset => none
  | .markRunning runId | .updateProgress runId _ | .reportLimitation runId _
  | .publishResults runId _ | .complete runId _ | .cancel runId | .fail runId _ => some runId

/-- What a call answered: a failure, or that it was accepted, with the run id it issued. -/
abbrev Reply := Except SearchStoreFailure (Option SearchRunId)

def settled (store : SearchStore) : Answer Unit → SearchStore × Reply
  | .error failure => (store, .error failure)
  | .ok (_, store) => (store, .ok none)

def SearchStore.answer (store : SearchStore) : Call → SearchStore × Reply
  | .start plan =>
    match store.start plan with
    | .error failure => (store, .error failure)
    | .ok (runId, store) => (store, .ok (some runId))
  | .markRunning runId => settled store (store.markRunning runId)
  | .updateProgress runId update => settled store (store.updateProgress runId update)
  | .reportLimitation runId limitation => settled store (store.reportLimitation runId limitation)
  | .publishResults runId results => settled store (store.publishResults runId results)
  | .complete runId kind => settled store (store.complete runId kind)
  | .cancel runId => settled store (store.cancel runId)
  | .fail runId failure => settled store (store.fail runId failure)
  | .reset => (store.reset, .ok none)

end WinCommander.Search
