/-
  `OperationCenterModel` as a machine over runs: the model and the admission drafts that its
  callers hold.

  A draft knows its model by a weak pointer; `mine` says that it leads to this one. A draft
  object keeps its place in the list of drafts, also when it has been moved from or destroyed.
  The callers' legacy reservations (`Reserve`, `Admit`) are used by tests only and not
  modelled; the two checks that there are none stay.
-/
import WinCommander.Library.Growable
import WinCommander.Operations.Center.Record
import WinCommander.Operations.Journal.Machine

namespace WinCommander.Operations.Center

open Library
open Journal (OperationJournalAdmissionReceipt)

/-- `OperationCenterModel::Impl`. -/
structure ModelState where
  nextSequence : UInt64 := 1
  reservations : List (UInt64 × UInt64) := []
  nextAdmissionDraftNonce : UInt64 := 1
  admissionDrafts : List UInt64 := []
  records : Growable OperationRecord := Growable.empty
deriving DecidableEq

structure AdmissionDraft where
  record : OperationRecord
  nonce : UInt64
  mine : Bool
  consumed : Bool
deriving DecidableEq

structure World where
  model : ModelState := {}
  drafts : List AdmissionDraft := []
deriving DecidableEq

/-- What a call returns. -/
inductive Reply where
  | done
  | recorded (record : OperationRecord)
  | failed (error : OperationCenterModelError)
deriving DecidableEq

def failure (code : OperationCenterModelErrorCode) : Reply := .failed { code := code }

/-- A draft that is still to be published by this model. -/
def AdmissionDraft.live (draft : AdmissionDraft) : Bool := !draft.consumed && draft.mine

/-- Consumed, with its pointer reset. -/
def AdmissionDraft.spent (draft : AdmissionDraft) : AdmissionDraft :=
  { draft with consumed := true, mine := false }

/-! ## Admission -/

def stagedRecord (plan : OperationPlan) (createdAt : TimePoint) : OperationRecord where
  operationId := ⟨1, OperationId.positive_one⟩
  planId := plan.id
  operationType := plan.type
  state := .queued
  revision := 1
  createdAt := createdAt
  startedAt := none
  finishedAt := none
  controls := controlsFor .queued

def stageAdmission (w : World) (plan : OperationPlan) (createdAt : TimePoint) (slack : Nat) :
    World × Reply :=
  let m := w.model
  if m.nextAdmissionDraftNonce = 0 then (w, failure .idExhausted)
  else
    let nonce := m.nextAdmissionDraftNonce
    let reserved := { m with
      records := m.records.reserve (m.records.items.length + m.admissionDrafts.length + 1) slack
      nextAdmissionDraftNonce := nonce + 1 }
    if nonce ∈ m.admissionDrafts then ({ w with model := reserved }, failure .unstagedAdmission)
    else
      ({ model := { reserved with admissionDrafts := nonce :: m.admissionDrafts },
         drafts := w.drafts ++ [⟨stagedRecord plan createdAt, nonce, true, false⟩] }, .done)

def publish (w : World) (i : Nat) (receipt : OperationJournalAdmissionReceipt) (slack : Nat) :
    World × Reply :=
  let m := w.model
  match w.drafts[i]? with
  | none => (w, failure .unstagedAdmission)
  | some draft =>
    if draft.consumed then (w, failure .unstagedAdmission)
    else if ¬draft.mine then (w, failure .unstagedAdmission)
    else if draft.nonce ∉ m.admissionDrafts then (w, failure .unstagedAdmission)
    else if draft.record.planId ≠ receipt.plan.id then (w, failure .receiptPlanMismatch)
    else if m.records.items.any (·.operationId = receipt.operationId) then
      (w, failure .duplicateOperationId)
    else if m.records.items.length = m.records.capacity then (w, failure .unstagedAdmission)
    else
      let record := { draft.record with operationId := receipt.operationId }
      ({ model := { m with
           records := m.records.emplaceBack record slack
           admissionDrafts := m.admissionDrafts.erase draft.nonce },
         drafts := w.drafts.set i draft.spent }, .done)

/-! ## Draft objects -/

/-- `AdmissionDraft::Release`: what it does to this model. -/
def releaseDraft (m : ModelState) (draft : AdmissionDraft) : ModelState :=
  if draft.live then { m with admissionDrafts := m.admissionDrafts.erase draft.nonce } else m

/-- The move constructor makes a new object. -/
def moveConstruct (w : World) (source : Nat) : World :=
  match w.drafts[source]? with
  | none => w
  | some other => { w with drafts := w.drafts.set source other.spent ++ [other] }

/-- The move assignment, to an object that may hold a draft itself. -/
def moveAssign (w : World) (target source : Nat) : World :=
  if target = source then w
  else
    match w.drafts[target]?, w.drafts[source]? with
    | some draft, some other =>
      { model := releaseDraft w.model draft,
        drafts := ((w.drafts.set target draft.spent).set target other).set source other.spent }
    | _, _ => w

def destroy (w : World) (i : Nat) : World :=
  match w.drafts[i]? with
  | none => w
  | some draft => { model := releaseDraft w.model draft, drafts := w.drafts.set i draft.spent }

/-! ## Transitions -/

/-- `std::ranges::find_if`, with the place of what it finds. -/
def findRecord (records : List OperationRecord) (id : OperationId) : Option (OperationRecord × Nat) :=
  records.zipIdx.find? fun entry => entry.1.operationId = id

def transitioned (record : OperationRecord) (next : OperationRecordState) (observedAt : TimePoint) :
    OperationRecord :=
  { record with
    state := next
    revision := record.revision + 1
    controls := controlsFor next
    startedAt :=
      if next = .running ∧ record.startedAt = none then some observedAt else record.startedAt
    finishedAt := if next.isTerminal then some observedAt else record.finishedAt }

def ModelState.transition (m : ModelState) (id : OperationId) (expectedRevision : UInt64)
    (next : OperationRecordState) (observedAt : TimePoint) : ModelState × Reply :=
  match findRecord m.records.items id with
  | none => (m, failure .operationNotFound)
  | some (found, i) =>
    if found.revision ≠ expectedRevision then
      (m, .failed { code := .staleRevision, currentRevision := some found.revision })
    else if ¬found.state.allows next then (m, failure .invalidTransition)
    else
      let record := transitioned found next observedAt
      ({ m with records := m.records.set i record }, .recorded record)

/-! ## History -/

/-- What a record read back from the journal has to be. -/
def hydratable (record : OperationRecord) : Bool :=
  record.state.isTerminal && record.revision == 1 && record.finishedAt.isSome &&
    record.startedAt.isNone

def hydrated (record : OperationRecord) : OperationRecord :=
  { record with controls := controlsFor record.state }

/-- The loop of `Hydrate`; `sequences` are the ones already seen. -/
def hydrateRecords (sequences : List UInt64) (maximum : UInt64) :
    List OperationRecord → Except OperationCenterModelError (List OperationRecord × UInt64)
  | [] => .ok ([], maximum)
  | record :: rest => do
      refuse (¬hydratable record) { code := .invalidHydratedRecord }
      refuse (record.operationId.sequence ∈ sequences) { code := .invalidHydratedRecord }
      let (later, last) ← hydrateRecords (record.operationId.sequence :: sequences)
        (max maximum record.operationId.sequence) rest
      .ok (hydrated record :: later, last)

def hydrate (w : World) (records : List OperationRecord) (slack : Nat) : World × Reply :=
  let m := w.model
  if m.records.items ≠ [] ∨ m.reservations ≠ [] ∨ m.admissionDrafts ≠ [] ∨ m.nextSequence ≠ 1 ∨
      m.nextAdmissionDraftNonce ≠ 1 then (w, failure .hydrationAlreadyInitialized)
  else
    match hydrateRecords [] 0 records with
    | .error error => (w, .failed error)
    | .ok (items, maximum) =>
      if maximum = 0xFFFFFFFFFFFFFFFF then (w, failure .idExhausted)
      else
        ({ w with model := { m with
            nextSequence := maximum + 1, records := Growable.ofList items slack } }, .done)

/-- The loop of `RefreshColdHistory`: the records that are not there yet. -/
def refreshRecords (current : List OperationRecord) (sequences : List UInt64) (maximum : UInt64) :
    List OperationRecord → Except OperationCenterModelError (List OperationRecord × UInt64)
  | [] => .ok ([], maximum)
  | record :: rest => do
      refuse (¬hydratable record) { code := .invalidHydratedRecord }
      refuse (record.operationId.sequence ∈ sequences) { code := .invalidHydratedRecord }
      let known := current.find? (·.operationId = record.operationId)
      refuse (∃ c ∈ known, c.planId ≠ record.planId ∨ c.operationType ≠ record.operationType ∨
        c.state ≠ record.state) { code := .coldHistoryConflict }
      let (additions, last) ← refreshRecords current (record.operationId.sequence :: sequences)
        (max maximum record.operationId.sequence) rest
      .ok (if known.isSome then additions else hydrated record :: additions, last)

/-- `outOfMemory` stands for an allocation that throws; all of them come before the swap. -/
def refreshColdHistory (w : World) (records : List OperationRecord) (slack : Nat)
    (outOfMemory : Bool) : World × Reply :=
  let m := w.model
  if outOfMemory then (w, failure .coldHistoryRefreshFailed)
  else if m.reservations ≠ [] ∨ m.admissionDrafts ≠ [] ∨
      m.records.items.any (fun record => !record.state.isTerminal) then (w, failure .coldHistoryActive)
  else
    match refreshRecords m.records.items [] 0 records with
    | .error error => (w, .failed error)
    | .ok (additions, maximum) =>
      if maximum = 0xFFFFFFFFFFFFFFFF then (w, failure .idExhausted)
      else if additions = [] then (w, .done)
      else
        ({ w with model := { m with
            nextSequence := max m.nextSequence (maximum + 1)
            records := Growable.ofList (m.records.items ++ additions) slack } }, .done)

/-! ## Runs -/

/-- A call on the model, or what happens to a draft object. The slack is what an allocation
  provides beyond the request. -/
inductive Call where
  | stageAdmission (plan : OperationPlan) (createdAt : TimePoint) (slack : Nat)
  | publish (draft : Nat) (receipt : OperationJournalAdmissionReceipt) (slack : Nat)
  | moveConstruct (source : Nat)
  | moveAssign (target source : Nat)
  | destroy (draft : Nat)
  | foreignDraft (draft : AdmissionDraft)
  | transition (id : OperationId) (expectedRevision : UInt64) (next : OperationRecordState)
      (observedAt : TimePoint)
  | hydrate (records : List OperationRecord) (slack : Nat)
  | refreshColdHistory (records : List OperationRecord) (slack : Nat) (outOfMemory : Bool)
deriving DecidableEq

def step (w : World) : Call → World × Reply
  | .stageAdmission plan createdAt slack => stageAdmission w plan createdAt slack
  | .publish i receipt slack => publish w i receipt slack
  | .moveConstruct source => (moveConstruct w source, .done)
  | .moveAssign target source => (moveAssign w target source, .done)
  | .destroy i => (destroy w i, .done)
  | .foreignDraft draft => ({ w with drafts := w.drafts ++ [{ draft with mine := false }] }, .done)
  | .transition id expectedRevision next observedAt =>
    let (m, reply) := w.model.transition id expectedRevision next observedAt
    ({ w with model := m }, reply)
  | .hydrate records slack => hydrate w records slack
  | .refreshColdHistory records slack outOfMemory => refreshColdHistory w records slack outOfMemory

end WinCommander.Operations.Center
