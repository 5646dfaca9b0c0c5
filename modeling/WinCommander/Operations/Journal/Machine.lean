/-
  `OperationJournal` as a machine over runs: a directory, at most one open handle, and the
  reservations and receipts its callers hold.

  Every operation is modelled as its checks, which build the candidate entries, followed by
  `storeCandidate`. A handle is known to a token by the number of its `Impl`, as a
  `weak_ptr` knows it: the number of a closed handle never comes back.

  An event is one call with the replies its environment gives. When the replies run out the
  process stops there: handle and tokens are gone, the file is as it was left.
-/
import WinCommander.Operations.Journal.Persist
import WinCommander.Library.Run

namespace WinCommander.Operations.Journal

open Library Library.Prog

/-! ## The handle and its tokens -/

structure Impl where
  /-- Which `Impl` object this is. -/
  identity : Nat
  entries : List OperationJournalEntry
  nextOperationSequence : UInt64
  nextReservationNonce : UInt64
  reservations : List (UInt64 × UInt64)
  usable : Bool
deriving DecidableEq

structure AdmissionReservation where
  operationId : OperationId
  nonce : UInt64
  impl : Option Nat
  consumed : Bool
deriving DecidableEq

inductive ReceiptKind where
  | admission | run
deriving DecidableEq

/-- The two receipt classes have the same members and moves. -/
structure Receipt (kind : ReceiptKind) where
  journalInstance : Option Nat
  operationId : OperationId
  plan : OperationPlan
  consumed : Bool
deriving DecidableEq

abbrev OperationJournalAdmissionReceipt := Receipt .admission
abbrev OperationJournalRunReceipt := Receipt .run

/-- An error, and whether the rename had been attempted. -/
structure Refusal where
  error : OperationJournalError
  renameAttempted : Bool
deriving DecidableEq

/-! ## Open -/

/-- The components of an absolute path; none for the root itself. -/
def pathComponents (path : Bytes) : List Bytes :=
  if path = [slash] then [] else path.tail.splitOn slash

/-- `OperationJournalValidParentPath`. -/
def validParentPath (path : Bytes) : Bool :=
  path.head? == some slash && !(path.length > 1 && path.getLast? == some slash) &&
    (pathComponents path).all fun component =>
      component ≠ [] ∧ component ≠ ascii "." ∧ component ≠ ascii ".."

/-- `open` or `openat` of one directory. -/
def openDirectory : Io (Except OperationJournalError Unit) := do
  let reply ← ask
  if reply.result < 0 then return .error (systemFailure .parentOpenFailed reply.errno)
  else return .ok ()

def openComponents : List Bytes → Io (Except OperationJournalError Unit)
  | [] => return .ok ()
  | _ :: rest => attempt openDirectory Except.error fun _ => openComponents rest

/-- `OperationJournalOpenParent`. -/
def openParent (path : Bytes) : Io (Except OperationJournalError Unit) :=
  if !validParentPath path then return .error (failure .invalidParentPath)
  else attempt openDirectory Except.error fun _ => openComponents (pathComponents path)

def checkParent : Io (Except OperationJournalError Unit) := do
  let reply ← ask
  if reply.result ≠ 0 then return .error (systemFailure .parentOpenFailed reply.errno)
  else if !reply.stat.directory || !reply.stat.owned || reply.stat.mode &&& 0o22 != 0 then
    return .error (systemFailure .parentOpenFailed eperm)
  else return .ok ()

/-- The lock file. `flock` fails while another handle on the directory is open. -/
def lockJournal (live : Bool) : Io (Except OperationJournalError Unit) := do
  let opened ← ask
  if opened.result < 0 then return .error (systemFailure .lockOpenFailed opened.errno)
  else
    let state ← ask
    if state.result ≠ 0 then return .error (systemFailure .lockOpenFailed state.errno)
    else if !state.stat.regular || state.stat.links != 1 || !state.stat.owned ||
        state.stat.mode &&& 0o77 != 0 then
      return .error (systemFailure .lockOpenFailed eperm)
    else
      let locked ← ask
      if live ∨ locked.result ≠ 0 then
        return .error (systemFailure .journalAlreadyOpen locked.errno)
      else return .ok ()

def persisting (readers : Readers) (entries : List OperationJournalEntry) (nextSequence : UInt64) :
    Io (Except Refusal Unit) := do
  let (stored, renameCommitted) ← persist readers entries nextSequence
  return stored.mapError (⟨·, renameCommitted⟩)

/-- The decoded journal, or the empty one that `Open` creates. -/
def loadOrCreate (readers : Readers) : Option Bytes → Io (Except Refusal OperationJournalDecoded)
  | some text => return (decode readers text).mapError (⟨·, false⟩)
  | none => attempt (persisting readers [] 1) Except.error fun _ => return .ok ⟨[], 1, false⟩

def isActive (entry : OperationJournalEntry) : Bool :=
  entry.state == .admitted || entry.state == .running

def interrupt (now : TimePoint) (entry : OperationJournalEntry) : OperationJournalEntry :=
  if isActive entry then { entry with state := .interrupted, updatedAt := now } else entry

/-- The end of `Open`: what was active is interrupted, and stored when anything changed. -/
def interruptEntries (readers : Readers) (decoded : OperationJournalDecoded) (now : TimePoint) :
    Io (Except Refusal (List OperationJournalEntry)) :=
  if decoded.requiresMigration || decoded.entries.any isActive then
    let interrupted := decoded.entries.map (interrupt now)
    attempt (persisting readers interrupted decoded.nextOperationSequence) Except.error fun _ =>
    return .ok interrupted
  else return .ok decoded.entries

/-- `OperationJournalTesting::Open`; `live` says whether a handle is open already. -/
def openJournal (readers : Readers) (live : Bool) (identity : Nat) (path : Bytes)
    (now : TimePoint) : Io (Except Refusal Impl) :=
  let before := fun e => Except.error ⟨e, false⟩
  attempt (openParent path) before fun _ =>
  attempt checkParent before fun _ =>
  attempt (lockJournal live) before fun _ =>
  attempt readJournal before fun persisted =>
  attempt (loadOrCreate readers persisted) Except.error fun decoded =>
  attempt (interruptEntries readers decoded now) Except.error fun entries =>
  return .ok ⟨identity, entries, decoded.nextOperationSequence, 1, [], true⟩

/-! ## Reservations -/

def Impl.countReservation (impl : Impl) : Impl :=
  { impl with
    nextOperationSequence := impl.nextOperationSequence + 1
    nextReservationNonce := impl.nextReservationNonce + 1 }

/-- `OperationJournal::ReserveOperationId`. -/
def reserveOperationId (impl : Impl) : Impl × Except OperationJournalError AdmissionReservation :=
  if !impl.usable then (impl, .error (failure .journalUnusable))
  else if h : impl.nextOperationSequence = 0 ∨
      impl.nextOperationSequence = UInt64.ofNat (2 ^ 64 - 1) ∨ impl.nextReservationNonce = 0 then
    (impl, .error (failure .resourceLimitExceeded))
  else
    let sequence := impl.nextOperationSequence
    let nonce := impl.nextReservationNonce
    let impl := impl.countReservation
    if (impl.reservations.lookup sequence).isSome then (impl, .error (failure .journalUnusable))
    else
      ({ impl with reservations := (sequence, nonce) :: impl.reservations },
        .ok ⟨⟨sequence, fun h0 => h (.inl h0)⟩, nonce, some impl.identity, false⟩)

def Impl.eraseReservation (impl : Impl) (sequence : UInt64) : Impl :=
  { impl with reservations := impl.reservations.filter fun entry => entry.1 ≠ sequence }

/-- `AdmissionReservation::Release`. -/
def release (impl : Option Impl) (reservation : AdmissionReservation) :
    Option Impl × AdmissionReservation :=
  if reservation.consumed then (impl, reservation)
  else
    (impl.map fun impl =>
      if reservation.impl = some impl.identity ∧
          impl.reservations.lookup reservation.operationId.sequence = some reservation.nonce then
        impl.eraseReservation reservation.operationId.sequence
      else impl,
     { reservation with consumed := true, impl := none })

/-! ## The candidates -/

/-- An entry in its place. -/
structure Found where
  before : List OperationJournalEntry
  entry : OperationJournalEntry
  after : List OperationJournalEntry

/-- The entries with `entry` in the place found. -/
def Found.replace (found : Found) (entry : OperationJournalEntry) : List OperationJournalEntry :=
  found.before ++ entry :: found.after

/-- `find_if` by operation id and plan id. -/
def findEntry (id : OperationId) (planId : Bytes) : List OperationJournalEntry → Option Found
  | [] => none
  | entry :: rest =>
    if entry.operationId = id ∧ entry.plan.id = planId then some ⟨[], entry, rest⟩
    else (findEntry id planId rest).map fun found => { found with before := entry :: found.before }

/-- The checks and the candidate of `AdmitLocked`. -/
def admitCandidate (impl : Impl) (reservation : AdmissionReservation) (plan : OperationPlan)
    (now : TimePoint) : Except OperationJournalError (List OperationJournalEntry) := do
  let id := reservation.operationId
  refuse (impl.usable = false) (failure .journalUnusable)
  refuse (reservation.consumed = true) (failure .invalidAdmissionReceipt)
  refuse (reservation.impl ≠ some impl.identity) (failure .invalidAdmissionReceipt)
  refuse (impl.reservations.lookup id.sequence ≠ some reservation.nonce)
    (failure .invalidAdmissionReceipt)
  refuse (impl.entries.length ≥ maxEntries) (failure .resourceLimitExceeded)
  refuse (∃ entry ∈ impl.entries, entry.operationId = id) (failure .duplicateOperationId)
  refuse (∃ entry ∈ impl.entries, entry.plan.id = plan.id) (failure .planAlreadyAdmitted)
  return impl.entries ++ [⟨id, plan, .admitted, now, []⟩]

/-- The checks that the operations make of a receipt before anything else. -/
def checkReceipt {kind : ReceiptKind} (impl : Impl) (receipt : Receipt kind)
    (alreadyConsumed invalid : OperationJournalErrorCode) : Except OperationJournalError Unit := do
  refuse (impl.usable = false) (failure .journalUnusable)
  refuse (receipt.consumed = true) (failure alreadyConsumed)
  refuse (receipt.journalInstance ≠ some impl.identity) (failure invalid)

/-- The receipt's own entry, which must be in `state`. -/
def findReceipt {kind : ReceiptKind} (impl : Impl) (receipt : Receipt kind)
    (state : OperationJournalState) (invalid : OperationJournalErrorCode) :
    Except OperationJournalError Found := do
  let found ← demand (findEntry receipt.operationId receipt.plan.id impl.entries) (failure invalid)
  refuse (found.entry.state ≠ state ∨ found.entry.operationId ≠ receipt.operationId ∨
    found.entry.plan ≠ receipt.plan) (failure invalid)
  return found

def transitionToRunningCandidate (impl : Impl) (receipt : OperationJournalAdmissionReceipt)
    (now : TimePoint) : Except OperationJournalError (List OperationJournalEntry) := do
  checkReceipt impl receipt .admissionReceiptAlreadyConsumed .invalidAdmissionReceipt
  let found ← findReceipt impl receipt .admitted .invalidAdmissionReceipt
  return found.replace { found.entry with state := .running, updatedAt := now }

def finalizeAdmissionCandidate (impl : Impl) (receipt : OperationJournalAdmissionReceipt)
    (terminal : OperationJournalState) (now : TimePoint) :
    Except OperationJournalError (List OperationJournalEntry) := do
  checkReceipt impl receipt .admissionReceiptAlreadyConsumed .invalidAdmissionReceipt
  refuse (legalTransition .admitted terminal = false) (failure .invalidTransition)
  let found ← findReceipt impl receipt .admitted .invalidAdmissionReceipt
  let entry := { found.entry with state := terminal, updatedAt := now }
  refuse (validEntryLifecycle entry = false) (failure .invalidTransition)
  return found.replace entry

def totalResults (entries : List OperationJournalEntry) : Nat :=
  (entries.map (·.itemResults.length)).sum

def finalizeCandidate (impl : Impl) (receipt : OperationJournalRunReceipt)
    (results : List OperationJournalItemResult) (terminal : OperationJournalState)
    (now : TimePoint) : Except OperationJournalError (List OperationJournalEntry) := do
  checkReceipt impl receipt .runReceiptAlreadyConsumed .invalidRunReceipt
  refuse (legalTransition .running terminal = false) (failure .invalidTransition)
  let found ← findReceipt impl receipt .running .invalidRunReceipt
  refuse (found.entry.itemResults ≠ []) (failure .invalidTransition)
  refuse (validOrderedItemResults found.entry.plan results = false) (failure .invalidItemResult)
  refuse (results.length > maxItemResults - totalResults impl.entries)
    (failure .resourceLimitExceeded)
  let entry := { found.entry with itemResults := results, state := terminal, updatedAt := now }
  refuse (validEntryLifecycle entry = false) (failure .invalidTransition)
  return found.replace entry

/-! ## The operations -/

/-- What all operations do with their candidate: store it, and take it over or, when the
    rename had been attempted, give the handle up. -/
def storeCandidate (readers : Readers) (impl : Impl)
    (candidate : Except OperationJournalError (List OperationJournalEntry)) :
    Io (Impl × Except Refusal Unit) :=
  match candidate with
  | .error e => return (impl, .error ⟨e, false⟩)
  | .ok entries => do
      let stored ← persisting readers entries impl.nextOperationSequence
      match stored with
      | .error refusal =>
        return (if refusal.renameAttempted then { impl with usable := false } else impl,
          .error refusal)
      | .ok _ => return ({ impl with entries := entries }, .ok ())

/-- The end of `AdmitLocked`: a success consumes the reservation and yields a receipt. -/
def admissionOf (impl : Impl) (reservation : AdmissionReservation) (plan : OperationPlan) :
    Except Refusal Unit →
      Impl × AdmissionReservation × Except Refusal OperationJournalAdmissionReceipt
  | .error refusal => (impl, reservation, .error refusal)
  | .ok _ =>
    (impl.eraseReservation reservation.operationId.sequence,
      { reservation with consumed := true, impl := none },
      .ok ⟨some impl.identity, reservation.operationId, plan, false⟩)

/-- `OperationJournal::AdmitLocked`. -/
def admitLocked (readers : Readers) (impl : Impl) (reservation : AdmissionReservation)
    (plan : OperationPlan) (now : TimePoint) :
    Io (Impl × AdmissionReservation × Except Refusal OperationJournalAdmissionReceipt) := do
  let (impl, stored) ← storeCandidate readers impl (admitCandidate impl reservation plan now)
  return admissionOf impl reservation plan stored

/-- `OperationJournal::Admit` of a plan alone: its reservation lives as long as the call. -/
def admitPlan (readers : Readers) (impl : Impl) (plan : OperationPlan) (now : TimePoint) :
    Io (Option Impl × Except Refusal OperationJournalAdmissionReceipt) :=
  match reserveOperationId impl with
  | (impl, .error e) => return (some impl, .error ⟨e, false⟩)
  | (impl, .ok reservation) => do
      let (impl, reservation, admitted) ← admitLocked readers impl reservation plan now
      return ((release (some impl) reservation).1, admitted)

/-- A receipt is spent by a success and by a failure from the rename on. -/
def Receipt.settle {kind : ReceiptKind} (receipt : Receipt kind) : Except Refusal Unit → Receipt kind
  | .ok _ => { receipt with consumed := true }
  | .error refusal => if refusal.renameAttempted then { receipt with consumed := true } else receipt

/-- `OperationJournal::TransitionToRunning`. -/
def transitionToRunning (readers : Readers) (impl : Impl)
    (receipt : OperationJournalAdmissionReceipt) (now : TimePoint) :
    Io (Impl × OperationJournalAdmissionReceipt × Except Refusal OperationJournalRunReceipt) := do
  let (impl, stored) ← storeCandidate readers impl (transitionToRunningCandidate impl receipt now)
  return (impl, receipt.settle stored,
    stored.map fun _ => ⟨some impl.identity, receipt.operationId, receipt.plan, false⟩)

/-- `OperationJournal::FinalizeAdmission`. -/
def finalizeAdmission (readers : Readers) (impl : Impl) (receipt : OperationJournalAdmissionReceipt)
    (terminal : OperationJournalState) (now : TimePoint) :
    Io (Impl × OperationJournalAdmissionReceipt × Except Refusal Unit) := do
  let (impl, stored) ← storeCandidate readers impl
    (finalizeAdmissionCandidate impl receipt terminal now)
  return (impl, receipt.settle stored, stored)

/-- `OperationJournal::Finalize`. -/
def finalize (readers : Readers) (impl : Impl) (receipt : OperationJournalRunReceipt)
    (results : List OperationJournalItemResult) (terminal : OperationJournalState)
    (now : TimePoint) : Io (Impl × OperationJournalRunReceipt × Except Refusal Unit) := do
  let (impl, stored) ← storeCandidate readers impl
    (finalizeCandidate impl receipt results terminal now)
  return (impl, receipt.settle stored, stored)

/-! ## Runs -/

/-- The process: the open handle, and the tokens its callers hold. -/
structure Process where
  impl : Option Impl
  /-- How many handles there have been. -/
  handles : Nat
  reservations : List AdmissionReservation
  admissionReceipts : List OperationJournalAdmissionReceipt
  runReceipts : List OperationJournalRunReceipt
deriving DecidableEq

/-- A process that holds nothing. -/
def Process.empty (handles : Nat) : Process := ⟨none, handles, [], [], []⟩

structure World where
  disk : Disk
  process : Process
deriving DecidableEq

/-- A token is named by its place in the list of its kind. -/
inductive Call where
  | openJournal (path : Bytes)
  | closeJournal
  | reserveOperationId
  | admitReservation (reservation : Nat) (plan : OperationPlan)
  | admitPlan (plan : OperationPlan)
  | transitionToRunning (receipt : Nat)
  | finalizeAdmission (receipt : Nat) (terminal : OperationJournalState)
  | finalize (receipt : Nat) (results : List OperationJournalItemResult)
      (terminal : OperationJournalState)
  | moveReservation (reservation : Nat)
  | releaseReservation (reservation : Nat)
  | moveAdmissionReceipt (receipt : Nat)
  | moveRunReceipt (receipt : Nat)
  /-- The process ends between two calls. -/
  | exit
deriving DecidableEq

structure Event where
  call : Call
  now : TimePoint
  replies : List Reply

inductive Report where
  /-- No call was possible, or it has nothing to report. -/
  | done
  | opened
  | reserved (id : OperationId)
  | admitted (id : OperationId)
  /-- A run receipt was issued. -/
  | running (id : OperationId)
  /-- A terminal result was accepted. -/
  | finalized (id : OperationId)
  | refused (refusal : Refusal)
  | stopped
deriving DecidableEq

def reportOf {α : Type} (success : Report) : Except Refusal α → Report
  | .ok _ => success
  | .error refusal => .refused refusal

def admissionReport : Except Refusal OperationJournalAdmissionReceipt → Report
  | .ok receipt => .admitted receipt.operationId
  | .error refusal => .refused refusal

/-- The move constructor of a reservation: the old object stays, consumed. -/
def AdmissionReservation.moved (reservation : AdmissionReservation) : AdmissionReservation :=
  { reservation with impl := none, consumed := true }

/-- The move constructor of a receipt. -/
def Receipt.moved {kind : ReceiptKind} (receipt : Receipt kind) : Receipt kind :=
  { receipt with journalInstance := none, consumed := true }

/-- The list after its element `k` has been moved into a new object. -/
def moveToken {α : Type} (moved : α → α) (tokens : List α) (k : Nat) : List α :=
  match tokens[k]? with
  | some token => tokens.set k (moved token) ++ [token]
  | none => tokens

/-- One call. -/
def perform (readers : Readers) (process : Process) (now : TimePoint) : Call → Io (Process × Report)
  | .openJournal path => do
      let result ← openJournal readers process.impl.isSome process.handles path now
      match result with
      | .error refusal => return (process, .refused refusal)
      | .ok impl =>
        return ({ process with impl := some impl, handles := process.handles + 1 }, .opened)
  | .closeJournal => return ({ process with impl := none }, .done)
  | .reserveOperationId =>
    match process.impl.map reserveOperationId with
    | none => return (process, .done)
    | some (impl, .error e) => return ({ process with impl := some impl }, .refused ⟨e, false⟩)
    | some (impl, .ok reservation) =>
      return ({ process with
        impl := some impl
        reservations := process.reservations ++ [reservation] }, .reserved reservation.operationId)
  | .admitReservation k plan =>
    match process.impl, process.reservations[k]? with
    | some impl, some reservation => do
        let (impl, reservation, admitted) ← admitLocked readers impl reservation plan now
        return ({ process with
          impl := some impl
          reservations := process.reservations.set k reservation
          admissionReceipts := process.admissionReceipts ++ admitted.toOption.toList },
          reportOf (.admitted reservation.operationId) admitted)
    | _, _ => return (process, .done)
  | .admitPlan plan =>
    match process.impl with
    | some impl => do
        let (impl, admitted) ← admitPlan readers impl plan now
        return ({ process with
          impl := impl
          admissionReceipts := process.admissionReceipts ++ admitted.toOption.toList },
          admissionReport admitted)
    | none => return (process, .done)
  | .transitionToRunning k =>
    match process.impl, process.admissionReceipts[k]? with
    | some impl, some receipt => do
        let (impl, receipt, issued) ← transitionToRunning readers impl receipt now
        return ({ process with
          impl := some impl
          admissionReceipts := process.admissionReceipts.set k receipt
          runReceipts := process.runReceipts ++ issued.toOption.toList },
          reportOf (.running receipt.operationId) issued)
    | _, _ => return (process, .done)
  | .finalizeAdmission k terminal =>
    match process.impl, process.admissionReceipts[k]? with
    | some impl, some receipt => do
        let (impl, receipt, accepted) ← finalizeAdmission readers impl receipt terminal now
        return ({ process with
          impl := some impl
          admissionReceipts := process.admissionReceipts.set k receipt },
          reportOf (.finalized receipt.operationId) accepted)
    | _, _ => return (process, .done)
  | .finalize k results terminal =>
    match process.impl, process.runReceipts[k]? with
    | some impl, some receipt => do
        let (impl, receipt, accepted) ← finalize readers impl receipt results terminal now
        return ({ process with
          impl := some impl
          runReceipts := process.runReceipts.set k receipt },
          reportOf (.finalized receipt.operationId) accepted)
    | _, _ => return (process, .done)
  | .moveReservation k =>
    return ({ process with
      reservations := moveToken AdmissionReservation.moved process.reservations k }, .done)
  | .releaseReservation k =>
    match process.reservations[k]? with
    | some reservation =>
      let (impl, reservation) := release process.impl reservation
      return ({ process with
        impl := impl
        reservations := process.reservations.set k reservation }, .done)
    | none => return (process, .done)
  | .moveAdmissionReceipt k =>
    return ({ process with
      admissionReceipts := moveToken Receipt.moved process.admissionReceipts k }, .done)
  | .moveRunReceipt k =>
    return ({ process with runReceipts := moveToken Receipt.moved process.runReceipts k }, .done)
  | .exit => return (.empty process.handles, .stopped)

def step (readers : Readers) (world : World) (event : Event) : World × Report :=
  match perform readers world.process event.now event.call event.replies world.disk with
  | .stopped disk => (⟨disk, .empty world.process.handles⟩, .stopped)
  | .returned (process, report) disk _ => (⟨disk, process⟩, report)

/-- The world after the events, and their reports in order. -/
def run (readers : Readers) : World → List Event → World × List Report := runAll (step readers)

/-- Before any handle: a directory whose journal file is `disk`. -/
def World.start (disk : Disk) : World := ⟨disk, .empty 0⟩

end WinCommander.Operations.Journal
