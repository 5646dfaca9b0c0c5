/-
  The staging helper's lease store and lease lifecycle.

  A call is atomic: it holds the store's mutex, and what it reads before is fixed at
  construction. The id of the process that makes a call and what the random source answers to
  each attempt at a token are arguments of the call.
-/
import WinCommander.Library.Run
import WinCommander.Library.SlotTable
import WinCommander.Staging.XpcCodec

namespace WinCommander.Staging

open Library

abbrev OwnerID := UInt64

inductive TerminalDisposition where
  | pending | commit | abort
deriving DecidableEq

inductive LeaseStoreError where
  | invalidArgument | forkedProcess | capacityExceeded | duplicateCorrelation
  | tokenGenerationFailed | unknownLease | ownerMismatch
deriving DecidableEq

/-- A `Begin` whose descriptors were checked; no longer valid once it was moved from. -/
structure ValidatedBegin where
  creatorPid : Int
  begin : DecodedBegin
  valid : Bool

structure TerminalLease where
  creatorPid : Int
  owner : OwnerID
  request : BeginRequest
  descriptors : BeginDescriptors
  lease : Lease
  disposition : TerminalDisposition
deriving DecidableEq

def kMaximumLeases : Nat := 16

def kTokenGenerationAttempts : Nat := 4

structure LeaseStore where
  creatorPid : Int
  entries : SlotTable TerminalLease kMaximumLeases

def LeaseStore.create (pid : Int) : LeaseStore :=
  { creatorPid := pid, entries := .empty kMaximumLeases }

/-- What the random source answers to one attempt; nothing when it fails. -/
abbrev RandomBytes := Option (Octets 32)

def generateLeaseToken (random : RandomBytes) : Except LeaseStoreError LeaseToken :=
  match random with
  | none => .error .tokenGenerationFailed
  | some bytes =>
    if isAllZero bytes.1 then .error .tokenGenerationFailed else .ok { bytes := bytes }

namespace LeaseStore

/-- The attempts at a token that no entry has. -/
def mintLease (store : LeaseStore) (header : Header) (random : Nat → RandomBytes) (attempt : Nat) :
    Nat → Except LeaseStoreError Lease
  | 0 => .error .tokenGenerationFailed
  | remaining + 1 => do
      let token ← generateLeaseToken (random attempt)
      if store.entries.active.any (·.lease.token = token) then
        mintLease store header random (attempt + 1) remaining
      else return { header := header, token := token }

def grant (pid : Int) (store : LeaseStore) (owner : OwnerID) (begin : ValidatedBegin)
    (random : Nat → RandomBytes) : LeaseStore × Except LeaseStoreError Lease :=
  let request := begin.begin.request
  if store.creatorPid ≠ pid then (store, .error .forkedProcess)
  else if begin.valid = false then (store, .error .invalidArgument)
  else if begin.creatorPid ≠ pid then (store, .error .forkedProcess)
  else if owner = 0 ∨ ¬Accepts request.validate then (store, .error .invalidArgument)
  else if store.entries.active.any (·.lease.header = request.header) then
    (store, .error .duplicateCorrelation)
  else
    match store.entries.freeSlot with
    | none => (store, .error .capacityExceeded)
    | some freeEntry =>
      match store.mintLease request.header random 0 kTokenGenerationAttempts with
      | .error error => (store, .error error)
      | .ok lease =>
        let entry : TerminalLease :=
          { creatorPid := store.creatorPid, owner, request,
            descriptors := begin.begin.descriptors, lease, disposition := .pending }
        ({ store with entries := store.entries.assign freeEntry (some entry) }, .ok lease)

/-- The private `Take`: the first entry with the token decides. -/
def take (pid : Int) (store : LeaseStore) (owner : OwnerID) (header : Header) (lease : Lease)
    (disposition : TerminalDisposition) : LeaseStore × Except LeaseStoreError TerminalLease :=
  if store.creatorPid ≠ pid then (store, .error .forkedProcess)
  else if owner = 0 ∨ disposition = .pending ∨ ¬Accepts header.validate ∨
      ¬Accepts lease.validate ∨ header ≠ lease.header then (store, .error .invalidArgument)
  else
    match store.entries.findEntry (·.lease.token = lease.token) with
    | none => (store, .error .unknownLease)
    | some (slot, entry) =>
      if entry.lease.header ≠ header then (store, .error .unknownLease)
      else if entry.owner ≠ owner then (store, .error .ownerMismatch)
      else
        ({ store with entries := store.entries.assign slot none },
          .ok { entry with disposition := disposition })

def takeCommit (pid : Int) (store : LeaseStore) (owner : OwnerID) (request : CommitRequest) :
    LeaseStore × Except LeaseStoreError TerminalLease :=
  if store.creatorPid ≠ pid then (store, .error .forkedProcess)
  else if ¬Accepts request.validate then (store, .error .invalidArgument)
  else store.take pid owner request.header request.lease .commit

def takeAbort (pid : Int) (store : LeaseStore) (owner : OwnerID) (request : AbortRequest) :
    LeaseStore × Except LeaseStoreError TerminalLease :=
  if store.creatorPid ≠ pid then (store, .error .forkedProcess)
  else if ¬Accepts request.validate then (store, .error .invalidArgument)
  else store.take pid owner request.header request.lease .abort

def revokeOwner (pid : Int) (store : LeaseStore) (owner : OwnerID) : LeaseStore × Nat :=
  if store.creatorPid ≠ pid then (store, 0)
  else if owner = 0 then (store, 0)
  else
    ({ store with entries := store.entries.clearAll (·.owner = owner) },
      store.entries.active.countP (·.owner = owner))

end LeaseStore

/-! ## `LeaseLifecycle` -/

namespace LeaseLifecycle

def beginResult (header : Header) (granted : Except LeaseStoreError Lease) : BeginResult :=
  match granted with
  | .ok lease => { header, disposition := .granted, failure := .none, lease }
  | .error error =>
    { header, disposition := .rejected,
      failure := if error = .invalidArgument then .invalidRequest else .helperFailure,
      lease := { header := header, token := ⟨Octets.zero 32⟩ } }

def begin (pid : Int) (store : LeaseStore) (owner : OwnerID) (begin : ValidatedBegin)
    (random : Nat → RandomBytes) : LeaseStore × BeginResult :=
  let (store, granted) := store.grant pid owner begin random
  (store, beginResult begin.begin.request.header granted)

/-- The answer to a request whose lease could not be taken. -/
def notTaken (header : Header) : CompletionResult :=
  { header, publication := .unknown, failure := .helperFailure, systemError := EIO,
    filesystemSync := .notAttempted, filesystemSyncSystemError := 0 }

/-- The lease is used up, and nothing stands behind a commit yet. -/
def committed (header : Header) : CompletionResult :=
  { header, publication := .notPublished, failure := .helperFailure, systemError := EOPNOTSUPP,
    filesystemSync := .notAttempted, filesystemSyncSystemError := 0 }

def aborted (header : Header) : CompletionResult :=
  { header, publication := .notPublished, failure := .aborted, systemError := 0,
    filesystemSync := .notAttempted, filesystemSyncSystemError := 0 }

def commit (pid : Int) (store : LeaseStore) (owner : OwnerID) (request : CommitRequest) :
    LeaseStore × CompletionResult :=
  match store.takeCommit pid owner request with
  | (store, .error _) => (store, notTaken request.header)
  | (store, .ok _) => (store, committed request.header)

def abort (pid : Int) (store : LeaseStore) (owner : OwnerID) (request : AbortRequest) :
    LeaseStore × CompletionResult :=
  match store.takeAbort pid owner request with
  | (store, .error _) => (store, notTaken request.header)
  | (store, .ok _) => (store, aborted request.header)

end LeaseLifecycle

/-! ## Runs -/

inductive LeaseCall where
  | grant (owner : OwnerID) (begin : ValidatedBegin) (random : Nat → RandomBytes)
  | takeCommit (owner : OwnerID) (request : CommitRequest)
  | takeAbort (owner : OwnerID) (request : AbortRequest)
  | begin (owner : OwnerID) (begin : ValidatedBegin) (random : Nat → RandomBytes)
  | commit (owner : OwnerID) (request : CommitRequest)
  | abort (owner : OwnerID) (request : AbortRequest)
  | revokeOwner (owner : OwnerID)

inductive LeaseReply where
  | lease (granted : Except LeaseStoreError Lease)
  | terminal (taken : Except LeaseStoreError TerminalLease)
  | begun (result : BeginResult)
  | completed (result : CompletionResult)
  | revoked (count : Nat)

/-- A call in a process, and what it returned. -/
structure LeaseReport where
  pid : Int
  call : LeaseCall
  reply : LeaseReply

def leaseStep (store : LeaseStore) (event : Int × LeaseCall) : LeaseStore × LeaseReport :=
  let (store, reply) : LeaseStore × LeaseReply :=
    match event.2 with
    | .grant owner begin random =>
      Prod.map id .lease (store.grant event.1 owner begin random)
    | .takeCommit owner request => Prod.map id .terminal (store.takeCommit event.1 owner request)
    | .takeAbort owner request => Prod.map id .terminal (store.takeAbort event.1 owner request)
    | .begin owner begin random =>
      Prod.map id .begun (LeaseLifecycle.begin event.1 store owner begin random)
    | .commit owner request =>
      Prod.map id .completed (LeaseLifecycle.commit event.1 store owner request)
    | .abort owner request =>
      Prod.map id .completed (LeaseLifecycle.abort event.1 store owner request)
    | .revokeOwner owner => Prod.map id .revoked (store.revokeOwner event.1 owner)
  (store, { pid := event.1, call := event.2, reply := reply })

namespace LeaseReport

/-- The lease that was granted, and to whom. -/
def granted (report : LeaseReport) : Option (OwnerID × Lease) :=
  match report.call, report.reply with
  | .grant owner _ _, .lease (.ok lease) => some (owner, lease)
  | .begin owner _ _, .begun result =>
    if result.disposition = .granted then some (owner, result.lease) else none
  | _, _ => none

/-- Who took a lease, with which header and which lease. -/
def taken (report : LeaseReport) : Option (OwnerID × Header × Lease) :=
  match report.call, report.reply with
  | .takeCommit owner request, .terminal (.ok _) => some (owner, request.header, request.lease)
  | .takeAbort owner request, .terminal (.ok _) => some (owner, request.header, request.lease)
  | .commit owner request, .completed result =>
    if result.publication = .notPublished then some (owner, request.header, request.lease)
    else none
  | .abort owner request, .completed result =>
    if result.publication = .notPublished then some (owner, request.header, request.lease)
    else none
  | _, _ => none

end LeaseReport

end WinCommander.Staging
