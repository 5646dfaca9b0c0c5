/-
  `VFSInstanceManagerImpl`: what is known of every file system that a promise may bring back.

  A host is an object with an identity, which is never used again, and holds its parent. A weak
  pointer is the identity of its host, or empty, and has expired when it is empty or the host is
  gone. A promise object is its position in the list of all promises, and its value the id it holds,
  zero when it is empty. Ids and counts are natural numbers. The decrements that are dispatched to
  the background are waiting in `pending`.
-/
import WinCommander.Library.Run

namespace WinCommander.VFS

variable {κ : Type}

open Library

/-! ## The data -/

/-- A `VFSHost` with the hosts above it. -/
inductive VFSHost (κ : Type) where
  | root (identity : Nat) (configuration : κ)
  | child (identity : Nat) (configuration : κ) (parent : VFSHost κ)

def VFSHost.identity : VFSHost κ → Nat
  | .root identity _ | .child identity _ _ => identity

/-- The host and those above it. -/
def VFSHost.chain : VFSHost κ → List Nat
  | .root identity _ => [identity]
  | .child identity _ parent => identity :: parent.chain

structure Info (κ : Type) where
  id : Nat
  promisesCount : Nat := 0
  /-- Zero means no parent. -/
  parentVFSID : Nat
  weakHost : Option Nat
  configuration : κ
deriving DecidableEq

structure State (κ : Type) where
  memory : List (Info κ) := []
  memoryNextID : Nat := 1
  /-- The hosts whose destruction calls back. -/
  aliveHosts : List Nat := []
  /-- The hosts that are gone. -/
  dead : List Nat := []
  promises : List Nat := []
  pending : List Nat := []
deriving DecidableEq

/-! ## The operations -/

def State.expired (state : State κ) (weakHost : Option Nat) : Bool :=
  weakHost.all fun host => host ∈ state.dead

/-- `InfoFromVFSWeakPtr_Unlocked`; a `shared_ptr` is a weak pointer that is not empty. -/
def State.infoFromVFSWeakPtr (state : State κ) (weakHost : Option Nat) : Option (Info κ) :=
  state.memory.find? (·.weakHost = weakHost)

def State.infoFromID (state : State κ) (id : Nat) : Option (Info κ) :=
  state.memory.find? (·.id = id)

/-- The first info of the id is changed. -/
def updateInfo (id : Nat) (f : Info κ → Info κ) : List (Info κ) → List (Info κ)
  | [] => []
  | info :: rest => if info.id = id then f info :: rest else info :: updateInfo id f rest

def Info.incremented (info : Info κ) : Info κ :=
  { info with promisesCount := info.promisesCount + 1 }

/-- The count is above zero where the source decrements it (`decPromiseCount_positive`). -/
def Info.decremented (info : Info κ) : Info κ :=
  { info with promisesCount := info.promisesCount - 1 }

def State.incPromiseCount (state : State κ) (id : Nat) : State κ :=
  if id = 0 then state else { state with memory := updateInfo id Info.incremented state.memory }

def State.decPromiseCount (state : State κ) (id : Nat) : State κ :=
  if id = 0 then state
  else
    match state.infoFromID id with
    | none => state
    | some info =>
      if info.promisesCount - 1 = 0 ∧ state.expired info.weakHost then
        { state with
          memory := state.memory.eraseP (·.id = id)
          pending :=
            if info.parentVFSID > 0 then state.pending ++ [info.parentVFSID] else state.pending }
      else { state with memory := updateInfo id Info.decremented state.memory }

/-- `SpawnPromiseFromInfo_Unlocked`: the new promise is the last one. -/
def State.spawnPromise (state : State κ) (id : Nat) : State κ :=
  { state with
    memory := updateInfo id Info.incremented state.memory, promises := state.promises ++ [id] }

/-- The promise object is destroyed. -/
def State.destroyPromise (state : State κ) (promise : Nat) : State κ :=
  { state with promises := state.promises.eraseIdx promise }.decPromiseCount
    (state.promises.getD promise 0)

def State.enrollAliveHost (state : State κ) (host : Nat) : State κ :=
  if host ∈ state.aliveHosts then state
  else { state with aliveHosts := state.aliveHosts ++ [host] }

def State.sweepDeadReferences (state : State κ) : State κ :=
  { state with aliveHosts := state.aliveHosts.filter (· ∉ state.dead) }

def State.sweepDeadMemory (state : State κ) : State κ :=
  let kept := state.memory.filter fun info => !(state.expired info.weakHost && info.promisesCount = 0)
  { state with
    memory := kept.map fun info => if state.expired info.weakHost then { info with weakHost := none } else info }

/-! ### `TameVFS` -/

/-- An info for this host in the chain: of the requested id, or of a host that is gone for the one in
    front, and with a parent exactly when the host has one. -/
def State.findMatch [BEq κ] (state : State κ) (configuration : κ) (hasParent : Bool) (infoIdRequest : Nat) :
    Option (Info κ) :=
  state.memory.find? fun info =>
    info.configuration == configuration &&
      (if infoIdRequest = 0 then state.expired info.weakHost else info.id = infoIdRequest) &&
      decide (info.parentVFSID ≠ 0) = hasParent

/-- The ids of a chain of infos that matches the chain of hosts. -/
def State.existingMatch [BEq κ] (state : State κ) : VFSHost κ → Nat → Option (List Nat)
  | .root _ configuration, infoIdRequest =>
    (state.findMatch configuration false infoIdRequest).map fun info => [info.id]
  | .child _ configuration parent, infoIdRequest =>
    match state.findMatch configuration true infoIdRequest with
    | none => none
    | some info => (state.existingMatch parent info.parentVFSID).map (info.id :: ·)

def Info.withHost (host : Nat) (info : Info κ) : Info κ := { info with weakHost := some host }

def State.setHost (state : State κ) (id host : Nat) : State κ :=
  { state with memory := updateInfo id (Info.withHost host) state.memory }.enrollAliveHost host

/-- An info that lost its host gets this one. -/
def State.refreshHost (state : State κ) (id host : Nat) : State κ :=
  match state.infoFromID id with
  | some info => if state.expired info.weakHost then state.setHost id host else state
  | none => state

/-- The infos of the chain are given the hosts of the chain. -/
def State.refreshHosts (state : State κ) : List Nat → List Nat → State κ
  | id :: ids, host :: hosts => (state.refreshHost id host).refreshHosts ids hosts
  | _, _ => state

/-- A new info of the host, under that of its parent. -/
def State.emplaceInfo (state : State κ) (host : Nat) (configuration : κ) (parentId : Nat) : State κ :=
  { state with
    memory := updateInfo parentId Info.incremented state.memory ++
      [{ id := state.memoryNextID, parentVFSID := parentId, weakHost := some host, configuration }]
    memoryNextID := state.memoryNextID + 1 }

/-- The promise that it returns is the last one. That of the parent's call is destroyed at once. -/
def State.tameVFS [BEq κ] (state : State κ) : VFSHost κ → State κ
  | .root identity configuration =>
    match state.infoFromVFSWeakPtr (some identity) with
    | some info => state.spawnPromise info.id
    | none =>
      match state.existingMatch (.root identity configuration) 0 with
      | some ids => (state.refreshHosts ids [identity]).spawnPromise (ids.headD 0)
      | none =>
        ((state.enrollAliveHost identity).emplaceInfo identity configuration 0).spawnPromise
          state.memoryNextID
  | .child identity configuration parent =>
    match state.infoFromVFSWeakPtr (some identity) with
    | some info => state.spawnPromise info.id
    | none =>
      match state.existingMatch (.child identity configuration parent) 0 with
      | some ids => (state.refreshHosts ids (identity :: parent.chain)).spawnPromise (ids.headD 0)
      | none =>
        let tamed := state.tameVFS parent
        let state := (tamed.destroyPromise (tamed.promises.length - 1)).enrollAliveHost identity
        let parentId := (state.infoFromVFSWeakPtr (some parent.identity)).elim 0 (·.id)
        (state.emplaceInfo identity configuration parentId).spawnPromise state.memoryNextID

/-! ### `RetrieveVFS` -/

/-- What a factory does: it throws, or returns a host or none. -/
abbrev Spawn := Except Unit (Option Nat)

/-- `GetOrRestoreVFS_Unlocked`, with what the factory does for an info. A parent's id is below its
    child's, so that as many levels as the id are enough (`getOrRestoreVFS_levels`). -/
def State.getOrRestoreVFS (spawn : Nat → Spawn) : Nat → State κ → Nat → State κ × Spawn
  | 0, state, _ => (state, .ok none)
  | levels + 1, state, id =>
    match state.infoFromID id with
    | none => (state, .ok none)
    | some info =>
      if state.expired info.weakHost then
        let above : State κ × Spawn :=
          if info.parentVFSID > 0 then state.getOrRestoreVFS spawn levels info.parentVFSID
          else (state, .ok none)
        match above.2, spawn id with
        | .ok _, .ok (some host) => (above.1.setHost id host, .ok (some host))
        | .ok _, outcome => (above.1, outcome)
        | .error failure, _ => (above.1, .error failure)
      else (state, .ok info.weakHost)

/-! ## Runs -/

inductive Event (κ : Type) where
  | tameVFS (host : Option (VFSHost κ))
  | preserveVFS (weakHost : Option Nat)
  | retrieveVFS (promise : Nat) (spawn : Nat → Spawn)
  | promiseByPosition (position : Nat)
  | parentPromise (promise : Nat)
  | copy (promise : Nat)
  | move (promise : Nat)
  | assign (target source : Nat)
  | moveAssign (target source : Nat)
  | destroy (promise : Nat)
  | destroyHost (host : Nat)
  | background (position : Nat)

/-- The promise of an info, or an empty one. -/
def State.spawnPromiseOf (state : State κ) : Option (Info κ) → State κ
  | none => { state with promises := state.promises ++ [0] }
  | some info => state.spawnPromise info.id

/-- The id that a promise object holds. -/
def State.idOf (state : State κ) (promise : Nat) : Nat := state.promises.getD promise 0

def State.parentInfo (state : State κ) (id : Nat) : Option (Info κ) :=
  (state.infoFromID id).bind fun info =>
    if info.parentVFSID = 0 then none else state.infoFromID info.parentVFSID

def State.copyPromise (state : State κ) (promise : Nat) : State κ :=
  { state with promises := state.promises ++ [state.idOf promise] }.incPromiseCount
    (state.idOf promise)

def State.movePromise (state : State κ) (promise : Nat) : State κ :=
  { state with promises := state.promises.set promise 0 ++ [state.idOf promise] }

/-- The old id is given back before the new one is counted, also when they are the same promise. -/
def State.assignPromise (state : State κ) (target source : Nat) : State κ :=
  let released := state.decPromiseCount (state.idOf target)
  { released with promises := state.promises.set target (state.idOf source) }.incPromiseCount
    (state.idOf source)

def State.moveAssignPromise (state : State κ) (target source : Nat) : State κ :=
  let released := state.decPromiseCount (state.idOf target)
  { released with promises := (state.promises.set target (state.idOf source)).set source 0 }

/-- The last reference goes, and the callback runs where one was set. -/
def State.destroyHost (state : State κ) (host : Nat) : State κ :=
  let gone := { state with dead := host :: state.dead }
  if host ∈ state.aliveHosts then gone.sweepDeadReferences.sweepDeadMemory else gone

def State.runBackground (state : State κ) (position : Nat) : State κ :=
  { state with pending := state.pending.eraseIdx position }.decPromiseCount
    (state.pending.getD position 0)

def State.step [BEq κ] (state : State κ) : Event κ → State κ
  | .tameVFS none => state.spawnPromiseOf none
  | .tameVFS (some host) => state.tameVFS host
  | .preserveVFS weakHost => state.spawnPromiseOf (state.infoFromVFSWeakPtr weakHost)
  | .retrieveVFS promise spawn => (state.getOrRestoreVFS spawn (state.idOf promise) (state.idOf promise)).1
  | .promiseByPosition position => state.spawnPromiseOf state.memory[position]?
  | .parentPromise promise => state.spawnPromiseOf (state.parentInfo (state.idOf promise))
  | .copy promise => state.copyPromise promise
  | .move promise => state.movePromise promise
  | .assign target source => state.assignPromise target source
  | .moveAssign target source => state.moveAssignPromise target source
  | .destroy promise => state.destroyPromise promise
  | .destroyHost host => state.destroyHost host
  | .background position => state.runBackground position

/-- A factory does not return a host that is gone. -/
def State.SpawnsAlive (state : State κ) : Spawn → Prop
  | .ok (some host) => host ∉ state.dead
  | _ => True

instance (state : State κ) : ∀ outcome, Decidable (state.SpawnsAlive outcome)
  | .ok (some host) => inferInstanceAs (Decidable (host ∉ state.dead))
  | .ok none | .error _ => isTrue trivial

/-- What the program around the manager can do: it has the promises and the hosts that it uses. -/
def Possible (state : State κ) : Event κ → Prop
  | .tameVFS none | .preserveVFS _ | .promiseByPosition _ => True
  | .tameVFS (some host) => ∀ identity ∈ host.chain, identity ∉ state.dead
  | .retrieveVFS promise spawn =>
    promise < state.promises.length ∧ ∀ info ∈ state.memory, state.SpawnsAlive (spawn info.id)
  | .parentPromise promise | .copy promise | .move promise | .destroy promise =>
    promise < state.promises.length
  | .assign target source | .moveAssign target source =>
    target < state.promises.length ∧ source < state.promises.length
  | .destroyHost host => host ∉ state.dead
  | .background position => position < state.pending.length

instance (state : State κ) : ∀ event, Decidable (Possible state event)
  | .tameVFS none | .preserveVFS _ | .promiseByPosition _ => isTrue trivial
  | .tameVFS (some host) =>
    inferInstanceAs (Decidable (∀ identity ∈ host.chain, identity ∉ state.dead))
  | .retrieveVFS promise spawn =>
    inferInstanceAs (Decidable (promise < state.promises.length ∧
      ∀ info ∈ state.memory, state.SpawnsAlive (spawn info.id)))
  | .parentPromise promise | .copy promise | .move promise | .destroy promise =>
    inferInstanceAs (Decidable (promise < state.promises.length))
  | .assign target source | .moveAssign target source =>
    inferInstanceAs (Decidable (target < state.promises.length ∧ source < state.promises.length))
  | .destroyHost host => inferInstanceAs (Decidable (host ∉ state.dead))
  | .background position => inferInstanceAs (Decidable (position < state.pending.length))

/-- A run from the start of the program. -/
def run [BEq κ] (events : List (Event κ)) : State κ :=
  (runAll (fun (state : State κ) event => (state.step event, ())) {} events).1

end WinCommander.VFS
