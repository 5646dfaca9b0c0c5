/-
  `ConfigImpl`: a document between its callers, two executors and the storage of its overwrites.

  A frame stands before the next atomic step of its call: a flag, the document under its lock, a
  queue of an executor or the storage. A frame that fires observers awaits them, and they may call
  again. A task of an executor is run by a call of its own, at any later time.
-/
import WinCommander.Config.Document
import WinCommander.Library.Threads

namespace WinCommander.Config

open Library

variable {ν : Type}

/-- The configuration, its executors' queues and the storage. -/
structure ConfigImpl (ν : Type) where
  document : Value ν
  writeScheduled : Bool := false
  readScheduled : Bool := false
  /-- The tasks in the queue of the dump executor. -/
  dumps : Nat := 0
  reloads : Nat := 0
  /-- The text in the storage, if it can be read. -/
  content : Option Bytes
  /-- The storage was changed by others since the last write, or nothing was written yet. -/
  external : Bool := true
  /-- A change of the document by its callers that is in no text written since. -/
  unsaved : Bool := false
  /-- How often the storage was changed by others, how often when the last notification came and
      how often when it was last read. -/
  changes : Nat := 0
  notified : Nat := 0
  read : Nat := 0

inductive Call (ν : Type) where
  | set (path : Bytes) (value : Value ν)
  | resetToDefaults
  | commit
  /-- Somebody else changes the storage. -/
  | change (content : Option Bytes)
  | overwritesDidChange
  /-- An executor takes a task from its queue. -/
  | runDump
  | runReload

inductive Frame (ν : Type) where
  | set (path : Bytes) (value : Value ν)
  | fireAndMark
  | markDirty
  | executeDump
  | runDump
  /-- `WriteOverwrites` before the document is looked at, and whether `ResetToDefaults` waits to
      fire its observers after it. -/
  | writeOverwrites (fires : Bool)
  | write (text : Bytes) (fires : Bool)
  | clearWriteFlag (fires : Bool)
  | resetToDefaults
  | fire
  | commit
  | change (content : Option Bytes)
  | overwritesDidChange
  | executeReload
  | runReload
  | reloadOverwrites
  | replace (document : Value ν)
  | fireAndClear
  | clearReadFlag

def Call.entry : Call ν → Frame ν
  | .set path value => .set path value
  | .resetToDefaults => .resetToDefaults
  | .commit => .commit
  | .change content => .change content
  | .overwritesDidChange => .overwritesDidChange
  | .runDump => .runDump
  | .runReload => .runReload

/-- Observers are running. -/
def Frame.awaits : Frame ν → Bool
  | .fireAndMark | .fire | .fireAndClear => true
  | _ => false

namespace ConfigImpl

variable (json : RapidJson ν) (defaults : Value ν)

/-- The serialisation of the overwrites of a document. -/
def overwritesText (document : Value ν) : Bytes :=
  json.write (json.buildOverwrites defaults document)

/-- The document that a text of the storage stands for. -/
def loaded (text : Bytes) : Option (Value ν) :=
  (json.parseOverwrites text).map (mergeDocuments defaults)

/-- The constructor. -/
def create (content : Option Bytes) : ConfigImpl ν where
  document := (content.bind (loaded json defaults)).getD defaults
  content := content

abbrev Advanced (ν : Type) := ConfigImpl ν × Option (Frame ν)

/-- `SetInternal` as far as `ReplaceOrInsert`. -/
def setInternal (s : ConfigImpl ν) (path : Bytes) (value : Value ν) : Advanced ν :=
  if path = [] then (s, none)
  else
    match json.replaceOrInsert path value s.document with
    | none => (s, none)
    | some document => ({ s with document := document, unsaved := true }, some .fireAndMark)

def markDirty (s : ConfigImpl ν) : Advanced ν :=
  if s.writeScheduled then (s, none)
  else ({ s with writeScheduled := true }, some .executeDump)

/-- The dump executor runs a task, if it has one. -/
def runDump (s : ConfigImpl ν) : Advanced ν :=
  if s.dumps = 0 then (s, none)
  else ({ s with dumps := s.dumps - 1 }, some (.writeOverwrites false))

/-- `Write` of the storage. -/
def storeText (s : ConfigImpl ν) (text : Bytes) : ConfigImpl ν :=
  { s with
    content := some text
    external := false
    unsaved := s.unsaved && decide (text ≠ overwritesText json defaults s.document) }

def resetToDefaults (s : ConfigImpl ν) : Advanced ν :=
  if json.listDifferences s.document defaults = [] then ({ s with document := defaults }, none)
  else ({ s with document := defaults, unsaved := true }, some (.writeOverwrites true))

/-- Writes when the flag is up, and leaves it up in any case. -/
def commit (s : ConfigImpl ν) : Advanced ν :=
  ({ s with writeScheduled := true },
    if s.writeScheduled then some (.writeOverwrites false) else none)

def changeStorage (s : ConfigImpl ν) (content : Option Bytes) : ConfigImpl ν :=
  { s with content := content, external := true, changes := s.changes + 1 }

def overwritesDidChange (s : ConfigImpl ν) : Advanced ν :=
  let told := { s with notified := s.changes }
  if s.readScheduled then (told, none)
  else ({ told with readScheduled := true }, some .executeReload)

def runReload (s : ConfigImpl ν) : Advanced ν :=
  if s.reloads = 0 then (s, none)
  else ({ s with reloads := s.reloads - 1 }, some .reloadOverwrites)

/-- `ReloadOverwrites` as far as the new document. -/
def reloadOverwrites (s : ConfigImpl ν) : Advanced ν :=
  ({ s with read := s.changes },
    match s.content.bind (loaded json defaults) with
    | none => some .clearReadFlag
    | some document => some (.replace document))

def advance (s : ConfigImpl ν) : Frame ν → Advanced ν
  | .set path value => setInternal json s path value
  | .fireAndMark => (s, some .markDirty)
  | .markDirty => markDirty s
  | .executeDump => ({ s with dumps := s.dumps + 1 }, none)
  | .runDump => runDump s
  | .writeOverwrites fires => (s, some (.write (overwritesText json defaults s.document) fires))
  | .write text fires => (storeText json defaults s text, some (.clearWriteFlag fires))
  | .clearWriteFlag fires =>
    ({ s with writeScheduled := false }, if fires then some .fire else none)
  | .resetToDefaults => resetToDefaults json defaults s
  | .fire => (s, none)
  | .commit => commit s
  | .change content => (changeStorage s content, none)
  | .overwritesDidChange => overwritesDidChange s
  | .executeReload => ({ s with reloads := s.reloads + 1 }, none)
  | .runReload => runReload s
  | .reloadOverwrites => reloadOverwrites json defaults s
  | .replace document => ({ s with document := document }, some .fireAndClear)
  | .fireAndClear => (s, some .clearReadFlag)
  | .clearReadFlag => ({ s with readScheduled := false }, none)

end ConfigImpl

/-- The document lock and the flags are held within a step. -/
def program (json : RapidJson ν) (defaults : Value ν) :
    ThreadProgram (ConfigImpl ν) (Frame ν) Empty (Call ν) Unit Unit where
  entry := Call.entry
  advance s f _ :=
    let (s', next) := ConfigImpl.advance json defaults s f
    (s', next, none)
  awaits := Frame.awaits
  wants _ := none
  holds _ _ := false
  recursive _ := false
  entry_holds _ _ := rfl
  advance_holds _ _ _ _ _ _ h := absurd h Bool.false_ne_true

/-- Threads that have called nothing yet. -/
def started (json : RapidJson ν) (defaults : Value ν) (content : Option Bytes) (threads : Nat) :
    Threads (ConfigImpl ν) (Frame ν) :=
  ⟨.create json defaults content, List.replicate threads []⟩

end WinCommander.Config
