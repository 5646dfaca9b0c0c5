/-
  The listing cache of the FTP host.

  Directories are kept by their paths with a slash at the end. A `Directory` is copied and patched
  when one of its entries comes, goes or changes its name; the marks on entries are set in place.
-/
import WinCommander.Library.FilesystemPath

namespace WinCommander.VFS.NetFTP

open Library
open Library.Path (slash filename parentPath appendPath)

/-! ## The data -/

structure Entry where
  name : Bytes
  size : UInt64 := 0
  time : Int := 0
  mode : UInt16 := 0
  dirty : Bool := false
deriving DecidableEq

structure Directory where
  entries : List Entry
  path : Bytes := []
  dirtyStructure : Bool := false
  hasDirtyItems : Bool := false
deriving DecidableEq

structure Cache where
  directories : AList fun _ : Bytes => Directory

/-- `S_IFREG`, `S_IFDIR` and `S_IFMT`. -/
abbrev regular : UInt16 := 0x8000
abbrev directoryMode : UInt16 := 0x4000
abbrev typeMask : UInt16 := 0xF000

/-- `S_ISDIR`. -/
def Entry.isDirectory (entry : Entry) : Bool := entry.mode &&& typeMask == directoryMode

namespace Directory

def entryByName (directory : Directory) (name : Bytes) : Option Entry :=
  directory.entries.find? fun entry => entry.name = name

end Directory

/-- The first entry of a name is set as outdated. -/
def markDirty (name : Bytes) : List Entry → List Entry
  | [] => []
  | entry :: rest =>
    if entry.name = name then { entry with dirty := true } :: rest
    else entry :: markDirty name rest

/-- The path of the parent with a slash at the end. -/
def directoryOf (path : Bytes) : Bytes :=
  let parent := parentPath path
  if parent ≠ [slash] then parent ++ [slash] else parent

/-- A copy of the entries in which one has another name, or is missing when that is elsewhere. -/
def renamed (oldName newName : Bytes) (sameDir : Bool) : List Entry → List Entry
  | [] => []
  | entry :: rest =>
    if entry.name ≠ oldName then entry :: renamed oldName newName sameDir rest
    else if sameDir then { entry with name := newName } :: renamed oldName newName sameDir rest
    else renamed oldName newName sameDir rest

/-! ## Operations -/

namespace Cache

variable (c : Cache)

def findDirectoryInt (path : Bytes) : Option Directory :=
  if path.head? ≠ some slash then none else c.directories.lookup path

def set (path : Bytes) (directory : Directory) : Cache := ⟨c.directories.insert path directory⟩

def insertLISTDirectory (path : Bytes) (directory : Directory) : Cache :=
  if path.head? ≠ some slash then c
  else
    let dir := if path.getLast? ≠ some slash then path ++ [slash] else path
    c.set dir { directory with path := dir }

def commitNewFile (path : Bytes) : Cache :=
  let dirPath := directoryOf path
  match c.findDirectoryInt dirPath with
  | none => c
  | some dir =>
    match dir.entryByName (filename path) with
    | some _ =>
      c.set dirPath
        { dir with entries := markDirty (filename path) dir.entries, hasDirtyItems := true }
    | none =>
      c.set dirPath
        { dir with
          entries := dir.entries ++ [{ name := filename path, mode := regular, dirty := true }]
          hasDirtyItems := true }

def eraseEntryInt (path : Bytes) : Cache :=
  let dirPath := directoryOf path
  match c.findDirectoryInt dirPath with
  | none => c
  | some dir =>
    c.set dirPath { dir with entries := dir.entries.filter fun entry => entry.name ≠ filename path }

def commitRMD (path : Bytes) : Cache :=
  ⟨(c.eraseEntryInt path).directories.erase (path ++ [slash])⟩

def commitUnlink (path : Bytes) : Cache := c.eraseEntryInt path

def commitMKD (path : Bytes) : Cache :=
  let dirPath := directoryOf path
  match c.findDirectoryInt dirPath with
  | none => c
  | some dir =>
    c.set dirPath
      { dir with
        entries := dir.entries ++
          [{ name := filename path, mode := directoryMode, dirty := true }]
        hasDirtyItems := true }

/-- The parent of the old path loses the entry, or has it under the new name. -/
def renameIn (oldPath newPath : Bytes) (sameDir : Bool) : Cache :=
  let oldParPath := directoryOf oldPath
  match c.findDirectoryInt oldParPath with
  | none => c
  | some dir =>
    c.set oldParPath
      { dir with entries := renamed (filename oldPath) (filename newPath) sameDir dir.entries }

/-- The entry that the parent of the new path gets. It is read after the cache has let go of the
    directory that it was in: it is still there if others have that directory, too. -/
def oldEntry (oldPath : Bytes) (remember : Entry → Entry) : Option Entry :=
  (c.findDirectoryInt (directoryOf oldPath)).bind fun dir =>
    ((dir.entries.filter fun entry => entry.name = filename oldPath).getLast?).map remember

def addRenamed (newPath : Bytes) (entry : Entry) : Cache :=
  let newParPath := directoryOf newPath
  match c.findDirectoryInt newParPath with
  | none => c
  | some dir =>
    c.set newParPath { dir with entries := dir.entries ++ [{ entry with name := filename newPath }] }

/-- The directory itself, by paths to which a slash was appended. -/
def renameSelf (oldPath newPath : Bytes) : Cache :=
  let oldSelf := if oldPath ≠ [slash] then appendPath oldPath [slash] else oldPath
  let newSelf := if newPath ≠ [slash] then appendPath newPath [slash] else newPath
  match c.directories.lookup oldSelf with
  | none => c
  | some data =>
    let rest := c.directories.erase oldSelf
    ⟨if (rest.lookup newSelf).isSome then rest else rest.insert newSelf data⟩

def commitRename (oldPath newPath : Bytes) (remember : Entry → Entry) : Cache :=
  let sameDir := parentPath oldPath = parentPath newPath
  let c' := c.renameIn oldPath newPath sameDir
  let c' := if sameDir then c' else
    match c.oldEntry oldPath remember with
    | none => c'
    | some entry => c'.addRenamed newPath entry
  c'.renameSelf oldPath newPath

end Cache

end WinCommander.VFS.NetFTP
