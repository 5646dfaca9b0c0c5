/-
  How the symlinks of an archive are resolved.

  Links are met while other ones are being resolved, and keep what became of them. `program` is
  what a link asks of others, without that state.
-/
import WinCommander.Library.FilesystemPath
import WinCommander.Library.Inquiry
import WinCommander.VFS.ArcLA.Index

namespace WinCommander.VFS.ArcLA

open Library
open Library.Path (slash dot dotDot appendPath parentPath)

/-! ## The code -/

/-- The elements of a relative path. A slash at its end makes an empty one. -/
def elements (path : Bytes) : List Bytes :=
  let parts := path.splitOn slash
  parts.dropLast.filter (· ≠ []) ++ [parts.getLastD []]

def isRelative (path : Bytes) : Bool := path.head? ≠ some slash

/-- The path after one more element of a value. -/
def pathStep (path element : Bytes) : Bytes :=
  if element = [] ∨ element = dot then path
  else if element = dotDot then
    parentPath (if Path.filename path = [] then parentPath path else path)
  else appendPath path element

/-- What becomes of a link. -/
inductive Ending where
  | resolved (target : Bytes)
  | invalid
  | loop
deriving DecidableEq

namespace Index

variable (index : Index)

/-- The end of `ResolveSymlink`. -/
def lookUp (path : Bytes) : Ending := if index.itemUID path = 0 then .invalid else .resolved path

def setSymlink (uid : UInt32) (symlink : Symlink) : Index :=
  { index with symlinks := index.symlinks.insert uid symlink }

/-- The link with its final state. -/
def ended (symlink : Symlink) : Ending → Symlink
  | .resolved target =>
    { symlink with state := .resolved, targetPath := target, targetUid := index.itemUID target }
  | .invalid => { symlink with state := .invalid }
  | .loop => { symlink with state := .loop }

/-- `m_EntryByUID[_uid].first->full_path`. -/
def directoryOf (uid : UInt32) : Bytes :=
  match index.entryByUID[uid.toNat]? with
  | some (some (directory, _)) => ((index.pathToDir.lookup directory).map Dir.fullPath).getD []
  | _ => []

/-- The questions for the elements that are left. -/
def inquiry (uid : UInt32) : Bytes → List Bytes → Inquiry UInt32 Ending
  | path, [] => .answer (index.lookUp path)
  | path, i :: rest =>
    let path := pathStep path i
    let currUid := index.itemUID path
    if currUid = uid then .answer .loop
    else if currUid = 0 then .answer .invalid
    else if currUid ∈ index.symlinks then
      .ask currUid fun
        | .resolved target => inquiry uid target rest
        | .loop => .answer .loop
        | .invalid => .answer .invalid
    else inquiry uid path rest

def program (uid : UInt32) : Inquiry UInt32 Ending :=
  match index.symlinks.lookup uid with
  | none => .answer .invalid
  | some symlink =>
    if symlink.value = dot ∨ symlink.value = dot ++ [slash] then .answer .loop
    else if isRelative symlink.value then
      inquiry index uid (index.directoryOf uid) (elements symlink.value)
    else .answer (index.lookUp symlink.value)

end Index

end WinCommander.VFS.ArcLA
