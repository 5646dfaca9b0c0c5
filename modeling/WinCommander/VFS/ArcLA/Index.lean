/-
  The index of an archive, as it is built from the headers of its entries.

  Directories are kept by their paths with a slash at the end. Each has its entries, and the uids of
  the archive say at which directory and index their entries are. A directory that no header named
  before an entry in it is made up, with the uid `syntheticArUID`.
-/
import WinCommander.Utility.PathManip

namespace WinCommander.VFS.ArcLA

open Library
open Library.Path (slash dot dotDot)
open Utility.PathManip

/-! ## The data -/

/-- `st_mode & S_IFMT`. -/
inductive FileType where
  | directory
  | regular
  | symlink
  | other
deriving DecidableEq

structure TimeSpec where
  sec : Int := 0
  nsec : Int := 0
deriving DecidableEq

structure Stat where
  type : FileType
  size : Int64 := 0
  atime : TimeSpec := {}
  mtime : TimeSpec := {}
  ctime : TimeSpec := {}
  birthtime : TimeSpec := {}
deriving DecidableEq

/-- What libarchive tells of an entry. -/
structure Header where
  stat : Option Stat
  pathname : Option Bytes
  symlink : Option Bytes := none
  mtimeIsSet : Bool := false
  ctimeIsSet : Bool := false
  atimeIsSet : Bool := false
  birthtimeIsSet : Bool := false

/-- The uid of directories that are made up. -/
abbrev syntheticArUID : UInt32 := 0xFFFFFFFF

structure DirEntry where
  name : Bytes
  st : Stat
  aruid : UInt32 := 0
deriving DecidableEq

structure Dir where
  fullPath : Bytes := []
  nameInParent : Bytes := []
  contentSize : UInt64 := 0
  entries : List DirEntry := []
deriving DecidableEq

inductive SymlinkState where
  | resolved
  | unresolved
  | currentlyResolving
  | invalid
  | loop
deriving DecidableEq

structure Symlink where
  value : Bytes
  targetPath : Bytes := []
  uid : UInt32 := 0
  targetUid : UInt32 := 0
  state : SymlinkState := .unresolved
deriving DecidableEq

abbrev PathToDir := AList fun _ : Bytes => Dir

structure Index where
  pathToDir : PathToDir
  entryByUID : List (Option (Bytes × Nat)) := []
  symlinks : AList fun _ : UInt32 => Symlink := ∅
  needsPathResolving : Bool := false

/-! ## Building directories -/

section Building

variable (src : Stat)

/-- A directory with the times of the archive's file. -/
def dummyDir (name : Bytes) : DirEntry where
  name
  st := { src with type := .directory, size := 0 }
  aruid := syntheticArUID

def insertDummyDirInto (dirs : PathToDir) (parentPath name : Bytes) : PathToDir :=
  match dirs.lookup parentPath with
  | none => dirs
  | some dir => dirs.insert parentPath { dir with entries := dir.entries ++ [dummyDir src name] }

/-- The directories with the one of the path and those above it, unless that is a bogus path. -/
def findOrBuildDirWithin : Nat → PathToDir → Bytes → Option PathToDir
  | 0, _, _ => none
  | fuel + 1, dirs, path =>
    if path ∈ dirs then some dirs
    else if parent path = [] then none
    else if filename path = [] then none
    else
      (findOrBuildDirWithin fuel dirs (parent path)).map fun dirs =>
        (insertDummyDirInto src dirs (parent path) (filename path)).insert path
          { fullPath := path, nameInParent := filename path }

/-- A parent is shorter than its path. -/
def findOrBuildDir (dirs : PathToDir) (path : Bytes) : Option PathToDir :=
  findOrBuildDirWithin src (path.length + 1) dirs path

end Building

/-! ## Reading the listing -/

/-- The path and the attributes of an entry that is neither broken nor the root. -/
def Header.path (h : Header) : Option (Bytes × Stat) :=
  match h.stat, h.pathname with
  | some stat, some pathname =>
    if pathname = [] then none
    else
      let path := if pathname.head? = some slash then pathname else slash :: pathname
      if path = [slash] then none
      else if path = slash :: dot then none
      else some (path, stat)
  | _, _ => none

/-- Times that are missing are those of the modification, or of the archive's file. -/
def Header.fixup (h : Header) (src st : Stat) : Stat :=
  let st := if h.mtimeIsSet ∧ st.mtime.sec ≠ 0 then st else { st with mtime := src.mtime }
  let st := if h.ctimeIsSet ∧ st.ctime.sec ≠ 0 then st else { st with ctime := st.mtime }
  let st := if h.atimeIsSet ∧ st.atime.sec ≠ 0 then st else { st with atime := st.mtime }
  if h.birthtimeIsSet ∧ st.birthtime.sec ≠ 0 then st else { st with birthtime := st.mtime }

/-- A directory may have been made up before; anything else is added. The index of the entry is
    told, too. -/
def Dir.place (dir : Dir) (name : Bytes) (st : Stat) (aruid : UInt32) : Dir × Nat :=
  let found :=
    if st.type = .directory then
      dir.entries.findIdx? fun e => e.st.type = .directory ∧ e.name = name
    else none
  match found with
  | some i => ({ dir with entries := dir.entries.modify i fun e => { e with st, aruid } }, i)
  | none => ({ dir with entries := dir.entries ++ [{ name, st, aruid }] }, dir.entries.length)

/-- The table is resized for the uid when that is beyond its end. -/
def recordEntry (table : List (Option (Bytes × Nat))) (aruid : UInt32) (place : Bytes × Nat) :
    List (Option (Bytes × Nat)) :=
  let size := (aruid + 1).toNat
  let table :=
    if table.length ≤ aruid.toNat then (table ++ List.replicate (size - table.length) none).take size
    else table
  table.set aruid.toNat (some place)

namespace Index

variable (index : Index)

def addSymlink (aruid : UInt32) (link : Option Bytes) : Index :=
  let symlink : Symlink :=
    match link with
    | none | some [] => { value := [], uid := aruid, state := .invalid }
    | some value => { value, uid := aruid }
  { index with
    symlinks := if aruid ∈ index.symlinks then index.symlinks else index.symlinks.insert aruid symlink
    needsPathResolving := true }

def addDirectory (path : Bytes) : Index :=
  let path := if hasTrailingSlash path then path else path ++ [slash]
  if path ∈ index.pathToDir then index
  else
    { index with
      pathToDir := index.pathToDir.insert path { fullPath := path, nameInParent := filename path } }

/-- The entry goes to its parent, which is there. -/
def addEntry (src : Stat) (h : Header) (path : Bytes) (stat : Stat) (aruid : UInt32) : Index :=
  match index.pathToDir.lookup (parent path) with
  | none => index
  | some dir =>
    let (dir, i) := dir.place (filename path) (h.fixup src stat) aruid
    let index :=
      { index with
        pathToDir := index.pathToDir.insert (parent path) dir
        entryByUID := recordEntry index.entryByUID aruid (parent path, i) }
    let index := if stat.type = .symlink then index.addSymlink aruid h.symlink else index
    if stat.type = .directory then index.addDirectory path else index

end Index

/-- The index with the uid and the parent directory of the last entry. -/
structure Reading where
  index : Index
  aruid : UInt32 := 0
  parentDir : Bytes := [slash]

def Reading.readHeader (src : Stat) (r : Reading) (h : Header) : Reading :=
  let aruid := r.aruid + 1
  match h.path with
  | none => { r with aruid }
  | some (path, stat) =>
    let found :=
      if r.parentDir ≠ parent path then findOrBuildDir src r.index.pathToDir (parent path)
      else some r.index.pathToDir
    match found with
    | none => { r with aruid }
    | some dirs =>
      { index := { r.index with pathToDir := dirs }.addEntry src h path stat aruid
        aruid
        parentDir := parent path }

/-- What an entry adds to the size of its directory. That of a directory is updated before. -/
def sizeEntry (update : PathToDir → Bytes → PathToDir × UInt64) (path : Bytes) (dirs : PathToDir)
    (e : DirEntry) : PathToDir × DirEntry × UInt64 :=
  match e.st.type with
  | .directory =>
    if child path e.name ∈ dirs then
      let (dirs, subdirSize) := update dirs (child path e.name)
      (dirs, { e with st := { e.st with size := subdirSize.toInt64 } }, subdirSize)
    else (dirs, e, 0)
  | .regular => (dirs, e, e.st.size.toUInt64)
  | .symlink | .other => (dirs, e, 0)

def sizeEntries (update : PathToDir → Bytes → PathToDir × UInt64) (path : Bytes) :
    PathToDir → List DirEntry → PathToDir × List DirEntry × UInt64
  | dirs, [] => (dirs, [], 0)
  | dirs, e :: rest =>
    let (dirs, e, size) := sizeEntry update path dirs e
    let (dirs, rest, restSize) := sizeEntries update path dirs rest
    (dirs, e :: rest, size + restSize)

def updateDirectorySizeWithin : Nat → PathToDir → Bytes → PathToDir × UInt64
  | 0, dirs, _ => (dirs, 0)
  | fuel + 1, dirs, path =>
    match dirs.lookup path with
    | none => (dirs, 0)
    | some dir =>
      let (dirs, entries, size) :=
        sizeEntries (updateDirectorySizeWithin fuel) path dirs dir.entries
      (dirs.insert path { dir with entries, contentSize := size }, size)

/-- Directories below one another have longer and longer paths. -/
def updateDirectorySize (dirs : PathToDir) (path : Bytes) : PathToDir × UInt64 :=
  updateDirectorySizeWithin ((dirs.keys.map List.length).foldr max 0 + 1) dirs path

/-- The root directory. -/
def rootIndex : Index where
  pathToDir := AList.insert [slash] { fullPath := [slash] } ∅

def readHeaders (src : Stat) (headers : List Header) : Reading :=
  headers.foldl (Reading.readHeader src) { index := rootIndex }

def readArchiveListing (src : Stat) (headers : List Header) : Index :=
  let index := (readHeaders src headers).index
  { index with pathToDir := (updateDirectorySize index.pathToDir [slash]).1 }

/-! ## Finding entries -/

namespace Index

variable (index : Index)

/-- The entry that a name in a directory is for. -/
def entryIn (directory name : Bytes) : Option DirEntry :=
  (index.pathToDir.lookup directory).bind fun dir => dir.entries.find? fun e => e.name = name

def findEntryWithin : Nat → Bytes → Option DirEntry
  | 0, _ => none
  | fuel + 1, path =>
    if path.head? ≠ some slash then none
    else if path = [slash] then none
    else if filename path = dotDot then findEntryWithin fuel (parent path)
    else index.entryIn (parent path) (filename path)

def findEntry (path : Bytes) : Option DirEntry := index.findEntryWithin (path.length + 1) path

def findEntryByUID (uid : UInt32) : Option DirEntry :=
  if uid = 0 then none
  else
    match index.entryByUID[uid.toNat]? with
    | some (some (directory, i)) => (index.pathToDir.lookup directory).bind fun dir => dir.entries[i]?
    | _ => none

def itemUID (path : Bytes) : UInt32 :=
  match index.findEntry path with
  | none => 0
  | some e => e.aruid

end Index

end WinCommander.VFS.ArcLA
