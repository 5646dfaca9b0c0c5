/-
  The listing cache of the WebDAV host.

  Directories are kept by their paths with a slash at the end. The items of one are sorted by
  filename and have a mark each; an item whose mark is set tells nothing but its name. What a
  listing says of the directory itself is the item named "..".
-/
import WinCommander.Library.FilesystemPath
import WinCommander.Library.SortedTable
import WinCommander.Library.Sorting

namespace WinCommander.VFS.NetWebDAV

open Library
open Library.Path (slash dotDot)

/-! ## Paths -/

def ensureTrailingSlash (path : Bytes) : Bytes :=
  if path ≠ [] ∧ path.getLast? ≠ some slash then path ++ [slash] else path

/-- The directory with its slash, and the filename. -/
def deconstructPath (path : Bytes) : Bytes × Bytes :=
  if path = [] then ([], [])
  else if path = [slash] then ([slash], dotDot)
  else
    let stripped := if path.getLast? = some slash then path.dropLast else path
    if slash ∈ stripped then (stripped.rdropWhile (· ≠ slash), Path.filename stripped) else ([], [])

/-! ## The data -/

structure PropFindResponse where
  filename : Bytes
  size : Int := -1
  creationDate : Int := -1
  modificationDate : Int := -1
  isDirectory : Bool := false
deriving DecidableEq

/-- Times are in nanoseconds. -/
structure Directory where
  fetchTime : Int := 0
  hasDirtyItems : Bool := false
  items : List PropFindResponse := []
  dirtyMarks : List Bool := []
deriving DecidableEq

structure Cache where
  dirs : AList fun _ : Bytes => Directory

inductive E where
  | ok
  | unknown
  | nonExist
deriving DecidableEq

/-- `g_ListingTimeout`. -/
def listingTimeout : Int := 60 * 1000000000

namespace Directory

variable (listing : Directory)

def isOutdated (now : Int) : Bool := listing.fetchTime + listingTimeout < now

/-- `std::ranges::lower_bound` by filename. -/
def lowerBound (filename : Bytes) : Nat :=
  SortedTable.lowerBound PropFindResponse.filename listing.items filename

def find (filename : Bytes) : Option PropFindResponse :=
  SortedTable.find PropFindResponse.filename listing.items filename

/-- The item is inserted where it belongs, or changes the one of its name; it is marked. -/
def patch (item : PropFindResponse) (change : PropFindResponse → PropFindResponse) : Directory :=
  let index := listing.lowerBound item.filename
  match listing.find item.filename with
  | none =>
    { listing with
      items := listing.items.insertIdx index item
      dirtyMarks := listing.dirtyMarks.insertIdx index true
      hasDirtyItems := true }
  | some found =>
    { listing with
      items := listing.items.set index (change found)
      dirtyMarks := listing.dirtyMarks.set index true
      hasDirtyItems := true }

/-- The item of a name and its mark are erased. -/
def erase (filename : Bytes) : Directory :=
  let index := listing.lowerBound filename
  match listing.find filename with
  | none => listing
  | some _ =>
    { listing with
      items := listing.items.eraseIdx index
      dirtyMarks := listing.dirtyMarks.eraseIdx index }

end Directory

/-! ## Operations -/

namespace Cache

variable (c : Cache)

def set (path : Bytes) (listing : Directory) : Cache := ⟨c.dirs.insert path listing⟩

def commitListing (now : Int) (atPath : Bytes) (items : List PropFindResponse) : Cache :=
  let sorted := Sorter.insertion.sort (fun a b => (compare a.filename b.filename).isLT) items
  c.set (ensureTrailingSlash atPath)
    { fetchTime := now
      hasDirtyItems := false
      items := sorted
      dirtyMarks := List.replicate sorted.length false }

def listing (now : Int) (atPath : Bytes) : Option (List PropFindResponse) :=
  (c.dirs.lookup (ensureTrailingSlash atPath)).bind fun listing =>
    if listing.hasDirtyItems then none
    else if listing.isOutdated now then none
    else some listing.items

def item (now : Int) (atPath : Bytes) : Option PropFindResponse × E :=
  let (directory, filename) := deconstructPath atPath
  if filename = [] then (none, .nonExist)
  else
    match c.dirs.lookup directory with
    | none => (none, .unknown)
    | some listing =>
      if listing.isOutdated now then (none, .unknown)
      else
        match listing.find filename with
        | none => (none, .nonExist)
        | some item =>
          if listing.dirtyMarks.getD (listing.lowerBound filename) false then (none, .unknown)
          else (some item, .ok)

def discardListing (atPath : Bytes) : Cache := ⟨c.dirs.erase (ensureTrailingSlash atPath)⟩

/-- The listing that a path is in is changed, if it is there. -/
def commitIn (atPath : Bytes) (change : Bytes → Directory → Directory) : Cache :=
  let (directory, filename) := deconstructPath atPath
  if filename = [] then c
  else
    match c.dirs.lookup directory with
    | none => c
    | some listing => c.set directory (change filename listing)

def commitMkDir (atPath : Bytes) : Cache :=
  c.commitIn atPath fun filename listing => listing.patch { filename, isDirectory := true } id

def commitMkFile (atPath : Bytes) : Cache :=
  c.commitIn atPath fun filename listing => listing.patch { filename, isDirectory := false } id

def commitUnlink (atPath : Bytes) : Cache :=
  c.commitIn atPath fun filename listing => { listing.erase filename with hasDirtyItems := true }

def commitRmDir (atPath : Bytes) : Cache := (c.commitUnlink atPath).discardListing atPath

/-- The directory's own listing goes with it, and replaces that of its target. -/
def moveListing (oldPath newPath : Bytes) : Cache :=
  let oldKey := ensureTrailingSlash oldPath
  match c.dirs.lookup oldKey with
  | none => c
  | some listing => ⟨(c.dirs.insert (ensureTrailingSlash newPath) listing).erase oldKey⟩

/-- The listing that the new path is in gets the entry of the old one, if there was one. -/
def receive (newPath : Bytes) (entry : Option PropFindResponse) : Cache :=
  c.commitIn newPath fun filename listing =>
    match entry with
    | none => { listing with hasDirtyItems := true }
    | some entry =>
      let entry := { entry with filename }
      listing.patch entry fun _ => entry

def commitMove (oldPath newPath : Bytes) : Cache :=
  let c := c.moveListing oldPath newPath
  let (oldDirectory, oldFilename) := deconstructPath oldPath
  if oldFilename = [] then c
  else
    match c.dirs.lookup oldDirectory with
    | none => c
    | some listing =>
      (c.set oldDirectory (listing.erase oldFilename)).receive newPath (listing.find oldFilename)

end Cache

end WinCommander.VFS.NetWebDAV
