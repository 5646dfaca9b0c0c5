/-
  What a panel reads of a directory listing.

  A listing is built once and never changes. `Build` refuses a listing with an empty filename or
  with a directory that does not end with a slash, and a listing whose hosts (or directories)
  are stored as one common value has that value for every entry.
-/
import WinCommander.Library.Numeral

namespace WinCommander.Panel

open Library

/-- The UTF-16 code units of an `NSString`. -/
abbrev Text := List UInt16

/-- A listing keeps the attributes that its host could not tell as absent. -/
structure Entry where
  filename : Bytes
  /-- `DisplayFilenameCF`: the display filename, or the filename where there is none. -/
  displayFilename : Text
  directory : Bytes
  /-- The address of the host object. -/
  host : BitVec 64
  unixMode : BitVec 16
  unixFlags : Option (BitVec 32)
  size : Option (BitVec 64)
  aTime : Option Int
  mTime : Option Int
  bTime : Option Int
  addTime : Option Int
deriving DecidableEq, Inhabited

structure Listing where
  entries : List Entry
  hasCommonHost : Bool
  hasCommonDirectory : Bool
  creationTime : Int
  filename_ne : ∀ e ∈ entries, e.filename ≠ []
  directory_slash : ∀ e ∈ entries, e.directory.getLast? = some 47
  common_host : hasCommonHost = true → ∀ e ∈ entries, ∀ e' ∈ entries, e.host = e'.host
  common_directory : hasCommonDirectory = true → ∀ e ∈ entries, ∀ e' ∈ entries,
    e.directory = e'.directory

/-- The null-terminated string that starts with the bytes. -/
def cString (bytes : Bytes) : Bytes := bytes.takeWhile (· ≠ 0)

def lastDot (filename : Bytes) : Option Nat :=
  (filename.reverse.findIdx? (· == 46)).map fun k => filename.length - 1 - k

/-- `.filename` and `filename.` have no extension. -/
def extensionOffset (filename : Bytes) : Nat :=
  match lastDot filename with
  | some dot => if dot ≠ 0 ∧ dot ≠ filename.length - 1 then (dot + 1) % 2 ^ 16 else 0
  | none => 0

namespace Listing

/-- `EmptyListing`. -/
def empty : Listing where
  entries := []
  hasCommonHost := true
  hasCommonDirectory := true
  creationTime := 0
  filename_ne := by simp
  directory_slash := by simp
  common_host := by simp
  common_directory := by simp

variable (l : Listing) (i : Nat)

def count : Nat := l.entries.length

/-- The entry at an index, which the callers keep below `count`. -/
def item : Entry := l.entries.getD i default

def isUniform : Bool := l.hasCommonHost && l.hasCommonDirectory

def filename : Bytes := (l.item i).filename

/-- A byte of the filename, zero right behind its end. -/
def filenameAt (k : Nat) : UInt8 := (l.filename i).getD k 0

def hasExtension : Bool := extensionOffset (l.filename i) ≠ 0

def extension : Bytes := cString ((l.filename i).drop (extensionOffset (l.filename i)))

def isDotDot : Bool := l.filenameAt i 0 == 46 && l.filenameAt i 1 == 46 && l.filenameAt i 2 == 0

def isDir : Bool := (l.item i).unixMode &&& 0o170000 == 0o040000

def isReg : Bool := (l.item i).unixMode &&& 0o170000 == 0o100000

def unixFlags : BitVec 32 := (l.item i).unixFlags.getD 0

/-- The dot or `UF_HIDDEN`; dot-dot is never hidden. -/
def isHidden : Bool :=
  (l.filenameAt i 0 == 46 || l.unixFlags i &&& 0x8000 != 0) && !l.isDotDot i

def hasSize : Bool := (l.item i).size.isSome

def size : BitVec 64 := (l.item i).size.getD 0

def aTime : Int := (l.item i).aTime.getD l.creationTime

def mTime : Int := (l.item i).mTime.getD l.creationTime

def bTime : Int := (l.item i).bTime.getD l.creationTime

def hasAddTime : Bool := (l.item i).addTime.isSome

def addTime : Int := (l.item i).addTime.getD (l.bTime i)

@[simp] theorem count_empty : Listing.empty.count = 0 := rfl

end Listing

end WinCommander.Panel
