/-
  Finder tags as a binary property list, written and read by hand.

  The attribute lies somewhere in the lower half of the address space; a pointer into it is its
  offset, which wraps around at 64 bits, and only comparisons of pointers know the address. What is
  read outside of the attribute is a fault, and so is a copy that cannot be made. CoreFoundation's
  conversions are a parameter.
-/
import WinCommander.Library.Memory
import WinCommander.Utility.Unichars
import WinCommander.Utility.TagColors

namespace WinCommander.Utility

open Library

/-- Conversions between UTF-8 and UTF-16, which may refuse what is ill-formed. -/
structure CoreFoundation where
  toUTF16 : Bytes → Option (List UInt16)
  toUTF8 : List UInt16 → Option Bytes
  toUTF16_scalars : ∀ scalars : List Nat, (∀ v ∈ scalars, IsScalar v) →
    toUTF16 (scalars.flatMap utf8) = some (scalars.flatMap utf16)
  toUTF8_scalars : ∀ scalars : List Nat, (∀ v ∈ scalars, IsScalar v) →
    toUTF8 (scalars.flatMap utf16) = some (scalars.flatMap utf8)

/-- The conversions of this library. -/
def plainCoreFoundation : CoreFoundation where
  toUTF16 bytes := some (interpretUTF8BufferAsUTF16 0xFFFD bytes)
  toUTF8 units := some (utf8Of units)
  toUTF16_scalars _ h := congrArg some (interpretUTF8Buffer_scalars 0xFFFD h)
  toUTF8_scalars _ h := congrArg some (utf8Of_scalars h)

/-- `"bplist00"`. -/
def prologue : Bytes := [0x62, 0x70, 0x6C, 0x69, 0x73, 0x74, 0x30, 0x30]

/-! ## Reading -/

/-- Bytes with their address. -/
structure Attribute where
  bytes : Bytes
  base : Nat
  mapped : base + bytes.length < 2 ^ 63

/-- Where a pointer points. -/
def Attribute.address (xattr : Attribute) (offset : Nat) : Nat := wrap (xattr.base + offset)

structure Trailer where
  offsetIntSize : Nat
  objectRefSize : Nat
  numObjects : Nat
  topObject : Nat
  offsetTableOffset : Nat

/-- The last 32 bytes; five are unused, and so is the sort version. -/
def loadStoredBETrailer (bytes : Bytes) : Trailer :=
  let stored := bytes.drop (bytes.length - 32)
  { offsetIntSize := bigEndian ((stored.drop 6).take 1)
    objectRefSize := bigEndian ((stored.drop 7).take 1)
    numObjects := bigEndian ((stored.drop 8).take 8)
    topObject := bigEndian ((stored.drop 16).take 8)
    offsetTableOffset := bigEndian ((stored.drop 24).take 8) }

/-- Weird sizes are not supported. -/
def getSizedInt (bytes : Bytes) (offset sz : Nat) : Option Nat :=
  if sz = 1 ∨ sz = 2 ∨ sz = 4 ∨ sz = 8 then (readRange bytes offset sz).map bigEndian else some 0

structure VarLen where
  length : Nat
  start : Nat
deriving DecidableEq

def extractVarLen (bytes : Bytes) (marker : Nat) : Option (Option VarLen) := do
  let byteMarker := bigEndian (← readRange bytes marker 1)
  let builtinLength := byteMarker % 16
  if builtinLength = 15 then
    let lenMarker := bigEndian (← readRange bytes (wrap (marker + 1)) 1)
    if lenMarker / 16 ≠ 1 then return none
    let lenSize := 2 ^ (lenMarker % 16)
    let len ← getSizedInt bytes (wrap (marker + 2)) lenSize
    return some { length := len, start := wrap (marker + 2 + lenSize) }
  else
    return some { length := builtinLength, start := wrap (marker + 1) }

/-- A digit of a colour. -/
def isColorDigit (unit : Nat) : Bool := 0x30 ≤ unit && unit ≤ 0x37

/-- `ParseTag` of ASCII. -/
def parseTagASCII (tagRep : Bytes) : Option Tag :=
  if tagRep = [] then none
  else
    match tagRep.drop (tagRep.length - 2) with
    | [newline, digit] =>
      if 3 ≤ tagRep.length ∧ newline = 0x0A ∧ isColorDigit digit.toNat then
        some ⟨tagRep.take (tagRep.length - 2), Color.ofCode (digit.toNat - 0x30)⟩
      else some ⟨tagRep, .none⟩
    | _ => some ⟨tagRep, .none⟩

/-- A unit of a string of UTF-16 with the highest byte first. -/
def unitAt (bytes : Bytes) (start index : Nat) : Option Nat :=
  (readRange bytes (wrap (start + 2 * index)) 2).map bigEndian

/-- The colour that the last two units say. -/
def colorSuffix (bytes : Bytes) (start length : Nat) : Option (Option Color) := do
  if length < 3 then return none
  let newline ← unitAt bytes start (length - 2)
  if newline ≠ 0x0A then return none
  let digit ← unitAt bytes start (length - 1)
  return if isColorDigit digit then some (Color.ofCode (digit - 0x30)) else none

def unitsOfBytes : Bytes → List UInt16
  | high :: low :: rest => UInt16.ofNat (bigEndian [high, low]) :: unitsOfBytes rest
  | _ => []

/-- `ParseTag` of UTF-16; a string of C ends at the first zero. -/
def parseTagUTF16 (cf : CoreFoundation) (bytes : Bytes) (start length : Nat) :
    Option (Option Tag) := do
  if length = 0 then return none
  let suffix ← colorSuffix bytes start length
  let length := if suffix.isSome then length - 2 else length
  let text ← readRange bytes start (wrap (length * 2))
  match cf.toUTF8 (unitsOfBytes text) with
  | none => return none
  | some cString =>
    let label := cString.takeWhile (· ≠ 0)
    return some ⟨label, suffix.getD ((colorOfName label).getD .none)⟩

/-- A string object that ends before the offset table. -/
def readObject (cf : CoreFoundation) (xattr : Attribute) (objsEnd marker : Nat) :
    Option (Option Tag) := do
  let bytes := xattr.bytes
  let byteMarker := bigEndian (← readRange bytes marker 1)
  if byteMarker / 16 = 5 then
    match ← extractVarLen bytes marker with
    | none => return none
    | some vl =>
      if xattr.address (vl.start + vl.length) ≤ objsEnd then
        return parseTagASCII (← readRange bytes vl.start vl.length)
      else return none
  else if byteMarker / 16 = 6 then
    match ← extractVarLen bytes marker with
    | none => return none
    | some vl =>
      if xattr.address (vl.start + vl.length * 2) ≤ objsEnd then
        if xattr.address vl.start % 2 = 0 then parseTagUTF16 cf bytes vl.start vl.length
        else
          let strBuf ← readRange bytes vl.start (wrap (vl.length * 2))
          parseTagUTF16 cf strBuf 0 vl.length
      else return none
  else return none

/-- The loop over the objects; a corrupted offset discards the whole list. -/
def readObjects (cf : CoreFoundation) (xattr : Attribute) (trailer : Trailer) :
    Nat → Nat → Nat → List Tag → Option (List Tag)
  | 0, _, _, tags => some tags
  | left + 1, objInd, offsetTable, tags => do
      let offset ← getSizedInt xattr.bytes offsetTable trailer.offsetIntSize
      let offsetTable := wrap (offsetTable + trailer.offsetIntSize)
      if objInd = trailer.topObject then
        readObjects cf xattr trailer left (objInd + 1) offsetTable tags
      else if xattr.address offset ≥ xattr.address (xattr.bytes.length - 32) then some []
      else
        let tag ← readObject cf xattr (xattr.address trailer.offsetTableOffset) offset
        readObjects cf xattr trailer left (objInd + 1) offsetTable (tags ++ tag.toList)

/-- The header, and a trailer that is not corrupted as far as the comparison of wrapped values goes. -/
def Accepted (bytes : Bytes) (trailer : Trailer) : Prop :=
  8 + 32 < bytes.length ∧ prologue <+: bytes ∧ trailer.numObjects ≠ 0 ∧ trailer.offsetIntSize ≠ 0 ∧
    trailer.objectRefSize ≠ 0 ∧ trailer.topObject < trailer.numObjects ∧
    8 ≤ trailer.offsetTableOffset ∧
    wrap (trailer.offsetTableOffset + wrap (trailer.numObjects * trailer.offsetIntSize)) ≤
      bytes.length - 32

instance (bytes : Bytes) (trailer : Trailer) : Decidable (Accepted bytes trailer) :=
  inferInstanceAs (Decidable (_ ∧ _))

/-- How many entries were asked for, and the list, if nothing was read outside. -/
structure ParsedTags where
  requested : Nat
  tags : Option (List Tag)

def parseMDItemUserTags (cf : CoreFoundation) (xattr : Attribute) : ParsedTags :=
  let trailer := loadStoredBETrailer xattr.bytes
  if Accepted xattr.bytes trailer then
    { requested := trailer.numObjects - 1
      tags := readObjects cf xattr trailer trailer.numObjects 0 trailer.offsetTableOffset [] }
  else { requested := 0, tags := some [] }

/-! ## Writing -/

/-- Sizes of 4 GB and more are not supported. -/
def writeVarSize (markerType size : Nat) : Bytes :=
  if size < 15 then [UInt8.ofNat (markerType + size)]
  else if size < 256 then [UInt8.ofNat (markerType + 15), 0x10, UInt8.ofNat size]
  else if size < 65536 then [UInt8.ofNat (markerType + 15), 0x11] ++ bigEndianBytes 2 size
  else [UInt8.ofNat (markerType + 15), 0x12] ++ bigEndianBytes 4 size

def isASCII (label : Bytes) : Bool := label.all (· ≤ 0x7F)

/-- A newline and a digit, if there is a colour. -/
def colorText (color : Color) : List Nat :=
  if color = .none then [] else [0x0A, 0x30 + color.code]

def bytesOfUnits (units : List UInt16) : Bytes := units.flatMap fun unit => bigEndianBytes 2 unit.toNat

/-- What CoreFoundation does not take becomes an object without bytes. -/
def writePListObject (cf : CoreFoundation) (tag : Tag) : Bytes :=
  let color := colorText tag.color
  if isASCII tag.label then
    writeVarSize 0x50 (tag.label.length + color.length) ++ tag.label ++ color.map UInt8.ofNat
  else
    match cf.toUTF16 tag.label with
    | none => []
    | some units =>
      writeVarSize 0x60 (units.length + color.length) ++ bytesOfUnits units ++
        bytesOfUnits (color.map UInt16.ofNat)

/-- Fourteen tags are supported. -/
def plistObjects (cf : CoreFoundation) (tags : List Tag) : List Bytes :=
  (tags.map (writePListObject cf)).take 14

/-- The prologue, and an array of references to the objects that follow. -/
def plistHead (count : Nat) : Bytes :=
  prologue ++ [UInt8.ofNat (0xA0 + count)] ++ (List.range count).map fun i => UInt8.ofNat (i + 1)

/-- Where the array and the objects start. -/
def plistOffsets (objects : List Bytes) : List Nat :=
  prologue.length :: starts (plistHead objects.length).length objects

def storedTrailer (numObjects offsetTableOffset : Nat) : Bytes :=
  [0, 0, 0, 0, 0, 0, 1, 1] ++ bigEndianBytes 8 numObjects ++ bigEndianBytes 8 0 ++
    bigEndianBytes 8 offsetTableOffset

/-- An offset of more than one byte aborts. -/
def buildMDItemUserTags (cf : CoreFoundation) (tags : List Tag) : Option Bytes :=
  if tags = [] then some []
  else
    let objects := plistObjects cf tags
    let offsets := plistOffsets objects
    let plist := plistHead objects.length ++ objects.flatten
    if offsets.all (· ≤ 255) then
      some (plist ++ offsets.map UInt8.ofNat ++ storedTrailer (objects.length + 1) plist.length)
    else none

end WinCommander.Utility
