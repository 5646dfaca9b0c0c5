/-
  The documents of `ConfigImpl`: how a value is set in one, what of one is written to the storage
  and how that is read back, and where two of them differ.

  The numbers of RapidJSON with their comparison, its writer and its parser are parameters. The
  members of an object have different names.
-/
import WinCommander.Library.Numeral

namespace WinCommander.Config

open Library

/-- A `rapidjson::Value`. -/
inductive Value (ν : Type) where
  | null
  | bool (b : Bool)
  | number (n : ν)
  | string (s : Bytes)
  | array (elements : List (Value ν))
  | object (members : List (Bytes × Value ν))

abbrev Members (ν : Type) := List (Bytes × Value ν)

/-- What the configuration takes from RapidJSON. -/
structure RapidJson (ν : Type) where
  sameNumber : ν → ν → Bool
  write : Value ν → Bytes
  parse : Bytes → Option (Value ν)

variable {ν : Type}

def findMember (name : Bytes) (members : Members ν) : Option (Value ν) :=
  (members.find? (·.1 == name)).map (·.2)

/-- The member of the name with another value. -/
def setMember (name : Bytes) (value : Value ν) : Members ν → Members ν
  | [] => []
  | (other, old) :: rest =>
    if other = name then (other, value) :: rest else (other, old) :: setMember name value rest

/-- `GetType`, which tells `true` from `false`. -/
def sameType : Value ν → Value ν → Bool
  | .null, .null | .number _, .number _ | .string _, .string _ | .array _, .array _
  | .object _, .object _ => true
  | .bool a, .bool b => a == b
  | _, _ => false

namespace RapidJson

variable (json : RapidJson ν)

mutual
/-- `operator ==`, which takes the members of objects in any order. -/
def equal : Value ν → Value ν → Bool
  | .null, .null => true
  | .bool a, .bool b => a == b
  | .number a, .number b => json.sameNumber a b
  | .string a, .string b => a == b
  | .array xs, .array ys => equalElements xs ys
  | .object ms, .object ns => ms.length == ns.length && equalMembers ms ns
  | _, _ => false
def equalElements : List (Value ν) → List (Value ν) → Bool
  | [], [] => true
  | x :: xs, y :: ys => equal x y && equalElements xs ys
  | _, _ => false
def equalMembers : Members ν → Members ν → Bool
  | [], _ => true
  | (name, value) :: rest, others =>
    (match findMember name others with
      | none => false
      | some other => equal value other) && equalMembers rest others
end

/-! ## Setting a value -/

/-- `'.'`. -/
abbrev dot : UInt8 := 46

/-- The names that the dots of a path separate. -/
def splitPath : Bytes → List Bytes
  | [] => [[]]
  | byte :: rest =>
    if byte = dot then [] :: splitPath rest
    else
      match splitPath rest with
      | [] => [[byte]]
      | part :: parts => (byte :: part) :: parts

/-- From a node downwards; absent when nothing changes. -/
def replaceOrInsertAt (value : Value ν) : List Bytes → Value ν → Option (Value ν)
  | [leaf], .object members =>
    if leaf = [] then none
    else
      match findMember leaf members with
      | some old =>
        if equal json old value then none else some (.object (setMember leaf value members))
      | none => some (.object (members ++ [(leaf, value)]))
  | part :: parts, .object members =>
    match findMember part members with
    | some inner => (replaceOrInsertAt value parts inner).map fun inner' =>
      .object (setMember part inner' members)
    | none => none
  | _, _ => none

/-- `ReplaceOrInsert` on the document. -/
def replaceOrInsert (path : Bytes) (value document : Value ν) : Option (Value ν) :=
  json.replaceOrInsertAt value (splitPath path) document

/-! ## Overwrites -/

mutual
/-- `BuildOverwritesRecursive`. -/
def buildMembers (defaults : Members ν) : Members ν → Members ν
  | [] => []
  | (name, value) :: rest =>
    (match findMember name defaults with
      | none => [(name, value)]
      | some standard => buildMember name standard value) ++ buildMembers defaults rest
/-- A member that the defaults have as well. -/
def buildMember (name : Bytes) (standard : Value ν) : Value ν → Members ν
  | .object members =>
    match standard with
    | .object standards => [(name, .object (buildMembers standards members))]
    | _ => [(name, .object members)]
  | value => if equal json standard value then [] else [(name, value)]
end

def buildOverwrites (defaults staging : Value ν) : Value ν :=
  match defaults, staging with
  | .object standards, .object members => .object (json.buildMembers standards members)
  | _, _ => .object []

end RapidJson

mutual
/-- `MergeObjectsRecursively` over the members of the main object. -/
def mergeMembers (overwrites : Members ν) : Members ν → Members ν
  | [] => []
  | (name, value) :: rest =>
    (name, match findMember name overwrites with
      | none => value
      | some overwrite => mergeValue overwrite value) :: mergeMembers overwrites rest
/-- An overwrite of a value. Objects are merged, with what only the overwrite has behind. -/
def mergeValue (overwrite : Value ν) : Value ν → Value ν
  | .object members =>
    match overwrite with
    | .object overwrites => .object (mergeMembers overwrites members ++
        overwrites.filter fun member => (findMember member.1 members).isNone)
    | _ => overwrite
  | _ => overwrite
end

/-- `MergeDocuments`. -/
def mergeDocuments (main overwrites : Value ν) : Value ν := mergeValue overwrites main

/-! ## Differences -/

/-- What a string takes of a name over `GetString`: the bytes before the first zero. -/
def cString (name : Bytes) : Bytes := name.takeWhile (· ≠ 0)

mutual
/-- `TraverseRecursivelyAndMarkEachMember`. -/
def markEachMember (path : Bytes) : Members ν → List Bytes
  | [] => []
  | (name, value) :: rest => markMember (path ++ cString name) value ++ markEachMember path rest
def markMember (path : Bytes) : Value ν → List Bytes
  | .object members => path :: markEachMember (path ++ [RapidJson.dot]) members
  | _ => [path]
end

/-- The members that only the new object has. -/
def addedMembers (path : Bytes) (original new : Members ν) : List Bytes :=
  (new.filter fun member => (findMember member.1 original).isNone).flatMap fun member =>
    markMember (path ++ cString member.1) member.2

namespace RapidJson

variable (json : RapidJson ν)

mutual
/-- `ListDifferencesRecursively` over the members of the original object. -/
def changedMembers (path : Bytes) (new : Members ν) : Members ν → List Bytes
  | [] => []
  | (name, value) :: rest =>
    (match findMember name new with
      | none => markMember (path ++ cString name) value
      | some other => changedValue (path ++ cString name) other value) ++
        changedMembers path new rest
def changedValue (path : Bytes) (new : Value ν) : Value ν → List Bytes
  | .object members =>
    match new with
    | .object others => changedMembers (path ++ [dot]) others members ++
        addedMembers (path ++ [dot]) members others
    | _ => path :: markEachMember (path ++ [dot]) members
  | value =>
    if sameType value new then if equal json value new then [] else [path]
    else
      match new with
      | .object others => path :: markEachMember (path ++ [dot]) others
      | _ => [path]
end

def listDifferences (original new : Value ν) : List Bytes :=
  match original, new with
  | .object members, .object others =>
    json.changedMembers [] others members ++ addedMembers [] members others
  | _, _ => []

/-- `ParseOverwritesOrReturnNull`: an object, or nothing. -/
def parseOverwrites (text : Bytes) : Option (Value ν) :=
  if text = [] then none
  else
    match json.parse text with
    | some (.object members) => some (.object members)
    | _ => none

end RapidJson

end WinCommander.Config
