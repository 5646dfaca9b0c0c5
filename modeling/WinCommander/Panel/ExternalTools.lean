/-
  The parameters of external tools: the string that describes them, and the arguments that are built
  for two panels.

  The files for lists of names are a parameter; what the user has entered is there. The fields of a
  tool that the arguments do not depend on are left out.
-/
import WinCommander.Library.Joining
import WinCommander.Panel.Operations

namespace WinCommander.Panel

open Library

/-! ## Items -/

namespace Listing

variable (l : Listing) (i : Nat)

def directory : Bytes := (l.item i).directory

def path : Bytes :=
  if l.isDotDot i then
    if 1 < (l.directory i).length then (l.directory i).dropLast else l.directory i
  else l.directory i ++ l.filename i

def extensionIfAny : Bytes := if l.hasExtension i then l.extension i else []

def filenameWithoutExt : Bytes :=
  if extensionOffset (l.filename i) = 0 then l.filename i
  else (l.filename i).take (extensionOffset (l.filename i) - 1)

end Listing

namespace ExternalTools

def dropTrailingSlashes : Bytes → Bytes
  | 0x2F :: c :: rest => dropTrailingSlashes (c :: rest)
  | reversed => reversed

def ensureNoTrailingSlash (s : Bytes) : Bytes := (dropTrailingSlashes s.reverse).reverse

/-- A panel, with the directory of a listing that has one for all its items. -/
structure Panel where
  model : Model
  directory : Bytes
  common : model.listing.hasCommonDirectory = true →
    ∀ e ∈ model.listing.entries, e.directory = directory

namespace Panel

variable (panel : Panel)

def entryAtRawPosition (pos : Int) : Option Nat :=
  if 0 ≤ pos ∧ pos < panel.model.listing.count then some pos.toNat else none

def entryAtSortPosition (pos : Int) : Option Nat :=
  panel.entryAtRawPosition (panel.model.rawIndexForSortIndex pos)

end Panel

/-! ## Parameters -/

inductive Location where
  | source
  | target
  | left
  | right
deriving DecidableEq, Inhabited

inductive FileInfo where
  | directoryPath
  | path
  | filename
  | filenameWithoutExtension
  | fileExtension
deriving DecidableEq, Inhabited

structure CurrentItem where
  location : Location
  what : FileInfo
deriving DecidableEq, Inhabited

structure SelectedItems where
  location : Location
  what : FileInfo
  max : UInt32
  /-- As a list inside a temporary file otherwise. -/
  asParameters : Bool
deriving DecidableEq, Inhabited

inductive ParametersVariant where
  | userDefined (text : Bytes)
  | enterValue (name : Bytes)
  | currentItem (item : CurrentItem)
  | selectedItems (items : SelectedItems)
  | setMaximumFiles (maximum : UInt32)
deriving DecidableEq

/-- A parameter, and whether what follows may be appended to it. -/
structure Entry where
  param : ParametersVariant
  isPartial : Bool
deriving DecidableEq

inductive ActionType where
  | userDefined
  | enterValue
  | currentItem
  | selectedItems
deriving DecidableEq

structure Step where
  type : ActionType
  index : UInt16
  isPartial : Bool
deriving DecidableEq

structure Parameters where
  steps : List Step := []
  userDefined : List Bytes := []
  enterValues : List Bytes := []
  currentItems : List CurrentItem := []
  selectedItems : List SelectedItems := []
  maximumTotalFiles : UInt32 := 0
deriving DecidableEq

/-! ## Parsing -/

/-- A character of the string, or one that was escaped. -/
structure Character where
  char : UInt8
  escaped : Bool
deriving DecidableEq

/-- How much of the string it takes. -/
def Character.size (c : Character) : Nat := if c.escaped then 2 else 1

def space : Character := ⟨0x20, false⟩

def percent : Character := ⟨0x25, false⟩

def characters : Bytes → List Character
  | 0x5C :: c :: rest => ⟨c, true⟩ :: characters rest
  | 0x25 :: 0x25 :: rest => ⟨0x25, true⟩ :: characters rest
  | c :: rest => ⟨c, false⟩ :: characters rest
  | [] => []

/-- The variables of `Eat`. -/
structure Scanner where
  userDefined : Option Bytes := none
  result : List Entry := []
  leftRight : Bool := false
  number : Option UInt32 := none
  prompt : Option Bytes := none
  placeholder : Bool := false
  minus : Bool := false
  list : Bool := false
  inPrompt : Bool := false

def isDigit (c : UInt8) : Bool := 0x30 ≤ c && c ≤ 0x39

/-- The last parameter is complete. -/
def closeLast : List Entry → List Entry
  | [] => []
  | [entry] => [{ entry with isPartial := false }]
  | entry :: rest => entry :: closeLast rest

namespace Scanner

variable (s : Scanner)

def resetPlaceholder : Scanner :=
  { s with
    number := none
    prompt := none
    placeholder := false
    minus := false
    list := false
    inPrompt := false }

def location : Location :=
  if s.leftRight then (if s.minus then .right else .left)
  else if s.minus then .target else .source

def push (param : ParametersVariant) (isPartial : Bool) : Scanner :=
  { s with result := s.result ++ [⟨param, isPartial⟩] }

/-- The end of a placeholder. -/
def terminal (param : ParametersVariant) (isPartial : Bool) : Scanner :=
  (s.push param isPartial).resetPlaceholder

/-- Flush an existing argument and continue parsing. -/
def flush (c : Character) : Scanner :=
  match s.userDefined with
  | some text =>
    if (c.char = 0x25 ∨ c.char = 0x20) ∧ c.escaped = false then
      { s.push (.userDefined text) true with userDefined := none }
    else s
  | none => s

/-- `%r`, `%p`, `%f`, `%n` and `%e`. -/
def eatCurrentItem (what : FileInfo) : Option Scanner :=
  if s.prompt.isSome ∨ s.number.isSome ∨ s.list then none
  else some (s.terminal (.currentItem ⟨s.location, what⟩) true)

/-- `%F` and `%P`. -/
def eatSelectedItems (what : FileInfo) : Option Scanner :=
  if s.prompt.isSome then none
  else some (s.terminal (.selectedItems ⟨s.location, what, s.number.getD 0, !s.list⟩) true)

/-- There is no scanner after a malformed string. -/
def eatPlaceholder (c : UInt8) : Option Scanner :=
  if isDigit c then
    some { s with number := some (s.number.getD 0 * 10 + c.toUInt32 - 0x30) }
  else if c = 0x2D then
    if s.minus ∨ s.number.isSome then none else some { s with minus := true }
  else if c = 0x4C then
    if s.list ∨ s.number.isSome ∨ s.prompt.isSome then none else some { s with list := true }
  else if c = 0x22 then
    if s.minus ∨ s.number.isSome then none else some { s with prompt := some [], inPrompt := true }
  else if c = 0x3F then
    if s.minus ∨ s.number.isSome ∨ s.list then none
    else some (s.terminal (.enterValue (s.prompt.getD [])) true)
  else if c = 0x72 then s.eatCurrentItem .directoryPath
  else if c = 0x70 then s.eatCurrentItem .path
  else if c = 0x66 then s.eatCurrentItem .filename
  else if c = 0x6E then s.eatCurrentItem .filenameWithoutExtension
  else if c = 0x65 then s.eatCurrentItem .fileExtension
  else if c = 0x46 then s.eatSelectedItems .filename
  else if c = 0x50 then s.eatSelectedItems .path
  else if c = 0x54 then
    match s.number with
    | some number =>
      if s.prompt.isSome ∨ s.minus ∨ s.list then none
      else some (s.terminal (.setMaximumFiles number) false)
    | none => none
  else if c = 0x20 ∧ s.minus ∧ s.list = false ∧ s.number = none ∧ s.prompt = none then
    some { s with leftRight := !s.leftRight }.resetPlaceholder
  else none

/-- What is done with a character, once an argument that it ends was flushed. -/
def eatFlushed (c : Character) : Option Scanner :=
  match s.userDefined with
  | some text => some { s with userDefined := some (text ++ [c.char]) }
  | none =>
    if s.inPrompt then
      if c.char = 0x22 then some { s with inPrompt := false }
      else some { s with prompt := s.prompt.map (· ++ [c.char]) }
    else if c.char = 0x25 ∧ s.placeholder = false ∧ c.escaped = false then
      some { s with placeholder := true }
    else if c.char = 0x25 ∧ s.placeholder then none
    else if s.placeholder then s.eatPlaceholder c.char
    else if c.char = 0x20 ∧ c.escaped = false then some { s with result := closeLast s.result }
    else some { s with userDefined := some [c.char] }

/-- One round of the loop. -/
def eat (c : Character) : Option Scanner := (s.flush c).eatFlushed c

/-- The end of the string. -/
def finish : List Entry :=
  closeLast (s.result ++ (s.userDefined.map fun text => ⟨.userDefined text, false⟩).toList)

end Scanner

/-- `"Parse error:\n"`, and a warning sign where the error is. -/
def parseError (source : Bytes) (position : Nat) : Bytes :=
  [0x50, 0x61, 0x72, 0x73, 0x65, 0x20, 0x65, 0x72, 0x72, 0x6F, 0x72, 0x3A, 0x0A] ++
    source.take position ++ [0xE2, 0x9A, 0xA0, 0xEF, 0xB8, 0x8F] ++ source.drop position

/-- The loop, with the places of the last character and of the next one. -/
def scan : Nat → Nat → Scanner → List Character → Except Nat (Nat × Scanner)
  | prev, _, s, [] => .ok (prev, s)
  | _, position, s, c :: rest =>
    match s.eat c with
    | none => .error position
    | some s => scan position (position + c.size) s rest

def eatSource (source : Bytes) : Except Bytes (List Entry) :=
  match scan 0 0 {} (characters source) with
  | .error position => .error (parseError source position)
  | .ok (prev, s) => if s.placeholder then .error (parseError source prev) else .ok s.finish

def Parameters.insert (result : Parameters) (entry : Entry) : Parameters :=
  match entry.param with
  | .userDefined text =>
    { result with
      steps := result.steps ++
        [⟨.userDefined, UInt16.ofNat result.userDefined.length, entry.isPartial⟩]
      userDefined := result.userDefined ++ [text] }
  | .enterValue name =>
    { result with
      steps := result.steps ++
        [⟨.enterValue, UInt16.ofNat result.enterValues.length, entry.isPartial⟩]
      enterValues := result.enterValues ++ [name] }
  | .currentItem item =>
    { result with
      steps := result.steps ++
        [⟨.currentItem, UInt16.ofNat result.currentItems.length, entry.isPartial⟩]
      currentItems := result.currentItems ++ [item] }
  | .selectedItems items =>
    { result with
      steps := result.steps ++
        [⟨.selectedItems, UInt16.ofNat result.selectedItems.length, entry.isPartial⟩]
      selectedItems := result.selectedItems ++ [items] }
  | .setMaximumFiles maximum => { result with maximumTotalFiles := maximum }

def parse (source : Bytes) : Except Bytes Parameters :=
  (eatSource source).map fun entries => entries.foldl Parameters.insert {}

/-! ## Building -/

inductive PanelFocus where
  | left
  | right
deriving DecidableEq

structure Context where
  leftData : Panel
  rightData : Panel
  leftCursorPos : Int
  rightCursorPos : Int
  focus : PanelFocus
  /-- `MakeFileFromMemory`, for the list of a step. -/
  makeFileFromMemory : Nat → Bytes → Option Bytes

/-- Parameters with what the user has entered for each of the values. -/
structure Execution where
  context : Context
  params : Parameters
  userInput : List Bytes
  committed : userInput.length = params.enterValues.length

/-- What a step puts into arguments and list files, and the arguments that it makes. -/
structure Output where
  files : List Bytes
  arguments : List Bytes
  numFiles : Nat

/-- Infos of files, as long as there may be more of them. -/
def takeFiles (maxFiles : Nat) : Nat → List Bytes → List Bytes × Nat
  | numFiles, [] => ([], numFiles)
  | numFiles, info :: rest =>
    if maxFiles ≤ numFiles then ([], numFiles + 1)
    else
      let (taken, numFiles) := takeFiles maxFiles (numFiles + 1) rest
      (info :: taken, numFiles)

/-- Names or paths on lines of their own. -/
def listOf (files : List Bytes) : Bytes :=
  files.foldl (fun list info => (if list = [] then list else list ++ [0x0A]) ++ info) []

/-- The selected entries of a panel in their order. -/
def gather (panel : Panel) (max : Nat) : List Nat → List Nat → List Nat
  | [], items => items
  | ind :: rest, items =>
    let items :=
      if (panel.model.vd ind).isSelected then items ++ (panel.entryAtRawPosition ind).toList
      else items
    if max ≠ 0 ∧ max ≤ items.length then items else gather panel max rest items

namespace Execution

variable (e : Execution)

/-- Without a limit, all files that can be counted. -/
def maxFiles : Nat :=
  if 0 < e.params.maximumTotalFiles then e.params.maximumTotalFiles.toNat else 2 ^ 64 - 1

def panelCursorForLocation : Location → Panel × Int
  | .left => (e.context.leftData, e.context.leftCursorPos)
  | .right => (e.context.rightData, e.context.rightCursorPos)
  | .source =>
    if e.context.focus = .left then (e.context.leftData, e.context.leftCursorPos)
    else (e.context.rightData, e.context.rightCursorPos)
  | .target =>
    if e.context.focus = .left then (e.context.rightData, e.context.rightCursorPos)
    else (e.context.leftData, e.context.leftCursorPos)

def infoFromItem (panel : Panel) (item : Nat) : FileInfo → Bytes
  | .filename => panel.model.listing.filename item
  | .path => panel.model.listing.path item
  | .fileExtension => panel.model.listing.extensionIfAny item
  | .filenameWithoutExtension => panel.model.listing.filenameWithoutExt item
  | .directoryPath => ensureNoTrailingSlash (panel.model.listing.directory item)

/-- What a current item gives; the directory of a uniform panel needs no item. -/
def currentItemInfo (v : CurrentItem) : Option Bytes :=
  let (panel, idx) := e.panelCursorForLocation v.location
  match panel.entryAtSortPosition idx with
  | some item => some (infoFromItem panel item v.what)
  | none =>
    if v.what = .directoryPath ∧ panel.model.listing.isUniform then
      some (ensureNoTrailingSlash panel.directory)
    else none

/-- What selected items give; without any of them, the current one unless it leads up. -/
def selectedItemsInfo (v : SelectedItems) : List Bytes :=
  let (panel, idx) := e.panelCursorForLocation v.location
  let items := gather panel v.max.toNat panel.model.entriesByCustomSort []
  let items :=
    if items = [] then
      ((panel.entryAtSortPosition idx).filter fun item => !panel.model.listing.isDotDot item).toList
    else items
  items.map fun item => infoFromItem panel item v.what

/-- What a step gives when so many files were put already. -/
def output (numFiles i : Nat) (step : Step) : Output :=
  match step.type with
  | .userDefined =>
    ⟨[], [(e.params.userDefined[step.index.toNat]?).getD []], numFiles⟩
  | .enterValue => ⟨[], [(e.userInput[step.index.toNat]?).getD []], numFiles⟩
  | .currentItem =>
    if numFiles < e.maxFiles then
      match e.currentItemInfo ((e.params.currentItems[step.index.toNat]?).getD default) with
      | some info => ⟨[info], [info], numFiles + 1⟩
      | none => ⟨[], [], numFiles⟩
    else ⟨[], [], numFiles⟩
  | .selectedItems =>
    let v := (e.params.selectedItems[step.index.toNat]?).getD default
    let (files, numFiles) := takeFiles e.maxFiles numFiles (e.selectedItemsInfo v)
    if v.asParameters then ⟨files, files, numFiles⟩
    else
      let list := listOf files
      ⟨files, if list = [] then [] else (e.context.makeFileFromMemory i list).toList, numFiles⟩

end Execution

/-- The variables of `BuildArguments`, and what was put. An argument is made of what stands for a
text. -/
structure Building (β : Type) where
  result : List (List β) := []
  append : Bool := false
  numFiles : Nat := 0
  files : List Bytes := []

def Execution.buildStep {β : Type} (e : Execution) (make : Nat → Bytes → List β) (s : Building β)
    (step : Step × Nat) : Building β :=
  let output := e.output s.numFiles step.2 step.1
  -- multiple filenames are not concatenated into a single argument
  let append := s.append && step.1.type ≠ .selectedItems
  { result := output.arguments.foldl (fun args arg => commit append args (make step.2 arg)) s.result
    append := step.1.isPartial
    numFiles := output.numFiles
    files := s.files ++ output.files }

def Execution.build {β : Type} (e : Execution) (make : Nat → Bytes → List β) : Building β :=
  e.params.steps.zipIdx.foldl (e.buildStep make) {}

def Execution.buildArguments (e : Execution) : List Bytes := (e.build fun _ text => text).result

end ExternalTools

end WinCommander.Panel
