/-
  The calls that a panel makes on its model on the main thread, and runs of them.
-/
import WinCommander.Library.Run
import WinCommander.Panel.Model

namespace WinCommander.Panel

open Library

namespace Model

variable (p : Platform)

/-! ## The three rebuilding functions without a checker -/

def sorted (m : Model) : Model := (doSortWithHardFiltering p false m).result

def softFiltered (m : Model) : Model := (buildSoftFilteringIndeces p m).result

def counted (m : Model) : Model := (updateStatictics m).result

/-! ## Sorting and filtering -/

def setSortMode (mode : SortMode) (m : Model) : Model :=
  if m.customSortMode = mode then m
  else ((({ m with customSortMode := mode } : Model).sorted p).softFiltered p).counted

def setHardFiltering (filter : HardFilter) (m : Model) : Model :=
  if m.hardFiltering.same filter then m
  else
    ((({ m with hardFiltering := filter } : Model).sorted
      p).clearSelectedFlagsFromHiddenElements.softFiltered p).counted

def setSoftFiltering (filter : TextualFilter) (m : Model) : Model :=
  if m.softFiltering.same filter then m
  else ({ m with softFiltering := filter } : Model).softFiltered p

def withoutText (m : Model) : Model :=
  { m with
    softFiltering := { m.softFiltering with text := none }
    hardFiltering := { m.hardFiltering with text := { m.hardFiltering.text with text := none } }
    volatileData := m.volatileData.map fun vd => { vd with highlight := {} } }

/-- Reports whether there was a text to clear. -/
def clearTextFiltering (m : Model) : Model × Bool :=
  if m.softFiltering.text = none ∧ m.hardFiltering.text.text = none then (m, false)
  else
    ((((m.withoutText.sorted p).clearSelectedFlagsFromHiddenElements).softFiltered p).counted, true)

/-! ## Positions -/

/-- The entry at a place that is there. -/
def entryAt (m : Model) (i : Nat) : Nat := m.entriesByCustomSort.getD i 0

def rawIndexForSortIndex (m : Model) (index : Int) : Int :=
  if index < 0 ∨ m.entriesByCustomSort.length ≤ index then -1
  else m.entriesByCustomSort.getD index.toNat 0

def sortedIndexForRawIndex (m : Model) (index : Int) : Int :=
  if index < 0 ∨ m.reverseToCustomSort.length ≤ index then -1
  else
    match m.reverseToCustomSort.getD index.toNat none with
    | none => -1
    | some position => position

/-- `std::equal_range` over the raw names. -/
def rawIndicesForName (m : Model) (filename : Bytes) : List Nat :=
  if filename = [] then []
  else
    (m.entriesByRawName.dropWhile fun raw => (compare (m.listing.filename raw) filename).isLT).takeWhile
      fun raw => !(compare filename (m.listing.filename raw)).isLT

/-- `std::lower_bound` over the raw names, then a look at what stands there. -/
def rawIndexForName (m : Model) (filename : Bytes) : Int :=
  if filename = [] then -1
  else
    match m.entriesByRawName.dropWhile fun raw =>
        (compare (m.listing.filename raw) filename).isLT with
    | [] => -1
    | raw :: _ => if m.listing.filename raw = filename then raw else -1

def sortedIndexForName (m : Model) (filename : Bytes) : Int :=
  m.sortedIndexForRawIndex (m.rawIndexForName filename)

/-! ## Selection -/

def updateVd (m : Model) (raw : Nat) (f : ItemVolatileData → ItemVolatileData) : Model :=
  { m with volatileData := m.volatileData.modify raw f }

/-- The statistics without a selected entry, the bytes not going below zero. -/
def uncountSelected (m : Model) (raw : Nat) : Statistics :=
  let s := m.stats
  let sz := (m.vd raw).selectedBytes
  let left := { s with
    bytesInSelectedEntries :=
      if sz.sle s.bytesInSelectedEntries then s.bytesInSelectedEntries - sz else 0
    selectedEntriesAmount := s.selectedEntriesAmount - 1 }
  if m.listing.isDir raw then { left with selectedDirsAmount := s.selectedDirsAmount - 1 }
  else { left with selectedRegAmount := s.selectedRegAmount - 1 }

def customFlagsSelectRaw (index : Int) (isSelected : Bool) (m : Model) : Model :=
  if index < 0 ∨ m.listing.count ≤ index then m
  else
    let raw := index.toNat
    if m.listing.isDotDot raw then m
    else if (m.vd raw).isSelected = isSelected then m
    else
      let stats := if isSelected then m.countSelected m.stats raw else m.uncountSelected raw
      ({ m with stats := stats } : Model).updateVd raw (·.toggleSelected isSelected)

def customFlagsSelectSorted (index : Int) (isSelected : Bool) (m : Model) : Model :=
  if index < 0 ∨ m.entriesByCustomSort.length ≤ index then m
  else m.customFlagsSelectRaw (m.entriesByCustomSort.getD index.toNat 0) isSelected

/-- One entry of the vector form: the flags from the first difference on are all written. -/
def toggleSorted (s : Model × Bool) (raw : Nat) (isSelected : Bool) : Model × Bool :=
  if s.1.listing.isDotDot raw then s
  else if s.2 then (s.1.updateVd raw (·.toggleSelected isSelected), true)
  else if (s.1.vd raw).isSelected ≠ isSelected then
    (s.1.updateVd raw (·.toggleSelected isSelected), true)
  else s

/-- The vector form, which reports whether a flag changed. -/
def customFlagsSelectAllSorted (isSelected : List Bool) (m : Model) : Model × Bool :=
  let s := (m.entriesByCustomSort.zip isSelected).foldl
    (fun s (raw, selected) => toggleSorted s raw selected) (m, false)
  if s.2 then (s.1.counted, true) else s

def customIconClearAll (m : Model) : Model :=
  { m with volatileData := m.volatileData.map fun vd => { vd with icon := 0 } }

def customFlagsClearHighlights (m : Model) : Model :=
  { m with volatileData := m.volatileData.map (·.toggleHighlight false) }

/-! ## Calculated sizes -/

def finalizeSettingCalculatedSizes (m : Model) : Model :=
  (((m.sorted p).clearSelectedFlagsFromHiddenElements).softFiltered p).counted

def setSize (m : Model) (raw : Nat) (size : BitVec 64) : Model :=
  m.updateVd raw fun vd => { vd with size := size }

/-- The entry that stands for a directory, given by its name and its parent. -/
def directoryNamed (m : Model) (filename directory : Bytes) : Option Nat :=
  (m.rawIndicesForName filename).find? fun raw =>
    m.listing.isDir raw && (m.listing.item raw).directory == directory

def setCalculatedSizeForDirectory (filename directory : Bytes) (size : BitVec 64) (m : Model) :
    Model × Bool :=
  if filename = [] ∨ directory = [] ∨ size = invalidSize then (m, false)
  else
    match m.directoryNamed filename directory with
    | none => (m, false)
    | some raw =>
      if (m.vd raw).size = size then (m, true)
      else ((m.setSize raw size).finalizeSettingCalculatedSizes p, true)

/-- The model with the sizes so far, how many were set and how many of them changed. -/
structure SizeBatch where
  model : Model
  numSet : Nat := 0
  numChanged : Nat := 0

def SizeBatch.set (batch : SizeBatch) (raw : Nat) (size : BitVec 64) : SizeBatch :=
  if (batch.model.vd raw).size ≠ size then
    ⟨batch.model.setSize raw size, batch.numSet + 1, batch.numChanged + 1⟩
  else { batch with numSet := batch.numSet + 1 }

def SizeBatch.finish (batch : SizeBatch) : Model × Nat :=
  if batch.numChanged ≠ 0 then (batch.model.finalizeSettingCalculatedSizes p, batch.numSet)
  else (batch.model, batch.numSet)

def setCalculatedSizesForDirectories (filenames directories : List Bytes)
    (sizes : List (BitVec 64)) (m : Model) : Model × Nat :=
  if filenames.length ≠ directories.length ∨ filenames.length ≠ sizes.length then (m, 0)
  else
    SizeBatch.finish p ((filenames.zip (directories.zip sizes)).foldl
      (fun batch (filename, directory, size) =>
        match batch.model.directoryNamed filename directory with
        | none => batch
        | some raw => batch.set raw size) { model := m })

/-- The loop over raw indices, with whether it came to an index out of range. -/
def setRawSizes : List (Nat × BitVec 64) → SizeBatch → SizeBatch × Bool
  | [], batch => (batch, false)
  | (raw, size) :: rest, batch =>
    if batch.model.listing.count ≤ raw then (batch, true)
    else if batch.model.listing.isDir raw then setRawSizes rest (batch.set raw size)
    else setRawSizes rest batch

/-- An index out of range throws with the sizes before it in place. -/
def setCalculatedSizesForRawIndices (indices : List Nat) (sizes : List (BitVec 64)) (m : Model) :
    Model × Except Failure Nat :=
  if indices.length ≠ sizes.length then (m, .ok 0)
  else
    match setRawSizes (indices.zip sizes) { model := m } with
    | (batch, true) =>
      (batch.model, .error (.outOfRange "SetCalculatedSizesForDirectories: invalid index"))
    | (batch, false) => (batch.finish p).map id .ok

end Model

/-! ## Runs -/

inductive Operation where
  | load (listing : Option Listing) (type : PanelType)
  | reLoad (listing : Option Listing)
  | setSortMode (mode : SortMode)
  | setHardFiltering (filter : HardFilter)
  | setSoftFiltering (filter : TextualFilter)
  | clearTextFiltering
  | customFlagsSelectRaw (index : Int) (isSelected : Bool)
  | customFlagsSelectSorted (index : Int) (isSelected : Bool)
  | customFlagsSelectAllSorted (isSelected : List Bool)
  | customIconClearAll
  | customFlagsClearHighlights
  | setCalculatedSizeForDirectory (filename directory : Bytes) (size : BitVec 64)
  | setCalculatedSizesForDirectories (filenames directories : List Bytes)
      (sizes : List (BitVec 64))
  | setCalculatedSizesForRawIndices (indices : List Nat) (sizes : List (BitVec 64))

/-- A call that gives a new model or throws and leaves the old one. -/
def replacing (m : Model) (result : Except Failure Model) : Model × Option Failure :=
  match result with
  | .ok m' => (m', none)
  | .error failure => (m, some failure)

/-- The model after a call, and what the call threw. -/
def perform (p : Platform) (m : Model) : Operation → Model × Option Failure
  | .load listing type => replacing m (m.load p listing type)
  | .reLoad listing => replacing m (m.reLoad p listing)
  | .setSortMode mode => (m.setSortMode p mode, none)
  | .setHardFiltering filter => (m.setHardFiltering p filter, none)
  | .setSoftFiltering filter => (m.setSoftFiltering p filter, none)
  | .clearTextFiltering => ((m.clearTextFiltering p).1, none)
  | .customFlagsSelectRaw index isSelected => (m.customFlagsSelectRaw index isSelected, none)
  | .customFlagsSelectSorted index isSelected => (m.customFlagsSelectSorted index isSelected, none)
  | .customFlagsSelectAllSorted isSelected => ((m.customFlagsSelectAllSorted isSelected).1, none)
  | .customIconClearAll => (m.customIconClearAll, none)
  | .customFlagsClearHighlights => (m.customFlagsClearHighlights, none)
  | .setCalculatedSizeForDirectory filename directory size =>
    ((m.setCalculatedSizeForDirectory p filename directory size).1, none)
  | .setCalculatedSizesForDirectories filenames directories sizes =>
    ((m.setCalculatedSizesForDirectories p filenames directories sizes).1, none)
  | .setCalculatedSizesForRawIndices indices sizes =>
    match m.setCalculatedSizesForRawIndices p indices sizes with
    | (m', .ok _) => (m', none)
    | (m', .error failure) => (m', some failure)

/-- The model after the calls on a new one. -/
def afterCalls (p : Platform) (calls : List Operation) : Model := (runAll (perform p) {} calls).1

end WinCommander.Panel
