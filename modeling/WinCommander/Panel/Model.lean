/-
  `panel::data::Model`: a listing, the volatile data of its entries and four index arrays.

  A function of the source that takes a cancel checker is one definition here. Its flag says
  whether a checker was given, which also decides how the entries are sorted; its questions are
  counted (`Polled`) and `withChecker` puts them to a checker. A call without one takes the
  result. The generation tokens and the log lines are left out.
-/
import WinCommander.Library.Cancellation
import WinCommander.Library.Indexing
import WinCommander.Panel.Comparator
import WinCommander.Panel.Filter

namespace WinCommander.Panel

open Library

/-- What the panel takes from Foundation and from the standard library. -/
structure Platform where
  search : StringSearch
  strings : StringComparison
  /-- `std::ranges::sort`. -/
  rangesSort : Sorter Nat
  /-- `std::sort`. -/
  stdSort : Sorter Nat
  /-- `pstld::sort`. -/
  pstldSort : Sorter Nat

inductive PanelType where
  | directory | temporary
deriving DecidableEq

inductive Failure where
  | logicError (message : String)
  | invalidArgument (message : String)
  | outOfRange (message : String)
deriving DecidableEq

structure Statistics where
  totalEntriesAmount : Int := 0
  rawRegFilesAmount : Int := 0
  bytesInRawRegFiles : BitVec 64 := 0
  bytesInSelectedEntries : BitVec 64 := 0
  selectedEntriesAmount : Int := 0
  selectedRegAmount : Int := 0
  selectedDirsAmount : Int := 0
deriving DecidableEq

def defaultSortMode : SortMode := { sepDirs := true, sort := .byName }

structure Model where
  listing : Listing := .empty
  volatileData : List ItemVolatileData := []
  entriesByRawName : List Nat := []
  entriesByCustomSort : List Nat := []
  /-- `none` stands for an entry that is not shown. -/
  reverseToCustomSort : List (Option Nat) := []
  entriesBySoftFiltering : List Nat := []
  customSortMode : SortMode := defaultSortMode
  hardFiltering : HardFilter := {}
  softFiltering : TextualFilter := {}
  stats : Statistics := {}
  type : PanelType := .directory

/-- `g_ParallelSortThresh`. -/
def parallelSortThresh : Nat := 10000

/-- A result with a checker, absent when the checker says yes to a question on the way. -/
def withChecker {α : Type} (checker : Option (Nat → Bool))
    (f : (cancellable : Bool) → Polled (Except Failure α)) : Except Failure (Option α) :=
  match checker with
  | none => (f false).result.map some
  | some isCancelled =>
    match (f true).run isCancelled with
    | none => .ok none
    | some result => result.map some

/-! ## Sorting and filtering -/

def initVolatileData (l : Listing) (i : Nat) : ItemVolatileData :=
  if l.isDir i then
    if l.hasSize i ∧ l.size i ≠ invalidSize then { size := l.size i } else {}
  else { size := l.size i }

def initVolatileDataWithListing (l : Listing) : Polled (List ItemVolatileData) := do
  Polled.pollEvery 1024 l.count
  return (List.range l.count).map (initVolatileData l)

/-- `Filename(_1) < Filename(_2)`. -/
abbrev rawLess (l : Listing) : Nat → Nat → Bool :=
  IndirectListingComparator.isLessByFilesystemRepresentation l

/-- `m_ReverseToCustomSort` of the entries in their order. -/
def reverseOf (count : Nat) (entries : List Nat) : List (Option Nat) :=
  place (List.replicate count none) entries.zipIdx

namespace Model

variable (p : Platform)

def vd (m : Model) (raw : Nat) : ItemVolatileData := m.volatileData.getD raw {}

def doRawSort (l : Listing) : Polled (List Nat) := do
  Polled.poll
  Polled.pollCalls 256 (p.rangesSort.comparisons (rawLess l) (List.range l.count))
  Polled.poll
  return p.rangesSort.sort (rawLess l) (List.range l.count)

/-- The comparator with the data that it looks at. -/
abbrev customLess (m : Model) : Nat → Nat → Bool :=
  IndirectListingComparator.less p.strings m.listing m.volatileData m.customSortMode

def isValidItem (m : Model) (raw : Nat) : Option QuickSearchHighlight :=
  m.hardFiltering.isValidItem p.search m.listing raw

/-- Every entry is shown without a highlight, then the filter hides and highlights. -/
def showFiltered (m : Model) : List ItemVolatileData :=
  let shown := m.volatileData.map fun vd => { vd with highlight := {}, isShown := true }
  if m.hardFiltering.isFiltering then
    shown.mapIdx fun raw vd =>
      match m.isValidItem p raw with
      | none => vd.toggleShown false
      | some found =>
        if m.hardFiltering.text.hightlightResults then { vd with highlight := found } else vd
  else shown

def filteredEntries (m : Model) : List Nat :=
  if m.hardFiltering.isFiltering then
    (List.range m.listing.count).filter fun raw => (m.isValidItem p raw).isSome
  else List.range m.listing.count

/-- How many entries at the start stay out of the sorting. -/
def unsorted (m : Model) : Nat := if m.listing.isDotDot 0 then 1 else 0

/-- The sort of `count` entries: the parallel one only without a checker. -/
def customSorter (cancellable : Bool) (count : Nat) : Sorter Nat :=
  if cancellable || count < parallelSortThresh then p.stdSort else p.pstldSort

def doSortWithHardFiltering (cancellable : Bool) (m : Model) : Polled Model :=
  if m.listing.count = 0 then
    return { m with entriesByCustomSort := [], reverseToCustomSort := [] }
  else do
    Polled.pollEvery 1024 m.volatileData.length
    if m.hardFiltering.isFiltering then
      Polled.pollEvery 256 m.listing.count
      Polled.pollEvery 1024 m.listing.count
    let entries := m.filteredEntries p
    let shown := { m with volatileData := m.showFiltered p }
    if entries = [] ∨ m.customSortMode.sort = .noSort then
      return { shown with entriesByCustomSort := entries, reverseToCustomSort := [] }
    else
      let sorter := customSorter p cancellable entries.length
      let rest := entries.drop m.unsorted
      let sorted := entries.take m.unsorted ++ sorter.sort (shown.customLess p) rest
      Polled.pollCalls 256 (sorter.comparisons (shown.customLess p) rest)
      Polled.poll
      Polled.pollEvery 1024 sorted.length
      return { shown with
        entriesByCustomSort := sorted
        reverseToCustomSort := reverseOf m.listing.count sorted }

def softRange (m : Model) (raw : Nat) : Option QuickSearchHighlight :=
  m.softFiltering.isValidItem p.search m.listing raw

def buildSoftFilteringIndeces (m : Model) : Polled Model :=
  let count := m.entriesByCustomSort.length
  if m.softFiltering.isFiltering then do
    Polled.pollEvery 256 count
    let matching := (List.range count).filter fun i =>
      (m.softRange p (m.entriesByCustomSort.getD i 0)).isSome
    let highlighted :=
      if m.softFiltering.hightlightResults then
        m.entriesByCustomSort.foldl (fun vds raw => vds.modify raw fun vd =>
          { vd with highlight := (m.softRange p raw).getD {} }) m.volatileData
      else m.volatileData
    return { m with entriesBySoftFiltering := matching, volatileData := highlighted }
  else do
    Polled.poll
    Polled.poll
    return { m with entriesBySoftFiltering := List.range count }

/-! ## Statistics -/

def countRaw (l : Listing) (s : Statistics) (raw : Nat) : Statistics :=
  if l.isReg raw then
    { s with
      bytesInRawRegFiles := s.bytesInRawRegFiles + l.size raw
      rawRegFilesAmount := s.rawRegFilesAmount + 1 }
  else s

/-- An entry of the listing joins the selected ones. -/
def countSelected (m : Model) (s : Statistics) (raw : Nat) : Statistics :=
  let joined := { s with
    bytesInSelectedEntries := s.bytesInSelectedEntries + (m.vd raw).selectedBytes
    selectedEntriesAmount := s.selectedEntriesAmount + 1 }
  if m.listing.isDir raw then { joined with selectedDirsAmount := s.selectedDirsAmount + 1 }
  else { joined with selectedRegAmount := s.selectedRegAmount + 1 }

def totalEntries (l : Listing) : Int :=
  if l.count ≠ 0 ∧ l.isDotDot 0 then l.count - 1 else l.count

/-- What `UpdateStatictics` computes. -/
def statictics (m : Model) : Statistics :=
  let raw := (List.range m.listing.count).foldl (countRaw m.listing)
    { totalEntriesAmount := totalEntries m.listing }
  m.entriesByCustomSort.foldl
    (fun s raw => if (m.vd raw).isSelected then m.countSelected s raw else s) raw

def updateStatictics (m : Model) : Polled Model := do
  Polled.pollEvery 1024 m.listing.count
  Polled.pollEvery 1024 m.entriesByCustomSort.length
  return { m with stats := m.statictics }

def clearSelectedFlagsFromHiddenElements (m : Model) : Model :=
  { m with volatileData := m.volatileData.map fun vd =>
      if !vd.isShown && vd.isSelected then vd.toggleSelected false else vd }

/-! ## Loading -/

def loadImpl (cancellable : Bool) (listing : Option Listing) (type : PanelType) (m : Model) :
    Polled (Except Failure Model) :=
  match listing with
  | none => return .error (.logicError "PanelData::Load: listing can't be nullptr")
  | some l => do
      Polled.poll
      let volatileData ← initVolatileDataWithListing l
      let fresh := { m with
        listing := l
        type := type
        volatileData := volatileData
        hardFiltering := { m.hardFiltering with text := m.hardFiltering.text.onPanelDataLoad }
        softFiltering := m.softFiltering.onPanelDataLoad }
      let entriesByRawName ← doRawSort p l
      let sorted ← doSortWithHardFiltering p cancellable
        { fresh with entriesByRawName := entriesByRawName }
      let soft ← buildSoftFilteringIndeces p sorted
      let counted ← updateStatictics soft
      return .ok counted

def load (listing : Option Listing) (type : PanelType) (m : Model) : Except Failure Model :=
  (loadImpl p false listing type m).result

/-! ## Reloading -/

def updateWithExisingVD (new existing : ItemVolatileData) : ItemVolatileData :=
  if new.size = invalidSize then existing else { existing with size := new.size }

def addressBytes (address : BitVec 64) : Bytes :=
  (List.range 8).map fun k => UInt8.ofBitVec (address.extractLsb' (8 * k) 8)

def longEntryKey (l : Listing) (i : Nat) : Bytes :=
  addressBytes (l.item i).host ++ (l.item i).directory ++ l.filename i

def sortedIndirectIndecesForLongKeys (l : Listing) : List Nat :=
  p.rangesSort.sort (fun a b => (compare (longEntryKey l a) (longEntryKey l b)).isLT)
    (List.range l.count)

/-- The two sorted lists side by side: how many entries of the first were looked at, and the
    pairs of a new and an old entry with one key. -/
def syncSwap (compareKeys : Nat → Nat → Ordering) : (srcs dsts : List Nat) → Nat × List (Nat × Nat)
  | [], _ => (0, [])
  | src :: srcs, dsts =>
    if dsts = [] then (0, [])
    else
      match dsts.dropWhile fun dst => compareKeys src dst == .gt with
      | [] => (1, [])
      | dst :: rest =>
        if compareKeys src dst = .eq then
          let later := syncSwap compareKeys srcs rest
          (later.1 + 1, (dst, src) :: later.2)
        else
          let later := syncSwap compareKeys srcs (dst :: rest)
          (later.1 + 1, later.2)

/-- The entries that a reload takes for the same, absent where the listings do not fit. -/
def reloadPairs (m : Model) (l : Listing) (dirByRawCName : List Nat) :
    Except Failure (Nat × List (Nat × Nat)) :=
  if l.isUniform && m.listing.isUniform then
    .ok (syncSwap (fun src dst => compare (m.listing.filename src) (l.filename dst))
      m.entriesByRawName dirByRawCName)
  else if !l.isUniform && !m.listing.isUniform then
    .ok (syncSwap (fun src dst => compare (longEntryKey m.listing src) (longEntryKey l dst))
      (sortedIndirectIndecesForLongKeys p m.listing) (sortedIndirectIndecesForLongKeys p l))
  else .error (.invalidArgument "PanelData::ReLoad: incompatible listing type!")

def transfer (m : Model) (fresh : List ItemVolatileData) (pairs : List (Nat × Nat)) :
    List ItemVolatileData :=
  pairs.foldl (fun vds (dst, src) => vds.modify dst fun vd => updateWithExisingVD vd (m.vd src))
    fresh

def reLoadImpl (cancellable : Bool) (listing : Option Listing) (m : Model) :
    Polled (Except Failure Model) :=
  match listing with
  | none => return .error (.logicError "PanelData::ReLoad: listing can't be nullptr")
  | some l => do
      Polled.poll
      let dirByRawCName ← doRawSort p l
      let fresh ← initVolatileDataWithListing l
      match reloadPairs p m l dirByRawCName with
      | .error failure => return .error failure
      | .ok (rounds, pairs) => do
          Polled.pollEvery 1024 rounds
          let sorted ← doSortWithHardFiltering p cancellable { m with
            listing := l
            volatileData := m.transfer fresh pairs
            entriesByRawName := dirByRawCName }
          let soft ← buildSoftFilteringIndeces p sorted
          let counted ← updateStatictics soft
          return .ok counted

def reLoad (listing : Option Listing) (m : Model) : Except Failure Model :=
  (reLoadImpl p false listing m).result

end Model

end WinCommander.Panel
