/-
  The filters of a panel and the highlight that a matching filename gets.

  The string searches of Foundation are a parameter (`StringSearch`); a range of length zero is
  their answer for nothing found.
-/
import WinCommander.Panel.VolatileData

namespace WinCommander.Panel

/-! ## String searches -/

/-- The options of `NSString` searches that the filters use. -/
structure SearchOptions where
  caseInsensitive : Bool := false
  anchored : Bool := false
  backwards : Bool := false
deriving DecidableEq

structure StringSearch where
  /-- `-[NSString rangeOfString:options:range:]`, the range given by its start and length. -/
  rangeOfString : (text needle : Text) → SearchOptions → (start length : Nat) → Range
  /-- `CFStringFindWithOptions` with `kCFCompareCaseInsensitive`: the location found. -/
  find : (text needle : Text) → (start length : Nat) → Option Nat

namespace StringSearch

variable (search : StringSearch)

/-- `-[NSString rangeOfString:options:]`. -/
def rangeOf (text needle : Text) (options : SearchOptions) : Range :=
  search.rangeOfString text needle options 0 text.length

def fuzzySearchSatisfiable (hay : Text) : (position : Nat) → (needle : Text) → Bool
  | _, [] => true
  | position, c :: needle =>
    match search.find hay [c] position (hay.length - position) with
    | none => false
    | some location => fuzzySearchSatisfiable hay (location + 1) needle

/-- The longest start of the text, at most `length` long, that is found behind the position and
    leaves the rest of the text satisfiable. -/
def longestFound (filename : Text) (position : Nat) (text : Text) :
    (length : Nat) → Option { r : Range // r.length ≠ 0 }
  | 0 => none
  | length + 1 =>
    let result := search.rangeOfString filename (text.take (length + 1))
      { caseInsensitive := true } position (filename.length - position)
    if h : result.length = 0 then longestFound filename position text length
    else if search.fuzzySearchSatisfiable filename (result.offset + result.length)
        (text.drop (length + 1)) then some ⟨result, h⟩
    else longestFound filename position text length

def fuzzyRanges (filename : Text) (position : Nat) (text : Text) (found : List Range) :
    Option (List Range) :=
  if htext : text = [] then some found
  else
    match search.longestFound filename position text text.length with
    | none => none
    | some ⟨result, hresult⟩ =>
      fuzzyRanges filename (result.offset + result.length) (text.drop result.length)
        (found ++ [result])
termination_by text.length
decreasing_by
  rw [List.length_drop]
  have hpos : 0 < text.length := List.length_pos_iff.mpr htext
  omega

def fuzzySearch (filename text : Text) : Option QuickSearchHighlight :=
  if search.fuzzySearchSatisfiable filename 0 text then
    (search.fuzzyRanges filename 0 text []).map QuickSearchHighlight.ofRanges
  else none

end StringSearch

/-! ## Filters -/

inductive TextualFilter.Where where
  | anywhere | beginning | ending | beginningOrEnding | fuzzy
deriving DecidableEq

structure TextualFilter where
  text : Option Text := none
  type : TextualFilter.Where := .anywhere
  ignoreDotDot : Bool := true
  clearOnNewListing : Bool := false
  hightlightResults : Bool := true
deriving DecidableEq

namespace TextualFilter

/-- `operator==`, which compares the text and the type only. -/
def same (a b : TextualFilter) : Bool :=
  if a.type ≠ b.type then false
  else
    match a.text, b.text with
    | none, none => true
    | some s, some t => s == t
    | _, _ => false

def noFilter : TextualFilter := { type := .anywhere, text := none, ignoreDotDot := true }

def onPanelDataLoad (filter : TextualFilter) : TextualFilter :=
  if filter.clearOnNewListing then { filter with text := none } else filter

def isFiltering (filter : TextualFilter) : Bool :=
  match filter.text with
  | none => false
  | some text => text.length > 0

variable (search : StringSearch) (filter : TextualFilter)

/-- The highlight of one range, absent where nothing was found. -/
def highlightRange (result : Range) : Option QuickSearchHighlight :=
  if result.length = 0 then none else some (.ofRanges [result])

/-- Look before the extension. -/
def endsBeforeExtension (l : Listing) (i : Nat) (name text : Text) : Option QuickSearchHighlight :=
  if l.hasExtension i then
    let dotrange := search.rangeOf name [46] { backwards := true }
    if dotrange.length ≠ 0 ∧ dotrange.offset > text.length then
      highlightRange (search.rangeOfString name text
        { caseInsensitive := true, anchored := true, backwards := true }
        (dotrange.offset - text.length) text.length)
    else none
  else none

def matchBeginning (name text : Text) : Option QuickSearchHighlight :=
  highlightRange (search.rangeOf name text { caseInsensitive := true, anchored := true })

def matchEnding (l : Listing) (i : Nat) (name text : Text) : Option QuickSearchHighlight :=
  (endsBeforeExtension search l i name text).or
    (highlightRange (search.rangeOf name text
      { caseInsensitive := true, anchored := true, backwards := true }))

/-- `IsValidItem`: absent for an item that is not valid, else the range found. -/
def isValidItem (l : Listing) (i : Nat) : Option QuickSearchHighlight :=
  match filter.text with
  | none => some {}
  | some text =>
    if filter.ignoreDotDot && l.isDotDot i then some {}
    else if text.length = 0 then some {}
    else
      let name := (l.item i).displayFilename
      if text.length > name.length then none
      else
        match filter.type with
        | .anywhere => highlightRange (search.rangeOf name text { caseInsensitive := true })
        | .beginning => matchBeginning search name text
        | .ending => matchEnding search l i name text
        | .beginningOrEnding => (matchBeginning search name text).or
            (matchEnding search l i name text)
        | .fuzzy => search.fuzzySearch name text

/-- A filter that is not filtering lets every item through. -/
theorem isValidItem_of_not_filtering (h : filter.isFiltering = false) (l : Listing) (i : Nat) :
    filter.isValidItem search l i = some {} := by
  unfold isFiltering at h
  unfold isValidItem
  cases htext : filter.text with
  | none => rfl
  | some text =>
    rw [htext] at h
    have hnil : text.length = 0 := by simpa using h
    simp [hnil]

end TextualFilter

structure HardFilter where
  text : TextualFilter := .noFilter
  showHidden : Bool := true
deriving DecidableEq

namespace HardFilter

def same (a b : HardFilter) : Bool := a.text.same b.text && a.showHidden == b.showHidden

def isFiltering (filter : HardFilter) : Bool := !filter.showHidden || filter.text.isFiltering

def isValidItem (search : StringSearch) (filter : HardFilter) (l : Listing) (i : Nat) :
    Option QuickSearchHighlight :=
  if !filter.showHidden && l.isHidden i then none else filter.text.isValidItem search l i

theorem isValidItem_of_not_filtering (search : StringSearch) {filter : HardFilter}
    (h : filter.isFiltering = false) (l : Listing) (i : Nat) :
    filter.isValidItem search l i = some {} := by
  obtain ⟨hhidden, htext⟩ := Bool.or_eq_false_iff.mp h
  unfold isValidItem
  rw [hhidden, Bool.false_and, if_neg Bool.false_ne_true]
  exact filter.text.isValidItem_of_not_filtering search htext l i

end HardFilter

end WinCommander.Panel
