/-
  `ScreenBuffer`: the rows of a terminal's screen and those that were scrolled off it.

  A row has its cells and its flag. The cells of the backscreen are in one vector; its data
  pointer, which is compared with null, is so until the vector has held a cell.
-/
import WinCommander.Library.Wrapping
import WinCommander.Term.Command

namespace WinCommander.Term

open Library

structure Space where
  l : UInt32 := 0
  foreground : Color := {}
  background : Color := {}
  customfg : Bool := false
  custombg : Bool := false
  faint : Bool := false
  underline : Bool := false
  crossed : Bool := false
  reverse : Bool := false
  bold : Bool := false
  italic : Bool := false
  invisible : Bool := false
  blink : Bool := false
deriving DecidableEq

abbrev Line := Row Space

/-- Not `IsOccupiedChar`. -/
def isEmptyChar (space : Space) : Bool := space.l == 0

structure ScreenBuffer where
  width : Nat
  height : Nat
  onScreen : List Line
  backScreen : List Line := []
  backAllocated : Bool := false
  eraseChar : Space := {}
deriving DecidableEq

namespace ScreenBuffer

def blankLine (width : Nat) (initialChar : Space) : Line := ⟨List.replicate width initialChar, false⟩

def new (width height : Nat) : ScreenBuffer :=
  { width, height, onScreen := List.replicate height (blankLine width {}) }

/-- `LineFromNo` and `MetaFromLineNo`: a negative number is a line of the backscreen. -/
def lineFromNo (buffer : ScreenBuffer) (lineNumber : Int) : Option Line :=
  if 0 ≤ lineNumber then buffer.onScreen[lineNumber.toNat]?
  else if -lineNumber ≤ buffer.backScreen.length then
    buffer.backScreen[(buffer.backScreen.length + lineNumber).toNat]?
  else none

def lineWrapped (buffer : ScreenBuffer) (lineNumber : Int) : Bool :=
  match buffer.lineFromNo lineNumber with
  | some line => line.wrapped
  | none => false

/-- How many cells there are up to the last occupied one. -/
def occupiedChars (line : List Space) : Nat := (line.reverse.dropWhile isEmptyChar).length

/-! ## Continuous lines -/

/-- A line whose cells are not at null. -/
def sourceLine (buffer : ScreenBuffer) (lineNumber : Int) : Option Line := do
  let line ← buffer.lineFromNo lineNumber
  if lineNumber < 0 ∧ !buffer.backAllocated then none else some line

/-- `current.insert` at the end of the last line. -/
def insertAtEnd (lines : List (List Space)) (cells : List Space) : List (List Space) :=
  lines.dropLast ++ [lines.getLastD [] ++ cells]

/-- The loop of `ComposeContinuousLines`; nothing when it throws. -/
def composeFrom (buffer : ScreenBuffer) :
    Nat → Int → Bool → List (List Space) → Option (List (List Space))
  | 0, _, _, lines => some lines
  | count + 1, number, continuePrev, lines => do
      let source ← buffer.sourceLine number
      let lines := if continuePrev then lines else lines ++ [[]]
      composeFrom buffer count (number + 1) (buffer.lineWrapped number)
        (insertAtEnd lines (source.cells.take (occupiedChars source.cells)))

def composeContinuousLines (buffer : ScreenBuffer) (first last : Int) :
    Option (List (List Space)) :=
  buffer.composeFrom (last - first).toNat first false []

/-- The inner loop of `DecomposeContinuousLines`. -/
def decomposeLine (width : Nat) : Nat → List Space → List Line
  | 0, _ => []
  | rounds + 1, rest =>
    if rest = [] then []
    else if width < rest.length then
      ⟨rest.take width, true⟩ :: decomposeLine width rounds (rest.drop width)
    else [⟨rest, false⟩]

def decomposeContinuousLines (src : List (List Space)) (width : Nat) : List Line :=
  src.flatMap fun line =>
    if line = [] then [⟨[], false⟩] else decomposeLine width line.length line

/-! ## Resizing -/

/-- `fill_scr_from_declines`, after the new rows were filled with the erase character: a row that
gets no line keeps the flag of the old row in its place. -/
def fillScreen (buffer : ScreenBuffer) (newSx newSy : Nat) (lines : List Line) : List Line :=
  (List.range newSy).map fun i =>
    match lines[i]? with
    | some line =>
      ⟨line.cells ++ List.replicate (newSx - line.cells.length) buffer.eraseChar, line.wrapped⟩
    | none =>
      ⟨List.replicate newSx buffer.eraseChar, (buffer.onScreen[i]?.map Row.wrapped).getD false⟩

/-- `fill_bkscr_from_declines`, after the backscreen was cleared. -/
def fillBackScreen (buffer : ScreenBuffer) (lines : List Line) : ScreenBuffer :=
  { buffer with
    backScreen := lines,
    backAllocated := buffer.backAllocated || lines.any fun line => line.cells ≠ [] }

/-- Nothing when it throws, which it does before anything was changed. -/
def resizeScreen (buffer : ScreenBuffer) (newSx newSy : Nat) (mergeWithBackscreen : Bool) :
    Option ScreenBuffer :=
  if newSx = 0 ∨ newSy = 0 then none
  else if mergeWithBackscreen then do
    let compLines ← buffer.composeContinuousLines (-buffer.backScreen.length) buffer.height
    let decompLines := decomposeContinuousLines compLines newSx
    let feed := if decompLines.length > newSy then decompLines.length - newSy else 0
    return { buffer.fillBackScreen (decompLines.take feed) with
      width := newSx, height := newSy,
      onScreen := buffer.fillScreen newSx newSy (decompLines.drop feed) }
  else do
    let backLines ← buffer.composeContinuousLines (-buffer.backScreen.length) 0
    let screenLines ← buffer.composeContinuousLines 0 buffer.height
    return { buffer.fillBackScreen (decomposeContinuousLines backLines newSx) with
      width := newSx, height := newSy,
      onScreen := buffer.fillScreen newSx newSy
        ((decomposeContinuousLines screenLines newSx).take newSy) }

/-! ## Feeding the backscreen, and snapshots -/

/-- The loop of `FeedBackscreen`. -/
def feedLines (width : Nat) (wrapped : Bool) : Nat → List Space → List Line
  | 0, _ => []
  | rounds + 1, spaces =>
    if spaces = [] then []
    else
      ⟨spaces.take width, wrapped || decide (width < spaces.length)⟩ ::
        feedLines width wrapped rounds (spaces.drop width)

def feedBackscreen (buffer : ScreenBuffer) (withSpaces : List Space) (wrapped : Bool) :
    ScreenBuffer :=
  let lines := feedLines buffer.width wrapped withSpaces.length withSpaces
  { buffer with
    backScreen := buffer.backScreen ++ lines,
    backAllocated := buffer.backAllocated || lines.any fun line => line.cells ≠ [] }

structure Snapshot where
  width : Nat := 0
  height : Nat := 0
  /-- The cells of each row. -/
  chars : List (List Space) := []
deriving DecidableEq

def makeSnapshot (buffer : ScreenBuffer) : Snapshot :=
  { width := buffer.width, height := buffer.height, chars := buffer.onScreen.map Row.cells }

/-- A row of a snapshot in a row of another width that was filled with the erase character. -/
def revertLine (buffer : ScreenBuffer) (snapshot : Snapshot) (y : Nat) : List Space :=
  let chars := if y < min snapshot.height buffer.height then
      (snapshot.chars.getD y []).take (min snapshot.width buffer.width)
    else []
  chars ++ List.replicate (buffer.width - chars.length) buffer.eraseChar

/-- The cells are those of the snapshot; the flags are not touched. -/
def revertToSnapshot (buffer : ScreenBuffer) (snapshot : Snapshot) : ScreenBuffer :=
  { buffer with
    onScreen :=
      if buffer.height = snapshot.height ∧ buffer.width = snapshot.width then
        List.zipWith (fun line chars => { line with cells := chars }) buffer.onScreen snapshot.chars
      else buffer.onScreen.mapIdx fun y line => { line with cells := buffer.revertLine snapshot y } }

end ScreenBuffer

end WinCommander.Term
