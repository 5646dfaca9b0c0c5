/-
  `Screen`: the cursor on a screen buffer and what is done to cells around it.

  `int` is `Int`; a cast from `unsigned` keeps the bits (`toInt`). An operation gives nothing when
  it reads or writes a cell that is not inside the line it addresses. `ResizeScreen` can throw,
  and leaves the screen as it was then.
-/
import WinCommander.Term.ScreenBuffer

namespace WinCommander.Term

open Library

/-! ## Numbers and cells -/

/-- `static_cast<int>`, also of a sum that overflows. -/
def toInt (value : Int) : Int := Int.bmod value (2 ^ 32)

/-- `static_cast<unsigned>`. -/
def toUnsigned (value : Int) : Nat := (value % 2 ^ 32).toNat

def readCell (cells : List Space) (x : Int) : Option Space :=
  if 0 ≤ x then cells[x.toNat]? else none

def writeCell (cells : List Space) (x : Int) (space : Space) : Option (List Space) :=
  if 0 ≤ x ∧ x < cells.length then some (cells.set x.toNat space) else none

/-- `std::fill` from the first index up to the last one. -/
def fillCells (cells : List Space) (first last : Int) (space : Space) : Option (List Space) :=
  if 0 ≤ first ∧ first ≤ last ∧ last ≤ cells.length then
    some (cells.take first.toNat ++ List.replicate (last - first).toNat space ++
      cells.drop last.toNat)
  else none

namespace ScreenBuffer

/-- The cells of a line, none of which there are in a line that does not exist. -/
def cellsOf (buffer : ScreenBuffer) (lineNumber : Int) : List Space :=
  match buffer.lineFromNo lineNumber with
  | some line => line.cells
  | none => []

def modifyLine (buffer : ScreenBuffer) (lineNumber : Int) (f : Line → Line) : ScreenBuffer :=
  if 0 ≤ lineNumber then { buffer with onScreen := buffer.onScreen.modify lineNumber.toNat f }
  else if -lineNumber ≤ buffer.backScreen.length then
    { buffer with
      backScreen := buffer.backScreen.modify (buffer.backScreen.length + lineNumber).toNat f }
  else buffer

def setCells (buffer : ScreenBuffer) (lineNumber : Int) (cells : List Space) : ScreenBuffer :=
  buffer.modifyLine lineNumber fun line => { line with cells }

def setLineWrapped (buffer : ScreenBuffer) (lineNumber : Int) (wrapped : Bool) : ScreenBuffer :=
  buffer.modifyLine lineNumber fun line => { line with wrapped }

end ScreenBuffer

structure SavedScreen where
  snapshot : ScreenBuffer.Snapshot := {}
  posX : Int := 0
  posY : Int := 0
deriving DecidableEq

structure Screen where
  posX : Int := 0
  posY : Int := 0
  eraseChar : Space := {}
  buffer : ScreenBuffer
  alternateScreen : Bool := false
  lineOverflown : Bool := false
  reverseVideo : Bool := false
  primaryScreenshot : SavedScreen := {}
  alternativeScreenshot : SavedScreen := {}
deriving DecidableEq

namespace Screen

def multiCellGlyph : UInt32 := 0xFFFE

def width (screen : Screen) : Int := toInt screen.buffer.width

def height (screen : Screen) : Int := toInt screen.buffer.height

def setLineWrapped (screen : Screen) (lineNumber : Int) (wrapped : Bool) : Screen :=
  { screen with buffer := screen.buffer.setLineWrapped lineNumber wrapped }

/-- Does something to the cells of a line. -/
def withLine (screen : Screen) (lineNumber : Int) (f : List Space → Option (List Space)) :
    Option Screen := do
  let cells ← f (screen.buffer.cellsOf lineNumber)
  return { screen with buffer := screen.buffer.setCells lineNumber cells }

/-! ## The cursor -/

def goTo (screen : Screen) (x y : Int) : Screen :=
  let x := max x 0
  let x := if x ≥ screen.width then screen.width - 1 else x
  let y := max y 0
  let y := if y ≥ screen.height then screen.height - 1 else y
  { screen with posX := x, posY := y, lineOverflown := false }

def doCursorDown (screen : Screen) (n : Int) : Screen :=
  screen.goTo screen.posX (toInt (screen.posY + n))

def doCursorLeft (screen : Screen) (n : Int) : Screen :=
  screen.goTo (toInt (screen.posX - n)) screen.posY

def new (width height : Nat) : Screen := goTo { buffer := ScreenBuffer.new width height } 0 0

/-! ## Characters -/

def getCh (screen : Screen) : Option UInt32 :=
  let line := screen.buffer.cellsOf screen.posY
  if line = [] then some 0
  else if screen.posX < line.length then (readCell line screen.posX).map Space.l
  else some 0

/-- A character, and the mark after it when it is of double width and there is room. -/
def writeChar (line : List Space) (x : Int) (sp : Space) (isDoubleWidth : Bool) :
    Option (List Space) := do
  let cells ← writeCell line x sp
  if isDoubleWidth ∧ x + 1 < line.length then
    writeCell cells (x + 1) { sp with l := multiCellGlyph }
  else some cells

/-- Whether a character is of double width is what the registry says. -/
def putCh (screen : Screen) (char : UInt32) (isDoubleWidth : Bool) : Option Screen :=
  let line := screen.buffer.cellsOf screen.posY
  let lineLen : Int := line.length
  if line = [] then some screen
  else do
    let sp := { screen.eraseChar with l := char }
    let screen ← screen.withLine screen.posY fun line =>
      writeChar line screen.posX sp isDoubleWidth
    let overflown : Bool :=
      screen.posX = lineLen - 1 ∨ (screen.posX = lineLen - 2 ∧ isDoubleWidth)
    return { screen with lineOverflown := screen.lineOverflown || overflown }.setLineWrapped
      screen.posY false

def putWrap (screen : Screen) : Screen := screen.setLineWrapped screen.posY true

/-! ## Erasing -/

def eraseWholeLine (screen : Screen) (lineNumber : Int) : Option Screen :=
  screen.withLine lineNumber fun line => fillCells line 0 line.length screen.eraseChar

/-- The lines above the cursor, and its line up to it. -/
def eraseToCursor : Nat → Int → Screen → Option Screen
  | 0, _, screen => some screen
  | count + 1, i, screen =>
    if i ≠ screen.posY then do
      let screen ← screen.eraseWholeLine i
      eraseToCursor count (i + 1) (screen.setLineWrapped i false)
    else
      screen.withLine i fun line =>
        fillCells line 0 (min (screen.posX + 1) line.length) screen.eraseChar

def eraseLines : Nat → Int → Screen → Option Screen
  | 0, _, screen => some screen
  | count + 1, i, screen => do
      let screen ← screen.eraseWholeLine i
      eraseLines count (i + 1) (screen.setLineWrapped i false)

/-- The cells that a loop over the width goes through. -/
def eraseFrom (screen : Screen) (lineNumber first : Int) : Option Screen :=
  screen.withLine lineNumber fun line =>
    if first < screen.width then fillCells line first screen.width screen.eraseChar else some line

def eraseFromCursor : Nat → Int → Screen → Option Screen
  | 0, _, screen => some screen
  | count + 1, i, screen => do
      let screen ← (screen.setLineWrapped i false).eraseFrom i
        (if i = screen.posY then screen.posX else 0)
      eraseFromCursor count (i + 1) screen

def doEraseScreen (screen : Screen) (mode : Nat) : Option Screen :=
  if mode = 1 then eraseToCursor screen.height.toNat 0 screen
  else if mode = 2 then eraseLines screen.height.toNat 0 screen
  else eraseFromCursor (screen.height - screen.posY).toNat screen.posY screen

def eraseInLine (screen : Screen) (mode : Nat) : Option Screen :=
  screen.withLine screen.posY fun line =>
    if line = [] then some line
    else
      let first := if mode = 0 then min screen.posX line.length else 0
      let last := if mode = 1 then min (screen.posX + 1) line.length else line.length
      fillCells line first last screen.eraseChar

/-- The line number comes as `unsigned`. -/
def eraseAt (screen : Screen) (x y count : Nat) : Option Screen :=
  screen.withLine (toInt y) fun line =>
    if line = [] then some line
    else fillCells line x (min ((x : Int) + count) line.length) screen.eraseChar

def fillLines (space : Space) : Nat → Int → Screen → Option Screen
  | 0, _, screen => some screen
  | count + 1, y, screen => do
      let screen ← screen.withLine y fun line => fillCells line 0 line.length space
      fillLines space count (y + 1) screen

def fillScreenWithSpace (screen : Screen) (space : Space) : Option Screen :=
  fillLines space screen.height.toNat 0 screen

/-! ## Attributes -/

/-- The buffer is told of the erase character. -/
def withEraseChar (screen : Screen) (eraseChar : Space) : Screen :=
  { screen with eraseChar, buffer := { screen.buffer with eraseChar } }

def setFgColor (screen : Screen) (color : Option Color) : Screen :=
  screen.withEraseChar
    { screen.eraseChar with foreground := color.getD {}, customfg := color.isSome }

def setBgColor (screen : Screen) (color : Option Color) : Screen :=
  screen.withEraseChar
    { screen.eraseChar with background := color.getD {}, custombg := color.isSome }

def setFaint (screen : Screen) (faint : Bool) : Screen :=
  screen.withEraseChar { screen.eraseChar with faint }

def setUnderline (screen : Screen) (underline : Bool) : Screen :=
  screen.withEraseChar { screen.eraseChar with underline }

def setCrossed (screen : Screen) (crossed : Bool) : Screen :=
  screen.withEraseChar { screen.eraseChar with crossed }

def setReverse (screen : Screen) (reverse : Bool) : Screen :=
  screen.withEraseChar { screen.eraseChar with reverse }

def setBold (screen : Screen) (bold : Bool) : Screen :=
  screen.withEraseChar { screen.eraseChar with bold }

def setItalic (screen : Screen) (italic : Bool) : Screen :=
  screen.withEraseChar { screen.eraseChar with italic }

def setInvisible (screen : Screen) (invisible : Bool) : Screen :=
  screen.withEraseChar { screen.eraseChar with invisible }

def setBlink (screen : Screen) (blink : Bool) : Screen :=
  screen.withEraseChar { screen.eraseChar with blink }

/-! ## The alternate screen -/

def captureScreen (screen : Screen) : SavedScreen :=
  { snapshot := screen.buffer.makeSnapshot, posX := screen.posX, posY := screen.posY }

def setAlternateScreen (screen : Screen) (isAlternate : Bool) : Screen :=
  if screen.alternateScreen = isAlternate then screen
  else
    let screen :=
      if screen.alternateScreen then
        let saved := screen.primaryScreenshot
        { screen with
          alternativeScreenshot := screen.captureScreen,
          buffer := screen.buffer.revertToSnapshot saved.snapshot }.goTo saved.posX saved.posY
      else
        { screen with
          primaryScreenshot := screen.captureScreen,
          buffer := screen.buffer.revertToSnapshot screen.alternativeScreenshot.snapshot }.goTo 0 0
    { screen with alternateScreen := isAlternate }

/-! ## Shifting -/

/-- Each cell takes the place of the one so many columns to the left of it. -/
def shiftLeftLoop (chars : Int) : Nat → Int → List Space → Option (List Space)
  | 0, _, cells => some cells
  | count + 1, x, cells => do
      let cell ← readCell cells x
      shiftLeftLoop chars count (x + 1) (← writeCell cells (x - chars) cell)

/-- Some cells in a row, from an index on, up or down. -/
def writeLoop (space : Space) (step : Int) : Nat → Int → List Space → Option (List Space)
  | 0, _, cells => some cells
  | count + 1, x, cells => do
      writeLoop space step count (x + step) (← writeCell cells x space)

def doShiftRowLeft (screen : Screen) (chars : Int) : Option Screen :=
  screen.withLine screen.posY fun line =>
    if line = [] then some line
    else do
      let first := screen.posX + chars
      let line ← shiftLeftLoop chars (screen.width - first).toNat first line
      writeLoop screen.eraseChar (-1) chars.toNat (screen.width - 1) line

def shiftRightLoop (chars : Int) : Nat → Int → List Space → Option (List Space)
  | 0, _, cells => some cells
  | count + 1, x, cells => do
      let cell ← readCell cells (x - chars)
      shiftRightLoop chars count (x - 1) (← writeCell cells x cell)

def doShiftRowRight (screen : Screen) (chars : Int) : Option Screen :=
  screen.withLine screen.posY fun line =>
    if line = [] then some line
    else do
      let last := screen.posX + chars
      let line ← shiftRightLoop chars (screen.width - last).toNat (screen.width - 1) line
      writeLoop screen.eraseChar 1 chars.toNat screen.posX line

/-! ## Scrolling -/

def copyLineChars (screen : Screen) (source target : Int) : Screen :=
  let src := screen.buffer.cellsOf source
  let dst := screen.buffer.cellsOf target
  if src ≠ [] ∧ dst ≠ [] then
    let count := min src.length dst.length
    { screen with buffer := screen.buffer.setCells target (src.take count ++ dst.drop count) }
  else screen

def clearLine (screen : Screen) (ind : Int) : Option Screen :=
  if screen.buffer.cellsOf ind ≠ [] then do
    let screen ← screen.eraseWholeLine ind
    return screen.setLineWrapped ind false
  else some screen

/-- A line and its flag. -/
def moveLine (screen : Screen) (source target : Int) : Screen :=
  (screen.copyLineChars source target).setLineWrapped target (screen.buffer.lineWrapped source)

/-- Some lines, from a number on, up or down. -/
def clearLines (step : Int) : Nat → Int → Screen → Option Screen
  | 0, _, screen => some screen
  | count + 1, i, screen => do clearLines step count (i + step) (← screen.clearLine i)

def scrollDownLoop (top : Int) : Nat → Int → Int → Screen → Screen
  | 0, _, _, screen => screen
  | count + 1, dst, src, screen =>
    if dst > top ∧ src ≥ top then scrollDownLoop top count (dst - 1) (src - 1)
      (screen.moveLine src dst)
    else screen

/-- The arguments are `int`s that come as `unsigned`. -/
def scrollDown (screen : Screen) (top bottom lines : Int) : Option Screen :=
  let bottom := min bottom screen.height
  if top ≥ screen.height ∨ top ≥ bottom ∨ lines < 1 then some screen
  else
    let screen := scrollDownLoop top (bottom - top).toNat (bottom - 1) (bottom - 1 - lines) screen
    clearLines 1 (min (top + lines) bottom - top).toNat top screen

def scrollUpLoop (bottom : Int) : Nat → Int → Int → Screen → Screen
  | 0, _, _, screen => screen
  | count + 1, src, dst, screen =>
    if src < bottom ∧ dst < bottom then scrollUpLoop bottom count (src + 1) (dst + 1)
      (screen.moveLine src dst)
    else screen

/-- The scrollback is fed with the lines from a number on. -/
def feedLoop : Nat → Int → Screen → Screen
  | 0, _, screen => screen
  | count + 1, i, screen =>
    feedLoop count (i + 1) { screen with
      buffer := screen.buffer.feedBackscreen (screen.buffer.cellsOf i)
        (screen.buffer.lineWrapped i) }

def doScrollUp (screen : Screen) (top bottom lines : Int) : Option Screen :=
  let bottom := min bottom screen.height
  if top ≥ screen.height ∨ top ≥ bottom ∨ lines < 1 then some screen
  else
    let screen :=
      if top = 0 ∧ bottom = screen.height ∧ !screen.alternateScreen then
        feedLoop (min lines screen.height).toNat 0 screen
      else screen
    let screen := scrollUpLoop bottom (bottom - top).toNat (top + lines) top screen
    clearLines (-1) (bottom - max (bottom - lines) top).toNat (bottom - 1) screen

/-! ## Resizing -/

/-- Nothing when it throws. -/
def resizeScreen (screen : Screen) (newSx newSy : Nat) : Option Screen :=
  if screen.width = toInt newSx ∧ screen.height = toInt newSy then some screen
  else if newSx = 0 ∨ newSy = 0 then none
  else do
    let feedFromBs : Bool := screen.posY = screen.height - 1
    let buffer ← screen.buffer.resizeScreen newSx newSy (feedFromBs && !screen.alternateScreen)
    let screen := { screen with buffer }
    return screen.goTo screen.posX (if feedFromBs then screen.height - 1 else screen.posY)

def setVideoReverse (screen : Screen) (reverse : Bool) : Screen :=
  { screen with reverseVideo := reverse }

end Screen

end WinCommander.Term
