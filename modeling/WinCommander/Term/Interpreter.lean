/-
  `InterpreterImpl`: what the commands do to the screen.

  Core Foundation and the registry of extended characters are a parameter. What is told to the
  outside (reports, the bell, titles, the style of the cursor, the modes of input and of the
  mouse) does nothing to the screen and is left out. An operation gives nothing when the screen
  does (a cell outside of its line).
-/
import WinCommander.Term.Screen

namespace WinCommander.Term

open Library

/-- What Core Foundation and `ExtendedCharRegistry` answer; `σ` is the registry. -/
structure CharacterSystem (σ : Type) where
  /-- `ConvertUTF8ToUTF16`: empty for what is no UTF-8. -/
  toUTF16 : Bytes → List UInt16
  /-- `Append`: `newchar` and `eaten`. -/
  append : σ → List UInt16 → UInt32 → σ × UInt32 × Nat
  isDoubleWidth : σ → UInt32 → Bool
  /-- Without a character to append to, something is eaten. -/
  append_eaten_pos : ∀ registry input, input ≠ [] → 0 < (append registry input 0).2.2

structure Extent where
  height : Int := 0
  width : Int := 0
  top : Int := 0
  bottom : Int := 0
deriving DecidableEq

/-- `TranslateMaps`. -/
inductive CodeSet where
  | usascii | uk | graph
deriving DecidableEq

structure Rendition where
  faint : Bool := false
  inverse : Bool := false
  bold : Bool := false
  italic : Bool := false
  invisible : Bool := false
  blink : Bool := false
  underline : Bool := false
  crossed : Bool := false
  fgColor : Option Color := none
  bgColor : Option Color := none
deriving DecidableEq

structure SavedState where
  x : Int
  y : Int
  rendition : Rendition
  characterSets : List CodeSet
  translateMap : Option CodeSet
deriving DecidableEq

structure Interpreter (σ : Type) where
  screen : Screen
  registry : σ
  extent : Extent
  tabStops : List Bool
  /-- The map that is pointed to. -/
  translateMap : Option CodeSet := none
  gx : List CodeSet := [.usascii, .usascii, .usascii, .usascii]
  originLineMode : Bool := false
  allowScreenResize : Bool := true
  autoWrapMode : Bool := true
  insertMode : Bool := false
  rendition : Rendition := {}
  savedState : Option SavedState := none
deriving DecidableEq

/-- `std::clamp`. -/
def clamp (value low high : Int) : Int :=
  if value < low then low else if high < value then high else value

/-- The rows of `g_TranslateMaps` for characters up to 0x7F. -/
def translate (map : CodeSet) (c : UInt16) : UInt16 :=
  match map with
  | .usascii => c
  | .uk => if c = 0x23 then 0xA3 else c
  | .graph =>
    if 0x5F ≤ c ∧ c ≤ 0x7E then
      ([0x20, 0x25C6, 0x2592, 0x2409, 0x240C, 0x240D, 0x240A, 0xB0, 0xB1, 0x2424, 0x240B, 0x2518,
        0x2510, 0x250C, 0x2514, 0x253C, 0x23BA, 0x23BB, 0x2500, 0x23BC, 0x23BD, 0x251C, 0x2524,
        0x2534, 0x252C, 0x2502, 0x2264, 0x2265, 0x3C0, 0x2260, 0xA3, 0xB7] : List UInt16).getD
        (c.toNat - 0x5F) c
    else c

def applyTranslateMap (utf16 : List UInt16) (map : CodeSet) : List UInt16 :=
  utf16.map fun c => if c ≤ 0x7F then translate map c else c

namespace Interpreter

variable {σ : Type}

def withScreen (interpreter : Interpreter σ) (screen : Option Screen) : Option (Interpreter σ) :=
  screen.map fun screen => { interpreter with screen }

def moveTo (interpreter : Interpreter σ) (x y : Int) : Interpreter σ :=
  { interpreter with screen := interpreter.screen.goTo x y }

/-! ## Lines -/

def processLF (interpreter : Interpreter σ) : Option (Interpreter σ) :=
  let screen := interpreter.screen
  let extent := interpreter.extent
  interpreter.withScreen <|
    if screen.posY + 1 = extent.bottom then screen.doScrollUp extent.top extent.bottom 1
    else some (screen.doCursorDown 1)

def processCR (interpreter : Interpreter σ) : Interpreter σ :=
  interpreter.moveTo 0 interpreter.screen.posY

def processBS (interpreter : Interpreter σ) : Interpreter σ :=
  { interpreter with screen := interpreter.screen.doCursorLeft 1 }

def processRI (interpreter : Interpreter σ) : Option (Interpreter σ) :=
  let screen := interpreter.screen
  let extent := interpreter.extent
  interpreter.withScreen <|
    if screen.posY = extent.top then screen.scrollDown extent.top extent.bottom 1
    else
      let targetY :=
        if interpreter.originLineMode then clamp (screen.posY - 1) extent.top (extent.bottom - 1)
        else clamp (screen.posY - 1) 0 (extent.height - 1)
      some (screen.goTo screen.posX targetY)

/-! ## Text -/

/-- `curr_line_ends_with_mcg`. -/
def currLineEndsWithMcg (interpreter : Interpreter σ) : Option Bool :=
  let line := interpreter.screen.buffer.cellsOf interpreter.screen.posY
  (readCell line (line.length - 1)).map fun cell => cell.l = Screen.multiCellGlyph

/-- Whether the next character goes to a new line. -/
def wraps (interpreter : Interpreter σ) : Option Bool :=
  let screen := interpreter.screen
  if interpreter.autoWrapMode && screen.lineOverflown then
    if screen.posX ≥ screen.width - 1 then some true
    else if screen.posX = screen.width - 2 then interpreter.currLineEndsWithMcg
    else some false
  else some false

/-- `PutWrap`, `ProcessCR` and `ProcessLF`. -/
def wrapLine (interpreter : Interpreter σ) : Option (Interpreter σ) :=
  { interpreter with screen := interpreter.screen.putWrap }.processCR.processLF

def startLine (interpreter : Interpreter σ) : Option (Interpreter σ) :=
  interpreter.wraps.bind fun wraps => if wraps then interpreter.wrapLine else some interpreter

def makeRoom (interpreter : Interpreter σ) (charWidth : Int) : Option Screen :=
  if interpreter.insertMode then interpreter.screen.doShiftRowRight charWidth
  else some interpreter.screen

/-- Behind a character, unless that is outside of the line. -/
def advance (charWidth : Int) (screen : Screen) : Screen :=
  if screen.posX + charWidth < screen.width then screen.goTo (screen.posX + charWidth) screen.posY
  else screen

def putHere (interpreter : Interpreter σ) (newchar : UInt32) (isDw : Bool) :
    Option (Interpreter σ) := do
  let charWidth : Int := if isDw then 2 else 1
  let screen ← interpreter.makeRoom charWidth
  let screen ← screen.putCh newchar isDw
  return { interpreter with screen := advance charWidth screen }

/-- What is done with a character that was made of the input. -/
def putCharacter (interpreter : Interpreter σ) (newchar : UInt32) (isDw : Bool) :
    Option (Interpreter σ) :=
  interpreter.startLine.bind fun interpreter => interpreter.putHere newchar isDw

/-- The loop of `ProcessText`. -/
def textLoop (system : CharacterSystem σ) (interpreter : Interpreter σ) (input : List UInt16) :
    Option (Interpreter σ) :=
  if h : input = [] then some interpreter
  else
    let result := system.append interpreter.registry input 0
    let newchar := result.2.1
    let next := { interpreter with registry := result.1 }
    if newchar = 0 then textLoop system next (input.drop result.2.2)
    else
      match next.putCharacter newchar (system.isDoubleWidth result.1 newchar) with
      | some next => textLoop system next (input.drop result.2.2)
      | none => none
termination_by input.length
decreasing_by
  all_goals
    have hpos := system.append_eaten_pos interpreter.registry input h
    have hlength := List.length_pos_iff.mpr h
    rw [List.length_drop]
    omega

/-- The character at the cursor is tried first. -/
def appendToCurrent (system : CharacterSystem σ) (interpreter : Interpreter σ)
    (input : List UInt16) : Option (Interpreter σ × List UInt16) := do
  let curr ← interpreter.screen.getCh
  if curr ≠ 0 ∧ curr ≠ Screen.multiCellGlyph then
    let (registry, newchar, eaten) := system.append interpreter.registry input curr
    let interpreter := { interpreter with registry }
    if eaten ≠ 0 then
      let screen ← interpreter.screen.putCh newchar (system.isDoubleWidth registry newchar)
      return ({ interpreter with screen }, input.drop eaten)
    else return (interpreter, input)
  else return (interpreter, input)

def translated (interpreter : Interpreter σ) (wholeInput : List UInt16) : List UInt16 :=
  match interpreter.translateMap with
  | some map => applyTranslateMap wholeInput map
  | none => wholeInput

def processText (system : CharacterSystem σ) (interpreter : Interpreter σ) (characters : Bytes) :
    Option (Interpreter σ) :=
  let input := interpreter.translated (system.toUTF16 characters)
  if input = [] then some interpreter
  else (interpreter.appendToCurrent system input).bind fun (interpreter, input) =>
    interpreter.textLoop system input

/-! ## The cursor -/

def processMC (interpreter : Interpreter σ) (movement : CursorMovement) : Interpreter σ :=
  let x := interpreter.screen.posX
  let y := interpreter.screen.posY
  let extent := interpreter.extent
  match movement.positioning with
  | .absolute =>
    let lineBasis := if interpreter.originLineMode then extent.top else 0
    match movement.x, movement.y with
    | some dx, some dy => interpreter.moveTo dx.toInt (toInt (dy.toInt + lineBasis))
    | some dx, none => interpreter.moveTo dx.toInt y
    | none, some dy => interpreter.moveTo x (toInt (dy.toInt + lineBasis))
    | none, none => interpreter
  | .relative =>
    match movement.x, movement.y with
    | some dx, some dy =>
      let targetY := if interpreter.originLineMode then
          clamp (toInt (y + dy.toInt)) extent.top (extent.bottom - 1)
        else toInt (y + dy.toInt)
      interpreter.moveTo (toInt (x + dx.toInt)) targetY
    | some dx, none => interpreter.moveTo (toInt (x + dx.toInt)) y
    | none, some dy => interpreter.moveTo x (toInt (y + dy.toInt))
    | none, none => interpreter

/-- To the next tab stops, in as many columns as are left. -/
def tabForward (tabStops : List Bool) : Nat → Int → Int → Int
  | 0, x, _ => x
  | columns + 1, x, amount =>
    if amount > 0 then
      tabForward tabStops columns (x + 1)
        (if tabStops.getD (x + 1).toNat false then amount - 1 else amount)
    else x

def tabBackward (tabStops : List Bool) : Nat → Int → Int → Int
  | 0, x, _ => x
  | columns + 1, x, amount =>
    if amount < 0 then
      tabBackward tabStops columns (x - 1)
        (if tabStops.getD (x - 1).toNat false then amount + 1 else amount)
    else x

def processHT (interpreter : Interpreter σ) (amount : Int) : Interpreter σ :=
  let screen := interpreter.screen
  if amount = 0 then interpreter
  else if amount > 0 then
    let width := min screen.width interpreter.tabStops.length
    let x := tabForward interpreter.tabStops (width - 1 - screen.posX).toNat screen.posX amount
    interpreter.moveTo x screen.posY
  else
    let x := tabBackward interpreter.tabStops screen.posX.toNat screen.posX amount
    interpreter.moveTo x screen.posY

def setTabStop (interpreter : Interpreter σ) (stop : Bool) : Interpreter σ :=
  { interpreter with
    tabStops := interpreter.tabStops.set (toUnsigned interpreter.screen.posX) stop }

def processHTS (interpreter : Interpreter σ) : Interpreter σ := interpreter.setTabStop true

def processClearTab (interpreter : Interpreter σ) : TabClear → Interpreter σ
  | .currentColumn => interpreter.setTabStop false
  | .all => { interpreter with tabStops := interpreter.tabStops.map fun _ => false }

/-! ## Erasing, inserting and deleting -/

def processScreenAlignment (interpreter : Interpreter σ) : Option (Interpreter σ) :=
  let screen := interpreter.screen
  interpreter.withScreen <|
    (screen.fillScreenWithSpace { screen.buffer.eraseChar with l := 69 }).map (Screen.goTo · 0 0)

def processEraseInDisplay (interpreter : Interpreter σ) (area : DisplayArea) :
    Option (Interpreter σ) :=
  interpreter.withScreen <| interpreter.screen.doEraseScreen <| match area with
    | .fromCursorToDisplayEnd => 0
    | .fromDisplayStartToCursor => 1
    | .wholeDisplayWithScrollback | .wholeDisplay => 2

def processEraseInLine (interpreter : Interpreter σ) (area : LineArea) : Option (Interpreter σ) :=
  interpreter.withScreen <| interpreter.screen.eraseInLine <| match area with
    | .fromCursorToLineEnd => 0
    | .fromLineStartToCursor => 1
    | .wholeLine => 2

def processEraseCharacters (interpreter : Interpreter σ) (amount : UInt32) :
    Option (Interpreter σ) :=
  let screen := interpreter.screen
  if amount = 0 then some interpreter
  else interpreter.withScreen <|
    screen.eraseAt (toUnsigned screen.posX) (toUnsigned screen.posY) amount.toNat

/-- An amount that came as `unsigned`: not beyond what is left, and one instead of zero. -/
def amountUpTo (left : Int) (amount : UInt32) : Int :=
  let amount := toInt amount.toNat
  if amount > left then left else if amount = 0 then 1 else amount

def processInsertLines (interpreter : Interpreter σ) (lines : UInt32) : Option (Interpreter σ) :=
  let screen := interpreter.screen
  let extent := interpreter.extent
  if screen.posY < extent.top ∨ screen.posY > extent.bottom then some interpreter
  else interpreter.withScreen <|
    screen.scrollDown screen.posY extent.bottom (amountUpTo (screen.height - screen.posY) lines)

def processDeleteLines (interpreter : Interpreter σ) (lines : UInt32) : Option (Interpreter σ) :=
  let screen := interpreter.screen
  let extent := interpreter.extent
  if screen.posY < extent.top ∨ screen.posY > extent.bottom then some interpreter
  else interpreter.withScreen <|
    screen.doScrollUp screen.posY extent.bottom (amountUpTo (screen.height - screen.posY) lines)

def processDeleteCharacters (interpreter : Interpreter σ) (characters : UInt32) :
    Option (Interpreter σ) :=
  let screen := interpreter.screen
  interpreter.withScreen <|
    screen.doShiftRowLeft (amountUpTo (screen.width - screen.posX) characters)

def processInsertCharacters (interpreter : Interpreter σ) (characters : UInt32) :
    Option (Interpreter σ) :=
  let screen := interpreter.screen
  interpreter.withScreen <|
    screen.doShiftRowRight (amountUpTo (screen.width - screen.posX) characters)

/-! ## Modes -/

def processSetScrollingRegion (interpreter : Interpreter σ) (range : Option ScrollingRange) :
    Interpreter σ :=
  let screen := interpreter.screen
  let extent := match range with
    | some range =>
      let top := range.top.toInt
      let bottom := range.bottom.toInt
      if toInt (top + 1) < bottom ∧ top ≥ 0 ∧ top ≤ screen.height then
        { interpreter.extent with top, bottom }
      else interpreter.extent
    | none => { interpreter.extent with top := 0, bottom := screen.height }
  let interpreter := { interpreter with extent }
  if interpreter.originLineMode then interpreter.moveTo 0 extent.top else interpreter

/-- How a command was left. -/
inductive Exit where
  | returned | threw
deriving DecidableEq

def processChangeColumnMode132 (interpreter : Interpreter σ) (on : Bool) : Interpreter σ × Exit :=
  if interpreter.allowScreenResize then
    match interpreter.screen.resizeScreen (if on then 132 else 80)
        (toUnsigned interpreter.screen.height) with
    | some screen => ({ interpreter with screen }, .returned)
    | none => (interpreter, .threw)
  else (interpreter, .returned)

def setAlternateScreen (interpreter : Interpreter σ) (status : Bool) : Interpreter σ :=
  { interpreter with screen := interpreter.screen.setAlternateScreen status }

def returned (interpreter : Option (Interpreter σ)) : Option (Interpreter σ × Exit) :=
  interpreter.map fun interpreter => (interpreter, .returned)

def processChangeMode (interpreter : Interpreter σ) (change : ModeChange) :
    Option (Interpreter σ × Exit) :=
  match change.mode with
  | .origin => returned (some { interpreter with originLineMode := change.status })
  | .autoWrap => returned (some { interpreter with autoWrapMode := change.status })
  | .column132 => some (interpreter.processChangeColumnMode132 change.status)
  | .reverseVideo =>
    returned (some { interpreter with screen := interpreter.screen.setVideoReverse change.status })
  | .insert => returned (some { interpreter with insertMode := change.status })
  | .alternateScreenBuffer => returned (some (interpreter.setAlternateScreen change.status))
  | .alternateScreenBuffer1049 =>
    let interpreter := interpreter.setAlternateScreen change.status
    returned (if change.status then interpreter.processEraseInDisplay .wholeDisplay
      else some interpreter)
  | _ => returned (some interpreter)

/-! ## Attributes -/

def setFg (interpreter : Interpreter σ) (fgColor : Option Color) : Interpreter σ :=
  { interpreter with
    rendition := { interpreter.rendition with fgColor },
    screen := interpreter.screen.setFgColor fgColor }

def setBg (interpreter : Interpreter σ) (bgColor : Option Color) : Interpreter σ :=
  { interpreter with
    rendition := { interpreter.rendition with bgColor },
    screen := interpreter.screen.setBgColor bgColor }

def setFaint (interpreter : Interpreter σ) (faint : Bool) : Interpreter σ :=
  { interpreter with
    rendition := { interpreter.rendition with faint },
    screen := interpreter.screen.setFaint faint }

def setInverse (interpreter : Interpreter σ) (inverse : Bool) : Interpreter σ :=
  { interpreter with
    rendition := { interpreter.rendition with inverse },
    screen := interpreter.screen.setReverse inverse }

def setBold (interpreter : Interpreter σ) (bold : Bool) : Interpreter σ :=
  { interpreter with
    rendition := { interpreter.rendition with bold },
    screen := interpreter.screen.setBold bold }

def setItalic (interpreter : Interpreter σ) (italic : Bool) : Interpreter σ :=
  { interpreter with
    rendition := { interpreter.rendition with italic },
    screen := interpreter.screen.setItalic italic }

def setInvisible (interpreter : Interpreter σ) (invisible : Bool) : Interpreter σ :=
  { interpreter with
    rendition := { interpreter.rendition with invisible },
    screen := interpreter.screen.setInvisible invisible }

def setBlink (interpreter : Interpreter σ) (blink : Bool) : Interpreter σ :=
  { interpreter with
    rendition := { interpreter.rendition with blink },
    screen := interpreter.screen.setBlink blink }

def setUnderline (interpreter : Interpreter σ) (underline : Bool) : Interpreter σ :=
  { interpreter with
    rendition := { interpreter.rendition with underline },
    screen := interpreter.screen.setUnderline underline }

def setCrossed (interpreter : Interpreter σ) (crossed : Bool) : Interpreter σ :=
  { interpreter with
    rendition := { interpreter.rendition with crossed },
    screen := interpreter.screen.setCrossed crossed }

def processSetCharacterAttributes (interpreter : Interpreter σ) (attributes : CharacterAttributes) :
    Interpreter σ :=
  match attributes.mode with
  | .normal =>
    ((((((((((interpreter.setFaint false).setInverse false).setBold false).setItalic
      false).setInvisible false).setBlink false).setUnderline false).setCrossed false).setFg
      none).setBg none)
  | .faint => interpreter.setFaint true
  | .notBoldNotFaint => (interpreter.setFaint false).setBold false
  | .inverse => interpreter.setInverse true
  | .notInverse => interpreter.setInverse false
  | .bold => interpreter.setBold true
  | .italicized => interpreter.setItalic true
  | .notItalicized => interpreter.setItalic false
  | .invisible => interpreter.setInvisible true
  | .notInvisible => interpreter.setInvisible false
  | .blink => interpreter.setBlink true
  | .notBlink => interpreter.setBlink false
  | .underlined | .doublyUnderlined => interpreter.setUnderline true
  | .notUnderlined => interpreter.setUnderline false
  | .foregroundColor => interpreter.setFg (some attributes.color)
  | .foregroundDefault => interpreter.setFg none
  | .backgroundColor => interpreter.setBg (some attributes.color)
  | .backgroundDefault => interpreter.setBg none
  | .crossed => interpreter.setCrossed true
  | .notCrossed => interpreter.setCrossed false

def updateCharacterAttributes (interpreter : Interpreter σ) : Interpreter σ :=
  let rendition := interpreter.rendition
  let screen := ((((interpreter.screen.setFgColor rendition.fgColor).setBgColor
    rendition.bgColor).setFaint rendition.faint).setReverse rendition.inverse).setBold rendition.bold
  let screen := ((((screen.setItalic rendition.italic).setInvisible rendition.invisible).setBlink
    rendition.blink).setUnderline rendition.underline).setCrossed rendition.crossed
  { interpreter with screen }

/-! ## Character sets and saved state -/

def mapOf (codeset : CodeSet) : Option CodeSet := if codeset = .usascii then none else some codeset

def processDesignateCharacterSet (interpreter : Interpreter σ)
    (designation : CharacterSetDesignation) : Interpreter σ :=
  let codeset : CodeSet := match designation.set with
    | .decSpecialGraphics | .alternateCharacterROMSpecialGraphics => .graph
    | .uk => .uk
    | .usascii | .alternateCharacterROMStandardCharacters => .usascii
  if designation.target < interpreter.gx.length then
    { interpreter with
      gx := interpreter.gx.set designation.target codeset, translateMap := mapOf codeset }
  else interpreter

def processSelectCharacterSet (interpreter : Interpreter σ) (target : UInt32) : Interpreter σ :=
  match interpreter.gx[target.toNat]? with
  | some codeset => { interpreter with translateMap := mapOf codeset }
  | none => interpreter

def processSaveState (interpreter : Interpreter σ) : Interpreter σ :=
  { interpreter with
    savedState := some {
      x := interpreter.screen.posX, y := interpreter.screen.posY,
      rendition := interpreter.rendition, characterSets := interpreter.gx,
      translateMap := interpreter.translateMap } }

def processRestoreState (interpreter : Interpreter σ) : Interpreter σ :=
  match interpreter.savedState with
  | none => interpreter
  | some saved =>
    { interpreter.moveTo saved.x saved.y with
      gx := saved.characterSets, translateMap := saved.translateMap,
      rendition := saved.rendition }.updateCharacterAttributes

/-! ## Commands -/

def defaultTabStops : List Bool := (List.range 1024).map fun n => n % 8 = 0

/-- `InterpreterImpl`, on a screen. -/
def new (screen : Screen) (registry : σ) : Interpreter σ :=
  { screen, registry,
    extent := {
      height := screen.height, width := screen.width, top := 0, bottom := screen.height },
    tabStops := defaultTabStops : Interpreter σ }.updateCharacterAttributes

def notifyScreenResized (interpreter : Interpreter σ) : Interpreter σ :=
  let oldExtent := interpreter.extent
  let width := interpreter.screen.width
  let height := interpreter.screen.height
  let bottom := if oldExtent.bottom = oldExtent.height then height else min oldExtent.bottom height
  { interpreter with
    extent := { width, height, bottom, top := min oldExtent.top (height - 1) } }

def interpretSingleCommand (system : CharacterSystem σ) (interpreter : Interpreter σ)
    (command : Command) : Option (Interpreter σ × Exit) :=
  match command with
  | .text characters => returned (interpreter.processText system characters)
  | .lineFeed => returned interpreter.processLF
  | .carriageReturn => returned (some interpreter.processCR)
  | .backSpace => returned (some interpreter.processBS)
  | .reverseIndex => returned interpreter.processRI
  | .moveCursor movement => returned (some (interpreter.processMC movement))
  | .horizontalTab amount => returned (some (interpreter.processHT amount.toInt))
  | .screenAlignmentTest => returned interpreter.processScreenAlignment
  | .eraseInDisplay area => returned (interpreter.processEraseInDisplay area)
  | .eraseInLine area => returned (interpreter.processEraseInLine area)
  | .eraseCharacters amount => returned (interpreter.processEraseCharacters amount)
  | .setScrollingRegion range => returned (some (interpreter.processSetScrollingRegion range))
  | .changeMode change => interpreter.processChangeMode change
  | .setTab => returned (some interpreter.processHTS)
  | .clearTab mode => returned (some (interpreter.processClearTab mode))
  | .setCharacterAttributes attributes =>
    returned (some (interpreter.processSetCharacterAttributes attributes))
  | .designateCharacterSet designation =>
    returned (some (interpreter.processDesignateCharacterSet designation))
  | .selectCharacterSet target => returned (some (interpreter.processSelectCharacterSet target))
  | .saveState => returned (some interpreter.processSaveState)
  | .restoreState => returned (some interpreter.processRestoreState)
  | .insertLines lines => returned (interpreter.processInsertLines lines)
  | .deleteLines lines => returned (interpreter.processDeleteLines lines)
  | .deleteCharacters characters => returned (interpreter.processDeleteCharacters characters)
  | .insertCharacters characters => returned (interpreter.processInsertCharacters characters)
  | .report _ | .bell | .changeTitle _ | .manipulateTitle _ | .setCursorStyle _ =>
    returned (some interpreter)
  | .scrollLines _ | .repeatLastCharacter _ | .reset => returned (some interpreter)

/-- `Interpret`: an exception leaves the commands that follow undone. -/
def interpret (system : CharacterSystem σ) (interpreter : Interpreter σ) :
    List Command → Option (Interpreter σ × Exit)
  | [] => some (interpreter, .returned)
  | command :: rest =>
    match interpreter.interpretSingleCommand system command with
    | none => none
    | some (interpreter, .threw) => some (interpreter, .threw)
    | some (interpreter, .returned) => interpret system interpreter rest

end Interpreter

end WinCommander.Term
