/-
  The commands that a terminal's parser makes of its input.

  `int` is `Int32` and `unsigned` is `UInt32`; a cast between them keeps the bits.
-/
import WinCommander.Library.Numeral

namespace WinCommander.Term

open Library

inductive TitleKind where
  | iconAndWindow | icon | window
deriving DecidableEq

structure Title where
  kind : TitleKind
  title : Bytes
deriving DecidableEq

inductive Positioning where
  | absolute | relative
deriving DecidableEq

structure CursorMovement where
  positioning : Positioning
  x : Option Int32 := none
  y : Option Int32 := none
deriving DecidableEq

inductive DisplayArea where
  | fromCursorToDisplayEnd | fromDisplayStartToCursor | wholeDisplay | wholeDisplayWithScrollback
deriving DecidableEq

inductive LineArea where
  | fromCursorToLineEnd | fromLineStartToCursor | wholeLine
deriving DecidableEq

inductive ModeKind where
  | insert | newLine | column132 | origin | autoWrap | reverseVideo | smoothScroll
  | applicationCursorKeys | alternateScreenBuffer | alternateScreenBuffer1049 | blinkingCursor
  | showCursor | autoRepeatKeys | sendMouseXYOnPress | sendMouseXYOnPressAndRelease
  | sendMouseXYOnPressDragAndRelease | sendMouseXYAnyEvent | sendMouseReportUFT8
  | sendMouseReportSGR | bracketedPaste
deriving DecidableEq

structure ModeChange where
  mode : ModeKind
  status : Bool
deriving DecidableEq

inductive DeviceReport where
  | terminalId | deviceStatus | cursorPosition
deriving DecidableEq

/-- The top line is in the region, the bottom line is not. -/
structure ScrollingRange where
  top : Int32
  bottom : Int32
deriving DecidableEq

inductive TabClear where
  | all | currentColumn
deriving DecidableEq

/-- The code of a colour: 0 to 15 by name, then a cube, then greys. -/
structure Color where
  c : UInt8 := 0
deriving DecidableEq

/-- The greys come in bands of 11, 11 and 10 values. -/
def Color.ofRGB (r g b : UInt8) : Color :=
  if r = g ∧ r = b then ⟨232 + 3 * (r / 32) + min (r % 32 / 11) 2⟩
  else ⟨16 + 36 * (r / 43) + 6 * (g / 43) + b / 43⟩

inductive AttributeKind where
  | normal | bold | faint | italicized | underlined | blink | inverse | invisible | crossed
  | doublyUnderlined | notBoldNotFaint | notItalicized | notUnderlined | notBlink | notInverse
  | notInvisible | notCrossed | foregroundColor | foregroundDefault | backgroundColor
  | backgroundDefault
deriving DecidableEq

structure CharacterAttributes where
  mode : AttributeKind
  color : Color := {}
deriving DecidableEq

inductive CharacterSet where
  | decSpecialGraphics | alternateCharacterROMStandardCharacters
  | alternateCharacterROMSpecialGraphics | uk | usascii
deriving DecidableEq

structure CharacterSetDesignation where
  target : Nat
  set : CharacterSet
deriving DecidableEq

inductive TitleTarget where
  | both | icon | window
deriving DecidableEq

inductive TitleOperation where
  | save | restore
deriving DecidableEq

structure TitleManipulation where
  target : TitleTarget
  operation : TitleOperation
deriving DecidableEq

inductive CursorMode where
  | blinkingBlock | blinkingUnderline | blinkingBar | steadyBlock | steadyUnderline | steadyBar
deriving DecidableEq

/-- `input::Command`: a type with the payload that belongs to it. -/
inductive Command where
  | text (characters : Bytes)
  | lineFeed
  | horizontalTab (amount : Int32)
  | carriageReturn
  | backSpace
  | bell
  | reverseIndex
  | reset
  | saveState
  | restoreState
  | screenAlignmentTest
  | changeTitle (title : Title)
  | manipulateTitle (manipulation : TitleManipulation)
  | moveCursor (movement : CursorMovement)
  | eraseInDisplay (area : DisplayArea)
  | eraseInLine (area : LineArea)
  | insertLines (amount : UInt32)
  | deleteLines (amount : UInt32)
  | deleteCharacters (amount : UInt32)
  | insertCharacters (amount : UInt32)
  | scrollLines (amount : Int32)
  | eraseCharacters (amount : UInt32)
  | repeatLastCharacter (amount : UInt32)
  | report (mode : DeviceReport)
  | changeMode (change : ModeChange)
  | setScrollingRegion (range : Option ScrollingRange)
  | clearTab (mode : TabClear)
  | setTab
  | setCharacterAttributes (attributes : CharacterAttributes)
  | selectCharacterSet (target : UInt32)
  | designateCharacterSet (designation : CharacterSetDesignation)
  | setCursorStyle (style : Option CursorMode)
deriving DecidableEq

end WinCommander.Term
