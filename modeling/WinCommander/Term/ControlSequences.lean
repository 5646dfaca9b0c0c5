/-
  The commands of control sequences: `CSI`, `OSC`, and the designation of character sets.

  Each handler makes its commands of the buffered sequence alone. What is reported to the error
  log is left out.
-/
import WinCommander.Term.Command

namespace WinCommander.Term

open Library

/-! ## Numbers -/

/-- `std::from_chars` for `unsigned`. -/
def fromCharsUnsigned (text : Bytes) : Option (UInt32 × Bytes) :=
  match text.span isDigitByte with
  | ([], _) => none
  | (digits, rest) =>
    if decimalValue 0 digits < 2 ^ 32 then some ((decimalValue 0 digits).toUInt32, rest) else none

/-- `std::from_chars` for `int`. -/
def fromCharsInt (text : Bytes) : Option Int32 :=
  let negative := text.head? == some 45
  match (if negative then text.drop 1 else text).span isDigitByte with
  | ([], _) => none
  | (digits, _) =>
    let value := decimalValue 0 digits
    if negative then if value ≤ 2 ^ 31 then some (-(Int32.ofNat value)) else none
    else if value < 2 ^ 31 then some (Int32.ofNat value) else none

/-- A number at the start of a sequence, or what it is by default. -/
def unsignedOr (default : UInt32) (s : Bytes) : UInt32 :=
  ((fromCharsUnsigned s).map Prod.fst).getD default

def intOr (default : Int32) (s : Bytes) : Int32 := (fromCharsInt s).getD default

/-- `CSIParamsScanner::Parse`: at most eight numbers, separated by semicolons. -/
def scanParams : Nat → Bytes → List UInt32
  | 0, _ => []
  | room + 1, string =>
    match fromCharsUnsigned string with
    | some (value, rest) =>
      value :: match rest with
        | 59 :: rest => scanParams room rest
        | _ => []
    | none =>
      match string with
      | 59 :: rest => 0 :: scanParams room rest
      | _ => []

def csiParams (csi : Bytes) : List UInt32 := scanParams 8 csi

/-- One less, but not below zero, as an `int`. -/
def zeroBased (value : UInt32) : Int32 := if value > 0 then (value - 1).toInt32 else 0

/-! ## Cursor movements -/

def moveRelative (x y : Option Int32) : Command :=
  .moveCursor { positioning := .relative, x, y }

def moveAbsolute (x y : Option Int32) : Command :=
  .moveCursor { positioning := .absolute, x, y }

def csi_A (s : Bytes) : List Command :=
  [moveRelative (some 0) (some (-max (unsignedOr 1 s).toInt32 1))]

def csi_B (s : Bytes) : List Command :=
  [moveRelative (some 0) (some (max (unsignedOr 1 s).toInt32 1))]

def csi_C (s : Bytes) : List Command :=
  [moveRelative (some (max (unsignedOr 1 s).toInt32 1)) (some 0)]

def csi_D (s : Bytes) : List Command :=
  [moveRelative (some (-max (unsignedOr 1 s).toInt32 1)) (some 0)]

def csi_E (s : Bytes) : List Command :=
  [moveRelative none (some (unsignedOr 1 s).toInt32), moveAbsolute (some 0) none]

def csi_F (s : Bytes) : List Command :=
  [moveRelative none (some (-(unsignedOr 1 s).toInt32)), moveAbsolute (some 0) none]

def csi_G (s : Bytes) : List Command :=
  match csiParams s with
  | [] => [moveAbsolute (some 0) none]
  | column :: _ => [moveAbsolute (some (zeroBased column)) none]

def csi_H (s : Bytes) : List Command :=
  match csiParams s with
  | [row, column] => [moveAbsolute (some (zeroBased column)) (some (zeroBased row))]
  | _ => [moveAbsolute (some 0) (some 0)]

def csi_a (s : Bytes) : List Command := [moveRelative (some (intOr 1 s)) none]

def csi_d (s : Bytes) : List Command := [moveAbsolute none (some (max (intOr 1 s - 1) 0))]

def csi_e (s : Bytes) : List Command := [moveRelative none (some (intOr 1 s))]

def csi_Accent (s : Bytes) : List Command := [moveAbsolute (some (max (intOr 1 s - 1) 0)) none]

/-! ## Erasing, inserting and deleting -/

def csi_I (s : Bytes) : List Command := [.horizontalTab (unsignedOr 1 s).toInt32]

def csi_Z (s : Bytes) : List Command := [.horizontalTab (-(unsignedOr 1 s).toInt32)]

def csi_J (s : Bytes) : List Command :=
  match (unsignedOr 0 s).toNat with
  | 0 => [.eraseInDisplay .fromCursorToDisplayEnd]
  | 1 => [.eraseInDisplay .fromDisplayStartToCursor]
  | 2 => [.eraseInDisplay .wholeDisplay]
  | 3 => [.eraseInDisplay .wholeDisplayWithScrollback]
  | _ => []

def csi_K (s : Bytes) : List Command :=
  match (unsignedOr 0 s).toNat with
  | 0 => [.eraseInLine .fromCursorToLineEnd]
  | 1 => [.eraseInLine .fromLineStartToCursor]
  | 2 => [.eraseInLine .wholeLine]
  | _ => []

def csi_L (s : Bytes) : List Command := [.insertLines (unsignedOr 1 s)]

def csi_M (s : Bytes) : List Command := [.deleteLines (unsignedOr 1 s)]

def csi_P (s : Bytes) : List Command := [.deleteCharacters (unsignedOr 1 s)]

def csi_S (s : Bytes) : List Command := [.scrollLines (unsignedOr 1 s).toInt32]

def csi_T (s : Bytes) : List Command := [.scrollLines (-(unsignedOr 1 s).toInt32)]

def csi_X (s : Bytes) : List Command := [.eraseCharacters (max (unsignedOr 1 s) 1)]

def csi_b (s : Bytes) : List Command := [.repeatLastCharacter (unsignedOr 1 s)]

def csi_At (s : Bytes) : List Command := [.insertCharacters (intOr 1 s).toUInt32]

/-! ## Modes, attributes and reports -/

def csi_c (s : Bytes) : List Command :=
  if unsignedOr 0 s = 0 then [.report .terminalId] else []

def csi_g (s : Bytes) : List Command :=
  if intOr 0 s = 0 then [.clearTab .currentColumn]
  else if intOr 0 s = 3 then [.clearTab .all]
  else []

def toModeChange (number : UInt32) (dec : Bool) : Option ModeKind :=
  match dec, number.toNat with
  | true, 1 => some .applicationCursorKeys
  | true, 3 => some .column132
  | true, 4 => some .smoothScroll
  | true, 5 => some .reverseVideo
  | true, 6 => some .origin
  | true, 7 => some .autoWrap
  | true, 8 => some .autoRepeatKeys
  | true, 9 => some .sendMouseXYOnPress
  | true, 12 => some .blinkingCursor
  | true, 25 => some .showCursor
  | true, 47 => some .alternateScreenBuffer
  | true, 1000 => some .sendMouseXYOnPressAndRelease
  | true, 1002 => some .sendMouseXYOnPressDragAndRelease
  | true, 1003 => some .sendMouseXYAnyEvent
  | true, 1005 => some .sendMouseReportUFT8
  | true, 1006 => some .sendMouseReportSGR
  | true, 1049 => some .alternateScreenBuffer1049
  | true, 2004 => some .bracketedPaste
  | false, 4 => some .insert
  | false, 20 => some .newLine
  | _, _ => none

def csi_hl (s : Bytes) : List Command :=
  let status := s.getLast? == some 104
  let dec := s.head? == some 63
  let request := if dec then s.drop 1 else s
  (csiParams request).filterMap fun number =>
    (toModeChange number dec).map fun mode => .changeMode { mode, status }

def scImToCharacterAttributes (ps : UInt32) : Option CharacterAttributes :=
  let n := ps.toNat
  if 30 ≤ n ∧ n ≤ 37 then some { mode := .foregroundColor, color := ⟨(n - 30).toUInt8⟩ }
  else if 40 ≤ n ∧ n ≤ 47 then some { mode := .backgroundColor, color := ⟨(n - 40).toUInt8⟩ }
  else if 90 ≤ n ∧ n ≤ 97 then some { mode := .foregroundColor, color := ⟨(n - 90 + 8).toUInt8⟩ }
  else if 100 ≤ n ∧ n ≤ 107 then some { mode := .backgroundColor, color := ⟨(n - 100 + 8).toUInt8⟩ }
  else
    match n with
    | 0 => some { mode := .normal }
    | 1 => some { mode := .bold }
    | 2 => some { mode := .faint }
    | 3 => some { mode := .italicized }
    | 4 => some { mode := .underlined }
    | 5 => some { mode := .blink }
    | 7 => some { mode := .inverse }
    | 8 => some { mode := .invisible }
    | 9 => some { mode := .crossed }
    | 21 => some { mode := .doublyUnderlined }
    | 22 => some { mode := .notBoldNotFaint }
    | 23 => some { mode := .notItalicized }
    | 24 => some { mode := .notUnderlined }
    | 25 => some { mode := .notBlink }
    | 27 => some { mode := .notInverse }
    | 28 => some { mode := .notInvisible }
    | 29 => some { mode := .notCrossed }
    | 39 => some { mode := .foregroundDefault }
    | 49 => some { mode := .backgroundDefault }
    | _ => none

/-- The colour that follows 38 or 48, if it is a proper one. -/
def extendedColor (mode : AttributeKind) : List UInt32 → List Command
  | 5 :: c :: _ =>
    if c < 256 then [.setCharacterAttributes { mode, color := ⟨c.toUInt8⟩ }] else []
  | 2 :: r :: g :: b :: _ =>
    if r < 256 ∧ g < 256 ∧ b < 256 then
      [.setCharacterAttributes { mode, color := .ofRGB r.toUInt8 g.toUInt8 b.toUInt8 }]
    else []
  | _ => []

/-- How many numbers belong to 38 or 48. -/
def extendedColorLength : List UInt32 → Nat
  | 2 :: _ => 4
  | _ => 2

/-- The loop of `CSI_m`; at most as many rounds as there are numbers. -/
def characterAttributes : Nat → List UInt32 → List Command
  | 0, _ => []
  | _, [] => []
  | rounds + 1, ps :: rest =>
    if ps = 38 ∨ ps = 48 then
      extendedColor (if ps = 38 then .foregroundColor else .backgroundColor) rest ++
        characterAttributes rounds (rest.drop (extendedColorLength rest))
    else
      ((scImToCharacterAttributes ps).map Command.setCharacterAttributes).toList ++
        characterAttributes rounds rest

def csi_m (s : Bytes) : List Command :=
  match csiParams s with
  | [] => characterAttributes 1 [0]
  | params => characterAttributes params.length params

def csi_n (s : Bytes) : List Command :=
  match fromCharsInt s with
  | some 5 => [.report .deviceStatus]
  | some 6 => [.report .cursorPosition]
  | _ => []

def csi_q (s : Bytes) : List Command :=
  let params := csiParams s
  if s.length ≥ 2 ∧ s[s.length - 2]? = some 32 then
    let mode := match params with
      | [value] => value.toNat
      | _ => 0
    [.setCursorStyle (match mode with
      | 1 => some .blinkingBlock
      | 2 => some .steadyBlock
      | 3 => some .blinkingUnderline
      | 4 => some .steadyUnderline
      | 5 => some .blinkingBar
      | 6 => some .steadyBar
      | _ => none)]
  else []

def csi_r (s : Bytes) : List Command :=
  match csiParams s with
  | [] => [.setScrollingRegion none]
  | [first, last] =>
    if first ≥ 1 ∧ last ≥ 1 ∧ last > first then
      [.setScrollingRegion (some { top := (first - 1).toInt32, bottom := last.toInt32 })]
    else [.setScrollingRegion none]
  | _ => []

def composeWindowTitleManipulation (ps pt : UInt32) : Option TitleManipulation := do
  let operation ← if ps = 22 then some .save else if ps = 23 then some .restore else none
  let target ←
    if pt = 0 then some .both else if pt = 1 then some .icon else if pt = 2 then some .window else none
  return { target, operation }

def csi_t (s : Bytes) : List Command :=
  match csiParams s with
  | [ps, pt] => ((composeWindowTitleManipulation ps pt).map Command.manipulateTitle).toList
  | _ => []

/-- `SSCSISubmit`. -/
def csiCommands (buffer : Bytes) : List Command :=
  match buffer.getLast?.map fun c => Char.ofNat c.toNat with
  | some 'A' => csi_A buffer
  | some 'B' => csi_B buffer
  | some 'C' => csi_C buffer
  | some 'D' => csi_D buffer
  | some 'E' => csi_E buffer
  | some 'F' => csi_F buffer
  | some 'G' => csi_G buffer
  | some 'H' => csi_H buffer
  | some 'I' => csi_I buffer
  | some 'J' => csi_J buffer
  | some 'K' => csi_K buffer
  | some 'L' => csi_L buffer
  | some 'M' => csi_M buffer
  | some 'P' => csi_P buffer
  | some 'S' => csi_S buffer
  | some 'T' => csi_T buffer
  | some 'X' => csi_X buffer
  | some 'Z' => csi_Z buffer
  | some 'a' => csi_a buffer
  | some 'b' => csi_b buffer
  | some 'c' => csi_c buffer
  | some 'd' => csi_d buffer
  | some 'e' => csi_e buffer
  | some 'f' => csi_H buffer
  | some 'g' => csi_g buffer
  | some 'h' => csi_hl buffer
  | some 'l' => csi_hl buffer
  | some 'm' => csi_m buffer
  | some 'n' => csi_n buffer
  | some 'q' => csi_q buffer
  | some 'r' => csi_r buffer
  | some 't' => csi_t buffer
  | some '\x60' => csi_Accent buffer
  | some '@' => csi_At buffer
  | _ => []

/-! ## The other sequences -/

/-- `SSOSCSubmit`: `Ps ; Pt`, where `Ps` tells which title is set. -/
def oscCommands (buffer : Bytes) : List Command :=
  match buffer.span (· != 59) with
  | (_, []) => []
  | (ps, _ :: title) =>
    match fromCharsUnsigned ps with
    | some (0, _) => [.changeTitle { kind := .iconAndWindow, title }]
    | some (1, _) => [.changeTitle { kind := .icon, title }]
    | some (2, _) => [.changeTitle { kind := .window, title }]
    | _ => []

def dcsTarget (c : UInt8) : Option Nat :=
  match Char.ofNat c.toNat with
  | '(' => some 0
  | ')' => some 1
  | '*' => some 2
  | '+' => some 3
  | _ => none

def dcsSet (str : Bytes) : Option CharacterSet :=
  if str = ascii "0" then some .decSpecialGraphics
  else if str = ascii "1" then some .alternateCharacterROMStandardCharacters
  else if str = ascii "2" then some .alternateCharacterROMSpecialGraphics
  else if str = ascii "A" then some .uk
  else if str = ascii "B" then some .usascii
  else none

/-- `SSDCSExit`. -/
def dcsCommands (buffer : Bytes) : List Command :=
  match buffer with
  | front :: rest =>
    if rest = [] then []
    else
      match dcsTarget front, dcsSet rest with
      | some target, some set => [.designateCharacterSet { target, set }]
      | _, _ => []
  | [] => []

end WinCommander.Term
