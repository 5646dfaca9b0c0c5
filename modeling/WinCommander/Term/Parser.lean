/-
  `ParserImpl`: a terminal's input, byte by byte.

  A sub-state consumes a byte, or switches to another one that has to. What a sub-state puts out
  when it is left depends on its own buffer alone.
-/
import WinCommander.Term.ControlSequences

namespace WinCommander.Term

open Library

inductive EscState where
  | text | control | esc | osc | csi | dcs
deriving DecidableEq

/-- `UTF8CharsStockSize`. -/
def stockSize : Nat := 16384

structure Parser where
  subState : EscState := .text
  hash : Bool := false
  /-- The first `UTF8StockLen` bytes of the stock. -/
  stock : Bytes := []
  oscBuffer : Bytes := []
  gotEsc : Bool := false
  csiBuffer : Bytes := []
  dcsBuffer : Bytes := []
  output : List Command := []
deriving DecidableEq

namespace Parser

def put (parser : Parser) (commands : List Command) : Parser :=
  { parser with output := parser.output ++ commands }

/-! ## Text -/

/-- The command for some text, when there is any. -/
def textCommands (characters : Bytes) : List Command :=
  if characters = [] then [] else [.text characters]

def flushAllText (parser : Parser) : Parser :=
  { parser with output := parser.output ++ textCommands parser.stock, stock := [] }

/-- `ScanUTF8ForValidSequenceLength`: how much of the input is complete and valid. -/
def scanUTF8 (expected pending length : Nat) : Bytes → Nat
  | [] => length
  | c :: rest =>
    if c > 0x7F then
      match expected with
      | expected + 1 =>
        if c &&& 0xC0 = 0x80 then
          if expected = 0 then scanUTF8 0 0 (length + pending + 2) rest
          else scanUTF8 expected (pending + 1) length rest
        else length
      | 0 =>
        if c &&& 0xE0 = 0xC0 then scanUTF8 1 pending length rest
        else if c &&& 0xF0 = 0xE0 then scanUTF8 2 pending length rest
        else if c &&& 0xF8 = 0xF0 then scanUTF8 3 pending length rest
        else length
    else if expected ≠ 0 then length
    else scanUTF8 0 pending (length + 1) rest

def scanUTF8ForValidSequenceLength (input : Bytes) : Nat := scanUTF8 0 0 0 input

def flushCompleteText (parser : Parser) : Parser :=
  let validLength := scanUTF8ForValidSequenceLength parser.stock
  { parser with
    output := parser.output ++ textCommands (parser.stock.take validLength),
    stock := parser.stock.drop validLength }

/-- A byte for which there is no room is dropped. -/
def consumeNextUTF8TextChar (parser : Parser) (byte : UInt8) : Parser :=
  if parser.stock.length < stockSize then { parser with stock := parser.stock ++ [byte] } else parser

/-! ## Switching -/

def exitState (parser : Parser) : Parser :=
  match parser.subState with
  | .text => parser.flushAllText
  | .osc => parser.put (oscCommands parser.oscBuffer)
  | .csi => parser.put (csiCommands parser.csiBuffer)
  | .dcs => parser.put (dcsCommands parser.dcsBuffer)
  | .control | .esc => parser

def enterState (parser : Parser) : Parser :=
  match parser.subState with
  | .text => { parser with stock := [] }
  | .esc => { parser with hash := false }
  | .osc => { parser with oscBuffer := [], gotEsc := false }
  | .csi => { parser with csiBuffer := [] }
  | .dcs => { parser with dcsBuffer := [] }
  | .control => parser

def switchTo (parser : Parser) (state : EscState) : Parser :=
  if parser.subState = state then parser
  else { parser.exitState with subState := state }.enterState

/-! ## Sub-states -/

/-- What a sub-state leaves, and whether it took the byte. -/
abbrev Consumed := Parser × Bool

def textConsume (parser : Parser) (byte : UInt8) : Consumed :=
  if byte < 32 then (parser.switchTo .control, false)
  else (parser.consumeNextUTF8TextChar byte, true)

/-- The commands of the control characters other than ESC. -/
def controlCommands (byte : UInt8) : List Command :=
  match byte.toNat with
  | 7 => [.bell]
  | 8 => [.backSpace]
  | 9 => [.horizontalTab 1]
  | 10 | 11 | 12 => [.lineFeed]
  | 13 => [.carriageReturn]
  | 14 => [.selectCharacterSet 1]
  | 15 => [.selectCharacterSet 0]
  | _ => []

def controlConsume (parser : Parser) (byte : UInt8) : Consumed :=
  if byte < 32 then
    if byte = 27 then (parser.switchTo .esc, true)
    else ((parser.switchTo .text).put (controlCommands byte), true)
  else (parser.switchTo .text, false)

/-- The commands of the sequences that are one character long. -/
def escCommands (hash : Bool) (byte : UInt8) : List Command :=
  match Char.ofNat byte.toNat with
  | '7' => [.saveState]
  | '8' => if hash then [.screenAlignmentTest] else [.restoreState]
  | 'D' => [.lineFeed]
  | 'E' => [.carriageReturn, .lineFeed]
  | 'H' => [.setTab]
  | 'M' => [.reverseIndex]
  | 'c' => [.reset]
  | _ => []

def escConsume (parser : Parser) (byte : UInt8) : Consumed :=
  if byte = 35 then ({ parser with hash := true }, true)
  else
    let parser := parser.switchTo .text
    if byte = 91 then (parser.switchTo .csi, true)
    else if byte = 93 then (parser.switchTo .osc, true)
    else if 40 ≤ byte ∧ byte ≤ 43 then (parser.switchTo .dcs, false)
    else (parser.put (escCommands parser.hash byte), true)

/-- A sequence that is discarded is left with an empty buffer. -/
def oscConsume (parser : Parser) (byte : UInt8) : Consumed :=
  if parser.gotEsc then
    let parser := if byte ≠ 92 then { parser with oscBuffer := [] } else parser
    (parser.switchTo .text, true)
  else if byte ≥ 32 then ({ parser with oscBuffer := parser.oscBuffer ++ [byte] }, true)
  else if byte = 7 then (parser.switchTo .text, true)
  else if byte = 27 then ({ parser with gotEsc := true }, true)
  else ({ parser with oscBuffer := [] }.switchTo .text, true)

/-- `SSOSCConsumeControl`: control characters within a control sequence. -/
def csiControlCommands (byte : UInt8) : List Command :=
  match byte.toNat with
  | 8 => [.backSpace]
  | 10 | 11 | 12 => [.lineFeed]
  | 13 => [.carriageReturn]
  | _ => []

def csiValidTerminal (byte : UInt8) : Bool :=
  (ascii "@ABCDEFGHIJKLMPSTXZ^\x60abcdefghilmnpqrstuvwxyz\x7b|\x7d~").contains byte

def csiValidContents (byte : UInt8) : Bool := (ascii "01234567890; ?>=!\"'$#*").contains byte

def csiConsume (parser : Parser) (byte : UInt8) : Consumed :=
  if byte < 32 then (parser.put (csiControlCommands byte), true)
  else if csiValidContents byte then ({ parser with csiBuffer := parser.csiBuffer ++ [byte] }, true)
  else if csiValidTerminal byte then
    ({ parser with csiBuffer := parser.csiBuffer ++ [byte] }.switchTo .text, true)
  else ({ parser with csiBuffer := [] }.switchTo .text, false)

def dcsValidTerminal (byte : UInt8) : Bool := (ascii "?=<>012345679ABCEHKQRfYZ").contains byte

def dcsValidContents (byte : UInt8) : Bool := (ascii "()*+\"%\x60&").contains byte

def dcsConsume (parser : Parser) (byte : UInt8) : Consumed :=
  if dcsValidContents byte then ({ parser with dcsBuffer := parser.dcsBuffer ++ [byte] }, true)
  else if dcsValidTerminal byte then
    ({ parser with dcsBuffer := parser.dcsBuffer ++ [byte] }.switchTo .text, true)
  else ({ parser with dcsBuffer := [] }.switchTo .text, false)

def consume (parser : Parser) (byte : UInt8) : Consumed :=
  match parser.subState with
  | .text => parser.textConsume byte
  | .control => parser.controlConsume byte
  | .esc => parser.escConsume byte
  | .osc => parser.oscConsume byte
  | .csi => parser.csiConsume byte
  | .dcs => parser.dcsConsume byte

/-! ## Parsing -/

/-- The loop of `EatByte`; no byte is refused more than twice. -/
def eatRounds : Nat → Parser → UInt8 → Consumed
  | 0, parser, byte => parser.consume byte
  | rounds + 1, parser, byte =>
    match parser.consume byte with
    | (parser, true) => (parser, true)
    | (parser, false) => eatRounds rounds parser byte

def eatByte (parser : Parser) (byte : UInt8) : Parser := (eatRounds 2 parser byte).1

def eat (parser : Parser) (bytes : Bytes) : Parser := bytes.foldl eatByte parser

/-- `Parse`: the commands are handed out. -/
def parse (parser : Parser) (bytes : Bytes) : Parser × List Command :=
  let parser := (parser.eat bytes).flushCompleteText
  ({ parser with output := [] }, parser.output)

/-- Successive calls, and all commands they returned. -/
def parseAll (parser : Parser) : List Bytes → Parser × List Command
  | [] => (parser, [])
  | chunk :: chunks =>
    let (parser, commands) := parser.parse chunk
    let (parser, rest) := parseAll parser chunks
    (parser, commands ++ rest)

end Parser

end WinCommander.Term
