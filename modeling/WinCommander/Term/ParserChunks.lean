/-
  Parsing and how the input is cut into reads.

  A byte adds the same pieces whatever stands in the stock, unless it is text that finds the
  stock full (`eatByte_room`, `eatByte_no_room`), and handing out what is complete changes no
  piece (`flushCompleteText_facts`). So a parser that has room makes the same of every cut.
-/
import WinCommander.Term.Pieces

namespace WinCommander.Term

open Library List Nat Parser

/-! ## What a byte adds -/

namespace Parser

/-- The parser with some commands put out before its own. -/
def after (parser : Parser) (commands : List Command) : Parser :=
  { parser with output := commands ++ parser.output }

/-- All but the text and the commands. -/
def control (parser : Parser) : Parser := { parser with stock := [], output := [] }

@[simp] theorem after_put (parser : Parser) (commands more : List Command) :
    (parser.after commands).put more = (parser.put more).after commands := by
  simp [after, put]

@[simp] theorem after_switchTo (parser : Parser) (commands : List Command) (state : EscState) :
    (parser.after commands).switchTo state = (parser.switchTo state).after commands := by
  obtain ⟨subState, hash, stock, oscBuffer, gotEsc, csiBuffer, dcsBuffer, output⟩ := parser
  cases subState <;> cases state <;>
    simp [switchTo, exitState, enterState, flushAllText, put, after]

/-- A sub-state's answer with some commands put out before. -/
def Consumed.after (consumed : Consumed) (commands : List Command) : Consumed :=
  (consumed.1.after commands, consumed.2)

section
variable (parser : Parser)
include parser

theorem after_switch (commands : List Command) (state : EscState) (took : Bool) :
    ((parser.after commands).switchTo state, took) =
      Consumed.after (parser.switchTo state, took) commands := by
  rw [after_switchTo]
  rfl

theorem after_textConsume (commands : List Command) (byte : UInt8) :
    (parser.after commands).textConsume byte = (parser.textConsume byte).after commands := by
  unfold textConsume
  split
  · exact after_switch _ _ _ _
  · unfold consumeNextUTF8TextChar
    rw [show (parser.after commands).stock = parser.stock from rfl]
    split <;> rfl

theorem after_controlConsume (commands : List Command) (byte : UInt8) :
    (parser.after commands).controlConsume byte = (parser.controlConsume byte).after commands := by
  unfold controlConsume
  split
  · split
    · exact after_switch _ _ _ _
    · rw [after_switchTo, after_put]
      rfl
  · exact after_switch _ _ _ _

theorem after_escConsume (commands : List Command) (byte : UInt8) :
    (parser.after commands).escConsume byte = (parser.escConsume byte).after commands := by
  simp only [escConsume, after_switchTo, after_put]
  split
  · rfl
  · split
    · rfl
    · split
      · rfl
      · split <;> rfl

theorem after_oscConsume (commands : List Command) (byte : UInt8) :
    (parser.after commands).oscConsume byte = (parser.oscConsume byte).after commands := by
  unfold oscConsume
  rw [show (parser.after commands).gotEsc = parser.gotEsc from rfl]
  split
  · by_cases h : byte ≠ 92
    · rw [if_pos h, if_pos h]
      exact after_switch { parser with oscBuffer := [] } _ _ _
    · rw [if_neg h, if_neg h]
      exact after_switch parser _ _ _
  · split
    · rfl
    · split
      · exact after_switch parser _ _ _
      · split
        · rfl
        · exact after_switch { parser with oscBuffer := [] } _ _ _

theorem after_csiConsume (commands : List Command) (byte : UInt8) :
    (parser.after commands).csiConsume byte = (parser.csiConsume byte).after commands := by
  unfold csiConsume
  split
  · rw [after_put]
    rfl
  · split
    · rfl
    · split
      · exact after_switch { parser with csiBuffer := parser.csiBuffer ++ [byte] } _ _ _
      · exact after_switch { parser with csiBuffer := [] } _ _ _

theorem after_dcsConsume (commands : List Command) (byte : UInt8) :
    (parser.after commands).dcsConsume byte = (parser.dcsConsume byte).after commands := by
  unfold dcsConsume
  split
  · rfl
  · split
    · exact after_switch { parser with dcsBuffer := parser.dcsBuffer ++ [byte] } _ _ _
    · exact after_switch { parser with dcsBuffer := [] } _ _ _

/-- What a sub-state does with a byte does not depend on what was put out before. -/
theorem after_consume (commands : List Command) (byte : UInt8) :
    (parser.after commands).consume byte = (parser.consume byte).after commands := by
  unfold consume
  rw [show (parser.after commands).subState = parser.subState from rfl]
  split
  · exact after_textConsume parser commands byte
  · exact after_controlConsume parser commands byte
  · exact after_escConsume parser commands byte
  · exact after_oscConsume parser commands byte
  · exact after_csiConsume parser commands byte
  · exact after_dcsConsume parser commands byte

end

variable (rounds : Nat)

theorem after_eatRounds (parser : Parser) (commands : List Command) (byte : UInt8) :
    eatRounds rounds (parser.after commands) byte = (eatRounds rounds parser byte).after commands := by
  induction rounds generalizing parser with
  | zero => exact after_consume parser commands byte
  | succ rounds ih =>
    unfold eatRounds
    rw [after_consume]
    rcases parser.consume byte with ⟨next, took⟩
    cases took with
    | true => rfl
    | false => exact ih next

variable {byte : UInt8} {parser : Parser}

theorem eatRounds_taken {parser next : Parser} (h : parser.consume byte = (next, true)) :
    eatRounds rounds parser byte = (next, true) := by
  unfold eatRounds
  split
  · exact h
  · rw [h]

theorem eatRounds_refused {parser next : Parser} (h : parser.consume byte = (next, false)) :
    eatRounds (rounds + 1) parser byte = eatRounds rounds next byte := by
  rw [eatRounds, h]

theorem consume_text_of_lt (htext : parser.subState = .text) (hlt : byte < 32) :
    parser.consume byte = (parser.switchTo .control, false) := by
  unfold consume textConsume
  rw [htext]
  exact if_pos hlt

/-- Nothing is in the stock unless text is read. -/
def Steady (parser : Parser) : Prop := parser.subState ≠ .text → parser.stock = []

/-- A byte other than further text makes the stock a command, and adds what it adds to an empty
parser. -/
theorem eatByte_eq_after (parser : Parser) (byte : UInt8) (hsteady : parser.Steady)
    (hbyte : parser.subState = .text → byte < 32) : parser.eatByte byte =
      (parser.control.eatByte byte).after (parser.output ++ textCommands parser.stock) := by
  by_cases htext : parser.subState = .text
  · have hlt : byte < 32 := hbyte htext
    have hconsume (p : Parser) (h : p.subState = .text) :
        p.eatByte byte = (eatRounds 1 (p.switchTo .control) byte).1 :=
      congrArg Prod.fst (eatRounds_refused 1 (consume_text_of_lt h hlt))
    have hswitch : parser.switchTo .control =
        (parser.control.switchTo .control).after (parser.output ++ textCommands parser.stock) := by
      obtain ⟨subState, hash, stock, oscBuffer, gotEsc, csiBuffer, dcsBuffer, output⟩ := parser
      obtain rfl : subState = .text := htext
      simp [control, switchTo, exitState, enterState, flushAllText, after, textCommands]
    rw [hconsume parser htext, hconsume parser.control htext, hswitch, after_eatRounds]
    rfl
  · have hstock : parser.stock = [] := hsteady htext
    have hafter : parser = parser.control.after parser.output := by
      unfold control after
      rw [← hstock]
      simp
    rw [hstock, show textCommands [] = [] from rfl, append_nil]
    conv => lhs; rw [hafter]
    exact congrArg Prod.fst (after_eatRounds _ _ _ _)

/-! ## Text bytes -/

/-- Whether a byte is read as text where the parser stands. -/
def isText (parser : Parser) (byte : UInt8) : Bool :=
  match parser.subState with
  | .text | .control => 32 ≤ byte
  | .esc | .osc => false
  | .csi => 32 ≤ byte && !csiValidContents byte && !csiValidTerminal byte
  | .dcs => 32 ≤ byte && !dcsValidContents byte && !dcsValidTerminal byte

theorem eatByte_text (htext : parser.subState = .text) (hbyte : 32 ≤ byte) :
    parser.eatByte byte = parser.consumeNextUTF8TextChar byte := by
  have hconsume : parser.consume byte = (parser.consumeNextUTF8TextChar byte, true) := by
    unfold consume textConsume
    rw [htext]
    exact if_neg (UInt8.not_lt.mpr hbyte)
  exact congrArg Prod.fst (eatRounds_taken 2 hconsume)

/-- No text is in the stock or was put out. -/
def Clean (parser : Parser) : Prop := parser.stock = [] ∧ textOf parser.output = []

theorem Clean.put (h : parser.Clean) {commands : List Command} (hcommands : textOf commands = []) :
    (parser.put commands).Clean := by
  refine ⟨h.1, ?_⟩
  unfold Parser.put
  rw [textOf_append, h.2, hcommands]
  rfl

theorem Clean.switchTo (h : parser.Clean) (state : EscState) : (parser.switchTo state).Clean := by
  have hexit : parser.exitState.Clean := by
    unfold exitState
    split
    · unfold flushAllText
      rw [h.1]
      exact ⟨rfl, by rw [textOf_append, h.2]; rfl⟩
    · exact h.put (textOf_oscCommands _)
    · exact h.put (textOf_csiCommands _)
    · exact h.put (textOf_dcsCommands _)
    · exact h
    · exact h
  unfold Parser.switchTo
  split
  · exact h
  · cases state with
    | text => exact ⟨rfl, hexit.2⟩
    | control => exact hexit
    | esc => exact hexit
    | osc => exact hexit
    | csi => exact hexit
    | dcs => exact hexit

@[simp] theorem subState_switchTo (parser : Parser) (state : EscState) :
    (parser.switchTo state).subState = state := by
  unfold switchTo
  split
  · assumption
  · cases state <;> rfl

/-- The byte is taken within some rounds, and the text that is then in the stock. -/
def Takes (rounds : Nat) (parser : Parser) (byte : UInt8) (stock : Bytes) : Prop :=
  ∃ next : Parser, eatRounds rounds parser byte = (next, true) ∧ next.stock = stock ∧
    textOf next.output = [] ∧ next.Steady

theorem Clean.takes {parser next : Parser} (hnext : next.Clean)
    (h : parser.consume byte = (next, true)) : Takes rounds parser byte [] :=
  ⟨next, eatRounds_taken rounds h, hnext.1, hnext.2, fun _ => hnext.1⟩

theorem Takes.of_refused {parser next : Parser} {rounds : Nat} {stock : Bytes}
    (h : parser.consume byte = (next, false)) (hnext : Takes rounds next byte stock) :
    Takes (rounds + 1) parser byte stock := by
  obtain ⟨last, heat, hlast⟩ := hnext
  exact ⟨last, (eatRounds_refused rounds h).trans heat, hlast⟩

theorem textOf_controlCommands (byte : UInt8) : textOf (controlCommands byte) = [] := by
  unfold controlCommands
  split <;> rfl

theorem textOf_csiControlCommands (byte : UInt8) : textOf (csiControlCommands byte) = [] := by
  unfold csiControlCommands
  split <;> rfl

theorem textOf_escCommands (hash : Bool) (byte : UInt8) : textOf (escCommands hash byte) = [] := by
  unfold escCommands
  split
  case h_2 => split <;> rfl
  all_goals rfl

theorem takes_control (h : parser.Clean) (hstate : parser.subState = .control) (hbyte : byte < 32) :
    Takes rounds parser byte [] := by
  by_cases hesc : byte = 27
  · refine (h.switchTo .esc).takes rounds ?_
    unfold consume controlConsume
    rw [hstate]
    exact (if_pos hbyte).trans (if_pos hesc)
  · refine ((h.switchTo .text).put (textOf_controlCommands byte)).takes rounds ?_
    unfold consume controlConsume
    rw [hstate]
    simp [hbyte, hesc]

theorem takes_text (h : parser.Clean) (hstate : parser.subState = .text) :
    Takes (rounds + 1) parser byte (if 32 ≤ byte then [byte] else []) := by
  by_cases hbyte : 32 ≤ byte
  · rw [if_pos hbyte]
    have hconsume : parser.consume byte = ({ parser with stock := [byte] }, true) := by
      unfold consume textConsume consumeNextUTF8TextChar
      rw [hstate, h.1]
      exact if_neg (UInt8.not_lt.mpr hbyte)
    exact ⟨_, eatRounds_taken _ hconsume, rfl, h.2, fun hne => absurd hstate hne⟩
  · rw [if_neg hbyte]
    have hlt : byte < 32 := UInt8.not_le.mp hbyte
    exact Takes.of_refused (consume_text_of_lt hstate hlt)
      (takes_control rounds (h.switchTo .control) (subState_switchTo _ _) hlt)

/-- With an empty stock: a byte of text is put into it, another one makes commands. -/
theorem takes_of_clean (parser : Parser) (byte : UInt8) (h : parser.Clean) :
    Takes 2 parser byte (if parser.isText byte then [byte] else []) := by
  unfold isText
  cases hstate : parser.subState with
  | text => simpa using takes_text 1 h hstate
  | control =>
    by_cases hbyte : byte < 32
    · have hle : ¬ 32 ≤ byte := UInt8.not_le.mpr hbyte
      simpa [hle] using takes_control 2 h hstate hbyte
    · have hconsume : parser.consume byte = (parser.switchTo .text, false) := by
        unfold consume controlConsume
        rw [hstate]
        exact if_neg hbyte
      simpa using Takes.of_refused hconsume
        (takes_text 0 (h.switchTo .text) (subState_switchTo _ _))
  | esc =>
    have hclean : (parser.switchTo .text).Clean := h.switchTo .text
    by_cases hhash : byte = 35
    · have hnext : { parser with hash := true }.Clean := h
      refine hnext.takes 2 ?_
      unfold consume escConsume
      rw [hstate]
      exact if_pos hhash
    · by_cases hdcs : 40 ≤ byte ∧ byte ≤ 43
      · -- the four characters that start a designation are contents of it
        have hcontents : dcsValidContents byte := by
          have hall : ∀ b : Fin 256, 40 ≤ b.val → b.val ≤ 43 → dcsValidContents (UInt8.ofNat b) := by
            decide +kernel
          have hbyte := hall ⟨byte.toNat, byte.toNat_lt⟩ hdcs.1 hdcs.2
          rwa [UInt8.ofNat_toNat] at hbyte
        have hnotCsi : byte ≠ 91 := fun heq => absurd hdcs.2 (by rw [heq]; decide)
        have hnotOsc : byte ≠ 93 := fun heq => absurd hdcs.2 (by rw [heq]; decide)
        have hconsume : parser.consume byte = ((parser.switchTo .text).switchTo .dcs, false) := by
          unfold consume escConsume
          rw [hstate]
          simp [hhash, hnotCsi, hnotOsc, hdcs, and_self]
        have hdcsClean := hclean.switchTo .dcs
        have hnext : { (parser.switchTo .text).switchTo .dcs with
            dcsBuffer := ((parser.switchTo .text).switchTo .dcs).dcsBuffer ++ [byte] }.Clean :=
          hdcsClean
        have hdcsConsume : ((parser.switchTo .text).switchTo .dcs).consume byte =
            ((parser.switchTo .text).switchTo .dcs).dcsConsume byte := by
          unfold consume
          rw [subState_switchTo]
        refine Takes.of_refused hconsume (hnext.takes 1 (hdcsConsume.trans ?_))
        exact if_pos hcontents
      · have hconsume : ∃ next : Parser, parser.consume byte = (next, true) ∧ next.Clean := by
          unfold consume escConsume
          rw [hstate]
          simp only [hhash, hdcs, if_false]
          split
          · exact ⟨_, rfl, hclean.switchTo .csi⟩
          · split
            · exact ⟨_, rfl, hclean.switchTo .osc⟩
            · exact ⟨_, rfl, hclean.put (textOf_escCommands _ _)⟩
        obtain ⟨next, hconsume, hnext⟩ := hconsume
        exact hnext.takes 2 hconsume
  | osc =>
    have hbuffer (buffer : Bytes) : { parser with oscBuffer := buffer }.Clean := h
    have hosc : parser.consume byte = parser.oscConsume byte := by
      unfold consume
      rw [hstate]
    have hconsume : ∃ next : Parser, parser.consume byte = (next, true) ∧ next.Clean := by
      rw [hosc]
      unfold oscConsume
      split
      · split
        · exact ⟨_, rfl, (hbuffer []).switchTo .text⟩
        · exact ⟨_, rfl, h.switchTo .text⟩
      · split
        · exact ⟨_, rfl, hbuffer _⟩
        · split
          · exact ⟨_, rfl, h.switchTo .text⟩
          · split
            · exact ⟨{ parser with gotEsc := true }, rfl, h⟩
            · exact ⟨_, rfl, (hbuffer []).switchTo .text⟩
    obtain ⟨next, hconsume, hnext⟩ := hconsume
    exact hnext.takes 2 hconsume
  | csi =>
    have hbuffer (buffer : Bytes) : { parser with csiBuffer := buffer }.Clean := h
    have hcsi : parser.consume byte = parser.csiConsume byte := by
      unfold consume
      rw [hstate]
    by_cases hbyte : byte < 32
    · have hle : ¬ 32 ≤ byte := UInt8.not_le.mpr hbyte
      simp only [hle, decide_false, Bool.false_and, Bool.false_eq_true, if_false]
      exact (h.put (textOf_csiControlCommands byte)).takes 2 (hcsi.trans (if_pos hbyte))
    · have hle : 32 ≤ byte := UInt8.not_lt.mp hbyte
      unfold csiConsume at hcsi
      rw [if_neg hbyte] at hcsi
      by_cases hcontents : csiValidContents byte
      · rw [if_pos hcontents] at hcsi
        simpa [hcontents] using (hbuffer _).takes 2 hcsi
      · by_cases hterminal : csiValidTerminal byte
        · rw [if_neg hcontents, if_pos hterminal] at hcsi
          simpa [hterminal] using ((hbuffer _).switchTo .text).takes 2 hcsi
        · rw [if_neg hcontents, if_neg hterminal] at hcsi
          simpa [hle, hcontents, hterminal] using Takes.of_refused hcsi
            (takes_text 0 ((hbuffer []).switchTo .text) (subState_switchTo _ _))
  | dcs =>
    have hbuffer (buffer : Bytes) : { parser with dcsBuffer := buffer }.Clean := h
    have hdcs : parser.consume byte = parser.dcsConsume byte := by
      unfold consume
      rw [hstate]
    unfold dcsConsume at hdcs
    by_cases hcontents : dcsValidContents byte
    · rw [if_pos hcontents] at hdcs
      simpa [hcontents] using (hbuffer _).takes 2 hdcs
    · by_cases hterminal : dcsValidTerminal byte
      · rw [if_neg hcontents, if_pos hterminal] at hdcs
        simpa [hterminal] using ((hbuffer _).switchTo .text).takes 2 hdcs
      · rw [if_neg hcontents, if_neg hterminal] at hdcs
        simpa [hcontents, hterminal] using Takes.of_refused hdcs
          (takes_text 0 ((hbuffer []).switchTo .text) (subState_switchTo _ _))

/-! ## Pieces -/

/-- What was put out and what will be, in pieces. -/
def piecesSoFar (parser : Parser) : List Piece := pieces parser.output ++ parser.stock.map Sum.inl

/-- What a byte adds when there is room for it. -/
def added (parser : Parser) (byte : UInt8) : List Piece := (parser.control.eatByte byte).piecesSoFar

/-- Whether there is room for the byte if it is text. -/
def Room (parser : Parser) (byte : UInt8) : Prop :=
  parser.isText byte → parser.stock.length < stockSize

theorem control_clean (parser : Parser) : parser.control.Clean := ⟨rfl, rfl⟩

theorem stripped_takes (parser : Parser) (byte : UInt8) :
    (parser.control.eatByte byte).stock = (if parser.isText byte then [byte] else []) ∧
      textOf (parser.control.eatByte byte).output = [] ∧ (parser.control.eatByte byte).Steady := by
  obtain ⟨next, heat, hnext⟩ := takes_of_clean parser.control byte parser.control_clean
  have hnextEq : parser.control.eatByte byte = next := congrArg Prod.fst heat
  rw [hnextEq]
  exact hnext

theorem not_isText_of_lt (h : byte < 32) : parser.isText byte = false := by
  have hle : ¬ 32 ≤ byte := UInt8.not_le.mpr h
  unfold isText
  split <;> simp [hle]

/-- Where the parser stands after a byte. -/
def stand (parser : Parser) (byte : UInt8) : Parser := (parser.control.eatByte byte).control

/-- With room, a byte adds to the stock or empties it, and adds its pieces. -/
theorem eatByte_room (hsteady : parser.Steady) (hroom : parser.Room byte) :
    (parser.eatByte byte).piecesSoFar = parser.piecesSoFar ++ parser.added byte ∧
      (parser.eatByte byte).control = parser.stand byte ∧ (parser.eatByte byte).Steady ∧
      (parser.eatByte byte).stock.length = (if parser.isText byte then parser.stock.length + 1 else 0) := by
  obtain ⟨hstock, htextOf, hsteady'⟩ := stripped_takes parser byte
  by_cases hfurther : parser.subState = .text ∧ 32 ≤ byte
  · obtain ⟨htext, hbyte⟩ := hfurther
    have hisText : parser.isText byte := by
      unfold isText
      rw [htext]
      exact decide_eq_true hbyte
    have heat : parser.eatByte byte = { parser with stock := parser.stock ++ [byte] } :=
      (eatByte_text htext hbyte).trans (if_pos (hroom hisText))
    have htextControl : parser.control.subState = .text := htext
    have heatControl : parser.control.eatByte byte = { parser.control with stock := [byte] } :=
      (eatByte_text htextControl hbyte).trans (if_pos (by decide : ([] : Bytes).length < stockSize))
    rw [if_pos hisText]
    unfold added stand
    rw [heat, heatControl]
    refine ⟨?_, rfl, fun hne => absurd htext hne, length_append⟩
    simp [piecesSoFar, control]
  · have hbyte (htext : parser.subState = .text) : byte < 32 :=
      UInt8.not_le.mp fun hle => hfurther ⟨htext, hle⟩
    have hlength : (parser.control.eatByte byte).stock.length =
        if parser.isText byte then parser.stock.length + 1 else 0 := by
      rw [hstock]
      by_cases hisText : parser.isText byte
      · have hne : parser.subState ≠ .text := fun htext => by
          rw [not_isText_of_lt (hbyte htext)] at hisText
          cases hisText
        rw [if_pos hisText, if_pos hisText, hsteady hne]
        rfl
      · rw [if_neg hisText, if_neg hisText]
        rfl
    rw [eatByte_eq_after parser byte hsteady hbyte]
    refine ⟨?_, rfl, hsteady', hlength⟩
    simp [added, piecesSoFar, after]

/-- Without room, nothing happens: the byte is lost. -/
theorem eatByte_no_room (hsteady : parser.Steady) (hroom : ¬ parser.Room byte) :
    parser.eatByte byte = parser ∧ parser.control = parser.stand byte ∧ parser.isText byte := by
  obtain ⟨hisText, hfull⟩ := Classical.not_imp.mp hroom
  have htext : parser.subState = .text := by
    by_contra hne
    rw [hsteady hne] at hfull
    exact hfull (by decide)
  have hbyte : 32 ≤ byte := by
    by_contra hlt
    rw [not_isText_of_lt (UInt8.not_le.mp hlt)] at hisText
    cases hisText
  have htextControl : parser.control.subState = .text := htext
  refine ⟨(eatByte_text htext hbyte).trans (if_neg hfull), ?_, hisText⟩
  unfold stand
  rw [eatByte_text htextControl hbyte]
  rfl

/-! ## Runs -/

/-- The bytes of an input that are read as text. -/
def textBytesFrom (parser : Parser) : Bytes → Bytes
  | [] => []
  | byte :: rest => (if parser.isText byte then [byte] else []) ++ textBytesFrom (parser.stand byte) rest

/-- How many bytes in a row were read as text, when a byte follows. -/
def runWith (parser : Parser) (run : Nat) (byte : UInt8) : Nat :=
  if parser.isText byte then run + 1 else 0

def runAfter (parser : Parser) (run : Nat) : Bytes → Nat
  | [] => run
  | byte :: rest => runAfter (parser.stand byte) (parser.runWith run byte) rest

/-- Whether no more bytes in a row are read as text than the stock has room for. -/
def RunsFit (parser : Parser) (run : Nat) : Bytes → Prop
  | [] => True
  | byte :: rest =>
    (parser.isText byte → run < stockSize) ∧
      RunsFit (parser.stand byte) (parser.runWith run byte) rest

/-- The pieces of an input none of which is lost. -/
def addedBy (parser : Parser) : Bytes → List Piece
  | [] => []
  | byte :: rest => parser.added byte ++ addedBy (parser.stand byte) rest

/-! Only where a parser stands counts. -/

theorem runsFit_control (parser : Parser) (run : Nat) (bytes : Bytes) :
    RunsFit parser.control run bytes ↔ RunsFit parser run bytes := by
  cases bytes <;> exact Iff.rfl

theorem runAfter_control (parser : Parser) (run : Nat) (bytes : Bytes) :
    runAfter parser.control run bytes = runAfter parser run bytes := by
  cases bytes <;> rfl

theorem addedBy_control (parser : Parser) (bytes : Bytes) :
    addedBy parser.control bytes = addedBy parser bytes := by
  cases bytes <;> rfl

theorem textBytesFrom_control (parser : Parser) (bytes : Bytes) :
    textBytesFrom parser.control bytes = textBytesFrom parser bytes := by
  cases bytes <;> rfl

theorem filterMap_added (parser : Parser) (byte : UInt8) :
    (parser.added byte).filterMap Sum.getLeft? = if parser.isText byte then [byte] else [] := by
  obtain ⟨hstock, htextOf, -⟩ := stripped_takes parser byte
  unfold added piecesSoFar
  rw [filterMap_append, ← textOf_eq_filterMap, htextOf, hstock]
  split <;> rfl

theorem filterMap_addedBy (parser : Parser) (bytes : Bytes) :
    (addedBy parser bytes).filterMap Sum.getLeft? = textBytesFrom parser bytes := by
  induction bytes generalizing parser with
  | nil => rfl
  | cons byte rest ih =>
    unfold addedBy textBytesFrom
    rw [filterMap_append, filterMap_added, ih]

theorem runAfter_append_control (parser : Parser) (run : Nat) (bytes : Bytes) (byte : UInt8)
    (hbyte : byte < 32) : runAfter parser run (bytes ++ [byte]) = 0 := by
  induction bytes generalizing parser run with
  | nil =>
    change parser.runWith run byte = 0
    unfold runWith
    rw [not_isText_of_lt hbyte]
    rfl
  | cons first rest ih => exact ih _ _

/-- A parser some bytes in a row of which were read as text, as far as they are in the stock. -/
structure Reading (parser : Parser) (run : Nat) : Prop where
  steady : parser.Steady
  stock : parser.stock.length ≤ run

variable {run : Nat}

theorem Reading.room (h : parser.Reading run) (hrun : parser.isText byte → run < stockSize) :
    parser.Room byte :=
  fun hisText => Nat.lt_of_le_of_lt h.stock (hrun hisText)

theorem Reading.eatByte (h : parser.Reading run) (hroom : parser.Room byte) :
    (parser.eatByte byte).Reading (parser.runWith run byte) := by
  obtain ⟨-, -, hsteady, hlength⟩ := eatByte_room h.steady hroom
  refine ⟨hsteady, ?_⟩
  have hstock := h.stock
  unfold runWith
  rw [hlength]
  split <;> omega

/-- A chunk whose text fits adds all its pieces. -/
theorem Reading.eat (h : parser.Reading run) (bytes rest : Bytes)
    (hfit : RunsFit parser run (bytes ++ rest)) :
    ∃ run', (parser.eat bytes).Reading run' ∧ RunsFit (parser.eat bytes) run' rest ∧
      runAfter parser run (bytes ++ rest) = runAfter (parser.eat bytes) run' rest ∧
      (parser.eat bytes).piecesSoFar ++ addedBy (parser.eat bytes) rest =
        parser.piecesSoFar ++ addedBy parser (bytes ++ rest) := by
  induction bytes generalizing parser run with
  | nil => exact ⟨run, h, hfit, rfl, rfl⟩
  | cons byte bytes ih =>
    have hroom : parser.Room byte := h.room hfit.1
    obtain ⟨hpieces, hcontrol, -, -⟩ := eatByte_room h.steady hroom
    have hnext : RunsFit (parser.eatByte byte) (parser.runWith run byte) (bytes ++ rest) := by
      rw [← runsFit_control, hcontrol]
      exact hfit.2
    obtain ⟨run', hreading, hfit', hrun, hadded⟩ := ih (h.eatByte hroom) hnext
    refine ⟨run', hreading, hfit', ?_, ?_⟩
    · rw [← runAfter_control, hcontrol] at hrun
      exact hrun
    · rw [hpieces, ← addedBy_control (parser.eatByte byte), hcontrol, append_assoc] at hadded
      exact hadded

/-- Handing out what is complete moves text from the stock to the commands. -/
theorem flushCompleteText_facts (parser : Parser) :
    parser.flushCompleteText.piecesSoFar = parser.piecesSoFar ∧
      parser.flushCompleteText.control = parser.control ∧
      parser.flushCompleteText.stock.length ≤ parser.stock.length ∧
      (parser.Steady → parser.flushCompleteText.Steady) := by
  refine ⟨?_, rfl, ?_, ?_⟩
  · unfold piecesSoFar flushCompleteText
    rw [pieces_append, pieces_textCommands, append_assoc, ← map_append, take_append_drop]
  · unfold flushCompleteText
    rw [length_drop]
    exact sub_le _ _
  · intro hsteady hne
    unfold flushCompleteText
    rw [hsteady hne]
    exact drop_nil

/-- A call hands out pieces that come before what is left in the stock. -/
theorem parse_facts (parser : Parser) (bytes : Bytes) :
    pieces (parser.parse bytes).2 ++ (parser.parse bytes).1.piecesSoFar =
        (parser.eat bytes).piecesSoFar ∧
      (parser.parse bytes).1.control = (parser.eat bytes).control ∧
      (∀ run, (parser.eat bytes).Reading run → (parser.parse bytes).1.Reading run) := by
  obtain ⟨hpieces, hcontrol, hlength, hsteady⟩ := flushCompleteText_facts (parser.eat bytes)
  refine ⟨hpieces, hcontrol, fun run h => ⟨hsteady h.steady, Nat.le_trans hlength h.stock⟩⟩

/-- Successive calls hand out all pieces of what they read, but for what is left in the stock. -/
theorem Reading.parseAll (h : parser.Reading run) (hout : parser.output = []) (chunks : List Bytes)
    (hfit : RunsFit parser run chunks.flatten) :
    (parser.parseAll chunks).1.stock.length ≤ runAfter parser run chunks.flatten ∧
      pieces (parser.parseAll chunks).2 ++ (parser.parseAll chunks).1.stock.map Sum.inl =
        parser.stock.map Sum.inl ++ addedBy parser chunks.flatten := by
  induction chunks generalizing parser run with
  | nil => exact ⟨h.stock, (append_nil _).symm⟩
  | cons chunk chunks ih =>
    rw [flatten_cons] at hfit ⊢
    obtain ⟨run', hreading, hfit', hrun, hadded⟩ := h.eat chunk chunks.flatten hfit
    obtain ⟨hpieces, hcontrol, hparse⟩ := parse_facts parser chunk
    have hnext : RunsFit (parser.parse chunk).1 run' chunks.flatten := by
      rw [← runsFit_control, hcontrol]
      exact (runsFit_control _ _ _).mpr hfit'
    obtain ⟨hlength, hall⟩ := ih (hparse run' hreading) rfl hnext
    have hsoFar : (parser.parse chunk).1.piecesSoFar = (parser.parse chunk).1.stock.map Sum.inl := rfl
    have hbefore : parser.piecesSoFar = parser.stock.map Sum.inl := by
      unfold piecesSoFar
      rw [hout]
      rfl
    refine ⟨?_, ?_⟩
    · rw [hrun, ← runAfter_control (parser.eat chunk), ← hcontrol, runAfter_control]
      exact hlength
    · calc pieces (parser.parseAll (chunk :: chunks)).2 ++ _
        _ = pieces (parser.parse chunk).2 ++ ((parser.parse chunk).1.stock.map Sum.inl ++
              addedBy (parser.parse chunk).1 chunks.flatten) := by
            rw [← hall, ← append_assoc, ← pieces_append]
            rfl
        _ = (parser.eat chunk).piecesSoFar ++ addedBy (parser.eat chunk) chunks.flatten := by
            rw [← addedBy_control (parser.parse chunk).1, hcontrol, addedBy_control,
              ← append_assoc, ← hsoFar, hpieces]
        _ = _ := by rw [hadded, hbefore]

/-! ## Losing text -/

theorem filterMap_piecesSoFar (parser : Parser) :
    parser.piecesSoFar.filterMap Sum.getLeft? = textOf parser.output ++ parser.stock := by
  unfold piecesSoFar
  rw [filterMap_append, ← textOf_eq_filterMap, filterMap_map]
  simp [Function.comp_def]

/-- The text that was put out and that is in the stock. -/
def textSoFar (parser : Parser) : Bytes := textOf parser.output ++ parser.stock

theorem textSoFar_eatByte (hsteady : parser.Steady) (hroom : parser.Room byte) :
    (parser.eatByte byte).textSoFar =
      parser.textSoFar ++ if parser.isText byte then [byte] else [] := by
  unfold textSoFar
  rw [← filterMap_piecesSoFar, (eatByte_room hsteady hroom).1, filterMap_append,
    filterMap_piecesSoFar, filterMap_added]

/-- No more text comes out than is read, and less when a byte is lost. -/
theorem length_textSoFar_eat (parser : Parser) (bytes : Bytes) (hsteady : parser.Steady) :
    (parser.eat bytes).textSoFar.length ≤
        parser.textSoFar.length + (textBytesFrom parser bytes).length ∧
      (¬ RunsFit parser parser.stock.length bytes → (parser.eat bytes).textSoFar.length <
        parser.textSoFar.length + (textBytesFrom parser bytes).length) := by
  induction bytes generalizing parser with
  | nil => exact ⟨Nat.le_refl _, fun hfit => absurd trivial hfit⟩
  | cons byte bytes ih =>
    have hsplit : (textBytesFrom parser (byte :: bytes)).length =
        (if parser.isText byte then [byte] else []).length +
          (textBytesFrom (parser.stand byte) bytes).length := length_append
    change ((parser.eatByte byte).eat bytes).textSoFar.length ≤ _ ∧
      (_ → ((parser.eatByte byte).eat bytes).textSoFar.length < _)
    by_cases hroom : parser.Room byte
    · obtain ⟨-, hcontrol, hsteady', hlength⟩ := eatByte_room hsteady hroom
      obtain ⟨hle, hlt⟩ := ih (parser.eatByte byte) hsteady'
      rw [textSoFar_eatByte hsteady hroom, length_append, ← textBytesFrom_control, hcontrol]
        at hle hlt
      refine ⟨by omega, fun hfit => ?_⟩
      have hnext : ¬ RunsFit (parser.eatByte byte) (parser.eatByte byte).stock.length bytes := by
        rw [← runsFit_control, hcontrol, hlength]
        exact fun h => hfit ⟨hroom, h⟩
      have hrest := hlt hnext
      omega
    · obtain ⟨heat, hcontrol, hisText⟩ := eatByte_no_room hsteady hroom
      have hrest := (ih parser hsteady).1
      rw [← textBytesFrom_control, hcontrol] at hrest
      rw [if_pos hisText] at hsplit
      rw [heat, hsplit, length_singleton]
      exact ⟨by omega, fun _ => by omega⟩

end Parser

/-! ## The whole input -/

/-- What the parser reads as text. -/
def textBytes (input : Bytes) : Bytes := Parser.textBytesFrom {} input

/-- No more bytes in a row than the stock has room for are read as text. -/
def TextFits (input : Bytes) : Prop := Parser.RunsFit {} 0 input

/-- A control character is last. -/
def EndsInControl (input : Bytes) : Prop := ∃ start last, input = start ++ [last] ∧ last < 32

theorem reading_initial : ({} : Parser).Reading 0 := ⟨fun _ => rfl, Nat.le_refl 0⟩

theorem pieces_parseAll (chunks : List Bytes) (hend : EndsInControl chunks.flatten)
    (hfit : TextFits chunks.flatten) :
    pieces (parseAll {} chunks).2 = addedBy {} chunks.flatten := by
  obtain ⟨start, last, hflatten, hlast⟩ := hend
  obtain ⟨hlength, hpieces⟩ := reading_initial.parseAll rfl chunks hfit
  rw [hflatten, runAfter_append_control _ _ _ _ hlast] at hlength
  rw [eq_nil_of_length_eq_zero (le_zero.mp hlength)] at hpieces
  simpa using hpieces

theorem parseAll_singleton (parser : Parser) (input : Bytes) :
    (parser.parseAll [input]).2 = (parser.parse input).2 := append_nil _

/-- One call loses text unless it fits. -/
theorem length_textOf_parse (input : Bytes) (hfit : ¬ TextFits input) :
    (textOf (parse {} input).2).length < (textBytes input).length := by
  have hlt := (length_textSoFar_eat {} input reading_initial.steady).2 hfit
  have hpieces := congrArg (filterMap Sum.getLeft?) (parse_facts {} input).1
  rw [filterMap_append, ← textOf_eq_filterMap, filterMap_piecesSoFar,
    filterMap_piecesSoFar] at hpieces
  have hlength := congrArg List.length hpieces
  simp only [length_append] at hlength
  simp only [textSoFar, length_append] at hlt
  unfold textBytes
  simp only [textOf_nil, length_nil] at hlt
  omega

/-- However an input is cut into reads: the commands are those of one read and have all the text
exactly when no text is too long for the stock. -/
theorem parse_chunks_exact (chunks : List Bytes) (hend : EndsInControl chunks.flatten) :
    (mergeText (parseAll {} chunks).2 = mergeText (parse {} chunks.flatten).2 ∧
      textOf (mergeText (parseAll {} chunks).2) = textBytes chunks.flatten) ↔
        TextFits chunks.flatten := by
  constructor
  · rintro ⟨hsame, htext⟩
    by_contra hfit
    have hlt := length_textOf_parse chunks.flatten hfit
    rw [hsame, textOf_mergeText] at htext
    rw [htext] at hlt
    exact Nat.lt_irrefl _ hlt
  · intro hfit
    have hchunks := pieces_parseAll chunks hend hfit
    have hone : pieces (parse {} chunks.flatten).2 = addedBy {} chunks.flatten := by
      have hflatten : [chunks.flatten].flatten = chunks.flatten := append_nil _
      have hsingle := pieces_parseAll [chunks.flatten] (by rwa [hflatten]) (by rwa [hflatten])
      rwa [parseAll_singleton, hflatten] at hsingle
    refine ⟨?_, ?_⟩
    · rw [mergeText_eq_regroup, mergeText_eq_regroup, hchunks, hone]
    · rw [textOf_mergeText, textOf_eq_filterMap, hchunks, filterMap_addedBy]
      rfl

theorem parse_chunks_exact_cut_sequence :
    EndsInControl [[0xE2, 0x82], [0xAC, 0x0A]].flatten ∧ TextFits [[0xE2, 0x82], [0xAC, 0x0A]].flatten ∧
      mergeText (parseAll {} [[0xE2, 0x82], [0xAC, 0x0A]]).2 =
        mergeText (parse {} [[0xE2, 0x82], [0xAC, 0x0A]].flatten).2 := by
  have hend : EndsInControl [[0xE2, 0x82], [0xAC, 0x0A]].flatten :=
    ⟨[0xE2, 0x82, 0xAC], 0x0A, rfl, by decide⟩
  have hfit : TextFits [[0xE2, 0x82], [0xAC, 0x0A]].flatten :=
    ⟨by decide, by decide, by decide, by decide, trivial⟩
  exact ⟨hend, hfit, ((parse_chunks_exact _ hend).mpr hfit).1⟩

/-! Text that is too long by one byte. -/

theorem eat_letters (count : Nat) (hcount : count ≤ stockSize) :
    eat {} (replicate count 97) = { stock := replicate count 97 } := by
  induction count with
  | zero => rfl
  | succ count ih =>
    rw [replicate_succ']
    unfold eat at ih ⊢
    rw [foldl_append, ih (le_of_succ_le hcount)]
    refine (eatByte_text rfl (by decide)).trans ?_
    exact if_pos (by rw [length_replicate]; exact hcount)

theorem scanUTF8_letters (pending length count : Nat) :
    scanUTF8 0 pending length (replicate count 97) = length + count := by
  induction count generalizing length with
  | zero => rfl
  | succ count ih =>
    have hletter : scanUTF8 0 pending length (replicate (count + 1) 97) =
        scanUTF8 0 pending (length + 1) (replicate count 97) := rfl
    rw [hletter, ih]
    omega

theorem parse_letters (count : Nat) (hcount : count ≤ stockSize) : parse {} (replicate count 97) =
      ({}, textCommands (replicate count 97)) := by
  unfold parse
  rw [eat_letters count hcount]
  unfold flushCompleteText scanUTF8ForValidSequenceLength
  simp only [scanUTF8_letters]
  simp

theorem stand_letter : stand {} 97 = {} := by decide

theorem textBytesFrom_letters (count : Nat) (rest : Bytes) :
    textBytesFrom {} (replicate count 97 ++ rest) =
      replicate count 97 ++ textBytesFrom {} rest := by
  induction count with
  | zero => rfl
  | succ count ih =>
    have hfirst : textBytesFrom {} (replicate (count + 1) 97 ++ rest) =
        97 :: textBytesFrom (stand {} 97) (replicate count 97 ++ rest) := rfl
    rw [hfirst, stand_letter, ih]
    rfl

theorem lt_of_runsFit_letters (run count : Nat) (rest : Bytes)
    (h : Parser.RunsFit {} run (replicate count 97 ++ 97 :: rest)) : run + count < stockSize := by
  induction count generalizing run with
  | zero => exact h.1 rfl
  | succ count ih =>
    have hrest : Parser.RunsFit (stand {} 97) (run + 1)
        (replicate count 97 ++ 97 :: rest) := h.2
    have hlt := ih (run + 1) hrest
    omega

/-- In two reads all letters come out, in one read the last one is lost. -/
theorem parse_chunks_long_text : ∃ chunks : List Bytes, EndsInControl chunks.flatten ∧
      mergeText (parseAll {} chunks).2 ≠ mergeText (parse {} chunks.flatten).2 ∧
      textOf (mergeText (parse {} chunks.flatten).2) ≠ textBytes chunks.flatten := by
  have hflatten : [replicate stockSize 97, [97, 10]].flatten =
      replicate stockSize 97 ++ [97, (10 : UInt8)] := by simp
  refine ⟨[replicate stockSize 97, [97, 10]], ?_⟩
  rw [hflatten]
  have hbytes : textBytes (replicate stockSize 97 ++ [97, 10]) =
      replicate stockSize 97 ++ [97] := textBytesFrom_letters stockSize [97, 10]
  have hfit : ¬ TextFits (replicate stockSize 97 ++ [97, 10]) :=
    fun h => Nat.lt_irrefl _ (Nat.zero_add stockSize ▸ lt_of_runsFit_letters 0 stockSize [10] h)
  have hlost := length_textOf_parse _ hfit
  have hchunks : textOf (parseAll {} [replicate stockSize 97, [97, 10]]).2 =
      replicate stockSize 97 ++ [97] := by
    unfold parseAll
    rw [parse_letters stockSize (Nat.le_refl _)]
    rw [textOf_append, textOf_textCommands, parseAll_singleton]
    exact congrArg _ (by decide : textOf (parse {} [97, 10]).2 = [97])
  refine ⟨⟨replicate stockSize 97 ++ [97], 10, by simp, by decide⟩, ?_, ?_⟩
  · intro hsame
    have htext := congrArg textOf hsame
    rw [textOf_mergeText, textOf_mergeText, hchunks, ← hbytes] at htext
    rw [htext] at hlost
    exact Nat.lt_irrefl _ hlost
  · intro htext
    rw [textOf_mergeText] at htext
    rw [htext] at hlost
    exact Nat.lt_irrefl _ hlost

end WinCommander.Term
