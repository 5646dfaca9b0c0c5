/-
  A parser at rest that reads one control sequence: its commands are those of the sequence.
-/
import WinCommander.Term.ParserChunks

namespace WinCommander.Term

open Library List

namespace Parser

/-- Text is read, and there is none yet. -/
structure AtRest (parser : Parser) : Prop where
  text : parser.subState = .text
  stock : parser.stock = []
  output : parser.output = []

theorem atRest_new : ({} : Parser).AtRest := ⟨rfl, rfl, rfl⟩

variable {parser : Parser}

/-- The introducer of a control sequence. -/
theorem AtRest.introducer (h : parser.AtRest) :
    parser.eat [27, 91] = { parser with subState := .csi, hash := false, csiBuffer := [] } := by
  obtain ⟨subState, hash, stock, oscBuffer, gotEsc, csiBuffer, dcsBuffer, output⟩ := parser
  obtain ⟨rfl, rfl, rfl⟩ := h
  rfl

theorem csi_bytes (byte : UInt8) : (csiValidContents byte → ¬byte < 32) ∧
    (csiValidTerminal byte → ¬byte < 32 ∧ csiValidContents byte = false) := by
  have all : ∀ n < 256, (csiValidContents (UInt8.ofNat n) → ¬UInt8.ofNat n < 32) ∧
      (csiValidTerminal (UInt8.ofNat n) →
        ¬UInt8.ofNat n < 32 ∧ csiValidContents (UInt8.ofNat n) = false) := by decide +kernel
  have h := all byte.toNat byte.toNat_lt
  rwa [UInt8.ofNat_toNat] at h

/-- What a sequence contains is collected. -/
theorem eat_contents (hstate : parser.subState = .csi)
    (hcontents : ∀ byte ∈ contents, csiValidContents byte) :
    parser.eat contents = { parser with csiBuffer := parser.csiBuffer ++ contents } := by
  induction contents generalizing parser with
  | nil =>
    rw [append_nil]
    rfl
  | cons byte rest ih =>
    obtain ⟨hbyte, hrest⟩ := forall_mem_cons.mp hcontents
    have hconsume : parser.consume byte =
        ({ parser with csiBuffer := parser.csiBuffer ++ [byte] }, true) := by
      unfold consume csiConsume
      rw [hstate]
      rw [if_neg ((csi_bytes byte).1 hbyte), if_pos hbyte]
    have heat : parser.eatByte byte = { parser with csiBuffer := parser.csiBuffer ++ [byte] } :=
      congrArg Prod.fst (eatRounds_taken 2 hconsume)
    change Parser.eat (parser.eatByte byte) rest = _
    rw [heat, @ih { parser with csiBuffer := parser.csiBuffer ++ [byte] } hstate hrest]
    dsimp only
    rw [append_assoc, singleton_append]

/-- Its end makes the commands. -/
theorem eatByte_terminal (hstate : parser.subState = .csi) (hterminal : csiValidTerminal terminal) :
    parser.eatByte terminal = { parser with
      subState := .text, stock := [], csiBuffer := parser.csiBuffer ++ [terminal]
      output := parser.output ++ csiCommands (parser.csiBuffer ++ [terminal]) } := by
  obtain ⟨hcontrol, hcontents⟩ := (csi_bytes terminal).2 hterminal
  obtain ⟨subState, hash, stock, oscBuffer, gotEsc, csiBuffer, dcsBuffer, output⟩ := parser
  obtain rfl : subState = .csi := hstate
  have hconsume : consume ⟨.csi, hash, stock, oscBuffer, gotEsc, csiBuffer, dcsBuffer, output⟩ terminal =
      (⟨.text, hash, [], oscBuffer, gotEsc, csiBuffer ++ [terminal], dcsBuffer,
        output ++ csiCommands (csiBuffer ++ [terminal])⟩, true) := by
    unfold consume csiConsume
    rw [if_neg hcontrol, hcontents, if_neg Bool.false_ne_true, if_pos hterminal]
    rfl
  exact congrArg Prod.fst (eatRounds_taken 2 hconsume)

/-- One control sequence. -/
theorem AtRest.parse_sequence (h : parser.AtRest)
    (hcontents : ∀ byte ∈ contents, csiValidContents byte) (hterminal : csiValidTerminal terminal) :
    (parser.parse ([27, 91] ++ contents ++ [terminal])).2 = csiCommands (contents ++ [terminal]) := by
  have heat : parser.eat ([27, 91] ++ contents ++ [terminal]) =
      eatByte ((parser.eat [27, 91]).eat contents) terminal := by
    unfold eat
    rw [foldl_append, foldl_append]
    rfl
  unfold parse
  rw [heat, h.introducer, eat_contents rfl hcontents, eatByte_terminal rfl hterminal]
  rw [h.output]
  exact append_nil _

end Parser

end WinCommander.Term
