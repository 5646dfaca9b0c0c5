/-
  Commands in pieces: a text is its bytes.

  Merging adjacent texts does not change the pieces, and depends on nothing else. Only the text
  sub-state makes text.
-/
import WinCommander.Term.Parser

namespace WinCommander.Term

open Library List Parser

/-! ## Merging adjacent texts -/

/-- A byte of text or a command that is no text. -/
abbrev Piece := UInt8 ⊕ Command

def piecesOf : Command → List Piece
  | .text characters => characters.map Sum.inl
  | command => [.inr command]

def pieces (commands : List Command) : List Piece := commands.flatMap piecesOf

def pushText (characters : Bytes) : List Command → List Command
  | .text more :: rest => .text (characters ++ more) :: rest
  | rest => Parser.textCommands characters ++ rest

/-- Adjacent texts become one, and empty ones none. -/
def mergeText : List Command → List Command
  | [] => []
  | .text characters :: rest => pushText characters (mergeText rest)
  | command :: rest => command :: mergeText rest

def regroup : List Piece → List Command
  | [] => []
  | .inl byte :: rest => pushText [byte] (regroup rest)
  | .inr command :: rest => command :: regroup rest

/-- The payloads of all texts. -/
def textOf (commands : List Command) : Bytes :=
  commands.flatMap fun command =>
    match command with
    | .text characters => characters
    | _ => []

@[simp] theorem pieces_nil : pieces [] = [] := rfl

@[simp] theorem pieces_append (xs ys : List Command) : pieces (xs ++ ys) = pieces xs ++ pieces ys :=
  flatMap_append

@[simp] theorem textOf_nil : textOf [] = [] := rfl

@[simp] theorem textOf_append (xs ys : List Command) : textOf (xs ++ ys) = textOf xs ++ textOf ys :=
  flatMap_append

@[simp] theorem pieces_textCommands (characters : Bytes) :
    pieces (textCommands characters) = characters.map Sum.inl := by
  unfold textCommands
  split
  · next h => rw [h]; rfl
  · simp [pieces, piecesOf]

@[simp] theorem textOf_textCommands (characters : Bytes) :
    textOf (textCommands characters) = characters := by
  unfold textCommands
  split
  · next h => rw [h]; rfl
  · simp [textOf]

variable (commands : List Command) (buffer : Bytes)

theorem pushText_nil : pushText [] commands = commands := by
  unfold pushText
  split <;> rfl

theorem pushText_cons (byte : UInt8) (characters : Bytes) (commands : List Command) :
    pushText (byte :: characters) commands = pushText [byte] (pushText characters commands) := by
  by_cases h : characters = []
  · rw [h, pushText_nil]
  · have hcommands : textCommands characters = [.text characters] := if_neg h
    have hcons : textCommands (byte :: characters) = [.text (byte :: characters)] :=
      if_neg (by simp)
    unfold pushText
    split
    · rfl
    · rw [hcommands, hcons]
      rfl

theorem mergeText_eq_regroup : mergeText commands = regroup (pieces commands) := by
  have hpush (characters : Bytes) (rest : List Piece) :
      pushText characters (regroup rest) = regroup (characters.map Sum.inl ++ rest) := by
    induction characters with
    | nil => exact pushText_nil _
    | cons byte characters ih => rw [pushText_cons, ih]; rfl
  induction commands with
  | nil => rfl
  | cons command rest ih =>
    rw [show pieces (command :: rest) = piecesOf command ++ pieces rest from rfl]
    unfold mergeText
    split
    · next heq => cases heq
    · next characters rest' heq =>
      obtain ⟨rfl, rfl⟩ := cons.inj heq
      rw [ih, hpush]
      rfl
    · next command' rest' hne heq =>
      obtain ⟨rfl, rfl⟩ := cons.inj heq
      rw [ih, show piecesOf command = [.inr command] by unfold piecesOf; split <;> simp_all]
      rfl

theorem textOf_eq_filterMap : textOf commands = (pieces commands).filterMap Sum.getLeft? := by
  induction commands with
  | nil => rfl
  | cons command rest ih =>
    have hone : textOf [command] = (piecesOf command).filterMap Sum.getLeft? := by
      unfold textOf piecesOf
      cases command <;> simp [filterMap_map, Function.comp_def]
    calc textOf (command :: rest)
      _ = textOf [command] ++ textOf rest := textOf_append [command] rest
      _ = (piecesOf command).filterMap Sum.getLeft? ++ (pieces rest).filterMap Sum.getLeft? := by
          rw [hone, ih]
      _ = _ := (filterMap_append).symm

theorem textOf_mergeText : textOf (mergeText commands) = textOf commands := by
  have hpush (characters : Bytes) (rest : List Command) :
      textOf (pushText characters rest) = characters ++ textOf rest := by
    unfold pushText
    split
    · simp [textOf]
    · rw [textOf_append, textOf_textCommands]
  induction commands with
  | nil => rfl
  | cons command rest ih =>
    unfold mergeText
    split
    · next heq => cases heq
    · next characters rest' heq =>
      obtain ⟨rfl, rfl⟩ := cons.inj heq
      rw [hpush, ih]
      rfl
    · next command' rest' hne heq =>
      obtain ⟨rfl, rfl⟩ := cons.inj heq
      rw [← singleton_append, textOf_append, ih, ← textOf_append]
      rfl

/-! ## Sequences make no text -/

theorem textOf_extendedColor (mode : AttributeKind) (params : List UInt32) :
    textOf (extendedColor mode params) = [] := by
  unfold extendedColor
  split
  · split <;> rfl
  · split <;> rfl
  · rfl

theorem textOf_toList_map (f : α → Command) (hf : ∀ a, textOf [f a] = []) (value : Option α)
    : textOf (value.map f).toList = [] := by
  cases value with
  | none => rfl
  | some a => exact hf a

theorem textOf_characterAttributes (rounds : Nat) (params : List UInt32) :
    textOf (characterAttributes rounds params) = [] := by
  induction rounds generalizing params with
  | zero => rfl
  | succ rounds ih =>
    cases params with
    | nil => rfl
    | cons ps rest =>
      unfold characterAttributes
      split
      · rw [textOf_append, textOf_extendedColor, ih]; rfl
      · rw [textOf_append, textOf_toList_map _ (fun _ => rfl), ih]; rfl

theorem textOf_csi_hl (s : Bytes) : textOf (csi_hl s) = [] := by
  unfold csi_hl
  simp only [textOf, flatMap_eq_nil_iff, mem_filterMap]
  rintro command ⟨number, -, hcommand⟩
  obtain ⟨mode, -, rfl⟩ := Option.map_eq_some_iff.mp hcommand
  rfl

theorem textOf_csiCommands : textOf (csiCommands buffer) = [] := by
  unfold csiCommands
  split
  case h_7 => unfold csi_G; split <;> rfl
  case h_8 => unfold csi_H; split <;> rfl
  case h_10 => unfold csi_J; split <;> rfl
  case h_11 => unfold csi_K; split <;> rfl
  case h_21 => unfold csi_c; split <;> rfl
  case h_24 => unfold csi_H; split <;> rfl
  case h_25 =>
    unfold csi_g
    split
    · rfl
    · split <;> rfl
  case h_26 => exact textOf_csi_hl buffer
  case h_27 => exact textOf_csi_hl buffer
  case h_28 => unfold csi_m; split <;> exact textOf_characterAttributes _ _
  case h_29 => unfold csi_n; split <;> rfl
  case h_30 => unfold csi_q; dsimp only; split <;> rfl
  case h_31 =>
    unfold csi_r
    split
    · rfl
    · split <;> rfl
    · rfl
  case h_32 =>
    unfold csi_t
    split
    · exact textOf_toList_map _ (fun _ => rfl) _
    · rfl
  all_goals rfl

theorem textOf_oscCommands : textOf (oscCommands buffer) = [] := by
  unfold oscCommands
  split
  · rfl
  · split <;> rfl

theorem textOf_dcsCommands : textOf (dcsCommands buffer) = [] := by
  unfold dcsCommands
  split
  · split
    · rfl
    · split <;> rfl
  · rfl

end WinCommander.Term
