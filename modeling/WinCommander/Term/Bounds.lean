/-
  A terminal that reads bytes and is resized: parser, interpreter and screen, command by command.

  The cursor stays on the screen, the scrolling region inside of it and every access inside its
  line (`terminal_within`) in the runs whose commands meet `Careful`: a scrolling region does not
  end below the screen, an amount of characters fits `int`, and in insert mode no character of
  double width is put in the last column.
-/
import WinCommander.Library.Run
import WinCommander.Term.Parser
import WinCommander.Term.AlternateScreen

namespace WinCommander.Term

open Library List Option Screen Interpreter

namespace Interpreter

variable {σ : Type}

/-! ## What a command asks for -/

/-- In insert mode the cells make room for both columns of a character. -/
def characterFits (s : Interpreter σ) (isDw : Bool) : Bool :=
  match s.startLine with
  | some started =>
    !(started.insertMode && isDw) || started.screen.posX + 1 < started.screen.width
  | none => true

def loopFits (system : CharacterSystem σ) (s : Interpreter σ) (input : List UInt16) : Bool :=
  if h : input = [] then true
  else
    let result := system.append s.registry input 0
    let newchar := result.2.1
    let next := { s with registry := result.1 }
    if newchar = 0 then loopFits system next (input.drop result.2.2)
    else
      next.characterFits (system.isDoubleWidth result.1 newchar) &&
        match next.putCharacter newchar (system.isDoubleWidth result.1 newchar) with
        | some next => loopFits system next (input.drop result.2.2)
        | none => true
termination_by input.length
decreasing_by
  all_goals
    have hpos := system.append_eaten_pos s.registry input h
    have hlength := length_pos_iff.mpr h
    rw [length_drop]
    omega

def textFits (system : CharacterSystem σ) (s : Interpreter σ) (characters : Bytes) : Bool :=
  let input := s.translated (system.toUTF16 characters)
  if input = [] then true
  else
    match s.appendToCurrent system input with
    | some (next, input) => next.loopFits system input
    | none => true

/-- A region that is taken over ends on the screen. -/
def regionFits (s : Interpreter σ) (range : ScrollingRange) : Bool :=
  toInt (range.top.toInt + 1) < range.bottom.toInt ∧ range.top.toInt ≥ 0 ∧
      range.top.toInt ≤ s.screen.height →
    range.top.toInt < range.bottom.toInt ∧ range.bottom.toInt ≤ s.screen.height

def fits (system : CharacterSystem σ) (s : Interpreter σ) : Command → Bool
  | .text characters => s.textFits system characters
  | .setScrollingRegion (some range) => s.regionFits range
  | .deleteCharacters characters => characters.toNat < 2 ^ 31
  | .insertCharacters characters => characters.toNat < 2 ^ 31
  | _ => true

/-! ## What a command leaves -/

/-- A valid state in which the scrolling region is on the screen. -/
structure InBounds (s : Interpreter σ) : Prop where
  valid : s.Valid
  height : s.extent.height = s.screen.height
  region : s.extent.top < s.extent.bottom ∧ s.extent.bottom ≤ s.screen.height

theorem Step.height (h : Step s t) : t.screen.height = s.screen.height := by
  unfold Screen.height
  rw [h.screen.kept.height]

theorem Step.inBounds (hs : InBounds s) (h : Step s t) : InBounds t := by
  refine ⟨h.valid hs.valid, ?_, ?_⟩
  · rw [h.extent, h.height, hs.height]
  · rw [h.extent, h.height]
    exact hs.region

theorem makeRoom_some {s : Interpreter σ} (hs : s.Valid)
    (hroom : s.insertMode → isDw = true → s.screen.posX + 1 < s.screen.width) :
    ∃ screen, s.makeRoom (if isDw then 2 else 1) = some screen := by
  have hwidth := hs.screen.width_eq
  have hposX := hs.screen.posX
  unfold makeRoom
  split
  · next hinsert =>
    have hfits : (if isDw then 2 else 1 : Int) ≤ s.screen.buffer.width - s.screen.posX := by
      split
      · next hdw =>
        have hlt := hroom hinsert hdw
        omega
      · omega
    obtain ⟨screen, hscreen, -⟩ :=
      doShiftRowRight_some hs.screen (by split <;> omega) hfits
    exact ⟨screen, hscreen⟩
  · exact ⟨_, rfl⟩

theorem putCharacter_some {s : Interpreter σ} (hs : s.Valid) (newchar : UInt32)
    (hfits : s.characterFits isDw) : ∃ t, s.putCharacter newchar isDw = some t ∧ Step s t := by
  obtain ⟨started, hstarted, hstep⟩ := startLine_some hs
  have hvalid := hstep.valid hs
  unfold characterFits at hfits
  rw [hstarted] at hfits
  have hroom (hinsert : started.insertMode = true) (hdw : isDw) :
      started.screen.posX + 1 < started.screen.width := by
    simpa [hinsert, hdw] using hfits
  obtain ⟨screen, hscreen⟩ := makeRoom_some hvalid hroom
  obtain ⟨t, ht, hput⟩ := putHere_some hvalid newchar isDw hscreen
  unfold putCharacter
  rw [hstarted, bind_some]
  exact ⟨t, ht, hstep.trans hput⟩

theorem textLoop_some (system : CharacterSystem σ) {s : Interpreter σ} (hs : s.Valid)
    (hfits : s.loopFits system input) : ∃ t, s.textLoop system input = some t ∧ Step s t := by
  induction hlength : input.length using Nat.strongRecOn generalizing s input with
  | ind n ih =>
    rw [loopFits] at hfits
    rw [textLoop]
    by_cases hne : input = []
    · rw [dif_pos hne]
      exact ⟨s, rfl, Step.refl hs⟩
    · rw [dif_neg hne] at hfits ⊢
      have hpos := system.append_eaten_pos s.registry input hne
      have hinput := length_pos_iff.mpr hne
      have hdrop : (input.drop (system.append s.registry input 0).2.2).length < n := by
        rw [length_drop]
        omega
      have hregistry := Step.withRegistry hs (system.append s.registry input 0).1
      have hvalid := hregistry.valid hs
      by_cases hzero : (system.append s.registry input 0).2.1 = 0
      · rw [if_pos hzero] at hfits ⊢
        obtain ⟨t, ht, hstep⟩ := ih _ hdrop hvalid hfits rfl
        exact ⟨t, ht, hregistry.trans hstep⟩
      · rw [if_neg hzero] at hfits ⊢
        obtain ⟨hcharacter, hrest⟩ := Bool.and_eq_true_iff.mp hfits
        obtain ⟨next, hnext, hput⟩ :=
          putCharacter_some hvalid (system.append s.registry input 0).2.1 hcharacter
        rw [hnext] at hrest ⊢
        obtain ⟨t, ht, hstep⟩ := ih _ hdrop (hput.valid hvalid) hrest rfl
        exact ⟨t, ht, (hregistry.trans hput).trans hstep⟩

theorem processText_some (system : CharacterSystem σ) (hs : s.Valid)
    (hfits : s.textFits system characters) :
    ∃ t, s.processText system characters = some t ∧ Step s t := by
  unfold textFits at hfits
  unfold processText
  dsimp only at hfits ⊢
  split
  · exact ⟨s, rfl, Step.refl hs⟩
  · next hne =>
    obtain ⟨next, rest, happend, hstep⟩ := appendToCurrent_some system hs
      (s.translated (system.toUTF16 characters))
    rw [if_neg hne, happend] at hfits
    obtain ⟨t, ht, hloop⟩ := textLoop_some system (hstep.valid hs) hfits
    rw [happend, bind_some]
    exact ⟨t, ht, hstep.trans hloop⟩

/-- An amount that fits `int` is taken up to what is left. -/
theorem amountUpTo_bounds (left : Int) (hleft : 0 < left) (hamount : amount.toNat < 2 ^ 31) :
    0 ≤ amountUpTo left amount ∧ amountUpTo left amount ≤ left := by
  unfold amountUpTo
  rw [toInt_natCast hamount]
  dsimp only
  split
  · omega
  · split <;> omega

theorem processDeleteCharacters_some {s : Interpreter σ} (hs : s.Valid)
    (hfits : characters.toNat < 2 ^ 31) :
    ∃ t, s.processDeleteCharacters characters = some t ∧ Step s t := by
  have hwidth := hs.screen.width_eq
  have hposX := hs.screen.posX
  obtain ⟨hlow, hhigh⟩ := amountUpTo_bounds (s.screen.width - s.screen.posX) (by omega) hfits
  exact withScreen_some (doShiftRowLeft_some hs.screen hlow (by omega))

theorem processInsertCharacters_some {s : Interpreter σ} (hs : s.Valid)
    (hfits : characters.toNat < 2 ^ 31) :
    ∃ t, s.processInsertCharacters characters = some t ∧ Step s t := by
  have hwidth := hs.screen.width_eq
  have hposX := hs.screen.posX
  obtain ⟨hlow, hhigh⟩ := amountUpTo_bounds (s.screen.width - s.screen.posX) (by omega) hfits
  exact withScreen_some (doShiftRowRight_some hs.screen hlow (by omega))

theorem processSetScrollingRegion_inBounds (hs : InBounds s) {range : Option ScrollingRange}
    (hfits : range.all s.regionFits) : InBounds (s.processSetScrollingRegion range) := by
  have hheight := hs.valid.screen.height_eq
  have hposY := hs.valid.screen.posY
  have hset (extent : Extent) (hextent : extent.height = s.extent.height) (htop : 0 ≤ extent.top)
      (hregion : extent.top < extent.bottom ∧ extent.bottom ≤ s.screen.height) :
      InBounds (if s.originLineMode then { s with extent }.moveTo 0 extent.top
        else { s with extent }) := by
    have hinner : InBounds { s with extent } :=
      ⟨⟨hs.valid.screen, htop⟩, hextent.trans hs.height, hregion⟩
    split
    · exact (moveTo_step hinner.valid 0 extent.top).inBounds hinner
    · exact hinner
  cases range with
  | none =>
    refine hset _ ?_ ?_ ?_
    · rfl
    · exact Int.le_refl 0
    · dsimp only
      omega
  | some range =>
    simp only [all_some, regionFits, decide_eq_true_eq] at hfits
    refine hset _ ?_ ?_ ?_
    · dsimp only
      split
      · rfl
      · rfl
    · dsimp only
      split
      · next h => exact h.2.1
      · exact hs.valid.top
    · dsimp only
      split
      · next h => exact hfits h
      · exact hs.region

theorem setAlternateScreen_inBounds (hs : InBounds s) (status : Bool) :
    InBounds (s.setAlternateScreen status) := by
  have hheight : (s.setAlternateScreen status).screen.height = s.screen.height := by
    have hrevert := revertToSnapshot_sizes s.screen.buffer
    unfold Screen.height setAlternateScreen Screen.setAlternateScreen
    split
    · rfl
    · split
      · rw [goTo_buffer, (hrevert _).2.1]
      · rw [goTo_buffer, (hrevert _).2.1]
  refine ⟨⟨setAlternateScreen_valid hs.valid.screen status, hs.valid.top⟩, ?_, ?_⟩
  · rw [hheight]
    exact hs.height
  · rw [hheight]
    exact hs.region

theorem processChangeColumnMode132_inBounds (hs : InBounds s) (on : Bool) :
    InBounds (s.processChangeColumnMode132 on).1 := by
  have hheight := hs.valid.screen.height_eq
  have hposY := hs.valid.screen.posY
  have hbound := hs.valid.screen.height
  have hunsigned : toUnsigned s.screen.height = s.screen.buffer.height := by
    have hcast : (toUnsigned s.screen.height : Int) = s.screen.height :=
      toUnsigned_of_bounds (by omega) (by omega)
    omega
  unfold processChangeColumnMode132
  rw [hunsigned]
  split
  · split
    · next screen hscreen =>
      obtain ⟨hvalid, -, hsame⟩ :=
        resizeScreen_valid hs.valid.screen (by split <;> omega) hbound hscreen
      have hkept : screen.height = s.screen.height := by
        unfold Screen.height
        rw [hsame]
      refine ⟨⟨hvalid, hs.valid.top⟩, ?_, ?_⟩
      · rw [hkept]
        exact hs.height
      · rw [hkept]
        exact hs.region
    · exact hs
  · exact hs

theorem processChangeMode_inBounds (hs : InBounds s) (change : ModeChange) :
    ∃ t exit, s.processChangeMode change = some (t, exit) ∧ InBounds t := by
  obtain ⟨mode, status⟩ := change
  unfold processChangeMode
  dsimp only
  split
  case h_3 => exact ⟨_, _, rfl, processChangeColumnMode132_inBounds hs status⟩
  case h_4 =>
    have hscreen := setVideoReverse_step hs.valid.screen status
    exact ⟨_, _, rfl, Step.inBounds hs ⟨hscreen, rfl, rfl⟩⟩
  case h_6 => exact ⟨_, _, rfl, setAlternateScreen_inBounds hs status⟩
  case h_7 =>
    have hset := setAlternateScreen_inBounds hs status
    split
    · obtain ⟨t, ht, hstep⟩ := processEraseInDisplay_some hset.valid .wholeDisplay
      rw [ht]
      exact ⟨t, _, rfl, hstep.inBounds hset⟩
    · exact ⟨_, _, rfl, hset⟩
  all_goals
    refine ⟨_, _, rfl, Step.inBounds hs ?_⟩
    exact Step.of_screen hs.valid rfl rfl rfl

theorem interpretSingleCommand_inBounds (system : CharacterSystem σ) {s : Interpreter σ}
    (hs : InBounds s) {command : Command} (hfits : s.fits system command) :
    ∃ t exit, s.interpretSingleCommand system command = some (t, exit) ∧ InBounds t := by
  have hdone {result : Option (Interpreter σ)} (hresult : ∃ u, result = some u ∧ Step s u) :
      ∃ t exit, returned result = some (t, exit) ∧ InBounds t := by
    obtain ⟨u, hu, hstep⟩ := hresult
    rw [hu]
    exact ⟨u, .returned, rfl, hstep.inBounds hs⟩
  have hvalid := hs.valid
  unfold interpretSingleCommand
  split
  case h_1 => exact hdone (processText_some system hvalid hfits)
  case h_2 => exact hdone (processLF_some hvalid)
  case h_3 => exact hdone ⟨_, rfl, processCR_step hvalid⟩
  case h_4 => exact hdone ⟨_, rfl, processBS_step hvalid⟩
  case h_5 => exact hdone (processRI_some hvalid)
  case h_6 => exact hdone ⟨_, rfl, processMC_step hvalid _⟩
  case h_7 => exact hdone ⟨_, rfl, processHT_step hvalid _⟩
  case h_8 => exact hdone (processScreenAlignment_some hvalid)
  case h_9 => exact hdone (processEraseInDisplay_some hvalid _)
  case h_10 => exact hdone (processEraseInLine_some hvalid _)
  case h_11 => exact hdone (processEraseCharacters_some hvalid _)
  case h_12 range =>
    refine ⟨_, .returned, rfl, processSetScrollingRegion_inBounds hs ?_⟩
    cases range with
    | none => rfl
    | some range => exact hfits
  case h_13 => exact processChangeMode_inBounds hs _
  case h_14 => exact hdone ⟨s.processHTS, rfl, Step.of_screen hvalid rfl rfl rfl⟩
  case h_15 => exact hdone ⟨_, rfl, processClearTab_step hvalid _⟩
  case h_16 => exact hdone ⟨_, rfl, processSetCharacterAttributes_step hvalid _⟩
  case h_17 => exact hdone ⟨_, rfl, processDesignateCharacterSet_step hvalid _⟩
  case h_18 => exact hdone ⟨_, rfl, processSelectCharacterSet_step hvalid _⟩
  case h_19 => exact hdone ⟨s.processSaveState, rfl, Step.of_screen hvalid rfl rfl rfl⟩
  case h_20 => exact hdone ⟨_, rfl, processRestoreState_step hvalid⟩
  case h_21 => exact hdone (processInsertLines_some hvalid _)
  case h_22 => exact hdone (processDeleteLines_some hvalid _)
  case h_23 => exact hdone (processDeleteCharacters_some hvalid (of_decide_eq_true hfits))
  case h_24 => exact hdone (processInsertCharacters_some hvalid (of_decide_eq_true hfits))
  all_goals exact hdone ⟨s, rfl, Step.refl hvalid⟩

/-- After a resize the region is cut to the new height, or goes down to it as before. -/
theorem notifyScreenResized_inBounds (hs : InBounds s) {screen : Screen} (hscreen : screen.Valid) :
    InBounds { s with screen }.notifyScreenResized := by
  have hheight := hscreen.height_eq
  have hposY := hscreen.posY
  have htop := hs.valid.top
  have hold := hs.height
  have hregion := hs.region
  unfold notifyScreenResized
  refine ⟨⟨hscreen, ?_⟩, ?_, ?_⟩
  · dsimp only
    omega
  · dsimp only
  · dsimp only
    constructor
    · split <;> omega
    · split <;> omega

theorem new_inBounds {screen : Screen} (hscreen : screen.Valid) (registry : σ) :
    InBounds (new screen registry) := by
  have hheight := hscreen.height_eq
  have hposY := hscreen.posY
  have hfresh : InBounds (fresh screen registry) := by
    unfold fresh
    refine ⟨⟨hscreen, Int.le_refl 0⟩, ?_, ?_⟩
    · dsimp only
    · dsimp only
      omega
  exact (new_step hscreen registry).inBounds hfresh

end Interpreter

/-! ## The terminal -/

structure Terminal (σ : Type) where
  parser : Parser := {}
  /-- The commands that were parsed and are not interpreted yet. -/
  pending : List Command := []
  interpreter : Interpreter σ

inductive Event where
  | feed (bytes : Bytes)
  | next
  | resize (newSx newSy : Nat)

namespace Terminal

variable {σ : Type}

def start (width height : Nat) (registry : σ) : Terminal σ :=
  { interpreter := Interpreter.new (Screen.new width height) registry }

/-- Bytes are parsed when the commands before them are done. -/
def feed (terminal : Terminal σ) (bytes : Bytes) : Terminal σ :=
  if terminal.pending = [] then
    let (parser, commands) := terminal.parser.parse bytes
    { terminal with parser, pending := commands }
  else terminal

/-- The next turn of the loop of `Interpret`. -/
def next (system : CharacterSystem σ) (terminal : Terminal σ) : Option (Terminal σ) :=
  match terminal.pending with
  | [] => some terminal
  | command :: rest =>
    (terminal.interpreter.interpretSingleCommand system command).map fun (interpreter, exit) =>
      match exit with
      | .returned => { terminal with interpreter, pending := rest }
      | .threw => { terminal with interpreter, pending := [] }

/-- `NotifyScreenResized`, unless `ResizeScreen` has thrown. -/
def resized (terminal : Terminal σ) : Option Screen → Terminal σ
  | some screen =>
    { terminal with interpreter := { terminal.interpreter with screen }.notifyScreenResized }
  | none => terminal

def resize (terminal : Terminal σ) (newSx newSy : Nat) : Terminal σ :=
  terminal.resized (terminal.interpreter.screen.resizeScreen newSx newSy)

/-- There is no state any more once a cell outside of its line was accessed. -/
def step (system : CharacterSystem σ) (terminal : Option (Terminal σ)) (event : Event) :
    Option (Terminal σ) × Unit :=
  (terminal.bind fun terminal =>
    match event with
    | .feed bytes => some (terminal.feed bytes)
    | .next => terminal.next system
    | .resize newSx newSy => some (terminal.resize newSx newSy), ())

/-- Cursor and scrolling region are on the screen, and no access was outside of its line. -/
def Within : Option (Terminal σ) → Prop
  | some terminal =>
    let screen := terminal.interpreter.screen
    let extent := terminal.interpreter.extent
    (0 ≤ screen.posX ∧ screen.posX < screen.width) ∧
      (0 ≤ screen.posY ∧ screen.posY < screen.height) ∧
      0 ≤ extent.top ∧ extent.top < extent.bottom ∧ extent.bottom ≤ screen.height
  | none => False

/-- Sizes are `int`s, and the next command fits. -/
def careful (system : CharacterSystem σ) (terminal : Option (Terminal σ)) (event : Event) : Bool :=
  match terminal, event with
  | some terminal, .next => terminal.pending.head?.all (terminal.interpreter.fits system)
  | some _, .resize newSx newSy => newSx < 2 ^ 31 ∧ newSy < 2 ^ 31
  | _, _ => true

/-- What every step keeps. -/
def Holds (terminal : Option (Terminal σ)) : Prop :=
  ∃ held, terminal = some held ∧ held.interpreter.InBounds

theorem Holds.within (h : Holds terminal) : Within terminal := by
  obtain ⟨held, rfl, hs⟩ := h
  have hposX := hs.valid.screen.posX
  have hposY := hs.valid.screen.posY
  have hwidth := hs.valid.screen.width_eq
  have hheight := hs.valid.screen.height_eq
  exact ⟨⟨hposX.1, hwidth ▸ hposX.2⟩, ⟨hposY.1, hheight ▸ hposY.2⟩, hs.valid.top, hs.region⟩

theorem next_holds (system : CharacterSystem σ) {terminal : Terminal σ}
    (hs : terminal.interpreter.InBounds)
    (hfits : terminal.pending.head?.all (terminal.interpreter.fits system)) :
    Holds (terminal.next system) := by
  unfold next
  split
  · exact ⟨terminal, rfl, hs⟩
  · next command rest hpending =>
    rw [hpending] at hfits
    have hcommand : terminal.interpreter.fits system command := hfits
    obtain ⟨t, exit, ht, hinBounds⟩ :=
      interpretSingleCommand_inBounds system hs hcommand
    rw [ht]
    cases exit with
    | returned => exact ⟨_, rfl, hinBounds⟩
    | threw => exact ⟨_, rfl, hinBounds⟩

theorem resize_inBounds {terminal : Terminal σ} (hs : terminal.interpreter.InBounds)
    {newSx newSy : Nat} (hx : newSx < 2 ^ 31) (hy : newSy < 2 ^ 31) :
    (terminal.resize newSx newSy).interpreter.InBounds := by
  unfold resize
  cases hresult : terminal.interpreter.screen.resizeScreen newSx newSy with
  | none => exact hs
  | some screen =>
    have hvalid := (resizeScreen_valid hs.valid.screen hx hy hresult).1
    exact notifyScreenResized_inBounds hs hvalid

theorem step_holds (system : CharacterSystem σ) {terminal : Option (Terminal σ)} (event : Event)
    (hcareful : careful system terminal event) (h : Holds terminal) :
    Holds (step system terminal event).1 := by
  obtain ⟨held, rfl, hs⟩ := h
  cases event with
  | feed bytes =>
    refine ⟨held.feed bytes, rfl, ?_⟩
    unfold feed
    split
    · exact hs
    · exact hs
  | next => exact next_holds system hs hcareful
  | resize newSx newSy =>
    obtain ⟨hx, hy⟩ := of_decide_eq_true hcareful
    exact ⟨held.resize newSx newSy, rfl, resize_inBounds hs hx hy⟩

/-- Cursor, scrolling region and accesses stay where they belong in every run of careful steps. -/
theorem terminal_within (system : CharacterSystem σ) {width height : Nat}
    (hwidth : 0 < width ∧ width < 2 ^ 31) (hheight : 0 < height ∧ height < 2 ^ 31) (registry : σ)
    (events : List Event)
    (hcareful : Meets (step system) (fun terminal event => careful system terminal event = true)
      (some (start width height registry)) events) :
    Within (runAll (step system) (some (start width height registry)) events).1 := by
  have hstart : Holds (some (start width height registry)) :=
    ⟨_, rfl, new_inBounds (new_valid hwidth hheight) registry⟩
  exact (runAll_meets _ (fun terminal _ => Holds terminal)
    (fun _ _ event hmeets h => step_holds system event hmeets h) [] events hcareful hstart).within

/-- A region of three rows, a screen of two rows and then one of five. -/
theorem terminal_within_region : Within (runAll (step singleByteSystem) (some (start 4 4 ()))
      [.feed (ascii "\x1b[1;3r\x1b[2P"), .next, .resize 3 2, .next, .resize 3 5]).1 := by
  have hsize : 0 < 4 ∧ 4 < 2 ^ 31 := by decide
  have hwithin := terminal_within singleByteSystem hsize hsize ()
    [.feed (ascii "\x1b[1;3r\x1b[2P"), .next, .resize 3 2, .next, .resize 3 5] (by decide +kernel)
  exact hwithin

/-- A region that ends below the screen is taken over. -/
theorem terminal_region_below : ¬ Within (runAll (step singleByteSystem) (some (start 4 4 ()))
      [.feed (ascii "\x1b[1;9r"), .next]).1 := by
  intro hwithin
  have hbottom : ((runAll (step singleByteSystem) (some (start 4 4 ()))
      [.feed (ascii "\x1b[1;9r"), .next]).1.map fun terminal =>
        (terminal.interpreter.extent.bottom, terminal.interpreter.screen.height)) = some (9, 4) := by
    decide +kernel
  obtain ⟨terminal, hterminal, heq⟩ := map_eq_some_iff.mp hbottom
  obtain ⟨hend, hheight⟩ := Prod.mk.inj heq
  rw [hterminal] at hwithin
  have hle := hwithin.2.2.2.2
  rw [hend, hheight] at hle
  cases hle

/-- An amount of 2^32 - 1 characters is taken for one that is negative. -/
example : (runAll (step singleByteSystem) (some (start 4 4 ()))
    [.feed (ascii "\x1b[4294967295P"), .next]).1.isNone := by decide +kernel

end Terminal

end WinCommander.Term
