/-
  What commands keep.

  `Step` is what every command does that neither resizes the screen nor switches it nor sets the
  scrolling region. All that can leave the screen are text in insert mode and the two commands
  that shift a row by an amount of their own.
-/
import WinCommander.Term.Interpreter
import WinCommander.Term.ScreenSteps

namespace WinCommander.Term

open Library Option Screen

namespace Interpreter

variable {σ : Type}

structure Valid (s : Interpreter σ) : Prop where
  screen : s.screen.Valid
  top : 0 ≤ s.extent.top

structure Step (s t : Interpreter σ) : Prop where
  screen : Screen.Step s.screen t.screen
  extent : t.extent = s.extent
  allow : t.allowScreenResize = s.allowScreenResize

theorem Step.valid (hs : s.Valid) (h : Step s t) : t.Valid :=
  ⟨h.screen.valid, h.extent ▸ hs.top⟩

variable {s : Interpreter σ} {screen : Screen}

theorem Step.refl (hs : s.Valid) : Step s s :=
  ⟨Screen.Step.refl hs.screen, rfl, rfl⟩

theorem Step.trans (h : Step s t) (h' : Step t u) : Step s u :=
  ⟨h.screen.trans h'.screen, h'.extent.trans h.extent, h'.allow.trans h.allow⟩

theorem withScreen_some (h : ∃ t, result = some t ∧ Screen.Step s.screen t) :
    ∃ t, s.withScreen result = some t ∧ Step s t := by
  obtain ⟨t, ht, hstep⟩ := h
  rw [ht]
  exact ⟨{ s with screen := t }, rfl, ⟨hstep, rfl, rfl⟩⟩

theorem moveTo_step (hs : s.Valid) (x y : Int) : Step s (s.moveTo x y) :=
  ⟨goTo_step hs.screen x y, rfl, rfl⟩

/-- What does not touch the screen. -/
theorem Step.of_screen (hs : s.Valid) (hscreen : t.screen = s.screen)
    (hextent : t.extent = s.extent) (hallow : t.allowScreenResize = s.allowScreenResize) :
    Step s t :=
  ⟨hscreen.symm ▸ Screen.Step.refl hs.screen, hextent, hallow⟩

/-! ## Lines -/

theorem processLF_some (hs : s.Valid) : ∃ t, s.processLF = some t ∧ Step s t := by
  refine withScreen_some ?_
  split
  · exact doScrollUp_some hs.screen hs.top _ _
  · exact ⟨_, rfl, goTo_step hs.screen _ _⟩

theorem processCR_step (hs : s.Valid) : Step s s.processCR :=
  moveTo_step hs _ _

theorem processBS_step (hs : s.Valid) : Step s s.processBS :=
  ⟨goTo_step hs.screen _ _, rfl, rfl⟩

theorem processRI_some (hs : s.Valid) : ∃ t, s.processRI = some t ∧ Step s t := by
  refine withScreen_some ?_
  split
  · exact scrollDown_some hs.screen hs.top _ _
  · exact ⟨_, rfl, goTo_step hs.screen _ _⟩

/-! ## Text -/

section
variable (hs : s.Valid)
include hs

theorem currLineEndsWithMcg_some : ∃ answer, s.currLineEndsWithMcg = some answer := by
  have hline := hs.screen.length_line
  have hposX := hs.screen.posX
  obtain ⟨cell, hcell⟩ := readCell_of_mem (s.screen.buffer.cellsOf s.screen.posY)
    (x := (s.screen.buffer.cellsOf s.screen.posY).length - 1) (by omega) (by omega)
  unfold currLineEndsWithMcg
  dsimp only
  rw [hcell]
  exact ⟨_, rfl⟩

theorem wraps_some : ∃ answer, s.wraps = some answer := by
  unfold wraps
  dsimp only
  split
  · split
    · exact ⟨true, rfl⟩
    · split
      · exact currLineEndsWithMcg_some hs
      · exact ⟨false, rfl⟩
  · exact ⟨false, rfl⟩

theorem wrapLine_some : ∃ t, s.wrapLine = some t ∧ Step s t := by
  have hwrap : Step s { s with screen := s.screen.putWrap } :=
    ⟨putWrap_step hs.screen, rfl, rfl⟩
  have hcr := processCR_step (hwrap.valid hs)
  obtain ⟨t, ht, hlf⟩ := processLF_some (hcr.valid (hwrap.valid hs))
  exact ⟨t, ht, (hwrap.trans hcr).trans hlf⟩

theorem startLine_some : ∃ t, s.startLine = some t ∧ Step s t := by
  obtain ⟨wraps, hwraps⟩ := wraps_some hs
  unfold startLine
  rw [hwraps, bind_some]
  cases wraps with
  | false => exact ⟨s, rfl, Step.refl hs⟩
  | true => exact wrapLine_some hs

theorem makeRoom_step (h : s.makeRoom charWidth = some screen) : Screen.Step s.screen screen := by
  unfold makeRoom at h
  split at h
  · exact doShiftRowRight_step hs.screen h
  · exact some.inj h ▸ Screen.Step.refl hs.screen

end

theorem advance_step (hs : screen.Valid) (charWidth : Int) :
    Screen.Step screen (advance charWidth screen) := by
  unfold advance
  split
  · exact goTo_step hs _ _
  · exact Screen.Step.refl hs

/-- A character for which there is room is put. -/
theorem putHere_some (hs : s.Valid) (newchar : UInt32) (isDw : Bool)
    (hroom : s.makeRoom (if isDw then 2 else 1) = some screen) :
    ∃ t, s.putHere newchar isDw = some t ∧ Step s t := by
  have hstep := makeRoom_step hs hroom
  obtain ⟨put, hput, hputStep⟩ := putCh_some hstep.valid newchar isDw
  unfold putHere
  dsimp only
  rw [hroom]
  simp only [bind_eq_bind, bind_some]
  rw [hput]
  have hadvance := hputStep.trans (advance_step hputStep.valid (if isDw then 2 else 1))
  refine ⟨_, rfl, ⟨?_, rfl, rfl⟩⟩
  dsimp only
  exact hstep.trans hadvance

theorem Step.withRegistry (hs : s.Valid) (registry : σ) :
    Step s { s with registry } := Step.of_screen hs rfl rfl rfl

section
variable (system : CharacterSystem σ)
include system

theorem appendToCurrent_some (hs : s.Valid) (input : List UInt16) :
    ∃ t rest, s.appendToCurrent system input = some (t, rest) ∧ Step s t := by
  obtain ⟨curr, hcurr⟩ := getCh_some hs.screen
  unfold appendToCurrent
  rw [hcurr]
  simp only [bind_eq_bind, bind_some]
  split
  · have hregistry := Step.withRegistry hs (system.append s.registry input curr).1
    split
    · obtain ⟨screen, hscreen, hstep⟩ := putCh_some hs.screen
        (system.append s.registry input curr).2.1
        (system.isDoubleWidth (system.append s.registry input curr).1
          (system.append s.registry input curr).2.1)
      rw [hscreen]
      exact ⟨_, _, rfl, hregistry.trans ⟨hstep, rfl, rfl⟩⟩
    · exact ⟨_, _, rfl, hregistry⟩
  · exact ⟨s, input, rfl, Step.refl hs⟩

end

/-! ## The other commands -/

section
variable (hs : s.Valid)
include hs

theorem processMC_step (movement : CursorMovement) : Step s (s.processMC movement) := by
  unfold processMC
  dsimp only
  split
  · split
    · exact moveTo_step hs _ _
    · exact moveTo_step hs _ _
    · exact moveTo_step hs _ _
    · exact Step.refl hs
  · split
    · exact moveTo_step hs _ _
    · exact moveTo_step hs _ _
    · exact moveTo_step hs _ _
    · exact Step.refl hs

theorem processHT_step (amount : Int) : Step s (s.processHT amount) := by
  unfold processHT
  split
  · exact Step.refl hs
  · split
    · exact moveTo_step hs _ _
    · exact moveTo_step hs _ _

theorem processScreenAlignment_some : ∃ t, s.processScreenAlignment = some t ∧ Step s t := by
  obtain ⟨screen, hscreen, hstep⟩ := fillScreenWithSpace_some hs.screen
    { s.screen.buffer.eraseChar with l := 69 }
  refine withScreen_some ⟨screen.goTo 0 0, ?_, hstep.trans (goTo_step hstep.valid 0 0)⟩
  rw [hscreen]
  rfl

theorem processEraseInDisplay_some (area : DisplayArea) :
    ∃ t, s.processEraseInDisplay area = some t ∧ Step s t :=
  withScreen_some (doEraseScreen_some hs.screen _)

theorem processEraseInLine_some (area : LineArea) :
    ∃ t, s.processEraseInLine area = some t ∧ Step s t :=
  withScreen_some (eraseInLine_some hs.screen _)

end

theorem toUnsigned_of_bounds (hlow : 0 ≤ value) (hhigh : value < 2 ^ 32) :
    (toUnsigned value : Int) = value := by
  unfold toUnsigned
  omega

theorem processEraseCharacters_some (hs : s.Valid) (amount : UInt32) :
    ∃ t, s.processEraseCharacters amount = some t ∧ Step s t := by
  have hposX := hs.screen.posX
  have hposY := hs.screen.posY
  have hwidth := hs.screen.width
  have hheight := hs.screen.height
  unfold processEraseCharacters
  split
  · exact ⟨s, rfl, Step.refl hs⟩
  · exact withScreen_some (eraseAt_some hs.screen
      (toUnsigned_of_bounds hposX.1 (by omega)) (toUnsigned_of_bounds hposY.1 (by omega)) _)

theorem processInsertLines_some (hs : s.Valid) (lines : UInt32) :
    ∃ t, s.processInsertLines lines = some t ∧ Step s t := by
  unfold processInsertLines
  dsimp only
  split
  · exact ⟨s, rfl, Step.refl hs⟩
  · exact withScreen_some (scrollDown_some hs.screen hs.screen.posY.1 _ _)

theorem processDeleteLines_some (hs : s.Valid) (lines : UInt32) :
    ∃ t, s.processDeleteLines lines = some t ∧ Step s t := by
  unfold processDeleteLines
  dsimp only
  split
  · exact ⟨s, rfl, Step.refl hs⟩
  · exact withScreen_some (doScrollUp_some hs.screen hs.screen.posY.1 _ _)

/-- Nothing but the erase character of the screen changes. -/
def Recolored (s t : Interpreter σ) : Prop :=
  Screen.Recolored s.screen t.screen ∧ t.extent = s.extent ∧
    t.allowScreenResize = s.allowScreenResize

theorem Recolored.trans (h : Recolored s t) (h' : Recolored t u) : Recolored s u :=
  ⟨h.1.trans h'.1, h'.2.1.trans h.2.1, h'.2.2.trans h.2.2⟩

theorem Recolored.step (hs : s.Valid) (h : Recolored s t) : Step s t := by
  obtain ⟨⟨eraseChar, hscreen⟩, hextent, hallow⟩ := h
  exact ⟨hscreen.symm ▸ withEraseChar_step hs.screen eraseChar, hextent, hallow⟩

theorem recolored_setFg (s : Interpreter σ) (color : Option Color) : Recolored s (s.setFg color) :=
  ⟨recolored_setFgColor s.screen color, rfl, rfl⟩

theorem recolored_setBg (s : Interpreter σ) (color : Option Color) : Recolored s (s.setBg color) :=
  ⟨recolored_setBgColor s.screen color, rfl, rfl⟩

theorem recolored_setFaint (s : Interpreter σ) (on : Bool) : Recolored s (s.setFaint on) :=
  ⟨Screen.recolored_setFaint s.screen on, rfl, rfl⟩

theorem recolored_setInverse (s : Interpreter σ) (on : Bool) : Recolored s (s.setInverse on) :=
  ⟨recolored_setReverse s.screen on, rfl, rfl⟩

theorem recolored_setBold (s : Interpreter σ) (on : Bool) : Recolored s (s.setBold on) :=
  ⟨Screen.recolored_setBold s.screen on, rfl, rfl⟩

theorem recolored_setItalic (s : Interpreter σ) (on : Bool) : Recolored s (s.setItalic on) :=
  ⟨Screen.recolored_setItalic s.screen on, rfl, rfl⟩

theorem recolored_setInvisible (s : Interpreter σ) (on : Bool) : Recolored s (s.setInvisible on) :=
  ⟨Screen.recolored_setInvisible s.screen on, rfl, rfl⟩

theorem recolored_setBlink (s : Interpreter σ) (on : Bool) : Recolored s (s.setBlink on) :=
  ⟨Screen.recolored_setBlink s.screen on, rfl, rfl⟩

theorem recolored_setUnderline (s : Interpreter σ) (on : Bool) : Recolored s (s.setUnderline on) :=
  ⟨Screen.recolored_setUnderline s.screen on, rfl, rfl⟩

theorem recolored_setCrossed (s : Interpreter σ) (on : Bool) : Recolored s (s.setCrossed on) :=
  ⟨Screen.recolored_setCrossed s.screen on, rfl, rfl⟩

theorem recolored_normal (s : Interpreter σ) (color : Color) :
    Recolored s (s.processSetCharacterAttributes { mode := .normal, color }) :=
  ((((((((((recolored_setFaint s false).trans (recolored_setInverse _ false)).trans
    (recolored_setBold _ false)).trans (recolored_setItalic _ false)).trans
    (recolored_setInvisible _ false)).trans (recolored_setBlink _ false)).trans
    (recolored_setUnderline _ false)).trans (recolored_setCrossed _ false)).trans
    (recolored_setFg _ none)).trans (recolored_setBg _ none))

theorem recolored_processSetCharacterAttributes (s : Interpreter σ)
    (attributes : CharacterAttributes) :
    Recolored s (s.processSetCharacterAttributes attributes) := by
  obtain ⟨mode, color⟩ := attributes
  cases mode
  case normal => exact recolored_normal s color
  case notBoldNotFaint => exact (recolored_setFaint s false).trans (recolored_setBold _ false)
  case faint => exact recolored_setFaint s true
  case inverse => exact recolored_setInverse s true
  case notInverse => exact recolored_setInverse s false
  case bold => exact recolored_setBold s true
  case italicized => exact recolored_setItalic s true
  case notItalicized => exact recolored_setItalic s false
  case invisible => exact recolored_setInvisible s true
  case notInvisible => exact recolored_setInvisible s false
  case blink => exact recolored_setBlink s true
  case notBlink => exact recolored_setBlink s false
  case underlined => exact recolored_setUnderline s true
  case doublyUnderlined => exact recolored_setUnderline s true
  case notUnderlined => exact recolored_setUnderline s false
  case foregroundColor => exact recolored_setFg s (some color)
  case foregroundDefault => exact recolored_setFg s none
  case backgroundColor => exact recolored_setBg s (some color)
  case backgroundDefault => exact recolored_setBg s none
  case crossed => exact recolored_setCrossed s true
  case notCrossed => exact recolored_setCrossed s false

theorem processSetCharacterAttributes_step (hs : s.Valid) (attributes : CharacterAttributes) :
    Step s (s.processSetCharacterAttributes attributes) :=
  (recolored_processSetCharacterAttributes s attributes).step hs

theorem updateCharacterAttributes_step (hs : s.Valid) : Step s s.updateCharacterAttributes := by
  unfold updateCharacterAttributes
  refine Recolored.step hs ⟨?_, rfl, rfl⟩
  refine Screen.Recolored.trans ?_ (Screen.recolored_setCrossed _ _)
  refine Screen.Recolored.trans ?_ (Screen.recolored_setUnderline _ _)
  refine Screen.Recolored.trans ?_ (Screen.recolored_setBlink _ _)
  refine Screen.Recolored.trans ?_ (Screen.recolored_setInvisible _ _)
  refine Screen.Recolored.trans ?_ (Screen.recolored_setItalic _ _)
  refine Screen.Recolored.trans ?_ (Screen.recolored_setBold _ _)
  refine Screen.Recolored.trans ?_ (recolored_setReverse _ _)
  refine Screen.Recolored.trans ?_ (Screen.recolored_setFaint _ _)
  refine Screen.Recolored.trans ?_ (recolored_setBgColor _ _)
  exact recolored_setFgColor _ _

/-- The interpreter of a screen, before it sets the attributes. -/
def fresh (screen : Screen) (registry : σ) : Interpreter σ :=
  { screen, registry,
    extent := {
      height := screen.height, width := screen.width, top := 0, bottom := screen.height },
    tabStops := defaultTabStops }

theorem new_step (hscreen : screen.Valid) (registry : σ) :
    Step (fresh screen registry) (new screen registry) :=
  updateCharacterAttributes_step ⟨hscreen, Int.le_refl 0⟩

theorem new_valid (hscreen : screen.Valid) (registry : σ) : (new screen registry).Valid :=
  (new_step hscreen registry).valid ⟨hscreen, Int.le_refl 0⟩

theorem processDesignateCharacterSet_step (hs : s.Valid) (designation : CharacterSetDesignation) :
    Step s (s.processDesignateCharacterSet designation) := by
  unfold processDesignateCharacterSet
  dsimp only
  split
  · exact Step.of_screen hs rfl rfl rfl
  · exact Step.refl hs

theorem processSelectCharacterSet_step (hs : s.Valid) (target : UInt32) :
    Step s (s.processSelectCharacterSet target) := by
  unfold processSelectCharacterSet
  split
  · exact Step.of_screen hs rfl rfl rfl
  · exact Step.refl hs

theorem processRestoreState_step (hs : s.Valid) : Step s s.processRestoreState := by
  unfold processRestoreState
  split
  · exact Step.refl hs
  · next saved hsaved =>
    have hmove := moveTo_step hs saved.x saved.y
    have hset : Step s { s.moveTo saved.x saved.y with
        gx := saved.characterSets, translateMap := saved.translateMap,
        rendition := saved.rendition } := ⟨hmove.screen, hmove.extent, hmove.allow⟩
    exact hset.trans (updateCharacterAttributes_step (hset.valid hs))

theorem processClearTab_step (hs : s.Valid) (mode : TabClear) :
    Step s (s.processClearTab mode) := by
  cases mode <;> exact Step.of_screen hs rfl rfl rfl

end Interpreter

end WinCommander.Term
