/-
  Entering the alternate screen and leaving it again.

  Behind the alternate screen the scrollback, the sizes and the snapshot of the primary screen
  are kept by every command (`Follows`). The snapshot has the cells and the cursor, and leaving
  puts them back; it does not have the flags of the rows (`alternateScreen_transparent_iff`).
-/
import WinCommander.Term.InterpreterSteps

namespace WinCommander.Term

open Library List Screen Option Row

namespace Interpreter

variable {σ : Type}

/-- What every other command does. -/
structure Follows (s t : Interpreter σ) : Prop where
  screen : Screen.Step s.screen t.screen
  valid : t.Valid
  allow : t.allowScreenResize = s.allowScreenResize

theorem Follows.refl (hs : s.Valid) : Follows s s :=
  ⟨Screen.Step.refl hs.screen, hs, rfl⟩

theorem Follows.trans (h : Follows s t) (h' : Follows t u) : Follows s u :=
  ⟨h.screen.trans h'.screen, h'.valid, h'.allow.trans h.allow⟩

variable {s t : Interpreter σ} {command : Command} {exit : Exit}

theorem Step.follows (hs : s.Valid) (h : Step s t) : Follows s t :=
  ⟨h.screen, h.valid hs, h.allow⟩

section
variable (system : CharacterSystem σ)
include system

end

/-! ## Leaving -/

def flags (s : Interpreter σ) : List Bool := s.screen.buffer.onScreen.map Row.wrapped

/-- Cells, cursor, flags and scrollback are what they were. -/
structure Restored (s t : Interpreter σ) : Prop where
  cells : t.screen.buffer.onScreen.map Row.cells = s.screen.buffer.onScreen.map Row.cells
  posX : t.screen.posX = s.screen.posX
  posY : t.screen.posY = s.screen.posY
  flags : t.flags = s.flags
  back : t.screen.buffer.backScreen = s.screen.buffer.backScreen

/-- What is kept of the primary screen while the alternate one is shown. -/
structure Behind (s t : Interpreter σ) : Prop where
  valid : t.Valid
  alternate : t.screen.alternateScreen = true
  screenshot : t.screen.primaryScreenshot = s.screen.captureScreen
  width : t.screen.buffer.width = s.screen.buffer.width
  height : t.screen.buffer.height = s.screen.buffer.height
  back : t.screen.buffer.backScreen = s.screen.buffer.backScreen
  allow : t.allowScreenResize = s.allowScreenResize

theorem Behind.follows (h : Behind s t) (h' : Follows t u) : Behind s u :=
  ⟨h'.valid, h'.screen.kept.alternate.trans h.alternate, h'.screen.kept.primary.trans h.screenshot,
    h'.screen.kept.width.trans h.width, h'.screen.kept.height.trans h.height,
    (h'.screen.kept.back h.alternate).trans h.back, h'.allow.trans h.allow⟩

def leaving (screen : Screen) : Screen :=
  { screen with
    alternativeScreenshot := screen.captureScreen,
    buffer := screen.buffer.revertToSnapshot screen.primaryScreenshot.snapshot }

theorem setAlternateScreen_false {screen : Screen} (h : screen.alternateScreen = true) :
    screen.setAlternateScreen false =
      { (leaving screen).goTo screen.primaryScreenshot.posX screen.primaryScreenshot.posY with
        alternateScreen := false } := by
  have hne : ¬ screen.alternateScreen = false := by
    rw [h]
    exact Bool.noConfusion
  unfold Screen.setAlternateScreen
  rw [if_neg hne, if_pos h]
  rfl

theorem map_zipWith_cells {lines : List Line} {chars : List (List Space)}
    (h : lines.length = chars.length) :
    (zipWith (fun line cells => { line with cells }) lines chars).map cells = chars := by
  induction lines generalizing chars with
  | nil => exact (length_eq_zero_iff.mp h.symm).symm
  | cons line lines ih =>
    cases chars with
    | nil => cases h
    | cons first chars => exact congrArg (first :: ·) (ih (Nat.succ.inj h))

theorem map_zipWith_wrapped {lines : List Line} {chars : List (List Space)}
    (h : lines.length = chars.length) :
    (zipWith (fun line cells => { line with cells }) lines chars).map wrapped =
      lines.map wrapped := by
  induction lines generalizing chars with
  | nil => rfl
  | cons line lines ih =>
    cases chars with
    | nil => cases h
    | cons first chars => exact congrArg (line.wrapped :: ·) (ih (Nat.succ.inj h))

/-- Leaving brings everything back but the flags, which stay as they are. -/
theorem Behind.leave (hs : s.Valid) (h : Behind s t) :
    Restored s (t.setAlternateScreen false) ↔ t.flags = s.flags := by
  have hrows : t.screen.buffer.onScreen.length =
      (s.screen.buffer.onScreen.map cells).length := by
    rw [length_map, h.valid.screen.buffer.rows, hs.screen.buffer.rows, h.height]
  have hsame : t.screen.buffer.height = s.screen.captureScreen.snapshot.height ∧
      t.screen.buffer.width = s.screen.captureScreen.snapshot.width := ⟨h.height, h.width⟩
  have hscreen := setAlternateScreen_false h.alternate
  rw [h.screenshot] at hscreen
  have hleaving : (leaving t.screen).Valid :=
    ⟨h.valid.screen.buffer.revertToSnapshot h.valid.screen.primary, h.valid.screen.width,
      h.valid.screen.height, h.valid.screen.posX, h.valid.screen.posY, h.valid.screen.primary,
      h.valid.screen.buffer.makeSnapshot⟩
  have hbuffer : (t.setAlternateScreen false).screen.buffer =
      t.screen.buffer.revertToSnapshot s.screen.captureScreen.snapshot := by
    unfold setAlternateScreen
    dsimp only
    rw [hscreen, ← h.screenshot]
    rfl
  have honScreen : (t.setAlternateScreen false).screen.buffer.onScreen =
      zipWith (fun line cells => { line with cells }) t.screen.buffer.onScreen
        (s.screen.buffer.onScreen.map cells) := by
    rw [hbuffer]
    exact if_pos hsame
  have hposX : 0 ≤ s.screen.posX ∧ s.screen.posX < (leaving t.screen).buffer.width :=
    ⟨hs.screen.posX.1, h.width.symm ▸ hs.screen.posX.2⟩
  have hposY : 0 ≤ s.screen.posY ∧ s.screen.posY < (leaving t.screen).buffer.height :=
    ⟨hs.screen.posY.1, h.height.symm ▸ hs.screen.posY.2⟩
  obtain ⟨hx, hy⟩ := goTo_pos hleaving hposX hposY
  have hback : (t.setAlternateScreen false).screen.buffer.backScreen =
      s.screen.buffer.backScreen := by
    rw [hbuffer, (revertToSnapshot_sizes _ _).2.2, h.back]
  have hflags : (t.setAlternateScreen false).flags = t.flags := by
    unfold flags
    rw [honScreen, map_zipWith_wrapped hrows]
  constructor
  · intro hrestored
    rw [← hflags, hrestored.flags]
  · intro heq
    refine ⟨?_, ?_, ?_, hflags.trans heq, hback⟩
    · rw [honScreen, map_zipWith_cells hrows]
    · unfold setAlternateScreen
      dsimp only
      rw [hscreen]
      exact hx
    · unfold setAlternateScreen
      dsimp only
      rw [hscreen]
      exact hy

/-- Bytes as characters of one column. -/
def singleByteSystem : CharacterSystem Unit where
  toUTF16 bytes := bytes.map UInt8.toUInt16
  append _ input initial :=
    match input with
    | [] => ((), initial, 0)
    | first :: _ => if initial = 0 then ((), first.toUInt32, 1) else ((), initial, 0)
  isDoubleWidth _ _ := false
  append_eaten_pos _ input h := by
    cases input with
    | nil => exact absurd rfl h
    | cons first rest => exact Nat.one_pos

end Interpreter

end WinCommander.Term
