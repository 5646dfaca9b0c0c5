/-
  What operations on the screen keep.

  A valid screen has its cursor inside it and lines of its width. `Step` is what every operation
  but a resize and a switch of screens does: the screen stays valid, and its size, the snapshot of
  the primary screen and the scrollback behind the alternate screen are not touched. Only shifts
  of a row can leave it (`doShiftRowLeft_step`, `doShiftRowRight_step`).
-/
import WinCommander.Term.Resize
import WinCommander.Term.Screen

namespace WinCommander.Term

open Library List ScreenBuffer
open Option (bind_eq_bind bind_eq_some_iff bind_some some)

/-! ## Numbers and cells -/

theorem toInt_of_bounds {value : Int} (hlow : -2 ^ 31 ≤ value) (hhigh : value < 2 ^ 31) :
    toInt value = value := by
  exact Int.bmod_eq_of_le (by omega) (by omega)

theorem toInt_natCast {n : Nat} (h : n < 2 ^ 31) : toInt n = n :=
  toInt_of_bounds (by omega) (by omega)

theorem toInt_beyond {value : Int} (hlow : 2 ^ 31 ≤ value) (hhigh : value < 2 ^ 32) :
    toInt value = value - 2 ^ 32 := by
  unfold toInt
  rw [Int.bmod_eq_iff (by decide)]
  exact ⟨by omega, by omega, ⟨-1, by omega⟩⟩

variable (cells : List Space)

theorem readCell_of_mem {x : Int} (hlow : 0 ≤ x) (hhigh : x < cells.length) :
    ∃ cell, readCell cells x = some cell := by
  unfold readCell
  rw [if_pos hlow]
  exact ⟨_, List.getElem?_eq_getElem (by omega)⟩

theorem writeCell_of_mem {x : Int} (hlow : 0 ≤ x) (hhigh : x < cells.length) (space : Space) :
    ∃ cells', writeCell cells x space = some cells' ∧ cells'.length = cells.length :=
  ⟨_, if_pos ⟨hlow, hhigh⟩, length_set⟩

theorem length_writeCell {cells cells' : List Space} {x : Int} {space : Space}
    (h : writeCell cells x space = some cells') : cells'.length = cells.length := by
  unfold writeCell at h
  split at h
  · rw [← some.inj h, length_set]
  · cases h

theorem fillCells_of_mem {first last : Int} (hlow : 0 ≤ first) (hle : first ≤ last)
    (hhigh : last ≤ cells.length) (space : Space) :
    ∃ cells', fillCells cells first last space = some cells' ∧ cells'.length = cells.length := by
  refine ⟨_, if_pos ⟨hlow, hle, hhigh⟩, ?_⟩
  rw [length_append, length_append, length_take, length_replicate, length_drop]
  omega

/-! ## The buffer -/

namespace ScreenBuffer

variable {buffer : ScreenBuffer}

variable {n : Int}

theorem Valid.length_cellsOf (h : buffer.Valid) (hlow : 0 ≤ n) (hhigh : n < buffer.height) :
    (buffer.cellsOf n).length = buffer.width := by
  have hlt : n.toNat < buffer.onScreen.length := by
    rw [h.rows]
    omega
  unfold cellsOf lineFromNo
  rw [if_pos hlow, List.getElem?_eq_getElem hlt]
  exact h.cells _ (getElem_mem hlt)

theorem modifyLine_onScreen (hn : 0 ≤ n) (f : Line → Line) :
    buffer.modifyLine n f = { buffer with onScreen := buffer.onScreen.modify n.toNat f } := if_pos hn

section
variable (h : buffer.Valid)
include h

theorem Valid.modifyLine (hn : 0 ≤ n) {f : Line → Line}
    (hf : ∀ line, buffer.onScreen[n.toNat]? = some line → (f line).cells.length = buffer.width) :
    (buffer.modifyLine n f).Valid := by
  rw [modifyLine_onScreen hn]
  refine ⟨(length_modify _ _ _).trans h.rows, ?_, h.allocated⟩
  intro line hline
  obtain ⟨i, hi, rfl⟩ := mem_iff_getElem.mp hline
  rw [getElem_modify]
  split
  · next heq =>
    subst heq
    exact hf _ (List.getElem?_eq_getElem _)
  · exact h.cells _ (getElem_mem _)

theorem Valid.setCells (hn : 0 ≤ n) {cells : List Space}
    (hcells : cells.length = (buffer.cellsOf n).length) : (buffer.setCells n cells).Valid := by
  refine h.modifyLine hn fun line hline => ?_
  have hlt : n.toNat < buffer.onScreen.length := (List.getElem?_eq_some_iff.mp hline).1
  have hrows := h.rows
  rw [hcells]
  exact h.length_cellsOf hn (by omega)

theorem Valid.setLineWrapped (hn : 0 ≤ n) (wrapped : Bool) :
    (buffer.setLineWrapped n wrapped).Valid := by
  refine h.modifyLine hn fun line hline => ?_
  exact h.cells line (mem_of_getElem? hline)

theorem Valid.feedBackscreen (spaces : List Space) (wrapped : Bool) :
    (buffer.feedBackscreen spaces wrapped).Valid := by
  refine ⟨h.rows, h.cells, fun line hline hcells => ?_⟩
  change (buffer.backAllocated || any _ _)
  rw [Bool.or_eq_true, any_eq_true]
  rcases mem_append.mp hline with hold | hnew
  · exact Or.inl (h.allocated line hold hcells)
  · exact Or.inr ⟨line, hnew, decide_eq_true hcells⟩

end

/-- A snapshot that was made of a valid buffer, or none. -/
structure Snapshot.Valid (snapshot : Snapshot) : Prop where
  rows : snapshot.chars.length = snapshot.height
  cells : ∀ chars ∈ snapshot.chars, chars.length = snapshot.width

theorem Valid.makeSnapshot (h : buffer.Valid) : buffer.makeSnapshot.Valid := by
  refine ⟨(length_map _).trans h.rows, fun chars hchars => ?_⟩
  obtain ⟨line, hline, rfl⟩ := mem_map.mp hchars
  exact h.cells line hline

theorem Valid.revertToSnapshot (h : buffer.Valid) {snapshot : Snapshot} (hsnapshot : snapshot.Valid)
    : (buffer.revertToSnapshot snapshot).Valid := by
  unfold ScreenBuffer.revertToSnapshot
  split
  · next heq =>
    refine ⟨?_, ?_, h.allocated⟩
    · rw [length_zipWith, h.rows, hsnapshot.rows, heq.1, Nat.min_self]
    · intro line hline
      obtain ⟨i, hi, rfl⟩ := mem_iff_getElem.mp hline
      rw [getElem_zipWith]
      exact (hsnapshot.cells _ (getElem_mem _)).trans heq.2.symm
  · refine ⟨length_mapIdx.trans h.rows, ?_, h.allocated⟩
    intro line hline
    obtain ⟨i, hi, rfl⟩ := mem_iff_getElem.mp hline
    rw [getElem_mapIdx]
    change (buffer.revertLine snapshot i).length = buffer.width
    unfold revertLine
    rw [length_append, length_replicate]
    have hle : (if i < min snapshot.height buffer.height then
        (snapshot.chars.getD i []).take (min snapshot.width buffer.width) else []).length ≤
        buffer.width := by
      split
      · rw [length_take]
        omega
      · exact Nat.zero_le _
    omega

end ScreenBuffer

namespace Screen

structure Valid (screen : Screen) : Prop where
  buffer : screen.buffer.Valid
  width : screen.buffer.width < 2 ^ 31
  height : screen.buffer.height < 2 ^ 31
  posX : 0 ≤ screen.posX ∧ screen.posX < screen.buffer.width
  posY : 0 ≤ screen.posY ∧ screen.posY < screen.buffer.height
  primary : screen.primaryScreenshot.snapshot.Valid
  alternative : screen.alternativeScreenshot.snapshot.Valid

/-- What only a resize or a switch of screens changes. -/
structure Kept (s t : Screen) : Prop where
  width : t.buffer.width = s.buffer.width
  height : t.buffer.height = s.buffer.height
  alternate : t.alternateScreen = s.alternateScreen
  primary : t.primaryScreenshot = s.primaryScreenshot
  back : s.alternateScreen = true → t.buffer.backScreen = s.buffer.backScreen

structure Step (s t : Screen) : Prop where
  valid : t.Valid
  kept : Kept s t

theorem Kept.refl (s : Screen) : Kept s s := ⟨rfl, rfl, rfl, rfl, fun _ => rfl⟩

theorem Kept.trans {s t u : Screen} (h : Kept s t) (h' : Kept t u) : Kept s u :=
  ⟨h'.width.trans h.width, h'.height.trans h.height, h'.alternate.trans h.alternate,
    h'.primary.trans h.primary, fun hs => (h'.back (h.alternate.trans hs)).trans (h.back hs)⟩

variable {s : Screen} {n : Int}

theorem Step.refl (hs : s.Valid) : Step s s := ⟨hs, Kept.refl s⟩

theorem Step.trans {s t u : Screen} (h : Step s t) (h' : Step t u) : Step s u :=
  ⟨h'.valid, h.kept.trans h'.kept⟩

theorem Valid.width_eq (h : s.Valid) : s.width = s.buffer.width :=
  toInt_natCast h.width

theorem Valid.height_eq (h : s.Valid) : s.height = s.buffer.height :=
  toInt_natCast h.height

theorem Valid.length_line (h : s.Valid) : (s.buffer.cellsOf s.posY).length = s.buffer.width :=
  h.buffer.length_cellsOf h.posY.1 h.posY.2

theorem Valid.line_ne_nil (h : s.Valid) : s.buffer.cellsOf s.posY ≠ [] := by
  intro hnil
  have hlength := h.length_line
  have hposX := h.posX
  rw [hnil, length_nil] at hlength
  omega

/-! ## Primitive steps -/

theorem step_of_buffer (hs : s.Valid) {buffer : ScreenBuffer} (hvalid : buffer.Valid)
    (hwidth : buffer.width = s.buffer.width) (hheight : buffer.height = s.buffer.height)
    (hback : s.alternateScreen → buffer.backScreen = s.buffer.backScreen) :
    Step s { s with buffer } :=
  ⟨⟨hvalid, hwidth ▸ hs.width, hheight ▸ hs.height, hwidth ▸ hs.posX, hheight ▸ hs.posY, hs.primary,
    hs.alternative⟩, ⟨hwidth, hheight, rfl, rfl, hback⟩⟩

theorem setLineWrapped_step (hs : s.Valid) (hn : 0 ≤ n) (wrapped : Bool) :
    Step s (s.setLineWrapped n wrapped) := by
  have heq : s.buffer.setLineWrapped n wrapped = _ := modifyLine_onScreen hn _
  refine step_of_buffer hs (hs.buffer.setLineWrapped hn wrapped) ?_ ?_ ?_
  · rw [heq]
  · rw [heq]
  · intro _
    rw [heq]

theorem setCells_step (hs : s.Valid) (hn : 0 ≤ n) {cells : List Space}
    (hcells : cells.length = (s.buffer.cellsOf n).length) :
    Step s { s with buffer := s.buffer.setCells n cells } := by
  have heq : s.buffer.setCells n cells = _ := modifyLine_onScreen hn _
  refine step_of_buffer hs (hs.buffer.setCells hn hcells) ?_ ?_ ?_
  · rw [heq]
  · rw [heq]
  · intro _
    rw [heq]

theorem withLine_step {s t : Screen} (hs : s.Valid) (hn : 0 ≤ n)
    {f : List Space → Option (List Space)}
    (hf : ∀ cells', f (s.buffer.cellsOf n) = some cells' → cells'.length = (s.buffer.cellsOf n).length)
    (h : s.withLine n f = some t) : Step s t := by
  unfold withLine at h
  cases hcells : f (s.buffer.cellsOf n) with
  | none =>
    rw [hcells] at h
    cases h
  | some cells =>
    rw [hcells] at h
    rw [← some.inj h]
    exact setCells_step hs hn (hf cells hcells)

/-- An operation on a line that never leaves it. -/
theorem withLine_some (hs : s.Valid) (hn : 0 ≤ n) (f : List Space → Option (List Space))
    (hf : ∃ cells', f (s.buffer.cellsOf n) = some cells' ∧ cells'.length = (s.buffer.cellsOf n).length) :
    ∃ t, s.withLine n f = some t ∧ Step s t ∧ t.posX = s.posX ∧ t.posY = s.posY := by
  obtain ⟨cells, hcells, hlength⟩ := hf
  refine ⟨{ s with buffer := s.buffer.setCells n cells }, ?_, setCells_step hs hn hlength, rfl, rfl⟩
  unfold withLine
  rw [hcells]
  rfl

theorem goTo_step (hs : s.Valid) (x y : Int) : Step s (s.goTo x y) := by
  have hwidth := hs.width_eq
  have hheight := hs.height_eq
  have hposX := hs.posX
  have hposY := hs.posY
  refine ⟨⟨hs.buffer, hs.width, hs.height, ?_, ?_, hs.primary, hs.alternative⟩,
    ⟨rfl, rfl, rfl, rfl, fun _ => rfl⟩⟩
  · unfold goTo
    dsimp only
    split <;> omega
  · unfold goTo
    dsimp only
    split <;> omega

/-- In the screen, the cursor goes where it should. -/
theorem goTo_pos (hs : s.Valid) {x y : Int} (hx : 0 ≤ x ∧ x < s.buffer.width)
    (hy : 0 ≤ y ∧ y < s.buffer.height) : (s.goTo x y).posX = x ∧ (s.goTo x y).posY = y := by
  have hwidth := hs.width_eq
  have hheight := hs.height_eq
  unfold goTo
  dsimp only
  constructor <;> split <;> omega

theorem goTo_buffer (s : Screen) (x y : Int) : (s.goTo x y).buffer = s.buffer := rfl

theorem new_valid {width height : Nat} (hwidth : 0 < width ∧ width < 2 ^ 31)
    (hheight : 0 < height ∧ height < 2 ^ 31) : (new width height).Valid := by
  have hbuffer : (ScreenBuffer.new width height).Valid := by
    refine ⟨length_replicate, ?_, fun line hline => ?_⟩
    · intro line hline
      rw [eq_of_mem_replicate hline]
      exact length_replicate
    · exact absurd hline not_mem_nil
  have hsnapshot : ScreenBuffer.Snapshot.Valid {} :=
    ⟨rfl, fun chars hchars => absurd hchars not_mem_nil⟩
  have hvalid : Valid { buffer := ScreenBuffer.new width height } :=
    ⟨hbuffer, hwidth.2, hheight.2, ⟨Int.le_refl 0, Int.natCast_pos.mpr hwidth.1⟩,
      ⟨Int.le_refl 0, Int.natCast_pos.mpr hheight.1⟩, hsnapshot, hsnapshot⟩
  exact (goTo_step hvalid 0 0).valid

theorem setVideoReverse_step (hs : s.Valid) (reverse : Bool) : Step s (s.setVideoReverse reverse) :=
  ⟨⟨hs.buffer, hs.width, hs.height, hs.posX, hs.posY, hs.primary, hs.alternative⟩,
    ⟨rfl, rfl, rfl, rfl, fun _ => rfl⟩⟩

theorem withEraseChar_step (hs : s.Valid) (eraseChar : Space) :
    Step s (s.withEraseChar eraseChar) :=
  ⟨⟨⟨hs.buffer.rows, hs.buffer.cells, hs.buffer.allocated⟩, hs.width, hs.height, hs.posX, hs.posY,
    hs.primary, hs.alternative⟩, ⟨rfl, rfl, rfl, rfl, fun _ => rfl⟩⟩

/-- Nothing but the erase character changes. -/
def Recolored (s t : Screen) : Prop := ∃ eraseChar, t = s.withEraseChar eraseChar

theorem Recolored.trans {s t u : Screen} (h : Recolored s t) (h' : Recolored t u) :
    Recolored s u := by
  obtain ⟨first, rfl⟩ := h
  obtain ⟨second, rfl⟩ := h'
  exact ⟨second, rfl⟩

theorem recolored_setFgColor (s : Screen) (color : Option Color) :
    Recolored s (s.setFgColor color) := ⟨_, rfl⟩

theorem recolored_setBgColor (s : Screen) (color : Option Color) :
    Recolored s (s.setBgColor color) := ⟨_, rfl⟩

theorem recolored_setFaint (s : Screen) (on : Bool) : Recolored s (s.setFaint on) := ⟨_, rfl⟩

theorem recolored_setUnderline (s : Screen) (on : Bool) : Recolored s (s.setUnderline on) :=
  ⟨_, rfl⟩

theorem recolored_setCrossed (s : Screen) (on : Bool) : Recolored s (s.setCrossed on) := ⟨_, rfl⟩

theorem recolored_setReverse (s : Screen) (on : Bool) : Recolored s (s.setReverse on) := ⟨_, rfl⟩

theorem recolored_setBold (s : Screen) (on : Bool) : Recolored s (s.setBold on) := ⟨_, rfl⟩

theorem recolored_setItalic (s : Screen) (on : Bool) : Recolored s (s.setItalic on) := ⟨_, rfl⟩

theorem recolored_setInvisible (s : Screen) (on : Bool) : Recolored s (s.setInvisible on) :=
  ⟨_, rfl⟩

theorem recolored_setBlink (s : Screen) (on : Bool) : Recolored s (s.setBlink on) := ⟨_, rfl⟩

/-! ## Characters -/

theorem getCh_some (hs : s.Valid) : ∃ char, s.getCh = some char := by
  have hlength := hs.length_line
  have hposX := hs.posX
  unfold getCh
  rw [if_neg hs.line_ne_nil, if_pos (by omega)]
  obtain ⟨cell, hcell⟩ := readCell_of_mem (s.buffer.cellsOf s.posY) hs.posX.1 (by omega)
  rw [hcell]
  exact ⟨_, rfl⟩

variable {x : Int} {cells cells' : List Space} {chars : Int}

theorem writeChar_some (line : List Space) (hlow : 0 ≤ x) (hhigh : x < line.length) (sp : Space)
    (isDw : Bool) :
    ∃ cells, writeChar line x sp isDw = some cells ∧ cells.length = line.length := by
  obtain ⟨cells, hcells, hlength⟩ := writeCell_of_mem line hlow hhigh sp
  unfold writeChar
  rw [hcells]
  split
  · next hroom =>
    obtain ⟨cells', hcells', hlength'⟩ := writeCell_of_mem cells (x := x + 1)
      (by omega) (by omega) { sp with l := multiCellGlyph }
    exact ⟨cells', hcells', hlength'.trans hlength⟩
  · exact ⟨cells, rfl, hlength⟩

theorem putCh_some (hs : s.Valid) (char : UInt32) (isDw : Bool) :
    ∃ t, s.putCh char isDw = some t ∧ Step s t := by
  have hlength := hs.length_line
  have hposX := hs.posX
  obtain ⟨t, ht, hstep, hx, hy⟩ := withLine_some hs hs.posY.1
    (fun line => writeChar line s.posX { s.eraseChar with l := char } isDw)
    (writeChar_some _ hs.posX.1 (by omega) _ isDw)
  have hposY : 0 ≤ t.posY := hy ▸ hs.posY.1
  have hflag (overflown : Bool) : Step s
      ({ t with lineOverflown := overflown }.setLineWrapped t.posY false) := by
    have hvalid : { t with lineOverflown := overflown }.Valid :=
      ⟨hstep.valid.buffer, hstep.valid.width, hstep.valid.height, hstep.valid.posX,
        hstep.valid.posY, hstep.valid.primary, hstep.valid.alternative⟩
    have hkept : Kept t { t with lineOverflown := overflown } := ⟨rfl, rfl, rfl, rfl, fun _ => rfl⟩
    exact (hstep.trans ⟨hvalid, hkept⟩).trans (setLineWrapped_step hvalid hposY false)
  unfold putCh
  dsimp only
  rw [if_neg hs.line_ne_nil, ht]
  exact ⟨_, rfl, hflag _⟩

theorem putWrap_step (hs : s.Valid) : Step s s.putWrap :=
  setLineWrapped_step hs hs.posY.1 true

/-! ## Erasing -/

theorem fillWhole_some (line : List Space) (space : Space) :
    ∃ cells, fillCells line 0 line.length space = some cells ∧ cells.length = line.length :=
  fillCells_of_mem line (Int.le_refl 0) (Int.natCast_nonneg _) (Int.le_refl _) space

theorem eraseWholeLine_some (hs : s.Valid) (hn : 0 ≤ n) :
    ∃ t, s.eraseWholeLine n = some t ∧ Step s t ∧ t.posX = s.posX ∧ t.posY = s.posY :=
  withLine_some hs hn _ (fillWhole_some _ _)

variable (count : Nat)

section
variable (hs : s.Valid)
include hs

theorem eraseToCursor_some {i : Int} (hi : 0 ≤ i) :
    ∃ t, eraseToCursor count i s = some t ∧ Step s t := by
  induction count generalizing s i with
  | zero => exact ⟨s, rfl, Step.refl hs⟩
  | succ count ih =>
    unfold eraseToCursor
    split
    · obtain ⟨t, ht, hstep, -⟩ := eraseWholeLine_some hs hi
      have hflag := setLineWrapped_step hstep.valid hi false
      obtain ⟨u, hu, hstep'⟩ := ih hflag.valid (i := i + 1) (by omega)
      rw [ht]
      exact ⟨u, hu, (hstep.trans hflag).trans hstep'⟩
    · next heq =>
      have hposX := hs.posX
      obtain rfl : i = s.posY := Classical.not_not.mp heq
      obtain ⟨t, ht, hstep, -⟩ := withLine_some hs hi
        (fun line => fillCells line 0 (min (s.posX + 1) line.length) s.eraseChar)
        (fillCells_of_mem _ (Int.le_refl 0) (by omega) (by omega) _)
      exact ⟨t, ht, hstep⟩

theorem eraseLines_some {i : Int} (hi : 0 ≤ i) : ∃ t, eraseLines count i s = some t ∧ Step s t := by
  induction count generalizing s i with
  | zero => exact ⟨s, rfl, Step.refl hs⟩
  | succ count ih =>
    obtain ⟨t, ht, hstep, -⟩ := eraseWholeLine_some hs hi
    have hflag := setLineWrapped_step hstep.valid hi false
    obtain ⟨u, hu, hstep'⟩ := ih hflag.valid (i := i + 1) (by omega)
    unfold eraseLines
    rw [ht]
    exact ⟨u, hu, (hstep.trans hflag).trans hstep'⟩

theorem eraseFrom_some (hn : 0 ≤ n) (hheight : n < s.buffer.height) (first : Int)
    (hfirst : 0 ≤ first) :
    ∃ t, s.eraseFrom n first = some t ∧ Step s t ∧ t.posX = s.posX ∧ t.posY = s.posY := by
  refine withLine_some hs hn _ ?_
  have hline := hs.buffer.length_cellsOf hn hheight
  have hwidth := hs.width_eq
  split
  · exact fillCells_of_mem _ hfirst (by omega) (by omega) _
  · exact ⟨_, rfl, rfl⟩

theorem eraseFromCursor_some {i : Int} (hi : 0 ≤ i) (hcount : i + count ≤ s.buffer.height) :
    ∃ t, eraseFromCursor count i s = some t ∧ Step s t := by
  induction count generalizing s i with
  | zero => exact ⟨s, rfl, Step.refl hs⟩
  | succ count ih =>
    have hflag := setLineWrapped_step hs hi false
    have hposX := hs.posX
    have hheight := hflag.kept.height
    obtain ⟨t, ht, hstep, -⟩ := eraseFrom_some hflag.valid hi (by omega)
      (if i = s.posY then s.posX else 0) (by split <;> omega)
    obtain ⟨u, hu, hstep'⟩ := ih hstep.valid (i := i + 1) (by omega)
      (by have := hstep.kept.height; omega)
    unfold eraseFromCursor
    rw [ht]
    exact ⟨u, hu, (hflag.trans hstep).trans hstep'⟩

theorem doEraseScreen_some (mode : Nat) : ∃ t, s.doEraseScreen mode = some t ∧ Step s t := by
  have hheight := hs.height_eq
  have hposY := hs.posY
  unfold doEraseScreen
  split
  · exact eraseToCursor_some _ hs (Int.le_refl 0)
  · split
    · exact eraseLines_some _ hs (Int.le_refl 0)
    · exact eraseFromCursor_some _ hs hs.posY.1 (by omega)

theorem eraseInLine_some (mode : Nat) : ∃ t, s.eraseInLine mode = some t ∧ Step s t := by
  have hposX := hs.posX
  refine (withLine_some hs hs.posY.1 _ ?_).imp fun t h => ⟨h.1, h.2.1⟩
  rw [if_neg hs.line_ne_nil]
  exact fillCells_of_mem _ (by split <;> omega) (by split <;> split <;> omega)
    (by split <;> omega) _

theorem eraseAt_some {x y : Nat} (hx : (x : Int) = s.posX) (hy : (y : Int) = s.posY) (count : Nat) :
    ∃ t, s.eraseAt x y count = some t ∧ Step s t := by
  have hline := hs.length_line
  have hposX := hs.posX
  have hposY := hs.posY
  have hheight := hs.height
  have hnumber : toInt y = s.posY := by
    rw [hy]
    exact toInt_of_bounds (by omega) (by omega)
  unfold eraseAt
  rw [hnumber]
  refine (withLine_some hs hs.posY.1 _ ?_).imp fun t h => ⟨h.1, h.2.1⟩
  rw [if_neg hs.line_ne_nil]
  exact fillCells_of_mem _ (by omega) (by omega) (by omega) _

end

theorem fillLines_some (space : Space) (count : Nat) (hs : s.Valid) {y : Int} (hy : 0 ≤ y) :
    ∃ t, fillLines space count y s = some t ∧ Step s t := by
  induction count generalizing s y with
  | zero => exact ⟨s, rfl, Step.refl hs⟩
  | succ count ih =>
    obtain ⟨t, ht, hstep, -⟩ := withLine_some hs hy
      (fun line => fillCells line 0 line.length space) (fillWhole_some _ space)
    obtain ⟨u, hu, hstep'⟩ := ih hstep.valid (y := y + 1) (by omega)
    unfold fillLines
    rw [ht]
    exact ⟨u, hu, hstep.trans hstep'⟩

theorem fillScreenWithSpace_some (hs : s.Valid) (space : Space) :
    ∃ t, s.fillScreenWithSpace space = some t ∧ Step s t :=
  fillLines_some space _ hs (Int.le_refl 0)

/-! ## Shifting -/

theorem length_shiftLeftLoop {count : Nat} (h : shiftLeftLoop chars count x cells = some cells') :
    cells'.length = cells.length := by
  induction count generalizing x cells with
  | zero => rw [← some.inj h]
  | succ count ih =>
    obtain ⟨cell, -, hwrite⟩ := bind_eq_some_iff.mp h
    obtain ⟨next, hnext, hrest⟩ := bind_eq_some_iff.mp hwrite
    exact (ih hrest).trans (length_writeCell hnext)

theorem length_shiftRightLoop {count : Nat} (h : shiftRightLoop chars count x cells = some cells') :
    cells'.length = cells.length := by
  induction count generalizing x cells with
  | zero => rw [← some.inj h]
  | succ count ih =>
    obtain ⟨cell, -, hwrite⟩ := bind_eq_some_iff.mp h
    obtain ⟨next, hnext, hrest⟩ := bind_eq_some_iff.mp hwrite
    exact (ih hrest).trans (length_writeCell hnext)

theorem length_writeLoop {space : Space} {step : Int} {count : Nat}
    (h : writeLoop space step count x cells = some cells') : cells'.length = cells.length := by
  induction count generalizing x cells with
  | zero => rw [← some.inj h]
  | succ count ih =>
    obtain ⟨next, hnext, hrest⟩ := bind_eq_some_iff.mp h
    exact (ih hrest).trans (length_writeCell hnext)

theorem doShiftRowRight_step {s t : Screen} (hs : s.Valid) (h : s.doShiftRowRight chars = some t) :
    Step s t := by
  refine withLine_step hs hs.posY.1 (fun cells hcells => ?_) h
  rw [if_neg hs.line_ne_nil] at hcells
  obtain ⟨next, hnext, hrest⟩ := bind_eq_some_iff.mp hcells
  exact (length_writeLoop hrest).trans (length_shiftRightLoop hnext)

theorem shiftLeftLoop_some (hchars : 0 ≤ chars) (count : Nat) (cells : List Space)
    (hlow : chars ≤ x) (hhigh : x + count ≤ cells.length) :
    ∃ cells', shiftLeftLoop chars count x cells = some cells' := by
  induction count generalizing x cells with
  | zero => exact ⟨cells, rfl⟩
  | succ count ih =>
    obtain ⟨cell, hcell⟩ := readCell_of_mem cells (x := x) (by omega) (by omega)
    obtain ⟨next, hnext, hlength⟩ := writeCell_of_mem cells (x := x - chars) (by omega) (by omega) cell
    obtain ⟨cells', hcells'⟩ := ih (x := x + 1) next (by omega) (by omega)
    unfold shiftLeftLoop
    rw [hcell, bind_eq_bind, bind_some, hnext]
    exact ⟨cells', hcells'⟩

theorem shiftRightLoop_some (hchars : 0 ≤ chars) (count : Nat) (cells : List Space)
    (hlow : chars ≤ x + 1 - count) (hhigh : x < cells.length) :
    ∃ cells', shiftRightLoop chars count x cells = some cells' := by
  induction count generalizing x cells with
  | zero => exact ⟨cells, rfl⟩
  | succ count ih =>
    obtain ⟨cell, hcell⟩ := readCell_of_mem cells (x := x - chars) (by omega) (by omega)
    obtain ⟨next, hnext, hlength⟩ := writeCell_of_mem cells (x := x) (by omega) (by omega) cell
    obtain ⟨cells', hcells'⟩ := ih (x := x - 1) next (by omega) (by omega)
    unfold shiftRightLoop
    rw [hcell, bind_eq_bind, bind_some, hnext]
    exact ⟨cells', hcells'⟩

theorem writeLoop_some (space : Space) {step : Int} (count : Nat) (cells : List Space)
    (h : step = 1 ∧ 0 ≤ x ∧ x + count ≤ cells.length ∨ step = -1 ∧ count ≤ x + 1 ∧ x < cells.length) :
    ∃ cells', writeLoop space step count x cells = some cells' := by
  induction count generalizing x cells with
  | zero => exact ⟨cells, rfl⟩
  | succ count ih =>
    obtain ⟨next, hnext, hlength⟩ := writeCell_of_mem cells (x := x) (by omega) (by omega) space
    obtain ⟨cells', hcells'⟩ := ih (x := x + step) next (by omega)
    unfold writeLoop
    rw [hnext]
    exact ⟨cells', hcells'⟩

/-- A row is shifted to the left inside it, when by no less than zero and no more than is left. -/
theorem doShiftRowLeft_some (hs : s.Valid) (hlow : 0 ≤ chars)
    (hhigh : chars ≤ s.buffer.width - s.posX) :
    ∃ t, s.doShiftRowLeft chars = some t ∧ Step s t := by
  have hline := hs.length_line
  have hwidth := hs.width_eq
  have hposX := hs.posX
  obtain ⟨cells, hcells⟩ := shiftLeftLoop_some hlow (s.width - (s.posX + chars)).toNat
    (x := s.posX + chars) (s.buffer.cellsOf s.posY) (by omega) (by omega)
  have hlength := length_shiftLeftLoop hcells
  obtain ⟨cells', hcells'⟩ := writeLoop_some s.eraseChar chars.toNat (x := s.width - 1)
    cells (.inr ⟨rfl, by omega⟩)
  refine (withLine_some hs hs.posY.1 _ ⟨cells', ?_, ?_⟩).imp fun t h => ⟨h.1, h.2.1⟩
  · rw [if_neg hs.line_ne_nil]
    dsimp only
    rw [hcells]
    exact hcells'
  · exact (length_writeLoop hcells').trans hlength

theorem doShiftRowRight_some (hs : s.Valid) (hlow : 0 ≤ chars)
    (hhigh : chars ≤ s.buffer.width - s.posX) :
    ∃ t, s.doShiftRowRight chars = some t ∧ Step s t := by
  have hline := hs.length_line
  have hwidth := hs.width_eq
  have hposX := hs.posX
  obtain ⟨cells, hcells⟩ := shiftRightLoop_some hlow (s.width - (s.posX + chars)).toNat
    (x := s.width - 1) (s.buffer.cellsOf s.posY) (by omega) (by omega)
  have hlength := length_shiftRightLoop hcells
  obtain ⟨cells', hcells'⟩ := writeLoop_some s.eraseChar chars.toNat (x := s.posX)
    cells (.inl ⟨rfl, by omega⟩)
  refine (withLine_some hs hs.posY.1 _ ⟨cells', ?_, ?_⟩).imp fun t h => ⟨h.1, h.2.1⟩
  · rw [if_neg hs.line_ne_nil]
    dsimp only
    rw [hcells]
    exact hcells'
  · exact (length_writeLoop hcells').trans hlength

/-! ## Scrolling -/

theorem copyLineChars_step (hs : s.Valid) (source : Int) {target : Int} (htarget : 0 ≤ target) :
    Step s (s.copyLineChars source target) := by
  unfold copyLineChars
  dsimp only
  split
  · refine setCells_step hs htarget ?_
    rw [length_append, length_take, length_drop]
    omega
  · exact Step.refl hs

theorem moveLine_step (hs : s.Valid) (source : Int) {target : Int} (htarget : 0 ≤ target) :
    Step s (s.moveLine source target) :=
  (copyLineChars_step hs source htarget).trans
    (setLineWrapped_step (copyLineChars_step hs source htarget).valid htarget _)

theorem clearLine_some (hs : s.Valid) (hn : 0 ≤ n) : ∃ t, s.clearLine n = some t ∧ Step s t := by
  unfold clearLine
  split
  · obtain ⟨t, ht, hstep, -⟩ := eraseWholeLine_some hs hn
    rw [ht]
    exact ⟨_, rfl, hstep.trans (setLineWrapped_step hstep.valid hn false)⟩
  · exact ⟨s, rfl, Step.refl hs⟩

theorem clearLines_some {step : Int} (hs : s.Valid) {i : Int}
    (hi : step = 1 ∧ 0 ≤ i ∨ step = -1 ∧ (count : Int) ≤ i + 1) :
    ∃ t, clearLines step count i s = some t ∧ Step s t := by
  induction count generalizing s i with
  | zero => exact ⟨s, rfl, Step.refl hs⟩
  | succ count ih =>
    obtain ⟨t, ht, hstep⟩ := clearLine_some hs (n := i) (by omega)
    obtain ⟨u, hu, hstep'⟩ := ih hstep.valid (i := i + step) (by omega)
    unfold clearLines
    rw [ht]
    exact ⟨u, hu, hstep.trans hstep'⟩

theorem scrollDownLoop_step {top : Int} (htop : 0 ≤ top) (count : Nat) (hs : s.Valid)
    (dst src : Int) : Step s (scrollDownLoop top count dst src s) := by
  induction count generalizing s dst src with
  | zero => exact Step.refl hs
  | succ count ih =>
    unfold scrollDownLoop
    split
    · next hroom =>
      have hstep : Step s (s.moveLine src dst) := moveLine_step hs src (by omega)
      exact hstep.trans (ih hstep.valid _ _)
    · exact Step.refl hs

theorem scrollUpLoop_step (bottom : Int) (count : Nat) (hs : s.Valid) (src : Int) {dst : Int}
    (hdst : 0 ≤ dst) : Step s (scrollUpLoop bottom count src dst s) := by
  induction count generalizing s src dst with
  | zero => exact Step.refl hs
  | succ count ih =>
    unfold scrollUpLoop
    split
    · have hstep := moveLine_step hs src hdst
      exact hstep.trans (ih hstep.valid _ (by omega))
    · exact Step.refl hs

theorem feedLoop_step (hs : s.Valid) (hprimary : s.alternateScreen = false) (i : Int) :
    Step s (feedLoop count i s) := by
  induction count generalizing s i with
  | zero => exact Step.refl hs
  | succ count ih =>
    have hstep : Step s { s with
        buffer := s.buffer.feedBackscreen (s.buffer.cellsOf i) (s.buffer.lineWrapped i) } :=
      step_of_buffer hs (hs.buffer.feedBackscreen _ _) rfl rfl
        fun halternate => absurd (hprimary.symm.trans halternate) Bool.false_ne_true
    exact hstep.trans (ih hstep.valid hprimary (i + 1))

theorem scrollDown_some (hs : s.Valid) {top : Int} (htop : 0 ≤ top) (bottom lines : Int) :
    ∃ t, s.scrollDown top bottom lines = some t ∧ Step s t := by
  unfold scrollDown
  dsimp only
  split
  · exact ⟨s, rfl, Step.refl hs⟩
  · have hstep := scrollDownLoop_step htop (min bottom s.height - top).toNat hs
      (min bottom s.height - 1) (min bottom s.height - 1 - lines)
    obtain ⟨t, ht, hstep'⟩ := clearLines_some
      (min (top + lines) (min bottom s.height) - top).toNat hstep.valid (.inl ⟨rfl, htop⟩)
    exact ⟨t, ht, hstep.trans hstep'⟩

theorem doScrollUp_some (hs : s.Valid) {top : Int} (htop : 0 ≤ top) (bottom lines : Int) :
    ∃ t, s.doScrollUp top bottom lines = some t ∧ Step s t := by
  unfold doScrollUp
  dsimp only
  split
  · exact ⟨s, rfl, Step.refl hs⟩
  · have hfed : Step s (if top = 0 ∧ min bottom s.height = s.height ∧ !s.alternateScreen then
        feedLoop (min lines s.height).toNat 0 s else s) := by
      split
      · next h => exact feedLoop_step _ hs (Bool.eq_false_iff.mpr (by simpa using h.2.2)) 0
      · exact Step.refl hs
    have hstep := hfed.trans (scrollUpLoop_step (min bottom s.height)
      (min bottom s.height - top).toNat hfed.valid (top + lines) htop)
    obtain ⟨t, ht, hstep'⟩ := clearLines_some
      (min bottom s.height - max (min bottom s.height - lines) top).toNat hstep.valid
      (i := min bottom s.height - 1) (.inr ⟨rfl, by omega⟩)
    exact ⟨t, ht, hstep.trans hstep'⟩

/-! ## Resizing and switching -/

theorem revertToSnapshot_sizes (buffer : ScreenBuffer) (snapshot : ScreenBuffer.Snapshot) :
    (buffer.revertToSnapshot snapshot).width = buffer.width ∧
      (buffer.revertToSnapshot snapshot).height = buffer.height ∧
        (buffer.revertToSnapshot snapshot).backScreen = buffer.backScreen := ⟨rfl, rfl, rfl⟩

/-- A resize to sizes that fit `int` leaves a valid screen of that size. -/
theorem resizeScreen_valid {s t : Screen} (hs : s.Valid) {newSx newSy : Nat}
    (hx : newSx < 2 ^ 31) (hy : newSy < 2 ^ 31) (h : s.resizeScreen newSx newSy = some t) :
    t.Valid ∧ t.buffer.width = newSx ∧ t.buffer.height = newSy := by
  have hwidth := hs.width_eq
  have hheight := hs.height_eq
  unfold resizeScreen at h
  rw [toInt_natCast hx, toInt_natCast hy] at h
  split at h
  · next hsame =>
    rw [← some.inj h]
    exact ⟨hs, by omega, by omega⟩
  · split at h
    · cases h
    · obtain ⟨buffer, hbuffer, hnext⟩ := bind_eq_some_iff.mp h
      obtain ⟨hvalid, rfl, rfl, hx', hy'⟩ := ScreenBuffer.resizeScreen_valid hbuffer
      rw [← some.inj hnext]
      have hbufferWidth : toInt buffer.width = buffer.width := toInt_natCast hx
      have hbufferHeight : toInt buffer.height = buffer.height := toInt_natCast hy
      refine ⟨⟨hvalid, hx, hy, ?_, ?_, hs.primary, hs.alternative⟩, rfl, rfl⟩
      · unfold goTo width height
        dsimp only
        split <;> omega
      · unfold goTo width height
        dsimp only
        split <;> split <;> omega

theorem setAlternateScreen_valid (hs : s.Valid) (isAlternate : Bool) :
    (s.setAlternateScreen isAlternate).Valid := by
  unfold setAlternateScreen
  split
  · exact hs
  · have hcapture := hs.buffer.makeSnapshot
    have hvalid (t : Screen) (ht : t.Valid) : { t with alternateScreen := isAlternate }.Valid :=
      ⟨ht.buffer, ht.width, ht.height, ht.posX, ht.posY, ht.primary, ht.alternative⟩
    split
    · have hleft : { s with
          alternativeScreenshot := s.captureScreen,
          buffer := s.buffer.revertToSnapshot s.primaryScreenshot.snapshot }.Valid :=
        ⟨hs.buffer.revertToSnapshot hs.primary, hs.width, hs.height, hs.posX, hs.posY, hs.primary,
          hcapture⟩
      exact hvalid _ (goTo_step hleft _ _).valid
    · have hentered : { s with
          primaryScreenshot := s.captureScreen,
          buffer := s.buffer.revertToSnapshot s.alternativeScreenshot.snapshot }.Valid :=
        ⟨hs.buffer.revertToSnapshot hs.alternative, hs.width, hs.height, hs.posX, hs.posY, hcapture,
          hs.alternative⟩
      exact hvalid _ (goTo_step hentered _ _).valid

end Screen

end WinCommander.Term
