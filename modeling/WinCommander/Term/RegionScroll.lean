/-
  Scrolling of a region: which line a row holds afterwards, and what the scrollback gets.

  Rows are copied in place, forwards when they go up and backwards when they go down, so that no
  line is read after it was overwritten. `scrollsExactly_iff` says for which line counts, and for
  which deletions of lines, the result is the shift that is asked for.
-/
import WinCommander.Term.InterpreterSteps

namespace WinCommander.Term

open Library List Option ScreenBuffer Interpreter Screen

namespace Screen

/-- A row without characters. -/
def blankRow (screen : Screen) : Line := ScreenBuffer.blankLine screen.buffer.width screen.eraseChar

/-- What only concerns the rows of the screen. -/
structure Rewrites (s t : Screen) : Prop where
  step : Step s t
  back : t.buffer.backScreen = s.buffer.backScreen
  erase : t.eraseChar = s.eraseChar

theorem Rewrites.refl (hs : s.Valid) : Rewrites s s := ⟨Step.refl hs, rfl, rfl⟩

theorem Rewrites.trans (h : Rewrites s t) (h' : Rewrites t u) : Rewrites s u :=
  ⟨h.step.trans h'.step, h'.back.trans h.back, h'.erase.trans h.erase⟩

theorem Rewrites.blankRow (h : Rewrites s t) : t.blankRow = s.blankRow := by
  unfold Screen.blankRow
  rw [h.step.kept.width, h.erase]

/-! ## One row -/

theorem row_of_lt {s : Screen} (hs : s.Valid) {n : Nat} (hn : n < s.buffer.height) :
    ∃ line, s.buffer.onScreen[n]? = some line ∧ line.cells.length = s.buffer.width ∧
      s.buffer.lineFromNo n = some line := by
  have hlt : n < s.buffer.onScreen.length := hs.buffer.rows.symm ▸ hn
  have hline := List.getElem?_eq_getElem hlt
  refine ⟨s.buffer.onScreen[n], hline, hs.buffer.cells _ (getElem_mem hlt), ?_⟩
  unfold lineFromNo
  exact hline

theorem getElem?_modifyLine (buffer : ScreenBuffer) (n : Nat) (f : Line → Line) (i : Nat) :
    (buffer.modifyLine n f).onScreen[i]? =
      if i = n then (buffer.onScreen[i]?).map f else buffer.onScreen[i]? := by
  rw [modifyLine_onScreen (Int.natCast_nonneg n)]
  change (buffer.onScreen.modify n f)[i]? = _
  split_ifs with h
  · rw [h, List.getElem?_modify_eq]
    rfl
  · exact List.getElem?_modify_ne _ _ (Ne.symm h)

theorem moveLine_row {s : Screen} (hs : s.Valid) {source target : Nat}
    (hsource : source < s.buffer.height) (htarget : target < s.buffer.height) :
    Rewrites s (s.moveLine source target) ∧ ∀ i : Nat,
      (s.moveLine source target).buffer.onScreen[i]? =
        if i = target then s.buffer.onScreen[source]? else s.buffer.onScreen[i]? := by
  have hposX := hs.posX
  obtain ⟨line, hline, hlength, hfrom⟩ := row_of_lt hs hsource
  obtain ⟨old, hold, hlength', hfrom'⟩ := row_of_lt hs htarget
  have hmoved : s.moveLine source target = { s with
      buffer := (s.buffer.setCells target line.cells).setLineWrapped target line.wrapped } := by
    unfold moveLine copyLineChars lineWrapped cellsOf
    rw [hfrom, hfrom']
    dsimp only
    rw [if_pos ⟨ne_nil_of_length_pos (by omega), ne_nil_of_length_pos (by omega)⟩,
      take_of_length_le (by omega), drop_of_length_le (by omega), append_nil]
    rfl
  refine ⟨⟨moveLine_step hs _ (Int.natCast_nonneg _), ?_, ?_⟩, fun i => ?_⟩
  · rw [hmoved]
    unfold ScreenBuffer.setLineWrapped ScreenBuffer.setCells
    rw [modifyLine_onScreen (Int.natCast_nonneg target),
      modifyLine_onScreen (Int.natCast_nonneg target)]
  · rw [hmoved]
  · rw [hmoved]
    unfold ScreenBuffer.setLineWrapped ScreenBuffer.setCells
    rw [getElem?_modifyLine, getElem?_modifyLine]
    by_cases h : i = target
    · rw [if_pos h, if_pos h, if_pos h, h, hold, hline]
      rfl
    · rw [if_neg h, if_neg h, if_neg h]

theorem clearLine_row {s : Screen} (hs : s.Valid) {n : Nat} (hn : n < s.buffer.height) :
    ∃ t, s.clearLine n = some t ∧ Rewrites s t ∧ ∀ i : Nat,
      t.buffer.onScreen[i]? = if i = n then some s.blankRow else s.buffer.onScreen[i]? := by
  have hposX := hs.posX
  obtain ⟨line, hline, hlength, hfrom⟩ := row_of_lt hs hn
  have hcleared : s.clearLine n = some { s with
      buffer := (s.buffer.setCells n (List.replicate s.buffer.width s.eraseChar)).setLineWrapped n
        false } := by
    unfold clearLine eraseWholeLine withLine fillCells cellsOf
    rw [hfrom]
    dsimp only
    rw [if_pos (ne_nil_of_length_pos (by omega)),
      if_pos ⟨Int.le_refl 0, Int.natCast_nonneg _, Int.le_refl _⟩]
    dsimp only [bind_eq_bind, bind_some]
    rw [Int.toNat_zero, take_zero, nil_append, Int.toNat_natCast, drop_length,
      append_nil, Int.sub_zero, Int.toNat_natCast, hlength]
    rfl
  obtain ⟨t, ht, hstep⟩ := clearLine_some hs (Int.natCast_nonneg n)
  obtain rfl := some.inj (hcleared.symm.trans ht)
  refine ⟨_, hcleared, ⟨hstep, ?_, rfl⟩, fun i => ?_⟩
  · unfold ScreenBuffer.setLineWrapped ScreenBuffer.setCells
    rw [modifyLine_onScreen (Int.natCast_nonneg n), modifyLine_onScreen (Int.natCast_nonneg n)]
  · unfold ScreenBuffer.setLineWrapped ScreenBuffer.setCells
    rw [getElem?_modifyLine, getElem?_modifyLine]
    by_cases h : i = n
    · rw [if_pos h, if_pos h, if_pos h, h, hline]
      rfl
    · rw [if_neg h, if_neg h, if_neg h]

/-! ## Loops over rows -/

/-- Each line goes up over one that was read already. -/
theorem scrollUpLoop_row {bottom n : Nat} (hn : 0 < n) (count : Nat) {s : Screen} (hs : s.Valid)
    (hbottom : bottom ≤ s.buffer.height) {dst : Nat} (hcount : bottom ≤ dst + n + count) :
    Rewrites s (scrollUpLoop bottom count (dst + n) dst s) ∧ ∀ i : Nat,
      (scrollUpLoop bottom count (dst + n) dst s).buffer.onScreen[i]? =
        if dst ≤ i ∧ i + n < bottom then s.buffer.onScreen[i + n]? else s.buffer.onScreen[i]? := by
  induction count generalizing s dst with
  | zero =>
    refine ⟨Rewrites.refl hs, fun i => ?_⟩
    rw [if_neg (by omega)]
    rfl
  | succ count ih =>
    unfold scrollUpLoop
    by_cases hroom : dst + n < bottom
    · rw [if_pos (by omega)]
      obtain ⟨hmove, hrow⟩ := @moveLine_row s hs (dst + n) dst (by omega) (by omega)
      obtain ⟨hrest, hrows⟩ := @ih _ hmove.step.valid (hmove.step.kept.height.symm ▸ hbottom)
        (dst + 1) (by omega)
      have hsource : ((dst + 1 : Nat) : Int) + n = (dst : Int) + n + 1 := by omega
      rw [hsource] at hrest hrows
      refine ⟨hmove.trans hrest, fun i => (hrows i).trans ?_⟩
      rw [hrow, hrow]
      by_cases hinside : dst + 1 ≤ i ∧ i + n < bottom
      · rw [if_pos hinside, if_neg (by omega), if_pos (by omega)]
      · rw [if_neg hinside]
        by_cases hfirst : i = dst
        · rw [if_pos hfirst, if_pos (by omega), hfirst]
        · rw [if_neg hfirst, if_neg (by omega)]
    · rw [if_neg (by omega)]
      refine ⟨Rewrites.refl hs, fun i => ?_⟩
      rw [if_neg (by omega)]

/-- Each line goes down over one that was read already. -/
theorem scrollDownLoop_row {top n : Nat} (hn : 0 < n) (count : Nat) {s : Screen} (hs : s.Valid)
    {dst : Int} (hdst : dst < s.buffer.height) (hcount : dst < top + n + count) :
    Rewrites s (scrollDownLoop top count dst (dst - n) s) ∧ ∀ i : Nat,
      (scrollDownLoop top count dst (dst - n) s).buffer.onScreen[i]? =
        if top + n ≤ i ∧ (i : Int) ≤ dst then s.buffer.onScreen[i - n]?
        else s.buffer.onScreen[i]? := by
  induction count generalizing s dst with
  | zero =>
    refine ⟨Rewrites.refl hs, fun i => ?_⟩
    rw [if_neg (by omega)]
    rfl
  | succ count ih =>
    unfold scrollDownLoop
    by_cases hroom : top + n ≤ dst
    · rw [if_pos (by omega)]
      obtain ⟨target, rfl⟩ := Int.eq_ofNat_of_zero_le (a := dst) (by omega)
      have hmoved := @moveLine_row s hs (target - n) target (by omega) (by omega)
      have hsource : ((target - n : Nat) : Int) = (target : Int) - n := by omega
      rw [hsource] at hmoved
      obtain ⟨hmove, hrow⟩ := hmoved
      obtain ⟨hrest, hrows⟩ := @ih _ hmove.step.valid ((target : Int) - 1)
        (by rw [hmove.step.kept.height]; omega) (by omega)
      have hnext : (target : Int) - 1 - n = (target : Int) - n - 1 := by omega
      rw [hnext] at hrest hrows
      refine ⟨hmove.trans hrest, fun i => (hrows i).trans ?_⟩
      rw [hrow, hrow]
      by_cases hinside : top + n ≤ i ∧ (i : Int) ≤ target - 1
      · rw [if_pos hinside, if_neg (by omega), if_pos (by omega)]
      · rw [if_neg hinside]
        by_cases hlast : i = target
        · rw [if_pos hlast, if_pos (by omega), hlast]
        · rw [if_neg hlast, if_neg (by omega)]
    · rw [if_neg (by omega)]
      refine ⟨Rewrites.refl hs, fun i => ?_⟩
      rw [if_neg (by omega)]

theorem clearLines_row {step : Int} (count : Nat) {s : Screen} (hs : s.Valid) {n low : Int}
    (hstep : step = 1 ∧ n = low ∨ step = -1 ∧ n = low + count - 1) (hlow : 0 ≤ low)
    (hhigh : low + count ≤ s.buffer.height) : ∃ t, clearLines step count n s = some t ∧
      Rewrites s t ∧ ∀ i : Nat, t.buffer.onScreen[i]? =
        if low ≤ i ∧ i < low + count then some s.blankRow else s.buffer.onScreen[i]? := by
  induction count generalizing s n low with
  | zero =>
    refine ⟨s, rfl, Rewrites.refl hs, fun i => ?_⟩
    rw [if_neg (by omega)]
  | succ count ih =>
    obtain ⟨row, rfl⟩ := Int.eq_ofNat_of_zero_le (a := n) (by omega)
    obtain ⟨t, ht, hclear, hrow⟩ := @clearLine_row s hs row (by omega)
    obtain ⟨low', hnext⟩ : ∃ low' : Int, step = 1 ∧ low = row ∧ low' = row + 1 ∨
        step = -1 ∧ row = low + count ∧ low' = low := by
      rcases hstep with hup | hdown
      · exact ⟨row + 1, by omega⟩
      · exact ⟨low, by omega⟩
    obtain ⟨u, hu, hrest, hrows⟩ := @ih t hclear.step.valid (row + step) low' (by omega) (by omega)
      (by rw [hclear.step.kept.height]; omega)
    refine ⟨u, ?_, hclear.trans hrest, fun i => (hrows i).trans ?_⟩
    · unfold clearLines
      rw [ht]
      exact hu
    · rw [hclear.blankRow, hrow]
      by_cases hinside : low' ≤ i ∧ i < low' + count
      · rw [if_pos hinside, if_pos (by omega)]
      · rw [if_neg hinside]
        by_cases hcleared : i = row
        · rw [if_pos hcleared, if_pos (by omega)]
        · rw [if_neg hcleared, if_neg (by omega)]

/-- A line of the width of the screen is fed as one. -/
theorem feedLines_whole {line : Line} {width : Nat} (hlength : line.cells.length = width)
    (hwidth : 0 < width) : feedLines width line.wrapped line.cells.length line.cells = [line] := by
  obtain ⟨rounds, hrounds⟩ := Nat.exists_eq_succ_of_ne_zero (Nat.pos_iff_ne_zero.mp hwidth)
  rw [hlength, hrounds]
  unfold feedLines
  rw [if_neg (ne_nil_of_length_pos (by omega)), take_of_length_le (by omega),
    drop_of_length_le (by omega), decide_eq_false (by omega), Bool.or_false]
  cases rounds <;> rfl

theorem feedLoop_rows (count : Nat) {s : Screen} (hs : s.Valid)
    (hprimary : s.alternateScreen = false) {n : Nat} (hn : n + count ≤ s.buffer.height) :
    Step s (feedLoop count n s) ∧ (feedLoop count n s).buffer.onScreen = s.buffer.onScreen ∧
      (feedLoop count n s).eraseChar = s.eraseChar ∧ (feedLoop count n s).buffer.backScreen =
        s.buffer.backScreen ++ (s.buffer.onScreen.drop n).take count := by
  refine ⟨feedLoop_step count hs hprimary n, ?_⟩
  induction count generalizing s n with
  | zero => exact ⟨rfl, rfl, (append_nil _).symm⟩
  | succ count ih =>
    have hposX := hs.posX
    obtain ⟨line, hline, hlength, hfrom⟩ := @row_of_lt s hs n (by omega)
    have hfed := feedLoop_step 1 hs hprimary n
    obtain ⟨hrows, herase, hback⟩ := ih hfed.valid hprimary (n := n + 1)
      (by rw [hfed.kept.height]; omega)
    refine ⟨hrows, herase, hback.trans ?_⟩
    have hone : s.buffer.feedBackscreen (s.buffer.cellsOf n) (s.buffer.lineWrapped n) =
        { s.buffer with
          backScreen := s.buffer.backScreen ++ [line]
          backAllocated := s.buffer.backAllocated || [line].any fun line => line.cells ≠ [] } := by
      unfold feedBackscreen cellsOf lineWrapped
      rw [hfrom]
      rw [feedLines_whole hlength (by omega)]
    change (s.buffer.feedBackscreen (s.buffer.cellsOf n) (s.buffer.lineWrapped n)).backScreen ++
      ((s.buffer.feedBackscreen (s.buffer.cellsOf n) (s.buffer.lineWrapped n)).onScreen.drop
        (n + 1)).take count = _
    rw [hone]
    rw [append_assoc,
      @List.drop_eq_getElem_cons _ n s.buffer.onScreen (by rw [hs.buffer.rows]; omega),
      take_succ_cons, singleton_append]
    rw [List.getElem?_eq_getElem (by rw [hs.buffer.rows]; omega)] at hline
    rw [some.inj hline]

/-! ## Scrolling -/

/-- The row `i` after the lines from `top` up to `bottom` went up by `n`. -/
def shiftedUp (screen : Screen) (top bottom n i : Nat) : Option Line :=
  let rows := screen.buffer.onScreen
  if top ≤ i ∧ i < bottom then if i + n < bottom then rows[i + n]? else some screen.blankRow
  else rows[i]?

def shiftedDown (screen : Screen) (top bottom n i : Nat) : Option Line :=
  let rows := screen.buffer.onScreen
  if top ≤ i ∧ i < bottom then if top + n ≤ i then rows[i - n]? else some screen.blankRow
  else rows[i]?

/-- All of the primary screen. -/
def WholePrimary (screen : Screen) (top bottom : Nat) : Prop :=
  top = 0 ∧ screen.buffer.height ≤ bottom ∧ screen.alternateScreen = false

instance (screen : Screen) (top bottom : Nat) : Decidable (screen.WholePrimary top bottom) :=
  inferInstanceAs (Decidable (_ ∧ _))

/-- The lines that the scrollback gets. -/
def fed (screen : Screen) (top bottom n : Nat) : List Line :=
  if screen.WholePrimary top bottom then screen.buffer.onScreen.take n else []

theorem scrollDown_rows {s : Screen} (hs : s.Valid) {top bottom n : Nat} (hn : 0 < n)
    (hregion : top < min bottom s.buffer.height) :
    ∃ t, s.scrollDown top bottom n = some t ∧ Rewrites s t ∧
      ∀ i : Nat, t.buffer.onScreen[i]? = s.shiftedDown top (min bottom s.buffer.height) n i := by
  have hheight := hs.height_eq
  obtain ⟨hmove, hrow⟩ := @scrollDownLoop_row top n hn
    (min (bottom : Int) s.height - top).toNat s hs (min (bottom : Int) s.height - 1)
    (by omega) (by omega)
  obtain ⟨t, ht, hclear, hrows⟩ := @clearLines_row 1
    (min ((top : Int) + n) (min (bottom : Int) s.height) - top).toNat _ hmove.step.valid top top
    (by omega) (by omega) (by rw [hmove.step.kept.height]; omega)
  refine ⟨t, ?_, hmove.trans hclear, fun i => (hrows i).trans ?_⟩
  · unfold scrollDown
    rw [if_neg (by omega)]
    exact ht
  · rw [hmove.blankRow, hrow]
    unfold shiftedDown
    by_cases hinside : top ≤ i ∧ i < min bottom s.buffer.height
    · rw [if_pos hinside]
      by_cases hmoved : top + n ≤ i
      · rw [if_pos hmoved, if_neg (by omega), if_pos (by omega)]
      · rw [if_neg hmoved, if_pos (by omega)]
    · rw [if_neg hinside, if_neg (by omega), if_neg (by omega)]

theorem doScrollUp_rows {s : Screen} (hs : s.Valid) {top bottom n : Nat} (hn : 0 < n)
    (hregion : top < min bottom s.buffer.height) : ∃ t, s.doScrollUp top bottom n = some t ∧
      (∀ i : Nat, t.buffer.onScreen[i]? = s.shiftedUp top (min bottom s.buffer.height) n i) ∧
      t.buffer.backScreen = s.buffer.backScreen ++ s.fed top bottom n := by
  have hheight := hs.height_eq
  -- what is left of the screen after the scrollback was fed
  obtain ⟨fedScreen, hfedScreen, hstep, hsame, herase, hback⟩ : ∃ t,
      (if (top : Int) = 0 ∧ min (bottom : Int) s.height = s.height ∧ !s.alternateScreen then
        feedLoop (min (n : Int) s.height).toNat 0 s else s) = t ∧ Step s t ∧
      t.buffer.onScreen = s.buffer.onScreen ∧ t.eraseChar = s.eraseChar ∧
      t.buffer.backScreen = s.buffer.backScreen ++ s.fed top bottom n := by
    unfold fed
    by_cases hwhole : s.WholePrimary top bottom
    · have hfeed := @feedLoop_rows (min (n : Int) s.height).toNat s hs hwhole.2.2 0 (by omega)
      rw [Int.natCast_zero, drop_zero] at hfeed
      obtain ⟨hstep, hsame, herase, hback⟩ := hfeed
      obtain ⟨htop, hbottom, hprimary⟩ := hwhole
      have hmin : min (bottom : Int) s.height = s.height := by omega
      rw [if_pos ⟨Int.natCast_eq_zero.mpr htop, hmin, Bool.not_eq_true' _ ▸ hprimary⟩,
        if_pos ⟨htop, hbottom, hprimary⟩]
      refine ⟨_, rfl, hstep, hsame, herase, hback.trans ?_⟩
      rw [hheight]
      have hcount : (min (n : Int) s.buffer.height).toNat = min n s.buffer.onScreen.length := by
        rw [hs.buffer.rows]
        omega
      rw [hcount, take_eq_take_min (i := n)]
    · rw [if_neg hwhole, if_neg fun h => hwhole ⟨by omega, by omega, by simpa using h.2.2⟩]
      exact ⟨s, rfl, Step.refl hs, rfl, rfl, (append_nil _).symm⟩
  obtain ⟨hmove, hrow⟩ := @scrollUpLoop_row (min bottom s.buffer.height) n hn
    (min (bottom : Int) s.height - top).toNat fedScreen hstep.valid
    (by rw [hstep.kept.height]; omega) top (by omega)
  have hbottom : ((min bottom s.buffer.height : Nat) : Int) = min (bottom : Int) s.height := by
    omega
  rw [hbottom] at hmove hrow
  obtain ⟨t, ht, hclear, hrows⟩ := @clearLines_row (-1)
    (min (bottom : Int) s.height - max (min (bottom : Int) s.height - n) top).toNat _
    hmove.step.valid (min (bottom : Int) s.height - 1)
    (max (min (bottom : Int) s.height - n) top) (by omega) (by omega)
    (by rw [hmove.step.kept.height, hstep.kept.height]; omega)
  have hblank : fedScreen.blankRow = s.blankRow := by
    unfold blankRow
    rw [herase, hstep.kept.width]
  refine ⟨t, ?_, fun i => (hrows i).trans ?_, ?_⟩
  · unfold doScrollUp
    rw [if_neg (by omega), hfedScreen]
    exact ht
  · rw [hmove.blankRow, hblank, hrow, hsame]
    unfold shiftedUp
    by_cases hinside : top ≤ i ∧ i < min bottom s.buffer.height
    · rw [if_pos hinside]
      by_cases hmoved : i + n < min bottom s.buffer.height
      · rw [if_pos hmoved, if_neg (by omega), if_pos (by omega)]
      · rw [if_neg hmoved, if_pos (by omega)]
    · rw [if_neg hinside, if_neg (by omega), if_neg (by omega)]
  · rw [hclear.back, hmove.back, hback]

/-! ## Line counts

  A count comes as `unsigned` and is cast to `int`; one from 2^31 on is negative then, and nothing
  is done.
-/

/-- The rows of the region are those that scrolling would leave. -/
def AlreadyBlank (screen : Screen) (top bottom : Nat) : Prop :=
  ∀ i : Nat, top ≤ i → i < min bottom screen.buffer.height →
    screen.buffer.onScreen[i]? = some screen.blankRow

/-- The row below the lines that scroll is an `int`, where it is computed. -/
def SumFits (screen : Screen) (top bottom n : Nat) : Prop :=
  0 < n → n < 2 ^ 31 → top < min bottom screen.buffer.height → top + n < 2 ^ 31

/-- `DoScrollUp` of `n` lines is the shift, and feeds the scrollback with what leaves the screen. -/
structure ScrollsUp (screen : Screen) (top bottom n : Nat) : Prop where
  sum : screen.SumFits top bottom n
  result : ∃ t, screen.doScrollUp (toInt top) (toInt bottom) (toInt n) = some t ∧
    (∀ i : Nat, t.buffer.onScreen[i]? =
      screen.shiftedUp top (min bottom screen.buffer.height) n i) ∧
    t.buffer.backScreen = screen.buffer.backScreen ++ screen.fed top bottom n

structure ScrollsDown (screen : Screen) (top bottom n : Nat) : Prop where
  sum : screen.SumFits top bottom n
  result : ∃ t, screen.scrollDown (toInt top) (toInt bottom) (toInt n) = some t ∧
    (∀ i : Nat, t.buffer.onScreen[i]? =
      screen.shiftedDown top (min bottom screen.buffer.height) n i) ∧
    t.buffer.backScreen = screen.buffer.backScreen

theorem scrollDown_nothing {s : Screen} (h : min bottom s.height ≤ top ∨ lines < 1) :
    s.scrollDown top bottom lines = some s := by
  unfold scrollDown
  rw [if_pos (by omega)]

theorem doScrollUp_nothing {s : Screen} (h : min bottom s.height ≤ top ∨ lines < 1) :
    s.doScrollUp top bottom lines = some s := by
  unfold doScrollUp
  rw [if_pos (by omega)]

section Counts

variable {s : Screen} (hs : s.Valid) {top bottom n : Nat} (htop : top < 2 ^ 31)
  (hbottom : bottom < 2 ^ 31) (hn : n < 2 ^ 32)
include hs

section
variable (h : min bottom s.buffer.height ≤ top ∨ n = 0)
include h

omit hs in
/-- Nothing is asked for of no rows, and by no lines. -/
theorem shifted_nothing (i : Nat) :
    s.shiftedUp top (min bottom s.buffer.height) n i = s.buffer.onScreen[i]? ∧
      s.shiftedDown top (min bottom s.buffer.height) n i = s.buffer.onScreen[i]? := by
  unfold shiftedUp shiftedDown
  by_cases hinside : top ≤ i ∧ i < min bottom s.buffer.height
  · obtain rfl : n = 0 := h.resolve_left (by omega)
    rw [if_pos hinside, if_pos hinside, Nat.add_zero, if_pos hinside.2, Nat.add_zero,
      if_pos hinside.1]
    exact ⟨rfl, rfl⟩
  · rw [if_neg hinside, if_neg hinside]
    exact ⟨rfl, rfl⟩

theorem fed_nothing : s.fed top bottom n = [] := by
  have hposY := hs.posY
  unfold fed
  by_cases hwhole : s.WholePrimary top bottom
  · obtain ⟨hzero, hbottom, _⟩ := hwhole
    obtain rfl : n = 0 := h.resolve_left (by omega)
    rw [take_zero, ite_self]
  · rw [if_neg hwhole]

end

/-- As many lines as the screen cannot have: only blank rows are left. -/
theorem shifted_all (hlarge : 2 ^ 31 ≤ n) :
    ((∀ i : Nat, s.buffer.onScreen[i]? = s.shiftedUp top (min bottom s.buffer.height) n i) ↔
      s.AlreadyBlank top bottom) ∧
    ((∀ i : Nat, s.buffer.onScreen[i]? = s.shiftedDown top (min bottom s.buffer.height) n i) ↔
      s.AlreadyBlank top bottom) := by
  have hheight := hs.height
  have hshifted : ∀ i, s.shiftedUp top (min bottom s.buffer.height) n i =
      (if top ≤ i ∧ i < min bottom s.buffer.height then some s.blankRow
        else s.buffer.onScreen[i]?) ∧ s.shiftedDown top (min bottom s.buffer.height) n i =
      if top ≤ i ∧ i < min bottom s.buffer.height then some s.blankRow
        else s.buffer.onScreen[i]? := by
    intro i
    unfold shiftedUp shiftedDown
    by_cases hinside : top ≤ i ∧ i < min bottom s.buffer.height
    · rw [if_pos hinside, if_pos hinside, if_pos hinside, if_neg (by omega), if_neg (by omega)]
      exact ⟨rfl, rfl⟩
    · rw [if_neg hinside, if_neg hinside, if_neg hinside]
      exact ⟨rfl, rfl⟩
  have hblank : (∀ i : Nat, s.buffer.onScreen[i]? =
      if top ≤ i ∧ i < min bottom s.buffer.height then some s.blankRow
        else s.buffer.onScreen[i]?) ↔ s.AlreadyBlank top bottom := by
    refine forall_congr' fun i => ?_
    split_ifs with hinside
    · exact ⟨fun h _ _ => h, fun h => h hinside.1 hinside.2⟩
    · exact iff_of_true rfl fun hlow hhigh => absurd ⟨hlow, hhigh⟩ hinside
  constructor
  · refine Iff.trans (forall_congr' fun i => ?_) hblank
    rw [(hshifted i).1]
  · refine Iff.trans (forall_congr' fun i => ?_) hblank
    rw [(hshifted i).2]

theorem fed_all (hlarge : 2 ^ 31 ≤ n) : s.fed top bottom n = [] ↔ ¬s.WholePrimary top bottom := by
  have hposY := hs.posY
  have hrows := hs.buffer.rows
  unfold fed
  split_ifs with hwhole
  · refine iff_of_false (fun hnil => ?_) fun h => h hwhole
    have hlength := congrArg List.length hnil
    rw [length_take, length_nil] at hlength
    omega
  · exact iff_of_true rfl hwhole

include htop hbottom hn

omit hs hbottom hn in
/-- Where a scroll ends as it should: `R` says so of its result, and `blank` of one that does
    nothing for too many lines. -/
theorem sumFits_and_iff (hnothing : min bottom s.buffer.height ≤ top ∨ n = 0 → R)
    (hall : 2 ^ 31 ≤ n → (R ↔ blank))
    (hrows : top < min bottom s.buffer.height → 0 < n → n < 2 ^ 31 → R) :
    s.SumFits top bottom n ∧ R ↔
      min bottom s.buffer.height ≤ top ∨ top + n < 2 ^ 31 ∨ 2 ^ 31 ≤ n ∧ blank := by
  by_cases hempty : min bottom s.buffer.height ≤ top ∨ n = 0
  · exact iff_of_true ⟨fun _ _ _ => by omega, hnothing hempty⟩ (by omega)
  · obtain ⟨hregion, hpos⟩ := not_or.mp hempty
    rw [or_iff_right hregion]
    by_cases hlarge : 2 ^ 31 ≤ n
    · rw [or_iff_right (by omega), and_iff_right hlarge, ← hall hlarge]
      exact and_iff_right fun _ hsmall => absurd hlarge (by omega)
    · rw [or_iff_left fun h => hlarge h.1]
      constructor
      · intro h
        exact h.1 (by omega) (by omega) (by omega)
      · intro hsum
        exact ⟨fun _ _ _ => hsum, hrows (by omega) (by omega) (by omega)⟩

omit hs htop hbottom in
/-- The count that nothing is done for, as an `int`. -/
theorem toInt_nothing (h : n = 0 ∨ 2 ^ 31 ≤ n) : toInt n < 1 := by
  rcases h with rfl | hlarge
  · decide
  · rw [toInt_beyond (by omega) (by omega)]
    omega

theorem scrollsUp_iff : s.ScrollsUp top bottom n ↔
    min bottom s.buffer.height ≤ top ∨ top + n < 2 ^ 31 ∨
      2 ^ 31 ≤ n ∧ s.AlreadyBlank top bottom ∧ ¬s.WholePrimary top bottom := by
  have hheight := hs.height_eq
  have hsame : min bottom s.buffer.height ≤ top ∨ n = 0 ∨ 2 ^ 31 ≤ n →
      s.doScrollUp (toInt top) (toInt bottom) (toInt n) = some s := by
    intro h
    rw [toInt_natCast htop, toInt_natCast hbottom]
    exact doScrollUp_nothing (h.imp (fun h => by omega) (toInt_nothing hn))
  have hfields : s.ScrollsUp top bottom n ↔ s.SumFits top bottom n ∧ _ :=
    ⟨fun h => ⟨h.sum, h.result⟩, fun h => ⟨h.1, h.2⟩⟩
  refine hfields.trans (sumFits_and_iff htop (fun hempty => ?_) (fun hlarge => ?_) ?_)
  · refine ⟨s, hsame (hempty.imp_right .inl), fun i => ?_, ?_⟩
    · exact (shifted_nothing hempty i).1.symm
    · rw [fed_nothing hs hempty, append_nil]
  · constructor
    · rintro ⟨t, ht, hrows, hback⟩
      obtain rfl := some.inj ((hsame (.inr (.inr hlarge))).symm.trans ht)
      exact ⟨(shifted_all hs hlarge).1.mp hrows,
        (fed_all hs hlarge).mp (self_eq_append_right.mp hback)⟩
    · rintro ⟨hblank, hwhole⟩
      refine ⟨s, hsame (.inr (.inr hlarge)), (shifted_all hs hlarge).1.mpr hblank, ?_⟩
      rw [(fed_all hs hlarge).mpr hwhole, append_nil]
  · intro hregion hpos hsmall
    rw [toInt_natCast htop, toInt_natCast hbottom, toInt_natCast hsmall]
    exact doScrollUp_rows hs hpos hregion

theorem scrollsDown_iff : s.ScrollsDown top bottom n ↔
    min bottom s.buffer.height ≤ top ∨ top + n < 2 ^ 31 ∨
      2 ^ 31 ≤ n ∧ s.AlreadyBlank top bottom := by
  have hheight := hs.height_eq
  have hsame : min bottom s.buffer.height ≤ top ∨ n = 0 ∨ 2 ^ 31 ≤ n →
      s.scrollDown (toInt top) (toInt bottom) (toInt n) = some s := by
    intro h
    rw [toInt_natCast htop, toInt_natCast hbottom]
    exact scrollDown_nothing (h.imp (fun h => by omega) (toInt_nothing hn))
  have hfields : s.ScrollsDown top bottom n ↔ s.SumFits top bottom n ∧ _ :=
    ⟨fun h => ⟨h.sum, h.result⟩, fun h => ⟨h.1, h.2⟩⟩
  refine hfields.trans (sumFits_and_iff htop (fun hempty => ?_) (fun hlarge => ?_) ?_)
  · exact ⟨s, hsame (hempty.imp_right .inl), fun i => (shifted_nothing hempty i).2.symm, rfl⟩
  · constructor
    · rintro ⟨t, ht, hrows, _⟩
      obtain rfl := some.inj ((hsame (.inr (.inr hlarge))).symm.trans ht)
      exact (shifted_all hs hlarge).2.mp hrows
    · intro hblank
      exact ⟨s, hsame (.inr (.inr hlarge)), (shifted_all hs hlarge).2.mpr hblank, rfl⟩
  · intro hregion hpos hsmall
    rw [toInt_natCast htop, toInt_natCast hbottom, toInt_natCast hsmall]
    obtain ⟨t, ht, hrewrites, hrows⟩ := @scrollDown_rows s hs top bottom n hpos hregion
    exact ⟨t, ht, hrows, hrewrites.back⟩

end Counts

/-! ## The scrollback -/

theorem scrollDown_back {s : Screen} (hs : s.Valid) (htop : 0 ≤ top) (bottom lines : Int)
    : ∃ t, s.scrollDown top bottom lines = some t ∧ t.buffer.backScreen = s.buffer.backScreen := by
  have hheight := hs.height_eq
  by_cases hnothing : min bottom s.height ≤ top ∨ lines < 1
  · exact ⟨s, scrollDown_nothing hnothing, rfl⟩
  · obtain ⟨hregion, hlines⟩ := not_or.mp hnothing
    obtain ⟨top, rfl⟩ := Int.eq_ofNat_of_zero_le htop
    obtain ⟨bottom, rfl⟩ := Int.eq_ofNat_of_zero_le (a := bottom) (by omega)
    obtain ⟨lines, rfl⟩ := Int.eq_ofNat_of_zero_le (a := lines) (by omega)
    obtain ⟨t, ht, hrewrites, _⟩ := @scrollDown_rows s hs top bottom lines (by omega) (by omega)
    exact ⟨t, ht, hrewrites.back⟩

/-- The scrollback gets the first lines exactly if all of the primary screen goes up. -/
theorem doScrollUp_back {s : Screen} (hs : s.Valid) (htop : 0 ≤ top) (bottom lines : Int)
    : ∃ t, s.doScrollUp top bottom lines = some t ∧ t.buffer.backScreen = s.buffer.backScreen ++
        if s.WholePrimary top.toNat bottom.toNat then s.buffer.onScreen.take lines.toNat else [] := by
  have hheight := hs.height_eq
  have hposY := hs.posY
  by_cases hnothing : min bottom s.height ≤ top ∨ lines < 1
  · refine ⟨s, doScrollUp_nothing hnothing, ?_⟩
    by_cases hwhole : s.WholePrimary top.toNat bottom.toNat
    · obtain ⟨hzero, hbottom, _⟩ := hwhole
      have hlines : lines.toNat = 0 := by omega
      rw [hlines, take_zero, ite_self, append_nil]
    · rw [if_neg hwhole, append_nil]
  · obtain ⟨hregion, hlines⟩ := not_or.mp hnothing
    obtain ⟨top, rfl⟩ := Int.eq_ofNat_of_zero_le htop
    obtain ⟨bottom, rfl⟩ := Int.eq_ofNat_of_zero_le (a := bottom) (by omega)
    obtain ⟨lines, rfl⟩ := Int.eq_ofNat_of_zero_le (a := lines) (by omega)
    obtain ⟨t, ht, _, hback⟩ := @doScrollUp_rows s hs top bottom lines (by omega) (by omega)
    exact ⟨t, ht, hback⟩

end Screen

variable {σ : Type}

/-- The command succeeds, and the scrollback is what it was. -/
def KeepsScrollback (s : Interpreter σ) (result : Option (Interpreter σ)) : Prop :=
  ∃ t, result = some t ∧ t.screen.buffer.backScreen = s.screen.buffer.backScreen

/-- A line feed in the last row of the primary screen, when all of it is the region. -/
def FeedsByLineFeed (s : Interpreter σ) : Prop :=
  s.screen.posY + 1 = s.screen.height ∧ s.extent.top = 0 ∧ s.extent.bottom = s.screen.height ∧
    s.screen.alternateScreen = false

instance (s : Interpreter σ) : Decidable (FeedsByLineFeed s) :=
  inferInstanceAs (Decidable (_ ∧ _))

structure ScrollsExactly (s : Interpreter σ) (top bottom : Nat) (n : UInt32) : Prop where
  up : s.screen.ScrollsUp top bottom n.toNat
  down : s.screen.ScrollsDown top bottom n.toNat
  lineFeed : ∃ t, s.processLF = some t ∧ t.screen.buffer.backScreen = s.screen.buffer.backScreen ++
      if FeedsByLineFeed s then s.screen.buffer.onScreen.take 1 else []
  reverseIndex : KeepsScrollback s s.processRI
  insertLines : KeepsScrollback s (s.processInsertLines n)
  deleteLines : KeepsScrollback s (s.processDeleteLines n)

/-- The count is one that the casts keep, or there is nothing for it to do. -/
def CountFits (s : Interpreter σ) (top bottom : Nat) (n : UInt32) : Prop :=
  min bottom s.screen.buffer.height ≤ top ∨ top + n.toNat < 2 ^ 31 ∨
    2 ^ 31 ≤ n.toNat ∧ s.screen.AlreadyBlank top bottom ∧ ¬s.screen.WholePrimary top bottom

/-- The region is all of the primary screen, and the cursor in its first row. -/
def DeletesWhole (s : Interpreter σ) (n : UInt32) : Prop :=
  s.screen.posY = 0 ∧ s.extent.top = 0 ∧ s.screen.height ≤ s.extent.bottom ∧
    s.screen.alternateScreen = false ∧ n.toNat < 2 ^ 31

section Commands

variable {s : Interpreter σ} (hs : s.Valid)
include hs

omit hs in
theorem withScreen_back (h : ∃ t, result = some t ∧ t.buffer.backScreen = back) :
    ∃ t, s.withScreen result = some t ∧ t.screen.buffer.backScreen = back := by
  obtain ⟨t, rfl, hback⟩ := h
  exact ⟨{ s with screen := t }, rfl, hback⟩

theorem processLF_back : ∃ t, s.processLF = some t ∧ t.screen.buffer.backScreen =
    s.screen.buffer.backScreen ++
      if FeedsByLineFeed s then s.screen.buffer.onScreen.take 1 else [] := by
  have hposY := hs.screen.posY
  have hheight := hs.screen.height_eq
  have htop := hs.top
  refine withScreen_back ?_
  by_cases hlast : s.screen.posY + 1 = s.extent.bottom
  · rw [if_pos hlast]
    obtain ⟨t, ht, hback⟩ := doScrollUp_back hs.screen hs.top s.extent.bottom 1
    have hwhole : s.screen.WholePrimary s.extent.top.toNat s.extent.bottom.toNat ↔
        FeedsByLineFeed s := by
      constructor
      · rintro ⟨hzero, hbottom, hprimary⟩
        exact ⟨by omega, by omega, by omega, hprimary⟩
      · rintro ⟨_, hzero, hbottom, hprimary⟩
        exact ⟨by omega, by omega, hprimary⟩
    refine ⟨t, ht, hback.trans ?_⟩
    by_cases hfeeds : FeedsByLineFeed s
    · rw [if_pos hfeeds, if_pos (hwhole.mpr hfeeds)]
      rfl
    · rw [if_neg hfeeds, if_neg (mt hwhole.mp hfeeds)]
  · rw [if_neg hlast, if_neg fun h => hlast (h.1.trans h.2.2.1.symm), append_nil]
    exact ⟨_, rfl, rfl⟩

theorem processRI_back : KeepsScrollback s s.processRI := by
  refine withScreen_back ?_
  split
  · exact scrollDown_back hs.screen hs.top _ _
  · exact ⟨_, rfl, rfl⟩

theorem processInsertLines_back (n : UInt32) : KeepsScrollback s (s.processInsertLines n) := by
  unfold processInsertLines
  dsimp only
  split
  · exact ⟨s, rfl, rfl⟩
  · exact withScreen_back (scrollDown_back hs.screen hs.screen.posY.1 _ _)

omit hs in
/-- A count is taken for at least one line, unless it is negative as an `int`. -/
theorem amountUpTo_pos_iff {left : Int} (hleft : 0 < left) (n : UInt32) :
    0 < amountUpTo left n ↔ n.toNat < 2 ^ 31 := by
  have hn : n.toNat < 2 ^ 32 := n.toNat_lt
  unfold amountUpTo
  by_cases hsmall : n.toNat < 2 ^ 31
  · rw [toInt_natCast hsmall]
    refine iff_of_true ?_ hsmall
    by_cases hmore : (n.toNat : Int) > left
    · rw [if_pos hmore]
      exact hleft
    · rw [if_neg hmore]
      split <;> omega
  · rw [toInt_beyond (by omega) (by omega), if_neg (by omega), if_neg (by omega)]
    exact iff_of_false (by omega) hsmall

/-- A deletion of lines feeds the scrollback where the whole primary screen goes up. -/
theorem processDeleteLines_back_iff (n : UInt32) :
    KeepsScrollback s (s.processDeleteLines n) ↔ ¬DeletesWhole s n := by
  have hposY := hs.screen.posY
  have hheight := hs.screen.height_eq
  have hrows := hs.screen.buffer.rows
  have htop := hs.top
  unfold processDeleteLines
  by_cases houtside : s.screen.posY < s.extent.top ∨ s.screen.posY > s.extent.bottom
  · rw [if_pos houtside]
    refine iff_of_true ⟨s, rfl, rfl⟩ ?_
    rintro ⟨hrow, hzero, hbottom, _⟩
    omega
  · rw [if_neg houtside]
    obtain ⟨t, ht, hback⟩ := doScrollUp_back hs.screen hposY.1 s.extent.bottom
      (amountUpTo (s.screen.height - s.screen.posY) n)
    have hsame : KeepsScrollback s (s.withScreen (s.screen.doScrollUp s.screen.posY
        s.extent.bottom (amountUpTo (s.screen.height - s.screen.posY) n))) ↔
        t.buffer.backScreen = s.screen.buffer.backScreen := by
      rw [ht]
      constructor
      · rintro ⟨u, hu, hkept⟩
        obtain rfl := some.inj hu
        exact hkept
      · intro hkept
        exact ⟨_, rfl, hkept⟩
    rw [hsame, hback, append_right_eq_self]
    by_cases hwhole : s.screen.WholePrimary s.screen.posY.toNat s.extent.bottom.toNat
    · obtain ⟨hrow, hbottom, hprimary⟩ := hwhole
      rw [if_pos ⟨hrow, hbottom, hprimary⟩, ← length_eq_zero_iff, length_take, hrows]
      have hamount := @amountUpTo_pos_iff (s.screen.height - s.screen.posY) (by omega) n
      generalize amountUpTo (s.screen.height - s.screen.posY) n = amount at *
      constructor
      · rintro hnone ⟨_, _, _, _, hsmall⟩
        omega
      · intro hkept
        have hlarge := mt hamount.mp fun hsmall =>
          hkept ⟨by omega, by omega, by omega, hprimary, hsmall⟩
        omega
    · rw [if_neg hwhole]
      refine iff_of_true rfl ?_
      rintro ⟨hrow, _, hbottom, hprimary, _⟩
      exact hwhole ⟨by omega, by omega, hprimary⟩

end Commands

/-- A region scrolls as it should exactly if the count fits and no deletion is taken for a feed. -/
theorem scrollsExactly_iff {s : Interpreter σ} (hs : s.Valid) {top bottom : Nat}
    (htop : top < 2 ^ 31) (hbottom : bottom < 2 ^ 31) (n : UInt32) :
    ScrollsExactly s top bottom n ↔ CountFits s top bottom n ∧ ¬DeletesWhole s n := by
  have hn : n.toNat < 2 ^ 32 := n.toNat_lt
  have hup := @Screen.scrollsUp_iff _ hs.screen top bottom _ htop hbottom hn
  have hdown := @Screen.scrollsDown_iff _ hs.screen top bottom _ htop hbottom hn
  constructor
  · intro h
    exact ⟨hup.mp h.up, (processDeleteLines_back_iff hs n).mp h.deleteLines⟩
  · rintro ⟨hfits, hdelete⟩
    exact ⟨hup.mpr hfits, hdown.mpr (hfits.imp_right fun h => h.imp_right fun h => ⟨h.1, h.2.1⟩),
      processLF_back hs, processRI_back hs, processInsertLines_back hs n,
      (processDeleteLines_back_iff hs n).mpr hdelete⟩

/-- Two lines up in a region of three rows, with the cursor below its first row. -/
theorem scrollsExactly_two : ScrollsExactly ((new (new 4 4) ()).moveTo 0 1) 0 3 2 := by
  have hsize : 0 < 4 ∧ 4 < 2 ^ 31 := by decide
  have hvalid := new_valid (new_valid hsize hsize) ()
  have hmoved := (moveTo_step hvalid 0 1).valid hvalid
  have hrow : ((new (new 4 4) ()).moveTo 0 1).screen.posY = 1 := by
    decide +kernel
  refine (scrollsExactly_iff hmoved (by decide) (by decide) 2).mpr ⟨.inr (.inl (by decide)), ?_⟩
  rintro ⟨hzero, _⟩
  exact absurd (hrow.symm.trans hzero) (by decide)

/-- A line that is deleted in the first row of a new screen goes to the scrollback. -/
theorem deleted_line_fed : ¬ScrollsExactly (new (new 4 4) ()) 0 4 1 := by
  intro h
  obtain ⟨t, ht, hkept⟩ := h.deleteLines
  have hgrown : ((new (new 4 4) ()).processDeleteLines 1).map
      (fun t => t.screen.buffer.backScreen.length) = some 1 := by decide +kernel
  rw [ht, map_some, hkept] at hgrown
  exact absurd hgrown (by decide +kernel)

end WinCommander.Term
