/-
  Resizing a screen buffer and the text in it.

  What `ComposeContinuousLines` reads of scrollback and screen is `logicalLines`. After a resize
  that merges them it reads the same lines exactly when all that `TextSurvives` asks for was so
  before: the scrollback can be read, no cut has a blank before it, no row that gets no text was
  flagged, and the rows that are scrolled off are stored.
-/
import WinCommander.Term.ScreenBuffer

namespace WinCommander.Term

open Library List
open Option (bind_eq_bind bind_eq_some_iff bind_some map_some some)

namespace ScreenBuffer

structure Valid (buffer : ScreenBuffer) : Prop where
  rows : buffer.onScreen.length = buffer.height
  cells : ∀ line ∈ buffer.onScreen, line.cells.length = buffer.width
  allocated : ∀ line ∈ buffer.backScreen, line.cells ≠ [] → buffer.backAllocated = true

/-! ## Composing -/

/-- The rows of scrollback and screen, from the oldest one on. -/
def allLines (buffer : ScreenBuffer) : List Line := buffer.backScreen ++ buffer.onScreen

def logicalLines (buffer : ScreenBuffer) : List (List Space) := unwrap isEmptyChar buffer.allLines

/-- The data pointer of a scrollback that has rows is not null. -/
def Readable (buffer : ScreenBuffer) : Prop :=
  buffer.backScreen = [] ∨ buffer.backAllocated = true

theorem take_occupiedChars (cells : List Space) :
    cells.take (occupiedChars cells) = trim isEmptyChar cells := by
  have hprefix : trim isEmptyChar cells <+: cells := rdropWhile_prefix _ _
  have hlength : occupiedChars cells = (trim isEmptyChar cells).length := by
    unfold occupiedChars trim rdropWhile
    rw [length_reverse]
  rw [hlength]
  exact (prefix_iff_eq_take.mp hprefix).symm

theorem insertAtEnd_concat (lines : List (List Space)) (line cells : List Space) :
    insertAtEnd (lines ++ [line]) cells = lines ++ [line ++ cells] := by
  simp [insertAtEnd]

theorem insertAtEnd_insertAtEnd (lines : List (List Space)) (xs ys : List Space) :
    insertAtEnd (insertAtEnd lines xs) ys = insertAtEnd lines (xs ++ ys) := by
  simp [insertAtEnd]

/-- Lines after those there are, the first of which continues the last one or not. -/
def appendLines (continuePrev : Bool) (lines more : List (List Space)) : List (List Space) :=
  if continuePrev then
    match more with
    | [] => lines
    | line :: rest => insertAtEnd lines line ++ rest
  else lines ++ more

/-- What a row adds to the lines before it. -/
theorem appendLines_unwrap_cons (row : Line) (rest : List Line) (continuePrev : Bool)
    (lines : List (List Space)) : appendLines row.wrapped
        (insertAtEnd (if continuePrev then lines else lines ++ [[]]) (trim isEmptyChar row.cells))
        (unwrap isEmptyChar rest) =
      appendLines continuePrev lines (unwrap isEmptyChar (row :: rest)) := by
  have hstart : insertAtEnd (lines ++ [[]]) (trim isEmptyChar row.cells) =
      lines ++ [trim isEmptyChar row.cells] := insertAtEnd_concat _ _ _
  by_cases hrow : row.wrapped
  · rw [hrow]
    cases hrest : unwrap isEmptyChar rest with
    | nil =>
      have hall : unwrap isEmptyChar (row :: rest) = [trim isEmptyChar row.cells] := by
        rw [unwrap, hrow, hrest]
        rfl
      rw [hall]
      cases continuePrev with
      | false => exact hstart
      | true => exact (append_nil _).symm
    | cons line more =>
      rw [unwrap_wrapped hrow hrest]
      cases continuePrev with
      | false =>
        change insertAtEnd (insertAtEnd (lines ++ [[]]) _) line ++ more = lines ++ _ :: more
        rw [hstart, insertAtEnd_concat, append_assoc, singleton_append]
      | true => exact congrArg (· ++ more) (insertAtEnd_insertAtEnd _ _ _)
  · rw [unwrap_not_wrapped (Bool.eq_false_iff.mpr hrow), Bool.eq_false_iff.mpr hrow]
    cases continuePrev with
    | false =>
      change insertAtEnd (lines ++ [[]]) _ ++ unwrap isEmptyChar rest = lines ++ _ :: _
      rw [hstart, append_assoc, singleton_append]
    | true => rfl

section
variable (buffer : ScreenBuffer)
include buffer

/-- The loop reads rows as `unwrap` does. -/
theorem composeFrom_eq (rows : List Line) (number : Int)
    (hrows : ∀ (i : Nat) row, rows[i]? = some row → buffer.sourceLine (number + i) = some row ∧ buffer.lineWrapped (number + i) = row.wrapped)
    (continuePrev : Bool) (lines : List (List Space)) :
    buffer.composeFrom rows.length number continuePrev lines =
      some (appendLines continuePrev lines (unwrap isEmptyChar rows)) := by
  induction rows generalizing number continuePrev lines with
  | nil =>
    rw [length_nil, composeFrom]
    unfold appendLines
    split <;> simp
  | cons row rest ih =>
    obtain ⟨hsource, hwrapped⟩ := hrows 0 row rfl
    have hrest (i : Nat) (row' : Line) (h : rest[i]? = some row') :
        buffer.sourceLine (number + 1 + i) = some row' ∧
          buffer.lineWrapped (number + 1 + i) = row'.wrapped := by
      have hnext := hrows (i + 1) row' h
      rw [show number + 1 + (i : Int) = number + ((i + 1 : Nat) : Int) by omega]
      exact hnext
    rw [Int.natCast_zero, Int.add_zero] at hsource hwrapped
    rw [length_cons, composeFrom, hsource]
    simp only [bind_eq_bind, bind_some]
    rw [hwrapped, ih (number + 1) hrest, take_occupiedChars, appendLines_unwrap_cons]

theorem lineFromNo_allLines (i : Nat) (row : Line) (h : buffer.allLines[i]? = some row) :
    buffer.lineFromNo (-buffer.backScreen.length + i) = some row := by
  unfold allLines at h
  unfold lineFromNo
  by_cases hi : i < buffer.backScreen.length
  · rw [List.getElem?_append_left hi] at h
    rw [if_neg (by omega), if_pos (by omega)]
    rw [show (buffer.backScreen.length + (-buffer.backScreen.length + (i : Int))).toNat = i by omega]
    exact h
  · rw [List.getElem?_append_right (Nat.le_of_not_lt hi)] at h
    rw [if_pos (by omega)]
    rw [show (-buffer.backScreen.length + (i : Int)).toNat = i - buffer.backScreen.length by omega]
    exact h

theorem composeContinuousLines_readable (hvalid : buffer.Valid) (hreadable : buffer.Readable) :
    buffer.composeContinuousLines (-buffer.backScreen.length) buffer.height =
      some buffer.logicalLines := by
  have hlength : ((buffer.height : Int) - -(buffer.backScreen.length : Int)).toNat =
      buffer.allLines.length := by
    unfold allLines
    rw [length_append, hvalid.rows]
    omega
  unfold composeContinuousLines
  rw [hlength, composeFrom_eq buffer buffer.allLines _ ?_ false []]
  · rfl
  intro i row hrow
  have hline := buffer.lineFromNo_allLines i row hrow
  refine ⟨?_, ?_⟩
  · unfold sourceLine
    rw [hline]
    refine if_neg ?_
    rintro ⟨hnegative, hnull⟩
    rcases hreadable with hempty | hallocated
    · rw [hempty, length_nil] at hnegative
      omega
    · rw [hallocated] at hnull
      cases hnull
  · unfold lineWrapped
    rw [hline]

theorem composeContinuousLines_not_readable (hreadable : ¬ buffer.Readable) :
    buffer.composeContinuousLines (-buffer.backScreen.length) buffer.height = none := by
  obtain ⟨hback, hallocated⟩ := not_or.mp hreadable
  have hpos : 0 < buffer.backScreen.length := length_pos_iff.mpr hback
  obtain ⟨count, hcount⟩ : ∃ count,
      ((buffer.height : Int) - -(buffer.backScreen.length : Int)).toNat = count + 1 :=
    Nat.exists_eq_succ_of_ne_zero (by omega)
  have hsource : buffer.sourceLine (-buffer.backScreen.length) = none := by
    unfold sourceLine
    cases buffer.lineFromNo (-buffer.backScreen.length) with
    | none => rfl
    | some line =>
      exact if_pos ⟨by omega, by rw [Bool.eq_false_iff.mpr hallocated]; rfl⟩
  unfold composeContinuousLines
  rw [hcount, composeFrom, hsource]
  rfl

end

/-! ## Decomposing -/

variable {width : Nat}

theorem decomposeLine_eq (hwidth : 0 < width) {line : List Space} (hline : line ≠ [])
    (hrounds : line.length ≤ rounds) : decomposeLine width rounds line = cut width rounds line := by
  induction rounds generalizing line with
  | zero => exact absurd (eq_nil_of_length_eq_zero (Nat.le_zero.mp hrounds)) hline
  | succ rounds ih =>
    unfold decomposeLine cut
    rw [if_neg hline]
    split
    · next hlt =>
      have hdrop : (line.drop width).length = line.length - width := length_drop
      have hne : line.drop width ≠ [] := fun h => by
        rw [h, length_nil] at hdrop
        omega
      rw [ih hne (by omega)]
    · rfl

theorem decomposeContinuousLines_eq (hwidth : 0 < width) (src : List (List Space)) :
    decomposeContinuousLines src width = cutAll width src := by
  unfold decomposeContinuousLines cutAll
  congr 1
  funext line
  split
  · next h => rw [h]; rfl
  · next h => exact decomposeLine_eq hwidth h (Nat.le_refl _)

/-! ## The new rows -/

/-- A row of the screen that gets no line. -/
def unfilledLine (buffer : ScreenBuffer) (width i : Nat) : Line :=
  ⟨List.replicate width buffer.eraseChar, (buffer.onScreen[i]?.map Row.wrapped).getD false⟩

def filledLine (buffer : ScreenBuffer) (width : Nat) (line : Line) : Line :=
  ⟨line.cells ++ List.replicate (width - line.cells.length) buffer.eraseChar, line.wrapped⟩

theorem fillScreen_eq (buffer : ScreenBuffer) (newSx newSy : Nat) (lines : List Line)
    (hlines : lines.length ≤ newSy) : buffer.fillScreen newSx newSy lines =
      lines.map (buffer.filledLine newSx) ++ (range (newSy - lines.length)).map fun i =>
          buffer.unfilledLine newSx (lines.length + i) := by
  apply ext_getElem?
  intro i
  unfold fillScreen
  rw [List.getElem?_map]
  by_cases hi : i < lines.length
  · rw [List.getElem?_append_left (by rwa [length_map]), List.getElem?_map,
      List.getElem?_range (by omega), List.getElem?_eq_getElem hi]
    simp only [map_some, List.getElem?_eq_getElem hi]
    rfl
  · rw [List.getElem?_append_right (by rw [length_map]; omega), length_map, List.getElem?_map]
    by_cases hnew : i < newSy
    · rw [List.getElem?_range hnew, List.getElem?_range (by omega)]
      simp only [map_some, List.getElem?_eq_none (Nat.le_of_not_lt hi)]
      rw [Nat.add_sub_cancel' (Nat.le_of_not_lt hi)]
      rfl
    · rw [List.getElem?_eq_none (by rw [length_range]; omega),
        List.getElem?_eq_none (by rw [length_range]; omega)]
      rfl

variable {buffer : ScreenBuffer}

theorem trim_filledLine (herase : isEmptyChar buffer.eraseChar) (width : Nat) (line : Line) :
    trim isEmptyChar (buffer.filledLine width line).cells = trim isEmptyChar line.cells :=
  trim_append_blank line.cells herase _

/-! ## Resizing -/

/-- How many rows all lines take. -/
def rowsNeeded (buffer : ScreenBuffer) (width : Nat) : Nat := rowsOfAll width buffer.logicalLines

/-- The rows that are scrolled off. -/
def feed (buffer : ScreenBuffer) (newSx newSy : Nat) : Nat := buffer.rowsNeeded newSx - newSy

/-- After a resize the same lines are read, and no row without text is flagged. -/
def KeepsText (buffer : ScreenBuffer) (newSx newSy : Nat) : Prop :=
  ∃ next before after, buffer.resizeScreen newSx newSy true = some next ∧
    buffer.composeContinuousLines (-buffer.backScreen.length) buffer.height = some before ∧
    next.composeContinuousLines (-next.backScreen.length) next.height = some after ∧
    SameLines after before ∧
    ∀ line ∈ next.onScreen, (∀ cell ∈ line.cells, isEmptyChar cell) → line.wrapped = false

structure TextSurvives (buffer : ScreenBuffer) (newSx newSy : Nat) : Prop where
  readable : buffer.Readable
  cuts : ∀ line ∈ buffer.logicalLines, CutsAtText isEmptyChar newSx line
  flags : ∀ (i : Nat) line, buffer.rowsNeeded newSx ≤ i → i < newSy →
    buffer.onScreen[i]? = some line → line.wrapped = false
  stored : newSy < buffer.rowsNeeded newSx → buffer.backAllocated = true ∨
    ∃ line ∈ buffer.logicalLines.take (buffer.feed newSx newSy), line ≠ []

/-- The buffer after a resize that did not throw. -/
def resized (buffer : ScreenBuffer) (newSx newSy : Nat) : ScreenBuffer :=
  let lines := cutAll newSx buffer.logicalLines
  { buffer.fillBackScreen (lines.take (buffer.feed newSx newSy)) with
    width := newSx, height := newSy,
    onScreen := buffer.fillScreen newSx newSy (lines.drop (buffer.feed newSx newSy)) }

variable {newSx newSy : Nat}

theorem resizeScreen_eq (hvalid : buffer.Valid) (hreadable : buffer.Readable) (hx : 0 < newSx)
    (hy : 0 < newSy) :
    buffer.resizeScreen newSx newSy true = some (buffer.resized newSx newSy) := by
  have hlines := decomposeContinuousLines_eq hx buffer.logicalLines
  have hfeed : (if (cutAll newSx buffer.logicalLines).length > newSy then
      (cutAll newSx buffer.logicalLines).length - newSy else 0) = buffer.feed newSx newSy := by
    rw [length_cutAll hx]
    unfold feed rowsNeeded
    split <;> omega
  unfold resizeScreen
  rw [if_neg (by omega), if_pos rfl, composeContinuousLines_readable buffer hvalid hreadable]
  simp only [bind_eq_bind, bind_some]
  rw [hlines, hfeed]
  rfl

/-- The rows that get no line, after as many as do. -/
def unfilled (buffer : ScreenBuffer) (newSx newSy filled : Nat) : List Line :=
  (List.range (newSy - filled)).map fun i => buffer.unfilledLine newSx (filled + i)

theorem isEmptyChar_of_mem_unfilled (herase : isEmptyChar buffer.eraseChar) {line : Line}
    (hline : line ∈ buffer.unfilled newSx newSy filled) :
    ∀ cell ∈ line.cells, isEmptyChar cell := by
  obtain ⟨i, -, rfl⟩ := mem_map.mp hline
  intro cell hcell
  rw [eq_of_mem_replicate hcell]
  exact herase

theorem unwrap_fillScreen (herase : isEmptyChar buffer.eraseChar) (newSx newSy : Nat)
    (lines back : List Line) (hlines : lines.length ≤ newSy) :
    unwrap isEmptyChar (back ++ buffer.fillScreen newSx newSy lines) =
      unwrap isEmptyChar (back ++ lines ++ buffer.unfilled newSx newSy lines.length) := by
  rw [fillScreen_eq buffer newSx newSy lines hlines]
  apply unwrap_congr
  rw [append_assoc, map_append, map_append, map_append, map_append, map_map]
  congr 2
  apply map_congr_left
  intro line _
  exact Prod.ext (trim_filledLine herase newSx line) rfl

theorem length_drop_feed (buffer : ScreenBuffer) (newSy : Nat) (hx : 0 < newSx) :
    ((cutAll newSx buffer.logicalLines).drop (buffer.feed newSx newSy)).length =
      min newSy (buffer.rowsNeeded newSx) := by
  rw [length_drop, length_cutAll hx]
  unfold feed rowsNeeded
  omega

section
variable (herase : isEmptyChar buffer.eraseChar)
include herase

theorem logicalLines_resized (hx : 0 < newSx) : (buffer.resized newSx newSy).logicalLines =
      unwrap isEmptyChar (cutAll newSx buffer.logicalLines ++
        buffer.unfilled newSx newSy (min newSy (buffer.rowsNeeded newSx))) := by
  have hlength := length_drop_feed buffer newSy hx
  have hfill := unwrap_fillScreen herase newSx newSy
    ((cutAll newSx buffer.logicalLines).drop (buffer.feed newSx newSy))
    ((cutAll newSx buffer.logicalLines).take (buffer.feed newSx newSy)) (by omega)
  rw [take_append_drop, hlength] at hfill
  exact hfill

theorem sameLines_resized_iff (newSy : Nat) (hx : 0 < newSx) :
    SameLines (buffer.resized newSx newSy).logicalLines buffer.logicalLines ↔
      ∀ line ∈ buffer.logicalLines, CutsAtText isEmptyChar newSx line := by
  rw [logicalLines_resized herase hx]
  exact sameLines_cutAll_iff hx (fun line hline => trim_of_mem_unwrap hline)
    fun line hline => isEmptyChar_of_mem_unfilled herase hline

end

theorem mem_fillScreen (hlines : lines.length ≤ newSy) {line : Line} :
    line ∈ buffer.fillScreen newSx newSy lines ↔
      (∃ piece ∈ lines, line = buffer.filledLine newSx piece) ∨
        ∃ i, lines.length ≤ i ∧ i < newSy ∧ line = buffer.unfilledLine newSx i := by
  rw [fillScreen_eq buffer newSx newSy lines hlines, mem_append, mem_map, mem_map]
  constructor
  · rintro (⟨piece, hpiece, rfl⟩ | ⟨i, hi, rfl⟩)
    · exact Or.inl ⟨piece, hpiece, rfl⟩
    · rw [mem_range] at hi
      exact Or.inr ⟨lines.length + i, by omega, by omega, rfl⟩
  · rintro (⟨piece, hpiece, rfl⟩ | ⟨i, hle, hlt, rfl⟩)
    · exact Or.inl ⟨piece, hpiece, rfl⟩
    · refine Or.inr ⟨i - lines.length, ?_, ?_⟩
      · rw [mem_range]
        omega
      · rw [Nat.add_sub_cancel' hle]

theorem mem_cutAll (h : row ∈ cutAll width lines) :
    ∃ line ∈ lines, row ∈ cut width line.length line :=
  mem_flatMap.mp h

theorem valid_of_fill (buffer : ScreenBuffer) (newSx newSy : Nat) (back : List Line)
    (hlines : ∀ line ∈ lines, line.cells.length ≤ newSx) : { buffer.fillBackScreen back with
      width := newSx, height := newSy,
      onScreen := buffer.fillScreen newSx newSy lines : ScreenBuffer }.Valid := by
  refine ⟨(length_map _).trans length_range, ?_, ?_⟩
  · intro line hline
    obtain ⟨i, -, rfl⟩ := mem_map.mp hline
    cases hget : lines[i]? with
    | none => exact length_replicate
    | some line =>
      have hle := hlines line (mem_of_getElem? hget)
      change (line.cells ++ replicate (newSx - line.cells.length) _).length = newSx
      rw [length_append, length_replicate]
      omega
  · intro line hline hcells
    change (buffer.backAllocated || any _ _)
    rw [Bool.or_eq_true, any_eq_true]
    exact Or.inr ⟨line, hline, decide_eq_true hcells⟩

theorem length_of_mem_cutAll (hwidth : 0 < width) (h : row ∈ cutAll width lines)
    : row.cells.length ≤ width := by
  obtain ⟨line, -, hcut⟩ := mem_cutAll h
  exact length_of_mem_cut hwidth (Nat.le_refl _) hcut

theorem resized_valid (hx : 0 < newSx) : (buffer.resized newSx newSy).Valid :=
  valid_of_fill buffer newSx newSy _ fun _ hline =>
    length_of_mem_cutAll hx (mem_of_mem_drop hline)

/-- Whatever a resize does that does not throw. -/
theorem resizeScreen_valid {buffer next : ScreenBuffer} {merge : Bool}
    (h : buffer.resizeScreen newSx newSy merge = some next) :
    next.Valid ∧ next.width = newSx ∧ next.height = newSy ∧ 0 < newSx ∧ 0 < newSy := by
  unfold resizeScreen at h
  split at h
  · cases h
  · next hsizes =>
    have hx : 0 < newSx := by omega
    have hy : 0 < newSy := by omega
    split at h
    · obtain ⟨comp, -, hnext⟩ := bind_eq_some_iff.mp h
      rw [← some.inj hnext, decomposeContinuousLines_eq hx]
      exact ⟨valid_of_fill buffer newSx newSy _ fun _ hline =>
        length_of_mem_cutAll hx (mem_of_mem_drop hline), rfl, rfl, hx, hy⟩
    · obtain ⟨back, -, hrest⟩ := bind_eq_some_iff.mp h
      obtain ⟨screen, -, hnext⟩ := bind_eq_some_iff.mp hrest
      rw [← some.inj hnext, decomposeContinuousLines_eq hx, decomposeContinuousLines_eq hx]
      exact ⟨valid_of_fill buffer newSx newSy _ fun _ hline =>
        length_of_mem_cutAll hx (mem_of_mem_take hline), rfl, rfl, hx, hy⟩

theorem readable_resized_iff (hx : 0 < newSx) : (buffer.resized newSx newSy).Readable ↔
      (newSy < buffer.rowsNeeded newSx → buffer.backAllocated ∨
        ∃ line ∈ buffer.logicalLines.take (buffer.feed newSx newSy), line ≠ []) := by
  have hempty : (buffer.resized newSx newSy).backScreen = [] ↔
      ¬ newSy < buffer.rowsNeeded newSx := by
    change (cutAll newSx buffer.logicalLines).take (buffer.feed newSx newSy) = [] ↔ _
    rw [← length_eq_zero_iff, length_take, length_cutAll hx]
    unfold feed rowsNeeded
    omega
  have hallocated : (buffer.resized newSx newSy).backAllocated ↔ (buffer.backAllocated ∨
        ∃ line ∈ buffer.logicalLines.take (buffer.feed newSx newSy), line ≠ []) := by
    have hrows := take_cutAll_empty_iff hx buffer.logicalLines (buffer.feed newSx newSy)
    change (buffer.backAllocated || any _ _) ↔ _
    rw [Bool.or_eq_true]
    refine or_congr Iff.rfl ?_
    rw [any_eq_true, ← not_iff_not]
    push Not
    simpa using hrows
  unfold Readable
  rw [hempty, hallocated]
  constructor
  · rintro (h | h) hlt
    · exact absurd hlt h
    · exact h
  · intro h
    by_cases hlt : newSy < buffer.rowsNeeded newSx
    · exact Or.inr (h hlt)
    · exact Or.inl hlt

/-- The flags of the rows that get no line are those of the old rows in their place. -/
theorem flags_resized_iff (herase : isEmptyChar buffer.eraseChar) (hx : 0 < newSx)
    (hcuts : ∀ line ∈ buffer.logicalLines, CutsAtText isEmptyChar newSx line) :
    (∀ line ∈ (buffer.resized newSx newSy).onScreen,
        (∀ cell ∈ line.cells, isEmptyChar cell) → line.wrapped = false) ↔
      ∀ (i : Nat) line, buffer.rowsNeeded newSx ≤ i → i < newSy →
        buffer.onScreen[i]? = some line → line.wrapped = false := by
  have hlength := length_drop_feed buffer newSy hx
  constructor
  · intro h i line hle hlt hline
    have hmem : buffer.unfilledLine newSx i ∈ (buffer.resized newSx newSy).onScreen :=
      (mem_fillScreen (by omega)).mpr (Or.inr ⟨i, by omega, hlt, rfl⟩)
    have hflag := h _ hmem fun cell hcell => by
      rw [eq_of_mem_replicate hcell]
      exact herase
    unfold unfilledLine at hflag
    rw [hline] at hflag
    exact hflag
  · intro h line hline hblank
    rcases (mem_fillScreen (by omega)).mp hline with ⟨piece, hpiece, rfl⟩ | ⟨i, hle, hlt, rfl⟩
    · by_contra hwrapped
      obtain ⟨text, htext, hcut⟩ := mem_cutAll (mem_of_mem_drop hpiece)
      refine not_blank_of_mem_cut hx (hcuts text htext) hcut (Bool.not_eq_false _ ▸ hwrapped) ?_
      exact fun cell hcell => hblank cell (mem_append_left _ hcell)
    · unfold unfilledLine
      cases hold : buffer.onScreen[i]? with
      | none => rfl
      | some old => exact h i old (by omega) hlt hold

/-- A resize keeps the text exactly when it survives. -/
theorem resizeScreen_keepsText_iff (buffer : ScreenBuffer) (hvalid : buffer.Valid)
    (herase : isEmptyChar buffer.eraseChar) (newSx newSy : Nat) (hx : 0 < newSx) (hy : 0 < newSy) :
    buffer.KeepsText newSx newSy ↔ buffer.TextSurvives newSx newSy := by
  by_cases hreadable : buffer.Readable
  · have hresize := resizeScreen_eq hvalid hreadable hx hy
    have hbefore := composeContinuousLines_readable buffer hvalid hreadable
    have hsame := sameLines_resized_iff herase newSy hx
    constructor
    · rintro ⟨next, before, after, hnext, hbefore', hafter, hlines, hflags⟩
      obtain rfl : buffer.resized newSx newSy = next := some.inj (hresize.symm.trans hnext)
      obtain rfl : buffer.logicalLines = before := some.inj (hbefore.symm.trans hbefore')
      have hreadable' : (buffer.resized newSx newSy).Readable := by
        by_contra hnot
        rw [composeContinuousLines_not_readable _ hnot] at hafter
        cases hafter
      rw [composeContinuousLines_readable _ (resized_valid hx) hreadable'] at hafter
      rw [← some.inj hafter] at hlines
      have hcuts := hsame.mp hlines
      exact ⟨hreadable, hcuts, (flags_resized_iff herase hx hcuts).mp hflags,
        (readable_resized_iff hx).mp hreadable'⟩
    · intro h
      have hreadable' := (readable_resized_iff hx).mpr h.stored
      exact ⟨buffer.resized newSx newSy, buffer.logicalLines, _, hresize, hbefore,
        composeContinuousLines_readable _ (resized_valid hx) hreadable', hsame.mpr h.cuts,
        (flags_resized_iff herase hx h.cuts).mpr h.flags⟩
  · constructor
    · rintro ⟨-, before, -, -, hbefore, -⟩
      rw [composeContinuousLines_not_readable buffer hreadable] at hbefore
      cases hbefore
    · exact fun h => absurd h.readable hreadable

/-- A row of six cells, two of which are blank. -/
def gapped : ScreenBuffer :=
  { width := 6, height := 1,
    onScreen := [⟨[{ l := 97 }, { l := 98 }, {}, {}, { l := 99 }, { l := 100 }], false⟩] }

theorem gapped_valid : gapped.Valid :=
  ⟨rfl, by decide, fun line hline => absurd hline (not_mem_nil)⟩

theorem resizeScreen_keepsText_iff_gapped :
    gapped.Valid ∧ isEmptyChar gapped.eraseChar ∧ gapped.TextSurvives 5 2 ∧
      gapped.KeepsText 5 2 := by
  have hlines : gapped.logicalLines =
      [[{ l := 97 }, { l := 98 }, {}, {}, { l := 99 }, { l := 100 }]] := by decide +kernel
  have hsurvives : gapped.TextSurvives 5 2 := by
    refine ⟨Or.inl rfl, ?_, ?_, ?_⟩
    · rw [hlines]
      intro line hline k hk hlength
      obtain rfl := mem_singleton.mp hline
      obtain rfl : k = 1 := by
        change k * 5 < 6 at hlength
        omega
      exact (by decide : ¬ isEmptyChar ({ l := 99 } : Space))
    · intro i line hle hlt hline
      have hrows : gapped.rowsNeeded 5 = 2 := by decide +kernel
      omega
    · intro hlt
      have hrows : gapped.rowsNeeded 5 = 2 := by decide +kernel
      omega
  exact ⟨gapped_valid, rfl, hsurvives,
    (resizeScreen_keepsText_iff gapped gapped_valid rfl 5 2 (by decide) (by decide)).mpr hsurvives⟩

/-- Where a cut comes after the blanks, they are lost and the text after them is shifted. -/
theorem gapped_loses_blanks :
    gapped.Valid ∧ isEmptyChar gapped.eraseChar ∧ ¬ gapped.KeepsText 4 2 := by
  refine ⟨gapped_valid, rfl, ?_⟩
  rintro ⟨next, before, after, hnext, hbefore, hafter, hsame, -⟩
  have hresize : (gapped.resizeScreen 4 2 true).bind (fun next =>
      next.composeContinuousLines (-next.backScreen.length) next.height) =
        some [[{ l := 97 }, { l := 98 }, { l := 99 }, { l := 100 }]] := by decide +kernel
  have hcompose : gapped.composeContinuousLines (-gapped.backScreen.length) gapped.height =
      some [[{ l := 97 }, { l := 98 }, {}, {}, { l := 99 }, { l := 100 }]] := by decide +kernel
  rw [hnext, bind_some, hafter] at hresize
  rw [hbefore] at hcompose
  rw [some.inj hresize, some.inj hcompose] at hsame
  exact absurd (hsame 0) (by decide)

end ScreenBuffer

end WinCommander.Term
