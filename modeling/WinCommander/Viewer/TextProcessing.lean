/-
  Splitting a text into lines of a wrapping width (`SplitStringIntoLines`), in rational arithmetic.

  The outer loop goes on by what the inner loop counted, and this is nothing where a line starts
  with a character that does not fit on its own. Then the loop never ends; otherwise the lines are
  what they should be (`splits_iff`).
-/
import Mathlib

namespace WinCommander.Viewer

open List

/-- The widths that `SplitAttributedStringsIntoLines` asserts to be positive. -/
structure Widths where
  wrapping : ℚ
  monospace : ℚ
  tab : ℚ
  wrapping_pos : 0 < wrapping
  monospace_pos : 0 < monospace
  tab_pos : 0 < tab

def wrappingEpsilon : ℚ := 1 / 5

def isHardbreak (c : UInt16) : Bool := c == 0xA || c == 0xD

/-- `CharInfo::IsUnicodeCombiningCharacter`. -/
def isCombining (c : UInt16) : Bool :=
  decide (0x0300 ≤ c ∧ c ≤ 0x036F) || decide (0x1DC0 ≤ c ∧ c ≤ 0x1DFF) ||
    decide (0x20D0 ≤ c ∧ c ≤ 0x20FF) || decide (0xFE20 ≤ c ∧ c ≤ 0xFE2F)

/-- `std::fmod`, of a number that is not negative. -/
def fmod (x y : ℚ) : ℚ := x - y * ⌊x / y⌋

/-- Accepted whatever the width is. -/
def isFree (c : UInt16) : Bool := isHardbreak c || isCombining c

section Splitting

/- `fullSize` are the bits of the table that `CharInfo::WCWidthMin1` looks into. -/
variable (fullSize : UInt16 → Bool) (widths : Widths)

/-- Where a line of this width would end behind the character. -/
def probeWidth (width : ℚ) (c : UInt16) : ℚ :=
  if c = 0x09 then width + widths.tab - fmod width widths.tab
  else if fullSize c then width + 2 * widths.monospace
  else width + widths.monospace

/-- The count of the inner loop. -/
def countFitting : ℚ → List UInt16 → Nat
  | _, [] => 0
  | width, c :: rest =>
    if isHardbreak c then 1
    else if isCombining c then countFitting width rest + 1
    else
      let probe := probeWidth fullSize widths width c
      if probe > widths.wrapping + wrappingEpsilon then 0 else countFitting probe rest + 1

/-- The outer loop, from `start` on; `none` if it has not ended in so many rounds. -/
def splitLoop (text : List UInt16) : Nat → Nat → Option (List (Nat × Nat))
  | 0, start => if start < text.length then none else some []
  | rounds + 1, start =>
    if start < text.length then
      let count := countFitting fullSize widths 0 (text.drop start)
      (splitLoop text rounds (start + count)).map ((start, count) :: ·)
    else some []

/-- Where the last character of a line ends, in this width before it. -/
def lineWidth : ℚ → List UInt16 → ℚ
  | width, [] => width
  | width, c :: rest =>
    if isFree c then lineWidth width rest
    else lineWidth (probeWidth fullSize widths width c) rest

/-- The lines go from one place to the other without a gap. -/
def Tiles : Nat → Nat → List (Nat × Nat) → Prop
  | start, stop, [] => start = stop
  | start, stop, line :: rest => line.1 = start ∧ Tiles (start + line.2) stop rest

/-- A line that may stay as it is. -/
structure GoodLine (text : List UInt16) (line : Nat × Nat) : Prop where
  nonempty : 0 < line.2
  hardbreak : ∀ i < line.2, ∀ c, text[line.1 + i]? = some c → isHardbreak c = true → i + 1 = line.2
  width : lineWidth fullSize widths 0 ((text.drop line.1).take line.2) ≤
    widths.wrapping + wrappingEpsilon

/-- The loop ends, with lines that are the text. -/
def Splits (text : List UInt16) : Prop :=
  ∃ rounds lines, splitLoop fullSize widths text rounds 0 = some lines ∧
    Tiles 0 text.length lines ∧ ∀ line ∈ lines, GoodLine fullSize widths text line

/-- A character that may start a line. -/
def Fits (c : UInt16) : Prop :=
  isFree c = true ∨ probeWidth fullSize widths 0 c ≤ widths.wrapping + wrappingEpsilon

variable {fullSize widths} {text rest : List UInt16} {width : ℚ}

theorem fmod_le (hwidth : 0 ≤ width) : fmod width widths.tab ≤ width := by
  have hfloor : (0 : ℤ) ≤ ⌊width / widths.tab⌋ :=
    Int.floor_nonneg.mpr (div_nonneg hwidth widths.tab_pos.le)
  have hcast : (0 : ℚ) ≤ ⌊width / widths.tab⌋ := by exact_mod_cast hfloor
  have hproduct := mul_nonneg widths.tab_pos.le hcast
  unfold fmod
  linarith

/-- No character ends earlier behind others than at the start of a line. -/
theorem probeWidth_zero_le (hwidth : 0 ≤ width) (c : UInt16) :
    probeWidth fullSize widths 0 c ≤ probeWidth fullSize widths width c := by
  have hfmod : fmod width widths.tab ≤ width := fmod_le hwidth
  have hzero : fmod 0 widths.tab = 0 := by simp [fmod]
  unfold probeWidth
  split
  · rw [hzero]
    linarith
  · split <;> linarith

theorem probeWidth_nonneg (hwidth : 0 ≤ width) (c : UInt16) :
    0 ≤ probeWidth fullSize widths width c := by
  refine le_trans ?_ (probeWidth_zero_le hwidth c)
  have hmonospace := widths.monospace_pos
  have htab := widths.tab_pos
  have hzero : fmod 0 widths.tab = 0 := by simp [fmod]
  unfold probeWidth
  split
  · rw [hzero]
    linarith
  · split <;> linarith

theorem countFitting_le : countFitting fullSize widths width rest ≤ rest.length := by
  induction rest generalizing width with
  | nil => simp [countFitting]
  | cons c rest ih =>
    unfold countFitting
    split
    · simp
    · split
      · simpa using ih
      · dsimp only
        split
        · simp
        · simpa using ih

/-- What is counted fits on its own. -/
theorem fits_of_counted (hwidth : 0 ≤ width) :
    ∀ c ∈ rest.take (countFitting fullSize widths width rest), Fits fullSize widths c := by
  induction rest generalizing width with
  | nil => simp
  | cons c rest ih =>
    unfold countFitting
    split
    · rename_i hbreak
      simp [Fits, isFree, hbreak]
    · split
      · rename_i hcombining
        simpa [Fits, isFree, hcombining] using ih hwidth
      · dsimp only
        split
        · simp
        · rename_i hprobe
          have hfits := (probeWidth_zero_le hwidth c).trans (not_lt.mp hprobe)
          rw [take_succ_cons, forall_mem_cons]
          exact ⟨.inr hfits, ih (probeWidth_nonneg hwidth c)⟩

/-- A hard break ends the line. -/
theorem hardbreak_of_counted (hi : i < countFitting fullSize widths width rest)
    (hc : rest[i]? = some c) (hbreak : isHardbreak c)
    : i + 1 = countFitting fullSize widths width rest := by
  induction rest generalizing width i with
  | nil => simp at hc
  | cons d rest ih =>
    unfold countFitting at hi ⊢
    by_cases hd : isHardbreak d
    · simp only [hd, if_true] at hi ⊢
      omega
    · simp only [hd, Bool.false_eq_true, if_false] at hi ⊢
      cases i with
      | zero => simp_all
      | succ i =>
        split at hi
        · rename_i hcombining
          rw [if_pos hcombining, ← ih (Nat.lt_of_succ_lt_succ hi) hc]
        · rename_i hcombining
          rw [if_neg hcombining]
          split at hi
          · simp at hi
          · rename_i hprobe
            rw [if_neg hprobe, ← ih (Nat.lt_of_succ_lt_succ hi) hc]

theorem lineWidth_counted (hfits : width ≤ widths.wrapping + wrappingEpsilon) :
    lineWidth fullSize widths width (rest.take (countFitting fullSize widths width rest)) ≤
      widths.wrapping + wrappingEpsilon := by
  induction rest generalizing width with
  | nil => simpa [lineWidth] using hfits
  | cons c rest ih =>
    unfold countFitting
    split
    · rename_i hbreak
      simpa [lineWidth, isFree, hbreak] using hfits
    · rename_i hbreak
      split
      · rename_i hcombining
        simpa [lineWidth, isFree, hcombining] using ih hfits
      · rename_i hcombining
        dsimp only
        split
        · simpa [lineWidth] using hfits
        · rename_i hprobe
          simpa [lineWidth, isFree, hbreak, hcombining] using ih (not_lt.mp hprobe)

theorem countFitting_pos (h : Fits fullSize widths c) :
    0 < countFitting fullSize widths 0 (c :: rest) := by
  unfold countFitting
  split
  · simp
  · rename_i hbreak
    split
    · simp
    · rename_i hcombining
      have hprobe := h.resolve_left (by simp [isFree, hbreak, hcombining])
      simp [not_lt.mpr hprobe]

/-- A loop that ended has been at every character. -/
theorem fits_of_splitLoop (h : splitLoop fullSize widths text rounds start = some lines) :
    ∀ c ∈ text.drop start, Fits fullSize widths c := by
  induction rounds generalizing start lines with
  | zero =>
    unfold splitLoop at h
    split at h
    · cases h
    · rename_i hend
      simp [drop_of_length_le (not_lt.mp hend)]
  | succ rounds ih =>
    unfold splitLoop at h
    split at h
    · obtain ⟨more, hmore, -⟩ := Option.map_eq_some_iff.mp h
      intro c hc
      rw [← take_append_drop (countFitting fullSize widths 0 (text.drop start))
        (text.drop start), drop_drop] at hc
      rcases mem_append.mp hc with hcounted | hlater
      · exact fits_of_counted le_rfl c hcounted
      · exact ih hmore c hlater
    · rename_i hend
      simp [drop_of_length_le (not_lt.mp hend)]

/-- Where every character fits on its own, each round takes one at least. -/
theorem splitLoop_ends (hfits : ∀ c ∈ text, Fits fullSize widths c) (hstart : start ≤ text.length)
    (hrounds : text.length ≤ start + rounds) :
    ∃ lines, splitLoop fullSize widths text rounds start = some lines ∧
      Tiles start text.length lines ∧ ∀ line ∈ lines, GoodLine fullSize widths text line := by
  induction rounds generalizing start with
  | zero =>
    have hend : start = text.length := by omega
    exact ⟨[], by simp [splitLoop, hend], hend, by simp⟩
  | succ rounds ih =>
    by_cases hlt : start < text.length
    · have hcons := drop_eq_getElem_cons hlt
      have hpos : 0 < countFitting fullSize widths 0 (text.drop start) := by
        rw [hcons]
        exact countFitting_pos (hfits _ (getElem_mem hlt))
      have hle : countFitting fullSize widths 0 (text.drop start) ≤ text.length - start := by
        simpa using @countFitting_le fullSize widths (text.drop start) 0
      obtain ⟨lines, hlines, htiles, hgood⟩ :=
        @ih (start + countFitting fullSize widths 0 (text.drop start)) (by omega) (by omega)
      refine ⟨(start, countFitting fullSize widths 0 (text.drop start)) :: lines, ?_,
        ⟨rfl, htiles⟩, forall_mem_cons.mpr ⟨⟨hpos, ?_, ?_⟩, hgood⟩⟩
      · simp [splitLoop, hlt, hlines]
      · intro i hi c hc hbreak
        rw [← List.getElem?_drop] at hc
        exact hardbreak_of_counted hi hc hbreak
      · have hzero : (0 : ℚ) ≤ widths.wrapping + wrappingEpsilon :=
          add_nonneg widths.wrapping_pos.le (by norm_num [wrappingEpsilon])
        exact lineWidth_counted hzero
    · have hend : start = text.length := by omega
      exact ⟨[], by simp [splitLoop, hend], hend, by simp⟩

/-- The loop ends, and its lines are as they should be, exactly when no character but hard breaks
    and combining ones is wider on its own than the wrapping width and the epsilon. -/
theorem splits_iff (fullSize : UInt16 → Bool) (widths : Widths) (text : List UInt16) :
    Splits fullSize widths text ↔ ∀ c ∈ text, Fits fullSize widths c := by
  constructor
  · rintro ⟨rounds, lines, hlines, -⟩
    simpa using fits_of_splitLoop hlines
  · intro hfits
    exact ⟨text.length, splitLoop_ends hfits (Nat.zero_le _) (by omega)⟩

end Splitting

/-- A character of ten in a line of one. -/
theorem not_splits_narrow : ¬∀ (fullSize : UInt16 → Bool) (widths : Widths) (text : List UInt16),
    Splits fullSize widths text := by
  intro h
  obtain ⟨rounds, lines, hlines, -⟩ :=
    h (fun _ => false) ⟨1, 10, 1, one_pos, by norm_num, one_pos⟩ [0x61]
  have hfits := fits_of_splitLoop hlines 0x61 (by simp)
  rcases hfits with hfree | hprobe
  · revert hfree
    decide
  · rw [probeWidth, if_neg (by decide), if_neg (by decide)] at hprobe
    norm_num [wrappingEpsilon] at hprobe

end WinCommander.Viewer
