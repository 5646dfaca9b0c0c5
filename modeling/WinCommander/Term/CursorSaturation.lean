/-
  `CSI n A` to `CSI n F`: how far the cursor is moved.

  A number passes from `unsigned` to `int` and is added to the cursor, which is then held in the
  range. `takenSteps` is what is left of it. A movement saturates exactly where that, and the
  branch which holds the row in the scrolling region, do no harm (`saturates_iff`).
-/
import WinCommander.Term.ReadSequence
import WinCommander.Term.AlternateScreen

namespace WinCommander.Term

open Library List Interpreter Screen Parser Option

inductive Direction where
  | up | down | right | left | nextLine | precedingLine
deriving DecidableEq

/-- 'A' to 'F'. -/
def Direction.letter : Direction → UInt8
  | .up => 65
  | .down => 66
  | .right => 67
  | .left => 68
  | .nextLine => 69
  | .precedingLine => 70

variable {σ : Type}

/-- The cursor after the sequence with these digits was parsed and interpreted. -/
def movedTo (system : CharacterSystem σ) (parser : Parser) (s : Interpreter σ) (direction : Direction)
    (digits : Bytes) : Option (Int × Int) :=
  (s.interpret system (parser.parse ([27, 91] ++ digits ++ [direction.letter])).2).map fun (t, _) =>
    (t.screen.posX, t.screen.posY)

/-! ## What is asked for -/

/-- The first row that the cursor may be in: in origin mode, that of the region on the screen. -/
def lowRow (s : Interpreter σ) : Int :=
  if s.originLineMode then min s.extent.top (s.screen.height - 1) else 0

def highRow (s : Interpreter σ) : Int :=
  if s.originLineMode then min (s.extent.bottom - 1) (s.screen.height - 1) else s.screen.height - 1

/-- At least one step. -/
def askedSteps (n : Nat) : Int := max n 1

/-- As many steps as asked for, but no further than the edge of the range. -/
def saturated (s : Interpreter σ) (direction : Direction) (n : Nat) : Int × Int :=
  let x := s.screen.posX
  let y := s.screen.posY
  match direction with
  | .up => (x, y - min (askedSteps n) (max 0 (y - lowRow s)))
  | .down => (x, y + min (askedSteps n) (max 0 (highRow s - y)))
  | .right => (x + min (askedSteps n) (s.screen.width - 1 - x), y)
  | .left => (x - min (askedSteps n) x, y)
  | .nextLine => (0, y + min (askedSteps n) (max 0 (highRow s - y)))
  | .precedingLine => (0, y - min (askedSteps n) (max 0 (y - lowRow s)))

/-- The number as the code takes it: a cast from `unsigned`, or the default where it does not fit. -/
def takenSteps (n : Nat) : Int :=
  if n < 2 ^ 31 then n else if n < 2 ^ 32 then n - 2 ^ 32 else 1

def IsInt (value : Int) : Prop := -(2 ^ 31) ≤ value ∧ value < 2 ^ 31

/-- The sums and negations of the code fit `int`. -/
def SumsFit (s : Interpreter σ) (direction : Direction) (n : Nat) : Prop :=
  let x := s.screen.posX
  let y := s.screen.posY
  match direction with
  | .up => IsInt (y + -max (takenSteps n) 1)
  | .down => IsInt (y + max (takenSteps n) 1)
  | .right => IsInt (x + max (takenSteps n) 1)
  | .left => IsInt (x + -max (takenSteps n) 1)
  | .nextLine => IsInt (y + takenSteps n)
  | .precedingLine => IsInt (-takenSteps n) ∧ IsInt (y + -takenSteps n)

structure Saturates (system : CharacterSystem σ) (parser : Parser) (s : Interpreter σ)
    (direction : Direction) (digits : Bytes) : Prop where
  position : movedTo system parser s direction digits =
    some (saturated s direction (decimalValue 0 digits))
  sums : SumsFit s direction (decimalValue 0 digits)

/-! ## The region

  Only two operations set it, and both leave it a row: what `std::clamp` asks for.
-/

theorem region_of_processSetScrollingRegion {s : Interpreter σ} (hs : s.Valid)
    (hsmall : s.screen.height < 2 ^ 31 - 1) (hregion : s.extent.top < s.extent.bottom)
    (range : Option ScrollingRange) :
    (s.processSetScrollingRegion range).extent.top < (s.processSetScrollingRegion range).extent.bottom := by
  have hposY := hs.screen.posY
  have hheight := hs.screen.height_eq
  unfold processSetScrollingRegion
  rw [apply_ite extent, apply_ite Extent.top, apply_ite Extent.bottom]
  unfold moveTo
  rw [ite_self, ite_self]
  cases range with
  | none =>
    rw [hheight]
    exact Int.natCast_pos.mpr (by omega)
  | some range =>
    dsimp only
    by_cases h : toInt (range.top.toInt + 1) < range.bottom.toInt ∧ range.top.toInt ≥ 0 ∧
        range.top.toInt ≤ s.screen.height
    · obtain ⟨hlt, hlow, hhigh⟩ := h
      rw [if_pos ⟨hlt, hlow, hhigh⟩]
      rw [toInt_of_bounds (by omega) (by omega)] at hlt
      show range.top.toInt < range.bottom.toInt
      omega
    · rw [if_neg h]
      exact hregion

theorem region_of_notifyScreenResized {s : Interpreter σ} (hs : s.screen.Valid)
    (hregion : s.extent.top < s.extent.bottom) :
    s.notifyScreenResized.extent.top < s.notifyScreenResized.extent.bottom := by
  have hheight := hs.height_eq
  show min s.extent.top (s.screen.height - 1) <
    if s.extent.bottom = s.extent.height then s.screen.height else min s.extent.bottom s.screen.height
  split <;> omega

/-! ## Numbers -/

theorem toInt_toInt32 (value : UInt32) : value.toInt32.toInt = toInt value.toNat :=
  BitVec.toInt_eq_toNat_bmod value.toBitVec

theorem toInt_maxInt32 (a b : Int32) : (max a b).toInt = max a.toInt b.toInt := by
  show (if a ≤ b then b else a).toInt = _
  by_cases h : a ≤ b
  · have hle := Int32.le_iff_toInt_le.mp h
    rw [if_pos h]
    omega
  · have hlt := mt Int32.le_iff_toInt_le.mpr h
    rw [if_neg h]
    omega

theorem toInt_negInt32 (a : Int32) : (-a).toInt = toInt (-a.toInt) := Int32.toInt_neg a

/-- What `from_chars` and the cast make of the digits. -/
theorem toInt_unsignedOr (hdigits : ∀ byte ∈ digits, isDigitByte byte) (hne : digits ≠ [])
    (hletter : isDigitByte letter = false) :
    (unsignedOr 1 (digits ++ [letter])).toInt32.toInt = takenSteps (decimalValue 0 digits) := by
  have hspan : (digits ++ [letter]).span isDigitByte = (digits, [letter]) := by
    rw [span_eq_takeWhile_dropWhile, takeWhile_append_of_pos hdigits,
      dropWhile_append_of_pos hdigits, takeWhile_cons_of_neg (by rw [hletter]; decide),
      dropWhile_cons_of_neg (by rw [hletter]; decide), append_nil]
  obtain ⟨digit, rest, hcons⟩ := exists_cons_of_ne_nil hne
  unfold unsignedOr fromCharsUnsigned takenSteps
  rw [hspan, hcons]
  dsimp only
  by_cases hfits : decimalValue 0 (digit :: rest) < 2 ^ 32
  · rw [if_pos hfits, map_some, getD_some, toInt_toInt32, Nat.toUInt32_eq,
      UInt32.toNat_ofNat_of_lt' hfits]
    by_cases hsmall : decimalValue 0 (digit :: rest) < 2 ^ 31
    · rw [if_pos hsmall, toInt_natCast hsmall]
    · rw [if_neg hsmall, if_pos hfits]
      unfold toInt
      rw [Int.bmod_eq_iff (by decide)]
      refine ⟨by omega, by omega, ⟨-1, by omega⟩⟩
  · rw [if_neg hfits, if_neg (fun h => hfits (h.trans (by decide))), if_neg hfits]
    rfl

theorem takenSteps_bounds (n : Nat) : IsInt (takenSteps n) := by
  unfold takenSteps IsInt
  split
  · omega
  · split <;> omega

/-! ## Where the code moves to -/

/-- A row, held where the cursor may be. -/
def heldRow (s : Interpreter σ) (y : Int) : Int := max (lowRow s) (min y (highRow s))

/-- A position, held on the screen. -/
def onScreen (size position : Int) : Int := max 0 (min position (size - 1))

/-- The cursor, in terms of the number as it is taken. -/
def landing (s : Interpreter σ) (direction : Direction) (taken : Int) : Int × Int :=
  let x := s.screen.posX
  let y := s.screen.posY
  match direction with
  | .up => (x, heldRow s (y - max taken 1))
  | .down => (x, heldRow s (toInt (y + max taken 1)))
  | .right => (onScreen s.screen.width (toInt (x + max taken 1)), heldRow s y)
  | .left => (onScreen s.screen.width (x - max taken 1), heldRow s y)
  | .nextLine => (0, onScreen s.screen.height (toInt (y + taken)))
  | .precedingLine => (0, onScreen s.screen.height (toInt (y + toInt (-taken))))

variable {s : Interpreter σ}

theorem goTo_onScreen {screen : Screen} (hs : screen.Valid) (x y : Int) :
    (screen.goTo x y).posX = onScreen screen.width x ∧
      (screen.goTo x y).posY = onScreen screen.height y := by
  have hposX := hs.posX
  have hposY := hs.posY
  have hwidth := hs.width_eq
  have hheight := hs.height_eq
  unfold goTo onScreen
  dsimp only
  constructor <;> split <;> omega

theorem onScreen_clamp (htop : 0 ≤ top) (hregion : top < bottom) (hsize : 0 < size)
    : onScreen size (clamp y top (bottom - 1)) =
      max (min top (size - 1)) (min y (min (bottom - 1) (size - 1))) := by
  unfold onScreen clamp
  split
  · omega
  · split <;> omega

/-- A relative movement in both directions. -/
theorem processMC_both (hs : s.Valid) (hregion : s.extent.top < s.extent.bottom) (dx dy : Int32) :
    let t := s.processMC { positioning := .relative, x := some dx, y := some dy }
    (t.screen.posX, t.screen.posY) = (onScreen s.screen.width (toInt (s.screen.posX + dx.toInt)),
      heldRow s (toInt (s.screen.posY + dy.toInt))) := by
  have hposY := hs.screen.posY
  have hheight := hs.screen.height_eq
  unfold processMC moveTo
  dsimp only
  rw [(goTo_onScreen hs.screen _ _).1, (goTo_onScreen hs.screen _ _).2]
  refine Prod.ext rfl ?_
  unfold heldRow lowRow highRow
  by_cases horigin : s.originLineMode
  · rw [if_pos horigin, if_pos horigin, if_pos horigin]
    exact onScreen_clamp hs.top hregion (by omega)
  · rw [if_neg horigin, if_neg horigin, if_neg horigin]
    rfl

theorem onScreen_bounds {size : Int} (hsize : 0 < size) (position : Int) :
    0 ≤ onScreen size position ∧ onScreen size position < size := by
  unfold onScreen
  omega

/-- A relative movement of the row alone, and then to the first column. -/
theorem processMC_line (hs : s.Valid) (dy : Int32) :
    let t := s.processMC { positioning := .relative, x := none, y := some dy }
    let u := t.processMC { positioning := .absolute, x := some 0, y := none }
    (u.screen.posX, u.screen.posY) =
      (0, onScreen s.screen.height (toInt (s.screen.posY + dy.toInt))) := by
  have hposX := hs.screen.posX
  have hposY := hs.screen.posY
  have hheight := hs.screen.height_eq
  have hstep := goTo_step hs.screen s.screen.posX (toInt (s.screen.posY + dy.toInt))
  have hrow := @onScreen_bounds s.screen.height (by omega) (toInt (s.screen.posY + dy.toInt))
  unfold processMC moveTo
  dsimp only
  rw [(goTo_onScreen hs.screen _ _).2, Int32.toInt_zero]
  have hfirst := goTo_pos hstep.valid (x := 0)
    (y := onScreen s.screen.height (toInt (s.screen.posY + dy.toInt)))
    (by rw [hstep.kept.width]; omega) (by rw [hstep.kept.height]; omega)
  rw [hfirst.1, hfirst.2]

theorem digit_contents (byte : UInt8) (h : isDigitByte byte) : csiValidContents byte := by
  have all : ∀ n < 256, isDigitByte (UInt8.ofNat n) →
      csiValidContents (UInt8.ofNat n) := by decide +kernel
  have hbyte := all byte.toNat byte.toNat_lt
  rw [UInt8.ofNat_toNat] at hbyte
  exact hbyte h

/-- The commands of a sequence. -/
def Direction.commands (direction : Direction) (buffer : Bytes) : List Command :=
  match direction with
  | .up => csi_A buffer
  | .down => csi_B buffer
  | .right => csi_C buffer
  | .left => csi_D buffer
  | .nextLine => csi_E buffer
  | .precedingLine => csi_F buffer

theorem csiCommands_letter (direction : Direction) (digits : Bytes) :
    csiCommands (digits ++ [direction.letter]) =
      direction.commands (digits ++ [direction.letter]) := by
  unfold csiCommands
  rw [List.getLast?_concat]
  cases direction <;> rfl

/-- A number as it is taken, and what is made of it. -/
theorem commands_steps {steps : Int32} (hsteps : IsInt steps.toInt) :
    (max steps 1).toInt = max steps.toInt 1 ∧ (-max steps 1).toInt = -max steps.toInt 1 := by
  have hmax : (max steps 1).toInt = max steps.toInt 1 := toInt_maxInt32 steps 1
  refine ⟨hmax, ?_⟩
  unfold IsInt at hsteps
  rw [toInt_negInt32, hmax, toInt_of_bounds (by omega) (by omega)]

theorem movedTo_eq (system : CharacterSystem σ) (hparser : parser.AtRest) (hs : s.Valid)
    (hregion : s.extent.top < s.extent.bottom) (direction : Direction)
    (hdigits : ∀ byte ∈ digits, isDigitByte byte) (hne : digits ≠ []) :
    movedTo system parser s direction digits =
      some (landing s direction (takenSteps (decimalValue 0 digits))) := by
  have hposX := hs.screen.posX
  have hposY := hs.screen.posY
  have hwidth := hs.screen.width
  have hheight := hs.screen.height
  have hletter : isDigitByte direction.letter = false ∧
      csiValidTerminal direction.letter := by
    cases direction <;> decide
  have htaken := toInt_unsignedOr hdigits hne hletter.1
  have hbounds := takenSteps_bounds (decimalValue 0 digits)
  obtain ⟨hmax, hneg⟩ := commands_steps (htaken ▸ hbounds)
  have hx : toInt (s.screen.posX + Int32.toInt 0) = s.screen.posX := by
    rw [Int32.toInt_zero, Int.add_zero, toInt_of_bounds (by omega) (by omega)]
  have hy : toInt (s.screen.posY + Int32.toInt 0) = s.screen.posY := by
    rw [Int32.toInt_zero, Int.add_zero, toInt_of_bounds (by omega) (by omega)]
  have hcolumn : onScreen s.screen.width s.screen.posX = s.screen.posX := by
    rw [hs.screen.width_eq]
    unfold onScreen
    omega
  rw [htaken] at hmax hneg
  unfold IsInt at hbounds
  have hback {position : Int} (hlow : 0 ≤ position) (hhigh : position < 2 ^ 31) :
      toInt (position + -max (takenSteps (decimalValue 0 digits)) 1) =
        position - max (takenSteps (decimalValue 0 digits)) 1 := by
    rw [toInt_of_bounds (by omega) (by omega), Int.sub_eq_add_neg]
  unfold movedTo
  rw [hparser.parse_sequence (fun byte hbyte => digit_contents byte (hdigits byte hbyte)) hletter.2,
    csiCommands_letter]
  cases direction with
  | up =>
    refine congrArg some ((processMC_both hs hregion _ _).trans ?_)
    rw [hx, hneg, hback hposY.1 (by omega), hcolumn]
    rfl
  | down =>
    refine congrArg some ((processMC_both hs hregion _ _).trans ?_)
    rw [hx, hmax, hcolumn]
    rfl
  | right =>
    refine congrArg some ((processMC_both hs hregion _ _).trans ?_)
    rw [hy, hmax]
    rfl
  | left =>
    refine congrArg some ((processMC_both hs hregion _ _).trans ?_)
    rw [hy, hneg, hback hposX.1 (by omega)]
    rfl
  | nextLine =>
    refine congrArg some ((processMC_line hs _).trans ?_)
    rw [htaken]
    rfl
  | precedingLine =>
    refine congrArg some ((processMC_line hs _).trans ?_)
    rw [toInt_negInt32, htaken]
    rfl

/-! ## When movements saturate -/

/--
  A number that fits `int`, with a sum that does and a cursor that the region does not pull, or
  one for which a single step, or none, is as far as the cursor can go.
-/
def Harmless (s : Interpreter σ) (direction : Direction) (n : Nat) : Prop :=
  let x := s.screen.posX
  let y := s.screen.posY
  let low := lowRow s
  let high := highRow s
  match direction with
  | .up => low ≤ y ∧ (n < 2 ^ 31 ∧ y - high ≤ askedSteps n ∨
      2 ^ 31 ≤ n ∧ (high < y ∧ low = high ∨ y ≤ high ∧ y ≤ low + 1))
  | .down => y ≤ high ∧ (y + askedSteps n < 2 ^ 31 ∧ low - y ≤ askedSteps n ∨
      2 ^ 31 ≤ n ∧ (y < low ∧ low = high ∨ low ≤ y ∧ high ≤ y + 1))
  | .right => low ≤ y ∧ y ≤ high ∧ (x + askedSteps n < 2 ^ 31 ∨ 2 ^ 31 ≤ n ∧ s.screen.width ≤ x + 2)
  | .left => low ≤ y ∧ y ≤ high ∧ (n < 2 ^ 31 ∨ x ≤ 1)
  | .nextLine =>
    n = 0 ∧ high ≤ y ∨ 1 ≤ n ∧ y + n < 2 ^ 31 ∧
      (y + n ≤ high ∨ high = s.screen.height - 1 ∨ y = s.screen.height - 1) ∨
    2 ^ 31 ≤ n ∧ n < 2 ^ 32 ∧ y = 0 ∧ high = 0 ∨
    2 ^ 32 ≤ n ∧ (y + 1 = high ∨ high ≤ y ∧ y = s.screen.height - 1)
  | .precedingLine =>
    n = 0 ∧ y ≤ low ∨ 1 ≤ n ∧ n < 2 ^ 31 ∧ (low + n ≤ y ∨ low = 0 ∨ y = 0) ∨
    2 ^ 31 < n ∧ n < 2 ^ 32 ∧ y = s.screen.height - 1 ∧ low = y ∧ y + 2 ^ 32 < 2 ^ 31 + n ∨
    2 ^ 32 ≤ n ∧ (y = low + 1 ∨ y = 0)

/-- The rows of the range are rows of the screen. -/
theorem range_bounds (hs : s.Valid) (hregion : s.extent.top < s.extent.bottom) :
    0 ≤ lowRow s ∧ lowRow s ≤ highRow s ∧ highRow s < s.screen.height := by
  have htop := hs.top
  have hposY := hs.screen.posY
  have hheight := hs.screen.height_eq
  unfold lowRow highRow
  split <;> omega

/-- The three ways in which a number is taken. -/
theorem takenSteps_cases (n : Nat) :
    n < 2 ^ 31 ∧ takenSteps n = n ∨ 2 ^ 31 ≤ n ∧ n < 2 ^ 32 ∧ takenSteps n = n - 2 ^ 32 ∨
      2 ^ 32 ≤ n ∧ takenSteps n = 1 := by
  unfold takenSteps
  by_cases hsmall : n < 2 ^ 31
  · exact .inl ⟨hsmall, if_pos hsmall⟩
  · rw [if_neg hsmall]
    by_cases hfits : n < 2 ^ 32
    · exact .inr (.inl ⟨Nat.le_of_not_lt hsmall, hfits, if_pos hfits⟩)
    · exact .inr (.inr ⟨Nat.le_of_not_lt hfits, if_neg hfits⟩)

/-- A sum of a position and a number, as an `int`. -/
theorem toInt_sum {value : Int} (hlow : -(2 ^ 31) ≤ value) (hhigh : value < 2 ^ 32) :
    value < 2 ^ 31 ∧ toInt value = value ∨ 2 ^ 31 ≤ value ∧ toInt value = value - 2 ^ 32 := by
  by_cases h : value < 2 ^ 31
  · exact .inl ⟨h, toInt_of_bounds (by omega) h⟩
  · exact .inr ⟨Int.not_lt.mp h, toInt_beyond (Int.not_lt.mp h) hhigh⟩

section Directions

variable (hs : s.Valid) (hregion : s.extent.top < s.extent.bottom) (n : Nat)
include hs hregion

theorem up_iff : landing s .up (takenSteps n) = saturated s .up n ∧ SumsFit s .up n ↔
    Harmless s .up n := by
  have hposY := hs.screen.posY
  have hsize := hs.screen.height
  have hrange := range_bounds hs hregion
  have htaken := takenSteps_cases n
  unfold landing saturated SumsFit Harmless heldRow askedSteps IsInt
  rw [Prod.mk.injEq]
  generalize takenSteps n = taken at *
  omega

theorem down_iff : landing s .down (takenSteps n) = saturated s .down n ∧ SumsFit s .down n ↔
    Harmless s .down n := by
  have hposY := hs.screen.posY
  have hheight := hs.screen.height_eq
  have hsize := hs.screen.height
  have hrange := range_bounds hs hregion
  have htaken := takenSteps_cases n
  have hsum := @toInt_sum (s.screen.posY + max (takenSteps n) 1) (by omega) (by omega)
  unfold landing saturated SumsFit Harmless heldRow askedSteps IsInt
  rw [Prod.mk.injEq]
  generalize toInt (s.screen.posY + max (takenSteps n) 1) = row at *
  generalize takenSteps n = taken at *
  rcases hsum with ⟨hfits, rfl⟩ | ⟨hbeyond, rfl⟩ <;> omega

theorem right_iff : landing s .right (takenSteps n) = saturated s .right n ∧ SumsFit s .right n ↔
    Harmless s .right n := by
  have hposX := hs.screen.posX
  have hwidth := hs.screen.width_eq
  have hsize := hs.screen.width
  have hrange := range_bounds hs hregion
  have htaken := takenSteps_cases n
  have hsum := @toInt_sum (s.screen.posX + max (takenSteps n) 1) (by omega) (by omega)
  unfold landing saturated SumsFit Harmless heldRow onScreen askedSteps IsInt
  rw [Prod.mk.injEq]
  generalize toInt (s.screen.posX + max (takenSteps n) 1) = column at *
  generalize takenSteps n = taken at *
  generalize s.screen.width = width at *
  omega

theorem left_iff : landing s .left (takenSteps n) = saturated s .left n ∧ SumsFit s .left n ↔
    Harmless s .left n := by
  have hposX := hs.screen.posX
  have hwidth := hs.screen.width_eq
  have hsize := hs.screen.width
  have hrange := range_bounds hs hregion
  have htaken := takenSteps_cases n
  unfold landing saturated SumsFit Harmless heldRow onScreen askedSteps IsInt
  rw [Prod.mk.injEq]
  generalize takenSteps n = taken at *
  generalize s.screen.width = width at *
  omega

theorem nextLine_iff :
    landing s .nextLine (takenSteps n) = saturated s .nextLine n ∧ SumsFit s .nextLine n ↔
      Harmless s .nextLine n := by
  have hposY := hs.screen.posY
  have hheight := hs.screen.height_eq
  have hsize := hs.screen.height
  have hrange := range_bounds hs hregion
  have htaken := takenSteps_cases n
  have hsum := @toInt_sum (s.screen.posY + takenSteps n) (by omega) (by omega)
  unfold landing saturated SumsFit Harmless onScreen askedSteps IsInt
  rw [Prod.mk.injEq]
  generalize toInt (s.screen.posY + takenSteps n) = row at *
  generalize takenSteps n = taken at *
  generalize s.screen.height = height at *
  -- Each way in which the number is taken, with a sum that fits and with one that does not.
  rcases htaken with ⟨hsize, rfl⟩ | ⟨hlow, hhigh, rfl⟩ | ⟨hlow, rfl⟩ <;>
    rcases hsum with ⟨hfits, rfl⟩ | ⟨hbeyond, rfl⟩ <;> omega

theorem precedingLine_iff : landing s .precedingLine (takenSteps n) = saturated s .precedingLine n ∧
      SumsFit s .precedingLine n ↔ Harmless s .precedingLine n := by
  have hposY := hs.screen.posY
  have hheight := hs.screen.height_eq
  have hsize := hs.screen.height
  have hrange := range_bounds hs hregion
  have htaken := takenSteps_cases n
  have hneg := @toInt_sum (-takenSteps n) (by omega) (by omega)
  have hsum := @toInt_sum (s.screen.posY + toInt (-takenSteps n)) (by omega) (by omega)
  unfold landing saturated SumsFit Harmless onScreen askedSteps IsInt
  rw [Prod.mk.injEq]
  generalize toInt (s.screen.posY + toInt (-takenSteps n)) = row at *
  generalize toInt (-takenSteps n) = back at *
  generalize takenSteps n = taken at *
  generalize s.screen.height = height at *
  rcases htaken with ⟨hsize, rfl⟩ | ⟨hlow, hhigh, rfl⟩ | ⟨hlow, rfl⟩ <;>
    rcases hneg with ⟨hfits, rfl⟩ | ⟨hbeyond, rfl⟩ <;>
      rcases hsum with ⟨hfits', rfl⟩ | ⟨hbeyond', rfl⟩ <;> omega

end Directions

/-- A movement is right exactly if the number, the sum and the range do no harm. -/
theorem saturates_iff (system : CharacterSystem σ) {parser : Parser} (hparser : parser.AtRest)
    (hs : s.Valid) (hregion : s.extent.top < s.extent.bottom) (direction : Direction)
    {digits : Bytes} (hdigits : ∀ byte ∈ digits, isDigitByte byte = true) (hne : digits ≠ []) :
    Saturates system parser s direction digits ↔ Harmless s direction (decimalValue 0 digits) := by
  have hmoved := movedTo_eq system hparser hs hregion direction hdigits hne
  have hsplit : Saturates system parser s direction digits ↔
      landing s direction (takenSteps (decimalValue 0 digits)) =
        saturated s direction (decimalValue 0 digits) ∧
      SumsFit s direction (decimalValue 0 digits) := by
    constructor
    · intro h
      exact ⟨some.inj (hmoved.symm.trans h.position), h.sums⟩
    · rintro ⟨hposition, hsums⟩
      exact ⟨hmoved.trans (congrArg some hposition), hsums⟩
  rw [hsplit]
  cases direction with
  | up => exact up_iff hs hregion _
  | down => exact down_iff hs hregion _
  | right => exact right_iff hs hregion _
  | left => exact left_iff hs hregion _
  | nextLine => exact nextLine_iff hs hregion _
  | precedingLine => exact precedingLine_iff hs hregion _

/-- Two lines up from the last of four. -/
theorem saturates_two_up : Saturates singleByteSystem {} ((new (new 4 4) ()).moveTo 0 3) .up
      (ascii "2") := by
  have hsize : 0 < 4 ∧ 4 < 2 ^ 31 := by decide
  have hvalid := new_valid (new_valid hsize hsize) ()
  have hmoved := (moveTo_step hvalid 0 3).valid hvalid
  have hdigits : ∀ byte ∈ ascii "2", isDigitByte byte := by decide +kernel
  exact (saturates_iff singleByteSystem atRest_new hmoved (by decide +kernel) .up
    hdigits (by decide +kernel)).mpr (by
      unfold Harmless
      decide +kernel)

/-- A number that does not fit 32 bits is read as none, and moves by one line. -/
theorem long_way_up_moves_one : ¬Saturates singleByteSystem {} ((new (new 4 4) ()).moveTo 0 3) .up
      (ascii "4294967296") := by
  intro h
  have hposition := h.position
  revert hposition
  decide +kernel

end WinCommander.Term
