/-
  `ByteCountFormatter`: sizes as six characters, in groups of three digits, or with a unit.

  A size has 64 bits and nothing overflows, so it is a natural number; a unit letter that does not
  exist is an access that fails. What is shown is read from the text: a number and a unit, in tenths
  of a byte where there is a decimal. `Fixed6` and `Adaptive6` show rounded quantities, which keep
  their order over the carries into the next digit and the next unit (`fixedQuantity_mono`,
  `adaptiveQuantity_mono`). There is no text for what the largest unit of `Fixed6` and the last group
  of `SpaceSeparated` cannot hold.
-/
import WinCommander.Library.Numeral

namespace WinCommander.Utility

open Library List Nat Bool

/-! ## The code -/

/-- The languages that the units are written in. -/
inductive Language where
  | russian
  | other
deriving DecidableEq

def isDigitUnit (c : UInt16) : Bool := 0x30 ≤ c && c ≤ 0x39

structure ByteCountFormatter where
  language : Language
  decimalSeparatorUni : UInt16
  /-- What separates decimals in some region is no digit. -/
  separates : isDigitUnit decimalSeparatorUni = false

namespace ByteCountFormatter

/-- `" КМГТП"` or `" KMGTP"`. -/
def si (f : ByteCountFormatter) : List UInt16 :=
  match f.language with
  | .russian => [0x20, 0x41A, 0x41C, 0x413, 0x422, 0x41F]
  | .other => [0x20, 0x4B, 0x4D, 0x47, 0x54, 0x50]

/-- `"б"` or `"B"`. -/
def b (f : ByteCountFormatter) : UInt16 :=
  match f.language with
  | .russian => 0x431
  | .other => 0x42

/-- `"байт"` or `"bytes"`. -/
def bytes (f : ByteCountFormatter) : List UInt16 :=
  match f.language with
  | .russian => [0x431, 0x430, 0x439, 0x442]
  | .other => [0x62, 0x79, 0x74, 0x65, 0x73]

/-- Binary ones. -/
def exponent : Nat → Nat
  | 0 => 1
  | 1 => 1024
  | 2 => 1048576
  | 3 => 1073741824
  | 4 => 1099511627776
  | 5 => 1125899906842624
  | _ => 0

def chartouni (text : Bytes) : List UInt16 := text.map UInt8.toUInt16

/-- The branches of `Fixed6` with a unit. -/
def fixed6Unit (f : ByteCountFormatter) (size expo : Nat) : Option (List UInt16) :=
  let div := exponent expo
  let res := size / div
  (f.si[expo]?).map fun unit =>
    chartouni (decimal (res + (size - res * div) / (div / 2))) ++ [0x20, unit]

def fixed6Impl (f : ByteCountFormatter) (size : Nat) : Option (List UInt16) :=
  if size < 1000000 then some (chartouni (decimal size))
  else if size < 9999 * exponent 1 then f.fixed6Unit size 1
  else if size < 9999 * exponent 2 then f.fixed6Unit size 2
  else if size < 9999 * exponent 3 then f.fixed6Unit size 3
  else if size < 9999 * exponent 4 then f.fixed6Unit size 4
  else if size < 9999 * exponent 5 then f.fixed6Unit size 5
  else some []

/-- `"{:03} "`. -/
def padded (n : Nat) : Bytes := List.replicate (3 - (decimal n).length) 48 ++ decimal n ++ [0x20]

def spaceSeparatedImpl (f : ByteCountFormatter) (size : Nat) : List UInt16 :=
  let group_1 := size % 1000
  let group_2 := size / 1000 % 1000
  let group_3 := size / 1000000 % 1000
  let group_4 := size / 1000000000 % 1000
  let group_5 := size / 1000000000000 % 1000
  let buf : Bytes :=
    if size < 1000 then decimal size ++ [0x20]
    else if size < 1000 * 1000 then decimal group_2 ++ [0x20] ++ padded group_1
    else if size < 1000 * 1000 * 1000 then
      decimal group_3 ++ [0x20] ++ padded group_2 ++ padded group_1
    else if size < 1000 * 1000 * 1000 * 1000 then
      decimal group_4 ++ [0x20] ++ padded group_3 ++ padded group_2 ++ padded group_1
    else if size < 1000 * 1000 * 1000 * 1000 * 1000 then
      decimal group_5 ++ [0x20] ++ padded group_4 ++ padded group_3 ++ padded group_2 ++
        padded group_1
    else []
  chartouni buf ++ f.bytes

/-- What the loop of `Adaptive6` leaves. -/
structure Scaled where
  significant : Nat
  remainer : Nat
  hrem : Nat
  expo : Nat
deriving DecidableEq

/-- The loop; a size is smaller after each round. -/
def adaptiveLoop : Nat → Nat → Nat → Nat → Scaled
  | 0, size, hrem, expo => ⟨size, 0, hrem, expo⟩
  | rounds + 1, size, hrem, expo =>
    let remainer := size % 1024
    let size := size / 1024
    if size < 1024 then ⟨size, remainer, hrem, expo⟩
    else adaptiveLoop rounds size (hrem ||| remainer) (expo + 1)

/-- A number with a decimal, in a unit. -/
def withDecimal (f : ByteCountFormatter) (number decimal expo : Nat) : Option (List UInt16) :=
  (f.si[expo]?).map fun unit =>
    [UInt16.ofNat (0x30 + number), f.decimalSeparatorUni, UInt16.ofNat (0x30 + decimal), 0x20, unit,
      f.b]

def withoutDecimal (f : ByteCountFormatter) (number expo : Nat) : Option (List UInt16) :=
  (f.si[expo]?).map fun unit => chartouni (decimal number) ++ [0x20, unit, f.b]

/-- Rounding half to even: what is at the half goes up if the digit is odd or more follows. -/
def roundsUp (half remainer digit hrem : Nat) : Bool :=
  remainer > half || remainer = half && (digit % 2 = 1 || hrem ≠ 0)

/-- The branches of `Adaptive6` behind the loop. -/
def scaledText (f : ByteCountFormatter) : Scaled → Option (List UInt16)
  | ⟨significant, remainer, hrem, expo⟩ =>
    if significant < 10 then
      if remainer ≥ 950 then
        if significant = 9 then (f.si[expo]?).map fun unit => [0x31, 0x30, 0x20, unit, f.b]
        else f.withDecimal (significant + 1) 0 expo
      else
        let decimal := remainer / 100
        let remainer := remainer % 100
        f.withDecimal significant
          (if roundsUp 50 remainer decimal hrem then decimal + 1 else decimal) expo
    else
      let significant := if roundsUp 512 remainer significant hrem then significant + 1
        else significant
      if significant ≥ 1000 then f.withDecimal 1 0 (expo + 1)
      else f.withoutDecimal significant expo

def adaptive6Impl (f : ByteCountFormatter) (size : Nat) : Option (List UInt16) :=
  if size ≤ 0 then some [0x30, 0x20, f.b]
  else if size < 1024 then some (chartouni (decimal size) ++ [0x20, f.b])
  else f.scaledText (adaptiveLoop size size 0 1)

end ByteCountFormatter

open ByteCountFormatter

/-! ## What is asked for -/

/-- The number that digits are. -/
def valueOfUnits (digits : List UInt16) : Nat := decimalValue 0 (digits.map UInt16.toUInt8)

/-- A number of bytes, or of a unit. -/
def readFixed6 (f : ByteCountFormatter) (text : List UInt16) : Option Nat :=
  let number := valueOfUnits (text.takeWhile isDigitUnit)
  match text.dropWhile isDigitUnit with
  | [] => some number
  | [space, unit] =>
    if space = 0x20 then (f.si.idxOf? unit).map fun expo => number * 1024 ^ expo else none
  | _ => none

/-- A number of bytes, or of a unit with a decimal or without; in tenths of a byte. -/
def readAdaptive6 (f : ByteCountFormatter) (text : List UInt16) : Option Nat :=
  let number := valueOfUnits (text.takeWhile isDigitUnit)
  match text.dropWhile isDigitUnit with
  | [space, b] => if space = 0x20 ∧ b = f.b then some (number * 10) else none
  | [space, unit, b] =>
    if space = 0x20 ∧ b = f.b then
      (f.si.idxOf? unit).map fun expo => number * 10 * 1024 ^ expo
    else none
  | [separator, tenth, space, unit, b] =>
    if separator = f.decimalSeparatorUni ∧ isDigitUnit tenth ∧ space = 0x20 ∧ b = f.b then
      (f.si.idxOf? unit).map fun expo => (number * 10 + valueOfUnits [tenth]) * 1024 ^ expo
    else none
  | _ => none

/-- A text that fits, with a digit, and no smaller size is shown as a larger quantity. -/
structure ShownSoundly (impl : Nat → Option (List UInt16)) (read : List UInt16 → Option Nat)
    (room size : Nat) : Prop where
  written : ∃ text, impl size = some text ∧ text.length ≤ room ∧ ∃ c ∈ text, isDigitUnit c = true
  ordered : ∀ smaller ≤ size, ∃ quantity' quantity, (impl smaller).bind read = some quantity' ∧
    (impl size).bind read = some quantity ∧ quantity' ≤ quantity

structure SeparatedSoundly (f : ByteCountFormatter) (size : Nat) : Prop where
  fits : (f.spaceSeparatedImpl size).length ≤ 64
  digits : (f.spaceSeparatedImpl size).filter isDigitUnit = chartouni (decimal size)
  digit : ∃ c ∈ f.spaceSeparatedImpl size, isDigitUnit c = true

/-! ## Texts -/

theorem isDigitUnit_toUInt16 (c : UInt8) : isDigitUnit c.toUInt16 = isDigitByte c := by
  have all : ∀ n < 256, isDigitUnit (UInt8.ofNat n).toUInt16 = isDigitByte (UInt8.ofNat n) := by
    decide +kernel
  have h := all c.toNat c.toNat_lt
  rwa [UInt8.ofNat_toNat] at h

variable (n : Nat)

theorem chartouni_digits : ∀ c ∈ chartouni (decimal n), isDigitUnit c := by
  refine forall_mem_map.mpr fun c hc => ?_
  exact decimal_isDigit n c hc

theorem length_chartouni (text : Bytes) : (chartouni text).length = text.length := length_map _

theorem valueOfUnits_decimal : valueOfUnits (chartouni (decimal n)) = n := by
  have hback : ∀ text : Bytes, (chartouni text).map UInt16.toUInt8 = text := by
    intro text
    unfold chartouni
    rw [map_map]
    exact (map_congr_left fun c _ => UInt8.toUInt8_toUInt16 c).trans (map_id text)
  unfold valueOfUnits
  rw [hback, decimalValue_decimal]

/-- One digit is a numeral. -/
theorem digitUnit_eq {n : Nat} (h : n < 10) : [UInt16.ofNat (0x30 + n)] = chartouni (decimal n) := by
  have all : ∀ n < 10, UInt16.ofNat (0x30 + n) = ((48 + n).toUInt8).toUInt16 := by decide
  rw [decimal_of_lt h]
  exact congrArg (fun unit => [unit]) (all n h)

/-- A numeral before what begins with no digit. -/
theorem span_numeral {rest : List UInt16} (h : ∀ c ∈ rest.head?, isDigitUnit c = false) :
    (chartouni (decimal n) ++ rest).takeWhile isDigitUnit = chartouni (decimal n) ∧
      (chartouni (decimal n) ++ rest).dropWhile isDigitUnit = rest := by
  rw [takeWhile_append_of_pos (chartouni_digits n), dropWhile_append_of_pos (chartouni_digits n)]
  cases rest with
  | nil => exact ⟨append_nil _, rfl⟩
  | cons c rest =>
    have hc := eq_false_iff.mp (h c rfl)
    rw [takeWhile_cons_of_neg hc, dropWhile_cons_of_neg hc, append_nil]
    exact ⟨rfl, rfl⟩

/-- A digit is found in what begins with a numeral. -/
theorem digit_of_numeral (rest : List UInt16) :
    ∃ c ∈ chartouni (decimal n) ++ rest, isDigitUnit c := by
  obtain ⟨c, digits, hdecimal⟩ := exists_cons_of_ne_nil (decimal_ne_nil n)
  have hmem : c.toUInt16 ∈ chartouni (decimal n) := mem_map_of_mem (by
    rw [hdecimal]
    exact mem_cons_self)
  exact ⟨c.toUInt16, mem_append_left rest hmem, chartouni_digits n _ hmem⟩

section Reading

variable (f : ByteCountFormatter)

variable {expo : Nat} {unit : UInt16}

/-- No two units have the same letter. -/
theorem idxOf_si (h : f.si[expo]? = some unit) : f.si.idxOf? unit = some expo := by
  have hnodup : f.si.Nodup := by
    unfold si
    cases f.language <;> decide
  obtain ⟨hlt, rfl⟩ := List.getElem?_eq_some_iff.mp h
  refine List.findIdx?_eq_some_iff_getElem.mpr ⟨hlt, beq_self_eq_true _, fun j hj => ?_⟩
  rw [beq_iff_eq]
  exact pairwise_iff_getElem.mp hnodup j expo (Nat.lt_trans hj hlt) hlt hj

theorem length_si : f.si.length = 6 := by
  unfold si
  cases f.language <;> rfl

theorem isSome_si (h : expo < 6) : ∃ unit, f.si[expo]? = some unit :=
  ⟨_, List.getElem?_eq_getElem (by rw [length_si]; exact h)⟩

theorem readFixed6_bytes (n : Nat) : readFixed6 f (chartouni (decimal n)) = some n := by
  obtain ⟨htake, hdrop⟩ := @span_numeral n [] (fun _ hc => nomatch hc)
  rw [append_nil] at htake hdrop
  unfold readFixed6
  rw [htake, hdrop, valueOfUnits_decimal]

theorem readFixed6_unit (n : Nat) (h : f.si[expo]? = some unit) :
    readFixed6 f (chartouni (decimal n) ++ [0x20, unit]) = some (n * 1024 ^ expo) := by
  obtain ⟨htake, hdrop⟩ := @span_numeral n [0x20, unit] (fun c hc => by
    obtain rfl := Option.some.inj hc
    rfl)
  unfold readFixed6
  rw [htake, hdrop, valueOfUnits_decimal]
  dsimp only
  rw [if_pos rfl, idxOf_si f h]
  rfl

theorem readAdaptive6_bytes (n : Nat) :
    readAdaptive6 f (chartouni (decimal n) ++ [0x20, f.b]) = some (n * 10) := by
  obtain ⟨htake, hdrop⟩ := @span_numeral n [0x20, f.b] (fun c hc => by
    obtain rfl := Option.some.inj hc
    rfl)
  unfold readAdaptive6
  rw [htake, hdrop, valueOfUnits_decimal]
  exact if_pos ⟨rfl, rfl⟩

theorem readAdaptive6_unit (n : Nat) (h : f.si[expo]? = some unit) :
    readAdaptive6 f (chartouni (decimal n) ++ [0x20, unit, f.b]) = some (n * 10 * 1024 ^ expo) := by
  obtain ⟨htake, hdrop⟩ := @span_numeral n [0x20, unit, f.b] (fun c hc => by
    obtain rfl := Option.some.inj hc
    rfl)
  unfold readAdaptive6
  rw [htake, hdrop, valueOfUnits_decimal]
  dsimp only
  rw [if_pos ⟨rfl, rfl⟩, idxOf_si f h]
  rfl

theorem readAdaptive6_decimal {n tenth : Nat} (hn : n < 10) (htenth : tenth < 10)
    (h : f.si[expo]? = some unit) :
    readAdaptive6 f [UInt16.ofNat (0x30 + n), f.decimalSeparatorUni, UInt16.ofNat (0x30 + tenth),
      0x20, unit, f.b] = some ((n * 10 + tenth) * 1024 ^ expo) := by
  obtain ⟨htake, hdrop⟩ := @span_numeral n
    [f.decimalSeparatorUni, UInt16.ofNat (0x30 + tenth), 0x20, unit, f.b] (fun c hc => by
      obtain rfl := Option.some.inj hc
      exact f.separates)
  have hdigit : isDigitUnit (UInt16.ofNat (0x30 + tenth)) := by
    refine chartouni_digits tenth _ ?_
    rw [← digitUnit_eq htenth]
    exact mem_singleton_self _
  rw [← digitUnit_eq hn] at htake hdrop
  change takeWhile isDigitUnit [UInt16.ofNat (0x30 + n), f.decimalSeparatorUni, _, _, _, _] = _
    at htake
  change dropWhile isDigitUnit [UInt16.ofNat (0x30 + n), f.decimalSeparatorUni, _, _, _, _] = _
    at hdrop
  unfold readAdaptive6
  rw [htake, hdrop, digitUnit_eq hn, valueOfUnits_decimal]
  dsimp only
  rw [if_pos ⟨rfl, hdigit, rfl, rfl⟩, idxOf_si f h, digitUnit_eq htenth, valueOfUnits_decimal]
  rfl

end Reading

/-! ## `Fixed6` -/

/-- Division that rounds at the half, up. -/
def rounded (n half : Nat) : Nat := (n + half) / (2 * half)

theorem rounded_mono {n m : Nat} (h : n ≤ m) (half : Nat) : rounded n half ≤ rounded m half :=
  Nat.div_le_div_right (Nat.add_le_add_right h half)

/-- What is left over counts if it is half of the divisor at least. -/
theorem rounded_eq {half : Nat} (hhalf : 0 < half) (n : Nat) :
    n / (2 * half) + (n - n / (2 * half) * (2 * half)) / half = rounded n half := by
  have hsplit := div_add_mod n (2 * half)
  have hlt := mod_lt n (Nat.mul_pos Nat.two_pos hhalf)
  rw [Nat.mul_comm] at hsplit
  generalize hq : n / (2 * half) = q at hsplit ⊢
  generalize hr : n % (2 * half) = r at hsplit hlt
  have hrest : n - q * (2 * half) = r := by omega
  have hsum : n + half = (r + half) + q * (2 * half) := by omega
  unfold rounded
  rw [hrest, hsum, add_mul_div_right _ _ (by omega)]
  by_cases hup : half ≤ r
  · have hone : r / half = 1 := Nat.div_eq_of_lt_le (by omega) (by omega)
    have hone' : (r + half) / (2 * half) = 1 := Nat.div_eq_of_lt_le (by omega) (by omega)
    omega
  · rw [div_eq_of_lt (by omega : r < half), div_eq_of_lt (by omega : r + half < 2 * half)]
    omega

theorem exponent_eq {expo : Nat} (h : expo < 6) : exponent expo = 1024 ^ expo := by
  have all : ∀ expo < 6, exponent expo = 1024 ^ expo := by decide
  exact all expo h

/-- Half of a unit. -/
def half (expo : Nat) : Nat := 512 * 1024 ^ (expo - 1)

theorem two_half {expo : Nat} (h : 1 ≤ expo) : 2 * half expo = 1024 ^ expo := by
  obtain ⟨less, rfl⟩ := Nat.exists_eq_add_of_le' h
  unfold half
  rw [Nat.add_sub_cancel, Nat.pow_succ]
  omega

theorem half_pos (expo : Nat) : 0 < half expo := Nat.mul_pos (by decide) (Nat.pow_pos (by decide))

variable (f : ByteCountFormatter)

theorem fixed6Unit_eq (size : Nat) {expo : Nat} (hlow : 1 ≤ expo) (hhigh : expo < 6) :
    f.fixed6Unit size expo = (f.si[expo]?).map fun unit =>
      chartouni (decimal (rounded size (half expo))) ++ [0x20, unit] := by
  have hhalf : 1024 ^ expo / 2 = half expo := by
    rw [← two_half hlow, Nat.mul_div_cancel_left _ Nat.two_pos]
  unfold fixed6Unit
  dsimp only
  rw [exponent_eq hhigh, hhalf, ← two_half hlow, rounded_eq (half_pos expo)]

/-- The range of a unit. -/
structure Rung (size expo : Nat) : Prop where
  low : 1 ≤ expo
  high : expo < 6
  bytes : 1000000 ≤ size
  above : 2 ≤ expo → 9999 * 1024 ^ (expo - 1) ≤ size
  below : size < 9999 * 1024 ^ expo

/-- The branches are taken for bytes, for each unit, and for what is too large. -/
theorem fixed6_cases (size : Nat) :
    size < 1000000 ∧ f.fixed6Impl size = some (chartouni (decimal size)) ∨
      (∃ expo, Rung size expo ∧ f.fixed6Impl size = f.fixed6Unit size expo) ∨
        9999 * 1024 ^ 5 ≤ size ∧ f.fixed6Impl size = some [] := by
  unfold fixed6Impl
  by_cases h0 : size < 1000000
  · exact .inl ⟨h0, if_pos h0⟩
  rw [if_neg h0]
  have hbytes := Nat.not_lt.mp h0
  by_cases h1 : size < 9999 * exponent 1
  · refine .inr (.inl ⟨1, ⟨by decide, by decide, hbytes, fun h => ?_, h1⟩, if_pos h1⟩)
    exact absurd h (by decide)
  rw [if_neg h1]
  by_cases h2 : size < 9999 * exponent 2
  · exact .inr (.inl ⟨2, ⟨by decide, by decide, hbytes, fun _ => Nat.not_lt.mp h1, h2⟩, if_pos h2⟩)
  rw [if_neg h2]
  by_cases h3 : size < 9999 * exponent 3
  · exact .inr (.inl ⟨3, ⟨by decide, by decide, hbytes, fun _ => Nat.not_lt.mp h2, h3⟩, if_pos h3⟩)
  rw [if_neg h3]
  by_cases h4 : size < 9999 * exponent 4
  · exact .inr (.inl ⟨4, ⟨by decide, by decide, hbytes, fun _ => Nat.not_lt.mp h3, h4⟩, if_pos h4⟩)
  rw [if_neg h4]
  by_cases h5 : size < 9999 * exponent 5
  · exact .inr (.inl ⟨5, ⟨by decide, by decide, hbytes, fun _ => Nat.not_lt.mp h4, h5⟩, if_pos h5⟩)
  exact .inr (.inr ⟨Nat.not_lt.mp h5, if_neg h5⟩)

/-- The number before a unit has four digits at most, and two at least. -/
theorem Rung.bounds {size expo : Nat} (h : Rung size expo) :
    10 ≤ rounded size (half expo) ∧ rounded size (half expo) ≤ 9999 ∧
      1000000 ≤ rounded size (half expo) * 1024 ^ expo := by
  have htwo := two_half h.low
  have hbelow := h.below
  have hle : rounded size (half expo) ≤ 9999 := by
    refine Nat.lt_succ_iff.mp ((Nat.div_lt_iff_lt_mul (by omega)).mpr ?_)
    omega
  by_cases hone : expo = 1
  · subst hone
    have hbytes := h.bytes
    have hhalf : half 1 = 512 := rfl
    have hmany : 977 ≤ rounded size (half 1) := by
      refine (Nat.le_div_iff_mul_le (by omega)).mpr ?_
      omega
    exact ⟨by omega, hle, by omega⟩
  · have hlow := h.low
    have habove := h.above (by omega)
    have hten : 10 ≤ rounded size (half expo) := by
      refine (Nat.le_div_iff_mul_le (by omega)).mpr ?_
      unfold half
      omega
    have hunit : 1024 ^ 2 ≤ 1024 ^ expo := Nat.pow_le_pow_right (by decide) (by omega)
    refine ⟨hten, hle, Nat.le_trans (by decide : 1000000 ≤ 10 * 1024 ^ 2) ?_⟩
    exact Nat.mul_le_mul hten hunit

/-- What a size is shown as. -/
inductive FixedQuantity (size : Nat) : Nat → Prop where
  | bytes : size < 1000000 → FixedQuantity size size
  | unit {expo : Nat} : Rung size expo → FixedQuantity size (rounded size (half expo) * 1024 ^ expo)

theorem fixedQuantity_mono {size size' quantity quantity' : Nat} (h : FixedQuantity size quantity)
    (h' : FixedQuantity size' quantity') (hle : size ≤ size') : quantity ≤ quantity' := by
  cases h with
  | bytes hbytes =>
    cases h' with
    | bytes _ => exact hle
    | unit hrung =>
      have hbounds := hrung.bounds
      omega
  | @unit expo hrung =>
    cases h' with
    | bytes hbytes =>
      have hlarge := hrung.bytes
      omega
    | @unit expo' hrung' =>
      obtain hlt | rfl | hgt := Nat.lt_trichotomy expo expo'
      · -- the least number of a larger unit is more than the largest one of a smaller unit
        obtain ⟨-, hnines, -⟩ := hrung.bounds
        obtain ⟨hten, -, -⟩ := hrung'.bounds
        have hunits : 1024 ^ (expo + 1) ≤ 1024 ^ expo' := Nat.pow_le_pow_right (by decide) hlt
        calc rounded size (half expo) * 1024 ^ expo
          _ ≤ 9999 * 1024 ^ expo := Nat.mul_le_mul_right _ hnines
          _ ≤ 10 * 1024 ^ (expo + 1) := by
            omega
          _ ≤ rounded size' (half expo') * 1024 ^ expo' := Nat.mul_le_mul hten hunits
      · exact Nat.mul_le_mul_right _ (rounded_mono hle _)
      · have hbelow := hrung'.below
        have habove := hrung.above (by have := hrung'.low; omega)
        have hunits : 1024 ^ expo' ≤ 1024 ^ (expo - 1) :=
          Nat.pow_le_pow_right (by decide) (by omega)
        omega

variable {size : Nat}

/-- The text for a size is read as its quantity. -/
theorem fixed6_shows (h : size < 9999 * 1024 ^ 5) :
    ∃ text quantity, f.fixed6Impl size = some text ∧ text.length ≤ 6 ∧
      (∃ c ∈ text, isDigitUnit c) ∧ readFixed6 f text = some quantity ∧
        FixedQuantity size quantity := by
  obtain ⟨hbytes, himpl⟩ | ⟨expo, hrung, himpl⟩ | ⟨hlarge, -⟩ := fixed6_cases f size
  · refine ⟨_, size, himpl, ?_, ?_, readFixed6_bytes f size, .bytes hbytes⟩
    · rw [length_chartouni]
      exact decimal_length_le (by decide) hbytes
    · have hdigit := digit_of_numeral size []
      rwa [append_nil] at hdigit
  · obtain ⟨unit, hunit⟩ := isSome_si f hrung.high
    rw [fixed6Unit_eq f size hrung.low hrung.high, hunit] at himpl
    refine ⟨_, _, himpl, ?_, digit_of_numeral _ _, readFixed6_unit f _ hunit, .unit hrung⟩
    have hlength : (decimal (rounded size (half expo))).length ≤ 4 :=
      decimal_length_le (by decide) (Nat.lt_succ_iff.mpr hrung.bounds.2.1)
    rw [length_append, length_chartouni]
    exact Nat.add_le_add_right hlength 2
  · exact absurd h (Nat.not_lt.mpr hlarge)

theorem fixed6_tooLarge (h : 9999 * 1024 ^ 5 ≤ size) : f.fixed6Impl size = some [] := by
  obtain ⟨hbytes, -⟩ | ⟨expo, hrung, -⟩ | ⟨-, himpl⟩ := fixed6_cases f size
  · omega
  · have hunits : 1024 ^ expo ≤ 1024 ^ 5 :=
      Nat.pow_le_pow_right (by decide) (le_of_lt_succ hrung.high)
    have hbelow := hrung.below
    omega
  · exact himpl

theorem fixed6_sound (h : size < 9999 * 1024 ^ 5) :
    ShownSoundly f.fixed6Impl (readFixed6 f) 6 size := by
  obtain ⟨text, quantity, himpl, hlength, hdigit, hread, hquantity⟩ := fixed6_shows f h
  refine ⟨⟨text, himpl, hlength, hdigit⟩, fun smaller hle => ?_⟩
  obtain ⟨text', quantity', himpl', -, -, hread', hquantity'⟩ :=
    fixed6_shows f (Nat.lt_of_le_of_lt hle h)
  refine ⟨quantity', quantity, ?_, ?_, fixedQuantity_mono hquantity' hquantity hle⟩
  · rw [himpl']
    exact hread'
  · rw [himpl]
    exact hread

/-! ## `Adaptive6` -/

theorem div_pow_succ (size k : Nat) : size / 1024 / 1024 ^ k = size / 1024 ^ (k + 1) := by
  rw [Nat.div_div_eq_div_mul, Nat.pow_succ, Nat.mul_comm]

theorem div_pow_succ' (size k : Nat) : size / 1024 ^ (k + 1) = size / 1024 ^ k / 1024 := by
  rw [Nat.div_div_eq_div_mul, Nat.pow_succ]

/-- The loop divides until three digits are left; what was divided off lower is not forgotten. -/
theorem adaptiveLoop_eq {rounds size : Nat} (hrounds : size ≤ rounds) (hsize : 1024 ≤ size)
    (hrem expo : Nat) : ∃ k hrem', adaptiveLoop rounds size hrem expo =
        ⟨size / 1024 ^ (k + 1), size / 1024 ^ k % 1024, hrem', expo + k⟩ ∧
      1024 ^ (k + 1) ≤ size ∧ size < 1024 ^ (k + 2) ∧
        (hrem' ≠ 0 ↔ hrem ≠ 0 ∨ size % 1024 ^ k ≠ 0) := by
  induction rounds generalizing size hrem expo with
  | zero => omega
  | succ rounds ih =>
    unfold adaptiveLoop
    by_cases hlast : size / 1024 < 1024
    · rw [if_pos hlast]
      refine ⟨0, hrem, ?_, hsize, ?_, ?_⟩
      · rw [Nat.pow_zero, Nat.div_one, Nat.pow_one, Nat.add_zero]
      · omega
      · rw [Nat.pow_zero, mod_one]
        exact (or_iff_left (fun h => h rfl)).symm
    · rw [if_neg hlast]
      obtain ⟨k, hrem', hloop, hlow, hhigh, hiff⟩ :=
        @ih (size / 1024) (by omega) (Nat.not_lt.mp hlast) (hrem ||| size % 1024) (expo + 1)
      refine ⟨k + 1, hrem', ?_, ?_, ?_, ?_⟩
      · rw [hloop, div_pow_succ, div_pow_succ, Nat.add_right_comm expo 1 k]
        rfl
      · rw [Nat.pow_succ]
        exact (Nat.le_div_iff_mul_le (by decide)).mp hlow
      · rw [Nat.pow_succ]
        exact (Nat.div_lt_iff_lt_mul (by decide)).mp hhigh
      · have hmod : size % 1024 ^ (k + 1) = size % 1024 + 1024 * (size / 1024 % 1024 ^ k) := by
          rw [Nat.pow_succ, Nat.mul_comm, mod_mul]
        rw [hiff, hmod, Ne, or_eq_zero_iff]
        omega

variable (half remainer digit hrem : Nat)

theorem roundsUp_iff : roundsUp half remainer digit hrem ↔
    remainer > half ∨ remainer = half ∧ (digit % 2 = 1 ∨ hrem ≠ 0) := by
  unfold roundsUp
  simp [or_eq_true, and_eq_true, decide_eq_true_eq]

/-- A digit, rounded. -/
def roundedDigit (half remainer digit hrem : Nat) : Nat :=
  if roundsUp half remainer digit hrem then digit + 1 else digit

theorem roundedDigit_bounds : digit ≤ roundedDigit half remainer digit hrem ∧
      roundedDigit half remainer digit hrem ≤ digit + 1 := by
  unfold roundedDigit
  split
  · exact ⟨le_succ digit, Nat.le_refl _⟩
  · exact ⟨Nat.le_refl digit, le_succ _⟩

/-- More is left over for the same digit. -/
theorem roundedDigit_mono {half remainer remainer' digit hrem hrem' : Nat}
    (h : remainer < remainer' ∨ remainer = remainer' ∧ (hrem ≠ 0 → hrem' ≠ 0)) :
    roundedDigit half remainer digit hrem ≤ roundedDigit half remainer' digit hrem' := by
  unfold roundedDigit
  by_cases hup : roundsUp half remainer digit hrem
  · have hup' : roundsUp half remainer' digit hrem' := by
      rw [roundsUp_iff] at hup ⊢
      omega
    rw [if_pos hup, if_pos hup']
  · rw [if_neg hup]
    split
    · exact le_succ digit
    · exact Nat.le_refl digit

/-- The tenths of a unit that are shown. -/
def tenths (significant remainer hrem : Nat) : Nat :=
  if significant < 10 then
    if remainer ≥ 950 then (significant + 1) * 10
    else significant * 10 + roundedDigit 50 (remainer % 100) (remainer / 100) hrem
  else if roundedDigit 512 remainer significant hrem ≥ 1000 then 10240
  else roundedDigit 512 remainer significant hrem * 10

theorem tenths_bounds {significant : Nat} (hlow : 1 ≤ significant) (hhigh : significant < 1024)
    (remainer hrem : Nat) : significant * 10 ≤ tenths significant remainer hrem ∧
      tenths significant remainer hrem ≤ 10240 ∧ (tenths significant remainer hrem ≤
        (significant + 1) * 10 ∨ 999 ≤ significant) := by
  obtain ⟨hdown, hup⟩ := roundedDigit_bounds 512 remainer significant hrem
  obtain ⟨hdown', hup'⟩ := roundedDigit_bounds 50 (remainer % 100) (remainer / 100) hrem
  unfold tenths
  by_cases hsmall : significant < 10
  · rw [if_pos hsmall]
    split_ifs
    · omega
    · omega
  · rw [if_neg hsmall]
    split_ifs
    · omega
    · omega

/-- From 1000 on it is one of the next unit. -/
theorem tenths_over {significant : Nat} (h : 1000 ≤ significant) (remainer hrem : Nat) :
    tenths significant remainer hrem = 10240 := by
  have hdown := (roundedDigit_bounds 512 remainer significant hrem).1
  unfold tenths
  rw [if_neg (by omega), if_pos (by omega)]

/-- More is left over for the same number. -/
theorem tenths_mono_remainer (significant : Nat) {remainer remainer' hrem hrem' : Nat}
    (h : remainer < remainer' ∨ remainer = remainer' ∧ (hrem ≠ 0 → hrem' ≠ 0)) :
    tenths significant remainer hrem ≤ tenths significant remainer' hrem' := by
  have hrounded := @roundedDigit_mono 512 remainer remainer' significant hrem hrem' h
  obtain ⟨hdown, hup⟩ := roundedDigit_bounds 50 (remainer % 100) (remainer / 100) hrem
  obtain ⟨hdown', hup'⟩ := roundedDigit_bounds 50 (remainer' % 100) (remainer' / 100) hrem'
  unfold tenths
  by_cases hsmall : significant < 10
  · rw [if_pos hsmall, if_pos hsmall]
    by_cases hlarge' : remainer' ≥ 950
    · rw [if_pos hlarge']
      split <;> omega
    · rw [if_neg (by omega), if_neg hlarge']
      by_cases hdigit : remainer / 100 = remainer' / 100
      · have hrest : remainer % 100 < remainer' % 100 ∨
            remainer % 100 = remainer' % 100 ∧ (hrem ≠ 0 → hrem' ≠ 0) := by omega
        rw [hdigit]
        exact Nat.add_le_add_left (roundedDigit_mono hrest) _
      · omega
  · rw [if_neg hsmall, if_neg hsmall]
    split
    · rw [if_pos (by omega)]
    · split <;> omega

theorem tenths_mono {significant significant' remainer remainer' hrem hrem' : Nat}
    (hlow : 1 ≤ significant) (hhigh : significant' < 1024)
    (h : significant < significant' ∨ significant = significant' ∧
      (remainer < remainer' ∨ remainer = remainer' ∧ (hrem ≠ 0 → hrem' ≠ 0))) :
    tenths significant remainer hrem ≤ tenths significant' remainer' hrem' := by
  obtain hlt | ⟨rfl, hremainer⟩ := h
  · obtain ⟨-, hmost, hup⟩ := tenths_bounds hlow (Nat.lt_trans hlt hhigh) remainer hrem
    by_cases hover : 1000 ≤ significant'
    · rw [tenths_over hover]
      exact hmost
    · have hleast := (tenths_bounds (by omega) hhigh remainer' hrem').1
      omega
  · exact tenths_mono_remainer significant hremainer

/-- A number with a decimal is read back. -/
theorem withDecimal_shows {number tenth expo : Nat} (hnumber : number < 10) (htenth : tenth < 10)
    (hexpo : expo < 6) : ∃ text, f.withDecimal number tenth expo = some text ∧ text.length ≤ 6 ∧
      (∃ c ∈ text, isDigitUnit c) ∧
        readAdaptive6 f text = some ((number * 10 + tenth) * 1024 ^ expo) := by
  obtain ⟨unit, hunit⟩ := isSome_si f hexpo
  unfold withDecimal
  rw [hunit]
  refine ⟨_, rfl, Nat.le_refl 6, ⟨_, mem_cons_self, ?_⟩,
    readAdaptive6_decimal f hnumber htenth hunit⟩
  refine chartouni_digits number _ ?_
  rw [← digitUnit_eq hnumber]
  exact mem_singleton_self _

/-- A number without a decimal is read back. -/
theorem withoutDecimal_shows {number expo : Nat} (hnumber : number < 1000) (hexpo : expo < 6) :
    ∃ text, f.withoutDecimal number expo = some text ∧ text.length ≤ 6 ∧
      (∃ c ∈ text, isDigitUnit c) ∧ readAdaptive6 f text = some (number * 10 * 1024 ^ expo) := by
  obtain ⟨unit, hunit⟩ := isSome_si f hexpo
  have hlength : (decimal number).length ≤ 3 := decimal_length_le (by decide) hnumber
  unfold withoutDecimal
  rw [hunit]
  refine ⟨_, rfl, ?_, digit_of_numeral _ _, readAdaptive6_unit f number hunit⟩
  rw [length_append, length_chartouni]
  exact Nat.add_le_add_right hlength 3

/-- What is left of a size is shown as its tenths, if there are letters for it. -/
theorem scaledText_shows {significant remainer hrem expo : Nat} (hexpo : expo < 6)
    (hremainer : remainer < 1024)
    (hover : roundedDigit 512 remainer significant hrem ≥ 1000 → expo < 5) :
    ∃ text, f.scaledText ⟨significant, remainer, hrem, expo⟩ = some text ∧ text.length ≤ 6 ∧
      (∃ c ∈ text, isDigitUnit c) ∧
        readAdaptive6 f text = some (tenths significant remainer hrem * 1024 ^ expo) := by
  obtain ⟨hdown, hup⟩ := roundedDigit_bounds 50 (remainer % 100) (remainer / 100) hrem
  unfold scaledText tenths
  dsimp only
  by_cases hsmall : significant < 10
  · rw [if_pos hsmall, if_pos hsmall]
    by_cases hlarge : remainer ≥ 950
    · rw [if_pos hlarge, if_pos hlarge]
      split_ifs with hnine
      · rw [hnine]
        exact @withoutDecimal_shows f 10 expo (by decide) hexpo
      · exact withDecimal_shows f (by omega) (by decide) hexpo
    · rw [if_neg hlarge, if_neg hlarge]
      refine withDecimal_shows f hsmall ?_ hexpo
      -- a digit of nine is followed by less than the half
      by_cases hnine : remainer / 100 = 9
      · have hnot : ¬roundsUp 50 (remainer % 100) (remainer / 100) hrem := by
          rw [roundsUp_iff]
          omega
        rw [if_neg hnot]
        omega
      · exact Nat.lt_of_le_of_lt hup (by omega)
  · rw [if_neg hsmall, if_neg hsmall]
    by_cases hnext : roundedDigit 512 remainer significant hrem ≥ 1000
    · obtain ⟨text, htext, hlength, hdigit, hread⟩ :=
        @withDecimal_shows f 1 0 (expo + 1) (by decide) (by decide) (succ_lt_succ (hover hnext))
      refine ⟨text, (if_pos hnext).trans htext, hlength, hdigit, ?_⟩
      rw [hread, if_pos hnext, Nat.pow_succ]
      exact congrArg some (by omega)
    · obtain ⟨text, htext, hlength, hdigit, hread⟩ :=
        withoutDecimal_shows f (Nat.not_le.mp hnext) hexpo
      refine ⟨text, (if_neg hnext).trans htext, hlength, hdigit, ?_⟩
      rw [hread, if_neg hnext]

/-- What a size is shown as, in tenths of a byte. -/
inductive AdaptiveQuantity (size : Nat) : Nat → Prop where
  | bytes : size < 1024 → AdaptiveQuantity size (size * 10)
  | scaled {k hrem : Nat} : 1024 ^ (k + 1) ≤ size → size < 1024 ^ (k + 2) →
      (hrem ≠ 0 ↔ size % 1024 ^ k ≠ 0) → AdaptiveQuantity size
          (tenths (size / 1024 ^ (k + 1)) (size / 1024 ^ k % 1024) hrem * 1024 ^ (k + 1))

/-- The number before the unit. -/
theorem significant_bounds {size k : Nat} (hlow : 1024 ^ (k + 1) ≤ size) (hhigh : size < 1024 ^ (k + 2)) :
    1 ≤ size / 1024 ^ (k + 1) ∧ size / 1024 ^ (k + 1) < 1024 := by
  have hpos : 0 < 1024 ^ (k + 1) := Nat.pow_pos (by decide)
  refine ⟨(Nat.le_div_iff_mul_le hpos).mpr (by omega), (Nat.div_lt_iff_lt_mul hpos).mpr ?_⟩
  rw [Nat.pow_succ] at hhigh
  omega

theorem adaptiveQuantity_mono {size size' quantity quantity' : Nat}
    (h : AdaptiveQuantity size quantity) (h' : AdaptiveQuantity size' quantity')
    (hle : size ≤ size') : quantity ≤ quantity' := by
  cases h with
  | bytes hbytes =>
    cases h' with
    | bytes _ => omega
    | @scaled k hrem hlow hhigh _ =>
      obtain ⟨hone, hless⟩ := significant_bounds hlow hhigh
      have hleast := (tenths_bounds hone hless (size' / 1024 ^ k % 1024) hrem).1
      have hunit : 1024 ^ 1 ≤ 1024 ^ (k + 1) := Nat.pow_le_pow_right (by decide) (by omega)
      calc size * 10
        _ ≤ 10 * 1024 ^ 1 := by omega
        _ ≤ _ := Nat.mul_le_mul (by omega) hunit
  | @scaled k hrem hlow hhigh hiff =>
    obtain ⟨hone, hless⟩ := significant_bounds hlow hhigh
    cases h' with
    | bytes hbytes =>
      have hunit : 1024 ^ 1 ≤ 1024 ^ (k + 1) := Nat.pow_le_pow_right (by decide) (by omega)
      omega
    | @scaled k' hrem' hlow' hhigh' hiff' =>
      obtain ⟨hone', hless'⟩ := significant_bounds hlow' hhigh'
      obtain hlt | rfl | hgt := Nat.lt_trichotomy k k'
      · -- 1.0 of a larger unit is the most that is shown in a smaller one
        have hmost := (tenths_bounds hone hless (size / 1024 ^ k % 1024) hrem).2.1
        have hleast := (tenths_bounds hone' hless' (size' / 1024 ^ k' % 1024) hrem').1
        have hunit : 1024 ^ (k + 2) ≤ 1024 ^ (k' + 1) := Nat.pow_le_pow_right (by decide) (by omega)
        calc tenths (size / 1024 ^ (k + 1)) (size / 1024 ^ k % 1024) hrem * 1024 ^ (k + 1)
          _ ≤ 10240 * 1024 ^ (k + 1) := Nat.mul_le_mul_right _ hmost
          _ = 10 * 1024 ^ (k + 2) := by
            rw [Nat.pow_succ 1024 (k + 1)]
            omega
          _ ≤ tenths (size' / 1024 ^ (k' + 1)) (size' / 1024 ^ k' % 1024) hrem' * 1024 ^ (k' + 1) :=
            Nat.mul_le_mul (by omega) hunit
      · refine Nat.mul_le_mul_right _ (tenths_mono hone hless' ?_)
        have hdigits := Nat.div_le_div_right (c := 1024 ^ k) hle
        rw [div_pow_succ', div_pow_succ', hiff, hiff']
        by_cases hsame : size / 1024 ^ k = size' / 1024 ^ k
        · have hsize := div_add_mod size (1024 ^ k)
          have hsize' := div_add_mod size' (1024 ^ k)
          rw [hsame] at hsize ⊢
          exact .inr ⟨rfl, .inr ⟨rfl, by omega⟩⟩
        · omega
      · have hunit : 1024 ^ (k' + 2) ≤ 1024 ^ (k + 1) := Nat.pow_le_pow_right (by decide) (by omega)
        omega

/-- 999.5 of the largest unit. -/
def adaptiveLimit : Nat := 1999 * 512 * 1024 ^ 4

/-- The number that is left rounds to one of a unit that does not exist. -/
theorem no_letter_iff {size k hrem : Nat} (hlow : 1024 ^ (k + 1) ≤ size)
    (hhigh : size < 1024 ^ (k + 2)) :
    size < adaptiveLimit ↔ k + 1 < 6 ∧ (roundedDigit 512 (size / 1024 ^ k % 1024)
      (size / 1024 ^ (k + 1)) hrem ≥ 1000 → k + 1 < 5) := by
  have hlimit : adaptiveLimit ≤ 1024 ^ 6 := by decide
  obtain hlt | rfl | hgt := Nat.lt_trichotomy k 4
  · have hunit : 1024 ^ (k + 2) ≤ 1024 ^ 5 := Nat.pow_le_pow_right (by decide) (by omega)
    have hless : 1024 ^ 5 ≤ adaptiveLimit := by decide
    exact iff_of_true (by omega) ⟨by omega, fun _ => by omega⟩
  · have hdigits : size < adaptiveLimit ↔ size / 1024 ^ 4 < 1999 * 512 :=
      (Nat.div_lt_iff_lt_mul (by decide)).symm
    have hdivides : size / 1024 ^ (4 + 1) = size / 1024 ^ 4 / 1024 :=
      div_pow_succ' size 4
    rw [hdigits, hdivides]
    generalize size / 1024 ^ 4 = digits
    have hup : roundedDigit 512 (digits % 1024) (digits / 1024) hrem ≥ 1000 ↔ 1999 * 512 ≤ digits := by
      unfold roundedDigit
      split_ifs with hrounds
      · rw [roundsUp_iff] at hrounds
        omega
      · rw [roundsUp_iff] at hrounds
        omega
    omega
  · have hunit : 1024 ^ 6 ≤ 1024 ^ (k + 1) := Nat.pow_le_pow_right (by decide) (by omega)
    exact iff_of_false (by omega) (by omega)

theorem adaptive6_shows (h : size < adaptiveLimit) :
    ∃ text quantity, f.adaptive6Impl size = some text ∧ text.length ≤ 6 ∧
      (∃ c ∈ text, isDigitUnit c) ∧ readAdaptive6 f text = some quantity ∧
        AdaptiveQuantity size quantity := by
  unfold adaptive6Impl
  by_cases hzero : size ≤ 0
  · obtain rfl := le_zero.mp hzero
    exact ⟨_, 0 * 10, if_pos hzero, Nat.le_add_right 3 3, ⟨0x30, mem_cons_self, rfl⟩,
      readAdaptive6_bytes f 0, .bytes (by decide)⟩
  rw [if_neg hzero]
  by_cases hbytes : size < 1024
  · have hlength : (decimal size).length ≤ 4 := decimal_length_le (by decide) (by omega)
    refine ⟨_, size * 10, if_pos hbytes, ?_, digit_of_numeral _ _, readAdaptive6_bytes f size,
      .bytes hbytes⟩
    rw [length_append, length_chartouni]
    exact Nat.add_le_add_right hlength 2
  rw [if_neg hbytes]
  obtain ⟨k, hrem, hloop, hlow, hhigh, hiff⟩ :=
    adaptiveLoop_eq (Nat.le_refl size) (Nat.not_lt.mp hbytes) 0 1
  obtain ⟨hexpo, hover⟩ := (@no_letter_iff size k hrem hlow hhigh).mp h
  obtain ⟨text, htext, hlength, hdigit, hread⟩ :=
    @scaledText_shows f _ _ hrem _ hexpo (mod_lt _ (by decide)) hover
  rw [hloop, Nat.add_comm 1 k]
  refine ⟨text, _, htext, hlength, hdigit, hread, ?_⟩
  exact .scaled hlow hhigh (hiff.trans (or_iff_right fun h => h rfl))

theorem adaptive6_sound (h : size < adaptiveLimit) :
    ShownSoundly f.adaptive6Impl (readAdaptive6 f) 6 size := by
  obtain ⟨text, quantity, himpl, hlength, hdigit, hread, hquantity⟩ := adaptive6_shows f h
  refine ⟨⟨text, himpl, hlength, hdigit⟩, fun smaller hle => ?_⟩
  obtain ⟨text', quantity', himpl', -, -, hread', hquantity'⟩ :=
    adaptive6_shows f (Nat.lt_of_le_of_lt hle h)
  refine ⟨quantity', quantity, ?_, ?_, adaptiveQuantity_mono hquantity' hquantity hle⟩
  · rw [himpl']
    exact hread'
  · rw [himpl]
    exact hread

/-! ## `SpaceSeparated` -/

/-- The byte of a digit. -/
def digitByte (d : Nat) : UInt8 := (48 + d).toUInt8

theorem decimal_three {n : Nat} (h : n < 1000) :
    replicate (3 - (decimal n).length) 48 ++ decimal n =
      [digitByte (n / 100), digitByte (n / 10 % 10), digitByte (n % 10)] := by
  by_cases h1 : n < 10
  · have hhundreds : n / 100 = 0 := by omega
    have htens : n / 10 % 10 = 0 := by omega
    rw [decimal_of_lt h1, hhundreds, htens, mod_eq_of_lt h1]
    rfl
  · rw [decimal_of_le (Nat.not_lt.mp h1)]
    by_cases h2 : n / 10 < 10
    · have hhundreds : n / 100 = 0 := by omega
      rw [decimal_of_lt h2, hhundreds, mod_eq_of_lt h2]
      rfl
    · have h3 : n / 10 / 10 < 10 := by omega
      have hhundreds : n / 10 / 10 = n / 100 := by omega
      rw [decimal_of_le (Nat.not_lt.mp h2), decimal_of_lt h3, hhundreds]
      rfl

/-- The last three digits of a number. -/
theorem decimal_group {n : Nat} (h : 1000 ≤ n) : decimal n = decimal (n / 1000) ++
    (replicate (3 - (decimal (n % 1000)).length) 48 ++ decimal (n % 1000)) := by
  have hhundreds : n % 1000 / 100 = n / 10 / 10 % 10 := by omega
  have htens : n % 1000 / 10 % 10 = n / 10 % 10 := by omega
  have hones : n % 1000 % 10 = n % 10 := by omega
  have hthousands : n / 10 / 10 / 10 = n / 1000 := by omega
  rw [decimal_three (mod_lt n (by decide)), hhundreds, htens, hones, ← hthousands,
    decimal_of_le (by omega), @decimal_of_le (n / 10) (by omega),
    @decimal_of_le (n / 10 / 10) (by omega), append_assoc, append_assoc]
  rfl

/-- The digits of a number among spaces. -/
structure Groups (buf : Bytes) (n length : Nat) : Prop where
  digits : buf.filter isDigitByte = decimal n
  length : buf.length ≤ length

theorem filter_decimal : (decimal n).filter isDigitByte = decimal n :=
  filter_eq_self.mpr (decimal_isDigit n)

theorem groups_first {n : Nat} (h : n < 1000) : Groups (decimal n ++ [0x20]) n 4 := by
  have hspace : [(0x20 : UInt8)].filter isDigitByte = [] := rfl
  constructor
  · rw [filter_append, filter_decimal, hspace, append_nil]
  · rw [length_append]
    exact Nat.add_le_add_right (decimal_length_le (by decide) h) 1

/-- Three more digits. -/
theorem groups_next {buf : Bytes} {n length : Nat} (h : Groups buf (n / 1000) length)
    (hn : 1000 ≤ n) : Groups (buf ++ padded (n % 1000)) n (length + 4) := by
  have hspace : [(0x20 : UInt8)].filter isDigitByte = [] := rfl
  have hgroup := decimal_three (mod_lt n (by decide : 0 < 1000))
  have hdigits : padded (n % 1000) = _ ++ [0x20] := rfl
  constructor
  · have hzeros : ∀ k, (replicate k (48 : UInt8)).filter isDigitByte = replicate k 48 :=
      fun k => filter_replicate_of_pos rfl
    rw [filter_append, h.digits, hdigits, filter_append, hspace, append_nil,
      filter_append, hzeros, filter_decimal, ← decimal_group hn]
  · rw [length_append, hdigits, hgroup]
    exact Nat.add_le_add_right h.length 4

theorem filter_chartouni (text : Bytes) :
    (chartouni text).filter isDigitUnit = chartouni (text.filter isDigitByte) := by
  unfold chartouni
  rw [filter_map]
  exact congrArg _ (filter_congr fun c _ => isDigitUnit_toUInt16 c)

/-- The word behind a number has no digits. -/
theorem bytes_spec : f.bytes.filter isDigitUnit = [] ∧ f.bytes.length ≤ 5 := by
  unfold bytes
  cases f.language <;> decide

/-- Below 10^15 the digits are those of the size. -/
theorem spaceSeparated_groups (h : size < 10 ^ 15) :
    ∃ buf, f.spaceSeparatedImpl size = chartouni buf ++ f.bytes ∧ Groups buf size 20 := by
  have hmore : ∀ {buf : Bytes} {length : Nat}, Groups buf size length → length ≤ 20 →
      Groups buf size 20 := fun hgroups hle => ⟨hgroups.digits, Nat.le_trans hgroups.length hle⟩
  have hsecond : size / 1000000 = size / 1000 / 1000 := by omega
  have hthird : size / 1000000000 = size / 1000000 / 1000 := by omega
  have hfourth : size / 1000000000000 = size / 1000000000 / 1000 := by omega
  unfold spaceSeparatedImpl
  dsimp only
  by_cases h1 : size < 1000
  · rw [if_pos h1]
    exact ⟨_, rfl, hmore (groups_first h1) (by decide)⟩
  rw [if_neg h1]
  have hone : 1000 ≤ size := Nat.not_lt.mp h1
  by_cases h2 : size < 1000 * 1000
  · rw [if_pos h2, mod_eq_of_lt (by omega : size / 1000 < 1000)]
    exact ⟨_, rfl, hmore (groups_next (groups_first (by omega)) hone) (by decide)⟩
  rw [if_neg h2]
  have htwo : 1000 ≤ size / 1000 := by omega
  by_cases h3 : size < 1000 * 1000 * 1000
  · rw [if_pos h3, mod_eq_of_lt (by omega : size / 1000000 < 1000), hsecond]
    exact ⟨_, rfl, hmore (groups_next (groups_next (groups_first (by omega)) htwo) hone) (by decide)⟩
  rw [if_neg h3]
  have hthree : 1000 ≤ size / 1000000 := by omega
  by_cases h4 : size < 1000 * 1000 * 1000 * 1000
  · have hfirst := @groups_first (size / 1000000 / 1000) (by omega)
    have hgroups := groups_next hfirst hthree
    rw [hsecond] at hgroups
    rw [if_pos h4, mod_eq_of_lt (by omega : size / 1000000000 < 1000), hthird, hsecond]
    exact ⟨_, rfl, hmore (groups_next (groups_next hgroups htwo) hone) (by decide)⟩
  have hfour : 1000 ≤ size / 1000000000 := by omega
  have h5 : size < 1000 * 1000 * 1000 * 1000 * 1000 := h
  have hfirst := @groups_first (size / 1000000000 / 1000) (by omega)
  have hgroups := groups_next hfirst hfour
  rw [hthird] at hgroups
  have hgroups' := groups_next hgroups hthree
  rw [hsecond] at hgroups'
  rw [if_neg h4, if_pos h5, mod_eq_of_lt (by omega : size / 1000000000000 < 1000), hfourth,
    hthird, hsecond]
  exact ⟨_, rfl, groups_next (groups_next hgroups' htwo) hone⟩

theorem spaceSeparated_tooLarge (h : 10 ^ 15 ≤ size) : f.spaceSeparatedImpl size = f.bytes := by
  unfold spaceSeparatedImpl
  dsimp only
  rw [if_neg (by omega), if_neg (by omega), if_neg (by omega), if_neg (by omega), if_neg (by omega)]
  rfl

theorem spaceSeparated_sound (h : size < 10 ^ 15) : SeparatedSoundly f size := by
  obtain ⟨buf, himpl, hgroups⟩ := spaceSeparated_groups f h
  obtain ⟨hnone, hshort⟩ := bytes_spec f
  have hdigits : (f.spaceSeparatedImpl size).filter isDigitUnit = chartouni (decimal size) := by
    rw [himpl, filter_append, hnone, append_nil, filter_chartouni, hgroups.digits]
  refine ⟨?_, hdigits, ?_⟩
  · rw [himpl, length_append, length_chartouni]
    have hlength := hgroups.length
    omega
  · obtain ⟨c, hc, hdigit⟩ := digit_of_numeral size []
    rw [append_nil, ← hdigits] at hc
    exact ⟨c, (mem_filter.mp hc).1, hdigit⟩

/--
  Below its limit each format writes a text that fits and shows the size, in order; above the limit
  `Fixed6` writes nothing and `SpaceSeparated` only the word.
-/
theorem formatted_soundly (f : ByteCountFormatter) (size : Nat) :
    (size < 9999 * 1024 ^ 5 → ShownSoundly f.fixed6Impl (readFixed6 f) 6 size) ∧
      (9999 * 1024 ^ 5 ≤ size → f.fixed6Impl size = some []) ∧
      (size < 10 ^ 15 → SeparatedSoundly f size) ∧
      (10 ^ 15 ≤ size → f.spaceSeparatedImpl size = f.bytes) ∧
      (size < adaptiveLimit → ShownSoundly f.adaptive6Impl (readAdaptive6 f) 6 size) :=
  ⟨fixed6_sound f, fixed6_tooLarge f, spaceSeparated_sound f, spaceSeparated_tooLarge f,
    adaptive6_sound f⟩

/-- The formatter that is not localized. -/
def plainFormatter : ByteCountFormatter := ⟨.other, 0x2E, rfl⟩

/-- 9.97 kilobytes are shown as 10, and the groups of their bytes are separated; 2^64 - 1. -/
theorem formatted_soundly_tenK :
    ShownSoundly plainFormatter.fixed6Impl (readFixed6 plainFormatter) 6 10209 ∧
      SeparatedSoundly plainFormatter 10209 ∧
      ShownSoundly plainFormatter.adaptive6Impl (readAdaptive6 plainFormatter) 6 10209 ∧
      plainFormatter.fixed6Impl (2 ^ 64 - 1) = some [] ∧
      plainFormatter.spaceSeparatedImpl (2 ^ 64 - 1) = plainFormatter.bytes :=
  ⟨(formatted_soundly plainFormatter 10209).1 (by decide),
    (formatted_soundly plainFormatter 10209).2.2.1 (by decide),
    (formatted_soundly plainFormatter 10209).2.2.2.2 (by decide),
    (formatted_soundly plainFormatter (2 ^ 64 - 1)).2.1 (by decide),
    (formatted_soundly plainFormatter (2 ^ 64 - 1)).2.2.2.1 (by decide)⟩

/-- Of 10^15 bytes only the word is left. -/
theorem separated_without_digits : ¬SeparatedSoundly plainFormatter (10 ^ 15) := by
  intro h
  have hdigits : (plainFormatter.spaceSeparatedImpl (10 ^ 15)).any isDigitUnit = false := by
    decide +kernel
  obtain ⟨c, hc, hdigit⟩ := h.digit
  have hsome := any_eq_true.mpr ⟨c, hc, hdigit⟩
  rw [hdigits] at hsome
  cases hsome

end WinCommander.Utility
