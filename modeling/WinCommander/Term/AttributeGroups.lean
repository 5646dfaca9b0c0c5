/-
  `SGR` sequences of several groups of numbers.

  The scanner keeps eight numbers, and stops at one that is too large. So a sequence makes the
  commands of its groups exactly if each group is within what is scanned, or asks for nothing
  (`composes_iff_readWhole`).
-/
import WinCommander.Term.ReadSequence
import WinCommander.Library.Path

namespace WinCommander.Term

open Library List Nat UInt32 Parser

inductive Ground where
  | foreground | background
deriving DecidableEq

def Ground.number : Ground → Nat
  | .foreground => 38
  | .background => 48

/-- A complete group: one attribute, or a colour by its index or by its components. -/
inductive AttributeGroup where
  | single (number : Nat) (plain : number ≠ 38 ∧ number ≠ 48)
  | indexed (ground : Ground) (color : Nat)
  | direct (ground : Ground) (red green blue : Nat)

def AttributeGroup.numbers : AttributeGroup → List Nat
  | .single number _ => [number]
  | .indexed ground color => [ground.number, 5, color]
  | .direct ground red green blue => [ground.number, 2, red, green, blue]

def AttributeGroup.write (group : AttributeGroup) : Bytes :=
  [59].intercalate (group.numbers.map decimal)

/-- `CSI g1;...;gn m`. -/
def sgr (groups : List AttributeGroup) : Bytes :=
  [27, 91] ++ [59].intercalate (groups.map AttributeGroup.write) ++ [109]

/-- Together the groups make the commands that each makes on its own. -/
def Composes (parser : Parser) (groups : List AttributeGroup) : Prop :=
  (parser.parse (sgr groups)).2 = groups.flatMap fun group => (parser.parse (sgr [group])).2

/-- An attribute that is not known, or no colour. -/
def AttributeGroup.Mute : AttributeGroup → Prop
  | .single number _ => number < 2 ^ 32 ∧ scImToCharacterAttributes number.toUInt32 = none
  | .indexed _ color => ¬color < 256
  | .direct _ red green blue => ¬(red < 256 ∧ green < 256 ∧ blue < 256)

/-- A single number that is read as none at all. -/
def AttributeGroup.Oversized : AttributeGroup → Prop
  | .single number _ => 2 ^ 32 ≤ number
  | .indexed _ _ | .direct _ _ _ _ => False

/-- All of the numbers are scanned when there is so much room. -/
def Scanned (room : Nat) (numbers : List Nat) : Prop :=
  numbers.length ≤ room ∧ ∀ number ∈ numbers, number < 2 ^ 32

instance (room : Nat) (numbers : List Nat) : Decidable (Scanned room numbers) :=
  inferInstanceAs (Decidable (_ ∧ _))

/-- Each group is among the numbers that are scanned, or asks for nothing. -/
def ReadWhole (groups : List AttributeGroup) : Prop :=
  groups ≠ [] ∧ ∀ before group after, groups = before ++ group :: after →
    Scanned 8 ((before ++ [group]).flatMap AttributeGroup.numbers) ∨ group.Mute ∨
      (before = [] ∧ group.Oversized)

/-! ## Scanning -/

/-- What is scanned of some numbers. -/
def scanned (room : Nat) (numbers : List Nat) : List UInt32 :=
  ((numbers.take room).takeWhile (· < 2 ^ 32)).map Nat.toUInt32

theorem scanned_cons (room number : Nat) (numbers : List Nat) : scanned (room + 1) (number :: numbers) =
    if number < 2 ^ 32 then number.toUInt32 :: scanned room numbers else [] := by
  unfold scanned
  split_ifs with h
  · rw [take_succ_cons, takeWhile_cons_of_pos (by simpa using h), map_cons]
  · rw [take_succ_cons, takeWhile_cons_of_neg (by simpa using h), map_nil]

theorem fromCharsUnsigned_decimal (number : Nat) (rest : Bytes)
    (hrest : ∀ byte ∈ rest.head?, isDigitByte byte = false) :
    fromCharsUnsigned (decimal number ++ rest) =
      if number < 2 ^ 32 then some (number.toUInt32, rest) else none := by
  unfold fromCharsUnsigned
  rw [span_decimal number rest hrest]
  obtain ⟨digit, digits, hdigits⟩ := exists_cons_of_ne_nil (decimal_ne_nil number)
  rw [hdigits]
  dsimp only
  rw [← hdigits, decimalValue_decimal]

/-- A number that is too large ends the scan: no semicolon is where it starts. -/
theorem scanParams_oversized (hnumber : ¬number < 2 ^ 32) (room : Nat) (rest : Bytes)
    (hrest : ∀ byte ∈ rest.head?, isDigitByte byte = false) :
    scanParams (room + 1) (decimal number ++ rest) = [] := by
  obtain ⟨digit, digits, hdigits⟩ := exists_cons_of_ne_nil (decimal_ne_nil number)
  have hdigit : isDigitByte digit := decimal_isDigit number digit (hdigits ▸ mem_cons_self)
  unfold scanParams
  rw [fromCharsUnsigned_decimal number rest hrest, if_neg hnumber, hdigits, cons_append]
  dsimp only
  split
  · rename_i heq
    rw [(cons.inj heq).1] at hdigit
    cases hdigit
  · rfl

theorem scanParams_last (room number : Nat) : scanParams (room + 1) (decimal number ++ [109]) =
    if number < 2 ^ 32 then [number.toUInt32] else [] := by
  have hrest : ∀ byte ∈ [(109 : UInt8)].head?, isDigitByte byte = false := by
    rintro byte ⟨⟩
    decide
  by_cases h : number < 2 ^ 32
  · unfold scanParams
    rw [fromCharsUnsigned_decimal number [109] hrest, if_pos h, if_pos h]
    rfl
  · rw [if_neg h, scanParams_oversized h room [109] hrest]

theorem scanParams_next (room number : Nat) (rest : Bytes) :
    scanParams (room + 1) (decimal number ++ 59 :: rest) =
      if number < 2 ^ 32 then number.toUInt32 :: scanParams room rest else [] := by
  have hrest : ∀ byte ∈ (59 :: rest).head?, isDigitByte byte = false := by
    intro byte hbyte
    rw [← Option.some.inj hbyte]
    rfl
  split_ifs with h
  · conv_lhs => unfold scanParams
    rw [fromCharsUnsigned_decimal number (59 :: rest) hrest, if_pos h]
    rfl
  · rw [scanParams_oversized h room (59 :: rest) hrest]

theorem scanParams_numbers (room : Nat) (numbers : List Nat) :
    scanParams room ([59].intercalate (numbers.map decimal) ++ [109]) = scanned room numbers := by
  induction numbers generalizing room with
  | nil =>
    cases room with
    | zero => rfl
    | succ room => rfl
  | cons number numbers ih =>
    cases room with
    | zero => rfl
    | succ room =>
      rw [scanned_cons]
      cases numbers with
      | nil =>
        have hjoin : [59].intercalate ([number].map decimal) = decimal number := by
          exact intercalate_singleton
        have hnil : scanned room [] = [] := by
          unfold scanned
          rw [take_nil]
          rfl
        rw [hjoin, scanParams_last, hnil]
      | cons next numbers =>
        have hjoin : [59].intercalate ((number :: next :: numbers).map decimal) ++ [109] =
            decimal number ++ (59 :: ([59].intercalate ((next :: numbers).map decimal) ++ [109])) := by
          rw [map_cons, map_cons, intercalate_cons_cons, append_assoc, append_assoc]
          rfl
        rw [hjoin, scanParams_next, ih room]

/-! ## The loop over the numbers -/

/-- The commands of some numbers. -/
def attributes (params : List UInt32) : List Command := characterAttributes params.length params

theorem characterAttributes_of_le (rounds : Nat) (params : List UInt32) (h : params.length ≤ rounds) :
    characterAttributes rounds params = attributes params := by
  induction rounds using Nat.strong_induction_on generalizing params with
  | _ rounds ih =>
    cases params with
    | nil =>
      cases rounds with
      | zero => rfl
      | succ rounds => rfl
    | cons ps rest =>
      obtain ⟨rounds, rfl⟩ : ∃ fewer, rounds = fewer + 1 := by
        cases rounds with
        | zero => exact absurd h (not_succ_le_zero _)
        | succ rounds => exact ⟨rounds, rfl⟩
      have hlength : rest.length ≤ rounds := le_of_succ_le_succ h
      have hdrop : (rest.drop (extendedColorLength rest)).length ≤ rest.length := by
        rw [length_drop]
        exact sub_le _ _
      unfold attributes
      rw [length_cons, characterAttributes, characterAttributes]
      rw [ih rounds (lt_succ_self _) _ (hdrop.trans hlength), ih rounds (lt_succ_self _) _ hlength,
        ih rest.length (lt_succ_of_le hlength) _ hdrop,
        ih rest.length (lt_succ_of_le hlength) _ (Nat.le_refl _)]

theorem attributes_cons (ps : UInt32) (rest : List UInt32) : attributes (ps :: rest) =
    if ps = 38 ∨ ps = 48 then
      extendedColor (if ps = 38 then .foregroundColor else .backgroundColor) rest ++
        attributes (rest.drop (extendedColorLength rest))
    else ((scImToCharacterAttributes ps).map Command.setCharacterAttributes).toList ++ attributes rest := by
  have hdrop : (rest.drop (extendedColorLength rest)).length ≤ rest.length := by
    rw [length_drop]
    exact sub_le _ _
  conv_lhs => unfold attributes
  rw [length_cons, characterAttributes, characterAttributes_of_le _ _ hdrop,
    characterAttributes_of_le _ _ (Nat.le_refl _)]

/-- The colours of the numbers 38 and 48. -/
def Ground.kind : Ground → AttributeKind
  | .foreground => .foregroundColor
  | .background => .backgroundColor

theorem attributes_ground (ground : Ground) (rest : List UInt32) :
    attributes (ground.number.toUInt32 :: rest) =
      extendedColor ground.kind rest ++ attributes (rest.drop (extendedColorLength rest)) := by
  rw [attributes_cons]
  cases ground with
  | foreground => rfl
  | background => rfl

/-! ## The loop over the groups -/

variable {group : AttributeGroup} {rest : List UInt32} {room : Nat}

/-- The commands of a group that is scanned whole. -/
def AttributeGroup.commands (group : AttributeGroup) : List Command :=
  attributes (group.numbers.map Nat.toUInt32)

theorem toUInt32_ne (hnumber : number < 2 ^ 32) (hother : other < 2 ^ 32) (h : number ≠ other)
    : number.toUInt32 ≠ other.toUInt32 := by
  intro heq
  have hvalues := congrArg UInt32.toNat heq
  rw [toUInt32_eq, toUInt32_eq, toNat_ofNat_of_lt' hnumber, toNat_ofNat_of_lt' hother] at hvalues
  exact h hvalues

/-- A group that is scanned whole makes its commands before those of the others. -/
theorem attributes_group (hnumbers : ∀ number ∈ group.numbers, number < 2 ^ 32) :
    attributes (group.numbers.map toUInt32 ++ rest) = group.commands ++ attributes rest := by
  cases group with
  | single number plain =>
    have hnumber : number < 2 ^ 32 := hnumbers number mem_cons_self
    have hplain : ¬(number.toUInt32 = 38 ∨ number.toUInt32 = 48) :=
      not_or.mpr ⟨toUInt32_ne hnumber (by decide) plain.1, toUInt32_ne hnumber (by decide) plain.2⟩
    change attributes (number.toUInt32 :: rest) = attributes [number.toUInt32] ++ _
    rw [attributes_cons, attributes_cons, if_neg hplain, if_neg hplain]
    exact congrArg (· ++ attributes rest) (append_nil _).symm
  | indexed ground color =>
    refine (attributes_ground ground (5 :: color.toUInt32 :: rest)).trans ?_
    refine congrArg (· ++ attributes rest) ?_
    exact ((attributes_ground ground [5, color.toUInt32]).trans (append_nil _)).symm
  | direct ground red green blue =>
    refine (attributes_ground ground
      (2 :: red.toUInt32 :: green.toUInt32 :: blue.toUInt32 :: rest)).trans ?_
    refine congrArg (· ++ attributes rest) ?_
    exact ((attributes_ground ground [2, red.toUInt32, green.toUInt32, blue.toUInt32]).trans
      (append_nil _)).symm

/-- A group of which the end is missing makes no commands. -/
theorem attributes_short (hknown : known <+: group.numbers) (hshort : known ≠ group.numbers)
    : attributes (known.map toUInt32) = [] := by
  have hshort : ∀ bound, group.numbers.length = bound + 1 → known.length ≤ bound := by
    intro bound hbound
    have hle := hknown.length_le
    by_contra hlong
    exact hshort (hknown.eq_of_length (by omega))
  rw [prefix_iff_eq_take.mp hknown]
  cases group with
  | single number plain =>
    have hlength := hshort 0 rfl
    rw [le_zero.mp hlength]
    rfl
  | indexed ground color =>
    have hlength := hshort 2 rfl
    have hcases : known.length = 0 ∨ known.length = 1 ∨ known.length = 2 := by omega
    cases ground <;> rcases hcases with h | h | h <;> rw [h] <;> rfl
  | direct ground red green blue =>
    have hlength := hshort 4 rfl
    have hcases : known.length = 0 ∨ known.length = 1 ∨ known.length = 2 ∨ known.length = 3 ∨
        known.length = 4 := by omega
    cases ground <;> rcases hcases with h | h | h | h | h <;> rw [h] <;> rfl

/-- What is scanned of a group and the numbers after it: all of it, or only a part of it. -/
theorem scanned_group (group : AttributeGroup) (numbers : List Nat) :
    (Scanned room group.numbers ∧ scanned room (group.numbers ++ numbers) =
      group.numbers.map toUInt32 ++ scanned (room - group.numbers.length) numbers) ∨
    (¬Scanned room group.numbers ∧ ∃ known, known <+: group.numbers ∧ known ≠ group.numbers ∧
      scanned room (group.numbers ++ numbers) = known.map toUInt32) := by
  unfold scanned
  by_cases hroom : group.numbers.length ≤ room
  · have htake : (group.numbers ++ numbers).take room =
        group.numbers ++ numbers.take (room - group.numbers.length) := by
      rw [take_append, take_of_length_le hroom]
    rw [htake]
    by_cases hsmall : ∀ number ∈ group.numbers, number < 2 ^ 32
    · refine .inl ⟨⟨hroom, hsmall⟩, ?_⟩
      rw [takeWhile_append_of_pos fun number hnumber => decide_eq_true (hsmall number hnumber),
        map_append]
    · refine .inr ⟨fun h => hsmall h.2, group.numbers.takeWhile (· < 2 ^ 32), takeWhile_prefix _, ?_, ?_⟩
      · intro heq
        refine hsmall fun number hnumber => ?_
        rw [← heq] at hnumber
        have hsmall := mem_takeWhile_imp hnumber
        exact of_decide_eq_true hsmall
      · rw [takeWhile_append, if_neg]
        intro hlength
        refine hsmall fun number hnumber => ?_
        rw [← ( takeWhile_prefix _).eq_of_length hlength] at hnumber
        have hsmall := mem_takeWhile_imp hnumber
        exact of_decide_eq_true hsmall
  · refine .inr ⟨fun h => hroom h.1, (group.numbers.take room).takeWhile (· < 2 ^ 32), ?_, ?_, ?_⟩
    · exact ( takeWhile_prefix _).trans ( take_prefix _ _)
    · intro heq
      have hlength := ( takeWhile_prefix (· < 2 ^ 32) (l := group.numbers.take room)).length_le
      rw [heq, length_take] at hlength
      omega
    · rw [take_append_of_le_length (by omega)]

/-- The groups that are scanned make their commands, up to the first that is not scanned whole. -/
theorem attributes_scanned (group : AttributeGroup) (groups : List AttributeGroup) :
    attributes (scanned room ((group :: groups).flatMap AttributeGroup.numbers)) =
      if Scanned room group.numbers then
        group.commands ++ attributes (scanned (room - group.numbers.length)
          (groups.flatMap AttributeGroup.numbers)) else [] := by
  rw [flatMap_cons]
  rcases scanned_group group (groups.flatMap AttributeGroup.numbers) with
    ⟨hscanned, heq⟩ | ⟨hscanned, known, hknown, hshort, heq⟩
  · rw [if_pos hscanned, heq, attributes_group hscanned.2]
  · rw [if_neg hscanned, heq, attributes_short hknown hshort]

/-! ## Sequences -/

/-- Without a number, a sequence has the number zero. -/
def orReset (params : List UInt32) : List UInt32 := if params = [] then [0] else params

theorem numbers_ne_nil (group : AttributeGroup) : group.numbers ≠ [] := by
  cases group <;> exact cons_ne_nil _ _

theorem length_numbers_le (group : AttributeGroup) : group.numbers.length ≤ 5 := by
  cases group <;> exact le_of_ble_eq_true rfl

theorem joined_eq (groups : List AttributeGroup) :
    [59].intercalate (groups.map AttributeGroup.write) =
      [59].intercalate ((groups.flatMap AttributeGroup.numbers).map decimal) := by
  induction groups with
  | nil => rfl
  | cons group groups ih =>
    have hnumbers : group.numbers.map decimal ≠ [] :=
      fun h => numbers_ne_nil group (map_eq_nil_iff.mp h)
    rw [map_cons, flatMap_cons, map_append]
    by_cases hgroups : groups = []
    · subst hgroups
      rw [map_nil, intercalate_singleton, flatMap_nil, map_nil, append_nil]
      rfl
    · have hrest : (groups.flatMap AttributeGroup.numbers).map decimal ≠ [] := by
        obtain ⟨first, others, rfl⟩ := exists_cons_of_ne_nil hgroups
        rw [flatMap_cons, map_append]
        exact append_ne_nil_of_left_ne_nil
          (fun h => numbers_ne_nil first (map_eq_nil_iff.mp h)) _
      rw [Path.intercalate_append hnumbers hrest,
        intercalate_cons_of_ne_nil fun h => hgroups (map_eq_nil_iff.mp h), ih, append_assoc]
      rfl

theorem mem_intercalate (h : byte ∈ [separator].intercalate parts)
    : byte = separator ∨ ∃ part ∈ parts, byte ∈ part := by
  induction parts with
  | nil => exact absurd h not_mem_nil
  | cons part parts ih =>
    by_cases hparts : parts = []
    · subst hparts
      rw [intercalate_singleton] at h
      exact .inr ⟨part, mem_cons_self, h⟩
    · rw [intercalate_cons_of_ne_nil hparts, append_assoc] at h
      obtain hpart | hrest := mem_append.mp h
      · exact .inr ⟨part, mem_cons_self, hpart⟩
      · obtain hseparator | hlater := mem_cons.mp hrest
        · exact .inl hseparator
        · obtain hseparator | ⟨other, hother, hmem⟩ := ih hlater
          · exact .inl hseparator
          · exact .inr ⟨other, mem_cons_of_mem _ hother, hmem⟩

theorem csiValidContents_of_isDigitByte (byte : UInt8) (h : isDigitByte byte) :
    csiValidContents byte := by
  have all : ∀ n < 256, isDigitByte (UInt8.ofNat n) →
      csiValidContents (UInt8.ofNat n) := by decide +kernel
  have hbyte := all byte.toNat byte.toNat_lt
  rw [UInt8.ofNat_toNat] at hbyte
  exact hbyte h

/-- The commands of a sequence are those of what is scanned of it. -/
theorem parse_sgr {parser : Parser} (h : parser.AtRest) (groups : List AttributeGroup) :
    (parser.parse (sgr groups)).2 =
      attributes (orReset (scanned 8 (groups.flatMap AttributeGroup.numbers))) := by
  have hcontents : ∀ byte ∈ [59].intercalate (groups.map AttributeGroup.write),
      csiValidContents byte := by
    intro byte hbyte
    rw [joined_eq] at hbyte
    obtain rfl | ⟨part, hpart, hmem⟩ := mem_intercalate hbyte
    · decide
    · obtain ⟨number, _, rfl⟩ := mem_map.mp hpart
      exact csiValidContents_of_isDigitByte byte (decimal_isDigit number byte hmem)
  unfold sgr
  rw [h.parse_sequence hcontents (by decide)]
  have hcommands : ∀ contents, csiCommands (contents ++ [109]) = csi_m (contents ++ [109]) := by
    intro contents
    unfold csiCommands
    rw [List.getLast?_concat]
    rfl
  rw [hcommands, joined_eq]
  unfold csi_m csiParams
  rw [scanParams_numbers]
  cases scanned 8 (groups.flatMap AttributeGroup.numbers) with
  | nil => rfl
  | cons param params => rfl

section Alone

variable {parser : Parser}

section
variable (h : parser.AtRest)
include h

theorem parse_sgr_single (group : AttributeGroup) :
    (parser.parse (sgr [group])).2 = attributes (orReset (scanned 8 group.numbers)) := by
  rw [parse_sgr h, flatMap_cons, flatMap_nil, append_nil]

/-- A group that is scanned whole makes its own commands. -/
theorem parse_of_scanned (hscanned : ∀ number ∈ group.numbers, number < 2 ^ 32) :
    (parser.parse (sgr [group])).2 = group.commands := by
  have hwhole : scanned 8 group.numbers = group.numbers.map toUInt32 := by
    unfold scanned
    rw [take_of_length_le ((length_numbers_le group).trans (by decide)),
      takeWhile_eq_self_iff.mpr fun number hnumber => decide_eq_true (hscanned number hnumber)]
  rw [parse_sgr_single h, hwhole]
  unfold orReset AttributeGroup.commands
  rw [if_neg fun hnil => numbers_ne_nil group (map_eq_nil_iff.mp hnil)]

theorem parse_of_oversized (hgroup : group.Oversized) :
    (parser.parse (sgr [group])).2 = attributes [0] := by
  cases group with
  | single number plain =>
    rw [parse_sgr_single h]
    change attributes (orReset (scanned 8 [number])) = _
    rw [scanned_cons, if_neg (Nat.not_lt.mpr hgroup)]
    rfl
  | indexed _ _ => exact absurd hgroup id
  | direct _ _ _ _ => exact absurd hgroup id

/-- A group of which only a part is scanned makes no commands, if it is not oversized. -/
theorem parse_of_short (hgroup : ¬group.Oversized)
    (hscanned : ¬∀ number ∈ group.numbers, number < 2 ^ 32) :
    (parser.parse (sgr [group])).2 = [] := by
  rw [parse_sgr_single h]
  have hpart := @scanned_group 8 group []
  rw [append_nil] at hpart
  obtain ⟨hall, _⟩ | ⟨_, known, hknown, hshort, heq⟩ := hpart
  · exact absurd hall.2 hscanned
  · rw [heq]
    unfold orReset
    rw [if_neg]
    · exact attributes_short hknown hshort
    · intro hnil
      have hfirst : ∀ first rest, group.numbers = first :: rest → first < 2 ^ 32 → False := by
        intro first rest hnumbers hsmall
        rw [hnumbers, scanned_cons, if_pos hsmall, hnil] at heq
        cases heq
      cases group with
      | single number plain => exact hfirst number [] rfl (Nat.lt_of_not_le hgroup)
      | indexed ground color => exact hfirst ground.number _ rfl (by cases ground <;> decide)
      | direct ground red green blue => exact hfirst ground.number _ rfl (by cases ground <;> decide)

end

theorem toUInt32_lt (hnumber : number < 2 ^ 32) (hbound : bound < 2 ^ 32) :
    number.toUInt32 < bound.toUInt32 ↔ number < bound := by
  rw [lt_iff_toNat_lt, toUInt32_eq, toUInt32_eq, toNat_ofNat_of_lt' hnumber,
    toNat_ofNat_of_lt' hbound]

/-- A group makes no commands on its own exactly if it asks for nothing. -/
theorem parse_eq_nil_iff (h : parser.AtRest) : (parser.parse (sgr [group])).2 = [] ↔ group.Mute := by
  by_cases hscanned : ∀ number ∈ group.numbers, number < 2 ^ 32
  · rw [parse_of_scanned h hscanned]
    unfold AttributeGroup.commands
    cases group with
    | single number plain =>
      have hnumber : number < 2 ^ 32 := hscanned number mem_cons_self
      have hplain : ¬(number.toUInt32 = 38 ∨ number.toUInt32 = 48) :=
        not_or.mpr ⟨toUInt32_ne hnumber (by decide) plain.1, toUInt32_ne hnumber (by decide) plain.2⟩
      change attributes [number.toUInt32] = [] ↔
        number < 2 ^ 32 ∧ scImToCharacterAttributes number.toUInt32 = none
      rw [attributes_cons, if_neg hplain, and_iff_right hnumber]
      cases scImToCharacterAttributes number.toUInt32 with
      | none => exact iff_of_true rfl rfl
      | some attributes => exact iff_of_false (fun heq => nomatch heq) (fun heq => nomatch heq)
    | indexed ground color =>
      have hcolor : color < 2 ^ 32 :=
        hscanned color (mem_cons_of_mem _ (mem_cons_of_mem _ mem_cons_self))
      change attributes (ground.number.toUInt32 :: [5, color.toUInt32]) = [] ↔ ¬color < 256
      rw [attributes_ground, ← toUInt32_lt hcolor (by decide : 256 < 2 ^ 32)]
      change (if color.toUInt32 < 256 then _ else _) ++ [] = [] ↔ ¬color.toUInt32 < 256
      rw [append_nil]
      by_cases hsmall : color.toUInt32 < 256
      · rw [if_pos hsmall]
        exact iff_of_false (cons_ne_nil _ _) (not_not.mpr hsmall)
      · rw [if_neg hsmall]
        exact iff_of_true rfl hsmall
    | direct ground red green blue =>
      have hred : red < 2 ^ 32 :=
        hscanned red (mem_cons_of_mem _ (mem_cons_of_mem _ mem_cons_self))
      have hgreen : green < 2 ^ 32 := hscanned green (mem_cons_of_mem _ (mem_cons_of_mem _
        (mem_cons_of_mem _ mem_cons_self)))
      have hblue : blue < 2 ^ 32 := hscanned blue (mem_cons_of_mem _ (mem_cons_of_mem _
        (mem_cons_of_mem _ (mem_cons_of_mem _ mem_cons_self))))
      change attributes (ground.number.toUInt32 ::
        [2, red.toUInt32, green.toUInt32, blue.toUInt32]) = [] ↔ ¬(red < 256 ∧ green < 256 ∧ blue < 256)
      rw [attributes_ground, ← toUInt32_lt hred (by decide : 256 < 2 ^ 32),
        ← toUInt32_lt hgreen (by decide : 256 < 2 ^ 32), ← toUInt32_lt hblue (by decide : 256 < 2 ^ 32)]
      change (if red.toUInt32 < 256 ∧ green.toUInt32 < 256 ∧ blue.toUInt32 < 256 then _ else _) ++ [] =
        [] ↔ ¬(red.toUInt32 < 256 ∧ green.toUInt32 < 256 ∧ blue.toUInt32 < 256)
      rw [append_nil]
      by_cases hsmall : red.toUInt32 < 256 ∧ green.toUInt32 < 256 ∧ blue.toUInt32 < 256
      · rw [if_pos hsmall]
        exact iff_of_false (cons_ne_nil _ _) (not_not.mpr hsmall)
      · rw [if_neg hsmall]
        exact iff_of_true rfl hsmall
  · by_cases hoversized : group.Oversized
    · rw [parse_of_oversized h hoversized]
      refine iff_of_false (by decide) fun hmute => ?_
      cases group with
      | single number plain => exact Nat.not_lt.mpr hoversized hmute.1
      | indexed _ _ => exact hoversized
      | direct _ _ _ _ => exact hoversized
    · rw [parse_of_short h hoversized hscanned]
      refine iff_of_true rfl ?_
      cases group with
      | single number plain =>
        refine absurd (fun other hother => ?_) hscanned
        rw [mem_singleton.mp hother]
        exact Nat.lt_of_not_le hoversized
      | indexed ground color =>
        intro hsmall
        refine hscanned fun number hnumber => ?_
        obtain rfl | hnumber := mem_cons.mp hnumber
        · cases ground <;> decide
        · obtain rfl | hnumber := mem_cons.mp hnumber
          · decide
          · rw [mem_singleton.mp hnumber]
            omega
      | direct ground red green blue =>
        intro hsmall
        refine hscanned fun number hnumber => ?_
        obtain rfl | hnumber := mem_cons.mp hnumber
        · cases ground <;> decide
        · have hmem : number = 2 ∨ number = red ∨ number = green ∨ number = blue := by
            simpa using hnumber
          omega

/-- The condition, with so much room and no exception for the first group. -/
def ReadFrom (room : Nat) (groups : List AttributeGroup) : Prop :=
  ∀ before group after, groups = before ++ group :: after →
    Scanned room ((before ++ [group]).flatMap AttributeGroup.numbers) ∨ group.Mute

theorem scanned_append : Scanned room (first ++ second) ↔
    Scanned room first ∧ Scanned (room - first.length) second := by
  unfold Scanned
  rw [length_append, forall_mem_append]
  constructor
  · rintro ⟨hlength, hfirst, hsecond⟩
    exact ⟨⟨by omega, hfirst⟩, by omega, hsecond⟩
  · rintro ⟨⟨hlength, hfirst⟩, hrest, hsecond⟩
    exact ⟨by omega, hfirst, hsecond⟩

theorem scanned_groups (before : List AttributeGroup) (last : AttributeGroup) :
    Scanned room ((group :: before ++ [last]).flatMap AttributeGroup.numbers) ↔
      Scanned room group.numbers ∧ Scanned (room - group.numbers.length)
        ((before ++ [last]).flatMap AttributeGroup.numbers) := by
  rw [cons_append, flatMap_cons, scanned_append]

theorem readFrom_cons (groups : List AttributeGroup) : ReadFrom room (group :: groups) ↔
    if Scanned room group.numbers then ReadFrom (room - group.numbers.length) groups
    else group.Mute ∧ ∀ other ∈ groups, other.Mute := by
  have hfirst : Scanned room (([] ++ [group]).flatMap AttributeGroup.numbers) ↔
      Scanned room group.numbers := by
    rw [nil_append, flatMap_cons, flatMap_nil, append_nil]
  split_ifs with hscanned
  · constructor
    · rintro h before last after rfl
      have hlast := h (group :: before) last after rfl
      rw [scanned_groups, and_iff_right hscanned] at hlast
      exact hlast
    · rintro h before last after heq
      obtain ⟨rfl, hsame⟩ | ⟨before, rfl, hrest⟩ := cons_eq_append_iff.mp heq
      · rw [(cons.inj hsame).1]
        exact .inl (hfirst.mpr hscanned)
      · rw [scanned_groups, and_iff_right hscanned]
        exact h before last after hrest
  · constructor
    · intro h
      refine ⟨(h [] group groups rfl).resolve_left fun hin => hscanned (hfirst.mp hin), ?_⟩
      intro other hother
      obtain ⟨before, after, rfl⟩ := append_of_mem hother
      refine (h (group :: before) other after rfl).resolve_left fun hin => hscanned ?_
      exact ((scanned_groups before other).mp hin).1
    · rintro ⟨hmute, hothers⟩ before last after heq
      obtain ⟨rfl, hsame⟩ | ⟨before, rfl, hrest⟩ := cons_eq_append_iff.mp heq
      · rw [(cons.inj hsame).1]
        exact .inr hmute
      · exact .inr (hothers last (hrest ▸ mem_append_cons_self))

theorem flatMap_eq_nil_iff (h : parser.AtRest) (groups : List AttributeGroup) :
    groups.flatMap (fun group => (parser.parse (sgr [group])).2) = [] ↔
      ∀ group ∈ groups, group.Mute := by
  rw [List.flatMap_eq_nil_iff]
  exact forall₂_congr fun group _ => parse_eq_nil_iff h

/-- What is scanned makes the commands of all groups exactly if it holds what is not mute. -/
theorem attributes_eq_iff (h : parser.AtRest) (groups : List AttributeGroup) :
    attributes (scanned room (groups.flatMap AttributeGroup.numbers)) =
      groups.flatMap (fun group => (parser.parse (sgr [group])).2) ↔ ReadFrom room groups := by
  induction groups generalizing room with
  | nil =>
    refine iff_of_true ?_ fun before group after heq => ?_
    · rw [flatMap_nil, flatMap_nil]
      unfold scanned
      rw [take_nil]
      rfl
    · exact absurd heq.symm (append_ne_nil_of_right_ne_nil _ (cons_ne_nil _ _))
  | cons group groups ih =>
    rw [attributes_scanned, readFrom_cons, flatMap_cons]
    by_cases hscanned : Scanned room group.numbers
    · rw [if_pos hscanned, if_pos hscanned, parse_of_scanned h hscanned.2, append_cancel_left_eq, ih]
    · rw [if_neg hscanned, if_neg hscanned, eq_comm, append_eq_nil_iff, parse_eq_nil_iff h,
        flatMap_eq_nil_iff h]

end Alone

/-- A sequence makes the commands of its groups exactly if each is read whole or asks for nothing. -/
theorem composes_iff_readWhole {parser : Parser} (h : parser.AtRest) (groups : List AttributeGroup) :
    Composes parser groups ↔ ReadWhole groups := by
  unfold Composes ReadWhole
  rw [parse_sgr h]
  cases groups with
  | nil =>
    refine iff_of_false (fun heq => ?_) fun hread => hread.1 rfl
    cases heq
  | cons group groups =>
    rw [and_iff_right (cons_ne_nil _ _)]
    by_cases hoversized : group.Oversized
    · -- The first number is read as none, so the sequence resets, as it would alone.
      have hnone : scanned 8 ((group :: groups).flatMap AttributeGroup.numbers) = [] := by
        cases group with
        | single number plain =>
          rw [flatMap_cons]
          change scanned 8 (number :: _) = []
          rw [scanned_cons, if_neg (Nat.not_lt.mpr hoversized)]
        | indexed _ _ => exact absurd hoversized id
        | direct _ _ _ _ => exact absurd hoversized id
      have hscanned : ∀ before last, ¬Scanned 8 ((group :: before ++ [last]).flatMap
          AttributeGroup.numbers) := by
        intro before last hin
        have hall := ((scanned_groups before last).mp hin).1.2
        cases group with
        | single number plain => exact Nat.not_lt.mpr hoversized (hall number mem_cons_self)
        | indexed _ _ => exact hoversized
        | direct _ _ _ _ => exact hoversized
      rw [hnone, flatMap_cons, parse_of_oversized h hoversized]
      change attributes [0] = attributes [0] ++ _ ↔ _
      rw [self_eq_append_right, flatMap_eq_nil_iff h]
      constructor
      · intro hmute before last after heq
        obtain ⟨rfl, hsame⟩ | ⟨before, rfl, hrest⟩ := cons_eq_append_iff.mp heq
        · rw [(cons.inj hsame).1]
          exact .inr (.inr ⟨rfl, hoversized⟩)
        · exact .inr (.inl (hmute last (hrest ▸ mem_append_cons_self)))
      · intro hread other hother
        obtain ⟨before, after, rfl⟩ := append_of_mem hother
        obtain hin | hmute | ⟨hnil, _⟩ := hread (group :: before) other after rfl
        · exact absurd hin (hscanned before other)
        · exact hmute
        · exact absurd hnil (cons_ne_nil _ _)
    · have hsome : scanned 8 ((group :: groups).flatMap AttributeGroup.numbers) ≠ [] := by
        cases group with
        | single number plain =>
          rw [flatMap_cons]
          change scanned 8 (number :: _) ≠ []
          rw [scanned_cons, if_pos (Nat.lt_of_not_le hoversized)]
          exact cons_ne_nil _ _
        | indexed ground color => cases ground <;> exact cons_ne_nil _ _
        | direct ground _ _ _ => cases ground <;> exact cons_ne_nil _ _
      unfold orReset
      rw [if_neg hsome, attributes_eq_iff h]
      unfold ReadFrom
      refine forall_congr' fun before => forall_congr' fun last => forall₂_congr fun after heq => ?_
      refine or_congr_right (or_iff_left ?_).symm
      rintro ⟨rfl, hlast⟩
      rw [← (cons.inj heq).1] at hlast
      exact hoversized hlast

/-- A bold colour on a background, for a new parser. -/
theorem composes_bold_colour : Composes {} [.single 1 (by decide), .indexed .foreground 200] :=
  (composes_iff_readWhole atRest_new _).mpr ⟨cons_ne_nil _ _, by
    intro before group after heq
    obtain ⟨rfl, hsame⟩ | ⟨before, rfl, hrest⟩ := cons_eq_append_iff.mp heq
    · rw [(cons.inj hsame).1]
      exact .inl (by decide)
    · obtain ⟨rfl, hsame⟩ | ⟨before, rfl, hnone⟩ := cons_eq_append_iff.mp hrest
      · rw [(cons.inj hsame).1]
        exact .inl (by decide)
      · exact absurd hnone.symm (append_ne_nil_of_right_ne_nil _ (cons_ne_nil _ _))⟩

/-- A true-colour background after a true-colour foreground is lost. -/
theorem background_lost : ¬∀ groups, groups ≠ [] → Composes {} groups := by
  intro h
  have hboth := h [.direct .foreground 1 2 3, .direct .background 4 5 6] (cons_ne_nil _ _)
  revert hboth
  unfold Composes
  decide +kernel

end WinCommander.Term
