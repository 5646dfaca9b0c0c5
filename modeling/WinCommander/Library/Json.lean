/-
  JSON values, the compact writer, and readers that invert it.

  `Json.write` is a compact writer: no white space, `"`, `\` and control bytes escaped,
  every other byte copied. `Json.Plain` are the values a program builds from integers of
  64 bits and ASCII strings. `Json.Reader` is what a development may assume of a JSON
  reader it does not embed: on the text of a plain value it returns that value.
  `Json.Reader.reference` is one such reader, by recursive descent over the writer's own
  texts, so the assumption is satisfiable and runs can be evaluated.

  Objects keep their members in order, duplicates included, as a DOM reader does.
-/
import WinCommander.Library.Numeral

namespace WinCommander.Library

open List

/-- A JSON value. `int` is a number without fraction or exponent that fits 64 bits;
    `double` is any other number, by its text. -/
inductive Json where
  | null
  | bool (b : Bool)
  | int (i : Int)
  | double (text : Bytes)
  | str (s : Bytes)
  | arr (xs : List Json)
  | obj (ms : List (Bytes × Json))

namespace Json

/-! ## The writer -/

/-- `'0'..'9', 'A'..'F'`. -/
def hexUpper (d : UInt8) : UInt8 := if d < 10 then 48 + d else 55 + d

/-- One byte of a string, escaped as the writer's table says. -/
def escapeByte (b : UInt8) : Bytes :=
  if b = 0x22 then [0x5C, 0x22]
  else if b = 0x5C then [0x5C, 0x5C]
  else if b = 0x08 then [0x5C, 0x62]
  else if b = 0x09 then [0x5C, 0x74]
  else if b = 0x0A then [0x5C, 0x6E]
  else if b = 0x0C then [0x5C, 0x66]
  else if b = 0x0D then [0x5C, 0x72]
  else if b < 0x20 then [0x5C, 0x75, 0x30, 0x30, hexUpper (b / 16), hexUpper (b % 16)]
  else [b]

def writeString (s : Bytes) : Bytes := 0x22 :: (s.flatMap escapeByte ++ [0x22])

def writeInt (i : Int) : Bytes :=
  if i < 0 then 0x2D :: decimal i.natAbs else decimal i.natAbs

mutual
def write : Json → Bytes
  | .null => ascii "null"
  | .bool b => if b then ascii "true" else ascii "false"
  | .int i => writeInt i
  | .double text => text
  | .str s => writeString s
  | .arr [] => [0x5B, 0x5D]
  | .arr (x :: xs) => 0x5B :: (write x ++ writeElements xs)
  | .obj [] => [0x7B, 0x7D]
  | .obj ((k, v) :: ms) => 0x7B :: (writeString k ++ 0x3A :: (write v ++ writeMembers ms))
/-- The elements after the first, and the closing bracket. -/
def writeElements : List Json → Bytes
  | [] => [0x5D]
  | x :: xs => 0x2C :: (write x ++ writeElements xs)
/-- The members after the first, and the closing brace. -/
def writeMembers : List (Bytes × Json) → Bytes
  | [] => [0x7D]
  | (k, v) :: ms => 0x2C :: (writeString k ++ 0x3A :: (write v ++ writeMembers ms))
end

/-! ## The length of a text -/

/-- A byte that the writer copies. -/
def copied (b : UInt8) : Bool := 0x20 ≤ b && b != 0x22 && b != 0x5C

theorem escapeByte_copied (h : copied b) : escapeByte b = [b] := by
  simp only [copied, Bool.and_eq_true, decide_eq_true_eq, bne_iff_ne] at h
  obtain ⟨⟨hlow, hq⟩, hs⟩ := h
  have low : ∀ c : UInt8, c < 0x20 → b ≠ c := by
    rintro c hc rfl
    exact absurd hc (UInt8.not_lt.mpr hlow)
  unfold escapeByte
  rw [if_neg hq, if_neg hs, if_neg (low _ (by decide)), if_neg (low _ (by decide)),
    if_neg (low _ (by decide)), if_neg (low _ (by decide)), if_neg (low _ (by decide)),
    if_neg (UInt8.not_lt.mpr hlow)]

theorem writeString_length (h : ∀ b ∈ s, copied b) : (writeString s).length = s.length + 2 := by
  have he : s.flatMap escapeByte = s := by
    induction s with
    | nil => rfl
    | cons b s ih =>
      rw [flatMap_cons, escapeByte_copied (h b mem_cons_self),
        ih fun c hc => h c (mem_cons_of_mem _ hc)]
      rfl
  simp [writeString, he]

variable (xs : List Json) (ms : List (Bytes × Json))

theorem writeElements_length :
    (writeElements xs).length = 1 + (xs.map fun x => (write x).length + 1).sum := by
  induction xs with
  | nil => rfl
  | cons x xs ih =>
    simp only [writeElements, length_cons, length_append, map_cons, sum_cons, ih]
    omega

theorem write_arr_length :
    (write (.arr xs)).length ≤ 2 + (xs.map fun x => (write x).length + 1).sum := by
  cases xs with
  | nil => simp [write]
  | cons x xs =>
    simp only [write, length_cons, length_append, writeElements_length, map_cons, sum_cons]
    omega

theorem writeMembers_length : (writeMembers ms).length =
    1 + (ms.map fun m => (writeString m.1).length + (write m.2).length + 2).sum := by
  induction ms with
  | nil => rfl
  | cons m ms ih =>
    simp only [writeMembers, length_cons, length_append, map_cons, sum_cons, ih]
    omega

theorem write_obj_length : (write (.obj ms)).length ≤
    2 + (ms.map fun m => (writeString m.1).length + (write m.2).length + 2).sum := by
  cases ms with
  | nil => simp [write]
  | cons m ms =>
    simp only [write, length_cons, length_append, writeMembers_length, map_cons, sum_cons]
    omega

/-! ## Plain values and readers -/

/-- Every byte is ASCII. -/
def Ascii (s : Bytes) : Prop := ∀ b ∈ s, b < 0x80

instance (s : Bytes) : Decidable (Ascii s) := List.decidableBAll (fun b => b < 0x80) s

mutual
/-- No `double`, integers of 64 bits, ASCII strings and keys. -/
def Plain : Json → Prop
  | .null => True
  | .bool _ => True
  | .int i => -2 ^ 63 ≤ i ∧ i < 2 ^ 64
  | .double _ => False
  | .str s => Ascii s
  | .arr xs => PlainElements xs
  | .obj ms => PlainMembers ms
def PlainElements : List Json → Prop
  | [] => True
  | x :: xs => Plain x ∧ PlainElements xs
def PlainMembers : List (Bytes × Json) → Prop
  | [] => True
  | (k, v) :: ms => Ascii k ∧ Plain v ∧ PlainMembers ms
end

theorem plain_int (hl : -2 ^ 63 ≤ i) (hu : i < 2 ^ 64) : Plain (.int i) := ⟨hl, hu⟩

theorem plain_arr_iff : Plain (.arr xs) ↔ ∀ x ∈ xs, Plain x := by
  show PlainElements xs ↔ _
  induction xs with
  | nil => simp [PlainElements]
  | cons x xs ih => simp [PlainElements, ih]

theorem plain_obj_iff : Plain (.obj ms) ↔ ∀ m ∈ ms, Ascii m.1 ∧ Plain m.2 := by
  show PlainMembers ms ↔ _
  induction ms with
  | nil => simp [PlainMembers]
  | cons m ms ih =>
    obtain ⟨k, v⟩ := m
    simp [PlainMembers, ih, and_assoc]

/-- A JSON reader that returns every plain value from its text. -/
structure Reader where
  parse : Bytes → Option Json
  parse_write : ∀ v, Plain v → parse (write v) = some v

/-! ## The reference reader -/

def hexUpperValue (b : UInt8) : UInt8 := if b < 58 then b - 48 else b - 55

/-- The byte that a one-letter escape stands for. -/
def unescapeByte (c : UInt8) : UInt8 :=
  if c = 0x62 then 0x08 else if c = 0x74 then 0x09 else if c = 0x6E then 0x0A
  else if c = 0x66 then 0x0C else if c = 0x72 then 0x0D else c

/-- The rest of a string after its opening quote: its bytes, and what follows it. -/
def readString : Bytes → Option (Bytes × Bytes)
  | [] => none
  | c :: rest =>
    if c = 0x22 then some ([], rest)
    else if c = 0x5C then
      match rest with
      | [] => none
      | e :: rest =>
        if e = 0x75 then
          match rest with
          | _ :: _ :: hi :: lo :: rest =>
            (readString rest).map fun p => ((16 * hexUpperValue hi + hexUpperValue lo) :: p.1, p.2)
          | _ => none
        else (readString rest).map fun p => (unescapeByte e :: p.1, p.2)
    else (readString rest).map fun p => (c :: p.1, p.2)

/-- A word whose first byte has been read. -/
def readWord (word : Bytes) (value : Json) (text : Bytes) : Option (Json × Bytes) :=
  if word.isPrefixOf text then some (value, text.drop word.length) else none

def readDigits (text : Bytes) : Option (Nat × Bytes) :=
  match text.span isDigitByte with
  | ([], _) => none
  | (digits, rest) => some (decimalValue 0 digits, rest)

mutual
def readValue : Nat → Bytes → Option (Json × Bytes)
  | 0, _ => none
  | _, [] => none
  | fuel + 1, c :: rest =>
    if c = 0x6E then readWord (ascii "ull") .null rest
    else if c = 0x74 then readWord (ascii "rue") (.bool true) rest
    else if c = 0x66 then readWord (ascii "alse") (.bool false) rest
    else if c = 0x22 then (readString rest).map fun p => (.str p.1, p.2)
    else if c = 0x5B then
      if rest.head? = some 0x5D then some (.arr [], rest.tail)
      else (readElements fuel (0x2C :: rest)).map fun p => (.arr p.1, p.2)
    else if c = 0x7B then
      if rest.head? = some 0x7D then some (.obj [], rest.tail)
      else (readMembers fuel (0x2C :: rest)).map fun p => (.obj p.1, p.2)
    else if c = 0x2D then (readDigits rest).map fun p => (.int (-(p.1 : Int)), p.2)
    else (readDigits (c :: rest)).map fun p => (.int p.1, p.2)
/-- The elements after the first: a comma before each, the bracket at the end. -/
def readElements : Nat → Bytes → Option (List Json × Bytes)
  | 0, _ => none
  | _, [] => none
  | fuel + 1, c :: rest =>
    if c = 0x5D then some ([], rest)
    else if c = 0x2C then
      (readValue fuel rest).bind fun p =>
        (readElements fuel p.2).map fun q => (p.1 :: q.1, q.2)
    else none
def readMembers : Nat → Bytes → Option (List (Bytes × Json) × Bytes)
  | 0, _ => none
  | _, [] => none
  | fuel + 1, c :: rest =>
    if c = 0x7D then some ([], rest)
    else if c = 0x2C ∧ rest.head? = some 0x22 then
      (readString rest.tail).bind fun k =>
        if k.2.head? = some 0x3A then
          (readValue fuel k.2.tail).bind fun p =>
            (readMembers fuel p.2).map fun q => ((k.1, p.1) :: q.1, q.2)
        else none
    else none
end

def read (text : Bytes) : Option Json :=
  match readValue (2 * text.length + 1) text with
  | some (v, []) => some v
  | _ => none

/-! ## The reference reader inverts the writer -/

theorem hexUpperValue_hexUpper (h : b < 0x20) :
    16 * hexUpperValue (hexUpper (b / 16)) + hexUpperValue (hexUpper (b % 16)) = b := by
  have all : ∀ n < 32, 16 * hexUpperValue (hexUpper (UInt8.ofNat n / 16)) +
      hexUpperValue (hexUpper (UInt8.ofNat n % 16)) = UInt8.ofNat n := by decide
  simpa using all b.toNat (UInt8.lt_iff_toNat_lt.mp h)

theorem readString_quote (rest : Bytes) : readString (0x22 :: rest) = some ([], rest) := by
  rw [readString.eq_def]
  rfl

theorem readString_letter (he : e ≠ 0x75) (rest : Bytes) : readString (0x5C :: e :: rest) =
      (readString rest).map fun p => (unescapeByte e :: p.1, p.2) := by
  rw [readString.eq_def]
  simp [he]

theorem readString_hex (z z' hi lo : UInt8) (rest : Bytes) :
    readString (0x5C :: 0x75 :: z :: z' :: hi :: lo :: rest) =
      (readString rest).map fun p => ((16 * hexUpperValue hi + hexUpperValue lo) :: p.1, p.2) := by
  rw [readString.eq_def]
  simp

theorem readString_copied (hq : c ≠ 0x22) (hb : c ≠ 0x5C) (rest : Bytes) :
    readString (c :: rest) = (readString rest).map fun p => (c :: p.1, p.2) := by
  rw [readString.eq_def]
  simp [hq, hb]

theorem readString_escapeByte (b : UInt8) (text : Bytes) :
    readString (escapeByte b ++ text) = (readString text).map fun p => (b :: p.1, p.2) := by
  unfold escapeByte
  split_ifs with h1 h2 h3 h4 h5 h6 h7 h8
  · rw [h1]; exact readString_letter (by decide) text
  · rw [h2]; exact readString_letter (by decide) text
  · rw [h3]; exact readString_letter (by decide) text
  · rw [h4]; exact readString_letter (by decide) text
  · rw [h5]; exact readString_letter (by decide) text
  · rw [h6]; exact readString_letter (by decide) text
  · rw [h7]; exact readString_letter (by decide) text
  · have := readString_hex 0x30 0x30 (hexUpper (b / 16)) (hexUpper (b % 16)) text
    rw [hexUpperValue_hexUpper h8] at this
    exact this
  · exact readString_copied h1 h2 text

theorem readString_write (s rest : Bytes) :
    readString (s.flatMap escapeByte ++ 0x22 :: rest) = some (s, rest) := by
  induction s with
  | nil => exact readString_quote rest
  | cons b s ih =>
    rw [flatMap_cons, append_assoc, readString_escapeByte, ih]
    rfl

/-- What follows a value: nothing, or a byte that no number continues with. -/
def Ends (rest : Bytes) : Prop := ∀ b ∈ rest.head?, isDigitByte b = false

theorem ends_writeElements (rest : Bytes) : Ends (writeElements xs ++ rest) := by
  cases xs <;> simp [Ends, writeElements, isDigitByte]

theorem ends_writeMembers (rest : Bytes) : Ends (writeMembers ms ++ rest) := by
  cases ms <;> simp [Ends, writeMembers, isDigitByte]

theorem readDigits_decimal (n : Nat) (hr : Ends rest) :
    readDigits (decimal n ++ rest) = some (n, rest) := by
  unfold readDigits
  rw [span_decimal n rest hr]
  cases hd : decimal n with
  | nil => exact absurd hd (decimal_ne_nil n)
  | cons b bs => simp only [← hd, decimalValue_decimal]

theorem readValue_digit (hc : isDigitByte c) (fuel : Nat) (rest : Bytes) :
    readValue (fuel + 1) (c :: rest) = (readDigits (c :: rest)).map fun p => (.int p.1, p.2) := by
  have other : ∀ d : UInt8, isDigitByte d = false → c ≠ d := by
    rintro d hd rfl
    rw [hc] at hd
    exact Bool.noConfusion hd
  simp [readValue, other 0x6E rfl, other 0x74 rfl, other 0x66 rfl, other 0x22 rfl, other 0x5B rfl, other 0x7B rfl, other 0x2D rfl]

theorem readValue_int (i : Int) (fuel : Nat) (hr : Ends rest) :
    readValue (fuel + 1) (writeInt i ++ rest) = some (.int i, rest) := by
  unfold writeInt
  split_ifs with hi
  · have h : -((i.natAbs : Nat) : Int) = i := by omega
    have hvalue : readValue (fuel + 1) (0x2D :: (decimal i.natAbs ++ rest)) =
        some (.int (-((i.natAbs : Nat) : Int)), rest) := by
      simp [readValue, readDigits_decimal _ hr]
    rw [cons_append, hvalue, h]
  · have h : ((i.natAbs : Nat) : Int) = i := by omega
    have hd := readDigits_decimal i.natAbs hr
    cases hc : decimal i.natAbs with
    | nil => exact absurd hc (decimal_ne_nil _)
    | cons c cs =>
      rw [hc] at hd
      have hdigit := decimal_isDigit i.natAbs c (by rw [hc]; exact mem_cons_self)
      rw [cons_append, readValue_digit hdigit, ← cons_append, hd, Option.map_some, h]

/-- The first byte of a value closes no bracket. -/
theorem write_head (v : Json) (hv : Plain v) (rest : Bytes) :
    ∃ c cs, write v ++ rest = c :: cs ∧ c ≠ 0x5D ∧ c ≠ 0x7D := by
  cases v with
  | null => exact ⟨_, _, rfl, by decide, by decide⟩
  | bool b => cases b <;> exact ⟨_, _, rfl, by decide, by decide⟩
  | int i =>
    simp only [write, writeInt]
    split_ifs
    · exact ⟨_, _, rfl, by decide, by decide⟩
    · cases hc : decimal i.natAbs with
      | nil => exact absurd hc (decimal_ne_nil _)
      | cons c cs =>
        have := decimal_isDigit i.natAbs c (by rw [hc]; exact mem_cons_self)
        refine ⟨c, cs ++ rest, rfl, ?_, ?_⟩ <;> rintro rfl <;> cases this
  | double text => exact absurd hv (by simp [Plain])
  | str s => exact ⟨_, _, rfl, by decide, by decide⟩
  | arr xs => cases xs <;> exact ⟨_, _, rfl, by decide, by decide⟩
  | obj ms => cases ms <;> exact ⟨_, _, rfl, by decide, by decide⟩

mutual
/-- The induction: enough fuel reads a value's text back, whatever ends it. -/
theorem readValue_write : (v : Json) → Plain v → ∀ fuel rest, 2 * (write v).length ≤ fuel →
    Ends rest → readValue fuel (write v ++ rest) = some (v, rest)
  | .null, _, fuel + 1, rest, _, _ => by simp [write, readValue, readWord, ascii]
  | .bool true, _, fuel + 1, rest, _, _ => by simp [write, readValue, readWord, ascii]
  | .bool false, _, fuel + 1, rest, _, _ => by simp [write, readValue, readWord, ascii]
  | .int i, _, fuel + 1, rest, _, hr => by simpa [write] using readValue_int i fuel hr
  | .str s, _, fuel + 1, rest, _, _ => by simp [write, writeString, readValue, readString_write]
  | .arr [], _, fuel + 1, rest, _, _ => by simp [write, readValue]
  | .arr (x :: xs), hv, fuel + 1, rest, hf, _ => by
    obtain ⟨c, cs, hw, hc, -⟩ := write_head x hv.1 (writeElements xs ++ rest)
    have ih := readElements_write (x :: xs) hv fuel rest
      (by simp only [write, writeElements, length_cons] at hf ⊢; omega)
    simp only [writeElements, cons_append, append_assoc, hw] at ih
    simp [write, readValue, hw, hc, ih]
  | .obj [], _, fuel + 1, rest, _, _ => by simp [write, readValue]
  | .obj ((k, v) :: ms), hv, fuel + 1, rest, hf, _ => by
    have ih := readMembers_write ((k, v) :: ms) hv fuel rest
      (by simp only [write, writeMembers, length_cons] at hf ⊢; omega)
    simp only [writeMembers, writeString, cons_append, append_assoc, nil_append] at ih
    simp [write, writeString, readValue, ih]
  | .null, _, 0, _, hf, _ => by simp [write, ascii] at hf
  | .bool true, _, 0, _, hf, _ => by simp [write, ascii] at hf
  | .bool false, _, 0, _, hf, _ => by simp [write, ascii] at hf
  | .int i, _, 0, _, hf, _ => by
    have := decimal_length_pos i.natAbs
    simp only [write, writeInt] at hf
    split_ifs at hf
    · simp only [length_cons] at hf
      omega
    · omega
  | .double _, hv, _, _, _, _ => absurd hv (by simp [Plain])
  | .str s, _, 0, _, hf, _ => by simp [write, writeString] at hf
  | .arr [], _, 0, _, hf, _ => by simp [write] at hf
  | .arr (x :: xs), _, 0, _, hf, _ => by simp [write] at hf
  | .obj [], _, 0, _, hf, _ => by simp [write] at hf
  | .obj ((k, v) :: ms), _, 0, _, hf, _ => by simp [write] at hf
theorem readElements_write : (xs : List Json) → PlainElements xs → ∀ fuel rest,
    2 * (writeElements xs).length ≤ fuel + 1 →
    readElements fuel (writeElements xs ++ rest) = some (xs, rest)
  | [], _, fuel + 1, rest, _ => by simp [writeElements, readElements]
  | x :: xs, hv, fuel + 1, rest, hf => by
    simp only [writeElements, length_cons, length_append] at hf
    have hx := readValue_write x hv.1 fuel (writeElements xs ++ rest) (by omega)
      (ends_writeElements xs rest)
    have ih := readElements_write xs hv.2 fuel rest (by omega)
    simp [writeElements, readElements, hx, ih]
  | [], _, 0, _, hf => by simp [writeElements] at hf
  | x :: xs, _, 0, _, hf => by simp only [writeElements, length_cons] at hf; omega
theorem readMembers_write : (ms : List (Bytes × Json)) → PlainMembers ms → ∀ fuel rest,
    2 * (writeMembers ms).length ≤ fuel + 1 →
    readMembers fuel (writeMembers ms ++ rest) = some (ms, rest)
  | [], _, fuel + 1, rest, _ => by simp [writeMembers, readMembers]
  | (k, v) :: ms, hv, fuel + 1, rest, hf => by
    simp only [writeMembers, length_cons, length_append] at hf
    have hx := readValue_write v hv.2.1 fuel (writeMembers ms ++ rest) (by omega)
      (ends_writeMembers ms rest)
    have ih := readMembers_write ms hv.2.2 fuel rest (by omega)
    simp [writeMembers, writeString, readMembers, readString_write, hx, ih]
  | [], _, 0, _, hf => by simp [writeMembers] at hf
  | (k, v) :: ms, _, 0, _, hf => by simp only [writeMembers, length_cons] at hf; omega
end

/-- The reference reader inverts the writer on plain values. -/
theorem read_write (v : Json) (hv : Plain v) : read (write v) = some v := by
  have h := readValue_write v hv (2 * (write v).length + 1) [] (by omega) (by simp [Ends])
  rw [append_nil] at h
  simp [read, h]

/-- The assumption on a reader is satisfiable, by a reader that runs. -/
def Reader.reference : Reader := ⟨read, read_write⟩

end Json

end WinCommander.Library
