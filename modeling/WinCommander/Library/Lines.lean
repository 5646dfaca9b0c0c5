/-
  Records made of lines: `name=value`, each ended by a newline, in a buffer of fixed capacity.

  Values are decimal or hexadecimal numerals. Proved: what a numeral is read back as, that a
  line is taken off the front of the lines that were written, and when a list of pieces fits.
-/
import WinCommander.Library.Numeral

namespace WinCommander.Library

open List Bool

theorem guard_bind [Decidable p] (f : Unit → Option α) :
    (guard p : Option Unit).bind f = if p then f () else none := by
  unfold guard
  split <;> rfl

theorem ite_some_bind [Decidable p] (a : α) (f : α → Option β) :
    ((if p then some a else none).bind f) = if p then f a else none := by
  split <;> rfl

/-! ## Plain bytes -/

/-- Neither a newline nor a NUL. -/
def isPlain (byte : UInt8) : Bool := byte != 10 && byte != 0

def Plain (bytes : Bytes) : Prop := bytes.all isPlain = true

instance (bytes : Bytes) : Decidable (Plain bytes) := inferInstanceAs (Decidable (_ = true))

theorem plain_append : Plain (first ++ second) ↔ Plain first ∧ Plain second := by
  unfold Plain
  rw [all_append, and_eq_true]

theorem plain_decimal (n : Nat) : Plain (decimal n) := by
  unfold Plain
  rw [all_eq_true]
  intro byte hbyte
  have hdigit := (isDigitByte_iff byte).mp (decimal_isDigit n byte hbyte)
  unfold isPlain
  rw [and_eq_true, bne_iff_ne, bne_iff_ne]
  refine ⟨fun h => ?_, fun h => ?_⟩
  · rw [h] at hdigit
    exact absurd hdigit.1 (by decide)
  · rw [h] at hdigit
    exact absurd hdigit.1 (by decide)

/-! ## Decimal numerals within bounds -/

/-- The value of a run of digits, none when it overflows 64 bits. -/
def parseUnsignedFrom (parsed : Nat) : Bytes → Option Nat
  | [] => some parsed
  | character :: rest =>
    if isDigitByte character = false ∨ parsed > (2 ^ 64 - 1 - (character.toNat - 48)) / 10 then none
    else parseUnsignedFrom (10 * parsed + (character.toNat - 48)) rest

def parseUnsigned (value : Bytes) : Option UInt64 :=
  if value = [] then none else (parseUnsignedFrom 0 value).map (·.toUInt64)

theorem parseUnsignedFrom_of_lt (hdigits : ∀ b ∈ digits, isDigitByte b)
    (hlt : decimalValue parsed digits < 2 ^ 64) :
    parseUnsignedFrom parsed digits = some (decimalValue parsed digits) := by
  induction digits generalizing parsed with
  | nil => rfl
  | cons digit rest ih =>
    have hdigit := hdigits digit mem_cons_self
    have hrange := (isDigitByte_iff digit).mp hdigit
    have hstep : 10 * parsed + (digit.toNat - 48) < 2 ^ 64 :=
      Nat.lt_of_le_of_lt (decimalValue_mono rest _) hlt
    have hnot : ¬(isDigitByte digit = false ∨
        parsed > (2 ^ 64 - 1 - (digit.toNat - 48)) / 10) := by
      rintro (hfalse | hover)
      · rw [hdigit] at hfalse
        cases hfalse
      · omega
    unfold parseUnsignedFrom
    rw [if_neg hnot]
    exact ih (fun b hb => hdigits b (mem_cons_of_mem _ hb)) hlt

theorem parseUnsigned_decimal (n : UInt64) : parseUnsigned (decimal n.toNat) = some n := by
  unfold parseUnsigned
  have hlt : decimalValue 0 (decimal n.toNat) < 2 ^ 64 := by
    rw [decimalValue_decimal]
    exact n.toNat_lt
  rw [if_neg (decimal_ne_nil _), parseUnsignedFrom_of_lt (decimal_isDigit _) hlt,
    decimalValue_decimal, Option.map_some]
  exact congrArg some UInt64.ofNat_toNat

theorem decimal_length_le_of_uint64 (n : UInt64) : (decimal n.toNat).length ≤ 20 :=
  decimal_length_le (by decide) (Nat.lt_trans n.toNat_lt (by decide))

theorem decimal_length_le_of_uint32 (n : UInt32) : (decimal n.toNat).length ≤ 10 :=
  decimal_length_le (by decide) (Nat.lt_trans n.toNat_lt (by decide))

/-! ## Hexadecimal numerals -/

def hexDigit (value : UInt8) : UInt8 := if value < 10 then 48 + value else 97 + (value - 10)

def encodeHex : Bytes → Bytes
  | [] => []
  | byte :: rest => hexDigit (byte >>> 4) :: hexDigit (byte &&& 0x0F) :: encodeHex rest

def decodeHexDigit (value : UInt8) : Option UInt8 :=
  if 48 ≤ value ∧ value ≤ 57 then some (value - 48)
  else if 97 ≤ value ∧ value ≤ 102 then some (value - 97 + 10)
  else none

/-- Two digits for each byte. -/
def decodeHex : Bytes → Option Bytes
  | [] => some []
  | [_] => none
  | high :: low :: rest =>
    match decodeHexDigit high, decodeHexDigit low with
    | some high, some low => (decodeHex rest).map fun bytes => (high <<< 4 ||| low) :: bytes
    | _, _ => none

theorem decodeHexDigit_hexDigit : ∀ byte : UInt8,
    decodeHexDigit (hexDigit (byte >>> 4)) = some (byte >>> 4) ∧
      decodeHexDigit (hexDigit (byte &&& 0x0F)) = some (byte &&& 0x0F) ∧
      (byte >>> 4) <<< 4 ||| (byte &&& 0x0F) = byte ∧
      isPlain (hexDigit (byte >>> 4)) ∧ isPlain (hexDigit (byte &&& 0x0F)) := by
  intro byte
  have hall : ∀ n : Fin 256,
      decodeHexDigit (hexDigit (UInt8.ofNat n >>> 4)) = some (UInt8.ofNat n >>> 4) ∧
      decodeHexDigit (hexDigit (UInt8.ofNat n &&& 0x0F)) = some (UInt8.ofNat n &&& 0x0F) ∧
      (UInt8.ofNat n >>> 4) <<< 4 ||| (UInt8.ofNat n &&& 0x0F) = UInt8.ofNat n ∧
      isPlain (hexDigit (UInt8.ofNat n >>> 4)) ∧
      isPlain (hexDigit (UInt8.ofNat n &&& 0x0F)) := by
    decide +kernel
  have hbyte := hall ⟨byte.toNat, byte.toNat_lt⟩
  rw [UInt8.ofNat_toNat] at hbyte
  exact hbyte

variable (bytes : Bytes)

theorem decodeHex_encodeHex : decodeHex (encodeHex bytes) = some bytes := by
  induction bytes with
  | nil => rfl
  | cons byte rest ih =>
    obtain ⟨hhigh, hlow, hbyte, -, -⟩ := decodeHexDigit_hexDigit byte
    change decodeHex (hexDigit (byte >>> 4) :: hexDigit (byte &&& 0x0F) :: encodeHex rest) = _
    unfold decodeHex
    rw [hhigh, hlow]
    change (decodeHex (encodeHex rest)).map _ = _
    rw [ih, Option.map_some, hbyte]

theorem encodeHex_length : (encodeHex bytes).length = 2 * bytes.length := by
  induction bytes with
  | nil => rfl
  | cons byte rest ih =>
    change (encodeHex rest).length + 1 + 1 = _
    rw [ih, length_cons]
    omega

theorem plain_encodeHex : Plain (encodeHex bytes) := by
  induction bytes with
  | nil => rfl
  | cons byte rest ih =>
    obtain ⟨-, -, -, hhigh, hlow⟩ := decodeHexDigit_hexDigit byte
    unfold Plain at ih ⊢
    unfold encodeHex
    rw [all_cons, all_cons, hhigh, hlow, ih]
    rfl

/-! ## Lines -/

/-- The line that gives a field its value. -/
def line (field value : Bytes) : Bytes := field ++ ascii "=" ++ value ++ [10]

/-- The first line and what follows it, if there is a newline. -/
def takeLine : Bytes → Option (Bytes × Bytes)
  | [] => none
  | byte :: rest =>
    if byte = 10 then some ([], rest)
    else (takeLine rest).map fun (taken, after) => (byte :: taken, after)

/-- What follows a prefix. -/
def afterPrefix (text start : Bytes) : Option Bytes :=
  if start.isPrefixOf text then some (text.drop start.length) else none

/-- The value in a line, when it is one of the field. -/
def fieldValue (text field : Bytes) : Option Bytes := afterPrefix text (field ++ ascii "=")

/-- The value of the field that the first line has to give. -/
def takeField (contents field : Bytes) : Option (Bytes × Bytes) := do
  let (text, rest) ← takeLine contents
  let value ← fieldValue text field
  return (value, rest)

theorem takeLine_append (h : Plain taken) (rest : Bytes) :
    takeLine (taken ++ 10 :: rest) = some (taken, rest) := by
  induction taken with
  | nil => rfl
  | cons byte taken ih =>
    unfold Plain at h
    rw [all_cons, and_eq_true] at h
    obtain ⟨hbyte, htaken⟩ := h
    unfold isPlain at hbyte
    rw [and_eq_true, bne_iff_ne] at hbyte
    rw [cons_append]
    unfold takeLine
    rw [if_neg hbyte.1, ih htaken]
    rfl

theorem afterPrefix_append (start rest : Bytes) : afterPrefix (start ++ rest) start = some rest := by
  unfold afterPrefix
  rw [if_pos (List.isPrefixOf_iff_prefix.mpr (prefix_append start rest)), drop_left]

/-- A line that was written is read. -/
theorem takeField_line (hfield : Plain field) (hvalue : Plain value) (rest : Bytes)
    : takeField (line field value ++ rest) field = some (value, rest) := by
  have hplain : Plain (field ++ ascii "=" ++ value) :=
    plain_append.mpr ⟨plain_append.mpr ⟨hfield, by decide⟩, hvalue⟩
  unfold takeField line
  rw [append_assoc _ [10] rest, singleton_append, takeLine_append hplain]
  change (fieldValue (field ++ ascii "=" ++ value) field).bind _ = _
  unfold fieldValue
  rw [afterPrefix_append]
  rfl

/-- A field that has to be there, with its value; its line is written as `line`. -/
abbrev Field := Bytes × Bytes

/-- The lines of some fields. -/
def written (fields : List Field) : Bytes := fields.flatMap fun field => line field.1 field.2

/-- The values of the fields that the first lines have to give. -/
def takeFields : List Bytes → Bytes → Option (List Bytes × Bytes)
  | [], contents => some ([], contents)
  | field :: fields, contents => do
      let (value, rest) ← takeField contents field
      let (values, rest) ← takeFields fields rest
      return (value :: values, rest)

/-- The fields have plain names and values. -/
def PlainFields (fields : List Field) : Prop := ∀ field ∈ fields, Plain field.1 ∧ Plain field.2

variable {fields : List Field}

theorem plainFields_cons :
    PlainFields (field :: fields) ↔ (Plain field.1 ∧ Plain field.2) ∧ PlainFields fields :=
  forall_mem_cons

theorem plainFields_append :
    PlainFields (first ++ second) ↔ PlainFields first ∧ PlainFields second :=
  forall_mem_append

theorem written_cons (field : Field) (fields : List Field) :
    written (field :: fields) = line field.1 field.2 ++ written fields := rfl

theorem written_append (first second : List Field) :
    written (first ++ second) = written first ++ written second :=
  flatMap_append

/-- Fields that were written are read. -/
theorem takeFields_written (h : PlainFields fields) (rest : Bytes) :
    takeFields (fields.map Prod.fst) (written fields ++ rest) =
      some (fields.map Prod.snd, rest) := by
  induction fields with
  | nil => rfl
  | cons field fields ih =>
    obtain ⟨⟨hname, hvalue⟩, hfields⟩ := plainFields_cons.mp h
    rw [written_cons, append_assoc, map_cons, map_cons, takeFields, takeField_line hname hvalue]
    change (takeFields (fields.map Prod.fst) (written fields ++ rest)).bind _ = _
    rw [ih hfields]
    rfl

/-- How long the line of a field is. -/
def Field.width (field : Field) : Nat := field.1.length + field.2.length + 2

theorem written_length (fields : List Field) :
    (written fields).length = (fields.map Field.width).sum := by
  induction fields with
  | nil => rfl
  | cons field fields ih =>
    rw [written_cons, length_append, ih, map_cons, sum_cons]
    unfold line Field.width
    rw [length_append, length_append, length_append]
    change field.1.length + 1 + field.2.length + 1 + _ = _
    omega

theorem written_length_le (h : ∀ field ∈ fields, field.width ≤ bound) :
    (written fields).length ≤ fields.length * bound := by
  rw [written_length]
  induction fields with
  | nil => exact Nat.zero_le _
  | cons field fields ih =>
    have hfield := h field mem_cons_self
    have hrest := ih fun other hother => h other (mem_cons_of_mem _ hother)
    rw [map_cons, sum_cons, length_cons, Nat.succ_mul]
    omega

/-- No NUL is written. -/
theorem written_noNul (h : PlainFields fields) : (0 : UInt8) ∉ written fields := by
  have hnot {bytes : Bytes} (hplain : Plain bytes) : (0 : UInt8) ∉ bytes := fun hmem =>
    absurd (all_eq_true.mp hplain 0 hmem) (by decide)
  unfold written
  rw [mem_flatMap]
  rintro ⟨field, hfield, hmem⟩
  obtain ⟨hname, hvalue⟩ := h field hfield
  unfold line at hmem
  rw [mem_append, mem_append, mem_append] at hmem
  rcases hmem with ((hmem | hmem) | hmem) | hmem
  · exact hnot hname hmem
  · exact absurd hmem (by decide)
  · exact hnot hvalue hmem
  · exact absurd hmem (by decide)

/-! ## Buffers -/

/-- What is in a buffer of that capacity after a piece, if the piece fits. -/
def append (capacity : Nat) (contents piece : Bytes) : Option Bytes :=
  if piece.length > capacity - contents.length then none else some (contents ++ piece)

/-- The lines of the fields, one after another. -/
def appendFields (capacity : Nat) (contents : Bytes) : List Field → Option Bytes
  | [] => some contents
  | field :: fields =>
    (append capacity contents (line field.1 field.2)).bind fun next =>
      appendFields capacity next fields

theorem appendFields_of_le (h : (contents ++ written fields).length ≤ capacity) :
    appendFields capacity contents fields = some (contents ++ written fields) := by
  induction fields generalizing contents with
  | nil =>
    change some contents = some (contents ++ [])
    rw [append_nil]
  | cons field fields ih =>
    rw [written_cons, ← append_assoc] at h ⊢
    have hfits : ¬(line field.1 field.2).length > capacity - contents.length := by
      rw [length_append, length_append] at h
      omega
    unfold appendFields append
    rw [if_neg hfits]
    exact ih h

end WinCommander.Library
