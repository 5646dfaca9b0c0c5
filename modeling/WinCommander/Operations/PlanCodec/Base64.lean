/-
  The base64 layer of `OperationPlanCodec`.

  `encodeGroups` is the loop of `OperationPlanCodecEncodeBase64`, three bytes at a time, and
  `decodeGroups` the loop of `OperationPlanCodecDecodeBase64`, four characters at a time,
  with its canonicality checks. Proved: decoding inverts encoding (`decodeGroups_encode`),
  every accepted text is the encoding of what it decodes to (`encodeGroups_of_decode`), and
  the size the decoder computes from the padding is the size of its output.
-/
import WinCommander.Library.Numeral

namespace WinCommander.Operations.PlanCodec

open Library List Option Nat

/-! ## Encoding -/

/-- `OperationPlanCodecBase64Alphabet`. -/
def base64Alphabet : Bytes :=
  ascii "ABCDEFGHIJKLMNOPQRSTUVWXYZabcdefghijklmnopqrstuvwxyz0123456789+/"

def base64Char (index : Nat) : UInt8 := base64Alphabet.getD index 0

/-- `'='`. -/
abbrev pad : UInt8 := 0x3D

/-- One pass of the encoding loop; `second` and `third` are the bytes that are there. -/
def encodeGroup (first : UInt8) (second third : Option UInt8) : Bytes :=
  let a := first.toNat
  let b := (second.map UInt8.toNat).getD 0
  let c := (third.map UInt8.toNat).getD 0
  [base64Char (a >>> 2), base64Char (((a &&& 0x03) <<< 4) ||| (b >>> 4)),
   if second.isSome then base64Char (((b &&& 0x0F) <<< 2) ||| (c >>> 6)) else pad,
   if third.isSome then base64Char (c &&& 0x3F) else pad]

def encodeGroups : Bytes → Bytes
  | [] => []
  | [a] => encodeGroup a none none
  | [a, b] => encodeGroup a (some b) none
  | a :: b :: c :: rest => encodeGroup a (some b) (some c) ++ encodeGroups rest

/-! ## Decoding -/

/-- `OperationPlanCodecBase64Value`; its `-1` is `none`. -/
def base64Value (character : UInt8) : Option Nat :=
  let c := character.toNat
  if 0x41 ≤ c ∧ c ≤ 0x5A then some (c - 0x41)
  else if 0x61 ≤ c ∧ c ≤ 0x7A then some (c - 0x61 + 26)
  else if 0x30 ≤ c ∧ c ≤ 0x39 then some (c - 0x30 + 52)
  else if c = 0x2B then some 62
  else if c = 0x2F then some 63
  else none

/-- The third and fourth characters of a group: a padding character counts as zero. -/
def paddedValue (character : UInt8) : Option Nat :=
  if character = pad then some 0 else base64Value character

/-- The disjunction that refuses a group whose four characters have values. -/
def nonCanonical (finalGroup : Bool) (second third : Nat) (c3 c4 : UInt8) : Bool :=
  (!finalGroup && (c3 == pad || c4 == pad)) ||
  (c3 == pad && c4 != pad) ||
  (c3 == pad && second &&& 0x0F != 0) ||
  (c4 == pad && c3 != pad && third &&& 0x03 != 0)

/-- One pass of the decoding loop. -/
def decodeGroup (finalGroup : Bool) (c1 c2 c3 c4 : UInt8) : Option Bytes := do
  let first ← base64Value c1
  let second ← base64Value c2
  let third ← paddedValue c3
  let fourth ← paddedValue c4
  if nonCanonical finalGroup second third c3 c4 then none
  else
    some (((first <<< 2) ||| (second >>> 4)).toUInt8 ::
      ((if c3 = pad then [] else [(((second &&& 0x0F) <<< 4) ||| (third >>> 2)).toUInt8]) ++
       (if c4 = pad then [] else [(((third &&& 0x03) <<< 6) ||| fourth).toUInt8])))

def decodeGroups : Bytes → Option Bytes
  | [] => some []
  | c1 :: c2 :: c3 :: c4 :: rest => do
      let group ← decodeGroup rest.isEmpty c1 c2 c3 c4
      let tail ← decodeGroups rest
      return group ++ tail
  | _ => none

/-- The trailing padding characters the decoder counts: none, one or two. -/
def paddingCount (encoded : Bytes) : Nat :=
  if encoded.getLast? = some pad then
    if encoded.dropLast.getLast? = some pad then 2 else 1
  else 0

/-- `decoded_size`. -/
def decodedSize (encoded : Bytes) : Nat := encoded.length / 4 * 3 - paddingCount encoded

/-! ## The alphabet -/

theorem base64Value_char (h : i < 64) : base64Value (base64Char i) = some i := by
  have all : ∀ i < 64, base64Value (base64Char i) = some i := by decide +kernel
  exact all i h

/-- A character of the encoder's output: no byte that a JSON string escapes. -/
def isBase64Char (c : UInt8) : Bool :=
  0x20 ≤ c && c < 0x80 && c != 0x22 && c != 0x5C

theorem base64Char_spec (h : i < 64) : base64Char i ≠ pad ∧ isBase64Char (base64Char i) := by
  have all : ∀ i < 64, base64Char i ≠ pad ∧ isBase64Char (base64Char i) := by
    decide +kernel
  exact all i h

/-- The inverse direction, for one byte value. -/
def valueInverts (n : Nat) : Bool :=
  match base64Value (UInt8.ofNat n) with
  | some v => v < 64 && base64Char v == UInt8.ofNat n
  | none => true

theorem char_of_base64Value (h : base64Value c = some v) : v < 64 ∧ base64Char v = c := by
  have all : ∀ n < 256, valueInverts n := by decide +kernel
  have hc := all c.toNat c.toNat_lt
  rw [valueInverts, UInt8.ofNat_toNat, h] at hc
  simpa using hc

/-- A padded position holds the padding character for zero, or a character's value. -/
theorem paddedValue_cases (h : paddedValue c = some v) :
    (c = pad ∧ v = 0) ∨ (c ≠ pad ∧ v < 64 ∧ base64Char v = c) := by
  unfold paddedValue at h
  split_ifs at h with hc
  · exact Or.inl ⟨hc, (some.inj h).symm⟩
  · exact Or.inr ⟨hc, char_of_base64Value h⟩

theorem paddedValue_char (h : i < 64) : paddedValue (base64Char i) = some i := by
  rw [paddedValue, if_neg (base64Char_spec h).1, base64Value_char h]

/-! ## Bit fields as quotients and remainders -/

theorem shift_or (x y i : Nat) (h : y < 2 ^ i) : (x <<< i) ||| y = x * 2 ^ i + y := by
  rw [← shiftLeft_add_eq_or_of_lt h, shiftLeft_eq]

theorem and_mask (x i : Nat) : x &&& (2 ^ i - 1) = x % 2 ^ i := and_two_pow_sub_one_eq_mod x i

/-- The four characters of a group, as quotients and remainders. -/
theorem encodeGroup_eq (a : UInt8) (b c : Option UInt8) (nb nc : Nat)
    (hb : (b.map UInt8.toNat).getD 0 = nb) (hc : (c.map UInt8.toNat).getD 0 = nc)
    (lb : nb < 256) (lc : nc < 256) : encodeGroup a b c =
      [base64Char (a.toNat / 4), base64Char (a.toNat % 4 * 16 + nb / 16),
       if b.isSome then base64Char (nb % 16 * 4 + nc / 64) else pad,
       if c.isSome then base64Char (nc % 64) else pad] := by
  have e1 := and_mask a.toNat 2
  have e2 := and_mask nb 4
  have e3 := and_mask nc 6
  norm_num at e1 e2 e3
  simp only [encodeGroup, hb, hc, e1, e2, e3, shiftRight_eq_div_pow]
  rw [shift_or _ _ 4 (by omega), shift_or _ _ 2 (by omega)]
  rfl

/-- What a group of four valued characters decodes to, as quotients and remainders. -/
theorem decodeGroup_eq (h1 : base64Value c1 = some first) (h2 : base64Value c2 = some second)
    (h3 : paddedValue c3 = some third) (h4 : paddedValue c4 = some fourth) (b2 : second < 64)
    (b3 : third < 64) (b4 : fourth < 64) : decodeGroup final c1 c2 c3 c4 =
      if nonCanonical final second third c3 c4 then none
      else some ((first * 4 + second / 16).toUInt8 ::
        ((if c3 = pad then [] else [(second % 16 * 16 + third / 4).toUInt8]) ++
         (if c4 = pad then [] else [(third % 4 * 64 + fourth).toUInt8]))) := by
  have e1 := and_mask second 4
  have e2 := and_mask third 2
  norm_num at e1 e2
  simp only [decodeGroup, h1, h2, h3, h4, e1, e2, shiftRight_eq_div_pow, bind_eq_bind, bind_some]
  rw [shift_or _ _ 2 (by omega), shift_or _ _ 4 (by omega), shift_or _ _ 6 (by omega)]
  rfl

/-! ## One group -/

theorem toUInt8_eq {x : UInt8} (h : n = x.toNat) : n.toUInt8 = x := by
  rw [h]
  exact UInt8.ofNat_toNat

theorem toNat_toUInt8 (h : n < 256) : n.toUInt8.toNat = n := by
  simpa using mod_eq_of_lt h

/-- A full group decodes to its three bytes, whether or not it is the last one. -/
theorem decodeGroup_three (final : Bool) (a b c : UInt8) :
    ∃ c1 c2 c3 c4, encodeGroup a (some b) (some c) = [c1, c2, c3, c4] ∧
      decodeGroup final c1 c2 c3 c4 = some [a, b, c] := by
  have ha : a.toNat < 256 := a.toNat_lt
  have hb : b.toNat < 256 := b.toNat_lt
  have hc : c.toNat < 256 := c.toNat_lt
  refine ⟨_, _, _, _, encodeGroup_eq a (some b) (some c) _ _ rfl rfl hb hc, ?_⟩
  have h3 : b.toNat % 16 * 4 + c.toNat / 64 < 64 := by omega
  have h4 : c.toNat % 64 < 64 := by omega
  have n3 := (base64Char_spec h3).1
  have n4 := (base64Char_spec h4).1
  simp only [map_some, getD_some, isSome_some, if_true]
  rw [decodeGroup_eq (base64Value_char (by omega)) (base64Value_char (by omega))
    (paddedValue_char h3) (paddedValue_char h4) (by omega) h3 h4, if_neg n3, if_neg n4,
    if_neg (by simp [nonCanonical, n3, n4]), toUInt8_eq (x := a) (by omega),
    toUInt8_eq (x := b) (by omega), toUInt8_eq (x := c) (by omega)]
  rfl

/-- The last group of a text of `3k + 2` bytes. -/
theorem decodeGroup_two (a b : UInt8) :
    ∃ c1 c2 c3, encodeGroup a (some b) none = [c1, c2, c3, pad] ∧ c3 ≠ pad ∧
      decodeGroup true c1 c2 c3 pad = some [a, b] := by
  have ha : a.toNat < 256 := a.toNat_lt
  have hb : b.toNat < 256 := b.toNat_lt
  have h3 : b.toNat % 16 * 4 < 64 := by omega
  have n3 := (base64Char_spec h3).1
  refine ⟨_, _, _, encodeGroup_eq a (some b) none b.toNat 0 rfl rfl hb (by decide), n3, ?_⟩
  have low := and_mask (b.toNat % 16 * 4) 2
  norm_num at low
  show decodeGroup true (base64Char _) (base64Char _) (base64Char (b.toNat % 16 * 4)) pad = _
  rw [decodeGroup_eq (base64Value_char (by omega)) (base64Value_char (by omega))
    (paddedValue_char h3) (if_pos rfl) (by omega) h3 (by omega), if_neg n3, if_pos rfl,
    if_neg (by simp [nonCanonical, n3, low]), toUInt8_eq (x := a) (by omega),
    toUInt8_eq (x := b) (by omega)]
  rfl

/-- The last group of a text of `3k + 1` bytes. -/
theorem decodeGroup_one (a : UInt8) : ∃ c1 c2, encodeGroup a none none = [c1, c2, pad, pad] ∧
      decodeGroup true c1 c2 pad pad = some [a] := by
  have ha : a.toNat < 256 := a.toNat_lt
  have h2 : a.toNat % 4 * 16 < 64 := by omega
  refine ⟨_, _, encodeGroup_eq a none none 0 0 rfl rfl (by decide) (by decide), ?_⟩
  have low := and_mask (a.toNat % 4 * 16) 4
  norm_num at low
  show decodeGroup true (base64Char _) (base64Char (a.toNat % 4 * 16)) pad pad = _
  rw [decodeGroup_eq (base64Value_char (by omega)) (base64Value_char h2)
    (if_pos rfl) (if_pos rfl) h2 (by omega) (by omega), if_pos rfl,
    if_neg (by simp [nonCanonical, low]), toUInt8_eq (x := a) (by omega)]
  rfl

/-- The converse: a group that decodes is the encoding of what it decodes to, and only the
    last group may be a short one. -/
theorem encodeGroup_of_decode (h : decodeGroup final c1 c2 c3 c4 = some g) :
    (∃ a b c, g = [a, b, c] ∧ encodeGroup a (some b) (some c) = [c1, c2, c3, c4]) ∨
    (final ∧ ∃ a b, g = [a, b] ∧ encodeGroup a (some b) none = [c1, c2, c3, c4]) ∨
    (final ∧ ∃ a, g = [a] ∧ encodeGroup a none none = [c1, c2, c3, c4]) := by
  have hd := h
  simp only [decodeGroup, bind_eq_bind, bind_eq_some_iff] at h
  obtain ⟨first, h1, second, h2, third, h3, fourth, h4, -⟩ := h
  obtain ⟨l1, r1⟩ := char_of_base64Value h1
  obtain ⟨l2, r2⟩ := char_of_base64Value h2
  have l3 : third < 64 := by
    rcases paddedValue_cases h3 with ⟨-, rfl⟩ | ⟨-, l3, -⟩ <;> omega
  have l4 : fourth < 64 := by
    rcases paddedValue_cases h4 with ⟨-, rfl⟩ | ⟨-, l4, -⟩ <;> omega
  have m2 := and_mask second 4
  have m3 := and_mask third 2
  norm_num at m2 m3
  rw [decodeGroup_eq h1 h2 h3 h4 l2 l3 l4] at hd
  split_ifs at hd with hn hc3 hc4 hc4
  · -- two padding characters: one byte, and the low bits of the second character are zero
    obtain rfl : third = 0 := by
      obtain ⟨-, h⟩ | ⟨h, -⟩ := paddedValue_cases h3
      · exact h
      · exact absurd hc3 h
    simp only [nonCanonical, hc3, hc4, m2] at hn
    simp at hn
    refine Or.inr (Or.inr ⟨hn.1, _, (some.inj hd).symm, ?_⟩)
    have ha := toNat_toUInt8 (n := first * 4 + second / 16) (by omega)
    rw [encodeGroup_eq _ none none 0 0 rfl rfl (by decide) (by decide), ha, hc3, hc4, ← r1, ← r2]
    have q1 : (first * 4 + second / 16) / 4 = first := by omega
    have q2 : (first * 4 + second / 16) % 4 * 16 + 0 / 16 = second := by omega
    rw [q1, q2]
    rfl
  · simp [nonCanonical, hc3, hc4] at hn
  · -- one padding character: two bytes, and the low bits of the third character are zero
    obtain ⟨-, r3⟩ : third < 64 ∧ base64Char third = c3 := by
      obtain ⟨h, -⟩ | ⟨-, h⟩ := paddedValue_cases h3
      · exact absurd h hc3
      · exact h
    simp only [nonCanonical, hc4, m3] at hn
    simp [hc3] at hn
    refine Or.inr (Or.inl ⟨hn.1, _, _, (some.inj hd).symm, ?_⟩)
    have ha := toNat_toUInt8 (n := first * 4 + second / 16) (by omega)
    have hb := toNat_toUInt8 (n := second % 16 * 16 + third / 4) (by omega)
    rw [encodeGroup_eq _ (some _) none _ 0 hb rfl (by omega) (by decide), ha, hc4, ← r1, ← r2, ← r3]
    have q1 : (first * 4 + second / 16) / 4 = first := by omega
    have q2 : (first * 4 + second / 16) % 4 * 16 + (second % 16 * 16 + third / 4) / 16 = second := by
      omega
    have q3 : (second % 16 * 16 + third / 4) % 16 * 4 + 0 / 64 = third := by omega
    rw [q1, q2, q3]
    rfl
  · -- a full group
    obtain ⟨-, r3⟩ : third < 64 ∧ base64Char third = c3 := by
      obtain ⟨h, -⟩ | ⟨-, h⟩ := paddedValue_cases h3
      · exact absurd h hc3
      · exact h
    obtain ⟨-, r4⟩ : fourth < 64 ∧ base64Char fourth = c4 := by
      obtain ⟨h, -⟩ | ⟨-, h⟩ := paddedValue_cases h4
      · exact absurd h hc4
      · exact h
    refine Or.inl ⟨_, _, _, (some.inj hd).symm, ?_⟩
    have ha := toNat_toUInt8 (n := first * 4 + second / 16) (by omega)
    have hb := toNat_toUInt8 (n := second % 16 * 16 + third / 4) (by omega)
    have hc := toNat_toUInt8 (n := third % 4 * 64 + fourth) (by omega)
    rw [encodeGroup_eq _ (some _) (some _) _ _ hb hc (by omega) (by omega), ha, ← r1, ← r2, ← r3,
      ← r4]
    have q1 : (first * 4 + second / 16) / 4 = first := by omega
    have q2 : (first * 4 + second / 16) % 4 * 16 + (second % 16 * 16 + third / 4) / 16 = second := by
      omega
    have q3 : (second % 16 * 16 + third / 4) % 16 * 4 + (third % 4 * 64 + fourth) / 64 = third := by
      omega
    have q4 : (third % 4 * 64 + fourth) % 64 = fourth := by omega
    rw [q1, q2, q3, q4]
    rfl

/-! ## The loops -/

theorem decodeGroups_encode (bytes : Bytes) : decodeGroups (encodeGroups bytes) = some bytes := by
  induction bytes using encodeGroups.induct with
  | case1 => rfl
  | case2 a =>
    obtain ⟨c1, c2, he, hd⟩ := decodeGroup_one a
    simp [encodeGroups, he, decodeGroups, hd]
  | case3 a b =>
    obtain ⟨c1, c2, c3, he, -, hd⟩ := decodeGroup_two a b
    simp [encodeGroups, he, decodeGroups, hd]
  | case4 a b c rest ih =>
    obtain ⟨c1, c2, c3, c4, he, hd⟩ := decodeGroup_three (encodeGroups rest).isEmpty a b c
    simp [encodeGroups, he, decodeGroups, hd, ih]

theorem encodeGroups_of_decode (encoded bytes : Bytes) (h : decodeGroups encoded = some bytes) :
    encodeGroups bytes = encoded := by
  induction encoded using decodeGroups.induct generalizing bytes with
  | case1 =>
    cases h
    rfl
  | case2 c1 c2 c3 c4 rest ih =>
    simp only [decodeGroups, bind_eq_bind, bind_eq_some_iff] at h
    obtain ⟨g, hg, tail, htail, heq⟩ := h
    obtain rfl := some.inj heq
    have hrest := ih tail htail
    rcases encodeGroup_of_decode hg with ⟨a, b, c, rfl, he⟩ | ⟨hfin, a, b, rfl, he⟩ |
      ⟨hfin, a, rfl, he⟩
    · simp [encodeGroups, he, hrest]
    · obtain rfl := List.isEmpty_iff.mp hfin
      obtain rfl := some.inj htail
      exact he
    · obtain rfl := List.isEmpty_iff.mp hfin
      obtain rfl := some.inj htail
      exact he
  | case3 t h1 h2 => simp [decodeGroups] at h

/-! ## Sizes and characters -/

theorem encodeGroups_length (bytes : Bytes) :
    (encodeGroups bytes).length = (bytes.length + 2) / 3 * 4 := by
  induction bytes using encodeGroups.induct with
  | case1 => rfl
  | case2 a => simp [encodeGroups, encodeGroup]
  | case3 a b => simp [encodeGroups, encodeGroup]
  | case4 a b c rest ih =>
    simp only [encodeGroups, length_append, ih, length_cons, encodeGroup, length_nil]
    omega

theorem encodeGroup_chars (a : UInt8) (b c : Option UInt8) :
    ∀ x ∈ encodeGroup a b c, isBase64Char x := by
  have ha : a.toNat < 256 := a.toNat_lt
  have small : ∀ o : Option UInt8, (o.map UInt8.toNat).getD 0 < 256 := by
    intro o
    cases o with
    | none => decide
    | some x => exact x.toNat_lt
  have hb := small b
  have hc := small c
  have clean : ∀ i < 64, isBase64Char (base64Char i) := fun i h => (base64Char_spec h).2
  have hpad : isBase64Char pad := by decide
  rw [encodeGroup_eq a b c _ _ rfl rfl hb hc]
  simp only [forall_mem_cons, not_mem_nil, false_imp_iff, implies_true, and_true]
  refine ⟨clean _ (by omega), clean _ (by omega), ?_, ?_⟩
  · split_ifs
    · exact clean _ (by omega)
    · exact hpad
  · split_ifs
    · exact clean _ (by omega)
    · exact hpad

theorem encodeGroups_chars (bytes : Bytes) : ∀ c ∈ encodeGroups bytes, isBase64Char c := by
  induction bytes using encodeGroups.induct with
  | case1 => simp [encodeGroups]
  | case2 a => exact encodeGroup_chars a none none
  | case3 a b => exact encodeGroup_chars a (some b) none
  | case4 a b c rest ih =>
    exact forall_mem_append.mpr ⟨encodeGroup_chars a (some b) (some c), ih⟩

theorem paddingCount_append (group rest : Bytes) (h : 2 ≤ rest.length) :
    paddingCount (group ++ rest) = paddingCount rest := by
  have last : ∀ {l : Bytes}, l ≠ [] → (group ++ l).getLast? = l.getLast? := by
    intro l hl
    rw [List.getLast?_append, List.getLast?_eq_some_getLast hl]
    rfl
  have hne : rest ≠ [] := by
    rintro rfl
    simp at h
  have hne' : rest.dropLast ≠ [] := by
    intro he
    have := congrArg List.length he
    rw [length_dropLast, length_nil] at this
    omega
  unfold paddingCount
  rw [dropLast_append_of_ne_nil hne, last hne, last hne']

/-- The size the decoder computes before it decodes is the size of what it decodes. -/
theorem decodedSize_encode (bytes : Bytes) : decodedSize (encodeGroups bytes) = bytes.length := by
  induction bytes using encodeGroups.induct with
  | case1 => rfl
  | case2 a =>
    obtain ⟨c1, c2, he, -⟩ := decodeGroup_one a
    simp [encodeGroups, he, decodedSize, paddingCount]
  | case3 a b =>
    obtain ⟨c1, c2, c3, he, hc3, -⟩ := decodeGroup_two a b
    simp [encodeGroups, he, decodedSize, paddingCount, hc3]
  | case4 a b c rest ih =>
    have hlen := encodeGroups_length rest
    unfold decodedSize at ih ⊢
    cases rest with
    | nil =>
      obtain ⟨c1, c2, c3, c4, he, hd⟩ := decodeGroup_three true a b c
      have h4 : c4 ≠ pad := by
        rw [encodeGroup_eq a (some b) (some c) _ _ rfl rfl b.toNat_lt c.toNat_lt] at he
        simp only [List.cons.injEq, isSome_some, if_true] at he
        rw [← he.2.2.2.1]
        have hc := c.toNat_lt
        exact (base64Char_spec (mod_lt _ (by decide))).1
      simp [encodeGroups, he, paddingCount, h4]
    | cons d rest =>
      rw [encodeGroups, paddingCount_append _ _ (by rw [hlen, length_cons]; omega), length_append]
      simp only [length_cons] at ih hlen ⊢
      have hg : (encodeGroup a (some b) (some c)).length = 4 := rfl
      omega

end WinCommander.Operations.PlanCodec
