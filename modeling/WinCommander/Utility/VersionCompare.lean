/-
  `VersionCompare`: which of two version strings is the later one.

  A string is compared as the stream of its tokens. Behind each stream stands its end, which comes
  after letters and before numbers and separators, and with this place for it the comparison is
  lexicographic (`compare_eq`), so it is an order. The tokenizer takes a text to end where it finds
  a number that does not fit 64 bits or a character of no kind; `components` has both.
-/
import WinCommander.Library.Numeral

namespace WinCommander.Utility

open Library List Ordering Option UInt64

/-! ## The code -/

inductive Token where
  | number (value : UInt64)
  | letters (text : Bytes)
  | separator
deriving DecidableEq

def isSpace (c : UInt8) : Bool := [0x09, 0x0A, 0x0B, 0x0C, 0x0D, 0x20].contains c

/-- Punctuation, but neither `+` nor `:` nor `>` nor `}`. -/
def isSeparator (c : UInt8) : Bool :=
  (ascii "!\"#$%&'()*,-./;<=?@[\\]^_\x60\x7b|~").contains c

def isAlpha (c : UInt8) : Bool := 0x41 ≤ c && c ≤ 0x5A || 0x61 ≤ c && c ≤ 0x7A

/-- The next token and what is left; nothing is found in what has neither. -/
def parseNext (text : Bytes) : Option (Token × Bytes) :=
  match text.dropWhile isSpace with
  | [] => none
  | front :: rest =>
    match fromChars (front :: rest) with
    | some (value, left) => some (.number value, left)
    | none =>
      if isSeparator front then some (.separator, (front :: rest).dropWhile isSeparator)
      else if isAlpha front then
        some (.letters ((front :: rest).takeWhile isAlpha), (front :: rest).dropWhile isAlpha)
      else none

def Token.isLetters : Token → Bool
  | .letters _ => true
  | _ => false

/-- What two tokens decide, if they do. -/
def compareTokens : Token → Token → Option Int
  | .number left, .number right =>
    if left < right then some (-1) else if left > right then some 1 else none
  | .separator, .separator => none
  | .letters left, .letters right =>
    match compare left right with
    | .lt => some (-1)
    | .gt => some 1
    | .eq => none
  | .letters _, _ => some (-1)
  | _, .letters _ => some 1
  | .number _, _ => some (-1)
  | _, _ => some 1

/-- The loop, for so many rounds at most. -/
def compareRounds : Nat → Bytes → Bytes → Option Int
  | 0, _, _ => none
  | rounds + 1, lhs, rhs =>
    match parseNext lhs, parseNext rhs with
    | none, none => some 0
    | none, some (right, _) => some (if right.isLetters then 1 else -1)
    | some (left, _), none => some (if left.isLetters then -1 else 1)
    | some (left, lhs), some (right, rhs) =>
      match compareTokens left right with
      | some result => some result
      | none => compareRounds rounds lhs rhs

/-- Each round but the last takes a token of the left side. -/
def VersionCompare.compare (lhs rhs : Bytes) : Option Int := compareRounds (lhs.length + 1) lhs rhs

/-! ## What is asked for -/

inductive Kind where
  | space
  | digit
  | separator
  | letter
  | other
deriving DecidableEq

def kindOf (c : UInt8) : Kind :=
  if isSpace c then .space
  else if isDigitByte c then .digit
  else if isSeparator c then .separator
  else if isAlpha c then .letter
  else .other

inductive Component where
  | number (value : Nat)
  | letters (text : Bytes)
  | separator
  | other (text : Bytes)
deriving DecidableEq

/-- What a run of one kind stands for. -/
def component (run : Bytes) : Option Component :=
  match run.head?.map kindOf with
  | some .digit => some (.number (decimalValue 0 run))
  | some .letter => some (.letters run)
  | some .separator => some .separator
  | some .other => some (.other run)
  | _ => none

/-- The kinds of two characters are the same. -/
def sameKind (a b : UInt8) : Bool := kindOf a == kindOf b

/-- The longest runs of one kind, without the whitespace. -/
def components (text : Bytes) : List Component := (text.splitBy sameKind).filterMap component

/-- The first components in which they differ are these numbers. -/
structure FirstDiffer (lhs rhs : Bytes) (common : List Component) (n m : Nat) : Prop where
  left : common ++ [.number n] <+: components lhs
  right : common ++ [.number m] <+: components rhs
  differ : n ≠ m

/-- The first is not the later one. -/
def NotLater (lhs rhs : Bytes) : Prop := ∃ result, VersionCompare.compare lhs rhs = some result ∧ result ≤ 0

structure ComparesSoundly (lhs rhs : Bytes) : Prop where
  returns : ∃ result, VersionCompare.compare lhs rhs = some result
  antisymmetric : VersionCompare.compare rhs lhs = (VersionCompare.compare lhs rhs).map (- ·)
  transitive : ∀ third, NotLater lhs rhs → NotLater rhs third → NotLater lhs third
  /-- Whitespace may stand where no token is cut. -/
  whitespace : ∀ before gap after, lhs = before ++ after → (∀ c ∈ gap, isSpace c = true) →
    components lhs = components before ++ components after →
      VersionCompare.compare (before ++ gap ++ after) rhs = VersionCompare.compare lhs rhs
  separators : ∀ before run run' after, lhs = before ++ run ++ after → run ≠ [] → run' ≠ [] →
    (∀ c ∈ run, isSeparator c = true) → (∀ c ∈ run', isSeparator c = true) →
      VersionCompare.compare (before ++ run' ++ after) rhs = VersionCompare.compare lhs rhs
  byValue : ∀ common n m, FirstDiffer lhs rhs common n m →
    VersionCompare.compare lhs rhs = some (if n < m then -1 else 1)

/-- The token of a component, if it has one. -/
def tokenOf : Component → Option Token
  | .number value => if value < 2 ^ 64 then some (.number (UInt64.ofNat value)) else none
  | .letters text => some (.letters text)
  | .separator => some .separator
  | .other _ => none

/-- A number of 64 bits at most, or no character of another kind. -/
def Known : Component → Prop
  | .number value => value < 2 ^ 64
  | .other _ => False
  | _ => True

/-- Where two versions first differ in a number, everything up to it is known. -/
def KnownUpToNumbers (lhs rhs : Bytes) : Prop :=
  ∀ common n m, FirstDiffer lhs rhs common n m → (∀ c ∈ common, Known c) ∧ n < 2 ^ 64 ∧ m < 2 ^ 64

/-! ## Runs -/

theorem kindOf_table : ∀ n < 256, (kindOf (UInt8.ofNat n) = .space ↔ isSpace (UInt8.ofNat n)) ∧
    (kindOf (UInt8.ofNat n) = .digit ↔ isDigitByte (UInt8.ofNat n)) ∧
    (kindOf (UInt8.ofNat n) = .separator ↔ isSeparator (UInt8.ofNat n)) ∧
    (kindOf (UInt8.ofNat n) = .letter ↔ isAlpha (UInt8.ofNat n)) := by
  decide +kernel

/-- The kinds are those that the code asks for, and no character is of two of them. -/
theorem kindOf_iff (c : UInt8) :
    (kindOf c = .space ↔ isSpace c) ∧ (kindOf c = .digit ↔ isDigitByte c) ∧
    (kindOf c = .separator ↔ isSeparator c) ∧ (kindOf c = .letter ↔ isAlpha c) := by
  have h := kindOf_table c.toNat c.toNat_lt
  rwa [UInt8.ofNat_toNat] at h

/-- The first run begins with the first character. -/
theorem head_of_run {text run : Bytes} (h : run ∈ (text.splitBy sameKind).head?) (hne : run ≠ []) :
    run.head hne ∈ text.head? := by
  cases text with
  | nil => cases h
  | cons c rest =>
    have hhead := head_head_splitBy sameKind (cons_ne_nil c rest)
    have hrun : (c :: rest).splitBy sameKind ≠ [] := splitBy_ne_nil.mpr (cons_ne_nil c rest)
    obtain rfl : ((c :: rest).splitBy sameKind).head hrun = run := head_of_mem_head? h
    rw [hhead]
    exact rfl

variable {kind : Kind}

theorem splitBy_run {run left : Bytes} (hne : run ≠ []) (hrun : ∀ c ∈ run, kindOf c = kind)
    (hleft : ∀ c ∈ left.head?, kindOf c ≠ kind) :
    (run ++ left).splitBy sameKind = run :: left.splitBy sameKind := by
  have hflatten : run ++ left = (run :: left.splitBy sameKind).flatten := by
    rw [flatten_cons, flatten_splitBy]
  rw [hflatten]
  refine splitBy_flatten ?_ ?_ ?_
  · rw [mem_cons, not_or]
    exact ⟨hne.symm, nil_notMem_splitBy _ _⟩
  · refine forall_mem_cons.mpr ⟨?_, fun m hm => isChain_of_mem_splitBy hm⟩
    refine List.Pairwise.isChain (pairwise_of_forall_mem_list fun a ha b hb => ?_)
    unfold sameKind
    rw [hrun a ha, hrun b hb]
    exact beq_self_eq_true kind
  · refine isChain_cons.mpr
      ⟨fun next hnext => ?_, isChain_getLast_head_splitBy sameKind left⟩
    have hnext' := ne_nil_of_mem_splitBy (mem_of_mem_head? hnext)
    refine ⟨hne, hnext', ?_⟩
    unfold sameKind
    rw [hrun _ (getLast_mem hne), beq_eq_false_iff_ne]
    exact (hleft _ (head_of_run hnext hnext')).symm

theorem components_nil : components [] = [] := rfl

/-- A run of one kind before what is not of that kind. -/
theorem components_run (hne : run ≠ []) (hrun : ∀ c ∈ run, kindOf c = kind)
    (hleft : ∀ c ∈ left.head?, kindOf c ≠ kind) :
    components (run ++ left) = (component run).toList ++ components left := by
  have hsplit := splitBy_run hne hrun hleft
  unfold components
  rw [hsplit]
  cases h : component run with
  | none =>
    rw [filterMap_cons_none h]
    rfl
  | some c =>
    rw [filterMap_cons_some h]
    rfl

/-- The characters of the first one's kind, and what is left. -/
structure FirstRun (kind : Kind) (text : Bytes) : Prop where
  run : ∀ c ∈ text.takeWhile (kindOf · == kind), kindOf c = kind
  left : ∀ c ∈ (text.dropWhile (kindOf · == kind)).head?, kindOf c ≠ kind

theorem firstRun (kind : Kind) (text : Bytes) : FirstRun kind text := by
  refine ⟨fun c hc => eq_of_beq (all_eq_true.mp all_takeWhile c hc), fun c hc => ?_⟩
  have hnot := List.head?_dropWhile_not (kindOf · == kind) text
  rw [mem_def.mp hc] at hnot
  exact beq_eq_false_iff_ne.mp hnot

/-- The component of a kind of run. -/
def componentOfKind (run : Bytes) : Kind → Option Component
  | .digit => some (.number (decimalValue 0 run))
  | .letter => some (.letters run)
  | .separator => some .separator
  | .other => some (.other run)
  | .space => none

theorem component_eq (hne : run ≠ []) (hrun : ∀ c ∈ run, kindOf c = kind) :
    component run = componentOfKind run kind := by
  obtain ⟨c, rest, rfl⟩ := exists_cons_of_ne_nil hne
  have hkind := hrun c mem_cons_self
  unfold component
  rw [List.head?_cons, map_some, hkind]
  cases kind <;> rfl

variable {text : Bytes}

/-- What the first run stands for, before the components of what is left. -/
theorem components_first (hne : text.takeWhile (kindOf · == kind) ≠ []) :
    components text = (componentOfKind (text.takeWhile (kindOf · == kind)) kind).toList ++
      components (text.dropWhile (kindOf · == kind)) := by
  obtain ⟨hrun, hleft⟩ := firstRun kind text
  have hcomponents := components_run hne hrun hleft
  rwa [takeWhile_append_dropWhile, component_eq hne hrun] at hcomponents

/-- A text is made of runs. -/
theorem run_induction {P : Bytes → Prop} (nil : P [])
    (run : ∀ (kind : Kind) (run left : Bytes), run ≠ [] → (∀ c ∈ run, kindOf c = kind) →
      (∀ c ∈ left.head?, kindOf c ≠ kind) → P left → P (run ++ left)) (text : Bytes) : P text := by
  induction h : text.length using Nat.strong_induction_on generalizing text with
  | _ n ih =>
    cases text with
    | nil => exact nil
    | cons c rest =>
      have hc : (kindOf c == kindOf c) := beq_self_eq_true _
      have hrun : (c :: rest).takeWhile (kindOf · == kindOf c) =
          c :: rest.takeWhile (kindOf · == kindOf c) := takeWhile_cons_of_pos hc
      have hleft : (c :: rest).dropWhile (kindOf · == kindOf c) =
          rest.dropWhile (kindOf · == kindOf c) := dropWhile_cons_of_pos hc
      obtain ⟨hsame, hother⟩ := firstRun (kindOf c) (c :: rest)
      rw [← takeWhile_append_dropWhile (p := (kindOf · == kindOf c)) (l := c :: rest)]
      refine run (kindOf c) _ _ ?_ hsame hother ?_
      · rw [hrun]
        exact cons_ne_nil _ _
      · have hlength : (rest.dropWhile (kindOf · == kindOf c)).length ≤ rest.length :=
          (dropWhile_sublist _).length_le
        rw [hleft]
        rw [length_cons] at h
        exact ih _ (by omega) _ rfl

/-! ## Whitespace and separators -/

theorem isSpace_eq : isSpace = fun c => kindOf c == .space :=
  funext fun c => Bool.eq_iff_iff.mpr ((kindOf_iff c).1.symm.trans beq_iff_eq.symm)

theorem isDigitByte_eq : isDigitByte = fun c => kindOf c == .digit :=
  funext fun c => Bool.eq_iff_iff.mpr ((kindOf_iff c).2.1.symm.trans beq_iff_eq.symm)

theorem isSeparator_eq : isSeparator = fun c => kindOf c == .separator :=
  funext fun c => Bool.eq_iff_iff.mpr ((kindOf_iff c).2.2.1.symm.trans beq_iff_eq.symm)

theorem isAlpha_eq : isAlpha = fun c => kindOf c == .letter :=
  funext fun c => Bool.eq_iff_iff.mpr ((kindOf_iff c).2.2.2.symm.trans beq_iff_eq.symm)

theorem components_dropSpaces (text : Bytes) : components (text.dropWhile isSpace) = components text := by
  rw [isSpace_eq]
  by_cases hnone : text.takeWhile (kindOf · == .space) = []
  · have hwhole := takeWhile_append_dropWhile (p := (kindOf · == .space)) (l := text)
    rw [hnone, nil_append] at hwhole
    rw [hwhole]
  · exact (components_first hnone).symm

theorem components_spaces (h : ∀ c ∈ spaces, isSpace c) (text : Bytes) :
    components (spaces ++ text) = components text := by
  rw [← components_dropSpaces, dropWhile_append_of_pos h, components_dropSpaces]

/-- Where no token is cut, the components are those of both parts. -/
theorem components_append {text after : Bytes}
    (h : ∀ c ∈ text.getLast?, ∀ d ∈ after.head?, kindOf c = kindOf d → kindOf d = .space) :
    components (text ++ after) = components text ++ components after := by
  induction text using run_induction with
  | nil => rfl
  | run kind run left hne hrun hleft ih =>
    rw [append_assoc, components_run hne hrun hleft]
    cases left with
    | nil =>
      rw [nil_append, components_nil, append_nil]
      by_cases hsame : ∃ d ∈ after.head?, kindOf d = kind
      · obtain ⟨d, hd, hkind⟩ := hsame
        have hlast := getLast_mem hne
        rw [append_nil] at h
        have hspace := h _ (List.getLast?_eq_getLast_of_ne_nil hne) d hd
          ((hrun _ hlast).trans hkind.symm)
        rw [hkind] at hspace
        subst hspace
        rw [component_eq hne hrun, components_spaces fun c hc => (kindOf_iff c).1.mp (hrun c hc)]
        rfl
      · exact components_run hne hrun fun d hd hkind => hsame ⟨d, hd, hkind⟩
    | cons c left =>
      have hleft' : ∀ d ∈ ((c :: left) ++ after).head?, kindOf d ≠ kind := hleft
      rw [components_run hne hrun hleft', append_assoc, ih fun d hd => h d ?_]
      rw [List.getLast?_append_of_ne_nil _ (cons_ne_nil c left)]
      exact hd

theorem components_gap {gap : Bytes} (hne : gap ≠ []) (hgap : ∀ c ∈ gap, isSpace c)
    (before after : Bytes) :
    components (before ++ gap ++ after) = components before ++ components after := by
  rw [append_assoc, components_append fun c _ d hd _ => ?_, components_spaces hgap]
  obtain ⟨first, rest, rfl⟩ := exists_cons_of_ne_nil hne
  obtain rfl := some.inj hd
  exact (kindOf_iff _).1.mpr (hgap _ mem_cons_self)

theorem components_separators (hne : run ≠ []) (hrun : ∀ c ∈ run, isSeparator c) (after : Bytes) :
    components (run ++ after) = .separator :: components (after.dropWhile isSeparator) := by
  have hfirst : (run ++ after).takeWhile isSeparator ≠ [] := by
    rw [takeWhile_append_of_pos hrun]
    exact append_ne_nil_of_left_ne_nil hne _
  have hdrop : (run ++ after).dropWhile isSeparator = after.dropWhile isSeparator :=
    dropWhile_append_of_pos hrun
  rw [isSeparator_eq] at hfirst hdrop ⊢
  rw [components_first hfirst, hdrop]
  rfl

/-- One run of separators is as good as another. -/
theorem components_respelled (hne : run ≠ []) (hne' : run' ≠ [])
    (hrun : ∀ c ∈ run, isSeparator c) (hrun' : ∀ c ∈ run', isSeparator c) (before after : Bytes) :
    components (before ++ (run ++ after)) = components (before ++ (run' ++ after)) := by
  induction before using run_induction with
  | nil =>
    rw [nil_append, nil_append, components_separators hne hrun, components_separators hne' hrun']
  | run kind first left hfirst hsame hleft ih =>
    rw [append_assoc, append_assoc]
    have hhead : ∀ {text : Bytes}, text ≠ [] → (∀ c ∈ text, isSeparator c) →
        kind ≠ .separator → ∀ d ∈ (text ++ after).head?, kindOf d ≠ kind := by
      intro text htext hall hkind d hd
      obtain ⟨c, rest, rfl⟩ := exists_cons_of_ne_nil htext
      obtain rfl := some.inj hd
      rw [(kindOf_iff _).2.2.1.mpr (hall _ mem_cons_self)]
      exact hkind.symm
    cases left with
    | nil =>
      rw [nil_append, nil_append]
      by_cases hkind : kind = .separator
      · have hseparators : ∀ c ∈ first, isSeparator c := fun c hc =>
          (kindOf_iff c).2.2.1.mp ((hsame c hc).trans hkind)
        rw [← append_assoc, ← append_assoc,
          components_separators (append_ne_nil_of_left_ne_nil hfirst _)
            (forall_mem_append.mpr ⟨hseparators, hrun⟩),
          components_separators (append_ne_nil_of_left_ne_nil hfirst _)
            (forall_mem_append.mpr ⟨hseparators, hrun'⟩)]
      · rw [components_run hfirst hsame (hhead hne hrun hkind),
          components_run hfirst hsame (hhead hne' hrun' hkind),
          components_separators hne hrun, components_separators hne' hrun']
    | cons c left =>
      have hleft' : ∀ {text : Bytes}, ∀ d ∈ ((c :: left) ++ text).head?, kindOf d ≠ kind := hleft
      rw [components_run hfirst hsame hleft', components_run hfirst hsame hleft', ih]

/-! ## Tokens -/

/-- The tokens before what is not known. -/
def tokensOf : List Component → List Token
  | [] => []
  | c :: rest =>
    match tokenOf c with
    | some token => token :: tokensOf rest
    | none => []

theorem tokensOf_known (h : tokenOf c = some token) (rest : List Component)
    : tokensOf (c :: rest) = token :: tokensOf rest := by
  rw [tokensOf, h]

theorem tokensOf_unknown (h : tokenOf c = none) (rest : List Component) :
    tokensOf (c :: rest) = [] := by
  rw [tokensOf, h]

/-- The tokenizer finds the first token, or none. -/
inductive Parsed (text : Bytes) : Prop where
  | ended : parseNext text = none → tokensOf (components text) = [] → Parsed text
  | next {token : Token} {left : Bytes} : parseNext text = some (token, left) →
      tokensOf (components text) = token :: tokensOf (components left) →
        left.length < text.length → Parsed text

theorem fromChars_none (h : text.takeWhile isDigitByte = []) : fromChars text = none := by
  unfold fromChars
  rw [span_eq_takeWhile_dropWhile, h]

theorem fromChars_digits (h : text.takeWhile isDigitByte ≠ []) : fromChars text =
      if decimalValue 0 (text.takeWhile isDigitByte) < 2 ^ 64 then
        some (UInt64.ofNat (decimalValue 0 (text.takeWhile isDigitByte)),
          text.dropWhile isDigitByte) else none := by
  unfold fromChars
  rw [span_eq_takeWhile_dropWhile]
  obtain ⟨digit, digits, hdigits⟩ := exists_cons_of_ne_nil h
  rw [hdigits]

theorem isSeparator_false (h : kindOf c ≠ .separator) : isSeparator c = false :=
  Bool.eq_false_iff.mpr (mt (kindOf_iff c).2.2.1.mpr h)

theorem isAlpha_false (h : kindOf c ≠ .letter) : isAlpha c = false :=
  Bool.eq_false_iff.mpr (mt (kindOf_iff c).2.2.2.mpr h)

/-- The first run is taken as a token, and is what is left shorter. -/
theorem parsed_of_run (hne : text.takeWhile (kindOf · == kind) ≠ [])
    (hc : componentOfKind (text.takeWhile (kindOf · == kind)) kind = some c)
    (htoken : tokenOf c = some token) (hwhole : components whole = components text)
    (hlength : text.length ≤ whole.length)
    (hparse : parseNext whole = some (token, text.dropWhile (kindOf · == kind))) :
    Parsed whole := by
  refine .next hparse ?_ ?_
  · rw [hwhole, components_first hne, hc]
    exact tokensOf_known htoken _
  · have hboth := congrArg List.length
      (takeWhile_append_dropWhile (p := (kindOf · == kind)) (l := text))
    have hpos := length_pos_iff.mpr hne
    rw [length_append] at hboth
    omega

theorem parsed (whole : Bytes) : Parsed whole := by
  have hwhole := (components_dropSpaces whole).symm
  have hlength : (whole.dropWhile isSpace).length ≤ whole.length :=
    (dropWhile_sublist _).length_le
  have hhead := List.head?_dropWhile_not isSpace whole
  have hparse := parseNext.eq_1 whole
  generalize whole.dropWhile isSpace = text at hwhole hlength hhead hparse
  cases text with
  | nil => exact .ended hparse (by rw [hwhole, components_nil]; rfl)
  | cons front rest =>
    dsimp only at hparse
    have hkinds := kindOf_iff front
    have hrun : ∀ {kind : Kind}, kindOf front = kind →
        (front :: rest).takeWhile (kindOf · == kind) ≠ [] := by
      intro kind hkind
      have hcons : (front :: rest).takeWhile (kindOf · == kind) =
          front :: rest.takeWhile (kindOf · == kind) :=
        takeWhile_cons_of_pos (beq_iff_eq.mpr hkind)
      rw [hcons]
      exact cons_ne_nil _ _
    have hnodigit : kindOf front ≠ .digit → fromChars (front :: rest) = none := by
      intro hkind
      refine fromChars_none (takeWhile_cons_of_neg ?_)
      exact mt hkinds.2.1.mpr hkind
    have hgivesUp : ∀ {c : Component}, parseNext whole = none →
        componentOfKind ((front :: rest).takeWhile (kindOf · == kindOf front)) (kindOf front) =
          some c → tokenOf c = none → Parsed whole := by
      intro c hnone hc htoken
      refine .ended hnone ?_
      rw [hwhole, components_first (hrun rfl), hc]
      exact tokensOf_unknown htoken _
    cases hkind : kindOf front with
    | space => exact absurd (hkinds.1.mp hkind) (Bool.eq_false_iff.mp hhead)
    | digit =>
      have hdigits := hrun hkind
      have hvalue : fromChars (front :: rest) = _ := fromChars_digits (by
        rw [isDigitByte_eq]
        exact hdigits)
      rw [isDigitByte_eq] at hvalue
      by_cases hfits : decimalValue 0 ((front :: rest).takeWhile (kindOf · == .digit)) < 2 ^ 64
      · rw [hvalue, if_pos hfits] at hparse
        exact parsed_of_run hdigits rfl (if_pos hfits) hwhole hlength hparse
      · rw [hvalue, if_neg hfits, isSeparator_false (by rw [hkind]; decide),
          isAlpha_false (by rw [hkind]; decide)] at hparse
        rw [hkind] at hgivesUp
        exact hgivesUp hparse rfl (if_neg hfits)
    | separator =>
      rw [hnodigit (by rw [hkind]; decide), hkinds.2.2.1.mp hkind, isSeparator_eq] at hparse
      exact parsed_of_run (hrun hkind) rfl rfl hwhole hlength hparse
    | letter =>
      rw [hnodigit (by rw [hkind]; decide), isSeparator_false (by rw [hkind]; decide),
        hkinds.2.2.2.mp hkind, isAlpha_eq] at hparse
      exact parsed_of_run (hrun hkind) rfl rfl hwhole hlength hparse
    | other =>
      rw [hnodigit (by rw [hkind]; decide), isSeparator_false (by rw [hkind]; decide),
        isAlpha_false (by rw [hkind]; decide)] at hparse
      rw [hkind] at hgivesUp
      exact hgivesUp hparse rfl rfl

/-! ## The order -/

/-- Letters, the end, numbers, separators. -/
def rank : Option Token → Nat
  | some (.letters _) => 0
  | none => 1
  | some (.number _) => 2
  | some .separator => 3

def valueOf : Option Token → UInt64
  | some (.number value) => value
  | _ => 0

def textOf : Option Token → Bytes
  | some (.letters text) => text
  | _ => []

/-- By what they are, and numbers by their value, and letters by their text. -/
def tokenOrder : Option Token → Option Token → Ordering :=
  compareLex (compareOn rank) (compareLex (compareOn valueOf) (compareOn textOf))

instance : Std.TransCmp tokenOrder :=
  inferInstanceAs (Std.TransCmp (compareLex _ (compareLex _ _)))

/-- A stream with its end. -/
def stream (tokens : List Token) : List (Option Token) := tokens.map some ++ [none]

def streamOrder (left right : List Token) : Ordering :=
  List.compareLex tokenOrder (stream left) (stream right)

def resultOf : Ordering → Int
  | .lt => -1
  | .eq => 0
  | .gt => 1

theorem streamOrder_cons (left right : Token) (lhs rhs : List Token) :
    streamOrder (left :: lhs) (right :: rhs) =
      (tokenOrder (some left) (some right)).then (streamOrder lhs rhs) := by
  unfold streamOrder stream
  rw [map_cons, map_cons, cons_append, cons_append, List.compareLex_cons_cons]

theorem streamOrder_self (tokens : List Token) : streamOrder tokens tokens = .eq := by
  unfold streamOrder
  exact Std.ReflCmp.compare_self

/-- Streams that begin alike. -/
theorem streamOrder_append (common lhs rhs : List Token) :
    streamOrder (common ++ lhs) (common ++ rhs) = streamOrder lhs rhs := by
  induction common with
  | nil => rfl
  | cons token common ih =>
    have hself : tokenOrder (some token) (some token) = .eq := Std.ReflCmp.compare_self
    rw [cons_append, cons_append, streamOrder_cons, hself, eq_then, ih]

theorem tokenOrder_numbers (left right : UInt64) :
    tokenOrder (some (.number left)) (some (.number right)) = compare left right := by
  show Ordering.then .eq ((compare left right).then .eq) = compare left right
  rw [eq_then, then_eq]

theorem tokenOrder_letters (left right : Bytes) :
    tokenOrder (some (.letters left)) (some (.letters right)) = compare left right := by
  show Ordering.then .eq (Ordering.then .eq (compare left right)) = compare left right
  rw [eq_then, eq_then]

/-- What two tokens decide is their order. -/
theorem compareTokens_eq (left right : Token) : compareTokens left right =
      match tokenOrder (some left) (some right) with
      | .eq => none
      | order => some (resultOf order) := by
  cases left with
  | number left =>
    cases right with
    | number right =>
      rw [tokenOrder_numbers]
      unfold compareTokens
      dsimp only
      by_cases hlt : left < right
      · rw [if_pos hlt, Std.compare_eq_lt.mpr hlt]
        rfl
      · rw [if_neg hlt]
        by_cases hgt : left > right
        · rw [if_pos hgt, Std.compare_eq_gt.mpr hgt]
          rfl
        · have heq : left = right := UInt64.le_antisymm (UInt64.not_lt.mp hgt) (UInt64.not_lt.mp hlt)
          have hself : compare right right = .eq := Std.ReflCmp.compare_self
          rw [if_neg hgt, heq, hself]
    | letters right => rfl
    | separator => rfl
  | letters left =>
    cases right with
    | number right => rfl
    | letters right =>
      rw [tokenOrder_letters]
      unfold compareTokens
      dsimp only
      cases compare left right <;> rfl
    | separator => rfl
  | separator => cases right <;> rfl

/-- The order of the end and what begins with a token. -/
theorem streamOrder_end (token : Token) (tokens : List Token) :
    resultOf (streamOrder [] (token :: tokens)) = (if token.isLetters then 1 else -1) ∧
      resultOf (streamOrder (token :: tokens) []) = (if token.isLetters then -1 else 1) := by
  cases token <;> exact ⟨rfl, rfl⟩

theorem compareRounds_eq (rounds : Nat) (hrounds : lhs.length < rounds) (rhs : Bytes) :
    compareRounds rounds lhs rhs =
      some (resultOf (streamOrder (tokensOf (components lhs)) (tokensOf (components rhs)))) := by
  induction rounds generalizing lhs rhs with
  | zero => exact absurd hrounds (Nat.not_lt_zero _)
  | succ rounds ih =>
    unfold compareRounds
    cases parsed lhs with
    | ended hleft hlefts =>
      rw [hleft, hlefts]
      cases parsed rhs with
      | ended hright hrights =>
        rw [hright, hrights]
        rfl
      | next hright hrights _ =>
        rw [hright, hrights, (streamOrder_end _ _).1]
    | next hleft hlefts hshorter =>
      rw [hleft, hlefts]
      cases parsed rhs with
      | ended hright hrights =>
        rw [hright, hrights, (streamOrder_end _ _).2]
      | next hright hrights _ =>
        rw [hright, hrights]
        dsimp only
        rw [compareTokens_eq, streamOrder_cons]
        cases tokenOrder (some _) (some _) with
        | lt => rfl
        | eq =>
          exact ih (by omega) _
        | gt => rfl

/-- Versions are compared as the streams of their tokens. -/
theorem compare_eq (lhs rhs : Bytes) : VersionCompare.compare lhs rhs =
    some (resultOf (streamOrder (tokensOf (components lhs)) (tokensOf (components rhs)))) :=
  compareRounds_eq (lhs.length + 1) (Nat.lt_succ_self _) rhs

theorem resultOf_swap (order : Ordering) : resultOf order.swap = -resultOf order := by
  cases order <;> rfl

theorem notLater_iff (lhs rhs : Bytes) : NotLater lhs rhs ↔
    (streamOrder (tokensOf (components lhs)) (tokensOf (components rhs))).isLE := by
  unfold NotLater
  rw [compare_eq]
  cases streamOrder (tokensOf (components lhs)) (tokensOf (components rhs)) with
  | lt => exact iff_of_true ⟨-1, rfl, by decide⟩ rfl
  | eq => exact iff_of_true ⟨0, rfl, by decide⟩ rfl
  | gt =>
    refine iff_of_false ?_ Bool.false_ne_true
    rintro ⟨result, hresult, hle⟩
    obtain rfl := some.inj hresult
    cases hle

/-- The same components, the same result. -/
theorem compare_congr (h : components lhs' = components lhs) (rhs : Bytes) :
    VersionCompare.compare lhs' rhs = VersionCompare.compare lhs rhs := by
  rw [compare_eq, compare_eq, h]

/-! ## Numbers -/

theorem known_iff (c : Component) : Known c ↔ ∃ token, tokenOf c = some token := by
  cases c with
  | number value =>
    unfold Known tokenOf
    dsimp only
    split_ifs with h
    · exact iff_of_true h ⟨_, rfl⟩
    · exact iff_of_false h fun ⟨_, hnone⟩ => nomatch hnone
  | letters text => exact iff_of_true trivial ⟨_, rfl⟩
  | separator => exact iff_of_true trivial ⟨_, rfl⟩
  | other text => exact iff_of_false id fun ⟨_, hnone⟩ => nomatch hnone

variable {common : List Component}

/-- Behind what is known the streams go on. -/
theorem streamOrder_known (h : ∀ c ∈ common, Known c) (lhs rhs : List Component) :
    streamOrder (tokensOf (common ++ lhs)) (tokensOf (common ++ rhs)) =
      streamOrder (tokensOf lhs) (tokensOf rhs) := by
  induction common with
  | nil => rfl
  | cons c common ih =>
    obtain ⟨hc, hcommon⟩ := forall_mem_cons.mp h
    obtain ⟨token, htoken⟩ := (known_iff c).mp hc
    rw [cons_append, cons_append, tokensOf_known htoken, tokensOf_known htoken, ← ih hcommon]
    exact streamOrder_append [token] _ _

/-- What is not known ends both. -/
theorem tokensOf_notKnown (h : ¬∀ c ∈ common, Known c) (lhs rhs : List Component) :
    tokensOf (common ++ lhs) = tokensOf (common ++ rhs) := by
  induction common with
  | nil => exact absurd (forall_mem_nil _) h
  | cons c common ih =>
    rw [cons_append, cons_append]
    cases htoken : tokenOf c with
    | none => rw [tokensOf_unknown htoken, tokensOf_unknown htoken]
    | some token =>
      rw [tokensOf_known htoken, tokensOf_known htoken, ih fun hcommon => ?_]
      exact h (forall_mem_cons.mpr ⟨(known_iff c).mpr ⟨token, htoken⟩, hcommon⟩)

theorem tokenOf_number (h : n < 2 ^ 64) :
    tokenOf (.number n) = some (.number (UInt64.ofNat n)) := if_pos h

theorem tokenOf_tooLarge (h : ¬n < 2 ^ 64) : tokenOf (.number n) = none := if_neg h

/-- Two numbers are told apart rightly exactly if both fit. -/
theorem streamOrder_numbers (hne : n ≠ m) (lhs rhs : List Component) :
    resultOf (streamOrder (tokensOf (.number n :: lhs)) (tokensOf (.number m :: rhs))) =
      (if n < m then -1 else 1) ↔ n < 2 ^ 64 ∧ m < 2 ^ 64 := by
  by_cases hn : n < 2 ^ 64
  · rw [tokensOf_known (tokenOf_number hn)]
    by_cases hm : m < 2 ^ 64
    · refine iff_of_true ?_ ⟨hn, hm⟩
      have hleft : (UInt64.ofNat n).toNat = n := toNat_ofNat_of_lt' hn
      have hright : (UInt64.ofNat m).toNat = m := toNat_ofNat_of_lt' hm
      rw [tokensOf_known (tokenOf_number hm), streamOrder_cons, tokenOrder_numbers]
      by_cases hlt : n < m
      · have hless : UInt64.ofNat n < UInt64.ofNat m := by
          rw [lt_iff_toNat_lt, hleft, hright]
          exact hlt
        rw [if_pos hlt, Std.compare_eq_lt.mpr hless]
        rfl
      · have hgreater : UInt64.ofNat n > UInt64.ofNat m := by
          rw [gt_iff_lt, lt_iff_toNat_lt, hleft, hright]
          omega
        rw [if_neg hlt, Std.compare_eq_gt.mpr hgreater]
        rfl
    · have hlt : n < m := by omega
      rw [tokensOf_unknown (tokenOf_tooLarge hm), (streamOrder_end _ _).2, if_pos hlt]
      exact iff_of_false (nomatch ·) fun h => hm h.2
  · rw [tokensOf_unknown (tokenOf_tooLarge hn)]
    refine iff_of_false ?_ fun h => hn h.1
    by_cases hm : m < 2 ^ 64
    · have hlt : ¬n < m := by omega
      rw [tokensOf_known (tokenOf_number hm), (streamOrder_end _ _).1, if_neg hlt]
      exact (nomatch ·)
    · rw [tokensOf_unknown (tokenOf_tooLarge hm), streamOrder_self]
      split <;> decide

theorem byValue_iff (h : FirstDiffer lhs rhs common n m) :
    VersionCompare.compare lhs rhs = some (if n < m then -1 else 1) ↔
      (∀ c ∈ common, Known c) ∧ n < 2 ^ 64 ∧ m < 2 ^ 64 := by
  obtain ⟨left, hleft⟩ := h.left
  obtain ⟨right, hright⟩ := h.right
  rw [compare_eq, some_inj, ← hleft, ← hright, append_assoc, append_assoc,
    singleton_append, singleton_append]
  by_cases hknown : ∀ c ∈ common, Known c
  · rw [streamOrder_known hknown, streamOrder_numbers h.differ]
    exact (and_iff_right hknown).symm
  · rw [tokensOf_notKnown hknown (.number n :: left) (.number m :: right), streamOrder_self]
    refine iff_of_false ?_ fun hall => hknown hall.1
    split <;> decide

/--
  The comparison is an order that does not see whitespace and the spelling of separators; it sees
  the value of a number in which versions first differ exactly if everything up to it is known.
-/
theorem comparesSoundly_iff (lhs rhs : Bytes) :
    ComparesSoundly lhs rhs ↔ KnownUpToNumbers lhs rhs := by
  constructor
  · intro h common n m hdiffer
    exact (byValue_iff hdiffer).mp (h.byValue common n m hdiffer)
  · intro h
    refine ⟨⟨_, compare_eq lhs rhs⟩, ?_, ?_, ?_, ?_, ?_⟩
    · rw [compare_eq, compare_eq, map_some, ← resultOf_swap]
      unfold streamOrder
      rw [← Std.OrientedCmp.eq_swap]
    · intro third hfirst hsecond
      rw [notLater_iff] at hfirst hsecond ⊢
      unfold streamOrder at hfirst hsecond ⊢
      exact Std.TransCmp.isLE_trans hfirst hsecond
    · rintro before gap after rfl hgap hcut
      refine compare_congr ?_ rhs
      by_cases hne : gap = []
      · rw [hne, append_nil]
      · rw [components_gap hne hgap, hcut]
    · rintro before run run' after rfl hne hne' hrun hrun'
      refine compare_congr ?_ rhs
      rw [append_assoc, append_assoc]
      exact components_respelled hne' hne hrun' hrun before after
    · intro common n m hdiffer
      exact (byValue_iff hdiffer).mpr (h common n m hdiffer)

/-- The least number that does not fit, and 1. -/
theorem comparesSoundly_tooLarge : ¬ComparesSoundly (ascii "18446744073709551616") (ascii "1") := by
  intro h
  have hdiffer : FirstDiffer (ascii "18446744073709551616") (ascii "1") [] 18446744073709551616 1 :=
    ⟨⟨[], by decide +kernel⟩, ⟨[], by decide +kernel⟩, by decide⟩
  have hbyValue := h.byValue [] 18446744073709551616 1 hdiffer
  have hcode : VersionCompare.compare (ascii "18446744073709551616") (ascii "1") = some (-1) := by
    decide +kernel
  rw [hcode] at hbyValue
  cases hbyValue

end WinCommander.Utility
