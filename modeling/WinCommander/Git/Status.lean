/-
  `git status --porcelain=v1 -z` and its parser.

  A record is `XY path NUL`, followed by `original NUL` exactly when `X` or `Y` is `R` or `C`. The
  parser looks for the second field by the state it has classified the pair as, which is another
  condition: `porcelain_inverts_iff` says for which records the two agree.
-/
import WinCommander.Library.Numeral

namespace WinCommander.Git

open Library List

inductive GitFileState where
  | unmodified | modified | added | deleted | renamed | untracked | ignored | conflicted
deriving DecidableEq

structure GitStatusEntry where
  path : Bytes
  state : GitFileState := .unmodified
  originalPath : Option Bytes := none
deriving DecidableEq

/-! ## Classification -/

def letter (c : Char) : UInt8 := c.toUInt8

def isConflictPair (index worktree : UInt8) : Bool :=
  index == letter 'U' || worktree == letter 'U' || (index == letter 'A' && worktree == letter 'A') ||
    (index == letter 'D' && worktree == letter 'D')

/-- The first `switch`, none for its `default`. -/
def worktreeState (worktree : UInt8) : Option GitFileState :=
  if worktree = letter 'M' then some .modified
  else if worktree = letter 'D' then some .deleted
  else if worktree = letter 'A' then some .added
  else if worktree = letter 'R' then some .renamed
  else none

/-- The second `switch`; a copy is a new path in the tree. -/
def indexState (index : UInt8) : GitFileState :=
  if index = letter 'M' then .modified
  else if index = letter 'A' then .added
  else if index = letter 'D' then .deleted
  else if index = letter 'R' then .renamed
  else if index = letter 'C' then .added
  else .unmodified

def classifyGitStatusCode (index worktree : UInt8) : GitFileState :=
  if index = letter '?' ∧ worktree = letter '?' then .untracked
  else if index = letter '!' ∧ worktree = letter '!' then .ignored
  else if isConflictPair index worktree then .conflicted
  else (worktreeState worktree).getD (indexState index)

/-! ## The parser -/

/-- What stands in front of the first NUL and what stands behind it. -/
def splitTerminator : Bytes → Option (Bytes × Bytes)
  | [] => none
  | byte :: rest =>
    if byte = 0 then some ([], rest)
    else (splitTerminator rest).map fun split => (byte :: split.1, split.2)

theorem splitTerminator_length {output field rest : Bytes}
    (h : splitTerminator output = some (field, rest)) : rest.length < output.length := by
  induction output generalizing field with
  | nil => cases h
  | cons byte output ih =>
    unfold splitTerminator at h
    split_ifs at h
    · cases h
      exact Nat.lt_succ_self _
    · rw [Option.map_eq_some_iff] at h
      obtain ⟨split, hsplit, heq⟩ := h
      cases heq
      exact Nat.lt_succ_of_lt (ih hsplit)

def parseGitPorcelainV1 (output : Bytes) : Option (List GitStatusEntry) :=
  if output = [] then some []
  else
    match _hrecord : splitTerminator output with
    | none => none
    | some (record, rest) =>
      if record = [] then parseGitPorcelainV1 rest
      else
        match record with
        | index :: worktree :: blank :: path =>
          if path = [] ∨ blank ≠ letter ' ' then none
          else
            let state := classifyGitStatusCode index worktree
            if state = .renamed then
              match _horiginal : splitTerminator rest with
              | none => none
              | some (original, rest) =>
                (parseGitPorcelainV1 rest).map ({ path, state, originalPath := some original } :: ·)
            else (parseGitPorcelainV1 rest).map ({ path, state } :: ·)
        | _ => none
termination_by output.length
decreasing_by
  all_goals
    have := splitTerminator_length _hrecord
  · exact this
  · exact Nat.lt_trans (splitTerminator_length _horiginal) this
  · exact this

theorem splitTerminator_append {field : Bytes} (hfield : 0 ∉ field) (rest : Bytes) :
    splitTerminator (field ++ 0 :: rest) = some (field, rest) := by
  induction field with
  | nil => rfl
  | cons byte field ih =>
    obtain ⟨hbyte, hfield⟩ := ne_and_not_mem_of_not_mem_cons hfield
    rw [cons_append, splitTerminator, if_neg hbyte.symm, ih hfield]
    rfl

theorem splitTerminator_open {field : Bytes} (hfield : 0 ∉ field) : splitTerminator field = none := by
  induction field with
  | nil => rfl
  | cons byte field ih =>
    obtain ⟨hbyte, hfield⟩ := ne_and_not_mem_of_not_mem_cons hfield
    rw [splitTerminator, if_neg hbyte.symm, ih hfield]
    rfl

theorem parse_nil : parseGitPorcelainV1 [] = some [] := by
  rw [parseGitPorcelainV1]
  rfl

/-- A record that has no end. -/
theorem parse_open {output : Bytes} (hne : output ≠ []) (hopen : 0 ∉ output) :
    parseGitPorcelainV1 output = none := by
  rw [parseGitPorcelainV1, if_neg hne]
  split
  · rfl
  · next hsplit =>
      rw [splitTerminator_open hopen] at hsplit
      cases hsplit

/-! ## Git's side -/

/-- The pairs for which git writes where the entry came from. -/
def movesOrCopies (index worktree : UInt8) : Prop :=
  index = letter 'R' ∨ index = letter 'C' ∨ worktree = letter 'R' ∨ worktree = letter 'C'

/-- A path as git writes it with `-z`. -/
def IsPath (path : Bytes) : Prop := path ≠ [] ∧ 0 ∉ path

instance (index worktree : UInt8) : Decidable (movesOrCopies index worktree) :=
  inferInstanceAs (Decidable (_ ∨ _))

instance (path : Bytes) : Decidable (IsPath path) := inferInstanceAs (Decidable (_ ∧ _))

structure StatusRecord where
  index : UInt8
  worktree : UInt8
  path : Bytes
  originalPath : Option Bytes
  letters : index ≠ 0 ∧ worktree ≠ 0
  path_isPath : IsPath path
  original_isPath : ∀ original ∈ originalPath, IsPath original
  original_iff : originalPath.isSome = true ↔ movesOrCopies index worktree

namespace StatusRecord

/-- `XY path NUL`. -/
def head (record : StatusRecord) : Bytes :=
  record.index :: record.worktree :: letter ' ' :: (record.path ++ [0])

/-- `original NUL`, or nothing. -/
def tail (record : StatusRecord) : Bytes := record.originalPath.elim [] (· ++ [0])

def encode (record : StatusRecord) : Bytes := record.head ++ record.tail

def state (record : StatusRecord) : GitFileState := classifyGitStatusCode record.index record.worktree

/-- What the parser has to say of a record. -/
def entry (record : StatusRecord) : GitStatusEntry where
  path := record.path
  state := record.state
  originalPath := record.originalPath

/-- The original path, if there is one, belongs to a pair that reads as a rename. -/
def Renames (record : StatusRecord) : Prop :=
  record.originalPath.isSome = true → record.worktree = letter 'R' ∧ record.index ≠ letter 'U' ∨
      record.index = letter 'R' ∧ record.worktree ≠ letter 'M' ∧ record.worktree ≠ letter 'D' ∧
        record.worktree ≠ letter 'A' ∧ record.worktree ≠ letter 'U'

instance (record : StatusRecord) : Decidable record.Renames := inferInstanceAs (Decidable (_ → _))

end StatusRecord

def encodeAll (records : List StatusRecord) : Bytes := records.flatMap StatusRecord.encode

/-- The parser gives the records back, and nothing of an output that ends inside of one. -/
structure Inverts (records : List StatusRecord) : Prop where
  complete : ∃ entries, parseGitPorcelainV1 (encodeAll records) = some entries ∧
    entries.map (·.path) = records.map (·.path)
  truncated : ∀ before record after part, records = before ++ record :: after →
    part <+: record.encode → part ≠ [] → part ≠ record.encode →
    parseGitPorcelainV1 (encodeAll before ++ part) = none

/-! ## One record -/

theorem classify_renamed_iff (index worktree : UInt8) :
    classifyGitStatusCode index worktree = .renamed ↔ worktree = letter 'R' ∧ index ≠ letter 'U' ∨
        index = letter 'R' ∧ worktree ≠ letter 'M' ∧ worktree ≠ letter 'D' ∧
          worktree ≠ letter 'A' ∧ worktree ≠ letter 'U' := by
  have hR : letter 'R' = 82 := rfl
  have hU : letter 'U' = 85 := rfl
  have hM : letter 'M' = 77 := rfl
  have hA : letter 'A' = 65 := rfl
  have hD : letter 'D' = 68 := rfl
  have hC : letter 'C' = 67 := rfl
  have hquestion : letter '?' = 63 := rfl
  have hexclamation : letter '!' = 33 := rfl
  unfold classifyGitStatusCode isConflictPair
  split
  · grind
  split
  · grind
  split
  · grind
  · unfold worktreeState indexState
    split
    · grind
    split
    · grind
    split
    · grind
    split
    · grind
    · grind

namespace StatusRecord

variable (record : StatusRecord)

theorem renames_iff : record.Renames ↔ (record.originalPath.isSome → record.state = .renamed) := by
  unfold Renames state
  rw [classify_renamed_iff]

/-- Only a moved entry reads as a rename. -/
theorem original_of_renamed (h : record.state = .renamed) : record.originalPath.isSome := by
  rw [record.original_iff]
  unfold state at h
  rw [classify_renamed_iff] at h
  rcases h with h | h
  · exact .inr (.inr (.inl h.1))
  · exact .inl h.1

theorem head_split (rest : Bytes) : splitTerminator (record.head ++ rest) =
      some (record.index :: record.worktree :: letter ' ' :: record.path, rest) := by
  have hfield : (0 : UInt8) ∉ record.index :: record.worktree :: letter ' ' :: record.path := by
    simp only [mem_cons, not_or]
    exact ⟨record.letters.1.symm, record.letters.2.symm, by decide, record.path_isPath.2⟩
  have h := splitTerminator_append hfield rest
  rw [← h]
  simp [head]

theorem parse_head (rest : Bytes) : parseGitPorcelainV1 (record.head ++ rest) =
      if record.state = .renamed then
        match splitTerminator rest with
        | none => none
        | some (original, rest) =>
          (parseGitPorcelainV1 rest).map (⟨record.path, record.state, some original⟩ :: ·)
      else (parseGitPorcelainV1 rest).map (⟨record.path, record.state, none⟩ :: ·) := by
  have hne : record.head ++ rest ≠ [] := by simp [head]
  rw [parseGitPorcelainV1, if_neg hne]
  split
  · next hsplit =>
      rw [head_split] at hsplit
      cases hsplit
  · next split hsplit =>
      rw [head_split] at hsplit
      cases hsplit
      have hpath : ¬(record.path = [] ∨ letter ' ' ≠ letter ' ') := by
        simp [record.path_isPath.1]
      rw [if_neg (cons_ne_nil _ _)]
      dsimp only
      rw [if_neg hpath]
      unfold state
      split
      · split <;> next hsplit => rw [hsplit]
      · rfl

theorem original_none_of_not_renamed (hrenames : record.Renames) (h : record.state ≠ .renamed) :
    record.originalPath = none := by
  rw [renames_iff] at hrenames
  exact Option.not_isSome_iff_eq_none.mp fun hsome => h (hrenames hsome)

/-- A whole record in front of more output. -/
theorem parse_encode (hrenames : record.Renames) (rest : Bytes) :
    parseGitPorcelainV1 (record.encode ++ rest) =
      (parseGitPorcelainV1 rest).map (record.entry :: ·) := by
  unfold encode
  rw [append_assoc, parse_head]
  by_cases hstate : record.state = .renamed
  · obtain ⟨original, horiginal⟩ := Option.isSome_iff_exists.mp (record.original_of_renamed hstate)
    have hpath := record.original_isPath original horiginal
    have hsplit : splitTerminator (record.tail ++ rest) = some (original, rest) := by
      unfold tail
      rw [horiginal]
      have h := splitTerminator_append hpath.2 rest
      simpa using h
    rw [if_pos hstate, hsplit]
    unfold entry
    rw [horiginal]
  · have horiginal := record.original_none_of_not_renamed hrenames hstate
    have htail : record.tail = [] := by
      unfold tail
      rw [horiginal]
      rfl
    rw [if_neg hstate, htail, nil_append]
    unfold entry
    rw [horiginal]

end StatusRecord

/-- In front of the terminator there is no NUL. -/
theorem zero_notMem_of_part {field part : Bytes} (hfield : 0 ∉ field)
    (hpart : part <+: field ++ [0]) (hne : part ≠ field ++ [0]) : 0 ∉ part := by
  rcases prefix_concat_iff.mp hpart with heq | hpart
  · exact absurd heq hne
  · exact fun hmem => hfield (hpart.subset hmem)

namespace StatusRecord

variable (record : StatusRecord)

/-- The output ends after the path, or inside of the original one. -/
theorem parse_part_tail (hrenames : record.Renames) {part : Bytes} (hpart : part <+: record.tail)
    (hstrict : part ≠ record.tail) : parseGitPorcelainV1 (record.head ++ part) = none := by
  have horiginal : record.originalPath ≠ none := by
    intro hnone
    unfold tail at hpart hstrict
    rw [hnone] at hpart hstrict
    exact hstrict (prefix_nil.mp hpart)
  obtain ⟨original, horiginal⟩ := Option.ne_none_iff_exists'.mp horiginal
  have hstate : record.state = .renamed := record.renames_iff.mp hrenames (by rw [horiginal]; rfl)
  have hopen : 0 ∉ part := by
    unfold tail at hpart hstrict
    rw [horiginal] at hpart hstrict
    exact zero_notMem_of_part (record.original_isPath original horiginal).2 hpart hstrict
  rw [parse_head, if_pos hstate, splitTerminator_open hopen]

/-- The output ends inside of the record. -/
theorem parse_part (hrenames : record.Renames) {part : Bytes} (hpart : part <+: record.encode)
    (hne : part ≠ []) (hstrict : part ≠ record.encode) : parseGitPorcelainV1 part = none := by
  have htail : ∀ rest, part = record.head ++ rest → parseGitPorcelainV1 part = none := by
    rintro rest rfl
    unfold encode at hpart hstrict
    rw [prefix_append_right_inj] at hpart
    exact record.parse_part_tail hrenames hpart fun h => hstrict (by rw [h])
  rcases prefix_or_prefix_of_prefix hpart (prefix_append record.head record.tail) with
    hhead | ⟨rest, hrest⟩
  · by_cases heq : part = record.head
    · exact htail [] (by rw [heq, append_nil])
    · have hfield : (0 : UInt8) ∉ record.index :: record.worktree :: letter ' ' :: record.path := by
        simp only [mem_cons, not_or]
        exact ⟨record.letters.1.symm, record.letters.2.symm, by decide, record.path_isPath.2⟩
      exact parse_open hne (zero_notMem_of_part hfield hhead heq)
  · exact htail rest hrest.symm

end StatusRecord

/-! ## All records -/

theorem parse_encodeAll {records : List StatusRecord} (hrenames : ∀ record ∈ records, record.Renames)
    (rest : Bytes) : parseGitPorcelainV1 (encodeAll records ++ rest) =
      (parseGitPorcelainV1 rest).map (records.map StatusRecord.entry ++ ·) := by
  induction records with
  | nil => simp [encodeAll]
  | cons record records ih =>
    obtain ⟨hrecord, hrecords⟩ := forall_mem_cons.mp hrenames
    have hcons : encodeAll (record :: records) = record.encode ++ encodeAll records := rfl
    rw [hcons, append_assoc, record.parse_encode hrecord, ih hrecords, Option.map_map]
    rfl

theorem inverts_of_renames {records : List StatusRecord}
    (hrenames : ∀ record ∈ records, record.Renames) : Inverts records where
  complete := by
    have h := parse_encodeAll hrenames []
    rw [append_nil, parse_nil, Option.map_some, append_nil] at h
    refine ⟨_, h, ?_⟩
    rw [map_map]
    rfl
  truncated before record after part hrecords hpart hne hstrict := by
    subst hrecords
    have hbefore : ∀ r ∈ before, r.Renames := fun r hr => hrenames r (mem_append_left _ hr)
    have hrecord := hrenames record (mem_append_right _ mem_cons_self)
    rw [parse_encodeAll hbefore, record.parse_part hrecord hpart hne hstrict]
    rfl

/-- An original path that is not expected: the output that ends in front of it is accepted. -/
theorem not_inverts {before after : List StatusRecord} {record : StatusRecord}
    (hbefore : ∀ r ∈ before, r.Renames) (hrecord : ¬record.Renames) :
    ¬Inverts (before ++ record :: after) := by
  intro hinverts
  rw [record.renames_iff, Classical.not_imp] at hrecord
  obtain ⟨horiginal, hstate⟩ := hrecord
  obtain ⟨original, horiginal⟩ := Option.isSome_iff_exists.mp horiginal
  have hstrict : record.head ≠ record.encode := by
    unfold StatusRecord.encode StatusRecord.tail
    rw [horiginal]
    simp
  have htruncated := hinverts.truncated before record after record.head rfl
    (prefix_append _ _) (by simp [StatusRecord.head]) hstrict
  have hparse := record.parse_head []
  rw [append_nil, if_neg hstate, parse_nil] at hparse
  rw [parse_encodeAll hbefore, hparse] at htruncated
  cases htruncated

theorem renames_of_inverts {before records : List StatusRecord}
    (hbefore : ∀ r ∈ before, r.Renames) (hinverts : Inverts (before ++ records)) :
    ∀ record ∈ records, record.Renames := by
  induction records generalizing before with
  | nil => exact fun _ h => absurd h not_mem_nil
  | cons record records ih =>
    have hrecord : record.Renames := by
      by_contra h
      exact not_inverts hbefore h hinverts
    have hnext : ∀ r ∈ before ++ [record], r.Renames := by
      intro r hr
      rcases mem_append.mp hr with hr | hr
      · exact hbefore r hr
      · rw [mem_singleton.mp hr]
        exact hrecord
    rw [append_cons] at hinverts
    exact forall_mem_cons.mpr ⟨hrecord, ih hnext hinverts⟩

/-- The parser inverts git's output exactly when every original path belongs to a rename. -/
theorem porcelain_inverts_iff (records : List StatusRecord) :
    Inverts records ↔ ∀ record ∈ records, record.Renames := by
  constructor
  · intro hinverts
    have hnone : ∀ r ∈ ([] : List StatusRecord), r.Renames := fun _ h => absurd h not_mem_nil
    exact renames_of_inverts hnone hinverts
  · exact inverts_of_renames

/-- A file that was renamed in the index and edited since. -/
def renamedAndEdited : StatusRecord where
  index := letter 'R'
  worktree := letter 'M'
  path := [97]
  originalPath := some [98]
  letters := by decide
  path_isPath := by decide
  original_isPath := by decide
  original_iff := by decide

theorem porcelain_shifts : ¬∀ records, Inverts records := by
  intro h
  have hrecord : ¬renamedAndEdited.Renames := by decide
  have hnone : ∀ r ∈ ([] : List StatusRecord), r.Renames := fun _ h => absurd h not_mem_nil
  exact not_inverts hnone hrecord (h [renamedAndEdited])

end WinCommander.Git
