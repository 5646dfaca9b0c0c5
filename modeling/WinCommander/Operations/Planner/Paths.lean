/-
  `OperationPlanner`: the path functions.

  Each function is the source's, on bytes. What they mean is said in terms of the names a
  path resolves to: `NormalizeAbsolutePath` renders them, so two normalised paths are equal
  exactly when the names are, `JoinPath` goes one component down, and `SamePath` and
  `IsDescendant` are equality and proper prefix of the names, folded where case is ignored.
-/
import WinCommander.Operations.OperationPlan
import WinCommander.Library.Path

namespace WinCommander.Operations.Planner

open Library List Bool Path
open Library.Path (resolve render descend fold)

structure OperationPlanningPath where
  providerId : Bytes
  absolutePath : Bytes
deriving DecidableEq

/-- `NormalizeAbsolutePath`: its loop takes the components one by one. -/
def normalizeAbsolutePath (path : Bytes) : Bytes := render (resolve path)

/-- `TrimTrailingSlashes`: all but a first byte. -/
def trimTrailingSlashes (path : Bytes) : Bytes :=
  let trimmed := path.rdropWhile (· == slash)
  if trimmed = [] then path.take 1 else trimmed

def parentPath (path : Bytes) : Bytes :=
  let trimmed := trimTrailingSlashes path
  if trimmed = [slash] then trimmed
  else
    -- Up to the last slash, and with it; without a slash, `rfind` finds nothing.
    let upTo := trimmed.rdropWhile (· != slash)
    if upTo = [slash] then [slash]
    else if upTo = [] then trimmed
    else upTo.dropLast

def baseName (path : Bytes) : Bytes :=
  let trimmed := trimTrailingSlashes path
  if trimmed = [slash] then [] else trimmed.rtakeWhile (· != slash)

def joinPath (directory name : Bytes) : Bytes :=
  let result := trimTrailingSlashes directory
  if result = [slash] then result ++ name else result ++ slash :: name

def foldASCII (value : Bytes) : Bytes := fold value

def containsNonASCII (value : Bytes) : Bool := value.any (0x80 ≤ ·)

/-- A normalised path as `SamePath`, `IsDescendant` and the destination set compare it. -/
def comparablePath (caseSensitive : Bool) (path : Bytes) : Bytes :=
  if caseSensitive then normalizeAbsolutePath path else foldASCII (normalizeAbsolutePath path)

def samePath (lhs rhs : OperationPlanningPath) (caseSensitive : Bool) : Bool :=
  lhs.providerId == rhs.providerId &&
    comparablePath caseSensitive lhs.absolutePath == comparablePath caseSensitive rhs.absolutePath

def isDescendant (ancestor candidate : OperationPlanningPath) (caseSensitive : Bool) : Bool :=
  let above := comparablePath caseSensitive ancestor.absolutePath
  let below := comparablePath caseSensitive candidate.absolutePath
  ancestor.providerId == candidate.providerId &&
    if above = [slash] then below != [slash]
    else above.length < below.length && above.isPrefixOf below &&
      below[above.length]? == some slash

namespace OperationPlanningPath

/-- `Key`. -/
def key (path : OperationPlanningPath) : Bytes := path.providerId ++ 0 :: path.absolutePath

def normalized (path : OperationPlanningPath) : OperationPlanningPath :=
  ⟨path.providerId, normalizeAbsolutePath path.absolutePath⟩

/-- `ItemKey`. -/
def itemKey (path : OperationPlanningPath) : Bytes := path.normalized.key

/-- The path of the parent, as the planner builds it. -/
def parent (path : OperationPlanningPath) : OperationPlanningPath :=
  ⟨path.providerId, parentPath path.absolutePath⟩

/-- An absolute path of a provider, both without NUL: what a plan holds. -/
structure Proper (path : OperationPlanningPath) : Prop where
  identity : isValidIdentity path.providerId = true
  path : isValidAbsolutePath path.absolutePath = true

end OperationPlanningPath

/-! ## Absolute paths -/

variable {path : Bytes}

theorem isValidAbsolutePath_iff :
    isValidAbsolutePath path ↔ (∃ rest, path = slash :: rest) ∧ 0 ∉ path := by
  unfold isValidAbsolutePath
  rw [and_eq_true, beq_iff_eq, not_eq_true', contains_eq_mem, decide_eq_false_iff_not]
  refine and_congr_left fun _ => ?_
  cases path with
  | nil => exact ⟨fun h => (nomatch h), fun ⟨_, h⟩ => nomatch h⟩
  | cons b rest =>
    constructor
    · intro h
      exact ⟨rest, by rw [Option.some.inj h]⟩
    · rintro ⟨tail, h⟩
      rw [(cons.inj h).1]
      rfl

theorem isValidAbsolutePath_root : isValidAbsolutePath [slash] := by decide

theorem trimTrailingSlashes_split (path : Bytes) :
    ∃ n, path = path.rdropWhile (· == slash) ++ replicate n slash := by
  refine ⟨(path.rtakeWhile (· == slash)).length, ?_⟩
  have hall : path.rtakeWhile (· == slash) =
      replicate (path.rtakeWhile (· == slash)).length slash := by
    refine eq_replicate_iff.mpr ⟨rfl, fun b hb => ?_⟩
    have hslash := mem_rtakeWhile_imp hb
    exact eq_of_beq hslash
  rw [← hall]
  exact (rdropWhile_append_rtakeWhile ..).symm

theorem trimTrailingSlashes_valid (h : isValidAbsolutePath path) :
    isValidAbsolutePath (trimTrailingSlashes path) := by
  obtain ⟨⟨rest, rfl⟩, hnul⟩ := isValidAbsolutePath_iff.mp h
  unfold trimTrailingSlashes
  dsimp only
  split
  · exact isValidAbsolutePath_root
  · next hne =>
      obtain ⟨n, hsplit⟩ := trimTrailingSlashes_split (slash :: rest)
      cases htrim : (slash :: rest).rdropWhile (· == slash) with
      | nil => exact absurd htrim hne
      | cons b more =>
        rw [htrim] at hsplit
        refine isValidAbsolutePath_iff.mpr ⟨⟨more, ?_⟩, fun hmem => hnul ?_⟩
        · rw [(cons.inj hsplit).1]
        · rw [hsplit]
          exact mem_append_left _ hmem

theorem resolve_replicate (path : Bytes) (n : Nat) :
    resolve (path ++ replicate n slash) = resolve path := by
  induction n with
  | zero => rw [replicate_zero, append_nil]
  | succ n ih => rw [replicate_succ', ← append_assoc, resolve_slash, ih]

theorem resolve_trimTrailingSlashes (h : isValidAbsolutePath path) :
    resolve (trimTrailingSlashes path) = resolve path := by
  obtain ⟨⟨rest, rfl⟩, -⟩ := isValidAbsolutePath_iff.mp h
  obtain ⟨n, hsplit⟩ := trimTrailingSlashes_split (slash :: rest)
  unfold trimTrailingSlashes
  dsimp only
  split
  · next hnil =>
      rw [hnil, nil_append] at hsplit
      rw [hsplit]
      have hroot : resolve (replicate n slash) = resolve [] := resolve_replicate [] n
      rw [hroot, ← hsplit]
      rfl
  · conv_rhs => rw [hsplit]
    rw [resolve_replicate]

theorem not_mem_baseName (path : Bytes) : slash ∉ baseName path := by
  unfold baseName
  dsimp only
  split
  · exact not_mem_nil
  · intro hmem
    have hne := mem_rtakeWhile_imp hmem
    cases hne

theorem resolve_joinPath {directory name : Bytes} (h : isValidAbsolutePath directory)
    (hname : slash ∉ name) :
    resolve (joinPath directory name) = descend (resolve directory) name := by
  rw [← resolve_trimTrailingSlashes h]
  unfold joinPath
  dsimp only
  split
  · next hroot =>
      rw [hroot]
      exact resolve_child [] hname
  · exact resolve_child _ hname

theorem not_mem_nul_baseName (h : isValidAbsolutePath path) : 0 ∉ baseName path := by
  have htrim := (isValidAbsolutePath_iff.mp (trimTrailingSlashes_valid h)).2
  unfold baseName
  dsimp only
  split
  · exact not_mem_nil
  · intro hmem
    exact htrim (IsSuffix.subset (rtakeWhile_suffix ..) hmem)

theorem joinPath_valid {directory name : Bytes} (h : isValidAbsolutePath directory)
    (hname : 0 ∉ name) : isValidAbsolutePath (joinPath directory name) := by
  obtain ⟨⟨rest, heq⟩, hnul⟩ := isValidAbsolutePath_iff.mp (trimTrailingSlashes_valid h)
  unfold joinPath
  dsimp only
  rw [heq] at hnul ⊢
  split
  · refine isValidAbsolutePath_iff.mpr ⟨⟨rest ++ name, rfl⟩, ?_⟩
    exact fun hmem => (mem_append.mp hmem).elim hnul hname
  · refine isValidAbsolutePath_iff.mpr ⟨⟨rest ++ slash :: name, rfl⟩, fun hmem => ?_⟩
    rcases mem_append.mp hmem with hmem | hmem
    · exact hnul hmem
    · rcases mem_cons.mp hmem with hzero | hmem
      · cases hzero
      · exact hname hmem

theorem parentPath_valid (h : isValidAbsolutePath path) :
    isValidAbsolutePath (parentPath path) := by
  have htrim := trimTrailingSlashes_valid h
  obtain ⟨-, hnul⟩ := isValidAbsolutePath_iff.mp htrim
  unfold parentPath
  dsimp only
  split
  · exact htrim
  · split
    · exact isValidAbsolutePath_root
    · split
      · exact htrim
      · next hroot hnil =>
          -- What is left starts the trimmed path, and its last byte is not its first.
          obtain ⟨⟨rest, heq⟩, -⟩ := isValidAbsolutePath_iff.mp htrim
          have hpre := rdropWhile_prefix (fun b : UInt8 => b != slash)
            (trimTrailingSlashes path)
          generalize (trimTrailingSlashes path).rdropWhile (fun b : UInt8 => b != slash) = upTo at *
          cases upTo with
          | nil => exact absurd rfl hnil
          | cons b more =>
            cases more with
            | nil =>
              rw [heq] at hpre
              exact absurd (by rw [(cons_prefix_cons.mp hpre).1]) hroot
            | cons c more =>
              refine isValidAbsolutePath_iff.mpr ⟨⟨(c :: more).dropLast, ?_⟩, fun hmem => hnul ?_⟩
              · rw [heq] at hpre
                rw [(cons_prefix_cons.mp hpre).1]
                rfl
              · exact hpre.subset (mem_of_mem_dropLast hmem)

/-! ## Normalised paths -/

/-- The names of a path as the comparisons read them. -/
def names (caseSensitive : Bool) (path : Bytes) : List Bytes :=
  if caseSensitive then resolve path else (resolve path).map fold

variable (caseSensitive : Bool)

theorem names_isName (path : Bytes) : ∀ n ∈ names caseSensitive path, Path.IsName n := by
  unfold names
  split
  · exact resolve_names path
  · exact map_fold_names (resolve_names path)

theorem comparablePath_eq (path : Bytes) :
    comparablePath caseSensitive path = render (names caseSensitive path) := by
  unfold comparablePath names
  split
  · rfl
  · exact fold_render _

theorem comparablePath_inj {a b : Bytes} :
    comparablePath caseSensitive a = comparablePath caseSensitive b ↔
      names caseSensitive a = names caseSensitive b := by
  rw [comparablePath_eq, comparablePath_eq]
  constructor
  · exact render_injective (names_isName _ _) (names_isName _ _)
  · exact congrArg render

theorem normalizeAbsolutePath_inj {a b : Bytes} :
    normalizeAbsolutePath a = normalizeAbsolutePath b ↔ resolve a = resolve b :=
  comparablePath_inj true

theorem samePath_iff {lhs rhs : OperationPlanningPath} {caseSensitive : Bool} :
    samePath lhs rhs caseSensitive ↔ lhs.providerId = rhs.providerId ∧
      names caseSensitive lhs.absolutePath = names caseSensitive rhs.absolutePath := by
  unfold samePath
  rw [and_eq_true, beq_iff_eq, beq_iff_eq, comparablePath_inj]

theorem startsWith_slash_iff {above below : Bytes} :
    (decide (above.length < below.length) && above.isPrefixOf below &&
      below[above.length]? == some slash) ↔ ∃ rest, below = above ++ slash :: rest := by
  constructor
  · intro h
    rw [and_eq_true, and_eq_true, isPrefixOf_iff_prefix, beq_iff_eq] at h
    obtain ⟨⟨-, tail, rfl⟩, hslash⟩ := h
    rw [List.getElem?_append_right (Nat.le_refl _), Nat.sub_self] at hslash
    cases tail with
    | nil => exact absurd hslash (by simp)
    | cons b rest => exact ⟨rest, by rw [Option.some.inj hslash]⟩
  · rintro ⟨rest, rfl⟩
    simp

/-- Inside a directory: properly below it. -/
theorem isDescendant_iff {ancestor candidate : OperationPlanningPath} {caseSensitive : Bool} :
    isDescendant ancestor candidate caseSensitive ↔ ancestor.providerId = candidate.providerId ∧
        names caseSensitive ancestor.absolutePath <+: names caseSensitive candidate.absolutePath ∧
        names caseSensitive ancestor.absolutePath ≠ names caseSensitive candidate.absolutePath := by
  have ha := names_isName caseSensitive ancestor.absolutePath
  have hb := names_isName caseSensitive candidate.absolutePath
  unfold isDescendant
  rw [and_eq_true, beq_iff_eq, comparablePath_eq, comparablePath_eq]
  refine and_congr_right fun _ => ?_
  split
  · next hroot =>
      have hnil := (render_eq_root ha).mp hroot
      rw [bne_iff_ne, ne_eq, render_eq_root hb, hnil]
      exact ⟨fun h => ⟨ nil_prefix, fun heq => h heq.symm⟩, fun h heq => h.2 heq.symm⟩
  · next hroot =>
      have hne : names caseSensitive ancestor.absolutePath ≠ [] :=
        fun hnil => hroot ((render_eq_root ha).mpr hnil)
      rw [startsWith_slash_iff, render_inside ha hb hne]

/-! ## Keys -/

theorem split_at_nul {a b c d : Bytes} (ha : 0 ∉ a) (hc : 0 ∉ c) (h : a ++ 0 :: b = c ++ 0 :: d) :
    a = c ∧ b = d := by
  induction a generalizing c with
  | nil =>
    cases c with
    | nil => exact ⟨rfl, (cons.inj h).2⟩
    | cons x c => exact absurd ((cons.inj h).1 ▸ mem_cons_self) hc
  | cons x a ih =>
    cases c with
    | nil => exact absurd ((cons.inj h).1.symm ▸ mem_cons_self) ha
    | cons y c =>
      obtain ⟨rfl, htail⟩ := cons.inj h
      obtain ⟨rfl, rfl⟩ := ih (fun hm => ha (mem_cons_of_mem _ hm))
        (fun hm => hc (mem_cons_of_mem _ hm)) htail
      exact ⟨rfl, rfl⟩

namespace OperationPlanningPath

theorem Proper.nul_not_mem {path : OperationPlanningPath} (h : path.Proper) :
    0 ∉ path.providerId := by
  have hid := h.identity
  simpa using (and_eq_true_iff.mp hid).2

variable {a b : OperationPlanningPath}

theorem key_inj (ha : a.Proper) (hb : b.Proper) (h : a.key = b.key) : a = b := by
  obtain ⟨hid, hpath⟩ := split_at_nul ha.nul_not_mem hb.nul_not_mem h
  cases a
  cases b
  cases hid
  cases hpath
  rfl

theorem itemKey_inj (ha : a.Proper) (hb : b.Proper) (h : a.itemKey = b.itemKey) :
    a.normalized = b.normalized := by
  obtain ⟨hid, hpath⟩ := split_at_nul ha.nul_not_mem hb.nul_not_mem h
  exact OperationPlanningPath.mk.injEq .. ▸ ⟨hid, hpath⟩

theorem Proper.parent {path : OperationPlanningPath} (h : path.Proper) : path.parent.Proper :=
  ⟨h.identity, parentPath_valid h.path⟩

theorem normalized_eq_iff : a.normalized = b.normalized ↔
    a.providerId = b.providerId ∧ resolve a.absolutePath = resolve b.absolutePath := by
  unfold normalized
  rw [OperationPlanningPath.mk.injEq, normalizeAbsolutePath_inj]

end OperationPlanningPath

end WinCommander.Operations.Planner
