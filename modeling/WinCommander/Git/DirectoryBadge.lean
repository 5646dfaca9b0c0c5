/-
  `BadgeGitDirectoryChildren`: the badges of one directory's children.

  The status is gathered by the first component below the directory, files and directories apart.
  A name that is both is in the order twice, and is judged as a file each time; `badgesEachChild_iff`
  says which statuses are badged once for each child.
-/
import WinCommander.Git.Status
import WinCommander.Library.Path

namespace WinCommander.Git

open Library List AList
open Option (getD_some map_none some)
open Library.Path (slash)

structure GitBadgeAssignment where
  path : Bytes
  state : GitFileState := .unmodified
deriving DecidableEq

def shouldBadgeGitFileState (state : GitFileState) : Bool :=
  state ≠ .unmodified ∧ state ≠ .ignored

/-- The loop, with what was found before. -/
def aggregateLoop (anything : Bool) : List GitFileState → Option GitFileState
  | [] => if anything then some .modified else none
  | state :: rest =>
    if state = .conflicted then some .conflicted
    else if state = .unmodified ∨ state = .ignored then aggregateLoop anything rest
    else aggregateLoop true rest

def aggregateGitDirectoryBadge (below : List GitFileState) : Option GitFileState :=
  aggregateLoop false below

/-- The part of a path directly under a directory, and whether anything follows it. -/
structure Child where
  name : Bytes
  isDirectory : Bool
deriving DecidableEq

def childOf (directory path : Bytes) : Option Child :=
  let remainder :=
    if directory = [] then some path
    else if ¬directory <+: path then none
    else if path.length ≤ directory.length ∨ path[directory.length]? ≠ some slash then none
    else some (path.drop (directory.length + 1))
  match remainder with
  | none | some [] => none
  | some remainder =>
    match remainder.span (· ≠ slash) with
    | (name, []) => some ⟨name, false⟩
    | (name, _ :: _) => some ⟨name, true⟩

/-- The two maps and the order. -/
structure Gathered where
  below : AList fun _ : Bytes => List GitFileState := ∅
  files : AList fun _ : Bytes => GitFileState := ∅
  order : List Bytes := []

def gather (directory : Bytes) (gathered : Gathered) (entry : GitStatusEntry) : Gathered :=
  match childOf directory entry.path with
  | none => gathered
  | some ⟨name, true⟩ =>
    { gathered with
      order := if name ∈ gathered.below then gathered.order else gathered.order ++ [name]
      below := gathered.below.insert name ((gathered.below.lookup name).getD [] ++ [entry.state]) }
  | some ⟨name, false⟩ =>
    { gathered with
      order := if name ∈ gathered.files then gathered.order else gathered.order ++ [name]
      files := gathered.files.insert name entry.state }

/-- What one name of the order is given. -/
def assign (gathered : Gathered) (name : Bytes) : Option GitBadgeAssignment :=
  match gathered.files.lookup name with
  | some state => if shouldBadgeGitFileState state then some ⟨name, state⟩ else none
  | none =>
    match gathered.below.lookup name with
    | none => none
    | some below => (aggregateGitDirectoryBadge below).map fun badge => ⟨name, badge⟩

def badgeGitDirectoryChildren (directory : Bytes) (status : List GitStatusEntry) :
    List GitBadgeAssignment :=
  let gathered := status.foldl (gather directory) {}
  gathered.order.filterMap (assign gathered)

/-! ## Paths -/

/-- What the paths in a directory begin with. -/
def under (directory : Bytes) : Bytes := if directory = [] then [] else directory ++ [slash]

/-- The path is that of a child. -/
structure At (directory name path : Bytes) : Prop where
  named : name ≠ []
  simple : slash ∉ name
  eq : path = under directory ++ name

/-- The path is one below a child. -/
structure Below (directory name path : Bytes) : Prop where
  simple : slash ∉ name
  eq : ∃ rest, path = under directory ++ name ++ slash :: rest

theorem remainder_eq_some_iff {directory path remainder : Bytes} : (if directory = [] then some path
      else if ¬directory <+: path then none
      else if path.length ≤ directory.length ∨ path[directory.length]? ≠ some slash then none
      else some (path.drop (directory.length + 1))) = some remainder ↔
    path = under directory ++ remainder := by
  unfold under
  by_cases hempty : directory = []
  · rw [if_pos hempty, if_pos hempty, nil_append, some.injEq]
  · rw [if_neg hempty, if_neg hempty]
    by_cases hprefix : directory <+: path
    · obtain ⟨rest, rfl⟩ := hprefix
      rw [if_neg (not_not.mpr (prefix_append directory rest)), append_assoc, append_cancel_left_eq,
        List.getElem?_append_right (Nat.le_refl _), Nat.sub_self, length_append, drop_append,
        Nat.add_sub_cancel_left, drop_eq_nil_of_le (Nat.le_succ _), nil_append]
      cases rest with
      | nil => simp
      | cons byte rest =>
        by_cases hbyte : byte = slash
        · simp [hbyte]
        · simp [hbyte]
    · rw [if_pos hprefix]
      refine iff_of_false nofun fun heq => hprefix ?_
      rw [heq, append_assoc]
      exact prefix_append _ _

theorem span_slash (remainder : Bytes) :
    (slash ∉ remainder ∧ remainder.span (· ≠ slash) = (remainder, [])) ∨
      ∃ name rest, slash ∉ name ∧ remainder = name ++ slash :: rest ∧
        remainder.span (· ≠ slash) = (name, slash :: rest) := by
  induction remainder with
  | nil => exact .inl ⟨not_mem_nil, rfl⟩
  | cons byte remainder ih =>
    rw [span_eq_takeWhile_dropWhile] at ih ⊢
    by_cases hbyte : byte = slash
    · refine .inr ⟨[], remainder, not_mem_nil, by rw [hbyte]; rfl, ?_⟩
      rw [takeWhile_cons_of_neg (by simp [hbyte]), dropWhile_cons_of_neg (by simp [hbyte]), hbyte]
    · rw [takeWhile_cons_of_pos (by simpa using hbyte),
        dropWhile_cons_of_pos (by simpa using hbyte)]
      rcases ih with ⟨hnot, heq⟩ | ⟨name, rest, hname, rfl, heq⟩
      · refine .inl ⟨?_, ?_⟩
        · rw [mem_cons, not_or]
          exact ⟨Ne.symm hbyte, hnot⟩
        · rw [(Prod.mk.inj heq).1, (Prod.mk.inj heq).2]
      · refine .inr ⟨byte :: name, rest, ?_, rfl, ?_⟩
        · rw [mem_cons, not_or]
          exact ⟨Ne.symm hbyte, hname⟩
        · rw [(Prod.mk.inj heq).1, (Prod.mk.inj heq).2]

/-- A path has at most one first component, which ends at the first slash. -/
theorem append_slash_cancel (hname : slash ∉ name) (hname' : slash ∉ name')
    (h : name ++ slash :: rest = name' ++ slash :: rest') : name = name' := by
  have htake : ∀ name rest : Bytes, slash ∉ name →
      (name ++ slash :: rest).takeWhile (· ≠ slash) = name := by
    intro name rest hname
    rw [takeWhile_append_of_pos, takeWhile_cons_of_neg (by simp), append_nil]
    intro byte hbyte
    rw [decide_eq_true_eq]
    rintro rfl
    exact hname hbyte
  rw [← htake name rest hname, h, htake name' rest' hname']

theorem childOf_eq_some_iff :
    (childOf directory path = some ⟨name, false⟩ ↔ At directory name path) ∧
      (childOf directory path = some ⟨name, true⟩ ↔ Below directory name path) := by
  have hremainder := @remainder_eq_some_iff directory path
  unfold childOf
  dsimp only
  generalize (if directory = [] then some path else if ¬directory <+: path then none
    else if path.length ≤ directory.length ∨ path[directory.length]? ≠ some slash then none
    else some (path.drop (directory.length + 1))) = found at hremainder ⊢
  cases found with
  | none =>
    refine ⟨iff_of_false nofun fun h => ?_, iff_of_false nofun ?_⟩
    · exact nomatch hremainder.mpr h.eq
    · rintro ⟨-, rest, heq⟩
      rw [append_assoc] at heq
      exact nomatch hremainder.mpr heq
  | some remainder =>
    have hpath : path = under directory ++ remainder := hremainder.mp rfl
    have hat : At directory name path ↔ name ≠ [] ∧ slash ∉ name ∧ remainder = name := by
      rw [hpath]
      exact ⟨fun h => ⟨h.named, h.simple, append_cancel_left h.eq⟩,
        fun ⟨hnamed, hsimple, heq⟩ => ⟨hnamed, hsimple, heq ▸ rfl⟩⟩
    have hbelow : Below directory name path ↔ slash ∉ name ∧ ∃ rest, remainder = name ++ slash :: rest := by
      rw [hpath]
      constructor
      · rintro ⟨hsimple, rest, heq⟩
        rw [append_assoc] at heq
        exact ⟨hsimple, rest, append_cancel_left heq⟩
      · rintro ⟨hsimple, rest, rfl⟩
        exact ⟨hsimple, rest, (append_assoc _ _ _).symm⟩
    rw [hat, hbelow]
    cases remainder with
    | nil =>
      refine ⟨iff_of_false nofun ?_, iff_of_false nofun (by simp)⟩
      rintro ⟨hnamed, -, heq⟩
      exact hnamed heq.symm
    | cons byte tail =>
      dsimp only
      rcases span_slash (byte :: tail) with ⟨hnot, hspan⟩ | ⟨first, rest, hfirst, heq, hspan⟩
      · rw [hspan]
        constructor
        · rw [some.injEq, Child.mk.injEq, and_iff_left rfl]
          refine ⟨?_, fun h => h.2.2⟩
          rintro rfl
          exact ⟨nofun, hnot, rfl⟩
        · refine iff_of_false nofun ?_
          rintro ⟨-, rest, heq⟩
          exact hnot (heq ▸ mem_append_right _ mem_cons_self)
      · rw [hspan]
        constructor
        · refine iff_of_false nofun ?_
          rintro ⟨-, hsimple, rfl⟩
          exact hsimple (heq ▸ mem_append_right _ mem_cons_self)
        · rw [some.injEq, Child.mk.injEq, and_iff_left rfl, heq]
          refine ⟨?_, ?_⟩
          · rintro rfl
            exact ⟨hfirst, rest, rfl⟩
          · rintro ⟨hsimple, rest', heq'⟩
            exact append_slash_cancel hfirst hsimple heq'

/-! ## What is gathered -/

section Gathering

variable (directory : Bytes)

/-- The states of the entries at a child, or below it, in the order of the status. -/
def statesOf (status : List GitStatusEntry) (child : Child) : List GitFileState :=
  (status.filter fun entry => childOf directory entry.path = some child).map (·.state)

/-- What the maps and the order hold after a part of the status. -/
structure Gathers (status : List GitStatusEntry) (gathered : Gathered) : Prop where
  files : ∀ name, gathered.files.lookup name = (statesOf directory status ⟨name, false⟩).getLast?
  below : ∀ name, (gathered.below.lookup name).getD [] = statesOf directory status ⟨name, true⟩
  known : ∀ name, name ∈ gathered.below ↔ statesOf directory status ⟨name, true⟩ ≠ []
  order : ∀ name, gathered.order.count name =
    (if statesOf directory status ⟨name, false⟩ ≠ [] then 1 else 0) +
      if statesOf directory status ⟨name, true⟩ ≠ [] then 1 else 0

variable {directory} {status : List GitStatusEntry} {gathered : Gathered} {entry : GitStatusEntry}

theorem statesOf_append (child : Child) :
    statesOf directory (status ++ [entry]) child = statesOf directory status child ++
      if childOf directory entry.path = some child then [entry.state] else [] := by
  unfold statesOf
  rw [filter_append, map_append]
  split_ifs with h
  · rw [filter_cons_of_pos (by simpa using h)]
    rfl
  · rw [filter_cons_of_neg (by simpa using h)]
    rfl

theorem statesOf_other (h : childOf directory entry.path ≠ some child) :
    statesOf directory (status ++ [entry]) child = statesOf directory status child := by
  rw [statesOf_append, if_neg h, append_nil]

theorem statesOf_same (h : childOf directory entry.path = some child) :
    statesOf directory (status ++ [entry]) child = statesOf directory status child ++ [entry.state] := by
  rw [statesOf_append, if_pos h]

theorem count_append_name (order : List Bytes) (name other : Bytes) :
    (order ++ [name]).count other = order.count other + if other = name then 1 else 0 := by
  rw [count_append, count_singleton]
  by_cases h : other = name
  · simp [h]
  · simp [h, Ne.symm h]

theorem Gathers.gather_file (h : Gathers directory status gathered)
    (hchild : childOf directory entry.path = some ⟨name, false⟩) :
    Gathers directory (status ++ [entry]) (gather directory gathered entry) := by
  have hbelow : ∀ other, statesOf directory (status ++ [entry]) ⟨other, true⟩ =
      statesOf directory status ⟨other, true⟩ := fun other => statesOf_other (by
    rw [hchild]
    exact nofun)
  have hat : ∀ other, other ≠ name → statesOf directory (status ++ [entry]) ⟨other, false⟩ =
      statesOf directory status ⟨other, false⟩ := fun other hne => statesOf_other (by
    rw [hchild]
    rintro heq
    exact hne (Child.mk.inj (some.inj heq)).1.symm)
  have hknown : name ∈ gathered.files ↔ statesOf directory status ⟨name, false⟩ ≠ [] := by
    rw [← lookup_isSome, h.files, List.getLast?_isSome]
  unfold gather
  rw [hchild]
  refine ⟨fun other => ?_, fun other => ?_, fun other => ?_, fun other => ?_⟩
  · by_cases hother : other = name
    · rw [hother, lookup_insert, statesOf_same hchild, List.getLast?_concat]
    · rw [lookup_insert_ne hother, hat other hother, h.files]
  · rw [hbelow]
    exact h.below other
  · rw [hbelow]
    exact h.known other
  · rw [hbelow]
    dsimp only
    by_cases hother : other = name
    · subst hother
      rw [statesOf_same hchild, if_pos (List.concat_ne_nil _ _)]
      by_cases hmem : other ∈ gathered.files
      · rw [if_pos hmem, h.order, if_pos (hknown.mp hmem)]
      · rw [if_neg hmem, count_append_name, if_pos rfl, h.order, if_neg (mt hknown.mpr hmem)]
        omega
    · rw [hat other hother, ← h.order]
      split
      · rfl
      · rw [count_append_name, if_neg hother, Nat.add_zero]

theorem Gathers.gather_directory (h : Gathers directory status gathered)
    (hchild : childOf directory entry.path = some ⟨name, true⟩) :
    Gathers directory (status ++ [entry]) (gather directory gathered entry) := by
  have hat : ∀ other, statesOf directory (status ++ [entry]) ⟨other, false⟩ =
      statesOf directory status ⟨other, false⟩ := fun other => statesOf_other (by
    rw [hchild]
    exact nofun)
  have hbelow : ∀ other, other ≠ name → statesOf directory (status ++ [entry]) ⟨other, true⟩ =
      statesOf directory status ⟨other, true⟩ := fun other hne => statesOf_other (by
    rw [hchild]
    rintro heq
    exact hne (Child.mk.inj (some.inj heq)).1.symm)
  have hnew := append_ne_nil_of_right_ne_nil (statesOf directory status ⟨name, true⟩)
    (cons_ne_nil entry.state [])
  unfold gather
  rw [hchild]
  refine ⟨fun other => ?_, fun other => ?_, fun other => ?_, fun other => ?_⟩
  · rw [hat]
    exact h.files other
  · by_cases hother : other = name
    · rw [hother, lookup_insert, statesOf_same hchild, getD_some, h.below]
    · rw [lookup_insert_ne hother, hbelow other hother, h.below]
  · rw [mem_insert]
    by_cases hother : other = name
    · rw [hother, statesOf_same hchild]
      exact iff_of_true (.inl rfl) hnew
    · rw [hbelow other hother, ← h.known]
      exact or_iff_right hother
  · rw [hat]
    dsimp only
    by_cases hother : other = name
    · subst hother
      rw [statesOf_same hchild, if_pos hnew]
      by_cases hmem : other ∈ gathered.below
      · rw [if_pos hmem, h.order, if_pos ((h.known other).mp hmem)]
      · rw [if_neg hmem, count_append_name, if_pos rfl, h.order, if_neg (mt (h.known other).mpr hmem)]
    · rw [hbelow other hother, ← h.order]
      split
      · rfl
      · rw [count_append_name, if_neg hother, Nat.add_zero]

/-- The whole status is gathered, entry by entry. -/
theorem gathers (directory : Bytes) (status : List GitStatusEntry) :
    Gathers directory status (status.foldl (gather directory) {}) := by
  induction status using List.reverseRecOn with
  | nil => exact ⟨fun _ => rfl, fun _ => rfl, fun name => iff_of_false (notMem_empty name) (not_not.mpr rfl), fun _ => rfl⟩
  | append_singleton status entry ih =>
    rw [foldl_append, foldl_cons, foldl_nil]
    cases hchild : childOf directory entry.path with
    | none =>
      have hsame : ∀ child, statesOf directory (status ++ [entry]) child =
          statesOf directory status child := fun child => statesOf_other (by
        rw [hchild]
        exact nofun)
      unfold gather
      rw [hchild]
      refine ⟨fun name => ?_, fun name => ?_, fun name => ?_, fun name => ?_⟩
      · rw [hsame]
        exact ih.files name
      · rw [hsame]
        exact ih.below name
      · rw [hsame]
        exact ih.known name
      · rw [hsame, hsame]
        exact ih.order name
    | some child =>
      obtain ⟨name, isDirectory⟩ := child
      cases isDirectory with
      | false => exact ih.gather_file hchild
      | true => exact ih.gather_directory hchild

end Gathering

/-! ## What is assigned -/

section Assigning

variable (directory : Bytes) (status : List GitStatusEntry)

theorem aggregateLoop_eq (anything : Bool) (below : List GitFileState) :
    aggregateLoop anything below = if .conflicted ∈ below then some .conflicted
      else if anything ∨ ∃ state ∈ below, shouldBadgeGitFileState state = true then some .modified
      else none := by
  induction below generalizing anything with
  | nil => cases anything <;> simp [aggregateLoop]
  | cons state rest ih =>
    unfold aggregateLoop
    by_cases hconflicted : state = .conflicted
    · rw [if_pos hconflicted, if_pos (by simp [hconflicted])]
    · have hmem : GitFileState.conflicted ∈ state :: rest ↔ .conflicted ∈ rest := by
        rw [mem_cons]
        exact or_iff_right (Ne.symm hconflicted)
      rw [if_neg hconflicted, ih, ih]
      simp only [hmem, exists_mem_cons_iff]
      by_cases hquiet : state = .unmodified ∨ state = .ignored
      · have hnot : ¬shouldBadgeGitFileState state := by
          rcases hquiet with rfl | rfl <;> decide
        rw [if_pos hquiet]
        simp [hnot]
      · have hbadge : shouldBadgeGitFileState state := by
          unfold shouldBadgeGitFileState
          simpa using hquiet
        rw [if_neg hquiet]
        simp [hbadge]

/-- A conflict wins; otherwise what deserves a badge makes the directory modified. -/
theorem aggregateGitDirectoryBadge_eq (below : List GitFileState) :
    aggregateGitDirectoryBadge below = if .conflicted ∈ below then some .conflicted
      else if ∃ state ∈ below, shouldBadgeGitFileState state = true then some .modified
      else none := by
  unfold aggregateGitDirectoryBadge
  rw [aggregateLoop_eq]
  simp

/-- The badge of a name, by what is at it and below it. -/
def badgeOf (name : Bytes) : Option GitFileState :=
  match (statesOf directory status ⟨name, false⟩).getLast? with
  | some state => if shouldBadgeGitFileState state then some state else none
  | none =>
    if statesOf directory status ⟨name, true⟩ = [] then none
    else aggregateGitDirectoryBadge (statesOf directory status ⟨name, true⟩)

theorem assign_eq (name : Bytes) : assign (status.foldl (gather directory) {}) name =
    (badgeOf directory status name).map fun state => ⟨name, state⟩ := by
  obtain ⟨hfiles, hbelow, hknown, -⟩ := gathers directory status
  unfold assign badgeOf
  rw [hfiles]
  cases (statesOf directory status ⟨name, false⟩).getLast? with
  | some state =>
    dsimp only
    by_cases hbadge : shouldBadgeGitFileState state
    · rw [if_pos hbadge, if_pos hbadge, Option.map_some]
    · rw [if_neg hbadge, if_neg hbadge, map_none]
  | none =>
    by_cases hmem : name ∈ (status.foldl (gather directory) {}).below
    · obtain ⟨below, hlookup⟩ := Option.isSome_iff_exists.mp (lookup_isSome.mpr hmem)
      have heq := hbelow name
      rw [hlookup, getD_some] at heq
      rw [hlookup, if_neg ((hknown name).mp hmem), heq]
    · have hnil : statesOf directory status ⟨name, true⟩ = [] := by
        by_contra hne
        exact hmem ((hknown name).mpr hne)
      rw [lookup_eq_none.mpr hmem, if_pos hnil, map_none]

/-- How often a name is in the order. -/
def occurrences (name : Bytes) : Nat :=
  (if statesOf directory status ⟨name, false⟩ ≠ [] then 1 else 0) +
    if statesOf directory status ⟨name, true⟩ ≠ [] then 1 else 0

theorem count_filterMap_name (f : Bytes → Option GitFileState) (order : List Bytes) (name : Bytes) :
    ((order.filterMap fun name => (f name).map fun state => (⟨name, state⟩ : GitBadgeAssignment)).map
      (·.path)).count name = if (f name).isSome then order.count name else 0 := by
  induction order with
  | nil => simp
  | cons first order ih =>
    cases hfirst : f first with
    | none =>
      rw [filterMap_cons_none (by rw [hfirst]; rfl), ih]
      by_cases heq : first = name
      · subst heq
        simp [hfirst]
      · rw [count_cons_of_ne heq]
    | some state =>
      rw [filterMap_cons_some (by rw [hfirst]; rfl), map_cons, count_cons, ih, count_cons]
      by_cases heq : first = name
      · subst heq
        simp [hfirst]
      · simp [heq]

/-- A name is assigned its badge as often as it is in the order. -/
theorem count_assigned (name : Bytes) :
    ((badgeGitDirectoryChildren directory status).map (·.path)).count name =
      if (badgeOf directory status name).isSome then occurrences directory status name else 0 := by
  have horder := (gathers directory status).order name
  have hassign : assign (status.foldl (gather directory) {}) = fun name =>
      (badgeOf directory status name).map fun state => ⟨name, state⟩ :=
    funext fun name => assign_eq directory status name
  unfold badgeGitDirectoryChildren occurrences
  dsimp only
  rw [hassign, count_filterMap_name, horder]

theorem mem_assigned (h : assignment ∈ badgeGitDirectoryChildren directory status) :
    badgeOf directory status assignment.path = some assignment.state := by
  obtain ⟨name, -, hassign⟩ := mem_filterMap.mp h
  rw [assign_eq] at hassign
  obtain ⟨state, hstate, rfl⟩ := Option.map_eq_some_iff.mp hassign
  exact hstate

end Assigning

/-! ## One badge for each child -/

section Badges

variable (directory : Bytes) (status : List GitStatusEntry)

/-- A name is badged once, for what is at it or below it, and a directory for what is below it. -/
structure BadgesEachChild : Prop where
  once : ((badgeGitDirectoryChildren directory status).map (·.path)).Nodup
  assigned : ∀ name, name ∈ (badgeGitDirectoryChildren directory status).map (·.path) ↔
    ∃ entry ∈ status, (At directory name entry.path ∨ Below directory name entry.path) ∧
      shouldBadgeGitFileState entry.state = true
  /-- Siblings that share the prefix as characters do not contribute. -/
  inside : badgeGitDirectoryChildren directory status =
    badgeGitDirectoryChildren directory (status.filter fun entry => under directory <+: entry.path)
  aggregate : ∀ assignment ∈ badgeGitDirectoryChildren directory status,
    (∃ entry ∈ status, Below directory assignment.path entry.path) →
    ((∃ entry ∈ status, Below directory assignment.path entry.path ∧ entry.state = .conflicted) ∧
        assignment.state = .conflicted) ∨
      ((∀ entry ∈ status, Below directory assignment.path entry.path → entry.state ≠ .conflicted) ∧
        assignment.state = .modified)

/-- A name that is listed as a file and as a directory has nothing to be badged for, and one that is
    listed several times is badged for the last time if for any. -/
structure Unambiguous (name : Bytes) : Prop where
  apart : (∃ entry ∈ status, At directory name entry.path) →
    (∃ entry ∈ status, Below directory name entry.path) →
    ∀ entry ∈ status, At directory name entry.path ∨ Below directory name entry.path →
      shouldBadgeGitFileState entry.state = false
  last : (∃ entry ∈ status, At directory name entry.path ∧
      shouldBadgeGitFileState entry.state = true) →
    ∀ state, (statesOf directory status ⟨name, false⟩).getLast? = some state →
      shouldBadgeGitFileState state = true

variable {directory status}

variable {name : Bytes}

theorem exists_at_iff (q : GitFileState → Prop) :
    (∃ entry ∈ status, At directory name entry.path ∧ q entry.state) ↔
      ∃ state ∈ statesOf directory status ⟨name, false⟩, q state := by
  unfold statesOf
  simp only [mem_map, mem_filter, decide_eq_true_eq, childOf_eq_some_iff.1]
  grind

theorem exists_below_iff (q : GitFileState → Prop) :
    (∃ entry ∈ status, Below directory name entry.path ∧ q entry.state) ↔
      ∃ state ∈ statesOf directory status ⟨name, true⟩, q state := by
  unfold statesOf
  simp only [mem_map, mem_filter, decide_eq_true_eq, childOf_eq_some_iff.2]
  grind

theorem exists_at : (∃ entry ∈ status, At directory name entry.path) ↔
    statesOf directory status ⟨name, false⟩ ≠ [] := by
  have h := @exists_at_iff directory status name fun _ => True
  simp only [and_true] at h
  rw [h, ne_eq, eq_nil_iff_forall_not_mem]
  push Not
  rfl

theorem exists_below : (∃ entry ∈ status, Below directory name entry.path) ↔
    statesOf directory status ⟨name, true⟩ ≠ [] := by
  have h := @exists_below_iff directory status name fun _ => True
  simp only [and_true] at h
  rw [h, ne_eq, eq_nil_iff_forall_not_mem]
  push Not
  rfl

/-- Something at a name or below it deserves a badge. -/
theorem deserves_iff :
    (∃ entry ∈ status, (At directory name entry.path ∨ Below directory name entry.path) ∧
        shouldBadgeGitFileState entry.state) ↔
      (∃ state ∈ statesOf directory status ⟨name, false⟩, shouldBadgeGitFileState state) ∨
        ∃ state ∈ statesOf directory status ⟨name, true⟩, shouldBadgeGitFileState state := by
  rw [← exists_at_iff fun state => shouldBadgeGitFileState state,
    ← exists_below_iff fun state => shouldBadgeGitFileState state = true]
  simp [or_and_right, and_or_left, exists_or]

theorem inside_eq (directory : Bytes) (status : List GitStatusEntry) :
    badgeGitDirectoryChildren directory status = badgeGitDirectoryChildren directory
        (status.filter fun entry => under directory <+: entry.path) := by
  have hfold : ∀ gathered, (status.filter fun entry => under directory <+: entry.path).foldl
      (gather directory) gathered = status.foldl (gather directory) gathered := by
    induction status with
    | nil => exact fun _ => rfl
    | cons entry rest ih =>
      intro gathered
      by_cases hunder : under directory <+: entry.path
      · rw [filter_cons_of_pos (by simpa using hunder), foldl_cons, foldl_cons, ih]
      · have hchild : childOf directory entry.path = none := by
          rw [Option.eq_none_iff_forall_ne_some]
          rintro ⟨name, isDirectory⟩ heq
          refine hunder ?_
          cases isDirectory with
          | false =>
            rw [(childOf_eq_some_iff.1.mp heq).eq]
            exact prefix_append _ _
          | true =>
            obtain ⟨-, rest, hrest⟩ := childOf_eq_some_iff.2.mp heq
            rw [hrest, append_assoc]
            exact prefix_append _ _
        rw [filter_cons_of_neg (by simpa using hunder), foldl_cons, ih]
        congr 1
        unfold gather
        rw [hchild]
  unfold badgeGitDirectoryChildren
  rw [hfold]

theorem count_pos_iff : name ∈ (badgeGitDirectoryChildren directory status).map (·.path) ↔
      (badgeOf directory status name).isSome := by
  rw [← List.count_pos_iff, count_assigned]
  split_ifs with hsome
  · refine iff_of_true ?_ hsome
    unfold badgeOf at hsome
    unfold occurrences
    cases hlast : (statesOf directory status ⟨name, false⟩).getLast? with
    | some state =>
      have hne : statesOf directory status ⟨name, false⟩ ≠ [] := by
        rw [← List.getLast?_isSome, hlast]
        rfl
      rw [if_pos hne]
      omega
    | none =>
      rw [hlast] at hsome
      by_cases hbelow : statesOf directory status ⟨name, true⟩ = []
      · rw [hbelow] at hsome
        cases hsome
      · rw [if_pos hbelow]
        omega
  · exact iff_of_false (Nat.lt_irrefl 0) hsome

theorem isSome_aggregate (below : List GitFileState) : (aggregateGitDirectoryBadge below).isSome ↔
      ∃ state ∈ below, shouldBadgeGitFileState state := by
  rw [aggregateGitDirectoryBadge_eq]
  by_cases hconflicted : .conflicted ∈ below
  · rw [if_pos hconflicted]
    exact iff_of_true rfl ⟨_, hconflicted, by decide⟩
  · rw [if_neg hconflicted]
    split_ifs with hany
    · exact iff_of_true rfl hany
    · exact iff_of_false nofun hany

/-- A badge of a name that is listed as a file is that of its last entry. -/
theorem badgeOf_file (hlast : (statesOf directory status ⟨name, false⟩).getLast? = some last) :
    (badgeOf directory status name).isSome ↔ shouldBadgeGitFileState last := by
  unfold badgeOf
  rw [hlast]
  dsimp only
  split_ifs with hbadge
  · exact iff_of_true rfl hbadge
  · exact iff_of_false nofun hbadge

theorem badgeOf_directory (hat : statesOf directory status ⟨name, false⟩ = [])
    (hbelow : statesOf directory status ⟨name, true⟩ ≠ []) : badgeOf directory status name =
      aggregateGitDirectoryBadge (statesOf directory status ⟨name, true⟩) := by
  unfold badgeOf
  rw [hat, List.getLast?_nil]
  exact if_neg hbelow

theorem Unambiguous.isSome_badgeOf (h : Unambiguous directory status name) :
    (badgeOf directory status name).isSome ↔
      ∃ entry ∈ status, (At directory name entry.path ∨ Below directory name entry.path) ∧
        shouldBadgeGitFileState entry.state := by
  rw [deserves_iff]
  cases hlast : (statesOf directory status ⟨name, false⟩).getLast? with
  | none =>
    have hat := List.getLast?_eq_none_iff.mp hlast
    rw [hat]
    by_cases hbelow : statesOf directory status ⟨name, true⟩ = []
    · unfold badgeOf
      rw [hat, hbelow]
      simp
    · rw [badgeOf_directory hat hbelow, isSome_aggregate]
      simp
  | some last =>
    have hmem := mem_of_getLast? hlast
    rw [badgeOf_file hlast]
    constructor
    · exact fun hbadge => .inl ⟨last, hmem, hbadge⟩
    · rintro (hat | hbelow)
      · exact h.last ((exists_at_iff _).mpr hat) last hlast
      · -- Both are listed, and nothing is to be badged.
        have hone := exists_at.mpr (ne_nil_of_mem hmem)
        obtain ⟨entry, hentry, hunder, hbadge⟩ := (exists_below_iff _).mpr hbelow
        have hquiet := h.apart hone ⟨entry, hentry, hunder⟩ entry hentry (.inr hunder)
        rw [hbadge] at hquiet
        cases hquiet

theorem BadgesEachChild.unambiguous (h : BadgesEachChild directory status) (name : Bytes) :
    Unambiguous directory status name := by
  refine ⟨fun hat hbelow entry hentry hunder => ?_, fun hat last hlast => ?_⟩
  · by_contra hbadge
    rw [Bool.not_eq_false] at hbadge
    have hassigned := (h.assigned name).mpr ⟨entry, hentry, hunder, hbadge⟩
    have hcount := nodup_iff_count_le_one.mp h.once name
    rw [count_assigned, if_pos (count_pos_iff.mp hassigned), occurrences, if_pos (exists_at.mp hat),
      if_pos (exists_below.mp hbelow)] at hcount
    omega
  · obtain ⟨entry, hentry, hunder, hbadge⟩ := hat
    have hassigned := (h.assigned name).mpr ⟨entry, hentry, .inl hunder, hbadge⟩
    exact (badgeOf_file hlast).mp (count_pos_iff.mp hassigned)

theorem badges_of_unambiguous (h : ∀ name, Unambiguous directory status name) :
    BadgesEachChild directory status := by
  refine ⟨nodup_iff_count_le_one.mpr fun name => ?_,
    fun name => count_pos_iff.trans (h name).isSome_badgeOf, inside_eq directory status, ?_⟩
  · rw [count_assigned]
    split_ifs with hsome
    · unfold occurrences
      by_cases hat : statesOf directory status ⟨name, false⟩ = []
      · rw [if_neg (not_not.mpr hat)]
        split_ifs <;> omega
      · by_cases hbelow : statesOf directory status ⟨name, true⟩ = []
        · rw [if_pos hat, if_neg (not_not.mpr hbelow)]
        · obtain ⟨entry, hentry, hunder, hbadge⟩ := (h name).isSome_badgeOf.mp hsome
          have hquiet := (h name).apart (exists_at.mpr hat) (exists_below.mpr hbelow) entry hentry hunder
          rw [hbadge] at hquiet
          cases hquiet
    · exact Nat.zero_le 1
  · rintro ⟨name, state⟩ hassigned hbelow
    have hbadge : badgeOf directory status name = some state := mem_assigned directory status hassigned
    have hsome := Option.isSome_of_eq_some hbadge
    have hat : statesOf directory status ⟨name, false⟩ = [] := by
      by_contra hat
      obtain ⟨entry, hentry, hunder, hdeserves⟩ := (h name).isSome_badgeOf.mp hsome
      have hquiet := (h name).apart (exists_at.mpr hat) hbelow entry hentry hunder
      rw [hdeserves] at hquiet
      cases hquiet
    rw [badgeOf_directory hat (exists_below.mp hbelow), aggregateGitDirectoryBadge_eq] at hbadge
    have hconflict := @exists_below_iff directory status name (· = .conflicted)
    have hmem : (∃ state ∈ statesOf directory status ⟨name, true⟩, state = .conflicted) ↔
        .conflicted ∈ statesOf directory status ⟨name, true⟩ := exists_eq_right
    by_cases hconflicted : GitFileState.conflicted ∈ statesOf directory status ⟨name, true⟩
    · rw [if_pos hconflicted] at hbadge
      exact .inl ⟨hconflict.mpr (hmem.mpr hconflicted), (some.inj hbadge).symm⟩
    · rw [if_neg hconflicted] at hbadge
      refine .inr ⟨fun entry hentry hunder heq => ?_, ?_⟩
      · exact hconflicted (hmem.mp (hconflict.mp ⟨entry, hentry, hunder, heq⟩))
      · by_cases hany : ∃ state ∈ statesOf directory status ⟨name, true⟩,
            shouldBadgeGitFileState state
        · rw [if_pos hany] at hbadge
          exact (some.inj hbadge).symm
        · rw [if_neg hany] at hbadge
          cases hbadge

end Badges

/-- A status is badged once for each child exactly when every name in it is unambiguous. -/
theorem badgesEachChild_iff (directory : Bytes) (status : List GitStatusEntry) :
    BadgesEachChild directory status ↔ ∀ name, Unambiguous directory status name :=
  ⟨fun h => h.unambiguous, badges_of_unambiguous⟩

/-- A file that was deleted and whose name is that of a directory now. -/
theorem badged_twice : ¬BadgesEachChild [] [{ path := ascii "a", state := .deleted },
      { path := ascii "a/b", state := .untracked }] := by
  intro h
  have honce := h.once
  revert honce
  decide +kernel

end WinCommander.Git
