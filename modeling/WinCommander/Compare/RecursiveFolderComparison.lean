/-
  `CompareFoldersRecursively`: two directory trees, level by level from their roots.

  The listers are functions of the relative path and may describe anything, also a tree without an
  end. `levels` counts the levels that the depth budget has left, and every descent is behind an
  entry that the other budget was asked for.
-/
import WinCommander.Compare.FolderComparison

namespace WinCommander.Compare

open Library List

/-! ## The data -/

structure RecursiveFolderCompareEntry where
  relativePath : Bytes
  status : FolderCompareStatus := .same
  newerSide : FolderCompareNewerSide := .neither
  isDirectory : Bool := false
  depth : Nat := 0
deriving DecidableEq

inductive RecursiveFolderCompareFailure where
  | invalidListing | unreadable | tooDeep | tooLarge | cancelled
deriving DecidableEq

structure RecursiveFolderCompareLimits where
  maximumDepth : Nat := 64
  maximumEntries : Nat := 200000
deriving DecidableEq

/-- Nothing when the directory cannot be read. -/
abbrev RecursiveFolderCompareLister := Bytes → Option (List FolderCompareItem)

structure RecursiveFolderComparison where
  entries : List RecursiveFolderCompareEntry
deriving DecidableEq

def RecursiveFolderComparison.identical (comparison : RecursiveFolderComparison) : Bool :=
  comparison.entries.all (·.status == .same)

/-! ## The walk -/

def joinRelative (parent name : Bytes) : Bytes :=
  if parent = [] then name else parent ++ [47] ++ name

/-- What the walk is given; a checker that throws has cancelled. -/
structure Walk where
  left : RecursiveFolderCompareLister
  right : RecursiveFolderCompareLister
  options : FolderCompareOptions
  limits : RecursiveFolderCompareLimits
  isCancelled : Nat → Bool

structure WalkState where
  entries : List RecursiveFolderCompareEntry := []
  /-- How often `Descend` was entered. -/
  descents : Nat := 0

/-- What `Descend` returns, and the walk after it. -/
abbrev Descent := Except RecursiveFolderCompareFailure FolderCompareStatus × WalkState

/-- Only a directory that the two sides agree on. -/
def descends (entry : FolderCompareEntry) : Bool := entry.isDirectory && entry.status == .same

def rowOf (relativePath : Bytes) (depth : Nat) (entry : FolderCompareEntry) :
    RecursiveFolderCompareEntry where
  relativePath := joinRelative relativePath entry.name
  status := entry.status
  newerSide := entry.newerSide
  isDirectory := entry.isDirectory
  depth := depth

/-- The directory itself becomes what its subtree says. -/
def setChanged (state : WalkState) (index : Nat) : WalkState :=
  { state with entries := state.entries.modify index fun row => { row with status := .changed } }

/-- The loop over the entries of one level. -/
def compareRows (limits : RecursiveFolderCompareLimits) (below : Bytes → WalkState → Descent)
    (relativePath : Bytes) (depth : Nat) :
    List FolderCompareEntry → FolderCompareStatus → WalkState → Descent
  | [], strongest, state => (.ok strongest, state)
  | entry :: rest, strongest, state =>
    if state.entries.length ≥ limits.maximumEntries then (.error .tooLarge, state)
    else
      let row := rowOf relativePath depth entry
      let index := state.entries.length
      let state := { state with entries := state.entries ++ [row] }
      let descent : Descent := if descends entry then below row.relativePath state else (.ok .same, state)
      match descent with
      | (.error failure, state) => (.error failure, state)
      | (.ok status, state) =>
        let state := if status ≠ .same then setChanged state index else state
        let differs := (state.entries[index]?).any (·.status ≠ .same)
        compareRows limits below relativePath depth rest
          (if differs then .changed else strongest) state

/-- `Descend` with `maximum_depth + 1 - _depth` levels left. -/
def Walk.descend (walk : Walk) : Nat → Bytes → Nat → WalkState → Descent
  | levels, relativePath, depth, state =>
    let state' := { state with descents := state.descents + 1 }
    if walk.isCancelled state.descents then (.error .cancelled, state')
    else
      match levels with
      | 0 => (.error .tooDeep, state')
      | levels + 1 =>
        match walk.left relativePath with
        | none => (.error .unreadable, state')
        | some leftItems =>
          match walk.right relativePath with
          | none => (.error .unreadable, state')
          | some rightItems =>
            match compareFolders leftItems rightItems walk.options with
            | .error _ => (.error .invalidListing, state')
            | .ok level =>
              compareRows walk.limits
                (fun child state => Walk.descend walk levels child (depth + 1) state)
                relativePath depth level.entries .same state'

def Walk.start (walk : Walk) : Descent := walk.descend (walk.limits.maximumDepth + 1) [] 0 {}

def compareFoldersRecursively (left right : RecursiveFolderCompareLister)
    (options : FolderCompareOptions) (limits : RecursiveFolderCompareLimits)
    (isCancelled : Nat → Bool) : Except RecursiveFolderCompareFailure RecursiveFolderComparison :=
  match (Walk.mk left right options limits isCancelled).start with
  | (.error failure, _) => .error failure
  | (.ok _, state) => .ok ⟨state.entries⟩

@[simp] theorem setChanged_length (state : WalkState) (index : Nat) :
    (setChanged state index).entries.length = state.entries.length := length_modify _ _ _

@[simp] theorem setChanged_descents (state : WalkState) (index : Nat) :
    (setChanged state index).descents = state.descents := rfl

/-! ## The budgets -/

/-- The entries keep to their budget, and every descent but one is behind an entry. -/
structure WithinBudget (limits : RecursiveFolderCompareLimits) (state : WalkState) : Prop where
  entries : state.entries.length ≤ limits.maximumEntries
  descents : state.descents ≤ state.entries.length + 1

variable {below : Bytes → WalkState → Descent} {limits : RecursiveFolderCompareLimits} (walk : Walk)

theorem compareRows_withinBudget
    (hbelow : ∀ path state, state.entries.length ≤ limits.maximumEntries → state.descents ≤ state.entries.length → WithinBudget limits (below path state).2)
    (path : Bytes) (depth : Nat) (rows : List FolderCompareEntry) (strongest : FolderCompareStatus)
    (h : WithinBudget limits state) :
    WithinBudget limits (compareRows limits below path depth rows strongest state).2 := by
  induction rows generalizing strongest state with
  | nil => exact h
  | cons entry rest ih =>
    unfold compareRows
    by_cases hfull : state.entries.length ≥ limits.maximumEntries
    · rw [if_pos hfull]
      exact h
    rw [if_neg hfull]
    dsimp only
    have hpushed : (state.entries ++ [rowOf path depth entry]).length ≤ limits.maximumEntries := by
      simp
      omega
    have hdescents : state.descents ≤ (state.entries ++ [rowOf path depth entry]).length := by
      have := h.descents
      simp
      omega
    generalize hdescent : (if descends entry = true then
      below (rowOf path depth entry).relativePath
        { state with entries := state.entries ++ [rowOf path depth entry] }
      else (.ok .same, { state with entries := state.entries ++ [rowOf path depth entry] })) = descent
    have hafter : WithinBudget limits descent.2 := by
      rw [← hdescent]
      split
      · exact hbelow _ _ hpushed hdescents
      · exact ⟨hpushed, Nat.le_succ_of_le hdescents⟩
    obtain ⟨outcome, state'⟩ := descent
    cases outcome with
    | error failure => exact hafter
    | ok status =>
      refine ih _ ?_
      split
      · exact ⟨by simpa using hafter.entries, by simpa using hafter.descents⟩
      · exact hafter

theorem descend_withinBudget (levels : Nat) (path : Bytes) (depth : Nat)
    (hentries : state.entries.length ≤ walk.limits.maximumEntries)
    (hdescents : state.descents ≤ state.entries.length) :
    WithinBudget walk.limits (walk.descend levels path depth state).2 := by
  induction levels generalizing path depth state with
  | zero =>
    have hstate : WithinBudget walk.limits { state with descents := state.descents + 1 } :=
      ⟨hentries, Nat.succ_le_succ hdescents⟩
    unfold Walk.descend
    split <;> exact hstate
  | succ levels ih =>
    have hstate : WithinBudget walk.limits { state with descents := state.descents + 1 } :=
      ⟨hentries, Nat.succ_le_succ hdescents⟩
    unfold Walk.descend
    dsimp only
    split
    · exact hstate
    split
    · exact hstate
    split
    · exact hstate
    split
    · exact hstate
    · exact compareRows_withinBudget (fun child state hentries hdescents =>
        ih child (depth + 1) hentries hdescents) _ _ _ _ hstate

theorem start_withinBudget : WithinBudget walk.limits walk.start.2 := by
  exact descend_withinBudget walk (walk.limits.maximumDepth + 1) [] 0 (Nat.zero_le _) (Nat.le_refl _)

/-! ## What a walk reports -/

/-- The names on the way from the root to an entry, with what is said of it. -/
abbrev Reports := List (List Bytes × RecursiveFolderCompareEntry)

/-- The relative path that is made of the names. -/
def pathOf (names : List Bytes) : Bytes := names.foldl joinRelative []

theorem pathOf_append (names : List Bytes) (name : Bytes) :
    pathOf (names ++ [name]) = joinRelative (pathOf names) name := by
  unfold pathOf
  rw [foldl_append]
  rfl

/-- What the reports of a subtree make of it. -/
def verdict (reports : Reports) : FolderCompareStatus :=
  if reports.all (·.2.status == .same) then .same else .changed

/-- The reports of the rows of one level, by what is said of the levels below. -/
inductive Rows (below : List Bytes → Reports → Prop) (names : List Bytes) :
    List FolderCompareEntry → Reports → Prop where
  | nil : Rows below names [] []
  | leaf {entry : FolderCompareEntry} {rest : List FolderCompareEntry} {reports : Reports}
      (hleaf : descends entry = false) (hrest : Rows below names rest reports) :
      Rows below names (entry :: rest)
        ((names ++ [entry.name], rowOf (pathOf names) names.length entry) :: reports)
  | directory {entry : FolderCompareEntry} {rest : List FolderCompareEntry} {inner reports : Reports}
      (hdescends : descends entry = true) (hinner : below (names ++ [entry.name]) inner)
      (hrest : Rows below names rest reports) : Rows below names (entry :: rest)
        ((names ++ [entry.name],
          { rowOf (pathOf names) names.length entry with status := verdict inner }) ::
            (inner ++ reports))

/-- The reports of the level of a directory, and of everything below. -/
def Level (walk : Walk) : Nat → List Bytes → Reports → Prop
  | 0, _, _ => False
  | levels + 1, names, reports =>
    ∃ left right comparison, walk.left (pathOf names) = some left ∧
      walk.right (pathOf names) = some right ∧
      compareFolders left right walk.options = .ok comparison ∧
      Rows (Level walk levels) names comparison.entries reports

theorem verdict_cons (names : List Bytes) (row : RecursiveFolderCompareEntry) (reports : Reports) :
    verdict ((names, row) :: reports) = if row.status = .same then verdict reports else .changed := by
  unfold verdict
  rw [all_cons]
  by_cases h : row.status = .same
  · rw [if_pos h, beq_iff_eq.mpr h, Bool.true_and]
  · rw [if_neg h, beq_eq_false_iff_ne.mpr h, Bool.false_and]
    rfl

theorem verdict_append (first second : Reports) :
    verdict (first ++ second) = if verdict first = .same then verdict second else .changed := by
  unfold verdict
  rw [all_append]
  cases first.all (·.2.status == .same) with
  | false => rfl
  | true => rw [Bool.true_and, if_pos rfl, if_pos rfl]

theorem modify_append_cons (before : List α) (item : α) (after : List α) (f : α → α) :
    (before ++ item :: after).modify before.length f = before ++ f item :: after := by
  induction before with
  | nil => rfl
  | cons head before ih =>
    rw [cons_append, length_cons, modify_succ_cons, ih, cons_append]

theorem getElem?_append_cons (before : List α) (item : α) (after : List α) :
    (before ++ item :: after)[before.length]? = some item := by
  rw [List.getElem?_append_right (Nat.le_refl _), Nat.sub_self]
  rfl

variable {names : List Bytes} {rows : List FolderCompareEntry}

theorem compareRows_reports {Below : List Bytes → Reports → Prop}
    (hbelow : ∀ name state status state', below (pathOf (names ++ [name])) state = (.ok status, state') → ∃ inner, Below (names ++ [name]) inner ∧ state'.entries = state.entries ++ inner.map (·.2) ∧ status = verdict inner)
    (h : compareRows limits below (pathOf names) names.length rows strongest state = (.ok status, state')) :
    ∃ reports, Rows Below names rows reports ∧ state'.entries = state.entries ++ reports.map (·.2) ∧
      status = if verdict reports = .same then strongest else .changed := by
  induction rows generalizing strongest state with
  | nil =>
    cases h
    exact ⟨[], .nil, by simp, rfl⟩
  | cons entry rest ih =>
    unfold compareRows at h
    by_cases hfull : state.entries.length ≥ limits.maximumEntries
    · rw [if_pos hfull] at h
      cases h
    rw [if_neg hfull] at h
    dsimp only at h
    cases hdescends : descends entry with
    | false =>
      rw [hdescends] at h
      obtain ⟨reports, hrows, hentries, hstatus⟩ := ih h
      refine ⟨_, .leaf hdescends hrows, ?_, ?_⟩
      · rw [hentries]
        simp
      · rw [hstatus, verdict_cons]
        grind [rowOf]
    | true =>
      rw [hdescends] at h
      simp only [if_true] at h
      have hpath : (rowOf (pathOf names) names.length entry).relativePath =
          pathOf (names ++ [entry.name]) := (pathOf_append names entry.name).symm
      rw [hpath] at h
      generalize hdescent : below (pathOf (names ++ [entry.name]))
        { state with entries := state.entries ++ [rowOf (pathOf names) names.length entry] } =
          descent at h
      obtain ⟨outcome, after⟩ := descent
      cases outcome with
      | error failure => cases h
      | ok below =>
        obtain ⟨inner, hinner, hafter, hverdict⟩ := hbelow _ _ _ _ hdescent
        dsimp only at h
        -- The row is set when its subtree differs; either way it has the verdict of it.
        have hrow : (if below ≠ .same then setChanged after state.entries.length else after).entries =
            state.entries ++ ({ rowOf (pathOf names) names.length entry with
              status := verdict inner } : RecursiveFolderCompareEntry) :: inner.map (·.2) := by
          have hsame : entry.status = .same := by
            exact beq_iff_eq.mp (Bool.and_eq_true_iff.mp hdescends).2
          rw [append_assoc, singleton_append] at hafter
          by_cases hbelow : below = .same
          · rw [if_neg (not_not.mpr hbelow), hafter, ← hverdict, hbelow]
            unfold rowOf
            rw [hsame]
          · have hchanged : verdict inner = .changed := by
              rw [hverdict] at hbelow
              unfold verdict at hbelow ⊢
              grind
            rw [if_pos hbelow, hchanged]
            unfold setChanged
            dsimp only
            rw [hafter, modify_append_cons]
        obtain ⟨reports, hrows, hentries, hstatus⟩ := ih h
        refine ⟨_, .directory hdescends hinner hrows, ?_, ?_⟩
        · rw [hentries, hrow]
          simp
        · rw [hstatus, verdict_cons, verdict_append]
          dsimp only
          grind

theorem descend_reports
    (h : walk.descend levels (pathOf names) names.length state = (.ok status, state')) :
    ∃ reports, Level walk levels names reports ∧
      state'.entries = state.entries ++ reports.map (·.2) ∧ status = verdict reports := by
  induction levels generalizing names status state state' with
  | zero =>
    unfold Walk.descend at h
    split at h <;> cases h
  | succ levels ih =>
    unfold Walk.descend at h
    dsimp only at h
    split at h
    · cases h
    split at h
    · cases h
    next left hleft =>
    split at h
    · cases h
    next right hright =>
    split at h
    · cases h
    next comparison hcomparison =>
    have hbelow : ∀ name state status state',
        walk.descend levels (pathOf (names ++ [name])) (names.length + 1) state = (.ok status, state') →
        ∃ inner, Level walk levels (names ++ [name]) inner ∧
          state'.entries = state.entries ++ inner.map (·.2) ∧ status = verdict inner := by
      intro name state status state' h
      have hlength : names.length + 1 = (names ++ [name]).length := by simp
      rw [hlength] at h
      exact ih h
    obtain ⟨reports, hrows, hentries, hstatus⟩ := compareRows_reports hbelow h
    refine ⟨reports, ⟨left, right, comparison, hleft, hright, hcomparison, hrows⟩, hentries, ?_⟩
    rw [hstatus]
    unfold verdict
    split <;> rfl

/-! ## Equal trees -/

/-- The trees that two listers describe are equal at this path and at every depth below. -/
inductive TreesEqual (left right : RecursiveFolderCompareLister) (options : FolderCompareOptions) :
    Bytes → Prop where
  | level {path : Bytes} {leftItems rightItems : List FolderCompareItem}
      (hleft : left path = some leftItems) (hright : right path = some rightItems)
      (hagree : ∀ name, Agree options (itemOf leftItems name) (itemOf rightItems name))
      (hbelow : ∀ name item, itemOf leftItems name = some item → item.isDirectory = true →
        TreesEqual left right options (joinRelative path name)) : TreesEqual left right options path

theorem descends_entryFor_iff : descends (entryFor options left right name) ↔
      ∃ item item', itemOf left name = some item ∧ itemOf right name = some item' ∧
        item.isDirectory ∧ item'.isDirectory := by
  unfold descends entryFor
  cases itemOf left name with
  | none => cases itemOf right name <;> simp [judged]
  | some item =>
    cases itemOf right name with
    | none => simp [judged]
    | some item' =>
      unfold judged matchedEntry compareFiles
      grind

theorem rows_verdict {below : List Bytes → Reports → Prop} {equal : Bytes → Prop}
    (hbelow : ∀ name inner, below (names ++ [name]) inner → (verdict inner = .same ↔ equal (joinRelative (pathOf names) name)))
    (h : Rows below names rows reports) :
    verdict reports = .same ↔ ∀ entry ∈ rows, entry.status = .same ∧
      (descends entry → equal (joinRelative (pathOf names) entry.name)) := by
  induction h with
  | nil => simp [verdict]
  | @leaf entry rest reports hleaf hrest ih =>
    have hcons := verdict_cons (names ++ [entry.name]) (rowOf (pathOf names) names.length entry) reports
    rw [hcons, forall_mem_cons, ← ih, hleaf]
    have hstatus : (rowOf (pathOf names) names.length entry).status = entry.status := rfl
    rw [hstatus]
    by_cases hsame : entry.status = .same <;> simp [hsame]
  | @directory entry rest inner reports hdescends hinner hrest ih =>
    have hsame : entry.status = .same := by
      exact beq_iff_eq.mp (Bool.and_eq_true_iff.mp hdescends).2
    rw [verdict_cons, verdict_append, forall_mem_cons, ← ih, hdescends,
      ← hbelow entry.name inner hinner, hsame]
    by_cases hverdict : verdict inner = .same <;> simp [hverdict]

theorem level_verdict (h : Level walk levels names reports) :
    verdict reports = .same ↔ TreesEqual walk.left walk.right walk.options (pathOf names) := by
  induction levels generalizing names reports with
  | zero => exact absurd h id
  | succ levels ih =>
    obtain ⟨left, right, comparison, hleft, hright, hcomparison, hrows⟩ := h
    obtain ⟨htolerance, hlisting, hlisting', hentries⟩ := compareFolders_ok_iff.mp hcomparison
    have hbelow : ∀ name inner, Level walk levels (names ++ [name]) inner → (verdict inner = .same ↔
          TreesEqual walk.left walk.right walk.options (joinRelative (pathOf names) name)) := by
      intro name inner hinner
      rw [ih hinner, pathOf_append]
    rw [rows_verdict hbelow hrows, hentries, forall_mem_map]
    have hstatus : ∀ name, (entryFor walk.options left right name).status = .same ↔
        Agree walk.options (itemOf left name) (itemOf right name) :=
      fun name => judged_same_iff htolerance _ _
    constructor
    · intro hall
      refine .level hleft hright ?_ ?_
      · intro name
        by_cases hname : name ∈ unionNames left right
        · exact (hstatus name).mp (hall name hname).1
        · rw [mem_unionNames, not_or, not_not, not_not] at hname
          rw [hname.1, hname.2]
          exact trivial
      · intro name item hitem hdirectory
        have hname : name ∈ unionNames left right := mem_unionNames.mpr (.inl (by rw [hitem]; simp))
        obtain ⟨hsame, hequal⟩ := hall name hname
        refine hequal (descends_entryFor_iff.mpr ?_)
        have hagree := (hstatus name).mp hsame
        rw [hitem] at hagree
        cases hitem' : itemOf right name with
        | none =>
          rw [hitem'] at hagree
          exact absurd hagree id
        | some item' =>
          rw [hitem'] at hagree
          exact ⟨item, item', hitem, rfl, hdirectory, hagree.1 ▸ hdirectory⟩
    · intro hequal name _
      cases hequal with
      | level hleft' hright' hagree hbelow' =>
        rw [hleft] at hleft'
        rw [hright] at hright'
        cases hleft'
        cases hright'
        refine ⟨(hstatus name).mpr (hagree name), fun hdescends => ?_⟩
        obtain ⟨item, item', hitem, hitem', hdirectory, hdirectory'⟩ :=
          descends_entryFor_iff.mp hdescends
        exact hbelow' name item hitem hdirectory

end WinCommander.Compare
