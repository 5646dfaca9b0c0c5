/-
  `PlanOneWaySync`: what a sync in one direction would do with each compared name.

  Planning from the right to the left is planning from the left to the right with the sides
  exchanged (`planAction_swap`), so that every action depends on what the source and the
  destination have of its name (`actionFor`). `performSync` carries a plan out.
-/
import WinCommander.Compare.FolderComparison

namespace WinCommander.Compare

open Library List

/-! ## The data -/

inductive FolderSyncDirection where
  | leftToRight | rightToLeft
deriving DecidableEq

inductive FolderSyncActionKind where
  | create | overwrite | delete | skip
deriving DecidableEq

inductive FolderSyncSkipReason where
  | none | identical | typeConflict | directoryContentsNotCompared | deletionNotRequested
  | overwriteNotRequested
deriving DecidableEq

structure FolderSyncOptions where
  overwriteChanged : Bool := true
  deleteExtraneous : Bool := false
deriving DecidableEq

structure FolderSyncAction where
  name : Bytes
  kind : FolderSyncActionKind := .skip
  skipReason : FolderSyncSkipReason := .none
  isDirectory : Bool := false
  sourceIndex : Option Nat := none
  destinationIndex : Option Nat := none
  overwritesNewerDestination : Bool := false
deriving DecidableEq

structure FolderSyncPlan where
  direction : FolderSyncDirection := .leftToRight
  actions : List FolderSyncAction := []
deriving DecidableEq

/-- The plan would change nothing on the destination. -/
def FolderSyncPlan.isEmpty (plan : FolderSyncPlan) : Bool := plan.actions.all (·.kind == .skip)

/-! ## Planning -/

structure DirectedEntry where
  sourceIndex : Option Nat
  destinationIndex : Option Nat
  sourceOnly : Bool
  destinationOnly : Bool
  destinationNewer : Bool

def direct (entry : FolderCompareEntry) : FolderSyncDirection → DirectedEntry
  | .leftToRight => {
      sourceIndex := entry.leftIndex
      destinationIndex := entry.rightIndex
      sourceOnly := entry.status = .leftOnly
      destinationOnly := entry.status = .rightOnly
      destinationNewer := entry.newerSide = .right }
  | .rightToLeft => {
      sourceIndex := entry.rightIndex
      destinationIndex := entry.leftIndex
      sourceOnly := entry.status = .rightOnly
      destinationOnly := entry.status = .leftOnly
      destinationNewer := entry.newerSide = .left }

def skipped (entry : FolderCompareEntry) (directed : DirectedEntry) (reason : FolderSyncSkipReason) :
    FolderSyncAction where
  name := entry.name
  kind := .skip
  skipReason := reason
  isDirectory := entry.isDirectory
  sourceIndex := directed.sourceIndex
  destinationIndex := directed.destinationIndex

/-- The loop's body. -/
def planAction (direction : FolderSyncDirection) (options : FolderSyncOptions)
    (entry : FolderCompareEntry) : FolderSyncAction :=
  let directed := direct entry direction
  let action (kind : FolderSyncActionKind) : FolderSyncAction := {
    name := entry.name
    kind
    isDirectory := entry.isDirectory
    sourceIndex := directed.sourceIndex
    destinationIndex := directed.destinationIndex }
  if entry.status = .conflict then skipped entry directed .typeConflict
  else if entry.status = .same then
    skipped entry directed (if entry.isDirectory then .directoryContentsNotCompared else .identical)
  else if directed.sourceOnly then action .create
  else if directed.destinationOnly then
    if !options.deleteExtraneous then skipped entry directed .deletionNotRequested
    else action .delete
  else if !options.overwriteChanged then skipped entry directed .overwriteNotRequested
  else { action .overwrite with overwritesNewerDestination := directed.destinationNewer }

def planOneWaySync (comparison : FolderComparison) (direction : FolderSyncDirection)
    (options : FolderSyncOptions) : FolderSyncPlan where
  direction
  actions := comparison.entries.map (planAction direction options)

/-! ## Carrying a plan out -/

/-- A copy has the attributes of the source entry. -/
def performAction (source destination : List FolderCompareItem) (action : FolderSyncAction) :
    List FolderCompareItem :=
  let copied := action.sourceIndex.bind (source[·]?)
  match action.kind with
  | .create => destination ++ copied.toList
  | .overwrite => destination.map fun item => if item.name = action.name then copied.getD item else item
  | .delete => destination.filter (·.name ≠ action.name)
  | .skip => destination

def performSync (source destination : List FolderCompareItem) (actions : List FolderSyncAction) :
    List FolderCompareItem :=
  actions.foldl (performAction source) destination

/-- Only the destination changes. -/
def FolderSyncPlan.perform (plan : FolderSyncPlan) (left right : List FolderCompareItem) :
    List FolderCompareItem × List FolderCompareItem :=
  match plan.direction with
  | .leftToRight => (left, performSync left right plan.actions)
  | .rightToLeft => (performSync right left plan.actions, right)

/-! ## Exchanged sides -/

def FolderSyncDirection.swap : FolderSyncDirection → FolderSyncDirection
  | .leftToRight => .rightToLeft
  | .rightToLeft => .leftToRight

variable (direction : FolderSyncDirection)

theorem planAction_swap (options : FolderSyncOptions) (entry : FolderCompareEntry) :
    planAction direction.swap options entry.swap = planAction direction options entry := by
  obtain ⟨name, status, newerSide, leftIndex, rightIndex, isDirectory⟩ := entry
  cases direction <;> cases status <;> cases newerSide <;> rfl

/-- What the plan does with a name, from the side that feeds to the side that is changed. -/
def actionFor (options : FolderCompareOptions) (syncOptions : FolderSyncOptions)
    (source destination : List FolderCompareItem) (name : Bytes) : FolderSyncAction :=
  planAction .leftToRight syncOptions (entryFor options source destination name)

theorem planAction_rightToLeft (options : FolderCompareOptions) (syncOptions : FolderSyncOptions)
    (left right : List FolderCompareItem) (name : Bytes) :
    planAction .rightToLeft syncOptions (entryFor options left right name) =
      actionFor options syncOptions right left name := by
  unfold actionFor
  rw [entryFor_swap options left right]
  exact (planAction_swap .rightToLeft syncOptions _).symm

@[simp] theorem planAction_name (options : FolderSyncOptions) (entry : FolderCompareEntry) :
    (planAction direction options entry).name = entry.name := by
  unfold planAction skipped
  dsimp only
  split
  · rfl
  split
  · rfl
  split
  · rfl
  split
  · split <;> rfl
  split <;> rfl

@[simp] theorem actionFor_name (options : FolderCompareOptions) (syncOptions : FolderSyncOptions)
    (source destination : List FolderCompareItem) (name : Bytes) :
    (actionFor options syncOptions source destination name).name = name :=
  planAction_name _ _ _

/-! ## What a sync leaves -/

section

variable (options : FolderCompareOptions) (syncOptions : FolderSyncOptions)
variable {source destination : List FolderCompareItem}

/-- The action of a name, by what the two sides have of it. -/
theorem actionFor_kind (name : Bytes) :
    (actionFor options syncOptions source destination name).kind =
      match itemOf source name, itemOf destination name with
      | some _, none => .create
      | none, some _ => if syncOptions.deleteExtraneous then .delete else .skip
      | some left, some right =>
        if (matchedEntry options 0 0 left right).status = .changed ∧ syncOptions.overwriteChanged
        then .overwrite else .skip
      | none, none => .skip := by
  unfold actionFor planAction skipped direct entryFor
  cases hsource : itemOf source name with
  | none =>
    cases hdestination : itemOf destination name with
    | none => rfl
    | some right => cases hdelete : syncOptions.deleteExtraneous <;> rfl
  | some left =>
    cases hdestination : itemOf destination name with
    | none => rfl
    | some right =>
      have hmatched : (matchedEntry options 0 0 left right).status = .conflict ∨
          (matchedEntry options 0 0 left right).status = .same ∨
          (matchedEntry options 0 0 left right).status = .changed := by
        unfold matchedEntry compareFiles
        grind
      unfold judged
      obtain h | h | h := hmatched
      · simp [h]
      · simp [h]
      · cases hoverwrite : syncOptions.overwriteChanged <;> simp [h]

theorem actionFor_sourceIndex (name : Bytes) :
    (actionFor options syncOptions source destination name).sourceIndex = positionOf source name := by
  unfold actionFor planAction skipped direct entryFor
  grind

theorem source_of_create {name : Bytes}
    (h : (actionFor options syncOptions source destination name).kind = .create) :
    ∃ copied, itemOf source name = some copied ∧ itemOf destination name = none := by
  rw [actionFor_kind] at h
  grind

theorem source_of_overwrite {name : Bytes}
    (h : (actionFor options syncOptions source destination name).kind = .overwrite) :
    ∃ copied replaced, itemOf source name = some copied ∧ itemOf destination name = some replaced := by
  rw [actionFor_kind] at h
  grind

/-- The item that is copied. -/
theorem copied_eq (name : Bytes) :
    ((actionFor options syncOptions source destination name).sourceIndex.bind (source[·]?)) =
      itemOf source name := by
  rw [actionFor_sourceIndex]
  cases hfound : positionOf source name with
  | none => exact (itemOf_eq_none_of_position hfound).symm
  | some found => exact getElem?_positionOf hfound

/-- What is left of a name on the destination. -/
def itemAfter (source destination : List FolderCompareItem) (name : Bytes) : Option FolderCompareItem :=
  match (actionFor options syncOptions source destination name).kind with
  | .create | .overwrite => itemOf source name
  | .delete => none
  | .skip => itemOf destination name

end

variable (items : List FolderCompareItem)

theorem itemOf_replace (copied : FolderCompareItem) (name : Bytes) :
    itemOf (items.map fun item => if item.name = copied.name then copied else item) name =
      if name = copied.name then (itemOf items name).map fun _ => copied else itemOf items name := by
  unfold itemOf
  induction items with
  | nil => simp
  | cons item items ih =>
    rw [map_cons]
    by_cases hitem : item.name = copied.name
    · rw [if_pos hitem]
      by_cases hname : copied.name = name
      · simp [hname, hitem]
      · simp [beq_eq_false_iff_ne.mpr hname, hitem, ih]
    · rw [if_neg hitem]
      by_cases hname : item.name = name
      · have hne : name ≠ copied.name := hname ▸ hitem
        simp [hname, hne]
      · simp [beq_eq_false_iff_ne.mpr hname, ih]

theorem itemOf_remove (removed name : Bytes) : itemOf (items.filter (·.name ≠ removed)) name =
      if name = removed then none else itemOf items name := by
  unfold itemOf
  induction items with
  | nil => simp
  | cons item items ih =>
    by_cases hitem : item.name = removed
    · rw [filter_cons_of_neg (by simp [hitem]), ih, List.find?_cons, hitem]
      by_cases hname : name = removed
      · simp [hname]
      · simp [if_neg hname, beq_eq_false_iff_ne.mpr (Ne.symm hname)]
    · rw [filter_cons_of_pos (by simp [hitem]), List.find?_cons, ih, List.find?_cons]
      by_cases hname : item.name = name
      · have hne : name ≠ removed := hname ▸ hitem
        simp [hname, hne]
      · simp [beq_eq_false_iff_ne.mpr hname]

theorem listing_iff_names {items : List FolderCompareItem} : Listing items ↔
      (∀ name ∈ items.map (·.name), name ≠ [] ∧ isReservedName name = false) ∧
        (items.map (·.name)).Nodup := by
  rw [forall_mem_map]
  constructor
  · intro h
    exact ⟨fun item hitem => ⟨h.named item hitem, h.unreserved item hitem⟩, h.distinct⟩
  · rintro ⟨hvalid, hdistinct⟩
    exact ⟨fun item hitem => (hvalid item hitem).1, fun item hitem => (hvalid item hitem).2, hdistinct⟩

section

variable (options : FolderCompareOptions) (syncOptions : FolderSyncOptions)
variable {source destination current : List FolderCompareItem}

variable {name : Bytes}

/-- One action leaves the items of other names as they are. -/
theorem itemOf_performAction (hcurrent : itemOf current name = itemOf destination name)
    (key : Bytes) :
    itemOf (performAction source current (actionFor options syncOptions source destination name)) key =
      if key = name then itemAfter options syncOptions source destination name
      else itemOf current key := by
  unfold performAction itemAfter
  rw [copied_eq]
  cases hkind : (actionFor options syncOptions source destination name).kind with
  | create =>
    obtain ⟨copied, hcopied, hnone⟩ := source_of_create options syncOptions hkind
    have hname := itemOf_name hcopied
    rw [hnone] at hcurrent
    rw [hcopied]
    dsimp only
    unfold itemOf at hcurrent ⊢
    rw [Option.toList_some, List.find?_append]
    split_ifs with hkey
    · rw [hkey, hcurrent]
      simp [hname]
    · simp [hname, Ne.symm hkey]
  | overwrite =>
    obtain ⟨copied, replaced, hcopied, hreplaced⟩ := source_of_overwrite options syncOptions hkind
    have hname := itemOf_name hcopied
    rw [hcopied]
    dsimp only
    rw [actionFor_name, ← hname]
    simp only [Option.getD_some]
    rw [itemOf_replace, hname]
    by_cases hkey : key = name
    · rw [if_pos hkey, if_pos hkey, hkey, hcurrent, hreplaced]
      rfl
    · rw [if_neg hkey, if_neg hkey]
  | delete =>
    dsimp only
    rw [actionFor_name, itemOf_remove]
  | skip =>
    dsimp only
    split_ifs with hkey
    · rw [hkey, hcurrent]
    · rfl

theorem listing_performAction (hsource : Listing source) (hcurrent : Listing current)
    (hname : itemOf current name = itemOf destination name) :
    Listing (performAction source current (actionFor options syncOptions source destination name)) := by
  unfold performAction
  rw [copied_eq]
  cases hkind : (actionFor options syncOptions source destination name).kind with
  | create =>
    obtain ⟨copied, hcopied, hnone⟩ := source_of_create options syncOptions hkind
    rw [hnone, itemOf_eq_none_iff, ← itemOf_name hcopied] at hname
    rw [hcopied]
    dsimp only
    rw [listing_iff_names, Option.toList_some, map_append]
    obtain ⟨hvalid, hdistinct⟩ := listing_iff_names.mp hcurrent
    constructor
    · intro key hkey
      obtain hkey | hkey := mem_append.mp hkey
      · exact hvalid key hkey
      · rw [mem_singleton.mp hkey]
        exact (listing_iff_names.mp hsource).1 _ (mem_map_of_mem (itemOf_mem hcopied))
    · exact List.Nodup.append hdistinct (nodup_singleton _) (by simpa using hname)
  | overwrite =>
    obtain ⟨copied, replaced, hcopied, hreplaced⟩ := source_of_overwrite options syncOptions hkind
    have hnames : (current.map fun item => if item.name = copied.name then copied else item).map
        (·.name) = current.map (·.name) := by
      rw [map_map]
      refine map_congr_left fun item _ => ?_
      simp only [Function.comp_apply]
      split
      · next heq => exact heq.symm
      · rfl
    rw [hcopied]
    rw [actionFor_name, ← itemOf_name hcopied]
    simp only [Option.getD_some]
    rw [listing_iff_names, hnames]
    exact listing_iff_names.mp hcurrent
  | delete =>
    obtain ⟨hvalid, hdistinct⟩ := listing_iff_names.mp hcurrent
    dsimp only
    have hsub := (filter_sublist (p := fun item : FolderCompareItem =>
      decide (item.name ≠ (actionFor options syncOptions source destination name).name))
      (l := current)).map (·.name)
    rw [listing_iff_names]
    exact ⟨fun key hkey => hvalid key (hsub.subset hkey), hsub.nodup hdistinct⟩
  | skip => exact hcurrent

/-- The actions of distinct names. -/
theorem performSync_spec (hsource : Listing source) {names : List Bytes} (hnames : names.Nodup)
    (hcurrent : Listing current)
    (hsame : ∀ name ∈ names, itemOf current name = itemOf destination name) :
    Listing (performSync source current (names.map (actionFor options syncOptions source destination))) ∧
      ∀ key, itemOf (performSync source current
          (names.map (actionFor options syncOptions source destination))) key =
        if key ∈ names then itemAfter options syncOptions source destination key
        else itemOf current key := by
  induction names generalizing current with
  | nil => exact ⟨hcurrent, fun key => by simp [performSync]⟩
  | cons name names ih =>
    rw [nodup_cons] at hnames
    obtain ⟨hname, hsame⟩ := forall_mem_cons.mp hsame
    have hitem : ∀ key, itemOf (performAction source current
          (actionFor options syncOptions source destination name)) key =
        if key = name then itemAfter options syncOptions source destination name
        else itemOf current key :=
      itemOf_performAction options syncOptions hname
    have hother : ∀ other ∈ names, itemOf (performAction source current
        (actionFor options syncOptions source destination name)) other = itemOf destination other := by
      intro other hother
      have hne : other ≠ name := fun heq => hnames.1 (heq ▸ hother)
      rw [hitem, if_neg hne]
      exact hsame other hother
    obtain ⟨hlisting, hitems⟩ :=
      ih hnames.2 (listing_performAction options syncOptions hsource hcurrent hname) hother
    refine ⟨hlisting, fun key => (hitems key).trans ?_⟩
    by_cases hkey : key ∈ names
    · rw [if_pos hkey, if_pos (mem_cons_of_mem _ hkey)]
    · rw [if_neg hkey, hitem]
      by_cases heq : key = name
      · rw [if_pos heq, if_pos (heq ▸ mem_cons_self), heq]
      · have hnot : key ∉ name :: names := by
          simp only [mem_cons, not_or]
          exact ⟨heq, hkey⟩
        rw [if_neg heq, if_neg hnot]

theorem matchedEntry_self (item : FolderCompareItem) (position position' : Nat) :
    (matchedEntry options position position' item item).status = .same := by
  unfold matchedEntry compareFiles newerSide
  simp only [ne_eq, not_true_eq_false, and_false, if_false, if_true]
  split <;> rfl

/-- A name that was synced compares as the same. -/
theorem entryFor_self {item : FolderCompareItem} (hsource : itemOf source name = some item)
    (hcurrent : itemOf current name = some item) :
    (entryFor options source current name).status = .same := by
  unfold entryFor judged
  rw [hsource, hcurrent]
  exact matchedEntry_self options item 0 0

section
variable (hcurrent : itemOf current name = itemAfter options syncOptions source destination name)
include hcurrent

/-- It is skipped from then on, and so is a name that was skipped. -/
theorem actionFor_after : (actionFor options syncOptions source current name).kind = .skip := by
  have hself := fun item => matchedEntry_self options item 0 0
  unfold itemAfter at hcurrent
  rw [actionFor_kind] at hcurrent ⊢
  cases hsource : itemOf source name with
  | none =>
    rw [hsource] at hcurrent
    cases hdestination : itemOf destination name with
    | none =>
      rw [hdestination] at hcurrent
      rw [hcurrent]
    | some right =>
      rw [hdestination] at hcurrent
      cases hdelete : syncOptions.deleteExtraneous <;> simp_all
  | some left =>
    rw [hsource] at hcurrent
    cases hdestination : itemOf destination name with
    | none =>
      rw [hdestination] at hcurrent
      rw [hcurrent]
      simp [hself]
    | some right =>
      rw [hdestination] at hcurrent
      by_cases hchanged : (matchedEntry options 0 0 left right).status = .changed ∧
          syncOptions.overwriteChanged = true
      · simp only [hchanged, and_self, if_true] at hcurrent
        rw [hcurrent]
        simp [hself]
      · simp only [if_neg hchanged] at hcurrent
        rw [hcurrent]
        dsimp only
        rw [if_neg hchanged]

theorem entryFor_after
    (hkind : (actionFor options syncOptions source destination name).kind ≠ .skip)
    (hname : name ∈ unionNames source current) :
    (entryFor options source current name).status = .same := by
  unfold itemAfter at hcurrent
  cases haction : (actionFor options syncOptions source destination name).kind with
  | create =>
    obtain ⟨copied, hcopied, -⟩ := source_of_create options syncOptions haction
    rw [haction, hcopied] at hcurrent
    exact entryFor_self options hcopied hcurrent
  | overwrite =>
    obtain ⟨copied, -, hcopied, -⟩ := source_of_overwrite options syncOptions haction
    rw [haction, hcopied] at hcurrent
    exact entryFor_self options hcopied hcurrent
  | delete =>
    have hnone : itemOf source name = none := by
      rw [actionFor_kind] at haction
      grind
    rw [haction] at hcurrent
    obtain h | h := mem_unionNames.mp hname
    · exact absurd hnone h
    · exact absurd hcurrent h
  | skip => exact absurd haction hkind

end

end

/-! ## Syncing again -/

/-- The two sides of a direction, the one that feeds first. -/
def FolderSyncDirection.sides (direction : FolderSyncDirection)
    (left right : List FolderCompareItem) : List FolderCompareItem × List FolderCompareItem :=
  match direction with
  | .leftToRight => (left, right)
  | .rightToLeft => (right, left)

variable {comparison : FolderComparison} {left right : List FolderCompareItem}
  {options : FolderCompareOptions}

/-- A plan of two listings, by what the sides have of each name. -/
theorem planOneWaySync_actions (h : compareFolders left right options = .ok comparison)
    (direction : FolderSyncDirection) (syncOptions : FolderSyncOptions) :
    (planOneWaySync comparison direction syncOptions).actions = (unionNames left right).map
        (actionFor options syncOptions (direction.sides left right).1 (direction.sides left right).2) := by
  obtain ⟨-, -, -, hentries⟩ := compareFolders_ok_iff.mp h
  unfold planOneWaySync
  rw [hentries, map_map]
  refine map_congr_left fun name _ => ?_
  cases direction with
  | leftToRight => rfl
  | rightToLeft => exact planAction_rightToLeft options syncOptions left right name

/-- What a plan has achieved when the sides are compared again. -/
structure Converged (plan : FolderSyncPlan) (syncOptions : FolderSyncOptions)
    (again : FolderComparison) : Prop where
  same : ∀ entry ∈ again.entries,
    (∀ action ∈ plan.actions, action.name = entry.name → action.kind ≠ .skip) → entry.status = .same
  settled : (planOneWaySync again plan.direction syncOptions).isEmpty = true

theorem mem_names_sides {name : Bytes} :
    name ∈ unionNames (direction.sides left right).1 (direction.sides left right).2 ↔
      name ∈ unionNames left right := by
  cases direction with
  | leftToRight => exact Iff.rfl
  | rightToLeft =>
    rw [mem_unionNames, mem_unionNames]
    exact or_comm

/-- Every name on the destination is what its action leaves. -/
theorem itemOf_performed {source destination : List FolderCompareItem} (hsource : Listing source)
    (hdestination : Listing destination) (options : FolderCompareOptions)
    (syncOptions : FolderSyncOptions) {names : List Bytes} (hnames : names.Nodup)
    (hall : ∀ name, name ∈ names ↔ name ∈ unionNames source destination) :
    Listing (performSync source destination
        (names.map (actionFor options syncOptions source destination))) ∧
      ∀ name, itemOf (performSync source destination
          (names.map (actionFor options syncOptions source destination))) name =
        itemAfter options syncOptions source destination name := by
  obtain ⟨hlisting, hitems⟩ :=
    performSync_spec options syncOptions hsource hnames hdestination fun _ _ => rfl
  refine ⟨hlisting, fun name => (hitems name).trans ?_⟩
  by_cases hname : name ∈ names
  · rw [if_pos hname]
  · have hnone := hname
    rw [hall, mem_unionNames, not_or, not_not, not_not] at hnone
    have hkind : (actionFor options syncOptions source destination name).kind = .skip := by
      rw [actionFor_kind, hnone.1, hnone.2]
    rw [if_neg hname]
    unfold itemAfter
    rw [hkind]

theorem status_sides (options : FolderCompareOptions) (left right : List FolderCompareItem)
    (name : Bytes) : (entryFor options left right name).status = .same ↔
      (entryFor options (direction.sides left right).1 (direction.sides left right).2 name).status =
        .same := by
  cases direction with
  | leftToRight => exact Iff.rfl
  | rightToLeft =>
    change _ ↔ (entryFor options right left name).status = .same
    rw [entryFor_swap options left right]
    change _ ↔ (entryFor options left right name).status.swap = .same
    cases (entryFor options left right name).status <;> decide

theorem perform_converged (h : compareFolders left right options = .ok comparison)
    (direction : FolderSyncDirection) (syncOptions : FolderSyncOptions) :
    ∃ again, compareFolders ((planOneWaySync comparison direction syncOptions).perform left right).1
        ((planOneWaySync comparison direction syncOptions).perform left right).2 options = .ok again ∧
      Converged (planOneWaySync comparison direction syncOptions) syncOptions again := by
  obtain ⟨htolerance, hleft, hright, -⟩ := compareFolders_ok_iff.mp h
  have hactions := planOneWaySync_actions h direction syncOptions
  obtain ⟨left', right', hperformed, hleft', hright', hitems⟩ :
      ∃ left' right', (planOneWaySync comparison direction syncOptions).perform left right =
          (left', right') ∧ Listing left' ∧ Listing right' ∧
        (direction.sides left' right').1 = (direction.sides left right).1 ∧
        ∀ name, itemOf (direction.sides left' right').2 name = itemAfter options syncOptions
          (direction.sides left right).1 (direction.sides left right).2 name := by
    unfold FolderSyncPlan.perform
    rw [hactions]
    have hnames := nodup_unionNames hleft hright
    have hall : ∀ name, name ∈ unionNames left right ↔
        name ∈ unionNames (direction.sides left right).1 (direction.sides left right).2 :=
      fun _ => (mem_names_sides direction).symm
    cases direction with
    | leftToRight =>
      obtain ⟨hlisting, hitems⟩ := itemOf_performed hleft hright options syncOptions hnames hall
      exact ⟨_, _, rfl, hleft, hlisting, rfl, hitems⟩
    | rightToLeft =>
      obtain ⟨hlisting, hitems⟩ := itemOf_performed hright hleft options syncOptions hnames hall
      exact ⟨_, _, rfl, hlisting, hright, rfl, hitems⟩
  obtain ⟨hsource, hitems⟩ := hitems
  have hagain : compareFolders left' right' options =
      .ok ⟨(unionNames left' right').map (entryFor options left' right')⟩ :=
    compareFolders_ok_iff.mpr ⟨htolerance, hleft', hright', rfl⟩
  refine ⟨_, by rw [hperformed]; exact hagain, ?_, ?_⟩
  · intro entry hentry hacted
    obtain ⟨name, hname, rfl⟩ := mem_map.mp hentry
    have hname' := (mem_names_sides direction).mpr hname
    rw [hsource] at hname'
    rw [status_sides direction, hsource]
    refine entryFor_after options syncOptions (hitems name) ?_ hname'
    by_cases hknown : name ∈ unionNames left right
    · refine hacted _ ?_ (actionFor_name _ _ _ _ name)
      rw [hactions]
      exact mem_map_of_mem hknown
    · -- A name that neither side had is on neither side afterwards.
      exfalso
      rw [← mem_names_sides direction, mem_unionNames, not_or, not_not, not_not] at hknown
      have hnone := hitems name
      unfold itemAfter at hnone
      rw [actionFor_kind, hknown.1, hknown.2] at hnone
      obtain hsome | hsome := mem_unionNames.mp hname'
      · exact hsome hknown.1
      · exact hsome hnone
  · unfold FolderSyncPlan.isEmpty
    rw [planOneWaySync_actions hagain, all_map, all_eq_true]
    intro name _
    have hskip := actionFor_after options syncOptions (hitems name)
    rw [← hsource] at hskip
    exact beq_iff_eq.mpr hskip

/-- Exchanging the sides of a comparison exchanges the directions. -/
def FolderComparison.swap (comparison : FolderComparison) : FolderComparison :=
  ⟨comparison.entries.map FolderCompareEntry.swap⟩

theorem planOneWaySync_swap (comparison : FolderComparison) (direction : FolderSyncDirection)
    (options : FolderSyncOptions) :
    (planOneWaySync comparison.swap direction.swap options).actions =
      (planOneWaySync comparison direction options).actions := by
  unfold planOneWaySync FolderComparison.swap
  rw [map_map]
  exact map_congr_left fun entry _ => planAction_swap direction options entry

/-- The listings exchanged: the same entries with their sides exchanged, in another order. -/
theorem compareFolders_swap (h : compareFolders left right options = .ok comparison) :
    ∃ swapped, compareFolders right left options = .ok swapped ∧
      swapped.entries.Perm comparison.swap.entries := by
  obtain ⟨htolerance, hleft, hright, hentries⟩ := compareFolders_ok_iff.mp h
  refine ⟨⟨(unionNames right left).map (entryFor options right left)⟩,
    compareFolders_ok_iff.mpr ⟨htolerance, hright, hleft, rfl⟩, ?_⟩
  have hswap : comparison.swap.entries = (unionNames left right).map (entryFor options right left) := by
    unfold FolderComparison.swap
    rw [hentries, map_map]
    exact map_congr_left fun name _ => (entryFor_swap options left right name).symm
  rw [hswap]
  exact (unionNames_perm hleft hright).map _

/-- What a one-way sync achieves, for each direction and all options. -/
theorem sync_converges {left right : List FolderCompareItem} {options : FolderCompareOptions}
    {comparison : FolderComparison} (h : compareFolders left right options = .ok comparison)
    (direction : FolderSyncDirection) (syncOptions : FolderSyncOptions) :
    (∃ again, compareFolders ((planOneWaySync comparison direction syncOptions).perform left right).1
        ((planOneWaySync comparison direction syncOptions).perform left right).2 options = .ok again ∧
      Converged (planOneWaySync comparison direction syncOptions) syncOptions again) ∧
    ((planOneWaySync comparison direction syncOptions).actions.map (·.name) =
        comparison.entries.map (·.name) ∧ (comparison.entries.map (·.name)).Nodup) ∧
    (planOneWaySync comparison.swap direction.swap syncOptions).actions =
      (planOneWaySync comparison direction syncOptions).actions ∧
    ∃ swapped, compareFolders right left options = .ok swapped ∧
      (planOneWaySync swapped direction.swap syncOptions).actions.Perm
        (planOneWaySync comparison direction syncOptions).actions := by
  obtain ⟨-, hleft, hright, hentries⟩ := compareFolders_ok_iff.mp h
  refine ⟨perform_converged h direction syncOptions, ⟨?_, ?_⟩, planOneWaySync_swap _ _ _, ?_⟩
  · unfold planOneWaySync
    rw [map_map]
    exact map_congr_left fun entry _ => planAction_name _ _ entry
  · rw [hentries, map_map]
    exact (map_id _).symm ▸ nodup_unionNames hleft hright
  · obtain ⟨swapped, hswapped, hperm⟩ := compareFolders_swap h
    refine ⟨swapped, hswapped, ?_⟩
    rw [← planOneWaySync_swap comparison direction syncOptions]
    exact hperm.map _

def itemNamed (name : Bytes) : FolderCompareItem := { name }

theorem sync_converges_copied :
    ∃ again, compareFolders [itemNamed [97]] [itemNamed [97]] {} = .ok again ∧
      again.identical = true := by
  have hcompared : compareFolders [itemNamed [97]] [] {} =
      .ok ⟨[{ name := [97], status := .leftOnly, leftIndex := some 0 }]⟩ := by decide
  obtain ⟨⟨again, hagain, hconverged⟩, -⟩ := sync_converges hcompared .leftToRight {}
  refine ⟨again, hagain, ?_⟩
  have heq : compareFolders [itemNamed [97]] [itemNamed [97]] {} =
      .ok ⟨[{ name := [97], leftIndex := some 0, rightIndex := some 0 }]⟩ := by decide
  have hsame : again = ⟨[{ name := [97], leftIndex := some 0, rightIndex := some 0 }]⟩ :=
    Except.ok.inj (hagain.symm.trans heq)
  rw [hsame]
  decide

/-- The entries stand in the order of the left listing, so that the exchanged plan has another
order. -/
theorem sync_swapped_reorders :
    ¬∀ (left right : List FolderCompareItem) (options : FolderCompareOptions)
      (syncOptions : FolderSyncOptions) (comparison swapped : FolderComparison),
      compareFolders left right options = .ok comparison →
      compareFolders right left options = .ok swapped →
      (planOneWaySync comparison .rightToLeft syncOptions).actions =
        (planOneWaySync swapped .leftToRight syncOptions).actions := by
  intro h
  have heq := h [itemNamed [97]] [itemNamed [98]] {} {}
    ⟨[{ name := [97], status := .leftOnly, leftIndex := some 0 },
      { name := [98], status := .rightOnly, rightIndex := some 0 }]⟩
    ⟨[{ name := [98], status := .leftOnly, leftIndex := some 0 },
      { name := [97], status := .rightOnly, rightIndex := some 0 }]⟩ (by decide) (by decide)
  cases heq

end WinCommander.Compare
