/-
  `BindSyncPlan`: the gate between a reviewed plan and its execution.

  A plan carries the positions that its listings had when they were compared. Binding reads the
  names that are there now, and refuses the plan when one that it reads has changed; it does not
  read the position of what is overwritten.
-/
import WinCommander.Compare.FolderSyncPlan

namespace WinCommander.Compare

open Library List Option

/-! ## Binding -/

/-- Positions to copy from the source, and positions to remove from the destination. -/
structure FolderSyncSubmission where
  copySourceIndices : List Nat := []
  deleteDestinationIndices : List Nat := []
deriving DecidableEq

/-- The position is added to those before it, if it is still that of the name. -/
def resolve (index : Option Nat) (names : List Bytes) (expected : Bytes) (out : List Nat) :
    Option (List Nat) :=
  match index with
  | none => none
  | some position =>
    if names.length ≤ position ∨ names[position]? ≠ some expected then none
    else some (out ++ [position])

def bindAction (sourceNames destinationNames : List Bytes) (submission : FolderSyncSubmission)
    (action : FolderSyncAction) : Option FolderSyncSubmission :=
  match action.kind with
  | .create | .overwrite =>
    (resolve action.sourceIndex sourceNames action.name submission.copySourceIndices).map
      fun copySourceIndices => { submission with copySourceIndices }
  | .delete =>
    (resolve action.destinationIndex destinationNames action.name
      submission.deleteDestinationIndices).map
      fun deleteDestinationIndices => { submission with deleteDestinationIndices }
  | .skip => some submission

/-- The first action that fails ends the loop. -/
def bindActions (sourceNames destinationNames : List Bytes) :
    FolderSyncSubmission → List FolderSyncAction → Option FolderSyncSubmission
  | submission, [] => some submission
  | submission, action :: rest =>
    match bindAction sourceNames destinationNames submission action with
    | none => none
    | some submission => bindActions sourceNames destinationNames submission rest

def bindSyncPlan (plan : FolderSyncPlan) (sourceNames destinationNames : List Bytes) :
    Option FolderSyncSubmission :=
  bindActions sourceNames destinationNames {} plan.actions

/-! ## What is read -/

/-- An index, where there is one, is that of an entry of the name. -/
def Refers (names : List Bytes) (name : Bytes) (index : Option Nat) : Prop :=
  ∀ position ∈ index, names[position]? = some name

instance (names : List Bytes) (name : Bytes) (index : Option Nat) :
    Decidable (Refers names name index) :=
  match index with
  | none => .isTrue nofun
  | some position => decidable_of_iff (names[position]? = some name) (by simp [Refers])

section

variable (sourceNames destinationNames : List Bytes)

/-- The index that binding an action reads is there and is still that of the name. -/
def Bindable (action : FolderSyncAction) : Prop :=
  match action.kind with
  | .create | .overwrite => action.sourceIndex ≠ none ∧ Refers sourceNames action.name action.sourceIndex
  | .delete =>
    action.destinationIndex ≠ none ∧ Refers destinationNames action.name action.destinationIndex
  | .skip => True

/-- The other index of an action, which binding does not read. -/
def UnreadRefers (action : FolderSyncAction) : Prop :=
  match action.kind with
  | .create | .overwrite => Refers destinationNames action.name action.destinationIndex
  | .delete => Refers sourceNames action.name action.sourceIndex
  | .skip => True

/-- Every index of an action refers to an entry of its name. -/
structure StillNames (action : FolderSyncAction) : Prop where
  source : Refers sourceNames action.name action.sourceIndex
  destination : Refers destinationNames action.name action.destinationIndex

/-- A plan is bound only while what its actions refer to has its name; else it is refused. -/
structure BindsOnlyNamed (plan : FolderSyncPlan) : Prop where
  bound : ∀ submission, bindSyncPlan plan sourceNames destinationNames = some submission →
    ∀ action ∈ plan.actions, action.kind ≠ .skip → StillNames sourceNames destinationNames action
  refused : (∃ action ∈ plan.actions, action.kind ≠ .skip ∧
      ¬StillNames sourceNames destinationNames action) →
    bindSyncPlan plan sourceNames destinationNames = none

end

section

variable {sourceNames destinationNames : List Bytes} {action : FolderSyncAction}

theorem resolve_eq_some_iff : resolve index names expected out = some result ↔
      index ≠ none ∧ Refers names expected index ∧ result = out ++ index.toList := by
  unfold resolve Refers
  cases index with
  | none => simp
  | some position =>
    have hrange : names.length ≤ position → names[position]? = none := List.getElem?_eq_none
    dsimp only
    by_cases hname : names[position]? = some expected
    · have hlt : ¬names.length ≤ position := by
        intro hle
        rw [hrange hle] at hname
        cases hname
      rw [if_neg (by simp [hname, hlt])]
      simp [hname, eq_comm]
    · simp [hname]

/-- An action is bound when the index that it needs still has its name. -/
theorem bindAction_isSome_iff (submission : FolderSyncSubmission) :
    (bindAction sourceNames destinationNames submission action).isSome ↔
      Bindable sourceNames destinationNames action := by
  unfold bindAction Bindable
  rw [isSome_iff_exists]
  cases action.kind with
  | create | overwrite | delete => simp [resolve_eq_some_iff]
  | skip => simp

theorem bindActions_isSome_iff (submission : FolderSyncSubmission) (actions : List FolderSyncAction) :
    (bindActions sourceNames destinationNames submission actions).isSome ↔
      ∀ action ∈ actions, Bindable sourceNames destinationNames action := by
  induction actions generalizing submission with
  | nil => simp [bindActions]
  | cons action rest ih =>
    have haction : (bindAction sourceNames destinationNames submission action).isSome ↔
        Bindable sourceNames destinationNames action := bindAction_isSome_iff submission
    rw [forall_mem_cons, ← haction]
    unfold bindActions
    cases bindAction sourceNames destinationNames submission action with
    | none => simp
    | some submission => simpa using ih submission

/-- A plan is refused as a whole when one of its actions is. -/
theorem bindSyncPlan_eq_none_iff : bindSyncPlan plan sourceNames destinationNames = none ↔
      ∃ action ∈ plan.actions, ¬Bindable sourceNames destinationNames action := by
  unfold bindSyncPlan
  rw [← not_isSome_iff_eq_none, bindActions_isSome_iff]
  push Not
  rfl

theorem stillNames_iff (hbindable : Bindable sourceNames destinationNames action)
    (hkind : action.kind ≠ .skip) : StillNames sourceNames destinationNames action ↔
      UnreadRefers sourceNames destinationNames action := by
  unfold Bindable at hbindable
  unfold UnreadRefers
  cases hcase : action.kind with
  | create | overwrite =>
    rw [hcase] at hbindable
    exact ⟨fun h => h.destination, fun h => ⟨hbindable.2, h⟩⟩
  | delete =>
    rw [hcase] at hbindable
    exact ⟨fun h => h.source, fun h => ⟨h, hbindable.2⟩⟩
  | skip => exact absurd hcase hkind

end

/-- Binding fails the contract when all that it reads has its name and something else has not. -/
theorem bindsOnlyNamed_iff (plan : FolderSyncPlan) (sourceNames destinationNames : List Bytes) :
    BindsOnlyNamed sourceNames destinationNames plan ↔
      (∃ action ∈ plan.actions, ¬Bindable sourceNames destinationNames action) ∨
        ∀ action ∈ plan.actions, UnreadRefers sourceNames destinationNames action := by
  by_cases hrefused : ∃ action ∈ plan.actions, ¬Bindable sourceNames destinationNames action
  · have hnone := bindSyncPlan_eq_none_iff.mpr hrefused
    refine iff_of_true ⟨fun submission hbound => ?_, fun _ => hnone⟩ (.inl hrefused)
    rw [hnone] at hbound
    cases hbound
  · have hbindable : ∀ action ∈ plan.actions, Bindable sourceNames destinationNames action := by
      push Not at hrefused
      exact hrefused
    obtain ⟨submission, hbound⟩ := ne_none_iff_exists'.mp
      (mt bindSyncPlan_eq_none_iff.mp hrefused)
    rw [or_iff_right hrefused]
    constructor
    · intro h action haction
      by_cases hkind : action.kind = .skip
      · unfold UnreadRefers
        rw [hkind]
        trivial
      · exact (stillNames_iff (hbindable action haction) hkind).mp
          (h.bound submission hbound action haction hkind)
    · intro h
      have hall : ∀ action ∈ plan.actions, action.kind ≠ .skip →
          StillNames sourceNames destinationNames action := fun action haction hkind =>
        (stillNames_iff (hbindable action haction) hkind).mpr (h action haction)
      refine ⟨fun _ _ => hall, ?_⟩
      rintro ⟨action, haction, hkind, hstale⟩
      exact absurd (hall action haction hkind) hstale

/-- What is overwritten is another entry by now. -/
theorem overwrites_renamed : ¬BindsOnlyNamed [ascii "a"] [ascii "b"]
      { actions := [{ name := ascii "a", kind := .overwrite, sourceIndex := some 0
                      destinationIndex := some 0 }] } := by
  intro h
  have hbound : bindSyncPlan
      { actions := [{ name := ascii "a", kind := .overwrite, sourceIndex := some 0
                      destinationIndex := some 0 }] } [ascii "a"] [ascii "b"] =
      some { copySourceIndices := [0] } := by decide
  have hnames := (h.bound _ hbound _ mem_cons_self (by decide)).destination
  revert hnames
  decide

/-! ## Plans of compared listings -/

end WinCommander.Compare
