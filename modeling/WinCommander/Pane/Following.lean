/-
  A reducer that is fed a lifecycle refuses no event of it (`Following`).
-/
import WinCommander.Pane.Protocol
import WinCommander.Pane.Reducer

namespace WinCommander.Pane

open Lifecycle

variable {Error : Type}

def PaneLoadPhase.isWorking (phase : PaneLoadPhase) : Bool :=
  phase == .loading || phase == .refreshing

theorem isWorking_of_committed (h : isCommittedProjection state trusted)
    : state.loadPhase.isWorking = false := by
  unfold isCommittedProjection at h
  split at h
  · cases h
  split at h
  · cases h
  split at h
  · cases h
  split at h
  · cases h
  split at h
  · cases h
  split at h
  · next hempty =>
      rw [hempty]
      rfl
  split at h
  · next hloaded _ =>
      rw [hloaded]
      rfl
  · cases h

/-- The phase of a recomposed state. -/
theorem isWorking_recompose (owned : OwnedState Error)
    (hcommitted : owned.committedState.loadPhase.isWorking = false)
    (hphase : owned.expectedReplacement.isSome → owned.state.loadPhase.isWorking) :
    owned.recompose.state.loadPhase.isWorking =
      (owned.activeRequest.isSome || owned.expectedReplacement.isSome) := by
  change owned.recomposedPhase.isWorking = _
  unfold OwnedState.recomposedPhase
  cases owned.activeRequest with
  | some request =>
    dsimp only
    split <;> rfl
  | none =>
    dsimp only
    by_cases hreplacement : owned.expectedReplacement.isSome
    · rw [if_pos hreplacement, hphase hreplacement, hreplacement]
      rfl
    · rw [if_neg hreplacement, eq_false_of_ne_true hreplacement]
      split
      · rfl
      · exact hcommitted

variable {event : PaneLifecycleEvent Error} {reducer : Reducer Error}

theorem matchesActive_of (h : reducer.owned.activeRequest = some event.request) :
    reducer.matchesActive event := by
  unfold Reducer.matchesActive
  rw [h]
  exact beq_self_eq_true _

/-- The event was taken; a commit may still find that its projection is another one. -/
def PaneLifecycleReducerStatus.accepted (status : PaneLifecycleReducerStatus) : Bool :=
  status == .applied || status == .noVisibleChange || status == .commitProjectionMismatch

/-- The reducer has read a lifecycle up to this state. -/
structure Following (pane : PaneId) (state : Lifecycle) (reducer : Reducer Error) : Prop where
  paneId : reducer.paneId = pane
  last : reducer.owned.lastEventSequence = if state.count = 0 then none else some state.count
  active : reducer.owned.activeRequest = state.active
  replacement : reducer.owned.expectedReplacement = state.replacement
  committed : reducer.owned.committedState.loadPhase.isWorking = false
  phase : reducer.owned.state.loadPhase.isWorking = (state.active.isSome || state.replacement.isSome)

variable {pane : PaneId} {status : PaneLifecycleReducerStatus}

theorem following_create (h : Reducer.create pane initial = some reducer)
    : Following pane {} reducer := by
  unfold Reducer.create at h
  by_cases hcommitted : isCommittedProjection initial none
  · rw [if_pos hcommitted] at h
    cases h
    have hphase := isWorking_of_committed hcommitted
    exact ⟨rfl, rfl, rfl, rfl, hphase, hphase⟩
  · rw [if_neg hcommitted] at h
    cases h

variable [BEq Error]

theorem accepted_commit (reducer : Reducer Error) (next : OwnedState Error) (h : status.accepted) :
    (reducer.commit next status).2.status.accepted := by
  unfold Reducer.commit
  dsimp only
  split
  · rfl
  · exact h

/-- What an event that follows leaves: the owned state that was prepared for it. -/
theorem following_commit (hpane : reducer.paneId = pane) (hstatus : status.accepted)
    (hcount : next.count ≠ 0) (hlast : owned.lastEventSequence = some next.count)
    (hactive : owned.activeRequest = next.active)
    (hreplacement : owned.expectedReplacement = next.replacement)
    (hcommitted : owned.committedState.loadPhase.isWorking = false)
    (hphase : owned.state.loadPhase.isWorking = (next.active.isSome || next.replacement.isSome)) :
    Following pane next (reducer.commit owned status).1 ∧
      (reducer.commit owned status).2.status.accepted := by
  refine ⟨⟨hpane, ?_, hactive, hreplacement, hcommitted, hphase⟩, accepted_commit reducer owned hstatus⟩
  rw [if_neg hcount]
  exact hlast

/-- The same where the public state is composed anew. -/
theorem following_recompose {owned : OwnedState Error} (hpane : reducer.paneId = pane)
    (hstatus : status.accepted) (hcount : next.count ≠ 0)
    (hlast : owned.lastEventSequence = some next.count)
    (hactive : owned.activeRequest = next.active) (hreplacement : owned.expectedReplacement = none)
    (hnext : next.replacement = none)
    (hcommitted : owned.committedState.loadPhase.isWorking = false) :
    Following pane next (reducer.commit owned.recompose status).1 ∧
      (reducer.commit owned.recompose status).2.status.accepted := by
  refine following_commit hpane hstatus hcount hlast hactive (hreplacement.trans hnext.symm)
    hcommitted ?_
  rw [isWorking_recompose owned hcommitted (by rw [hreplacement]; exact fun h => nomatch h),
    hactive, hreplacement, hnext]

/-- What an event leaves that is taken. -/
def Reducer.afterEvent (reducer : Reducer Error) (event : PaneLifecycleEvent Error)
    (projection : Option (PaneState Error)) : OwnedState Error :=
  match event.payload with
  | .started =>
    { reducer.owned with
      lastEventSequence := some event.eventSequence, activeRequest := some event.request,
      expectedReplacement := none }.clearTerminalOverlay.recompose
  | .committed committed =>
    match projection.filter (reducer.projectionMatches committed) with
    | none =>
      { (reducer.ended event).clearTerminalOverlay with commitProjectionFailed := true }.recompose
    | some found =>
      { reducer.ended event with committedState := found }.clearTerminalOverlay.recompose
  | .failed error =>
    { reducer.ended event with
      visibleError := some error,
      navigationFailed := event.descriptor.kind == PaneRequestKind.navigation,
      commitProjectionFailed := false }.recompose
  | .cancelled _ => (reducer.ended event).clearTerminalOverlay.recompose
  | .superseded replacement => { reducer.ended event with expectedReplacement := some replacement }
  | .rejected _ => { reducer.owned with lastEventSequence := some event.eventSequence }

variable {state next : Lifecycle}

/-- The pane, the request and the sequence of an event that may follow are in order. -/
theorem apply_current (hpane : reducer.paneId = pane)
    (hlast : reducer.owned.lastEventSequence = none ∨ reducer.owned.lastEventSequence = if state.count = 0 then none else some state.count)
    (hadvance : state.advance pane event = some next) (hbound : event.eventSequence < 2 ^ 64)
    (projection : Option (PaneState Error)) :
    reducer.apply event projection = reducer.applyPayload event projection := by
  obtain ⟨hevent, hsequence, hrequest, -, -⟩ := advance_eq_some hadvance
  have hcurrent : reducer.validateSequence event.eventSequence = .current := by
    unfold Reducer.validateSequence
    rw [if_neg (by omega)]
    rcases hlast with hnone | hcount
    · rw [hnone]
    · rw [hcount]
      split_ifs
      · rfl
      · dsimp only
        rw [if_neg (by omega), if_neg (by omega)]
  unfold Reducer.apply
  rw [if_neg (not_not.mpr (hevent.trans hpane.symm)), if_neg hrequest, hcurrent]

/-- No event that may follow is refused. -/
theorem apply_taken (h : Following pane state reducer)
    (hadvance : state.advance pane event = some next) (hbound : event.eventSequence < 2 ^ 64)
    (projection : Option (PaneState Error)) : ∃ status, status.accepted ∧
      reducer.apply event projection = reducer.commit (reducer.afterEvent event projection) status := by
  obtain ⟨-, -, -, -, hcase⟩ := advance_eq_some hadvance
  have hends (hsome : state.active = some event.request) (hnil : state.replacement = none) :
      ¬(reducer.matchesActive event = false ∨
        reducer.owned.expectedReplacement.isSome) := by
    rw [matchesActive_of (h.active.trans hsome), h.replacement, hnil]
    rintro (hfalse | hfalse) <;> cases hfalse
  rw [apply_current h.paneId (.inr h.last) hadvance hbound]
  unfold Reducer.applyPayload Reducer.afterEvent
  cases hkind : event.payload with
  | started =>
    rw [hkind] at hcase
    obtain ⟨hnone, hreplacement, -, -⟩ := hcase
    have h1 : ¬reducer.owned.activeRequest.isSome := by
      rw [h.active, hnone]
      exact Bool.false_ne_true
    have h2 : ¬(reducer.owned.expectedReplacement.isSome ∧
        reducer.owned.expectedReplacement ≠ some event.requestId) := by
      rw [h.replacement]
      rintro ⟨hsome, hother⟩
      rcases hreplacement with hnil | hsame
      · rw [hnil] at hsome
        cases hsome
      · exact hother hsame
    dsimp only
    rw [if_neg h1, if_neg h2]
    exact ⟨.applied, rfl, rfl⟩
  | committed model =>
    rw [hkind] at hcase
    dsimp only
    rw [if_neg (hends hcase.1 hcase.2.1)]
    cases projection.filter (reducer.projectionMatches model) with
    | none => exact ⟨.commitProjectionMismatch, rfl, rfl⟩
    | some found => exact ⟨.applied, rfl, rfl⟩
  | failed error =>
    rw [hkind] at hcase
    dsimp only
    rw [if_neg (hends hcase.1 hcase.2.1)]
    exact ⟨.applied, rfl, rfl⟩
  | cancelled reason =>
    rw [hkind] at hcase
    dsimp only
    rw [if_neg (hends hcase.1 hcase.2.1)]
    exact ⟨.applied, rfl, rfl⟩
  | superseded replacement =>
    rw [hkind] at hcase
    obtain ⟨hsome, hnil, hzero, hother, -, -⟩ := hcase
    have h1 : ¬(reducer.matchesActive event = false ∨
        reducer.owned.expectedReplacement.isSome ∨ replacement.value = 0 ∨
        replacement = event.requestId) := by
      rw [matchesActive_of (h.active.trans hsome), h.replacement, hnil]
      rintro (hfalse | hfalse | hfalse | hfalse)
      · cases hfalse
      · cases hfalse
      · exact hzero hfalse
      · exact hother hfalse
    dsimp only
    rw [if_neg h1]
    exact ⟨.noVisibleChange, rfl, rfl⟩
  | rejected rejection =>
    rw [hkind] at hcase
    have h1 : ¬reducer.owned.expectedReplacement.isSome := by
      rw [h.replacement, hcase.1]
      exact Bool.false_ne_true
    dsimp only
    rw [if_neg h1]
    exact ⟨.noVisibleChange, rfl, rfl⟩

theorem following_apply (h : Following pane state reducer)
    (hadvance : state.advance pane event = some next) (hbound : event.eventSequence < 2 ^ 64)
    (projection : Option (PaneState Error)) :
    Following pane next (reducer.apply event projection).1 ∧
      (reducer.apply event projection).2.status.accepted := by
  obtain ⟨status, hstatus, happly⟩ := apply_taken h hadvance hbound projection
  obtain ⟨-, hsequence, -, hcount, hcase⟩ := advance_eq_some hadvance
  have hnonzero : next.count ≠ 0 := by omega
  have hlast : some event.eventSequence = some next.count := congrArg some (by omega)
  rw [happly]
  unfold Reducer.afterEvent
  cases hkind : event.payload with
  | started =>
    rw [hkind] at hcase
    obtain ⟨-, -, hactive, hnext⟩ := hcase
    exact following_recompose h.paneId hstatus hnonzero hlast hactive.symm rfl hnext h.committed
  | committed model =>
    rw [hkind] at hcase
    obtain ⟨-, -, hactive, hnext⟩ := hcase
    dsimp only
    split
    · exact following_recompose h.paneId hstatus hnonzero hlast hactive.symm rfl hnext h.committed
    · next found hfound =>
        have hcommitted : found.loadPhase.isWorking = false := by
          obtain ⟨-, hmatches⟩ := Option.filter_eq_some_iff.mp hfound
          unfold Reducer.projectionMatches at hmatches
          simp only [Bool.and_eq_true] at hmatches
          exact isWorking_of_committed hmatches.1.1.1
        exact following_recompose h.paneId hstatus hnonzero hlast hactive.symm rfl hnext hcommitted
  | failed | cancelled =>
    rw [hkind] at hcase
    obtain ⟨-, -, hactive, hnext⟩ := hcase
    exact following_recompose h.paneId hstatus hnonzero hlast hactive.symm rfl hnext h.committed
  | superseded replacement =>
    rw [hkind] at hcase
    obtain ⟨hsome, -, -, -, hactive, hnext⟩ := hcase
    refine following_commit h.paneId hstatus hnonzero hlast hactive.symm hnext.symm h.committed ?_
    -- The public phase stays what the superseded request made it.
    refine h.phase.trans ?_
    rw [hsome, hactive, hnext]
    rfl
  | rejected rejection =>
    rw [hkind] at hcase
    obtain ⟨hnil, hactive, hnext⟩ := hcase
    refine following_commit h.paneId hstatus hnonzero hlast (h.active.trans hactive.symm)
      (h.replacement.trans (hnil.trans hnext.symm)) h.committed (h.phase.trans ?_)
    rw [hactive, hnext, hnil]

/-- A projection that is merged in between changes nothing of what was read. -/
theorem following_update (h : Following pane state reducer) (committedState : PaneState Error) :
    Following pane state (reducer.updateCommittedProjection committedState).1 := by
  unfold Reducer.updateCommittedProjection
  dsimp only
  by_cases hprojection : isCommittedProjection committedState (some reducer.owned.committedState) = false
  · rw [if_pos hprojection]
    exact h
  rw [if_neg hprojection]
  have hcommitted := isWorking_of_committed (eq_true_of_ne_false hprojection)
  by_cases hstale : committedState.locationGeneration < reducer.owned.committedState.locationGeneration
  · rw [if_pos hstale]
    exact h
  rw [if_neg hstale]
  have hworking (owned : OwnedState Error) (hstate : owned.state = reducer.owned.state)
      (hreplacement : owned.expectedReplacement = reducer.owned.expectedReplacement)
      (hsome : owned.expectedReplacement.isSome) :
      owned.state.loadPhase.isWorking := by
    rw [hstate, h.phase, ← h.replacement, ← hreplacement, hsome, Bool.or_true]
  let merged : OwnedState Error := { reducer.owned with committedState := committedState }
  have hphase (owned : OwnedState Error) (howned : owned.committedState = committedState)
      (hstate : owned.state = reducer.owned.state)
      (hactive : owned.activeRequest = reducer.owned.activeRequest)
      (hreplacement : owned.expectedReplacement = reducer.owned.expectedReplacement) :
      owned.recompose.state.loadPhase.isWorking =
        (state.active.isSome || state.replacement.isSome) := by
    rw [isWorking_recompose owned (by rw [howned]; exact hcommitted)
      (hworking owned hstate hreplacement), hactive, hreplacement, h.active, h.replacement]
  split
  · exact ⟨h.paneId, h.last, h.active, h.replacement, hcommitted,
      hphase merged.clearTerminalOverlay rfl rfl rfl rfl⟩
  · exact ⟨h.paneId, h.last, h.active, h.replacement, hcommitted, hphase merged rfl rfl rfl rfl⟩

end WinCommander.Pane
