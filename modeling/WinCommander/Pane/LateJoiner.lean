/-
  A reducer that joins late.

  It is created from the committed projection of one that has read every event, is seeded from
  `Subscribe`, and reads the same events and projections from then on. Up to the number of the
  last event it becomes the early one at once (`withLast`), or does so with the start that waits
  to be delivered (`Waiting`) — if nothing has changed the overlay of the early one since the last
  authoritative event, which the producer cannot know of.
-/
import WinCommander.Pane.Replay

namespace WinCommander.Pane

open Library List Option Reducer Lifecycle
open ReducerInput (event?)

variable {Error : Type} [BEq Error]

/-! ## Joining -/

/-- `StartObservingLifecycle` of the store adapter, for its reducer; `none` when it throws. -/
def Reducer.startObserving (reducer : Reducer Error) (subscription : Subscription Error) :
    Option (Reducer Error) :=
  let seeded (outcome : Reducer Error × PaneLifecycleReducerResult) :=
    if outcome.2.status = .applied ∨ outcome.2.status = .noVisibleChange then some outcome.1
    else none
  match subscription.retainedFailure, subscription.seedRequest with
  | some _, none => none
  | some failure, some request =>
    if subscription.checkpointSequence = 0 then none
    else seeded (reducer.seedRetainedFailure request failure subscription.checkpointSequence)
  | none, some request => seeded (reducer.seedActive request)
  | none, none => some reducer

/-- What a pane shows of its lifecycle. -/
structure LifecycleFields (Error : Type) where
  activeRequest : Option PaneActiveRequest
  loadPhase : PaneLoadPhase
  visibleError : Option Error
  navigationFailed : Bool
  commitProjectionFailed : Bool

def Reducer.lifecycleFields (reducer : Reducer Error) : LifecycleFields Error :=
  { activeRequest := reducer.owned.activeRequest, loadPhase := reducer.owned.state.loadPhase,
    visibleError := reducer.owned.state.visibleError,
    navigationFailed := reducer.owned.navigationFailed,
    commitProjectionFailed := reducer.owned.commitProjectionFailed }

/-- Two reducers that have read what a producer has handed out show the same after they have
read the same of what comes then; where a start waits to be delivered, it is part of that. -/
def Agrees (producer : Producer Error) (early late : Reducer Error) : Prop :=
  ∀ (calls : List (PaneCall Error)) (inputs : List (ReducerInput Error)),
    producer.emitted ++ inputs.filterMap ReducerInput.event? <+:
      (runAll paneStep producer calls).1.published →
    (Producer.pendingSeed producer.pendingNotifications = some none →
      ∃ event ∈ inputs.filterMap ReducerInput.event?, event.payload.isStarted = true) →
    (runAll reducerStep early inputs).1.lifecycleFields =
      (runAll reducerStep late inputs).1.lifecycleFields

/-! ## What a reducer has done to its overlay -/

/-- The branch of `UpdateCommittedProjection` that clears the overlay. -/
def Reducer.dismisses (reducer : Reducer Error) (committedState : PaneState Error) : Bool :=
  isCommittedProjection committedState (some reducer.owned.committedState) &&
    decide (committedState.locationGeneration > reducer.owned.committedState.locationGeneration) &&
    reducer.owned.activeRequest.isNone && reducer.owned.expectedReplacement.isNone

/-- Some projection that is merged among these inputs clears the overlay. -/
def Reducer.dismissed (reducer : Reducer Error) : List (ReducerInput Error) → Bool
  | [] => false
  | .event event projection :: rest => (reducer.apply event projection).1.dismissed rest
  | .projection committedState :: rest =>
    reducer.dismisses committedState ||
      (reducer.updateCommittedProjection committedState).1.dismissed rest

def ReducerInput.isAuthoritative : ReducerInput Error → Bool
  | .event read _ => !read.payload.isRejected
  | .projection _ => false

/-- Since the last authoritative event of these inputs: a failure has not been cleared by a
projection, and a commit without its projection has. -/
def Reducer.undisturbed (reducer : Reducer Error) : List (ReducerInput Error) → Bool
  | [] => true
  | input :: rest =>
    let next := (reducerStep reducer input).1
    if rest.any (·.isAuthoritative) then next.undisturbed rest
    else
      match input with
      | .projection _ => true
      | .event event projection =>
        match event.payload with
        | .failed _ => !next.dismissed rest
        | .committed committed =>
          (projection.filter (reducer.projectionMatches committed)).isSome ||
            next.dismissed rest
        | _ => true

/-! ## Composed states -/

/-- The public state is the one that is composed of the others. -/
def OwnedState.Composed (owned : OwnedState Error) : Prop :=
  owned.state = { owned.committedState with
      visibleError := owned.visibleError, loadPhase := owned.recomposedPhase }

omit [BEq Error] in
theorem composed_recompose (owned : OwnedState Error) : owned.recompose.Composed := by
  have hphase : owned.recompose.recomposedPhase = owned.recomposedPhase := by
    unfold OwnedState.recompose OwnedState.recomposedPhase
    cases owned.activeRequest with
    | some request => rfl
    | none =>
      by_cases hreplacement : owned.expectedReplacement.isSome
      · rw [if_pos hreplacement, if_pos hreplacement]
      · rw [if_neg hreplacement, if_neg hreplacement]
  unfold OwnedState.Composed
  rw [hphase]
  rfl

omit [BEq Error] in
/-- A composed state is known by what it is composed of. -/
theorem OwnedState.Composed.eq {first second : OwnedState Error} (hfirst : first.Composed)
    (hsecond : second.Composed) (hcommitted : first.committedState = second.committedState)
    (hlast : first.lastEventSequence = second.lastEventSequence)
    (hactive : first.activeRequest = second.activeRequest)
    (hfirstNone : first.expectedReplacement = none) (hsecondNone : second.expectedReplacement = none)
    (herror : first.visibleError = second.visibleError)
    (hnavigation : first.navigationFailed = second.navigationFailed)
    (hmismatch : first.commitProjectionFailed = second.commitProjectionFailed) :
    first = second := by
  have hphase : first.recomposedPhase = second.recomposedPhase := by
    unfold OwnedState.recomposedPhase
    rw [hactive, hfirstNone, hsecondNone, hnavigation, hmismatch, hcommitted]
    rfl
  have hstate : first.state = second.state := by
    rw [hfirst, hsecond, hcommitted, herror, hphase]
  cases first
  cases second
  simp only at hcommitted hlast hactive hfirstNone hsecondNone herror hnavigation hmismatch hstate
  rw [hcommitted, hlast, hactive, hfirstNone, hsecondNone, herror, hnavigation, hmismatch, hstate]

omit [BEq Error] in
theorem visibleError_of_committed (h : isCommittedProjection state trusted) :
    state.visibleError = none := by
  unfold isCommittedProjection at h
  split at h
  · cases h
  · next hnone => exact not_isSome_iff_eq_none.mp hnone

variable {initial : PaneState Error} {pane : PaneId} {reducer : Reducer Error}

omit [BEq Error] in
theorem create_eq_some (h : create pane initial = some reducer) :
    reducer = { paneId := pane, owned := { committedState := initial, state := initial } } ∧
      reducer.owned.Composed := by
  unfold create at h
  split at h
  · next hcommitted =>
      cases h
      refine ⟨rfl, ?_⟩
      change initial = { initial with visibleError := none, loadPhase := initial.loadPhase }
      rw [← visibleError_of_committed hcommitted]
  · cases h

/-! ## The overlay -/

/-- A reducer whose overlay is what the last authoritative event it has read can leave. -/
structure Showing (last : Option (PaneLifecycleEvent Error)) (reducer : Reducer Error) : Prop where
  composed : reducer.owned.Composed
  error : ∀ error, reducer.owned.visibleError = some error →
    ∃ event, last = some event ∧ event.payload = .failed error
  navigation : reducer.owned.navigationFailed = (reducer.owned.visibleError.isSome &&
    last.any fun event => event.descriptor.kind == PaneRequestKind.navigation)
  mismatch : reducer.owned.commitProjectionFailed = true →
    ∃ event committed, last = some event ∧ event.payload = .committed committed

omit [BEq Error] in
/-- The overlay of a reducer whose last authoritative event was neither failure nor commit. -/
theorem Showing.clear (h : Showing last reducer)
    (hlast : ∀ event, last = some event → (∀ error, event.payload ≠ .failed error) ∧ ∀ committed, event.payload ≠ .committed committed) :
    reducer.owned.visibleError = none ∧ reducer.owned.navigationFailed = false ∧
      reducer.owned.commitProjectionFailed = false := by
  have herror : reducer.owned.visibleError = none := by
    cases hvisible : reducer.owned.visibleError with
    | none => rfl
    | some error =>
      obtain ⟨event, hevent, hpayload⟩ := h.error error hvisible
      exact absurd hpayload ((hlast event hevent).1 error)
  refine ⟨herror, ?_, ?_⟩
  · rw [h.navigation, herror]
    rfl
  · refine eq_false_of_ne_true fun hmismatch => ?_
    obtain ⟨event, committed, hevent, hpayload⟩ := h.mismatch hmismatch
    exact (hlast event hevent).2 committed hpayload

/-- What is merged may clear the overlay, and does nothing else to it. -/
theorem update_overlay (reducer : Reducer Error) (committedState : PaneState Error) :
    let next := (reducer.updateCommittedProjection committedState).1
    next.owned.visibleError =
        (if reducer.dismisses committedState then none else reducer.owned.visibleError) ∧
      next.owned.navigationFailed =
        (!reducer.dismisses committedState && reducer.owned.navigationFailed) ∧
      next.owned.commitProjectionFailed =
        (!reducer.dismisses committedState && reducer.owned.commitProjectionFailed) := by
  unfold updateCommittedProjection dismisses
  dsimp only
  by_cases hprojection :
      isCommittedProjection committedState (some reducer.owned.committedState) = false
  · rw [if_pos hprojection, hprojection]
    exact ⟨rfl, rfl, rfl⟩
  rw [if_neg hprojection, eq_true_of_ne_false hprojection]
  by_cases hstale :
      committedState.locationGeneration < reducer.owned.committedState.locationGeneration
  · have hnew : ¬committedState.locationGeneration > reducer.owned.committedState.locationGeneration :=
      fun hgreater => absurd (UInt64.lt_trans hstale hgreater) (UInt64.lt_irrefl _)
    rw [if_pos hstale, decide_eq_false hnew]
    exact ⟨rfl, rfl, rfl⟩
  rw [if_neg hstale]
  by_cases hnew : committedState.locationGeneration > reducer.owned.committedState.locationGeneration ∧
      reducer.owned.activeRequest = none ∧ reducer.owned.expectedReplacement = none
  · obtain ⟨h1, h2, h3⟩ := hnew
    rw [if_pos ⟨h1, h2, h3⟩, decide_eq_true h1, h2, h3]
    exact ⟨rfl, rfl, rfl⟩
  · rw [if_neg hnew]
    have hfalse : (true && decide (committedState.locationGeneration >
        reducer.owned.committedState.locationGeneration) && reducer.owned.activeRequest.isNone &&
        reducer.owned.expectedReplacement.isNone) = false := by
      refine eq_false_of_ne_true fun htrue => hnew ?_
      simpa [and_assoc] using htrue
    rw [hfalse]
    exact ⟨rfl, rfl, rfl⟩

/-- What is merged is composed, and what is not leaves everything as it was. -/
theorem update_composed (h : reducer.owned.Composed) (committedState : PaneState Error) :
    (reducer.updateCommittedProjection committedState).1.owned.Composed := by
  unfold updateCommittedProjection
  dsimp only
  split
  · exact h
  split
  · exact h
  · exact composed_recompose _

theorem showing_update (h : Showing last reducer) (committedState : PaneState Error) :
    Showing last (reducer.updateCommittedProjection committedState).1 := by
  obtain ⟨herror, hnavigation, hmismatch⟩ := update_overlay reducer committedState
  refine ⟨update_composed h.composed committedState, ?_, ?_, ?_⟩
  · intro error hvisible
    rw [herror] at hvisible
    split at hvisible
    · cases hvisible
    · exact h.error error hvisible
  · rw [hnavigation, herror, h.navigation]
    cases reducer.dismisses committedState <;> rfl
  · intro hfailed
    rw [hmismatch, Bool.and_eq_true] at hfailed
    exact h.mismatch hfailed.2

variable {event : PaneLifecycleEvent Error}

/-- What an event does to the overlay. -/
theorem showing_apply {state next : Lifecycle} (hfollowing : Following pane state reducer)
    (h : Showing last reducer)
    (hactive : state.active.isSome → ∀ event, last = some event → event.payload = .started)
    (hadvance : state.advance pane event = some next) (hbound : event.eventSequence < 2 ^ 64)
    (projection : Option (PaneState Error)) :
    Showing (if event.payload.isRejected then last else some event)
      (reducer.apply event projection).1 := by
  obtain ⟨status, -, happly⟩ := apply_taken hfollowing hadvance hbound projection
  obtain ⟨-, -, -, -, hcase⟩ := advance_eq_some hadvance
  rw [happly]
  have hcleared (owned : OwnedState Error) :
      Showing (some event) { reducer with owned := owned.clearTerminalOverlay.recompose } :=
    ⟨composed_recompose _, fun _ hnone => (nomatch hnone), rfl, fun hfalse => nomatch hfalse⟩
  unfold afterEvent
  cases hkind : event.payload with
  | started => exact hcleared _
  | committed model =>
    dsimp only
    cases projection.filter (reducer.projectionMatches model) with
    | none =>
      exact ⟨composed_recompose _, fun _ hnone => (nomatch hnone), rfl,
        fun _ => ⟨event, model, rfl, hkind⟩⟩
    | some found => exact hcleared _
  | failed error =>
    refine ⟨composed_recompose _, fun shown hshown => ?_, ?_, fun hfalse => nomatch hfalse⟩
    · cases hshown
      exact ⟨event, rfl, hkind⟩
    · rfl
  | cancelled reason => exact hcleared _
  | superseded replacement =>
    rw [hkind] at hcase
    obtain ⟨hsome, hnil, -⟩ := hcase
    have hstarted := hactive (by rw [hsome]; rfl)
    obtain ⟨herror, hnavigation, hmismatch⟩ := h.clear fun other hother => by
      rw [hstarted other hother]
      exact ⟨fun _ hne => (nomatch hne), fun _ hne => nomatch hne⟩
    -- The superseded request was active, so the public state has the phase it gave.
    refine ⟨?_, ?_, ?_, ?_⟩
    · change reducer.owned.state = { reducer.owned.committedState with
          visibleError := reducer.owned.visibleError, loadPhase := reducer.owned.state.loadPhase }
      rw [h.composed]
    · intro error hvisible
      rw [show reducer.owned.visibleError = some error from hvisible] at herror
      cases herror
    · change reducer.owned.navigationFailed = (reducer.owned.visibleError.isSome && _)
      rw [hnavigation, herror]
      rfl
    · intro hfailed
      rw [show reducer.owned.commitProjectionFailed from hfailed] at hmismatch
      cases hmismatch
  | rejected rejection => exact ⟨h.composed, h.error, h.navigation, h.mismatch⟩

omit [BEq Error] in
theorem started_of_active (hread : advanceAll pane {} events = some state)
    (hactive : state.active.isSome) :
    ∀ event, lastAuthoritative events = some event → event.payload = .started := by
  intro event hevent
  rw [active_eq hread, hevent, filter_some] at hactive
  split at hactive
  · next hstarted =>
      cases hpayload : event.payload with
      | started => rfl
      | committed | failed | cancelled | superseded | rejected =>
        rw [hpayload] at hstarted
        cases hstarted
  · cases hactive

/-- What a reducer shows that has read a lifecycle from its start. -/
theorem showing_run (hstart : create pane initial = some start) (inputs : List (ReducerInput Error))
    (hread : advanceAll pane {} (inputs.filterMap event?) = some state)
    (hbound : ∀ event ∈ inputs.filterMap event?, event.eventSequence < 2 ^ 64) :
    Showing (lastAuthoritative (inputs.filterMap event?)) (runAll reducerStep start inputs).1 := by
  induction inputs using List.reverseRecOn generalizing state with
  | nil =>
    obtain ⟨hcreated, hcomposed⟩ := create_eq_some hstart
    refine ⟨hcomposed, ?_, ?_, ?_⟩
    · intro error hvisible
      rw [runAll_nil, hcreated] at hvisible
      cases hvisible
    · rw [runAll_nil, hcreated]
      rfl
    · intro hfailed
      rw [runAll_nil, hcreated] at hfailed
      cases hfailed
  | append_singleton inputs input ih =>
    rw [filterMap_append] at hread hbound ⊢
    rw [runAll_append]
    obtain ⟨middle, hmiddle, hlast⟩ := advanceAll_prefix hread
    have hbefore := fun event hevent => hbound event (mem_append_left _ hevent)
    have hshowing := ih hmiddle hbefore
    cases input with
    | event event projection =>
      obtain ⟨next, hnext, -⟩ := bind_eq_some_iff.mp hlast
      have hfollowing := (following_run (following_create hstart) inputs hmiddle hbefore).1
      change Showing (lastAuthoritative (_ ++ [event])) _
      rw [lastAuthoritative_concat]
      exact showing_apply hfollowing hshowing (started_of_active hmiddle) hnext
        (hbound event (mem_append_right _ mem_cons_self)) projection
    | projection committedState =>
      change Showing (lastAuthoritative (_ ++ [])) _
      rw [append_nil]
      exact showing_update hshowing committedState

/-! ## Alike but for the last event -/

def Reducer.withLast (reducer : Reducer Error) (last : Option Nat) : Reducer Error :=
  { reducer with owned := { reducer.owned with lastEventSequence := last } }

omit [BEq Error] in
theorem lifecycleFields_withLast (reducer : Reducer Error) (last : Option Nat) :
    (reducer.withLast last).lifecycleFields = reducer.lifecycleFields := rfl

theorem update_withLast (reducer : Reducer Error) (last : Option Nat)
    (committedState : PaneState Error) :
    ((reducer.withLast last).updateCommittedProjection committedState).1 =
      (reducer.updateCommittedProjection committedState).1.withLast last := by
  unfold updateCommittedProjection withLast
  dsimp only
  split
  · rfl
  split
  · rfl
  split <;> rfl

/-- An event that is taken leaves nothing of the number of the event before it. -/
theorem applyPayload_withLast (h : (reducer.applyPayload event projection).2.status.accepted)
    (last : Option Nat) : (reducer.withLast last).applyPayload event projection =
      reducer.applyPayload event projection := by
  have hrefused (status : PaneLifecycleReducerStatus) (hstatus : status.accepted = false)
      (haccepted : (reducer.refused status).2.status.accepted) : False := by
    rw [show (reducer.refused status).2.status.accepted = status.accepted from rfl, hstatus]
      at haccepted
    cases haccepted
  revert h
  unfold withLast applyPayload matchesActive projectionMatches
    ended
  cases event.payload with
  | started =>
    dsimp only
    split
    · exact fun h => (hrefused _ rfl h).elim
    split
    · exact fun h => (hrefused _ rfl h).elim
    · exact fun _ => rfl
  | committed | failed | cancelled | superseded | rejected =>
    dsimp only
    split
    · exact fun h => (hrefused _ rfl h).elim
    · exact fun _ => rfl

variable {state last : Lifecycle}

/-- Reducers that differ in the last event only have read the same after the next one. -/
theorem alike_run (hfollowing : Following pane state early) (inputs : List (ReducerInput Error))
    (hread : state.advanceAll pane (inputs.filterMap event?) = some last)
    (hbound : ∀ event ∈ inputs.filterMap event?, event.eventSequence < 2 ^ 64) :
    (runAll reducerStep (early.withLast none) inputs).1 = (runAll reducerStep early inputs).1 ∨
      (runAll reducerStep (early.withLast none) inputs).1 =
        (runAll reducerStep early inputs).1.withLast none := by
  induction inputs generalizing early with
  | nil => exact .inr rfl
  | cons input rest ih =>
    cases input with
    | event event projection =>
      obtain ⟨next, hnext, -⟩ := bind_eq_some_iff.mp hread
      have hevent := hbound event mem_cons_self
      have haccepted := (following_apply hfollowing hnext hevent projection).2
      have hearly := apply_current hfollowing.paneId (.inr hfollowing.last) hnext hevent projection
      have hpane : (early.withLast none).paneId = pane := hfollowing.paneId
      have hlate := apply_current hpane (.inl rfl) hnext hevent projection
      rw [hearly] at haccepted
      have hsame : (early.withLast none).apply event projection = early.apply event projection := by
        rw [hlate, hearly, applyPayload_withLast haccepted]
      refine .inl ?_
      change (runAll reducerStep ((early.withLast none).apply event projection).1 rest).1 =
        (runAll reducerStep (early.apply event projection).1 rest).1
      rw [hsame]
    | projection committedState =>
      have hrest := ih (following_update hfollowing committedState) hread hbound
      rw [← update_withLast] at hrest
      exact hrest

/-! ## Waiting for a start -/

/-- A reducer that has not been seeded, because a start waits to be delivered. -/
structure Waiting (early late : Reducer Error) : Prop where
  paneId : late.paneId = early.paneId
  committed : late.owned.committedState = early.owned.committedState
  active : late.owned.activeRequest = none
  replacement : late.owned.expectedReplacement = none
  last : late.owned.lastEventSequence = none ∨
    late.owned.lastEventSequence = early.owned.lastEventSequence

/-- What a merge does to everything but the overlay. -/
theorem update_rest (reducer : Reducer Error) (committedState : PaneState Error) :
    let next := (reducer.updateCommittedProjection committedState).1
    next.paneId = reducer.paneId ∧ next.owned.activeRequest = reducer.owned.activeRequest ∧
      next.owned.expectedReplacement = reducer.owned.expectedReplacement ∧
      next.owned.lastEventSequence = reducer.owned.lastEventSequence ∧ next.owned.committedState =
        if isCommittedProjection committedState (some reducer.owned.committedState) ∧
            ¬committedState.locationGeneration < reducer.owned.committedState.locationGeneration
        then committedState else reducer.owned.committedState := by
  unfold updateCommittedProjection
  dsimp only
  by_cases hprojection :
      isCommittedProjection committedState (some reducer.owned.committedState) = false
  · rw [if_pos hprojection, if_neg (by rw [hprojection]; exact fun h => nomatch h.1)]
    exact ⟨rfl, rfl, rfl, rfl, rfl⟩
  rw [if_neg hprojection]
  by_cases hstale :
      committedState.locationGeneration < reducer.owned.committedState.locationGeneration
  · rw [if_pos hstale, if_neg fun h => h.2 hstale]
    exact ⟨rfl, rfl, rfl, rfl, rfl⟩
  · have hmerged : isCommittedProjection committedState (some reducer.owned.committedState) ∧
        ¬committedState.locationGeneration < reducer.owned.committedState.locationGeneration :=
      ⟨eq_true_of_ne_false hprojection, hstale⟩
    rw [if_neg hstale, if_pos hmerged]
    split <;> exact ⟨rfl, rfl, rfl, rfl, rfl⟩

theorem waiting_update (h : Waiting early late) (committedState : PaneState Error) :
    Waiting (early.updateCommittedProjection committedState).1
      (late.updateCommittedProjection committedState).1 := by
  obtain ⟨hpane, -, -, hlast, hcommitted⟩ := update_rest early committedState
  obtain ⟨hpane', hactive', hreplacement', hlast', hcommitted'⟩ := update_rest late committedState
  refine ⟨?_, ?_, hactive'.trans h.active, hreplacement'.trans h.replacement, ?_⟩
  · rw [hpane', hpane, h.paneId]
  · rw [hcommitted', hcommitted, h.committed]
  · rw [hlast', hlast]
    exact h.last

/-- With the start, both are the same. -/
theorem waiting_run (hfollowing : Following pane state early) (hidle : state.active = none)
    (h : Waiting early late) (inputs : List (ReducerInput Error))
    (hread : state.advanceAll pane (inputs.filterMap event?) = some last)
    (hbound : ∀ event ∈ inputs.filterMap event?, event.eventSequence < 2 ^ 64)
    (hstarted : ∃ event ∈ inputs.filterMap event?, event.payload.isStarted) :
    (runAll reducerStep late inputs).1 = (runAll reducerStep early inputs).1 := by
  induction inputs generalizing state early late with
  | nil =>
    obtain ⟨event, hmem, -⟩ := hstarted
    exact absurd hmem not_mem_nil
  | cons input rest ih =>
    cases input with
    | projection committedState =>
      exact ih (following_update hfollowing committedState) hidle
        (waiting_update h committedState) hread hbound hstarted
    | event event projection =>
      obtain ⟨next, hnext, hrest⟩ := bind_eq_some_iff.mp hread
      have hevent := hbound event mem_cons_self
      have hbelow := fun other hother => hbound other (mem_cons_of_mem _ hother)
      obtain ⟨status, -, happly⟩ := apply_taken hfollowing hnext hevent projection
      have hlate := apply_current (h.paneId.trans hfollowing.paneId)
        (h.last.imp_right fun hsame => hsame.trans hfollowing.last) hnext hevent projection
      have hnextFollowing := (following_apply hfollowing hnext hevent projection).1
      obtain ⟨-, -, -, -, hcase⟩ := advance_eq_some hnext
      change (runAll reducerStep (late.apply event projection).1 rest).1 =
        (runAll reducerStep (early.apply event projection).1 rest).1
      cases hkind : event.payload with
      | started =>
        have hsame : (late.apply event projection).1 = (early.apply event projection).1 := by
          rw [hlate, happly]
          unfold applyPayload afterEvent
          rw [hkind]
          dsimp only
          rw [if_neg (by rw [h.active]; exact Bool.false_ne_true),
            if_neg (by rw [h.replacement]; exact fun hsome => nomatch hsome.1)]
          unfold Reducer.commit OwnedState.clearTerminalOverlay OwnedState.recompose
          rw [h.paneId, h.committed]
          rfl
        rw [hsame]
      | rejected rejection =>
        rw [hkind] at hcase
        have hnextWaiting : Waiting (early.apply event projection).1
            (late.apply event projection).1 := by
          rw [hlate, happly]
          unfold applyPayload afterEvent
          rw [hkind]
          dsimp only
          rw [if_neg (by rw [h.replacement]; exact Bool.false_ne_true)]
          exact ⟨h.paneId, h.committed, h.active, h.replacement, .inr rfl⟩
        refine ih hnextFollowing (hcase.2.1.trans hidle) hnextWaiting hrest hbelow ?_
        obtain ⟨other, hother, hstart⟩ := hstarted
        rcases mem_cons.mp hother with rfl | hlater
        · rw [hkind] at hstart
          cases hstart
        · exact ⟨other, hlater, hstart⟩
      | committed | failed | cancelled | superseded =>
        rw [hkind] at hcase
        rw [hcase.1] at hidle
        cases hidle

/-! ## What the inputs have done to the overlay -/

omit [BEq Error] in
theorem any_isAuthoritative (inputs : List (ReducerInput Error)) : inputs.any (·.isAuthoritative) =
      (lastAuthoritative (inputs.filterMap event?)).isSome := by
  induction inputs with
  | nil => rfl
  | cons input rest ih =>
    rw [any_cons, ih]
    cases input with
    | projection committedState => exact Bool.false_or _
    | event event projection =>
      change (!event.payload.isRejected || _) =
        (lastAuthoritative ([event] ++ rest.filterMap event?)).isSome
      rw [lastAuthoritative_append, isSome_or, Bool.or_comm]
      congr 1
      cases hrejected : event.payload.isRejected with
      | false => rw [lastAuthoritative_singleton hrejected]; rfl
      | true =>
        rw [lastAuthoritative_eq_none_iff.mpr fun other hother => by
          rw [mem_singleton.mp hother, hrejected]]
        rfl

/-- Where nothing authoritative is read, only a merge clears the overlay. -/
theorem dismissed_run (hfollowing : Following pane state reducer)
    (inputs : List (ReducerInput Error))
    (hread : state.advanceAll pane (inputs.filterMap event?) = some last)
    (hbound : ∀ event ∈ inputs.filterMap event?, event.eventSequence < 2 ^ 64)
    (hquiet : inputs.any (·.isAuthoritative) = false) :
    (runAll reducerStep reducer inputs).1.owned.visibleError.isSome =
        (!reducer.dismissed inputs && reducer.owned.visibleError.isSome) ∧
      (runAll reducerStep reducer inputs).1.owned.commitProjectionFailed =
        (!reducer.dismissed inputs && reducer.owned.commitProjectionFailed) := by
  induction inputs generalizing state reducer with
  | nil => exact ⟨rfl, rfl⟩
  | cons input rest ih =>
    rw [any_cons, Bool.or_eq_false_iff] at hquiet
    cases input with
    | projection committedState =>
      obtain ⟨herror, -, hmismatch⟩ := update_overlay reducer committedState
      obtain ⟨h1, h2⟩ := ih (following_update hfollowing committedState) hread hbound hquiet.2
      change (runAll reducerStep (reducer.updateCommittedProjection committedState).1
          rest).1.owned.visibleError.isSome = _ ∧
        (runAll reducerStep (reducer.updateCommittedProjection committedState).1
          rest).1.owned.commitProjectionFailed = _
      rw [h1, h2, herror, hmismatch, show reducer.dismissed (.projection committedState :: rest) =
        (reducer.dismisses committedState ||
          (reducer.updateCommittedProjection committedState).1.dismissed rest) from rfl]
      cases reducer.dismisses committedState with
      | false => exact ⟨rfl, rfl⟩
      | true => exact ⟨Bool.and_false _, Bool.and_false _⟩
    | event event projection =>
      obtain ⟨next, hnext, hrest⟩ := bind_eq_some_iff.mp hread
      have hevent := hbound event mem_cons_self
      have hnextFollowing := (following_apply hfollowing hnext hevent projection).1
      obtain ⟨status, -, happly⟩ := apply_taken hfollowing hnext hevent projection
      have hoverlay : (reducer.apply event projection).1.owned.visibleError =
            reducer.owned.visibleError ∧
          (reducer.apply event projection).1.owned.commitProjectionFailed =
            reducer.owned.commitProjectionFailed := by
        rw [happly]
        unfold afterEvent
        have hrejected := hquiet.1
        change (!event.payload.isRejected) = false at hrejected
        cases hkind : event.payload with
        | rejected rejection => exact ⟨rfl, rfl⟩
        | started | committed | failed | cancelled | superseded =>
          rw [hkind] at hrejected
          cases hrejected
      obtain ⟨h1, h2⟩ := ih hnextFollowing hrest
        (fun other hother => hbound other (mem_cons_of_mem _ hother)) hquiet.2
      rw [hoverlay.1] at h1
      rw [hoverlay.2] at h2
      exact ⟨h1, h2⟩

/-- What is still shown of the last authoritative event. -/
def Reducer.remembers (reducer : Reducer Error) (event : PaneLifecycleEvent Error) : Prop :=
  match event.payload with
  | .failed _ => reducer.owned.visibleError.isSome = true
  | .committed _ => reducer.owned.commitProjectionFailed = false
  | _ => True

omit [BEq Error] in
theorem afterEvent_failed (reducer : Reducer Error) (projection : Option (PaneState Error))
    (h : event.payload = .failed error) :
    (reducer.afterEvent event projection).visibleError.isSome := by
  unfold afterEvent
  rw [h]
  rfl

omit [BEq Error] in
theorem afterEvent_committed (reducer : Reducer Error) (projection : Option (PaneState Error))
    (h : event.payload = .committed committed) :
    (reducer.afterEvent event projection).commitProjectionFailed =
      !(projection.filter (reducer.projectionMatches committed)).isSome := by
  unfold afterEvent
  rw [h]
  dsimp only
  cases projection.filter (reducer.projectionMatches committed) <;> rfl

/-- The inputs have disturbed nothing exactly when the overlay is the one that the last
authoritative event calls for. -/
theorem undisturbed_iff (hfollowing : Following pane state reducer)
    (inputs : List (ReducerInput Error))
    (hread : state.advanceAll pane (inputs.filterMap event?) = some last)
    (hbound : ∀ event ∈ inputs.filterMap event?, event.eventSequence < 2 ^ 64)
    (hlast : lastAuthoritative (inputs.filterMap event?) = some event) :
    reducer.undisturbed inputs ↔ (runAll reducerStep reducer inputs).1.remembers event := by
  induction inputs generalizing state reducer with
  | nil => cases hlast
  | cons input rest ih =>
    cases input with
    | projection committedState =>
      have hlater : rest.any (·.isAuthoritative) := by
        rw [any_isAuthoritative, show lastAuthoritative (rest.filterMap event?) =
          some event from hlast]
        rfl
      unfold undisturbed
      rw [if_pos hlater]
      exact ih (following_update hfollowing committedState) hread hbound hlast
    | event read projection =>
      change lastAuthoritative ([read] ++ rest.filterMap event?) = _ at hlast
      rw [lastAuthoritative_append] at hlast
      obtain ⟨next, hnext, hrest⟩ := bind_eq_some_iff.mp hread
      have hevent := hbound read mem_cons_self
      have hbelow := fun other hother => hbound other (mem_cons_of_mem _ hother)
      have hnextFollowing := (following_apply hfollowing hnext hevent projection).1
      obtain ⟨status, -, happly⟩ := apply_taken hfollowing hnext hevent projection
      have howned : (reducer.apply read projection).1.owned = reducer.afterEvent read projection :=
        congrArg (fun outcome => outcome.1.owned) happly
      unfold undisturbed
      change (if rest.any (·.isAuthoritative) = true then
          (reducer.apply read projection).1.undisturbed rest else _) ↔
        (runAll reducerStep (reducer.apply read projection).1 rest).1.remembers event
      split_ifs with hlater
      · rw [any_isAuthoritative] at hlater
        obtain ⟨other, hother⟩ := isSome_iff_exists.mp hlater
        rw [hother, some_or] at hlast
        exact ih hnextFollowing hrest hbelow (hother.trans hlast)
      · have hquiet := eq_false_of_ne_true hlater
        obtain ⟨herror, hmismatch⟩ := dismissed_run hnextFollowing rest hrest hbelow hquiet
        rw [howned] at herror hmismatch
        rw [any_isAuthoritative, isSome_eq_false_iff, isNone_iff_eq_none] at hquiet
        rw [hquiet, none_or] at hlast
        obtain ⟨hmem, -⟩ := lastAuthoritative_mem hlast
        cases mem_singleton.mp hmem
        unfold remembers
        dsimp only
        cases hkind : event.payload with
        | failed error =>
          rw [herror, afterEvent_failed reducer projection hkind, Bool.and_true]
          rfl
        | committed model =>
          rw [hmismatch, afterEvent_committed reducer projection hkind, Bool.and_eq_false_iff,
            Bool.not_eq_false', Bool.not_eq_false', Bool.or_eq_true, or_comm]
          rfl
        | started | cancelled | superseded | rejected => exact iff_of_true rfl trivial

theorem undisturbed_of_none (reducer : Reducer Error) (inputs : List (ReducerInput Error))
    (hlast : lastAuthoritative (inputs.filterMap event?) = none) : reducer.undisturbed inputs := by
  cases inputs with
  | nil => rfl
  | cons input rest =>
    have hquiet : (input :: rest).any (·.isAuthoritative) = false := by
      rw [any_isAuthoritative, hlast]
      rfl
    rw [any_cons, Bool.or_eq_false_iff] at hquiet
    unfold undisturbed
    rw [if_neg (by rw [hquiet.2]; exact Bool.false_ne_true)]
    cases input with
    | projection committedState => rfl
    | event read projection =>
      have hrejected := hquiet.1
      change (!read.payload.isRejected) = false at hrejected
      dsimp only
      cases hkind : read.payload with
      | failed error | committed error =>
        rw [hkind] at hrejected
        cases hrejected
      | started | cancelled | superseded | rejected => rfl

/-! ## The seed -/

theorem commit_applied (reducer : Reducer Error) (next : OwnedState Error) :
    (reducer.commit next .applied).2.status = .applied ∨
      (reducer.commit next .applied).2.status = .noVisibleChange := by
  unfold Reducer.commit
  dsimp only
  split
  · exact .inr rfl
  · exact .inl rfl

/-- A reducer that has read a lifecycle, and one that is created from its projection. -/
structure Joining (pane : PaneId) (state : Lifecycle) (last : Option (PaneLifecycleEvent Error))
    (early fresh : Reducer Error) : Prop where
  following : Following pane state early
  showing : Showing last early
  created : Reducer.create pane early.owned.committedState = some fresh
  /-- The event that the state of the lifecycle comes from. -/
  active : state.active = (last.filter (·.payload.isStarted)).map (·.request)

variable {pane : PaneId} {state : Lifecycle} {last : Option (PaneLifecycleEvent Error)}
  {early fresh : Reducer Error}

/-- The reducer of an active request is the early one. -/
theorem joins_active (h : Joining pane state last early fresh) {request : PaneActiveRequest}
    (hactive : state.active = some request) (hreplacement : state.replacement = none)
    (hid : request.requestId.value ≠ 0) :
    fresh.startObserving { seedRequest := some request } = some (early.withLast none) := by
  obtain ⟨hfresh, -⟩ := create_eq_some h.created
  have hstarted : ∀ event, last = some event → event.payload.isStarted := by
    intro event hevent
    have hsome := h.active
    rw [hactive, hevent, filter_some] at hsome
    split at hsome
    · next hstarted => exact hstarted
    · cases hsome
  obtain ⟨herror, hnavigation, hmismatch⟩ := h.showing.clear fun event hevent => by
    have hpayload := hstarted event hevent
    refine ⟨fun error hfailed => ?_, fun committed hcommitted => ?_⟩
    · rw [hfailed] at hpayload
      cases hpayload
    · rw [hcommitted] at hpayload
      cases hpayload
  have hseeded : fresh.seedActive request =
      fresh.commit { fresh.owned with activeRequest := some request }.clearTerminalOverlay.recompose
        .applied := by
    rw [hfresh]
    exact if_neg (by simp [hid])
  have howned : { fresh.owned with
      activeRequest := some request }.clearTerminalOverlay.recompose = (early.withLast none).owned := by
    refine (composed_recompose _).eq h.showing.composed ?_ ?_ ?_ ?_ ?_ ?_ ?_ ?_
    · rw [hfresh]
      rfl
    · rw [hfresh]
      rfl
    · exact (h.following.active.trans hactive).symm
    · rw [hfresh]
      rfl
    · exact h.following.replacement.trans hreplacement
    · exact herror.symm
    · exact hnavigation.symm
    · exact hmismatch.symm
  unfold startObserving
  dsimp only
  rw [hseeded, if_pos (commit_applied _ _)]
  rw [howned, hfresh, ← h.following.paneId]
  rfl

/-- The reducer of a retained failure is the early one if that still shows the failure. -/
theorem joins_failure (h : Joining pane state last early fresh) {failure : PaneLifecycleEvent Error}
    (hlast : last = some failure) (hpayload : failure.payload = .failed error)
    (hreplacement : state.replacement = none) (hpane : failure.paneId = pane)
    (hid : failure.requestId.value ≠ 0) (hsequence : failure.eventSequence ≠ 0)
    (hcount : failure.eventSequence ≤ state.count) : ∃ late, fresh.startObserving
        { seedRequest := some failure.request, retainedFailure := some failure,
          checkpointSequence := state.count } = some late ∧
      (early.owned.visibleError.isSome → late = early) ∧
      late.lifecycleFields.visibleError = some error := by
  obtain ⟨rfl, -⟩ := create_eq_some h.created
  have hactive : state.active = none := by
    rw [h.active, hlast, filter_some_neg (by rw [hpayload]; rfl)]
    rfl
  let next : OwnedState Error :=
    { committedState := early.owned.committedState, state := early.owned.committedState,
      lastEventSequence := some state.count, visibleError := some error,
      navigationFailed := failure.descriptor.kind == PaneRequestKind.navigation,
      commitProjectionFailed := false }
  let fresh : Reducer Error :=
    { paneId := pane,
      owned := { committedState := early.owned.committedState, state := early.owned.committedState } }
  have hseeded : fresh.seedRetainedFailure failure.request failure state.count =
      fresh.commit next.recompose .applied := by
    unfold seedRetainedFailure
    rw [hpayload]
    dsimp only
    have hchecked : ¬state.count < failure.eventSequence := Nat.not_lt.mpr hcount
    rw [if_neg (by simp [fresh, PaneLifecycleEvent.request, hpane, hid, hsequence, hchecked])]
  refine ⟨{ fresh with owned := next.recompose }, ?_, fun hshown => ?_, rfl⟩
  · unfold startObserving
    dsimp only
    rw [if_neg (by omega), hseeded, if_pos (commit_applied _ _)]
    rfl
  · obtain ⟨shown, hvisible⟩ := isSome_iff_exists.mp hshown
    obtain ⟨event, hevent, hfailed⟩ := h.showing.error shown hvisible
    have hsame : event = failure := some.inj (hevent.symm.trans hlast)
    rw [hsame, hpayload] at hfailed
    have howned : next.recompose = early.owned := by
      refine (composed_recompose _).eq h.showing.composed ?_ ?_ ?_ ?_ ?_ ?_ ?_ ?_
      · rfl
      · change some state.count = _
        rw [h.following.last, if_neg (by omega)]
      · exact (h.following.active.trans hactive).symm
      · rfl
      · exact h.following.replacement.trans hreplacement
      · rw [hvisible]
        exact congrArg some (EventPayload.failed.inj hfailed)
      · rw [h.showing.navigation, hvisible, hlast]
        rfl
      · refine (eq_false_of_ne_true fun hmismatch => ?_).symm
        obtain ⟨other, committed, hother, hcommitted⟩ := h.showing.mismatch hmismatch
        rw [← some.inj (hlast.symm.trans hother), hpayload] at hcommitted
        cases hcommitted
    rw [howned]
    change { paneId := pane, owned := early.owned } = early
    rw [← h.following.paneId]

omit [BEq Error] in
/-- Without a seed, the reducer is the early one if that shows no failed commit. -/
theorem joins_idle (h : Joining pane state last early fresh) (hactive : state.active = none)
    (hreplacement : state.replacement = none)
    (hlast : ∀ event, last = some event → event.payload.isFailed = false)
    (hmismatch : early.owned.commitProjectionFailed = false) : fresh = early.withLast none := by
  obtain ⟨hfresh, hcomposed⟩ := create_eq_some h.created
  have herror : early.owned.visibleError = none := by
    cases hvisible : early.owned.visibleError with
    | none => rfl
    | some error =>
      obtain ⟨event, hevent, hpayload⟩ := h.showing.error error hvisible
      have hfailed := hlast event hevent
      rw [hpayload] at hfailed
      cases hfailed
  have howned : fresh.owned = (early.withLast none).owned := by
    refine hcomposed.eq h.showing.composed ?_ ?_ ?_ ?_ ?_ ?_ ?_ ?_
    · rw [hfresh]
      rfl
    · rw [hfresh]
      rfl
    · rw [hfresh]
      exact (h.following.active.trans hactive).symm
    · rw [hfresh]
    · exact h.following.replacement.trans hreplacement
    · rw [hfresh]
      exact herror.symm
    · change _ = early.owned.navigationFailed
      rw [hfresh, h.showing.navigation, herror]
      rfl
    · rw [hfresh]
      exact hmismatch.symm
  have hpane : fresh.paneId = (early.withLast none).paneId := by
    rw [hfresh]
    exact h.following.paneId.symm
  cases fresh
  exact Reducer.mk.injEq .. ▸ ⟨hpane, howned⟩

/-! ## Any point of any run -/

omit [BEq Error] in
/-- What is handed out later follows what was handed out before. -/
theorem remaining_follows (hpublishing : Publishing producer) (hretaining : Retaining pane producer)
    (calls : List (PaneCall Error)) (hread : advanceAll pane {} producer.emitted = some state)
    (hevents : producer.emitted ++ events <+: (runAll paneStep producer calls).1.published) :
    (∃ last, state.advanceAll pane events = some last) ∧
      ∀ event ∈ events, event.eventSequence < 2 ^ 64 := by
  obtain ⟨hlater, hpane⟩ := runAll_invariant
    (fun producer : Producer Error => Publishing producer ∧ Retaining pane producer)
    (fun _ call h => ⟨paneStep_publishing h.1 call, retaining_step h.2 h.1 call⟩) calls
    ⟨hpublishing, hretaining⟩
  obtain ⟨rest, hrest⟩ := hevents
  have hlifecycle := hlater.lifecycle
  rw [hpane.paneId, ← hrest, append_assoc, advanceAll_append, hread] at hlifecycle
  obtain ⟨last, hlast, -⟩ := advanceAll_prefix hlifecycle
  refine ⟨⟨last, hlast⟩, fun event hevent => hlater.eventSequence_lt ?_⟩
  rw [← hrest]
  exact mem_append_left _ (mem_append_right _ hevent)

section

variable {producer : Producer Error}

theorem agrees_withLast (hpublishing : Publishing producer) (hretaining : Retaining pane producer)
    (hread : advanceAll pane {} producer.emitted = some state)
    (hfollowing : Following pane state early) : Agrees producer early (early.withLast none) := by
  intro calls inputs hevents _
  obtain ⟨⟨last, hlast⟩, hbound⟩ := remaining_follows hpublishing hretaining calls hread hevents
  rcases alike_run hfollowing inputs hlast hbound with hsame | halike
  · rw [hsame]
  · rw [halike, lifecycleFields_withLast]

theorem agrees_waiting (hpublishing : Publishing producer) (hretaining : Retaining pane producer)
    (hread : advanceAll pane {} producer.emitted = some state)
    (hseed : Producer.pendingSeed producer.pendingNotifications = some none)
    (hidle : state.active = none) (h : Joining pane state last early fresh) :
    Agrees producer early fresh := by
  intro calls inputs hevents hstarted
  obtain ⟨⟨last, hlast⟩, hbound⟩ := remaining_follows hpublishing hretaining calls hread hevents
  obtain ⟨hfresh, -⟩ := create_eq_some h.created
  have hwaiting : Waiting early fresh := by
    rw [hfresh]
    exact ⟨h.following.paneId.symm, rfl, rfl, rfl, .inl rfl⟩
  rw [waiting_run h.following hidle hwaiting inputs hlast hbound (hstarted hseed)]

/-- Reducers that agree show the same at once, unless a start waits. -/
theorem Agrees.now (h : Agrees producer early late)
    (hseed : Producer.pendingSeed producer.pendingNotifications ≠ some none) :
    early.lifecycleFields = late.lifecycleFields :=
  h [] [] ⟨producer.pendingNotifications, by rw [filterMap_nil, append_nil]; rfl⟩
    fun hstarted => absurd hstarted hseed

end

theorem joiner_agrees_iff {producer : Producer Error} (hpublishing : Publishing producer)
    (hretaining : Retaining pane producer) (hstart : create pane initial = some start)
    (hread : inputs.filterMap event? = producer.emitted)
    (hfresh : create pane (runAll reducerStep start inputs).1.owned.committedState = some fresh) :
    ∃ late, fresh.startObserving producer.subscribe = some late ∧
      (Agrees producer (runAll reducerStep start inputs).1 late ↔
        Producer.pendingSeed producer.pendingNotifications = some none ∨
        start.undisturbed inputs) := by
  have hlifecycle := hpublishing.lifecycle
  rw [hretaining.paneId] at hlifecycle
  obtain ⟨state, hstate, hpending⟩ := advanceAll_prefix hlifecycle
  have hbound : ∀ event ∈ inputs.filterMap event?, event.eventSequence < 2 ^ 64 :=
    fun event hevent => hpublishing.eventSequence_lt (mem_append_left _ (hread ▸ hevent))
  have hinputs := hread.symm ▸ hstate
  have hfollowing := (following_run (following_create hstart) inputs hinputs hbound).1
  have hjoining : Joining pane state (lastAuthoritative producer.emitted)
      (runAll reducerStep start inputs).1 fresh :=
    ⟨hfollowing, hread ▸ showing_run hstart inputs hinputs hbound, hfresh, active_eq hstate⟩
  have hundisturbed (event : PaneLifecycleEvent Error)
      (hlast : lastAuthoritative producer.emitted = some event) :
      start.undisturbed inputs ↔ (runAll reducerStep start inputs).1.remembers event :=
    undisturbed_iff (following_create hstart) inputs hinputs hbound (hread.symm ▸ hlast)
  generalize (runAll reducerStep start inputs).1 = early at *
  -- A request that is active when the remaining events are read is the one that is seeded.
  have hactive (request : PaneActiveRequest) (hsome : state.active = some request)
      (hnone : state.replacement = none) :
      ∃ late, fresh.startObserving { seedRequest := some request } = some late ∧
        Agrees producer early late ∧ start.undisturbed inputs := by
    have hsource := hjoining.active
    rw [hsome, eq_comm, map_eq_some_iff] at hsource
    obtain ⟨event, hevent, hrequest⟩ := hsource
    obtain ⟨hlast, hstarted⟩ := filter_eq_some_iff.mp hevent
    obtain ⟨-, hid, -, -⟩ := event_known hstate event (lastAuthoritative_mem hlast).1
    refine ⟨_, joins_active hjoining hsome hnone (hrequest ▸ hid),
      agrees_withLast hpublishing hretaining hstate hfollowing, (hundisturbed event hlast).mpr ?_⟩
    unfold remembers
    cases hkind : event.payload with
    | started => trivial
    | committed | failed | cancelled | superseded | rejected =>
      rw [hkind] at hstarted
      cases hstarted
  unfold Producer.subscribe
  cases hseed : Producer.pendingSeed producer.pendingNotifications with
  | some seed =>
    obtain ⟨hsome, hnone⟩ := pendingSeed_eq_some hseed hpending
    cases seed with
    | none =>
      exact ⟨fresh, rfl, iff_of_true
        (agrees_waiting hpublishing hretaining hstate hseed hsome hjoining) (.inl rfl)⟩
    | some request =>
      obtain ⟨late, hlate, hagrees, hquiet⟩ := hactive request hsome (hnone rfl)
      exact ⟨late, hlate, iff_of_true hagrees (.inr hquiet)⟩
  | none =>
    have hrejected := pendingSeed_eq_none hseed
    obtain ⟨hsame, hreplacement⟩ := advanceAll_rejections hrejected hpending
    have hpublished : lastAuthoritative producer.published = lastAuthoritative producer.emitted :=
      lastAuthoritative_of_rejections hrejected
    have hne : Producer.pendingSeed producer.pendingNotifications ≠ some none := by
      rw [hseed]
      exact nofun
    rw [or_iff_right nofun]
    cases hrequest : producer.activeRequest with
    | some request =>
      obtain ⟨late, hlate, hagrees, hquiet⟩ :=
        hactive request (hsame.symm.trans hrequest) hreplacement.symm
      exact ⟨late, hlate, iff_of_true hagrees hquiet⟩
    | none =>
      have hidle : state.active = none := hsame.symm.trans hrequest
      have hretained := hretaining.retained
      rw [hpublished] at hretained
      cases hfailure : producer.retainedFailure with
      | some failure =>
        rw [hfailure, eq_comm, filter_eq_some_iff] at hretained
        obtain ⟨hlast, hfailed⟩ := hretained
        have hmem := (lastAuthoritative_mem hlast).1
        obtain ⟨hpane, hid, hsequence, hcount⟩ := event_known hstate failure hmem
        cases hkind : failure.payload with
        | failed error =>
          obtain ⟨late, hlate, hshown, herror⟩ := joins_failure hjoining hlast hkind
            hreplacement.symm hpane hid hsequence hcount
          have hcheckpoint :=
            checkpoint_eq hpublishing hretaining hmem (hretaining.paneId ▸ hstate)
          refine ⟨late, (congrArg (fun checkpoint => fresh.startObserving
            { seedRequest := some failure.request, retainedFailure := some failure,
              checkpointSequence := checkpoint }) hcheckpoint).trans hlate, ?_⟩
          rw [hundisturbed failure hlast]
          unfold remembers
          rw [hkind]
          constructor
          · intro hagrees
            have hnow := congrArg LifecycleFields.visibleError (hagrees.now hne)
            rw [herror] at hnow
            have hcomposed := hjoining.showing.composed
            change early.owned.state.visibleError = some error at hnow
            rw [hcomposed] at hnow
            rw [show early.owned.visibleError = some error from hnow]
            rfl
          · intro hvisible
            rw [hshown hvisible]
            exact fun _ _ _ _ => rfl
        | started | committed | cancelled | superseded | rejected =>
          rw [hkind] at hfailed
          cases hfailed
      | none =>
        rw [hfailure] at hretained
        have hunfailed : ∀ event, lastAuthoritative producer.emitted = some event →
            event.payload.isFailed = false := by
          intro event hevent
          rw [hevent] at hretained
          have hnone := filter_some_eq_none.mp hretained.symm
          exact eq_false_of_ne_true hnone
        have hagrees : Agrees producer early fresh ↔
            early.owned.commitProjectionFailed = false := by
          constructor
          · intro hagrees
            have hnow := congrArg LifecycleFields.commitProjectionFailed (hagrees.now hne)
            rw [(create_eq_some hjoining.created).1] at hnow
            exact hnow
          · intro hmismatch
            rw [joins_idle hjoining hidle hreplacement.symm hunfailed hmismatch]
            exact agrees_withLast hpublishing hretaining hstate hfollowing
        refine ⟨fresh, rfl, hagrees.trans ?_⟩
        have hmatched (hother : ∀ event, lastAuthoritative producer.emitted = some event →
            ∀ committed, event.payload ≠ .committed committed) :
            early.owned.commitProjectionFailed = false := by
          refine eq_false_of_ne_true fun hmismatch => ?_
          obtain ⟨event, committed, hevent, hcommitted⟩ := hjoining.showing.mismatch hmismatch
          exact hother event hevent committed hcommitted
        cases hlast : lastAuthoritative producer.emitted with
        | none =>
          refine iff_of_true (hmatched fun event hevent => ?_)
            (undisturbed_of_none start inputs (hread ▸ hlast))
          rw [hlast] at hevent
          cases hevent
        | some event =>
          rw [hundisturbed event hlast]
          unfold remembers
          cases hkind : event.payload with
          | committed model => exact Iff.rfl
          | failed error =>
            have hfalse := hunfailed event hlast
            rw [hkind] at hfalse
            cases hfalse
          | started | cancelled | superseded | rejected =>
            refine iff_of_true (hmatched fun other hother committed hcommitted => ?_) trivial
            rw [← some.inj (hlast.symm.trans hother), hkind] at hcommitted
            cases hcommitted

/-- A late joiner agrees with a reducer that has read everything, whatever comes then, exactly
when a start waits for both, or when the early one has neither cleared a retained failure for a
projection of a newer location nor been left with the failure of a commit. -/
theorem late_joiner_agrees_iff (pane : PaneId) (limits : CounterLimits)
    (calls : List (PaneCall Error)) (initial : PaneState Error) (inputs : List (ReducerInput Error))
    {start fresh : Reducer Error} (hstart : create pane initial = some start)
    (hread : inputs.filterMap event? = (runAll paneStep (.create pane limits) calls).1.emitted)
    (hfresh : create pane (runAll reducerStep start inputs).1.owned.committedState = some fresh) :
    ∃ late, fresh.startObserving (runAll paneStep (.create pane limits) calls).1.subscribe =
        some late ∧ (Agrees (runAll paneStep (.create pane limits) calls).1
          (runAll reducerStep start inputs).1 late ↔ Producer.pendingSeed
            (runAll paneStep (.create pane limits : Producer Error) calls).1.pendingNotifications =
          some none ∨ start.undisturbed inputs = true) :=
  joiner_agrees_iff (run_publishing pane limits calls) (run_retaining pane limits calls) hstart hread
    hfresh

/-! ## A failure that has been left behind -/

def failedNavigation : List (PaneCall Unit) :=
  [.start {}, .observersReturned, .finish ⟨1⟩ (.failed ()) false, .observersReturned]

/-- A listing that was loaded past the producer, as a temporary panel is. -/
def movedOn : PaneState Unit :=
  { locationGeneration := 1, loadPhase := .loaded, listing := some ⟨7, 0⟩,
    sortState := { key := .name, direction := .ascending, collation := .natural },
    viewState := { mode := .details } }

def anyLimits : CounterLimits :=
  { maximumRequestId := 2 ^ 64 - 1, maximumEventSequence := 2 ^ 64 - 1,
    requestId_pos := by decide, requestId_lt := by decide,
    eventSequence_pos := by decide, eventSequence_lt := by decide }

/-- The producer after a navigation that failed. -/
def afterFailure : Producer Unit := (runAll paneStep (.create ⟨1⟩ anyLimits) failedNavigation).1

def emptyReducer : Reducer Unit := { paneId := ⟨1⟩, owned := { committedState := {}, state := {} } }

/-- What a reducer is given that has read everything. -/
def failureThen (projection : PaneState Unit) : List (ReducerInput Unit) :=
  afterFailure.emitted.map (.event · none) ++ [.projection projection]

theorem late_joiner_agrees_failed :
    ∃ late, emptyReducer.startObserving afterFailure.subscribe = some late ∧
      (Agrees afterFailure (runAll reducerStep emptyReducer (failureThen {})).1 late ↔
        Producer.pendingSeed afterFailure.pendingNotifications = some none ∨
        emptyReducer.undisturbed (failureThen {}) = true) ∧
      emptyReducer.undisturbed (failureThen {}) = true := by
  have hcreated : create ⟨1⟩ ({} : PaneState Unit) = some emptyReducer := rfl
  obtain ⟨late, hlate, hagrees⟩ := late_joiner_agrees_iff ⟨1⟩ anyLimits failedNavigation {}
    (failureThen {}) hcreated rfl hcreated
  exact ⟨late, hlate, hagrees, by decide⟩

/-- The failure of a navigation, replayed although another location has been shown since. -/
theorem late_joiner_disagrees_movedOn : ∃ fresh late, create ⟨1⟩ movedOn = some fresh ∧
      (runAll reducerStep emptyReducer (failureThen movedOn)).1.owned.committedState = movedOn ∧
      fresh.startObserving afterFailure.subscribe = some late ∧
      ¬Agrees afterFailure (runAll reducerStep emptyReducer (failureThen movedOn)).1 late := by
  refine ⟨_, _, rfl, rfl, rfl, fun hagrees => ?_⟩
  have hshown := congrArg LifecycleFields.visibleError (hagrees.now (by decide))
  cases hshown

end WinCommander.Pane
