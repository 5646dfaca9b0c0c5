/-
  What the loading lifecycle of one pane is, independently of who publishes it and who reads it.

  A state knows how many events there were, which request is active, and which replacement has
  to start next. `advance` tells which event may follow. The events of a lifecycle are
  numbered from one; at most one request is active; a superseded one is followed by the start
  of its replacement before anything else.
-/
import WinCommander.Pane.PaneState

namespace WinCommander.Pane

open List Option EventPayload PaneLifecycleEvent

variable {Error : Type}

structure Lifecycle where
  count : Nat := 0
  active : Option PaneActiveRequest := none
  replacement : Option PaneRequestId := none
deriving DecidableEq

def PaneLifecycleEvent.request (event : PaneLifecycleEvent Error) : PaneActiveRequest :=
  { requestId := event.requestId, descriptor := event.descriptor }

namespace Lifecycle

/-- The state after an event that may follow. -/
def advance (pane : PaneId) (state : Lifecycle) (event : PaneLifecycleEvent Error) :
    Option Lifecycle :=
  if event.paneId ≠ pane ∨ event.eventSequence ≠ state.count + 1 ∨ event.requestId.value = 0 then none
  else
    match event.payload with
    | .started =>
      if state.active = none ∧ (state.replacement = none ∨ state.replacement = some event.requestId)
      then some { count := state.count + 1, active := some event.request, replacement := none }
      else none
    | .committed _ | .failed _ | .cancelled _ =>
      if state.active = some event.request ∧ state.replacement = none then
        some { count := state.count + 1, active := none, replacement := none }
      else none
    | .superseded replacement =>
      if state.active = some event.request ∧ state.replacement = none ∧ replacement.value ≠ 0 ∧
          replacement ≠ event.requestId then
        some { count := state.count + 1, active := none, replacement := some replacement }
      else none
    | .rejected _ =>
      if state.replacement = none then some { state with count := state.count + 1 } else none

/-- The state after a list of events, if they follow each other. -/
def advanceAll (pane : PaneId) (state : Lifecycle) :
    List (PaneLifecycleEvent Error) → Option Lifecycle
  | [] => some state
  | event :: rest => (state.advance pane event).bind fun next => next.advanceAll pane rest

theorem advanceAll_append (pane : PaneId) (state : Lifecycle)
    (first second : List (PaneLifecycleEvent Error)) : state.advanceAll pane (first ++ second) =
      (state.advanceAll pane first).bind fun next => next.advanceAll pane second := by
  induction first generalizing state with
  | nil => rfl
  | cons event rest ih =>
    rw [cons_append, advanceAll, advanceAll, bind_assoc]
    exact congrArg _ (funext fun next => ih next)

/-- Every prefix of a lifecycle is one. -/
theorem advanceAll_prefix {state last : Lifecycle}
    (h : state.advanceAll pane (first ++ second) = some last) :
    ∃ middle, state.advanceAll pane first = some middle ∧
      middle.advanceAll pane second = some last := by
  rw [advanceAll_append] at h
  exact bind_eq_some_iff.mp h

/-- Induction along a lifecycle, at its end. -/
theorem advanceAll_induction {start : Lifecycle}
    (P : List (PaneLifecycleEvent Error) → Lifecycle → Prop) (hstart : P [] start)
    (hstep : ∀ events state event next, P events state → state.advance pane event = some next → P (events ++ [event]) next)
    (h : start.advanceAll pane events = some last) : P events last := by
  induction events using reverseRecOn generalizing last with
  | nil =>
    cases h
    exact hstart
  | append_singleton events event ih =>
    obtain ⟨middle, hmiddle, hlast⟩ := advanceAll_prefix h
    obtain ⟨next, hnext, hdone⟩ := bind_eq_some_iff.mp hlast
    cases hdone
    exact hstep events middle event _ (ih hmiddle) hnext

/-- What an event that may follow looks like, and what it does. -/
theorem advance_eq_some {state next : Lifecycle} {event : PaneLifecycleEvent Error}
    (h : state.advance pane event = some next) :
    event.paneId = pane ∧ event.eventSequence = state.count + 1 ∧ event.requestId.value ≠ 0 ∧
    next.count = state.count + 1 ∧
    match event.payload with
    | .started => state.active = none ∧
        (state.replacement = none ∨ state.replacement = some event.requestId) ∧
        next.active = some event.request ∧ next.replacement = none
    | .committed _ | .failed _ | .cancelled _ => state.active = some event.request ∧
        state.replacement = none ∧ next.active = none ∧ next.replacement = none
    | .superseded replacement => state.active = some event.request ∧ state.replacement = none ∧
        replacement.value ≠ 0 ∧ replacement ≠ event.requestId ∧ next.active = none ∧
        next.replacement = some replacement
    | .rejected _ => state.replacement = none ∧ next.active = state.active ∧
        next.replacement = none := by
  unfold advance at h
  by_cases hhead : event.paneId ≠ pane ∨ event.eventSequence ≠ state.count + 1 ∨
      event.requestId.value = 0
  · rw [if_pos hhead] at h
    cases h
  rw [if_neg hhead] at h
  rw [not_or, not_or, not_not, not_not] at hhead
  refine ⟨hhead.1, hhead.2.1, hhead.2.2, ?_⟩
  cases hpayload : event.payload with
  | started =>
    rw [hpayload] at h
    dsimp only at h ⊢
    split at h
    · next hc => 
        cases h
        exact ⟨rfl, hc.1, hc.2, rfl, rfl⟩
    · cases h
  | committed | failed | cancelled =>
    rw [hpayload] at h
    dsimp only at h ⊢
    split at h
    · next hc =>
        cases h
        exact ⟨rfl, hc.1, hc.2, rfl, rfl⟩
    · cases h
  | superseded replacement =>
    rw [hpayload] at h
    dsimp only at h ⊢
    split at h
    · next hc =>
        cases h
        exact ⟨rfl, hc.1, hc.2.1, hc.2.2.1, hc.2.2.2, rfl, rfl⟩
    · cases h
  | rejected =>
    rw [hpayload] at h
    dsimp only at h ⊢
    split at h
    · next hc =>
        cases h
        exact ⟨rfl, hc, rfl, hc⟩
    · cases h

end Lifecycle

/-! ## Starts and ends -/

def PaneLifecycleEvent.starts (id : PaneRequestId) (event : PaneLifecycleEvent Error) : Bool :=
  event.requestId == id && event.payload.isStarted

def PaneLifecycleEvent.ends (id : PaneRequestId) (event : PaneLifecycleEvent Error) : Bool :=
  event.requestId == id && event.payload.isAcceptedTerminal

/-- One for the active request. -/
def Lifecycle.open (state : Lifecycle) (id : PaneRequestId) : Nat :=
  if state.active.map (·.requestId) = some id then 1 else 0

/-- Every request that was started has ended, but for the active one. -/
theorem Lifecycle.ends_add_open {events : List (PaneLifecycleEvent Error)}
    (h : Lifecycle.advanceAll pane {} events = some last) (id : PaneRequestId) :
    events.countP (·.ends id) + last.open id = events.countP (·.starts id) := by
  refine Lifecycle.advanceAll_induction (fun events state =>
    events.countP (·.ends id) + state.open id = events.countP (·.starts id)) rfl ?_ h
  intro events state event next ih hnext
  obtain ⟨-, -, -, -, hcase⟩ := Lifecycle.advance_eq_some hnext
  rw [countP_append, countP_append, countP_singleton, countP_singleton, ← ih]
  unfold Lifecycle.open PaneLifecycleEvent.starts ends
  cases hpayload : event.payload with
  | started =>
    rw [hpayload] at hcase
    obtain ⟨hactive, -, hnow, -⟩ := hcase
    rw [hactive, hnow]
    simp [isStarted, isAcceptedTerminal, request]
  | committed | failed | cancelled =>
    rw [hpayload] at hcase
    obtain ⟨hactive, -, hnow, -⟩ := hcase
    rw [hactive, hnow]
    simp [isStarted, isAcceptedTerminal, request]
  | superseded =>
    rw [hpayload] at hcase
    obtain ⟨hactive, -, -, -, hnow, -⟩ := hcase
    rw [hactive, hnow]
    simp [isStarted, isAcceptedTerminal, request]
  | rejected =>
    rw [hpayload] at hcase
    obtain ⟨-, hnow, -⟩ := hcase
    rw [hnow]
    simp [isStarted, isAcceptedTerminal]

/-- The events of a lifecycle are numbered one after another, from one. -/
theorem Lifecycle.sequences {events : List (PaneLifecycleEvent Error)}
    (h : Lifecycle.advanceAll pane {} events = some last) :
    events.map (·.eventSequence) = range' 1 events.length ∧ last.count = events.length := by
  refine Lifecycle.advanceAll_induction (fun events state =>
    events.map (·.eventSequence) = range' 1 events.length ∧ state.count = events.length)
    ⟨rfl, rfl⟩ ?_ h
  intro events state event next ih hnext
  obtain ⟨-, hsequence, -, hcount, -⟩ := Lifecycle.advance_eq_some hnext
  rw [map_append, length_append, length_singleton, ih.1, List.range'_concat]
  refine ⟨?_, by omega⟩
  rw [map_singleton, hsequence, ih.2]
  congr 2
  omega

end WinCommander.Pane
