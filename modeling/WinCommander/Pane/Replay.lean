/-
  What `Subscribe` replays, told by the events that were published.

  The failure that a producer retains is the last authoritative event it has published, if that
  is a failure (`Retaining`). The request that the pending events make it name is the one that a
  reader of the events before them has active.
-/
import WinCommander.Pane.Agreement

namespace WinCommander.Pane

open Library List Option Bool Producer Lifecycle

variable {Error : Type}

def EventPayload.isFailed : EventPayload Error → Bool
  | .failed _ => true
  | _ => false

/-! ## The last authoritative event -/

/-- The last event that is no rejection. -/
def lastAuthoritative (events : List (PaneLifecycleEvent Error)) :
    Option (PaneLifecycleEvent Error) :=
  (events.filter fun event => !event.payload.isRejected).getLast?

theorem lastAuthoritative_append (first second : List (PaneLifecycleEvent Error)) :
    lastAuthoritative (first ++ second) = (lastAuthoritative second).or (lastAuthoritative first) := by
  unfold lastAuthoritative
  rw [filter_append, List.getLast?_append]

variable {event : PaneLifecycleEvent Error} {events : List (PaneLifecycleEvent Error)}
  {pane : PaneId}

theorem lastAuthoritative_singleton (h : event.payload.isRejected = false) :
    lastAuthoritative [event] = some event := by
  unfold lastAuthoritative
  rw [filter_cons_of_pos (by rw [h]; rfl)]
  rfl

theorem lastAuthoritative_eq_none_iff :
    lastAuthoritative events = none ↔ ∀ event ∈ events, event.payload.isRejected := by
  unfold lastAuthoritative
  simp [not_eq_false]

theorem lastAuthoritative_of_rejections {first second : List (PaneLifecycleEvent Error)}
    (h : ∀ event ∈ second, event.payload.isRejected) :
    lastAuthoritative (first ++ second) = lastAuthoritative first := by
  rw [lastAuthoritative_append, lastAuthoritative_eq_none_iff.mpr h, none_or]

theorem lastAuthoritative_concat (events : List (PaneLifecycleEvent Error))
    (event : PaneLifecycleEvent Error) : lastAuthoritative (events ++ [event]) =
      if event.payload.isRejected then lastAuthoritative events else some event := by
  split_ifs with hrejected
  · exact lastAuthoritative_of_rejections fun other hother => by
      rw [mem_singleton.mp hother, hrejected]
  · rw [lastAuthoritative_append,
      lastAuthoritative_singleton (eq_false_of_ne_true hrejected), some_or]

theorem lastAuthoritative_mem (h : lastAuthoritative events = some event) :
    event ∈ events ∧ event.payload.isRejected = false := by
  have hmem := mem_of_getLast? h
  rw [mem_filter, not_eq_true'] at hmem
  exact hmem

/-- A request is active from its start to its end. -/
theorem Lifecycle.active_eq (h : advanceAll pane {} events = some last) :
    last.active = ((lastAuthoritative events).filter (·.payload.isStarted)).map (·.request) := by
  refine advanceAll_induction (fun events state =>
    state.active = ((lastAuthoritative events).filter (·.payload.isStarted)).map (·.request))
    rfl ?_ h
  intro events state event next ih hnext
  obtain ⟨-, -, -, -, hcase⟩ := advance_eq_some hnext
  rw [lastAuthoritative_concat]
  cases hpayload : event.payload with
  | started =>
    rw [hpayload] at hcase
    rw [hcase.2.2.1, if_neg (by exact Bool.false_ne_true), filter_some_pos (by rw [hpayload]; rfl)]
    rfl
  | committed | failed | cancelled =>
    rw [hpayload] at hcase
    rw [hcase.2.2.1, if_neg (by exact Bool.false_ne_true), filter_some_neg (by rw [hpayload]; rfl)]
    rfl
  | superseded =>
    rw [hpayload] at hcase
    rw [hcase.2.2.2.2.1, if_neg (by exact Bool.false_ne_true),
      filter_some_neg (by rw [hpayload]; rfl)]
    rfl
  | rejected =>
    rw [hpayload] at hcase
    rw [hcase.2.1, ih]
    rfl

/-- Every event of a lifecycle is one of the pane, about a request, and not later than its end. -/
theorem Lifecycle.event_known (h : advanceAll pane {} events = some last) :
    ∀ event ∈ events, event.paneId = pane ∧ event.requestId.value ≠ 0 ∧
      event.eventSequence ≠ 0 ∧ event.eventSequence ≤ last.count := by
  refine advanceAll_induction (fun events state => ∀ event ∈ events,
    event.paneId = pane ∧ event.requestId.value ≠ 0 ∧ event.eventSequence ≠ 0 ∧
      event.eventSequence ≤ state.count) (fun event hevent => absurd hevent not_mem_nil) ?_ h
  intro events state event next ih hnext other hother
  obtain ⟨hpane, hsequence, hrequest, hcount, -⟩ := advance_eq_some hnext
  rcases mem_append.mp hother with hold | hnew
  · obtain ⟨h1, h2, h3, h4⟩ := ih other hold
    exact ⟨h1, h2, h3, by omega⟩
  · rw [mem_singleton.mp hnew]
    exact ⟨hpane, hrequest, by omega, by omega⟩

/-- Rejections leave the active request and its replacement alone. -/
theorem Lifecycle.advanceAll_rejections {state last : Lifecycle}
    (hrejected : ∀ event ∈ events, event.payload.isRejected)
    (h : state.advanceAll pane events = some last) :
    last.active = state.active ∧ last.replacement = state.replacement := by
  induction events generalizing state with
  | nil =>
    cases h
    exact ⟨rfl, rfl⟩
  | cons event rest ih =>
    obtain ⟨next, hnext, hrest⟩ := bind_eq_some_iff.mp h
    obtain ⟨-, -, -, -, hcase⟩ := advance_eq_some hnext
    obtain ⟨h1, h2⟩ := ih (fun other hother => hrejected other (mem_cons_of_mem _ hother)) hrest
    have hhead := hrejected event mem_cons_self
    cases hpayload : event.payload with
    | rejected =>
      rw [hpayload] at hcase
      obtain ⟨hnone, hactive, hreplacement⟩ := hcase
      exact ⟨h1.trans hactive, h2.trans (hreplacement.trans hnone.symm)⟩
    | started | committed | failed | cancelled | superseded =>
      rw [hpayload] at hhead
      cases hhead

/-! ## The seed of the pending events -/

/-- Nothing but rejections are pending. -/
theorem pendingSeed_eq_none (h : pendingSeed events = none) :
    ∀ event ∈ events, event.payload.isRejected := by
  induction events with
  | nil => exact fun event hevent => absurd hevent not_mem_nil
  | cons event rest ih =>
    unfold pendingSeed at h
    cases hpayload : event.payload with
    | rejected =>
      rw [hpayload] at h
      intro other hother
      rcases mem_cons.mp hother with rfl | hrest
      · rw [hpayload]
        rfl
      · exact ih h other hrest
    | started | committed | failed | cancelled | superseded =>
      rw [hpayload] at h
      cases h

/-- The state in which the pending events are read: the request that they name is active, and
where the start of one comes first, none is. -/
theorem pendingSeed_eq_some {state last : Lifecycle} (h : pendingSeed events = some seed)
    (hread : state.advanceAll pane events = some last) :
    state.active = seed ∧ (seed.isSome → state.replacement = none) := by
  induction events generalizing state with
  | nil => cases h
  | cons event rest ih =>
    obtain ⟨next, hnext, hrest⟩ := bind_eq_some_iff.mp hread
    obtain ⟨-, -, -, -, hcase⟩ := advance_eq_some hnext
    unfold pendingSeed at h
    cases hpayload : event.payload with
    | started =>
      rw [hpayload] at h hcase
      cases h
      exact ⟨hcase.1, fun hsome => nomatch hsome⟩
    | committed | failed | cancelled =>
      rw [hpayload] at h hcase
      cases h
      exact ⟨hcase.1, fun _ => hcase.2.1⟩
    | superseded =>
      rw [hpayload] at h hcase
      cases h
      exact ⟨hcase.1, fun _ => hcase.2.1⟩
    | rejected =>
      rw [hpayload] at h hcase
      obtain ⟨hnone, hactive, -⟩ := hcase
      exact ⟨hactive ▸ (ih h hrest).1, fun _ => hnone⟩

/-! ## What the producer retains -/

variable {pane : PaneId}

structure Retaining (pane : PaneId) (producer : Producer Error) : Prop where
  paneId : producer.paneId = pane
  retained : producer.retainedFailure =
    (lastAuthoritative producer.published).filter (·.payload.isFailed)
  notified : producer.activeNotification =
    if producer.isNotifying then producer.emitted.getLast? else none

variable {producer : Producer Error}

theorem retaining_notifyNext (h : Retaining pane producer) :
    Retaining pane producer.notifyNext := by
  refine ⟨?_, ?_, ?_⟩
  · rw [← h.paneId]
    unfold notifyNext
    split <;> rfl
  · rw [published_notifyNext, ← h.retained]
    unfold notifyNext
    split <;> rfl
  · unfold notifyNext
    split
    · rfl
    · exact (List.getLast?_concat).symm

theorem retaining_drain (h : Retaining pane producer) :
    Retaining pane producer.drainNotifications := by
  unfold drainNotifications
  split
  · exact h
  · exact retaining_notifyNext h

/-- A batch is committed by an operation that has set what is retained after it. -/
theorem retaining_commit {producer quiet : Producer Error} (h : Retaining pane producer)
    (hpane : quiet.paneId = producer.paneId) (hqueue : quiet.published = producer.published)
    (hemitted : quiet.emitted = producer.emitted)
    (hnotification : quiet.activeNotification = producer.activeNotification)
    (hnotifying : quiet.isNotifying = producer.isNotifying)
    (hretained : quiet.retainedFailure = (lastAuthoritative (producer.published ++ batch)).filter (·.payload.isFailed)) :
    Retaining pane (quiet.commitBatch batch).drainNotifications := by
  refine retaining_drain ⟨hpane.trans h.paneId, ?_, ?_⟩
  · have hpublished : (quiet.commitBatch batch).published = producer.published ++ batch := by
      rw [← hqueue]
      exact (append_assoc _ _ _).symm
    rw [hpublished]
    exact hretained
  · change quiet.activeNotification = if quiet.isNotifying then quiet.emitted.getLast? else none
    rw [hnotification, hnotifying, hemitted]
    exact h.notified

theorem retaining_guarded (h : Retaining pane producer) (hoperation : Retaining pane operation.1) :
    Retaining pane (producer.guarded message operation).1 := by
  unfold guarded
  split
  · exact ⟨h.paneId, h.retained, h.notified⟩
  · exact hoperation

theorem retaining_checked {operation : β → Producer Error × Except ProducerException α}
    (h : Retaining pane producer) (hoperation : ∀ found, Retaining pane (operation found).1) :
    Retaining pane (producer.checked checks operation).1 := by
  cases checks with
  | error exception => exact h
  | ok found => exact hoperation found

/-- A batch that ends with the start of a request leaves no failure. -/
theorem retained_started (published batch : List (PaneLifecycleEvent Error))
    (h : event.payload = .started) :
    (lastAuthoritative (published ++ (batch ++ [event]))).filter (·.payload.isFailed) = none := by
  rw [← append_assoc, lastAuthoritative_concat, h]
  exact filter_some_neg (by rw [h]; rfl)

section
variable (h : Retaining pane producer)
include h

theorem retaining_publishTerminal {terminal : FinishPayload Error}
    (hterminal : event.payload = terminal.toEvent) :
    Retaining pane (producer.publishTerminal event) := by
  refine retaining_commit h rfl rfl rfl rfl rfl ?_
  rw [lastAuthoritative_concat, hterminal]
  cases terminal with
  | failed error => exact (filter_some_pos (by rw [hterminal]; rfl)).symm
  | committed model => exact (filter_some_neg (by rw [hterminal]; rfl)).symm
  | cancelled reason => exact (filter_some_neg (by rw [hterminal]; rfl)).symm

theorem retaining_shutdownNow : Retaining pane producer.shutdownNow.1 := by
  unfold shutdownNow
  split
  · exact h
  split
  · exact ⟨h.paneId, h.retained, h.notified⟩
  · refine retaining_checked h fun _ => retaining_commit h rfl rfl rfl rfl rfl ?_
    rw [lastAuthoritative_concat]
    rfl

theorem retaining_shutdownOrDiscard (hpublishing : Publishing producer)
    (hfinishing : producer.finishing = none) : Retaining pane producer.shutdownOrDiscard := by
  have hok := (shutdownNow_moves hpublishing hfinishing).2
  have hretaining := retaining_shutdownNow h
  unfold shutdownOrDiscard
  split
  · next producer' hresult =>
      rw [hresult] at hretaining
      exact hretaining
  · next producer' exception hresult =>
      rw [hresult] at hok
      cases hok

theorem retaining_abandonFinish (hpublishing : Publishing producer) :
    Retaining pane producer.abandonFinish := by
  unfold abandonFinish
  dsimp only
  split
  · exact retaining_shutdownOrDiscard ⟨h.paneId, h.retained, h.notified⟩
      ((still_flags producer (.inl rfl) false false).publishing hpublishing) rfl
  · exact ⟨h.paneId, h.retained, h.notified⟩

theorem retaining_step (hpublishing : Publishing producer) (call : PaneCall Error) :
    Retaining pane (paneStep producer call).1 := by
  cases call with
  | start descriptor =>
    change Retaining pane (producer.start descriptor).1
    refine retaining_guarded h (retaining_checked h fun _ => ?_)
    exact retaining_commit h rfl rfl rfl rfl rfl (retained_started _ [] rfl).symm
  | reject descriptor rejection =>
    change Retaining pane (producer.reject descriptor rejection).1
    refine retaining_guarded h (retaining_checked h fun _ => ?_)
    refine retaining_commit h rfl rfl rfl rfl rfl ?_
    rw [lastAuthoritative_concat]
    exact h.retained
  | supersedeAndStart descriptor =>
    change Retaining pane (producer.supersedeAndStart descriptor).1
    refine retaining_guarded h (retaining_checked h fun previous => ?_)
    exact retaining_commit h rfl rfl rfl rfl rfl (retained_started _ [_] rfl).symm
  | finish requestId terminal mutates =>
    change Retaining pane (producer.finish requestId terminal mutates).1
    refine retaining_guarded h ?_
    split
    · exact h
    split
    · exact h
    split
    · exact h
    refine retaining_checked h fun _ => ?_
    split
    · exact ⟨h.paneId, h.retained, h.notified⟩
    · exact retaining_publishTerminal h rfl
  | mutationReturned =>
    unfold paneStep
    dsimp only
    split
    · next event hevent =>
        change Retaining pane (producer.mutationReturned event).1
        unfold mutationReturned
        split
        · exact retaining_abandonFinish h hpublishing
        · obtain ⟨request, -, terminal, rfl⟩ := hpublishing.finishing event hevent
          have hunflagged : Retaining pane { producer with finishing := none } :=
            ⟨h.paneId, h.retained, h.notified⟩
          exact retaining_publishTerminal hunflagged rfl
    · exact h
  | mutationThrew =>
    unfold paneStep
    dsimp only
    split
    · exact retaining_abandonFinish h hpublishing
    · exact h
  | shutdown => exact retaining_guarded h (retaining_shutdownNow h)
  | subscribe => exact h
  | destroy =>
    change Retaining pane producer.shutdownForDestruction
    unfold shutdownForDestruction
    split
    · exact ⟨h.paneId, h.retained, h.notified⟩
    · next hfinishing =>
        exact retaining_shutdownOrDiscard h hpublishing
          (not_isSome_iff_eq_none.mp hfinishing)
  | observersReturned =>
    unfold paneStep
    dsimp only
    split
    · exact retaining_notifyNext h
    · exact h

end

theorem run_retaining (pane : PaneId) (limits : CounterLimits) (calls : List (PaneCall Error)) :
    Retaining pane (runAll paneStep (.create pane limits : Producer Error) calls).1 :=
  (runAll_invariant (fun producer : Producer Error => Publishing producer ∧ Retaining pane producer)
    (fun _ call h => ⟨paneStep_publishing h.1 call, retaining_step h.2 h.1 call⟩) calls
    ⟨create_publishing pane limits, rfl, rfl, rfl⟩).2

/-- What the joining observer has missed ends with the last event that was handed out. -/
theorem checkpoint_eq (hpublishing : Publishing producer) (h : Retaining pane producer)
    {failure : PaneLifecycleEvent Error} (hfailure : failure ∈ producer.emitted)
    (hread : advanceAll producer.paneId {} producer.emitted = some state) :
    (match producer.activeNotification with
      | some notification => notification.eventSequence
      | none => producer.previousEventSequence) = state.count := by
  obtain ⟨hnumbers, hcount⟩ := sequences hread
  rw [h.notified]
  split_ifs with hnotifying
  · have hne := ne_nil_of_mem hfailure
    rw [List.getLast?_eq_some_getLast hne]
    have hlast := congrArg List.getLast? hnumbers
    rw [List.getLast?_map, List.getLast?_eq_some_getLast hne, List.getLast?_range'] at hlast
    rw [if_neg (by rw [length_eq_zero_iff]; exact hne)] at hlast
    have hsequence : (producer.emitted.getLast hne).eventSequence =
        1 + producer.emitted.length - 1 := Option.some.inj hlast
    change (producer.emitted.getLast hne).eventSequence = state.count
    omega
  · have hpublished : producer.published = producer.emitted := by
      unfold published
      rw [hpublishing.idle (eq_false_of_ne_true hnotifying), append_nil]
    have hlifecycle := hpublishing.lifecycle
    rw [hpublished, hread] at hlifecycle
    cases hlifecycle
    rfl

end WinCommander.Pane
