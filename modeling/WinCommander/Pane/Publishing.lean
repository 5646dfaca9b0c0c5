/-
  What a producer publishes is a lifecycle.

  The events it has published, handed out or still pending, are compared with `Lifecycle`; the
  active request is the producer's (`Publishing`), in every state it can get into.
-/
import WinCommander.Library.Run
import WinCommander.Pane.Protocol
import WinCommander.Pane.Producer

namespace WinCommander.Pane

open Library List Option PaneActiveRequest PaneLifecycleEvent
open Lifecycle (advance ends_add_open)

variable {Error : Type}

/-! ## The producer -/

namespace Producer

/-- Every event that was published, the ones that wait included. -/
def published (producer : Producer Error) : List (PaneLifecycleEvent Error) :=
  producer.emitted ++ producer.pendingNotifications

/-- How many numbers of a counter are used up. -/
def used (next maximum : Nat) : Nat := if next = 0 then maximum else next - 1

def usedSequences (producer : Producer Error) : Nat :=
  used producer.nextEventSequence producer.counterLimits.maximumEventSequence

def usedRequestIds (producer : Producer Error) : Nat :=
  used producer.nextRequestId producer.counterLimits.maximumRequestId

end Producer

variable {next maximum count : Nat}

theorem ensureCounterCapacity_ok_iff :
    Producer.ensureCounterCapacity next maximum count message = .ok u ↔
      next ≠ 0 ∧ next ≤ maximum ∧ count ≤ maximum - next + 1 := by
  unfold Producer.ensureCounterCapacity
  rw [refuse_ok_iff, not_or, not_or, gt_iff_lt, gt_iff_lt, Nat.not_lt, Nat.not_lt]

theorem used_advanceCounter (hnext : next ≠ 0) (hle : next ≤ maximum)
    (hcount : count ≤ maximum - next + 1) :
    Producer.used (Producer.advanceCounter next maximum count) maximum =
      Producer.used next maximum + count := by
  unfold Producer.used Producer.advanceCounter
  rw [if_neg hnext]
  by_cases hlast : count = maximum - next + 1
  · rw [if_pos hlast, if_pos rfl]
    omega
  · rw [if_neg hlast, if_neg (by omega)]
    omega

theorem advanceCounter_le (hle : next ≤ maximum) (hcount : count ≤ maximum - next + 1) :
    Producer.advanceCounter next maximum count ≤ maximum := by
  unfold Producer.advanceCounter
  split_ifs
  · omega
  · omega

/-- What has been published is a lifecycle in the state the producer is in. -/
structure Publishing (producer : Producer Error) : Prop where
  lifecycle : Lifecycle.advanceAll producer.paneId {} producer.published =
    some { count := producer.usedSequences, active := producer.activeRequest, replacement := none }
  sequences : producer.nextEventSequence ≤ producer.counterLimits.maximumEventSequence
  requestIds : producer.nextRequestId ≤ producer.counterLimits.maximumRequestId
  /-- The number of the terminal event of the active request is not given away. -/
  reserved : producer.activeRequest.isSome = true → producer.nextEventSequence ≠ 0
  once : ∀ id, producer.published.countP (·.starts id) ≤ 1
  numbered : ∀ event ∈ producer.published, event.requestId.value ≤ producer.usedRequestIds
  activeNumbered : ∀ request, producer.activeRequest = some request →
    request.requestId.value ≤ producer.usedRequestIds ∧ request.requestId.value ≠ 0
  idle : producer.isNotifying = false → producer.pendingNotifications = []
  closed : producer.isShutdown = true → producer.activeRequest = none
  /-- The event that a running mutation will publish ends the active request. -/
  finishing : ∀ event, producer.finishing = some event →
    ∃ request, producer.activeRequest = some request ∧ ∃ terminal : FinishPayload Error,
      event = producer.prepareEvent request producer.nextEventSequence terminal.toEvent

theorem published_notifyNext (producer : Producer Error) :
    producer.notifyNext.published = producer.published := by
  unfold Producer.notifyNext Producer.published
  split
  · rfl
  · next event rest h =>
      rw [h, append_assoc, singleton_append]

theorem notifyNext_idle (producer : Producer Error) (h : producer.notifyNext.isNotifying = false) :
    producer.notifyNext.pendingNotifications = [] := by
  unfold Producer.notifyNext at h ⊢
  split at h
  · next hpending => exact hpending
  · cases h

/-- A step that publishes nothing. -/
structure Still (producer producer' : Producer Error) : Prop where
  paneId : producer'.paneId = producer.paneId
  counterLimits : producer'.counterLimits = producer.counterLimits
  nextRequestId : producer'.nextRequestId = producer.nextRequestId
  nextEventSequence : producer'.nextEventSequence = producer.nextEventSequence
  activeRequest : producer'.activeRequest = producer.activeRequest
  published : producer'.published = producer.published
  idle : (producer.isNotifying = false → producer.pendingNotifications = []) →
    producer'.isNotifying = false → producer'.pendingNotifications = []
  closed : producer'.isShutdown = true → producer.isShutdown = true ∨ producer.activeRequest = none
  finishing : ∀ event, producer'.finishing = some event → producer.finishing = some event ∨
    ∃ request, producer.activeRequest = some request ∧ ∃ terminal : FinishPayload Error,
      event = producer.prepareEvent request producer.nextEventSequence terminal.toEvent

theorem Still.refl (producer : Producer Error) : Still producer producer :=
  ⟨rfl, rfl, rfl, rfl, rfl, rfl, fun h => h, .inl, fun _ => .inl⟩

/-- The flags of a mutation have no part in what is published. -/
theorem still_flags (producer : Producer Error)
    (h : finishing = none ∨ finishing = producer.finishing) (violated requested : Bool) :
    Still producer { producer with
      finishing := finishing
      mutationViolated := violated
      destructionRequestedDuringMutation := requested } := by
  refine ⟨rfl, rfl, rfl, rfl, rfl, rfl, fun h => h, .inl, fun event hevent => .inl ?_⟩
  have hfinishing : finishing = some event := hevent
  obtain hnone | hsame := h
  · rw [hnone] at hfinishing
    cases hfinishing
  · exact hsame ▸ hfinishing

theorem still_notifyNext (producer : Producer Error) : Still producer producer.notifyNext := by
  refine ⟨?_, ?_, ?_, ?_, ?_, published_notifyNext producer, fun _ => notifyNext_idle producer, ?_, ?_⟩
  all_goals
    unfold Producer.notifyNext
    split
  any_goals rfl
  · exact .inl
  · exact .inl
  · exact fun _ => .inl
  · exact fun _ => .inl

theorem Still.publishing (hstill : Still producer producer') (h : Publishing producer) :
    Publishing producer' := by
  have hids : producer'.usedRequestIds = producer.usedRequestIds := by
    unfold Producer.usedRequestIds
    rw [hstill.nextRequestId, hstill.counterLimits]
  have hsequences : producer'.usedSequences = producer.usedSequences := by
    unfold Producer.usedSequences
    rw [hstill.nextEventSequence, hstill.counterLimits]
  refine ⟨?_, ?_, ?_, ?_, ?_, ?_, ?_, hstill.idle h.idle, ?_, ?_⟩
  · rw [hstill.paneId, hstill.published, hsequences, hstill.activeRequest]
    exact h.lifecycle
  · rw [hstill.nextEventSequence, hstill.counterLimits]
    exact h.sequences
  · rw [hstill.nextRequestId, hstill.counterLimits]
    exact h.requestIds
  · rw [hstill.activeRequest, hstill.nextEventSequence]
    exact h.reserved
  · rw [hstill.published]
    exact h.once
  · rw [hstill.published, hids]
    exact h.numbered
  · rw [hstill.activeRequest, hids]
    exact h.activeNumbered
  · intro hshutdown
    rw [hstill.activeRequest]
    exact (hstill.closed hshutdown).elim h.closed fun hnone => hnone
  · intro event hevent
    rw [hstill.activeRequest]
    have hprepare : producer'.prepareEvent = producer.prepareEvent := by
      unfold Producer.prepareEvent
      rw [hstill.paneId]
    rw [hprepare, hstill.nextEventSequence]
    exact (hstill.finishing event hevent).elim (h.finishing event) fun hprepared => hprepared

/-- A step that publishes a batch, and leaves a request active or none. -/
structure Publishes (producer producer' : Producer Error)
    (batch : List (PaneLifecycleEvent Error)) : Prop where
  paneId : producer'.paneId = producer.paneId
  counterLimits : producer'.counterLimits = producer.counterLimits
  published : producer'.published = producer.published ++ batch
  nextRequestId : producer'.nextRequestId = producer.nextRequestId ∨
    (producer.nextRequestId ≠ 0 ∧ producer.nextRequestId ≤ producer.counterLimits.maximumRequestId ∧
      producer'.nextRequestId =
        Producer.advanceCounter producer.nextRequestId producer.counterLimits.maximumRequestId 1)
  nonzero : producer.nextEventSequence ≠ 0
  capacity : batch.length + (if producer'.activeRequest.isSome then 1 else 0) ≤
    producer.counterLimits.maximumEventSequence - producer.nextEventSequence + 1
  nextEventSequence : producer'.nextEventSequence =
    Producer.advanceCounter producer.nextEventSequence producer.counterLimits.maximumEventSequence
      batch.length
  follows : Lifecycle.advanceAll producer.paneId
      { count := producer.usedSequences, active := producer.activeRequest, replacement := none }
      batch =
    some { count := producer.usedSequences + batch.length, active := producer'.activeRequest,
           replacement := none }
  /-- Started requests are new, the others known. -/
  numbered : ∀ event ∈ batch, event.requestId.value ≤ producer'.usedRequestIds
  fresh : ∀ id, batch.countP (·.starts id) ≤ if producer.usedRequestIds < id.value then 1 else 0
  activeNumbered : ∀ request, producer'.activeRequest = some request →
    request.requestId.value ≤ producer'.usedRequestIds ∧ request.requestId.value ≠ 0
  idle : producer'.isNotifying = false → producer'.pendingNotifications = []
  closed : producer'.isShutdown = true → producer'.activeRequest = none
  finishing : producer'.finishing = none

theorem Publishes.publishing (hstep : Publishes producer producer' batch) (h : Publishing producer)
    : Publishing producer' := by
  have hcount : batch.length ≤
      producer.counterLimits.maximumEventSequence - producer.nextEventSequence + 1 :=
    Nat.le_trans (Nat.le_add_right _ _) hstep.capacity
  have hused : producer'.usedSequences = producer.usedSequences + batch.length := by
    unfold Producer.usedSequences
    rw [hstep.nextEventSequence, hstep.counterLimits]
    exact used_advanceCounter hstep.nonzero h.sequences hcount
  have hids : producer.usedRequestIds ≤ producer'.usedRequestIds := by
    unfold Producer.usedRequestIds
    rw [hstep.counterLimits]
    obtain hsame | ⟨hzero, hle, hadvanced⟩ := hstep.nextRequestId
    · exact Nat.le_of_eq (by rw [hsame])
    · rw [hadvanced, used_advanceCounter hzero hle (by omega)]
      omega
  refine ⟨?_, ?_, ?_, ?_, ?_, ?_, hstep.activeNumbered, hstep.idle, hstep.closed, ?_⟩
  · rw [hstep.paneId, hstep.published, Lifecycle.advanceAll_append, h.lifecycle, hused]
    exact hstep.follows
  · rw [hstep.nextEventSequence, hstep.counterLimits]
    exact advanceCounter_le h.sequences hcount
  · rw [hstep.counterLimits]
    obtain hsame | ⟨hzero, hle, hadvanced⟩ := hstep.nextRequestId
    · rw [hsame]
      exact h.requestIds
    · rw [hadvanced]
      exact advanceCounter_le hle (by omega)
  · intro hactive
    have hcapacity := hstep.capacity
    rw [if_pos hactive] at hcapacity
    rw [hstep.nextEventSequence]
    unfold Producer.advanceCounter
    have hnonzero := hstep.nonzero
    rw [if_neg (by omega)]
    omega
  · intro id
    rw [hstep.published, countP_append]
    have hfresh := hstep.fresh id
    by_cases hnew : producer.usedRequestIds < id.value
    · have hold : producer.published.countP (·.starts id) = 0 := by
        rw [countP_eq_zero]
        intro event hevent hstarts
        have hle := h.numbered event hevent
        have hid : event.requestId = id := by
          unfold starts at hstarts
          rw [Bool.and_eq_true] at hstarts
          exact eq_of_beq hstarts.1
        rw [hid] at hle
        omega
      rw [if_pos hnew] at hfresh
      omega
    · rw [if_neg hnew] at hfresh
      have hold := h.once id
      omega
  · intro event hevent
    rw [hstep.published] at hevent
    obtain hold | hnew := mem_append.mp hevent
    · exact Nat.le_trans (h.numbered event hold) hids
    · exact hstep.numbered event hnew
  · intro event hevent
    rw [hstep.finishing] at hevent
    cases hevent

/-! ## Publishing a batch -/

section

variable {producer : Producer Error}

/-- Draining hands events out; nothing else changes. -/
theorem drain_same (producer : Producer Error) :
    producer.drainNotifications.paneId = producer.paneId ∧
    producer.drainNotifications.counterLimits = producer.counterLimits ∧
    producer.drainNotifications.nextRequestId = producer.nextRequestId ∧
    producer.drainNotifications.nextEventSequence = producer.nextEventSequence ∧
    producer.drainNotifications.activeRequest = producer.activeRequest ∧
    producer.drainNotifications.isShutdown = producer.isShutdown ∧
    producer.drainNotifications.finishing = producer.finishing ∧
    producer.drainNotifications.published = producer.published := by
  unfold Producer.drainNotifications
  split
  · exact ⟨rfl, rfl, rfl, rfl, rfl, rfl, rfl, rfl⟩
  · refine ⟨?_, ?_, ?_, ?_, ?_, ?_, ?_, published_notifyNext producer⟩ <;>
      unfold Producer.notifyNext <;> split <;> rfl

theorem drain_idle (producer : Producer Error)
    (h : producer.drainNotifications.isNotifying = false) :
    producer.drainNotifications.pendingNotifications = [] := by
  unfold Producer.drainNotifications at h ⊢
  split at h
  · next hnotifying =>
      rw [h] at hnotifying
      cases hnotifying
  · next hnotifying =>
      rw [if_neg hnotifying]
      exact notifyNext_idle producer h

/-- What an operation has to have prepared before it commits a batch. -/
theorem publishes_commit {quiet : Producer Error} (hpane : quiet.paneId = producer.paneId)
    (hlimits : quiet.counterLimits = producer.counterLimits)
    (hqueue : quiet.published = producer.published)
    (hids : quiet.nextRequestId = producer.nextRequestId ∨ (producer.nextRequestId ≠ 0 ∧ producer.nextRequestId ≤ producer.counterLimits.maximumRequestId ∧ quiet.nextRequestId = Producer.advanceCounter producer.nextRequestId producer.counterLimits.maximumRequestId 1))
    (hnonzero : producer.nextEventSequence ≠ 0)
    (hcapacity : batch.length + (if quiet.activeRequest.isSome then 1 else 0) ≤ producer.counterLimits.maximumEventSequence - producer.nextEventSequence + 1)
    (hsequence : quiet.nextEventSequence = Producer.advanceCounter producer.nextEventSequence producer.counterLimits.maximumEventSequence batch.length)
    (hfollows : Lifecycle.advanceAll producer.paneId { count := producer.usedSequences, active := producer.activeRequest, replacement := none } batch = some { count := producer.usedSequences + batch.length, active := quiet.activeRequest, replacement := none })
    (hnumbered : ∀ event ∈ batch, event.requestId.value ≤ quiet.usedRequestIds)
    (hfresh : ∀ id, batch.countP (·.starts id) ≤ if producer.usedRequestIds < id.value then 1 else 0)
    (hactive : ∀ request, quiet.activeRequest = some request → request.requestId.value ≤ quiet.usedRequestIds ∧ request.requestId.value ≠ 0)
    (hclosed : quiet.isShutdown → quiet.activeRequest = none)
    (hfinishing : quiet.finishing = none) :
    Publishes producer (quiet.commitBatch batch).drainNotifications batch := by
  obtain ⟨h1, h2, h3, h4, h5, h6, h7, h8⟩ := drain_same (quiet.commitBatch batch)
  have hused : (quiet.commitBatch batch).drainNotifications.usedRequestIds = quiet.usedRequestIds := by
    unfold Producer.usedRequestIds
    rw [h2, h3]
    rfl
  have hpublished : (quiet.commitBatch batch).published = producer.published ++ batch := by
    rw [← hqueue]
    exact (append_assoc _ _ _).symm
  refine ⟨h1.trans hpane, h2.trans hlimits, h8.trans hpublished, ?_, hnonzero, ?_,
    h4.trans hsequence, ?_, ?_, hfresh, ?_, drain_idle _, ?_, h7.trans hfinishing⟩
  · rw [h3]
    exact hids
  · rw [h5]
    exact hcapacity
  · rw [h5]
    exact hfollows
  · rw [hused]
    exact hnumbered
  · rw [h5, hused]
    exact hactive
  · rw [h5, h6]
    exact hclosed

theorem usedSequences_add_one (h : producer.nextEventSequence ≠ 0) :
    producer.usedSequences + 1 = producer.nextEventSequence := by
  unfold Producer.usedSequences Producer.used
  rw [if_neg h]
  omega

theorem usedRequestIds_add_one (h : producer.nextRequestId ≠ 0) :
    producer.usedRequestIds + 1 = producer.nextRequestId := by
  unfold Producer.usedRequestIds Producer.used
  rw [if_neg h]
  omega

theorem usedRequestIds_advance (h : producer.nextRequestId ≠ 0)
    (hle : producer.nextRequestId ≤ producer.counterLimits.maximumRequestId) :
    Producer.used (Producer.advanceCounter producer.nextRequestId
      producer.counterLimits.maximumRequestId 1) producer.counterLimits.maximumRequestId =
      producer.nextRequestId := by
  rw [used_advanceCounter h hle (by omega)]
  exact usedRequestIds_add_one h

theorem ensureEventSequenceCapacity_ok_iff :
    producer.ensureEventSequenceCapacity count = .ok u ↔ producer.nextEventSequence ≠ 0 ∧
      producer.nextEventSequence ≤ producer.counterLimits.maximumEventSequence ∧
      count ≤ producer.counterLimits.maximumEventSequence - producer.nextEventSequence + 1 :=
  ensureCounterCapacity_ok_iff

theorem ensureRequestIdCapacity_ok_iff :
    producer.ensureRequestIdCapacity count = .ok u ↔ producer.nextRequestId ≠ 0 ∧
      producer.nextRequestId ≤ producer.counterLimits.maximumRequestId ∧
      count ≤ producer.counterLimits.maximumRequestId - producer.nextRequestId + 1 :=
  ensureCounterCapacity_ok_iff

end

/-! ## The operations publish lifecycles -/

variable {producer : Producer Error}

theorem ensureRunning_ok_iff : producer.ensureRunning = .ok u ↔ producer.isShutdown = false := by
  unfold Producer.ensureRunning
  rw [refuse_ok_iff, Bool.not_eq_true]

section

variable {pane : PaneId} {state : Lifecycle} {request : PaneActiveRequest} {sequence : Nat}

/-- An event about a request. -/
def PaneActiveRequest.event (request : PaneActiveRequest) (pane : PaneId) (sequence : Nat)
    (payload : EventPayload Error) : PaneLifecycleEvent Error :=
  { paneId := pane, requestId := request.requestId, eventSequence := sequence,
    descriptor := request.descriptor, payload }

section
variable (hsequence : sequence = state.count + 1)
include hsequence

theorem advance_started (hrequest : request.requestId.value ≠ 0) (hactive : state.active = none)
    (hreplacement : state.replacement = none ∨ state.replacement = some request.requestId) :
    state.advance pane (request.event pane sequence (.started : EventPayload Error)) =
      some { count := state.count + 1, active := some request, replacement := none } := by
  unfold advance event
  rw [if_neg (by simp [hsequence, hrequest])]
  exact if_pos ⟨hactive, hreplacement⟩

theorem advance_finished (hrequest : request.requestId.value ≠ 0)
    (hactive : state.active = some request) (hreplacement : state.replacement = none)
    (terminal : FinishPayload Error) :
    state.advance pane (request.event pane sequence terminal.toEvent) =
      some { count := state.count + 1, active := none, replacement := none } := by
  unfold advance event
  rw [if_neg (by simp [hsequence, hrequest])]
  cases terminal <;> exact if_pos ⟨hactive, hreplacement⟩

theorem advance_superseded (hrequest : request.requestId.value ≠ 0)
    (hactive : state.active = some request) (hreplacement : state.replacement = none)
    (hzero : replacement.value ≠ 0) (hother : replacement ≠ request.requestId) : state.advance pane
        (request.event pane sequence (.superseded replacement : EventPayload Error)) =
      some { count := state.count + 1, active := none, replacement := some replacement } := by
  unfold advance event
  rw [if_neg (by simp [hsequence, hrequest])]
  exact if_pos ⟨hactive, hreplacement, hzero, hother⟩

theorem advance_rejected (hrequest : request.requestId.value ≠ 0)
    (hreplacement : state.replacement = none) (rejection : PaneLifecycleRejected Error) :
    state.advance pane (request.event pane sequence (.rejected rejection)) =
      some { state with count := state.count + 1 } := by
  unfold advance event
  rw [if_neg (by simp [hsequence, hrequest])]
  exact if_pos hreplacement

end

end

variable {event : PaneLifecycleEvent Error}

/-- A single event starts a request only if that request is new. -/
theorem countP_starts_le (h : event.payload.isStarted → bound < event.requestId.value)
    (id : PaneRequestId) : [event].countP (·.starts id) ≤ if bound < id.value then 1 else 0 := by
  rw [countP_singleton]
  by_cases hstarts : event.starts id
  · have hboth := hstarts
    unfold starts at hboth
    rw [Bool.and_eq_true] at hboth
    have hnew := h hboth.2
    rw [eq_of_beq hboth.1] at hnew
    exact Nat.le_of_eq (by rw [if_pos hnew, if_pos hstarts])
  · rw [if_neg hstarts]
    exact Nat.zero_le _

/-- An operation either publishes a batch or, having thrown, nothing. -/
def Moves (producer producer' : Producer Error) : Prop :=
  Still producer producer' ∨ ∃ batch, Publishes producer producer' batch

theorem Moves.publishing (hmoves : Moves producer producer') (h : Publishing producer) :
    Publishing producer' :=
  hmoves.elim (fun hstill => hstill.publishing h) fun ⟨_, hpublishes⟩ => hpublishes.publishing h

theorem moves_guarded (h : producer.finishing = none → Moves producer operation.1) :
    Moves producer (producer.guarded message operation).1 := by
  unfold Producer.guarded
  split_ifs with hfinishing
  · exact .inl (still_flags producer (.inr rfl) true _)
  · exact h (not_isSome_iff_eq_none.mp hfinishing)

theorem moves_checked {operation : β → Producer Error × Except ProducerException α}
    (h : ∀ found, checks = .ok found → Moves producer (operation found).1) :
    Moves producer (producer.checked checks operation).1 := by
  cases hchecks : checks with
  | error exception => exact .inl (Still.refl producer)
  | ok found => exact h found hchecks

theorem start_moves (producer : Producer Error) (descriptor : PaneRequestDescriptor) :
    Moves producer (producer.start descriptor).1 := by
  refine moves_guarded fun hfinishing => moves_checked fun found hchecks => ?_
  simp only [seq_ok_iff, refuse_ok_iff, ensureRunning_ok_iff, ensureRequestIdCapacity_ok_iff,
    ensureEventSequenceCapacity_ok_iff, not_isSome_iff_eq_none, and_assoc] at hchecks
  obtain ⟨hrunning, hnone, hid, hidLe, -, hnonzero, hle, hcapacity⟩ := hchecks
  have hused : (producer.advanceRequestId 1).usedRequestIds = producer.nextRequestId :=
    usedRequestIds_advance hid hidLe
  have hold := usedRequestIds_add_one hid
  refine .inr ⟨_, publishes_commit rfl rfl rfl (.inr ⟨hid, hidLe, rfl⟩) hnonzero hcapacity rfl
    ?_ ?_ ?_ ?_ ?_ hfinishing⟩
  · rw [hnone]
    exact bind_eq_some_iff.mpr
      ⟨_, advance_started (usedSequences_add_one hnonzero).symm hid rfl (.inl rfl), rfl⟩
  · intro event hevent
    rw [mem_singleton.mp hevent]
    exact Nat.le_of_eq hused.symm
  · exact countP_starts_le fun _ => Nat.lt_of_succ_le (Nat.le_of_eq hold)
  · intro request hrequest
    cases hrequest
    exact ⟨Nat.le_of_eq hused.symm, hid⟩
  · intro hshutdown
    exact absurd hshutdown (ne_true_of_eq_false hrunning)

section
variable (h : Publishing producer)
include h

theorem reject_moves (descriptor : PaneRequestDescriptor) (rejection : PaneLifecycleRejected Error) :
    Moves producer (producer.reject descriptor rejection).1 := by
  refine moves_guarded fun hfinishing => moves_checked fun found hchecks => ?_
  simp only [seq_ok_iff, ensureRunning_ok_iff, ensureRequestIdCapacity_ok_iff,
    ensureEventSequenceCapacity_ok_iff, and_assoc] at hchecks
  obtain ⟨hrunning, hid, hidLe, -, hnonzero, hle, hcapacity⟩ := hchecks
  have hused : (producer.advanceRequestId 1).usedRequestIds = producer.nextRequestId :=
    usedRequestIds_advance hid hidLe
  have hold := usedRequestIds_add_one hid
  refine .inr ⟨_, publishes_commit rfl rfl rfl (.inr ⟨hid, hidLe, rfl⟩) hnonzero ?_ rfl
    ?_ ?_ ?_ ?_ ?_ hfinishing⟩
  · change 1 + (if producer.activeRequest.isSome = true then 1 else 0) ≤ _
    split_ifs at hcapacity ⊢
    · exact hcapacity
    · exact hcapacity
  · exact bind_eq_some_iff.mpr
      ⟨_, advance_rejected (usedSequences_add_one hnonzero).symm hid rfl rejection, rfl⟩
  · intro event hevent
    rw [mem_singleton.mp hevent]
    exact Nat.le_of_eq hused.symm
  · exact countP_starts_le fun hstarts => absurd hstarts Bool.false_ne_true
  · intro request hrequest
    obtain ⟨hknown, hzero⟩ := h.activeNumbered request hrequest
    refine ⟨Nat.le_trans hknown ?_, hzero⟩
    change _ ≤ (producer.advanceRequestId 1).usedRequestIds
    omega
  · exact h.closed

theorem supersedeAndStart_moves (descriptor : PaneRequestDescriptor) :
    Moves producer (producer.supersedeAndStart descriptor).1 := by
  refine moves_guarded fun hfinishing => moves_checked fun previous hchecks => ?_
  simp only [bind_ok_iff, demand_ok_iff, ensureRunning_ok_iff,
    ensureRequestIdCapacity_ok_iff, ensureEventSequenceCapacity_ok_iff, pure_ok, Except.ok.injEq,
    and_assoc, existsAndEq, and_true, exists_const] at hchecks
  obtain ⟨hrunning, hactive, hid, hidLe, -, hnonzero, hle, hcapacity⟩ := hchecks
  have hused : (producer.advanceRequestId 1).usedRequestIds = producer.nextRequestId :=
    usedRequestIds_advance hid hidLe
  have hold := usedRequestIds_add_one hid
  obtain ⟨hknown, hzero⟩ := h.activeNumbered previous hactive
  have hother : (⟨producer.nextRequestId⟩ : PaneRequestId) ≠ previous.requestId := by
    intro hsame
    have hvalue : producer.nextRequestId = previous.requestId.value :=
      congrArg PaneRequestId.value hsame
    omega
  refine .inr ⟨_, publishes_commit rfl rfl rfl (.inr ⟨hid, hidLe, rfl⟩) hnonzero hcapacity rfl
    ?_ ?_ ?_ ?_ ?_ hfinishing⟩
  · rw [hactive]
    refine bind_eq_some_iff.mpr
      ⟨_, advance_superseded (usedSequences_add_one hnonzero).symm hzero rfl rfl hid hother, ?_⟩
    refine bind_eq_some_iff.mpr ⟨_, advance_started ?_ hid rfl (.inr rfl), rfl⟩
    rw [usedSequences_add_one hnonzero]
  · intro event hevent
    change _ ≤ (producer.advanceRequestId 1).usedRequestIds
    obtain rfl | hstarted := mem_cons.mp hevent
    · exact Nat.le_trans hknown (by omega)
    · rw [mem_singleton.mp hstarted]
      exact Nat.le_of_eq hused.symm
  · intro id
    rw [countP_cons_of_neg (by exact fun hstarts => absurd (Bool.and_eq_true_iff.mp hstarts).2 Bool.false_ne_true)]
    exact countP_starts_le (fun _ => Nat.lt_of_succ_le (Nat.le_of_eq hold)) id
  · intro request hrequest
    cases hrequest
    exact ⟨Nat.le_of_eq hused.symm, hid⟩
  · intro hshutdown
    exact absurd hshutdown (ne_true_of_eq_false hrunning)

/-- The terminal event of the active request. -/
theorem publishTerminal_moves (hfinishing : producer.finishing = none) {request : PaneActiveRequest}
    (hactive : producer.activeRequest = some request) (terminal : FinishPayload Error) :
    Publishes producer (producer.publishTerminal
        (producer.prepareEvent request producer.nextEventSequence terminal.toEvent))
      [producer.prepareEvent request producer.nextEventSequence terminal.toEvent] := by
  have hnonzero := h.reserved (by rw [hactive]; rfl)
  obtain ⟨hknown, hzero⟩ := h.activeNumbered request hactive
  refine publishes_commit rfl rfl rfl (.inl rfl) hnonzero ?_ rfl ?_ ?_ ?_ ?_ ?_ hfinishing
  · change 1 + 0 ≤ _
    omega
  · rw [hactive]
    exact bind_eq_some_iff.mpr
      ⟨_, advance_finished (usedSequences_add_one hnonzero).symm hzero rfl rfl terminal, rfl⟩
  · intro event hevent
    rw [mem_singleton.mp hevent]
    exact hknown
  · refine countP_starts_le fun hstarts => absurd hstarts ?_
    cases terminal <;> exact Bool.false_ne_true
  · intro other hother
    cases hother
  · exact fun _ => rfl

theorem finish_moves (requestId : PaneRequestId) (terminal : FinishPayload Error) (mutates : Bool) :
    Moves producer (producer.finish requestId terminal mutates).1 := by
  refine moves_guarded fun hfinishing => ?_
  by_cases hshutdown : producer.isShutdown
  · rw [if_pos hshutdown]
    exact .inl (Still.refl producer)
  rw [if_neg hshutdown]
  split
  · exact .inl (Still.refl producer)
  · next completed hactive =>
      by_cases hstale : completed.requestId ≠ requestId
      · rw [if_pos hstale]
        exact .inl (Still.refl producer)
      rw [if_neg hstale]
      refine moves_checked fun found hchecks => ?_
      split_ifs
      · refine .inl ⟨rfl, rfl, rfl, rfl, rfl, rfl, fun h => h, .inl, fun event hevent => ?_⟩
        cases hevent
        exact .inr ⟨completed, hactive, terminal, rfl⟩
      · exact .inr ⟨_, publishTerminal_moves h hfinishing hactive terminal⟩

theorem shutdownNow_moves (hfinishing : producer.finishing = none) :
    Moves producer producer.shutdownNow.1 ∧ producer.shutdownNow.2 = .ok () := by
  unfold Producer.shutdownNow
  by_cases hshutdown : producer.isShutdown
  · rw [if_pos hshutdown]
    exact ⟨.inl (Still.refl producer), rfl⟩
  rw [if_neg hshutdown]
  split
  · next hactive =>
      exact ⟨.inl ⟨rfl, rfl, rfl, rfl, rfl, rfl, fun h => h, fun _ => .inr hactive, fun _ => .inl⟩,
        rfl⟩
  · next cancelled hactive =>
      have hnonzero := h.reserved (by rw [hactive]; rfl)
      have hle := h.sequences
      have hchecks : producer.ensureEventSequenceCapacity 1 = .ok () :=
        ensureEventSequenceCapacity_ok_iff.mpr ⟨hnonzero, hle, by omega⟩
      obtain ⟨hknown, hzero⟩ := h.activeNumbered cancelled hactive
      rw [hchecks]
      refine ⟨.inr ⟨_, publishes_commit rfl rfl rfl (.inl rfl) hnonzero ?_ rfl ?_ ?_ ?_ ?_ ?_
        hfinishing⟩, rfl⟩
      · change 1 + 0 ≤ _
        omega
      · rw [hactive]
        exact bind_eq_some_iff.mpr
          ⟨_, advance_finished (usedSequences_add_one hnonzero).symm hzero rfl rfl
            (.cancelled .producerShutdown), rfl⟩
      · intro event hevent
        rw [mem_singleton.mp hevent]
        exact hknown
      · exact countP_starts_le fun hstarts => absurd hstarts Bool.false_ne_true
      · intro other hother
        cases hother
      · exact fun _ => rfl

/-- Where no mutation is executed, destruction shuts down, and has nothing to discard. -/
theorem shutdownOrDiscard_moves (hfinishing : producer.finishing = none) :
    Moves producer producer.shutdownOrDiscard := by
  obtain ⟨hmoves, hok⟩ := shutdownNow_moves h hfinishing
  unfold Producer.shutdownOrDiscard
  split
  · next producer' hresult =>
      rw [hresult] at hmoves
      exact hmoves
  · next producer' exception hresult =>
      rw [hresult] at hok
      cases hok

/-- The end of a mutation that threw or was violated. -/
theorem abandonFinish_publishing : Publishing producer.abandonFinish := by
  unfold Producer.abandonFinish
  dsimp only
  split
  · have hready := (still_flags producer (.inl rfl) false false).publishing h
    exact (shutdownOrDiscard_moves hready rfl).publishing hready
  · exact (still_flags producer (.inl rfl) false _).publishing h

theorem mutationReturned_publishing (hevent : producer.finishing = some event) :
    Publishing (producer.mutationReturned event).1 := by
  unfold Producer.mutationReturned
  split
  · exact abandonFinish_publishing h
  · obtain ⟨request, hactive, terminal, rfl⟩ := h.finishing event hevent
    have hquiet := (still_flags producer (.inl rfl) producer.mutationViolated
      producer.destructionRequestedDuringMutation).publishing h
    exact (publishTerminal_moves hquiet rfl hactive terminal).publishing hquiet

theorem paneStep_publishing (call : PaneCall Error) : Publishing (paneStep producer call).1 := by
  cases call with
  | start descriptor => exact (start_moves producer descriptor).publishing h
  | reject descriptor rejection => exact (reject_moves h descriptor rejection).publishing h
  | supersedeAndStart descriptor => exact (supersedeAndStart_moves h descriptor).publishing h
  | finish requestId terminal mutates =>
    exact (finish_moves h requestId terminal mutates).publishing h
  | mutationReturned =>
    unfold paneStep
    dsimp only
    split
    · next event hevent => exact mutationReturned_publishing h hevent
    · exact h
  | mutationThrew =>
    unfold paneStep
    dsimp only
    split
    · exact abandonFinish_publishing h
    · exact h
  | shutdown =>
    have hmoves : Moves producer producer.shutdown.1 :=
      moves_guarded fun hfinishing => (shutdownNow_moves h hfinishing).1
    exact hmoves.publishing h
  | subscribe => exact h
  | destroy =>
    change Publishing producer.shutdownForDestruction
    unfold Producer.shutdownForDestruction
    split
    · exact (still_flags producer (.inr rfl) true true).publishing h
    · next hfinishing =>
        exact (shutdownOrDiscard_moves h (not_isSome_iff_eq_none.mp hfinishing)).publishing h
  | observersReturned =>
    unfold paneStep
    dsimp only
    split
    · exact (still_notifyNext producer).publishing h
    · exact h

end

theorem create_publishing (pane : PaneId) (limits : CounterLimits) :
    Publishing (Producer.create pane limits : Producer Error) where
  lifecycle := rfl
  sequences := limits.eventSequence_pos
  requestIds := limits.requestId_pos
  reserved h := by cases h
  once _ := Nat.zero_le 1
  numbered _ h := absurd h not_mem_nil
  activeNumbered _ h := by cases h
  idle _ := rfl
  closed h := by cases h
  finishing _ h := by cases h

theorem run_publishing (pane : PaneId) (limits : CounterLimits) (calls : List (PaneCall Error)) :
    Publishing (runAll paneStep (.create pane limits) calls).1 :=
  runAll_invariant Publishing (fun _ call h => paneStep_publishing h call) calls
    (create_publishing pane limits)

/-! ## Requests and their numbers -/

/-- The operations that accept a request. -/
def PaneCall.isAccepting : PaneCall Error → Bool
  | .start _ | .supersedeAndStart _ => true
  | _ => false

/-- The operations that publish the end of a request. -/
def PaneCall.isEnding : PaneCall Error → Bool
  | .finish _ _ _ | .mutationReturned | .shutdown => true
  | _ => false

theorem published_drain (producer : Producer Error) :
    producer.drainNotifications.published = producer.published :=
  (drain_same producer).2.2.2.2.2.2.2

/-- An accepted request has been started. -/
theorem accepted_starts (hcall : call.isAccepting) {id : PaneRequestId}
    (h : (paneStep producer call).2 = .ok (.requestId id)) :
    0 < (paneStep producer call).1.published.countP (·.starts id) := by
  have hends {first batch : List (PaneLifecycleEvent Error)} {event : PaneLifecycleEvent Error}
      (hevent : event ∈ batch) (hid : event.requestId = id) (hstarted : event.payload = .started) :
      0 < (first ++ batch).countP (·.starts id) := by
    refine countP_pos_iff.mpr ⟨event, mem_append_right _ hevent, ?_⟩
    unfold starts
    rw [hid, hstarted, beq_self_eq_true]
    rfl
  cases call with
  | start descriptor =>
    change Except.map _ (producer.start descriptor).2 = _ at h
    change 0 < (producer.start descriptor).1.published.countP _
    revert h
    unfold Producer.start Producer.guarded Producer.checked
    split
    · exact fun h => (nomatch h)
    split
    · exact fun h => (nomatch h)
    · intro h
      cases h
      rw [published_drain]
      change 0 < (producer.emitted ++ (producer.pendingNotifications ++ [_])).countP _
      rw [← append_assoc]
      exact hends mem_cons_self rfl rfl
  | supersedeAndStart descriptor =>
    change Except.map _ (producer.supersedeAndStart descriptor).2 = _ at h
    change 0 < (producer.supersedeAndStart descriptor).1.published.countP _
    revert h
    unfold Producer.supersedeAndStart Producer.guarded Producer.checked
    split
    · exact fun h => (nomatch h)
    split
    · exact fun h => (nomatch h)
    · intro h
      cases h
      rw [published_drain]
      change 0 < (producer.emitted ++ (producer.pendingNotifications ++ [_, _])).countP _
      rw [← append_assoc]
      exact hends (mem_cons_of_mem _ mem_cons_self) rfl rfl
  | reject | finish | mutationReturned | mutationThrew | shutdown | subscribe | destroy
  | observersReturned => cases hcall

/-- The number that was reserved for the end of the active request is still there. -/
theorem Publishing.reservedCapacity (h : Publishing producer)
    (hactive : producer.activeRequest.isSome) : producer.ensureEventSequenceCapacity 1 = .ok () :=
  ensureEventSequenceCapacity_ok_iff.mpr ⟨h.reserved hactive, h.sequences, by omega⟩

/-- An operation that ends a request does not lack a number for it. -/
theorem Publishing.ending_ne_overflow (h : Publishing producer) (hcall : call.isEnding)
    (message : String) : (paneStep producer call).2 ≠ .error (.overflowError message) := by
  cases call with
  | finish requestId terminal mutates =>
    change Except.map finishAnswer (producer.finish requestId terminal mutates).2 ≠ _
    unfold Producer.finish Producer.guarded Producer.checked
    split
    · exact fun h => (nomatch h)
    split
    · exact fun h => (nomatch h)
    split
    · exact fun h => (nomatch h)
    next completed hactive =>
    split
    · exact fun h => (nomatch h)
    rw [h.reservedCapacity (by rw [hactive]; rfl)]
    dsimp only
    split
    · exact fun h => (nomatch h)
    · exact fun h => (nomatch h)
  | mutationReturned =>
    unfold paneStep
    dsimp only
    split
    · unfold Producer.mutationReturned
      split
      · exact fun h => (nomatch h)
      · exact fun h => (nomatch h)
    · exact fun h => (nomatch h)
  | shutdown =>
    change Except.map _ producer.shutdown.2 ≠ _
    unfold Producer.shutdown Producer.guarded
    split
    · exact fun h => (nomatch h)
    · next hfinishing =>
        rw [(shutdownNow_moves h (not_isSome_iff_eq_none.mp hfinishing)).2]
        exact fun h => (nomatch h)
  | start | reject | supersedeAndStart | mutationThrew | subscribe | destroy
  | observersReturned => cases hcall

/-- How the events of a producer account for its requests. -/
structure Accounted (producer : Producer Error) : Prop where
  numbered : producer.published.map (·.eventSequence) = List.range' 1 producer.published.length
  drained : producer.isNotifying = false → producer.emitted = producer.published
  once : ∀ id, producer.published.countP (·.starts id) ≤ 1
  ends : ∀ id, producer.published.countP (·.ends id) +
      (if producer.activeRequest.map (·.requestId) = some id then 1 else 0) =
    producer.published.countP (·.starts id)
  /-- No request ends before it has started. -/
  ordered : ∀ events, events <+: producer.published → ∀ id,
    events.countP (·.ends id) ≤ events.countP (·.starts id)
  accepted : ∀ call : PaneCall Error, call.isAccepting = true → ∀ id,
    (paneStep producer call).2 = .ok (.requestId id) →
      (paneStep producer call).1.published.countP (·.starts id) = 1
  reserved : producer.activeRequest.isSome = true → producer.ensureEventSequenceCapacity 1 = .ok ()
  ending : ∀ call : PaneCall Error, call.isEnding = true → ∀ message,
    (paneStep producer call).2 ≠ .error (.overflowError message)
  closed : producer.isShutdown = true → producer.activeRequest = none

theorem Publishing.accounted (h : Publishing producer) : Accounted producer where
  numbered := (Lifecycle.sequences h.lifecycle).1
  drained hnotifying := by
    unfold Producer.published
    rw [h.idle hnotifying, append_nil]
  once := h.once
  ends id := ends_add_open h.lifecycle id
  ordered events hprefix id := by
    obtain ⟨rest, hrest⟩ := hprefix
    have hlifecycle := h.lifecycle
    rw [← hrest] at hlifecycle
    obtain ⟨middle, hmiddle, -⟩ := Lifecycle.advanceAll_prefix hlifecycle
    have hopen := ends_add_open hmiddle id
    omega
  accepted call hcall id hid :=
    Nat.le_antisymm ((paneStep_publishing h call).once id) (accepted_starts hcall hid)
  reserved := h.reservedCapacity
  ending _ hcall message := h.ending_ne_overflow hcall message
  closed := h.closed

/-- The numbers of the events stay within the limit. -/
theorem Publishing.eventSequence_lt (h : Publishing producer) (hevent : event ∈ producer.published) :
    event.eventSequence < 2 ^ 64 := by
  obtain ⟨hnumbers, hcount⟩ := Lifecycle.sequences h.lifecycle
  have hmem : event.eventSequence ∈ List.range' 1 producer.published.length := by
    rw [← hnumbers]
    exact mem_map.mpr ⟨event, hevent, rfl⟩
  have hbound := List.mem_range'_1.mp hmem
  have hcount : producer.usedSequences = producer.published.length := hcount
  have hsequences := h.sequences
  have hlimit := producer.counterLimits.eventSequence_lt
  have hused : producer.usedSequences ≤ producer.counterLimits.maximumEventSequence := by
    unfold Producer.usedSequences Producer.used
    split
    · exact Nat.le_refl _
    · omega
  omega

end WinCommander.Pane
