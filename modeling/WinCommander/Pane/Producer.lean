/-
  `PaneLifecycleProducer`: the sequencer of one pane's loading lifecycle.

  Everything runs on the main queue. A step is a call of an operation up to the point where
  it hands an event to the observers or returns, the return of the observers, or the end of a
  `Finish` mutation; what observers and mutations call in between are steps of their own.
  Observers do not throw, and memory does not run out.
-/
import WinCommander.Library.Check
import WinCommander.Pane.PaneState

namespace WinCommander.Pane

open Library

variable {Error : Type}

/-- `PaneLifecycleCounterLimits`; the constructor refuses a zero. -/
structure CounterLimits where
  maximumRequestId : Nat
  maximumEventSequence : Nat
  requestId_pos : 0 < maximumRequestId
  requestId_lt : maximumRequestId < 2 ^ 64
  eventSequence_pos : 0 < maximumEventSequence
  eventSequence_lt : maximumEventSequence < 2 ^ 64

inductive ProducerException where
  | logicError (message : String)
  | overflowError (message : String)
deriving DecidableEq

inductive FinishResult where
  | published | noActiveRequest | staleRequest | producerShutdown
deriving DecidableEq

structure Subscription (Error : Type) where
  seedRequest : Option PaneActiveRequest := none
  retainedFailure : Option (PaneLifecycleEvent Error) := none
  checkpointSequence : Nat := 0

structure Producer (Error : Type) where
  paneId : PaneId
  counterLimits : CounterLimits
  nextRequestId : Nat := 1
  nextEventSequence : Nat := 1
  activeRequest : Option PaneActiveRequest := none
  retainedFailure : Option (PaneLifecycleEvent Error) := none
  pendingNotifications : List (PaneLifecycleEvent Error) := []
  activeNotification : Option (PaneLifecycleEvent Error) := none
  isNotifying : Bool := false
  isShutdown : Bool := false
  /-- The terminal event of the `Finish` whose mutation is being executed. -/
  finishing : Option (PaneLifecycleEvent Error) := none
  mutationViolated : Bool := false
  destructionRequestedDuringMutation : Bool := false
  /-- History: the events that were handed to the observers. -/
  emitted : List (PaneLifecycleEvent Error) := []

namespace Producer

/-! ## Counters -/

def ensureCounterCapacity (next maximum count : Nat) (message : String) :
    Except ProducerException Unit :=
  refuse (next = 0 ∨ next > maximum ∨ count > maximum - next + 1) (.overflowError message)

def ensureRequestIdCapacity (producer : Producer Error) (count : Nat) :
    Except ProducerException Unit :=
  ensureCounterCapacity producer.nextRequestId producer.counterLimits.maximumRequestId count
    "PaneLifecycleProducer request id overflow"

def ensureEventSequenceCapacity (producer : Producer Error) (count : Nat) :
    Except ProducerException Unit :=
  ensureCounterCapacity producer.nextEventSequence producer.counterLimits.maximumEventSequence count
    "PaneLifecycleProducer event sequence overflow"

def ensureRunning (producer : Producer Error) : Except ProducerException Unit :=
  refuse (producer.isShutdown = true) (.logicError "PaneLifecycleProducer is shut down")

/-- Zero stands for a counter that has run out. -/
def advanceCounter (next maximum count : Nat) : Nat :=
  if count = maximum - next + 1 then 0 else next + count

def advanceRequestId (producer : Producer Error) (count : Nat) : Producer Error :=
  { producer with
    nextRequestId :=
      advanceCounter producer.nextRequestId producer.counterLimits.maximumRequestId count }

def advanceEventSequence (producer : Producer Error) (count : Nat) : Producer Error :=
  { producer with
    nextEventSequence :=
      advanceCounter producer.nextEventSequence producer.counterLimits.maximumEventSequence count }

def previousEventSequence (producer : Producer Error) : Nat :=
  if producer.nextEventSequence = 0 then producer.counterLimits.maximumEventSequence
  else producer.nextEventSequence - 1

/-! ## Events -/

def prepareEvent (producer : Producer Error) (request : PaneActiveRequest) (eventSequence : Nat)
    (payload : EventPayload Error) : PaneLifecycleEvent Error :=
  { paneId := producer.paneId, requestId := request.requestId, eventSequence,
    descriptor := request.descriptor, payload }

def commitBatch (producer : Producer Error) (batch : List (PaneLifecycleEvent Error)) :
    Producer Error :=
  { producer with pendingNotifications := producer.pendingNotifications ++ batch }

/-- One round of the loop of `DrainNotifications`. -/
def notifyNext (producer : Producer Error) : Producer Error :=
  match producer.pendingNotifications with
  | [] => { producer with activeNotification := none, isNotifying := false }
  | event :: rest =>
    { producer with
      activeNotification := some event, isNotifying := true, pendingNotifications := rest,
      emitted := producer.emitted ++ [event] }

def drainNotifications (producer : Producer Error) : Producer Error :=
  if producer.isNotifying then producer else producer.notifyNext

/-! ## Operations -/

/-- Throws when a mutation is being executed, and remembers that it was violated. -/
def guarded {α : Type} (producer : Producer Error) (message : String)
    (operation : Producer Error × Except ProducerException α) :
    Producer Error × Except ProducerException α :=
  if producer.finishing.isSome then
    ({ producer with mutationViolated := true }, .error (.logicError message))
  else operation

/-- Goes on with what the checks return; when they throw, nothing has changed. -/
def checked {α β : Type} (producer : Producer Error) (checks : Except ProducerException β)
    (operation : β → Producer Error × Except ProducerException α) :
    Producer Error × Except ProducerException α :=
  match checks with
  | .error exception => (producer, .error exception)
  | .ok found => operation found

def start (producer : Producer Error) (descriptor : PaneRequestDescriptor) :
    Producer Error × Except ProducerException PaneRequestId :=
  producer.guarded "PaneLifecycleProducer cannot start during a finish mutation" <|
  producer.checked (do
    producer.ensureRunning
    refuse (producer.activeRequest.isSome = true)
      (.logicError "PaneLifecycleProducer already has an active request")
    producer.ensureRequestIdCapacity 1
    producer.ensureEventSequenceCapacity 2) fun _ =>
  let next : PaneActiveRequest := { requestId := ⟨producer.nextRequestId⟩, descriptor }
  let batch := [producer.prepareEvent next producer.nextEventSequence .started]
  let producer := { producer with activeRequest := some next, retainedFailure := none }
  let producer := ((producer.advanceRequestId 1).advanceEventSequence 1).commitBatch batch
  (producer.drainNotifications, .ok next.requestId)

def reject (producer : Producer Error) (descriptor : PaneRequestDescriptor)
    (rejection : PaneLifecycleRejected Error) :
    Producer Error × Except ProducerException PaneRequestId :=
  producer.guarded "PaneLifecycleProducer cannot reject during a finish mutation" <|
  producer.checked (do
    producer.ensureRunning
    producer.ensureRequestIdCapacity 1
    producer.ensureEventSequenceCapacity (if producer.activeRequest.isSome then 2 else 1)) fun _ =>
  let attempt : PaneActiveRequest := { requestId := ⟨producer.nextRequestId⟩, descriptor }
  let batch := [producer.prepareEvent attempt producer.nextEventSequence (.rejected rejection)]
  let producer := ((producer.advanceRequestId 1).advanceEventSequence 1).commitBatch batch
  (producer.drainNotifications, .ok attempt.requestId)

def supersedeAndStart (producer : Producer Error) (descriptor : PaneRequestDescriptor) :
    Producer Error × Except ProducerException PaneRequestId :=
  producer.guarded "PaneLifecycleProducer cannot supersede during a finish mutation" <|
  producer.checked (do
    producer.ensureRunning
    let previous ← demand producer.activeRequest
      (.logicError "PaneLifecycleProducer has no request to supersede")
    producer.ensureRequestIdCapacity 1
    producer.ensureEventSequenceCapacity 3
    return previous) fun previous =>
  let replacement : PaneActiveRequest := { requestId := ⟨producer.nextRequestId⟩, descriptor }
  let batch :=
    [producer.prepareEvent previous producer.nextEventSequence (.superseded replacement.requestId),
      producer.prepareEvent replacement (producer.nextEventSequence + 1) .started]
  let producer := { producer with activeRequest := some replacement, retainedFailure := none }
  let producer := ((producer.advanceRequestId 1).advanceEventSequence 2).commitBatch batch
  (producer.drainNotifications, .ok replacement.requestId)

/-- The end of `Finish`, once the mutation is through. -/
def publishTerminal (producer : Producer Error) (terminal : PaneLifecycleEvent Error) :
    Producer Error :=
  let retainedFailure :=
    match terminal.payload with
    | .failed _ => some terminal
    | _ => none
  let producer := { producer with activeRequest := none, retainedFailure }
  ((producer.advanceEventSequence 1).commitBatch [terminal]).drainNotifications

/-- `Finish` up to its mutation, or to its end when there is none; no result while it runs. -/
def finish (producer : Producer Error) (requestId : PaneRequestId) (terminal : FinishPayload Error)
    (mutates : Bool) : Producer Error × Except ProducerException (Option FinishResult) :=
  producer.guarded "PaneLifecycleProducer cannot finish during a finish mutation" <|
  if producer.isShutdown then (producer, .ok (some .producerShutdown))
  else
    match producer.activeRequest with
    | none => (producer, .ok (some .noActiveRequest))
    | some completed =>
      if completed.requestId ≠ requestId then (producer, .ok (some .staleRequest))
      else
        producer.checked (producer.ensureEventSequenceCapacity 1) fun _ =>
        let event := producer.prepareEvent completed producer.nextEventSequence terminal.toEvent
        if mutates then
          ({ producer with
              mutationViolated := false, destructionRequestedDuringMutation := false,
              finishing := some event }, .ok none)
        else (producer.publishTerminal event, .ok (some .published))

/-- `Shutdown`, when no mutation is being executed. -/
def shutdownNow (producer : Producer Error) : Producer Error × Except ProducerException Unit :=
  if producer.isShutdown then (producer, .ok ())
  else
    match producer.activeRequest with
    | none => ({ producer with isShutdown := true }, .ok ())
    | some cancelled =>
      producer.checked (producer.ensureEventSequenceCapacity 1) fun _ =>
      let batch :=
        [producer.prepareEvent cancelled producer.nextEventSequence (.cancelled .producerShutdown)]
      let producer :=
        { producer with isShutdown := true, activeRequest := none, retainedFailure := none }
      (((producer.advanceEventSequence 1).commitBatch batch).drainNotifications, .ok ())

def shutdown (producer : Producer Error) : Producer Error × Except ProducerException Unit :=
  producer.guarded "PaneLifecycleProducer cannot shut down during a finish mutation"
    producer.shutdownNow

/-- What destruction does when `Shutdown` threw. -/
def discard (producer : Producer Error) : Producer Error :=
  { producer with isShutdown := true, activeRequest := none, pendingNotifications := [] }

/-- `ShutdownForDestruction` and `CompleteDeferredDestruction` from `Shutdown` on. -/
def shutdownOrDiscard (producer : Producer Error) : Producer Error :=
  match producer.shutdownNow with
  | (producer, .ok ()) => producer
  | (producer, .error _) => producer.discard

def shutdownForDestruction (producer : Producer Error) : Producer Error :=
  if producer.finishing.isSome then
    { producer with mutationViolated := true, destructionRequestedDuringMutation := true }
  else producer.shutdownOrDiscard

/-- What a mutation that threw, or was violated, leaves behind. -/
def abandonFinish (producer : Producer Error) : Producer Error :=
  let producer := { producer with finishing := none, mutationViolated := false }
  if producer.destructionRequestedDuringMutation then
    { producer with destructionRequestedDuringMutation := false }.shutdownOrDiscard
  else producer

/-- The mutation returned. -/
def mutationReturned (producer : Producer Error) (event : PaneLifecycleEvent Error) :
    Producer Error × Except ProducerException (Option FinishResult) :=
  if producer.mutationViolated then
    (producer.abandonFinish,
      .error (.logicError "PaneLifecycleProducer finish mutation attempted lifecycle reentry"))
  else
    ({ producer with finishing := none }.publishTerminal event, .ok (some .published))

/-- The first pending event that is no rejection decides what a joining observer has missed. -/
def pendingSeed : List (PaneLifecycleEvent Error) → Option (Option PaneActiveRequest)
  | [] => none
  | notification :: rest =>
    if notification.payload.isRejected then pendingSeed rest
    else if notification.payload.isStarted then some none
    else if notification.payload.isAcceptedTerminal then
      some (some { requestId := notification.requestId, descriptor := notification.descriptor })
    else pendingSeed rest

/-- The subscription of an observer; it changes the list of the observers only. -/
def subscribe (producer : Producer Error) : Subscription Error :=
  match pendingSeed producer.pendingNotifications with
  | some seedRequest => { seedRequest }
  | none =>
    match producer.activeRequest, producer.retainedFailure with
    | some request, _ => { seedRequest := some request }
    | none, some failure =>
      { seedRequest :=
          some { requestId := failure.requestId, descriptor := failure.descriptor },
        retainedFailure := some failure,
        checkpointSequence :=
          match producer.activeNotification with
          | some notification => notification.eventSequence
          | none => producer.previousEventSequence }
    | none, none => {}

end Producer

/-! ## Runs -/

inductive PaneCall (Error : Type) where
  | start (descriptor : PaneRequestDescriptor)
  | reject (descriptor : PaneRequestDescriptor) (rejection : PaneLifecycleRejected Error)
  | supersedeAndStart (descriptor : PaneRequestDescriptor)
  | finish (requestId : PaneRequestId) (terminal : FinishPayload Error) (mutates : Bool)
  | mutationReturned
  | mutationThrew
  | shutdown
  | subscribe
  | destroy
  | observersReturned

inductive PaneAnswer (Error : Type) where
  | requestId (id : PaneRequestId)
  | finished (result : FinishResult)
  /-- The mutation of a `Finish` is running. -/
  | mutating
  /-- What the mutation threw goes on to the caller of `Finish`. -/
  | rethrown
  | subscription (subscription : Subscription Error)
  | nothing

def finishAnswer (result : Option FinishResult) : PaneAnswer Error :=
  match result with
  | some result => .finished result
  | none => .mutating

/-- A step; one for which nothing is there, such as the end of no mutation, changes nothing. -/
def paneStep (producer : Producer Error) (call : PaneCall Error) :
    Producer Error × Except ProducerException (PaneAnswer Error) :=
  match call with
  | .start descriptor => Prod.map id (Except.map .requestId) (producer.start descriptor)
  | .reject descriptor rejection =>
    Prod.map id (Except.map .requestId) (producer.reject descriptor rejection)
  | .supersedeAndStart descriptor =>
    Prod.map id (Except.map .requestId) (producer.supersedeAndStart descriptor)
  | .finish requestId terminal mutates =>
    Prod.map id (Except.map finishAnswer) (producer.finish requestId terminal mutates)
  | .mutationReturned =>
    match producer.finishing with
    | some event => Prod.map id (Except.map finishAnswer) (producer.mutationReturned event)
    | none => (producer, .ok .nothing)
  | .mutationThrew =>
    match producer.finishing with
    | some _ => (producer.abandonFinish, .ok .rethrown)
    | none => (producer, .ok .nothing)
  | .shutdown => Prod.map id (Except.map fun _ => .nothing) producer.shutdown
  | .subscribe => (producer, .ok (.subscription producer.subscribe))
  | .destroy => (producer.shutdownForDestruction, .ok .nothing)
  | .observersReturned =>
    if producer.isNotifying ∧ producer.finishing = none then
      (producer.notifyNext, .ok .nothing)
    else (producer, .ok .nothing)

/-- A producer when it has been constructed. -/
def Producer.create (pane : PaneId) (limits : CounterLimits) : Producer Error :=
  { paneId := pane, counterLimits := limits }

end WinCommander.Pane
