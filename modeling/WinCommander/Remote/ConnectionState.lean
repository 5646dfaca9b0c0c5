/-
  The live state of one remote connection, and what an outcome makes of it.

  How long the next retry waits is computed in floating point, and is a parameter of the policy.
-/
import WinCommander.Library.Numeral

namespace WinCommander.Remote

open Library

inductive RemoteConnectionStatus where
  | disconnected | connecting | connected | reconnecting | offline | blocked
deriving DecidableEq

inductive RemoteConnectionFailure where
  | none | unreachable | timedOut | authenticationRejected | hostVerificationFailed
  | permissionDenied | protocolError
deriving DecidableEq

def isRetryableRemoteFailure (failure : RemoteConnectionFailure) : Bool :=
  failure = .unreachable ∨ failure = .timedOut

structure RemoteRetryPolicy where
  maximumAttempts : UInt32 := 5
  /-- How long the next attempt waits, after so many of them. -/
  backoff : UInt32 → Int64 := fun _ => 500

def nextRemoteRetryDelay (policy : RemoteRetryPolicy) (completedAttempts : UInt32)
    (failure : RemoteConnectionFailure) : Option Int64 :=
  if !isRetryableRemoteFailure failure then none
  else if completedAttempts ≥ policy.maximumAttempts then none
  else some (policy.backoff completedAttempts)

structure RemoteConnectionEvent where
  failure : RemoteConnectionFailure := .none
  time : Int64 := 0
  detail : Bytes := []
deriving DecidableEq

/-- `MaximumHistory`. -/
def maximumHistory : Nat := 16

structure RemoteConnectionState where
  status : RemoteConnectionStatus := .disconnected
  lastFailure : RemoteConnectionFailure := .none
  completedAttempts : UInt32 := 0
  lastSuccessfulConnection : Option Int64 := none
  latency : Option Int64 := none
  readOnly : Bool := false
  /-- The most recent first. -/
  history : List RemoteConnectionEvent := []
deriving DecidableEq

structure RemoteConnectionTransition where
  state : RemoteConnectionState
  retryAfter : Option Int64
deriving DecidableEq

def boundHistory (history : List RemoteConnectionEvent) : List RemoteConnectionEvent :=
  if history.length > maximumHistory then history.take maximumHistory else history

def applyRemoteConnected (state : RemoteConnectionState) (time : Int64) (latency : Option Int64)
    (readOnly : Bool) : RemoteConnectionTransition where
  state := { state with
    status := .connected
    lastFailure := .none
    completedAttempts := 0
    lastSuccessfulConnection := some time
    latency
    readOnly }
  retryAfter := none

/-- The delay is that of the attempts before this one. -/
def applyRemoteFailure (state : RemoteConnectionState) (failure : RemoteConnectionFailure)
    (time : Int64) (detail : Bytes) (policy : RemoteRetryPolicy) : RemoteConnectionTransition :=
  if failure = .none then { state, retryAfter := none }
  else
    let attemptsBefore := state.completedAttempts
    let state := { state with
      lastFailure := failure
      completedAttempts := state.completedAttempts + 1
      latency := none
      history := boundHistory ({ failure, time, detail } :: state.history) }
    match nextRemoteRetryDelay policy attemptsBefore failure with
    | some delay => { state := { state with status := .reconnecting }, retryAfter := some delay }
    | none =>
      { state := { state with
          status := if isRetryableRemoteFailure failure then .offline else .blocked }
        retryAfter := none }

def applyRemoteDisconnected (state : RemoteConnectionState) : RemoteConnectionTransition where
  state := { state with
    status := .disconnected
    lastFailure := .none
    completedAttempts := 0
    latency := none }
  retryAfter := none

/-! ## What an outcome makes of it -/

theorem boundHistory_eq (history : List RemoteConnectionEvent) :
    boundHistory history = history.take maximumHistory := by
  unfold boundHistory
  split_ifs with h
  · rfl
  · rw [List.take_of_length_le (Nat.le_of_not_lt h)]

section Failures

variable {state : RemoteConnectionState} {failure : RemoteConnectionFailure} {time : Int64}
  {detail : Bytes} {policy : RemoteRetryPolicy}

theorem applyRemoteFailure_none : applyRemoteFailure state .none time detail policy =
    { state, retryAfter := none } := rfl

/-- A retry is scheduled exactly when the connection is reconnecting then. -/
theorem applyRemoteFailure_retry (hfailure : failure ≠ .none) :
    ((applyRemoteFailure state failure time detail policy).retryAfter.isSome = true ↔
      (applyRemoteFailure state failure time detail policy).state.status = .reconnecting) ∧
    (applyRemoteFailure state failure time detail policy).state.history =
      ({ failure, time, detail } :: state.history).take maximumHistory := by
  unfold applyRemoteFailure
  rw [if_neg hfailure]
  dsimp only
  cases nextRemoteRetryDelay policy state.completedAttempts failure with
  | some delay => exact ⟨iff_of_true rfl rfl, boundHistory_eq _⟩
  | none =>
    refine ⟨iff_of_false nofun ?_, boundHistory_eq _⟩
    split_ifs <;> exact nofun

end Failures

end WinCommander.Remote
