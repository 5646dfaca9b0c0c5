/-
  `OperationCenterModel`: the records of operations and their lifecycle.

  A state that reaches the model from outside may hold a byte that is no enumerator; the
  constructor `outside` is that, and the switches fall through to their last line.
-/
import WinCommander.Operations.OperationId
import WinCommander.Operations.OperationPlan

namespace WinCommander.Operations.Center

open Library

inductive OperationRecordState where
  | queued | running | paused | cancelling | finalizing
  | interrupted | cancelled | failed | completed | completedWithWarnings
  | outside (value : UInt8)
deriving DecidableEq

namespace OperationRecordState

def isTerminal : OperationRecordState → Bool
  | .interrupted | .cancelled | .failed | .completed | .completedWithWarnings => true
  | .queued | .running | .paused | .cancelling | .finalizing => false
  | .outside _ => true

/-- `IsAllowedTransition`. -/
def allows (current next : OperationRecordState) : Bool :=
  match current with
  | .queued => next = .running || next = .cancelling || next = .finalizing
  | .running => next = .paused || next = .cancelling || next = .finalizing
  | .paused => next = .running || next = .cancelling || next = .finalizing
  | .cancelling => next = .finalizing
  | .finalizing => next.isTerminal
  | .interrupted | .cancelled | .failed | .completed | .completedWithWarnings => false
  | .outside _ => false

end OperationRecordState

structure OperationControlAvailability where
  canPause : Bool := false
  canResume : Bool := false
  canCancel : Bool := false
  canRetry : Bool := false
deriving DecidableEq

def controlsFor : OperationRecordState → OperationControlAvailability
  | .queued => { canCancel := true }
  | .running => { canPause := true, canCancel := true }
  | .paused => { canResume := true, canCancel := true }
  | .failed | .interrupted => { canRetry := true }
  | .cancelling | .finalizing | .cancelled | .completed | .completedWithWarnings => {}
  | .outside _ => {}

structure OperationRecord where
  operationId : OperationId
  planId : Bytes
  operationType : OperationPlanType
  state : OperationRecordState
  revision : UInt64 := 0
  createdAt : TimePoint
  startedAt : Option TimePoint
  finishedAt : Option TimePoint
  controls : OperationControlAvailability
deriving DecidableEq

inductive OperationCenterModelErrorCode where
  | idExhausted | unreservedOperationId | unstagedAdmission | receiptPlanMismatch
  | hydrationAlreadyInitialized | invalidHydratedRecord | duplicateOperationId
  | coldHistoryActive | coldHistoryConflict | coldHistoryRefreshFailed | operationNotFound
  | staleRevision | invalidTransition
deriving DecidableEq

structure OperationCenterModelError where
  code : OperationCenterModelErrorCode
  currentRevision : Option UInt64 := none
deriving DecidableEq

/-! ## Lifecycles -/

/-- Finished exactly when terminal, with the controls of its state. -/
structure OperationRecord.Sound (record : OperationRecord) : Prop where
  finished : record.finishedAt.isSome = record.state.isTerminal
  controls : record.controls = controlsFor record.state

/-- What never changes about a record. -/
structure OperationRecord.SameIdentity (record record' : OperationRecord) : Prop where
  operationId : record'.operationId = record.operationId
  planId : record'.planId = record.planId
  operationType : record'.operationType = record.operationType
  createdAt : record'.createdAt = record.createdAt

/-- One accepted change. -/
structure OperationRecord.Changed (record record' : OperationRecord) : Prop where
  same : record.SameIdentity record'
  revision : record'.revision = record.revision + 1
  ongoing : record.state.isTerminal = false
  entered : record'.state.isTerminal = true → record.state = .finalizing

/-- Any number of changes. -/
structure OperationRecord.Later (record record' : OperationRecord) : Prop where
  same : record.SameIdentity record'
  terminal : record.state.isTerminal = true → record' = record

namespace OperationRecordState

variable {current next : OperationRecordState}

theorem not_terminal_of_allows (h : current.allows next) : current.isTerminal = false := by
  unfold allows at h
  split at h
  all_goals first | rfl | cases h

/-- Terminal states are entered from `Finalizing` only. -/
theorem finalizing_of_allows (h : current.allows next) (hnext : next.isTerminal) :
    current = .finalizing := by
  have hongoing := not_terminal_of_allows h
  cases current with
  | finalizing => rfl
  | queued | running | paused =>
    -- Three ongoing states can follow.
    have hnext' : (next = .running ∨ next = .paused) ∨ next = .cancelling ∨ next = .finalizing := by
      unfold allows at h
      simp only [Bool.or_eq_true, decide_eq_true_eq] at h
      tauto
    rcases hnext' with (rfl | rfl) | rfl | rfl
    all_goals cases hnext
  | cancelling =>
    rw [of_decide_eq_true h] at hnext
    cases hnext
  | _ => exact absurd hongoing.symm Bool.false_ne_true

end OperationRecordState

namespace OperationRecord

variable {a b c : OperationRecord}

theorem SameIdentity.refl (a : OperationRecord) : a.SameIdentity a := ⟨rfl, rfl, rfl, rfl⟩

theorem SameIdentity.trans (h : a.SameIdentity b) (h' : b.SameIdentity c) : a.SameIdentity c :=
  ⟨h'.operationId.trans h.operationId, h'.planId.trans h.planId,
    h'.operationType.trans h.operationType, h'.createdAt.trans h.createdAt⟩

theorem Later.refl (a : OperationRecord) : a.Later a := ⟨SameIdentity.refl a, fun _ => rfl⟩

theorem Later.trans (h : a.Later b) (h' : b.Later c) : a.Later c := by
  refine ⟨h.same.trans h'.same, fun hterminal => ?_⟩
  have hb := h.terminal hterminal
  subst hb
  exact h'.terminal hterminal

theorem Changed.later (h : a.Changed b) : a.Later b := by
  refine ⟨h.same, fun hterminal => ?_⟩
  rw [h.ongoing] at hterminal
  cases hterminal

end OperationRecord

end WinCommander.Operations.Center
