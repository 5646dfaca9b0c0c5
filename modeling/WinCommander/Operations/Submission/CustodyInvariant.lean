/-
  What holds of the slot, the table and the pool between any two critical sections.

  `Sound` is about the shared state, `Placed` about one frame in it. A frame that submits, one
  inside of the finalizer and one that owns the release are each alone (`Exclusive`), and what
  the other frames rely on stays as it is when one advances (`Later`). `Advances` says all of
  that of one critical section, and `Custodial` of the frames of all threads.
-/
import WinCommander.Operations.Submission.Custodian

namespace WinCommander.Operations.Submission

open Library List Slot Custody

/-! ## The shared state -/

/-- Phases from which the pool may let go of the operation. -/
@[grind] def Phase.Settled (phase : Phase) : Prop :=
  phase = .finalized ∨ phase = .reconciled ∨ phase = .releaseInProgress ∨ phase = .released

/-- Phases that are not entered without evidence. -/
@[grind] def Phase.Evident (phase : Phase) : Prop :=
  phase = .reconcileRequired ∨ phase = .reconciled ∨ phase = .releaseInProgress ∨ phase = .finalized

/-- The fields of the slot between two critical sections, and what they say of the pool. -/
structure Sound (c : Custody) : Prop where
  table : c.inTable = true → c.reserved = true
  unreserved : c.reserved = false → c.slot.phase = .reserved
  fresh : c.slot.phase = .reserved → c.slot.terminalEvidenceAcquired = false
  early : c.slot.phase = .reserved ∨ c.slot.phase = .armed ∨ c.slot.phase = .retryRequired →
    c.pool = .absent
  owned : c.slot.phase = .poolOwned → c.pool ≠ .absent
  idle : c.slot.phase = .reconcileRequired ∨ c.slot.phase = .reconciled ∨
    c.slot.phase = .releaseInProgress → c.pool ≠ .active
  gone : c.pool = .gone → c.slot.phase.Settled
  flag : c.slot.poolOwned = true → c.pool ≠ .absent
  released : c.slot.phase = .released → c.pool = .absent ∨ c.pool = .gone ∨ c.poolExpired = true
  left : c.reserved = true → c.inTable = false →
    c.slot.phase = .finalized ∨ c.slot.phase = .released
  evident : c.slot.phase.Evident → c.slot.terminalEvidence.isSome = true
  acquired : c.slot.terminalEvidence.isSome = true → c.slot.terminalEvidenceAcquired = true
  retrying : c.slot.phase = .retryRequired → c.slot.terminalEvidenceAcquired = true
  status : c.slot.phase = .reconciled ∨ c.slot.phase = .releaseInProgress →
    c.slot.reconciliationStatus = some .terminalConfirmed ∨
      c.slot.reconciliationStatus = some .interruptedConfirmed
  standing : c.slot.reconciliationStatus ≠ none →
    c.slot.phase = .reconciled ∨ c.slot.phase = .releaseInProgress ∨ c.slot.phase = .released
  settled : c.slot.phase = .reconciled → c.slot.poolOwned = true ∨ c.pool = .absent
  owning : c.slot.phase = .releaseInProgress → c.slot.poolOwned = true
  latched : c.slot.poolReleaseLatched = true → c.pool = .finalizing true ∨ c.pool = .gone

theorem sound_start (plan : OperationPlan) (terminalObserver : Bool) :
    Sound (start plan terminalObserver) := by
  constructor <;> simp [start, new, Phase.Settled, Phase.Evident]

/-! ## Frames -/

/-- Nothing is known of the operation, and the pool has not been asked. -/
@[grind] structure Unstarted (c : Custody) (phase : Phase) : Prop where
  phase : c.slot.phase = phase
  fresh : c.slot.terminalEvidenceAcquired = false
  pool : c.pool = .absent

/-- The pool is in the finalizer. -/
@[grind] structure Inside (c : Custody) : Prop where
  pool : c.pool = .finalizing true
  attended : c.poolExpired = false

/-- What a call of the custodian returns. -/
@[grind] def Report.isReturned : Report → Bool
  | .custody _ | .reconciliation _ | .poolRelease _ => true
  | _ => false

@[grind] def SubmitPlaced (c : Custody) : SubmitPc → Prop
  | .reserve => True
  | .arm | .release => c.reserved = true ∧ Unstarted c .reserved
  | .prepare | .before _ _ => c.reserved = true ∧ Unstarted c .armed
  | .enqueue | .reject _ => c.reserved = true ∧ Unstarted c .enqueueInProgress
  | .commit => c.reserved = true ∧ c.pool ≠ .absent

@[grind] def SettlePlaced (c : Custody) : SettlePc → Prop
  | .finalize => c.slot.terminalEvidenceAcquired = true ∧ c.pool = .absent
  | .deliver => c.slot.phase = .finalized
  | .erase returns =>
    (c.slot.phase = .finalized ∨ c.slot.phase = .released) ∧ ∀ r ∈ returns, r.isReturned = true

@[grind] def PoolPlaced (c : Custody) : PoolPc → Prop
  | .enter => True
  | .finalize => Inside c ∧ c.slot.poolReleaseLatched = false
  | .deliver late own _ | .decide late own =>
    Inside c ∧ c.slot.phase.Settled ∧ (late = true ∨ own = true → c.slot.phase = .finalized)
  | .erase _ decision =>
    Inside c ∧ c.slot.phase = .finalized ∧ decision = c.slot.releaseDecision
  | .leave decision =>
    Inside c ∧ (decision = .retain → c.slot.poolReleaseLatched = false) ∧
      (decision ≠ .retain → c.slot.phase.Settled)

@[grind] def FinishPlaced (c : Custody) : FinishPc → Prop
  | .didFinish => True
  | .retry pc => PoolPlaced c pc

@[grind] def ReconcilePlaced (c : Custody) : ReconcilePc → Prop
  | .deliver _ | .release _ => c.slot.terminalEvidenceAcquired = true ∧ c.pool = .absent
  | .find | .check | .leave _ => True

/-- No call of the finalizer follows. -/
@[grind] def LetGo (c : Custody) : Prop := c.pool = .gone ∨ c.poolExpired = true

@[grind] def ReleasePlaced (c : Custody) : ReleasePc → Prop
  | .find | .check => True
  | .deliver _ => c.slot.phase = .releaseInProgress ∧ c.poolExpired = true
  | .pool pc => c.slot.phase = .releaseInProgress ∧ PoolPlaced c pc
  | .latch released => c.slot.phase = .releaseInProgress ∧
      (released = none ∨ released = some .released ∨ released = some .notFinalizing → LetGo c)
  | .revert _ => c.slot.phase = .releaseInProgress
  | .confirm => c.slot.phase = .releaseInProgress ∧ LetGo c

/-- What a frame knows of the state in front of its critical section. -/
@[grind] def Placed (c : Custody) : Frame → Prop
  | .submit pc => SubmitPlaced c pc
  | .settle pc => SettlePlaced c pc
  | .finish pc => FinishPlaced c pc
  | .retry _ => True
  | .reconcile pc => ReconcilePlaced c pc
  | .release pc => ReleasePlaced c pc

@[grind] def Frame.submitting : Frame → Bool
  | .submit pc => pc ≠ .reserve
  | _ => false

@[grind] def Frame.inside : Frame → Bool
  | .finish (.retry pc) | .release (.pool pc) => pc ≠ .enter
  | _ => false

@[grind] def Frame.owning : Frame → Bool
  | .release pc => pc ≠ .find ∧ pc ≠ .check
  | _ => false

/-- What others rely on after an advance of `f`. -/
structure Later (f : Frame) (c c' : Custody) : Prop where
  reserved : c.reserved = true → c'.reserved = true
  unstarted : f.submitting = false → ∀ phase, Unstarted c phase → Unstarted c' phase
  pooled : c.pool ≠ .absent → c'.pool ≠ .absent
  acquired : c.slot.terminalEvidenceAcquired = true → c.pool = .absent →
    c'.slot.terminalEvidenceAcquired = true ∧ c'.pool = .absent
  finalized : c.slot.phase = .finalized →
    c'.slot.phase = .finalized ∧ c'.slot.releaseDecision = c.slot.releaseDecision
  released : c.slot.phase = .released → c'.slot.phase = .released
  settled : c.slot.phase.Settled → c'.slot.phase.Settled
  inside : f.inside = false → Inside c →
    Inside c' ∧ c'.slot.poolReleaseLatched = c.slot.poolReleaseLatched
  owning : f.owning = false → c.slot.phase = .releaseInProgress → c'.slot.phase = .releaseInProgress
  expired : c.poolExpired = true → c'.poolExpired = true
  gone : c.pool = .gone → c'.pool = .gone

variable {f : Frame}

/-- A critical section that only looks. -/
theorem Later.of_eq (h : c' = c) : Later f c c' := by
  subst h
  exact
    { reserved := id
      unstarted := fun _ _ => id
      pooled := id
      acquired := fun hacquired hpool => ⟨hacquired, hpool⟩
      finalized := fun hphase => ⟨hphase, rfl⟩
      released := id
      settled := id
      inside := fun _ hinside => ⟨hinside, rfl⟩
      owning := fun _ => id
      expired := id
      gone := id }

/-- A critical section of `f` in the state `c`. A role is taken up only where nobody has it. -/
structure Advances (c : Custody) (f : Frame) (r : FrameStep) : Prop where
  sound : Sound r.1
  later : Later f c r.1
  placed : ∀ f' ∈ r.2.1, Placed r.1 f'
  submits : ∀ f' ∈ r.2.1, f'.submitting = true → f.submitting = true ∨ c.reserved = false
  enters : ∀ f' ∈ r.2.1, f'.inside = true → f.inside = true ∨ c.pool = .finalizing false
  owns : ∀ f' ∈ r.2.1, f'.owning = true → f.owning = true ∨ c.slot.phase = .reconciled

attribute [grind] Slot.releaseDecision

/-! ## Submitting -/

variable {c : Custody}

variable (a : Answers)

theorem advances_submit (h : Sound c) (hp : SubmitPlaced c pc) :
    Advances c (.submit pc) (submitStep c a pc) := by
  cases h
  cases pc with
  | reserve =>
    unfold submitStep
    constructor
    case sound => constructor <;> grind -linarith
    case later => constructor <;> grind -linarith
    all_goals grind -linarith
  | arm =>
    unfold submitStep arm
    constructor
    case sound => constructor <;> grind -linarith
    case later => constructor <;> grind -linarith
    all_goals grind -linarith
  | release =>
    unfold submitStep
    constructor
    case sound => constructor <;> grind -linarith
    case later => constructor <;> grind -linarith
    all_goals grind -linarith
  | prepare =>
    unfold submitStep beginEnqueue
    constructor
    case sound => constructor <;> grind -linarith
    case later => constructor <;> grind -linarith
    all_goals grind -linarith
  | before result terminalState =>
    unfold submitStep settleAfter finalizeBeforeEnqueue acquireBefore
    constructor
    case sound => constructor <;> grind -linarith
    case later => constructor <;> grind -linarith
    all_goals grind -linarith
  | enqueue =>
    unfold submitStep enqueueStep
    constructor
    case sound => constructor <;> grind -linarith
    case later => constructor <;> grind -linarith
    all_goals grind -linarith
  | commit =>
    unfold submitStep commitEnqueue
    constructor
    case sound => constructor <;> grind -linarith
    case later => constructor <;> grind -linarith
    all_goals grind -linarith
  | reject enqueued =>
    unfold submitStep settleAfter rejectEnqueue acquireBefore
    constructor
    case sound => constructor <;> grind -linarith
    case later => constructor <;> grind -linarith
    all_goals grind -linarith

/-! ## Settling -/

theorem finalizeCustodiedSlot_cases (slot : Slot) (answer : FinalizeAnswer) :
    ∃ receipt journal error phase, (slot.finalizeCustodiedSlot answer).1 = { slot with
          receipt := receipt, journal := journal, lastJournalError := error, phase := phase } ∧
      (phase = slot.phase ∧ (slot.finalizeCustodiedSlot answer).2.status ≠ .finalized ∨
        (slot.phase = .armed ∨ slot.phase = .retryRequired) ∧
          (phase = .contractViolation ∧ (slot.finalizeCustodiedSlot answer).2.status ≠ .finalized ∨
            slot.terminalEvidenceAcquired ∧ slot.terminalEvidence.isSome ∧
              (phase = .finalized ∧ (slot.finalizeCustodiedSlot answer).2.status = .finalized ∨
                (phase = .reconcileRequired ∨ phase = .retryRequired) ∧
                  (slot.finalizeCustodiedSlot answer).2.status ≠ .finalized))) := by
  unfold finalizeCustodiedSlot surrender finalize
  split
  · exact ⟨_, _, _, _, rfl, .inl ⟨rfl, by simp⟩⟩
  split
  · exact ⟨_, _, _, _, rfl, by grind -linarith⟩
  next hready =>
  have hevident : slot.terminalEvidenceAcquired ∧ slot.terminalEvidence.isSome := by
    cases htaken : slot.terminalEvidence <;> simp_all
  split
  · exact ⟨_, _, _, _, rfl, by grind -linarith⟩
  · exact ⟨_, _, _, _, rfl, by grind -linarith⟩
  · dsimp only
    split
    · exact ⟨_, _, _, _, rfl, by grind -linarith⟩
    split
    · exact ⟨_, _, _, _, rfl, by grind -linarith⟩
    · exact ⟨_, _, _, _, rfl, by grind -linarith⟩

/-- What `DeliverTerminalOutcome` leaves as it is. -/
structure Undisturbed (c c' : Custody) : Prop where
  reserved : c'.reserved = c.reserved
  inTable : c'.inTable = c.inTable
  pool : c'.pool = c.pool
  poolExpired : c'.poolExpired = c.poolExpired
  phase : c'.slot.phase = c.slot.phase
  found : c'.slot.terminalEvidence.isSome = c.slot.terminalEvidence.isSome
  acquired : c'.slot.terminalEvidenceAcquired = c.slot.terminalEvidenceAcquired
  poolOwned : c'.slot.poolOwned = c.slot.poolOwned
  latched : c'.slot.poolReleaseLatched = c.slot.poolReleaseLatched
  status : c'.slot.reconciliationStatus = c.slot.reconciliationStatus
  decision : c'.slot.releaseDecision = c.slot.releaseDecision

theorem undisturbed_deliver (c : Custody) (a : Answers)
    (confirmation : CopyOperationDurableTerminalConfirmation) :
    Undisturbed c (deliver c a confirmation).1 := by
  unfold deliver deliverTerminalOutcome
  dsimp only
  split
  · constructor <;> rfl
  · cases c.slot.confirmedEvidence confirmation with
    | none => constructor <;> rfl
    | some evidence =>
      unfold moveItemResults
      dsimp only
      split
      · constructor <;> rfl
      · cases htaken : c.slot.terminalEvidence with
        | none => constructor <;> simp [releaseDecision, htaken]
        | some taken => constructor <;> simp [releaseDecision, htaken]

theorem Sound.undisturbed (h : Sound c) (hsame : Undisturbed c c') : Sound c' := by
  obtain ⟨⟩ := h
  obtain ⟨⟩ := hsame
  constructor <;> grind -linarith

theorem Later.undisturbed (f : Frame) (hsame : Undisturbed c c') : Later f c c' := by
  obtain ⟨⟩ := hsame
  constructor <;> grind -linarith

theorem advances_settle (h : Sound c) (hp : SettlePlaced c pc) :
    Advances c (.settle pc) (settleStep c a pc) := by
  cases pc with
  | finalize =>
    cases h
    obtain ⟨_, _, _, _, hslot, hphase⟩ := finalizeCustodiedSlot_cases c.slot a.finalize
    unfold settleStep
    constructor
    case sound => constructor <;> grind -linarith
    case later => constructor <;> grind -linarith
    all_goals grind -linarith
  | deliver =>
    have hsame := undisturbed_deliver c a .finalized
    unfold settleStep
    constructor
    case sound => exact h.undisturbed hsame
    case later => exact .undisturbed _ hsame
    all_goals grind -linarith [hsame.phase]
  | erase returns =>
    cases h
    unfold settleStep
    constructor
    case sound => constructor <;> grind -linarith
    case later => constructor <;> grind -linarith
    all_goals grind -linarith

/-! ## The pool -/

theorem finalizePoolSlot_cases (slot : Slot) (evidence : Slot.EvidenceAnswer)
    (answer : FinalizeAnswer) : (slot.phase = .reconciled ∨ slot.phase = .releaseInProgress) ∧
        slot.finalizePoolSlot evidence answer =
          ({ slot with poolReleaseLatched := true }, .deliver slot.reconciledConfirmation) ∨
      slot.phase = .finalized ∧
        slot.finalizePoolSlot evidence answer = (slot, .deliver .finalized) ∨
      slot.finalizePoolSlot evidence answer = (slot, .retain) ∧ slot.phase ≠ .finalized ∨
      (slot.phase = .enqueueInProgress ∨ slot.phase = .poolOwned) ∧
        ∃ receipt journal resultError found error phase, (slot.finalizePoolSlot evidence answer).1 =
            { slot with
              receipt := receipt, journal := journal, lastJournalError := error
              terminalEvidence := found, terminalResultError := resultError
              terminalEvidenceAcquired := true, phase := phase } ∧
          (found = slot.terminalEvidence ∨ found.isSome) ∧
          ((phase = slot.phase ∨ phase = .contractViolation ∨
              phase = .reconcileRequired ∧ found.isSome) ∧
              (slot.finalizePoolSlot evidence answer).2 = .retain ∨
            phase = .finalized ∧ ∃ recorded, found = some recorded ∧
              (slot.finalizePoolSlot evidence answer).2 = .recorded recorded) := by
  unfold finalizePoolSlot
  split
  · grind -linarith
  split
  · grind -linarith
  split
  · grind -linarith
  split
  · grind -linarith
  · cases hacquired : slot.acquireEvidence evidence with
    | mk slot' found =>
    unfold acquireEvidence at hacquired
    unfold finalizeOwned surrender finalize
    grind -linarith

/-- `Advances` for the frames that call the finalizer, whichever call they belong to. -/
structure PoolAdvances (c : Custody) (f : Frame) (pc : PoolPc) (r : PoolStep) : Prop where
  sound : Sound r.1
  later : Later f c r.1
  placed : ∀ pc', r.2.1 = .inl pc' → PoolPlaced r.1 pc' ∧ pc' ≠ .enter
  enters : ∀ pc', r.2.1 = .inl pc' → pc ≠ .enter ∨ c.pool = .finalizing false
  stays : c.slot.phase = .releaseInProgress → r.1.slot.phase = .releaseInProgress
  returns : ∀ released, r.2.1 = .inr released → c.slot.phase = .releaseInProgress →
    released = none ∨ released = some .released ∨ released = some .notFinalizing → LetGo r.1

theorem advances_pool (h : Sound c) (hp : PoolPlaced c pc) (hf : pc ≠ .enter → f.inside) :
    PoolAdvances c f pc (poolStep c a pc) := by
  cases pc with
  | enter =>
    cases h
    unfold poolStep enterStep
    constructor
    case sound => constructor <;> grind -linarith
    case later => constructor <;> grind -linarith
    case returns => rcases hpool : c.pool with - | - | (- | -) | - <;> grind -linarith
    all_goals grind -linarith
  | finalize =>
    cases h
    have hcases := finalizePoolSlot_cases c.slot a.evidence a.finalize
    unfold poolStep finalizeStep left
    constructor
    case sound => constructor <;> grind -linarith
    case later => constructor <;> grind -linarith
    all_goals grind -linarith
  | deliver late own confirmation =>
    have hsame := undisturbed_deliver c a confirmation
    unfold poolStep
    constructor
    case sound => exact h.undisturbed hsame
    case later => exact .undisturbed _ hsame
    all_goals grind -linarith [hsame.phase, hsame.pool, hsame.poolExpired]
  | decide late own =>
    cases h
    unfold poolStep
    constructor
    case sound => constructor <;> grind -linarith
    case later => constructor <;> grind -linarith
    all_goals grind -linarith
  | erase late decision =>
    cases h
    unfold poolStep
    constructor
    case sound => constructor <;> grind -linarith
    case later => constructor <;> grind -linarith
    all_goals grind -linarith
  | leave decision =>
    cases h
    unfold poolStep leaveStep
    constructor
    case sound => constructor <;> grind -linarith
    case later => constructor <;> grind -linarith
    all_goals grind -linarith

/-! ## The other calls -/

theorem advances_finish (h : Sound c) (hp : FinishPlaced c pc) :
    Advances c (.finish pc) (finishStep c a pc) := by
  cases pc with
  | didFinish =>
    cases h
    unfold finishStep
    constructor
    case sound => constructor <;> grind -linarith
    case later => constructor <;> grind -linarith
    all_goals grind -linarith
  | retry pc =>
    have hpool := advances_pool (f := .finish (.retry pc)) a h hp (by grind -linarith)
    unfold finishStep
    constructor
    case sound => exact hpool.sound
    case later => exact hpool.later
    case placed =>
        have := hpool.placed
        cases hnext : (poolStep c a pc).2.1 <;> grind -linarith
    case enters =>
        have := hpool.enters
        cases hnext : (poolStep c a pc).2.1 <;> grind -linarith
    all_goals cases hnext : (poolStep c a pc).2.1 <;> grind -linarith

theorem advances_retry (pc : RetryPc) (h : Sound c) : Advances c (.retry pc) (retryStep c pc) := by
  cases pc with
  | find =>
    unfold retryStep
    constructor
    case sound => grind -linarith
    case later => exact .of_eq (by grind -linarith)
    all_goals grind -linarith
  | check =>
    cases h
    unfold retryStep retryRefusal
    constructor
    case sound => constructor <;> grind -linarith
    case later => constructor <;> grind -linarith
    all_goals grind -linarith

/-- `Reconcile` does not confirm what the journal has of an operation that the pool has accepted
and of which the slot does not say so yet. -/
def Coordinated (c : Custody) (f : Frame) (a : Answers) : Prop :=
  f = .reconcile .check → c.pool ≠ .absent → c.slot.poolOwned = false →
    c.slot.phase = .reconcileRequired →
    ∀ evidence ∈ c.slot.terminalEvidence, (c.slot.verdict evidence a.reopened).confirmed = false

instance (c : Custody) (f : Frame) (a : Answers) : Decidable (Coordinated c f a) :=
  inferInstanceAs (Decidable (_ → _ → _ → _ → _))

theorem reconcile_cases (slot : Slot) (reopened : Reopened) :
    (slot.reconcile reopened).1 = slot ∧ (∃ result, (slot.reconcile reopened).2 = .leave result) ∨
      slot.phase = .reconcileRequired ∧ slot.terminalEvidenceAcquired ∧
        ∃ evidence, slot.terminalEvidence = some evidence ∧ ∃ status,
          status = slot.verdict evidence reopened ∧
          (status = .terminalConfirmed ∨ status = .interruptedConfirmed) ∧ status.confirmed ∧
          slot.reconcile reopened =
            ({ slot with reconciliationStatus := some status, phase := .reconciled },
              if slot.poolOwned then .leave ⟨status, true⟩ else .settle status) := by
  unfold reconcile reconcileRequired CopyOperationRunReceiptReconciliationStatus.confirmed
  grind -linarith

theorem advances_reconcile (h : Sound c) (hp : ReconcilePlaced c pc)
    (hc : Coordinated c (.reconcile pc) a) : Advances c (.reconcile pc) (reconcileStep c a pc) := by
  cases pc with
  | find =>
    unfold reconcileStep
    constructor
    case sound => grind -linarith
    case later => exact .of_eq (by grind -linarith)
    all_goals grind -linarith
  | check =>
    cases h
    have hcases := reconcile_cases c.slot a.reopened
    unfold reconcileStep
    unfold Coordinated at hc
    constructor
    case sound => constructor <;> grind -linarith
    case later => constructor <;> grind -linarith
    all_goals grind -linarith
  | deliver status =>
    unfold reconcileStep
    constructor
    case sound => exact h.undisturbed (undisturbed_deliver c a _)
    case later => exact .undisturbed _ (undisturbed_deliver c a _)
    all_goals grind -linarith [undisturbed_deliver, Undisturbed]
  | release status =>
    cases h
    unfold reconcileStep releaseSettled
    constructor
    case sound => constructor <;> grind -linarith
    case later => constructor <;> grind -linarith
    all_goals grind -linarith
  | leave result =>
    unfold reconcileStep
    constructor
    case sound => grind -linarith
    case later => exact .of_eq (by grind -linarith)
    all_goals grind -linarith

theorem advances_release (h : Sound c) (hp : ReleasePlaced c pc) :
    Advances c (.release pc) (releaseStep c a pc) := by
  cases pc with
  | find =>
    unfold releaseStep
    constructor
    case sound => grind -linarith
    case later => exact .of_eq (by grind -linarith)
    all_goals grind -linarith
  | check =>
    cases h
    unfold releaseStep beginRelease
    constructor
    case sound => constructor <;> grind -linarith
    case later => constructor <;> grind -linarith
    all_goals grind -linarith
  | deliver status =>
    unfold releaseStep
    constructor
    case sound => exact h.undisturbed (undisturbed_deliver c a _)
    case later => exact .undisturbed _ (undisturbed_deliver c a _)
    all_goals grind -linarith [undisturbed_deliver, Undisturbed]
  | pool pc =>
    have hpool := advances_pool (f := .release (.pool pc)) a h hp.2 (by grind -linarith)
    unfold releaseStep
    constructor
    case sound => exact hpool.sound
    case later => exact hpool.later
    case placed =>
        have := hpool.placed
        have := hpool.stays
        have := hpool.returns
        cases hnext : (poolStep c a pc).2.1 <;> grind -linarith
    case enters =>
        have := hpool.enters
        cases hnext : (poolStep c a pc).2.1 <;> grind -linarith
    all_goals cases hnext : (poolStep c a pc).2.1 <;> grind -linarith
  | latch released =>
    have hgone : releaseConfirmed released c.slot.poolReleaseLatched → LetGo c := by
      unfold releaseConfirmed
      grind -linarith
    unfold releaseStep
    dsimp only
    split_ifs
    · constructor
      case sound => exact h
      case later => exact .of_eq rfl
      all_goals grind -linarith
    · constructor
      case sound => exact h
      case later => exact .of_eq rfl
      all_goals grind -linarith
  | revert released =>
    cases h
    unfold releaseStep revertRelease
    constructor
    case sound => constructor <;> grind -linarith
    case later => constructor <;> grind -linarith
    all_goals grind -linarith
  | confirm =>
    cases h
    unfold releaseStep
    constructor
    case sound => constructor <;> grind -linarith
    case later => constructor <;> grind -linarith
    all_goals grind -linarith

/-! ## Every interleaving -/

/-- The roles of two frames. -/
structure Exclusive (f g : Frame) : Prop where
  submitting : f.submitting = true → g.submitting = false
  inside : f.inside = true → g.inside = false
  owning : f.owning = true → g.owning = false

theorem Exclusive.symm (h : Exclusive f g) : Exclusive g f := by
  obtain ⟨⟩ := h
  constructor <;> grind -linarith

theorem PoolPlaced.later (hp : PoolPlaced c pc) (hinside : f.inside → pc = .enter)
    (h : Later f c c') : PoolPlaced c' pc := by
  obtain ⟨⟩ := h
  cases pc <;> grind -linarith

theorem Placed.later (hp : Placed c g) (hfg : Exclusive f g) (h : Later f c c') : Placed c' g := by
  obtain ⟨hsubmitting, hinside, howning⟩ := hfg
  cases g with
  | submit pc =>
    obtain ⟨⟩ := h
    cases pc <;> grind -linarith
  | settle pc =>
    obtain ⟨⟩ := h
    cases pc <;> grind -linarith
  | finish pc =>
    cases pc with
    | didFinish => exact trivial
    | retry pc => exact PoolPlaced.later hp (by grind -linarith) h
  | retry pc => exact trivial
  | reconcile pc =>
    obtain ⟨⟩ := h
    cases pc <;> grind -linarith
  | release pc =>
    have hpool : ∀ pc', pc = .pool pc' → PoolPlaced c pc' → PoolPlaced c' pc' :=
      fun pc' hpc hplaced => PoolPlaced.later hplaced (by grind -linarith) h
    obtain ⟨⟩ := h
    cases pc <;> grind -linarith

theorem advances (h : Sound c) (hp : Placed c f) (hc : Coordinated c f a) :
    Advances c f (f.advance c a) := by
  cases f with
  | submit pc => exact advances_submit a h hp
  | settle pc => exact advances_settle a h hp
  | finish pc => exact advances_finish a h hp
  | retry pc => exact advances_retry pc h
  | reconcile pc => exact advances_reconcile a h hp hc
  | release pc => exact advances_release a h hp

/-- The next frame of one that advances is alone as well. -/
theorem Advances.exclusive (h : Advances c f r) (hf' : f' ∈ r.2.1) (hp : Placed c g)
    (hfg : Exclusive f g) : Exclusive f' g := by
  obtain ⟨hsubmitting, hinside, howning⟩ := hfg
  have hsubmits := h.submits f' hf'
  have henters := h.enters f' hf'
  have howns := h.owns f' hf'
  constructor
  · intro hrole
    obtain h | h := hsubmits hrole
    · exact hsubmitting h
    · cases g with
      | submit pc => cases pc <;> grind -linarith
      | _ => rfl
  · intro hrole
    obtain h | h := henters hrole
    · exact hinside h
    · cases g with
      | finish pc => rcases pc with _ | (_ | _ | _ | _ | _ | _) <;> grind -linarith
      | release pc => rcases pc with _ | _ | _ | (_ | _ | _ | _ | _ | _) | _ | _ | _  <;> grind -linarith
      | _ => rfl
  · intro hrole
    obtain h | h := howns hrole
    · exact howning h
    · cases g with
      | release pc => cases pc <;> grind -linarith
      | _ => rfl

/-- The invariant of the custodian with the frames of all threads. -/
structure Custodial (c : Custody) (frames : List Frame) : Prop where
  sound : Sound c
  placed : ∀ f ∈ frames, Placed c f
  alone : frames.Pairwise Exclusive

theorem Custodial.perm (h : Custodial c frames) (hperm : frames.Perm frames')
    : Custodial c frames' where
  sound := h.sound
  placed f hf := h.placed f (hperm.mem_iff.mpr hf)
  alone := (hperm.pairwise_iff fun h => h.symm).mp h.alone

theorem Custodial.call (h : Custodial c frames) (call : CustodianCall) :
    Custodial c (call.entry :: frames) := by
  refine ⟨h.sound, ?_, ?_⟩
  · intro f hf
    obtain rfl | hf := mem_cons.mp hf
    · cases call <;> exact trivial
    · exact h.placed f hf
  · refine pairwise_cons.mpr ⟨?_, h.alone⟩
    intro g hg
    cases call <;> constructor <;> intro hrole <;> cases hrole

theorem Custodial.advance (h : Custodial c (f :: others)) (a : Answers) (hc : Coordinated c f a) :
    Custodial (f.advance c a).1 ((f.advance c a).2.1.toList ++ others) := by
  have hadvances := advances a h.sound (h.placed f mem_cons_self) hc
  obtain ⟨halone, hothers⟩ := pairwise_cons.mp h.alone
  have hplaced : ∀ g ∈ others, Placed c g := fun g hg => h.placed g (mem_cons_of_mem f hg)
  refine ⟨hadvances.sound, ?_, ?_⟩
  · intro f' hf'
    obtain hf' | hf' := mem_append.mp hf'
    · exact hadvances.placed f' (Option.mem_toList.mp hf')
    · exact (hplaced f' hf').later (halone f' hf') hadvances.later
  · refine pairwise_append.mpr ⟨?_, hothers, ?_⟩
    · cases (f.advance c a).2.1 <;> simp
    · intro f' hf' g hg
      exact hadvances.exclusive (Option.mem_toList.mp hf') (hplaced g hg) (halone g hg)

theorem custodial_start (plan : OperationPlan) (terminalObserver : Bool) :
    Custodial (start plan terminalObserver) [] :=
  ⟨sound_start plan terminalObserver, by simp, .nil⟩

end WinCommander.Operations.Submission
