/-
  What the reports of a run say: the observer is called once at most and with what is durable, the
  receipt is finalized once at most, and a finalizer that finds the slot gone does not retain.

  `Told` keeps the shared state and the reports so far together. It is kept by every critical
  section under `Sound` and `Placed`; `custody_safe` carries it over the interleavings in which
  `Reconcile` waits for `CommitEnqueue` (`Coordinated`).
-/
import WinCommander.Operations.Submission.CustodyInvariant

namespace WinCommander.Operations.Submission

open Library List Report Slot Custody Option
open Journal (OperationJournalState)

/-! ## What is said of reports -/

def Report.isRecorded : Report → Bool
  | .recorded _ => true
  | _ => false

def Report.isDelivered : Report → Bool
  | .delivered _ => true
  | _ => false

def recordings (past : List (Option Report)) : Nat := past.countP (·.any Report.isRecorded)

def deliveries (past : List (Option Report)) : Nat := past.countP (·.any Report.isDelivered)

/-- The outcome is what `Finalize` recorded or what reconciling established. -/
def Confirmed (past : List (Option Report)) (outcome : CopyOperationDurableTerminalOutcome) : Prop :=
  match outcome.confirmation with
  | .finalized => some (.recorded ⟨outcome.state, outcome.itemResults⟩) ∈ past
  | .reconciledTerminal =>
    some (.established .terminalConfirmed (some ⟨outcome.state, outcome.itemResults⟩)) ∈ past
  | .reconciledInterrupted =>
    outcome.state = .interrupted ∧ ∃ evidence, some (.established .interruptedConfirmed evidence) ∈ past

def DurablyCompleted (past : List (Option Report)) : Prop :=
  ∃ itemResults, some (.recorded ⟨.completed, itemResults⟩) ∈ past ∨
    some (.established .terminalConfirmed (some ⟨.completed, itemResults⟩)) ∈ past

/-- The claims about a run. A finalizer is late that is called when the slot has left the table. -/
structure Safe (past : List (Option Report)) : Prop where
  once : deliveries past ≤ 1
  confirmed : ∀ outcome, some (.delivered outcome) ∈ past → Confirmed past outcome
  recordedOnce : recordings past ≤ 1
  notStranded : ∀ decision, some (.answered true decision) ∈ past →
    decision ≠ .retain ∧ (decision = .release → DurablyCompleted past)

/-- The evidence that a report was about is still there, except for items that were moved out. -/
structure Remembered (slot : Slot) (evidence : CopyOperationTerminalEvidence) : Prop where
  state : slot.terminalEvidence.map (·.state) = some evidence.state
  whole : slot.terminalObserverDelivered = false → slot.terminalEvidence = some evidence

/-- The shared state and what was reported. -/
structure Told (c : Custody) (past : List (Option Report)) : Prop where
  recordings : recordings past = if c.slot.phase = .finalized then 1 else 0
  recorded : c.slot.phase = .finalized →
    ∃ evidence, some (.recorded evidence) ∈ past ∧ Remembered c.slot evidence
  established : ∀ status, c.slot.reconciliationStatus = some status →
    ∃ evidence, some (.established status (some evidence)) ∈ past ∧ Remembered c.slot evidence
  deliveries : deliveries past ≤ if c.slot.terminalObserverDelivered then 1 else 0
  confirmed : ∀ outcome, some (.delivered outcome) ∈ past → Confirmed past outcome
  answered : ∀ decision, some (.answered true decision) ∈ past →
    decision ≠ .retain ∧ (decision = .release → DurablyCompleted past)

variable {c : Custody} {past : List (Option Report)} {report : Option Report}

theorem Told.safe (h : Told c past) : Safe past := by
  refine ⟨?_, h.confirmed, ?_, h.answered⟩
  · have := h.deliveries
    split at this <;> omega
  · have := h.recordings
    split at this <;> omega

theorem Confirmed.mono (hsub : past ⊆ past') (h : Confirmed past outcome)
    : Confirmed past' outcome := by
  unfold Confirmed at h ⊢
  cases hconfirmation : outcome.confirmation with
  | finalized =>
    rw [hconfirmation] at h
    exact hsub h
  | reconciledTerminal =>
    rw [hconfirmation] at h
    exact hsub h
  | reconciledInterrupted =>
    rw [hconfirmation] at h
    obtain ⟨hstate, evidence, hevidence⟩ := h
    exact ⟨hstate, evidence, hsub hevidence⟩

theorem DurablyCompleted.mono (hsub : past ⊆ past') (h : DurablyCompleted past)
    : DurablyCompleted past' := by
  obtain ⟨itemResults, h⟩ := h
  exact ⟨itemResults, h.imp (hsub ·) (hsub ·)⟩

theorem mem_append_one : some r ∈ past ++ [report] ↔ some r ∈ past ∨ report = some r := by
  rw [mem_append, mem_singleton, eq_comm (a := report)]

/-- What a step has to say of what it reports, and of what was reported before. -/
theorem Told.append (h : Told c past)
    (hrecordings : (if c'.slot.phase = .finalized then 1 else 0) = (if c.slot.phase = .finalized then 1 else 0) + if report.any isRecorded then 1 else 0)
    (hremembered : c.slot.phase = .finalized ∨ c.slot.reconciliationStatus ≠ none → ∀ evidence, Remembered c.slot evidence → Remembered c'.slot evidence)
    (hrecorded : c'.slot.phase = .finalized → c.slot.phase = .finalized ∨ ∃ evidence, report = some (.recorded evidence) ∧ Remembered c'.slot evidence)
    (hestablished : ∀ status, c'.slot.reconciliationStatus = some status → c.slot.reconciliationStatus = some status ∨ ∃ evidence, report = some (.established status (some evidence)) ∧ Remembered c'.slot evidence)
    (hdeliveries : (if c.slot.terminalObserverDelivered then 1 else 0) + (if report.any isDelivered then 1 else 0) ≤ if c'.slot.terminalObserverDelivered then 1 else 0)
    (hconfirmed : ∀ outcome, report = some (.delivered outcome) → Confirmed past outcome)
    (hanswered : ∀ decision, report = some (.answered true decision) → decision ≠ .retain ∧ (decision = .release → DurablyCompleted past)) :
    Told c' (past ++ [report]) := by
  have hsub : past ⊆ past ++ [report] := subset_append_left _ _
  constructor
  · unfold Submission.recordings
    rw [countP_append, countP_singleton, hrecordings, ← h.recordings]
    rfl
  · intro hf
    obtain hf | ⟨evidence, hreport, hrem⟩ := hrecorded hf
    · obtain ⟨evidence, hmem, hrem⟩ := h.recorded hf
      exact ⟨evidence, hsub hmem, hremembered (.inl hf) evidence hrem⟩
    · exact ⟨evidence, mem_append_one.mpr (.inr hreport), hrem⟩
  · intro status hs
    obtain hs | ⟨evidence, hreport, hrem⟩ := hestablished status hs
    · obtain ⟨evidence, hmem, hrem⟩ := h.established status hs
      exact ⟨evidence, hsub hmem, hremembered (.inr (by rw [hs]; simp)) evidence hrem⟩
    · exact ⟨evidence, mem_append_one.mpr (.inr hreport), hrem⟩
  · have hbefore := h.deliveries
    unfold Submission.deliveries at hbefore ⊢
    rw [countP_append, countP_singleton]
    exact le_trans (Nat.add_le_add_right hbefore _) hdeliveries
  · intro outcome hmem
    obtain hmem | hreport := mem_append_one.mp hmem
    · exact (h.confirmed outcome hmem).mono hsub
    · exact (hconfirmed outcome hreport).mono hsub
  · intro decision hmem
    obtain hmem | hreport := mem_append_one.mp hmem
    · obtain ⟨hdecision, hrelease⟩ := h.answered decision hmem
      exact ⟨hdecision, fun hd => (hrelease hd).mono hsub⟩
    · obtain ⟨hdecision, hrelease⟩ := hanswered decision hreport
      exact ⟨hdecision, fun hd => (hrelease hd).mono hsub⟩

/-- Nothing changes that a report was about. -/
structure Quiet (slot slot' : Slot) : Prop where
  finalized : slot'.phase = .finalized ↔ slot.phase = .finalized
  status : slot'.reconciliationStatus = slot.reconciliationStatus
  evidence : slot.phase = .finalized ∨ slot.reconciliationStatus ≠ none →
    slot'.terminalEvidence = slot.terminalEvidence
  delivered : slot'.terminalObserverDelivered = slot.terminalObserverDelivered

variable (slot : Slot) (a : Answers)

theorem Quiet.refl : Quiet slot slot := ⟨.rfl, rfl, fun _ => rfl, rfl⟩

/-! ## Reports of one step -/

theorem Told.answers {decision : PoolTerminalFinalizationDecision} (h : Told c past)
    (hq : Quiet c.slot c'.slot)
    (hlate : late = true → decision ≠ .retain ∧ (decision = .release → DurablyCompleted past)) :
    Told c' (past ++ [some (.answered late decision)]) := by
  obtain ⟨hfinalized, hstatus, hevidence, hdelivered⟩ := hq
  refine h.append ?_ ?_ (fun hf => .inl (hfinalized.mp hf))
    (fun status hs => .inl (hstatus ▸ hs)) ?_ ?_ ?_
  · simp [hfinalized, isRecorded]
  · intro hknown evidence hrem
    exact ⟨hevidence hknown ▸ hrem.state, hdelivered ▸ hevidence hknown ▸ hrem.whole⟩
  · simp [hdelivered, isDelivered]
  · intro outcome ho
    cases ho
  · intro decision' hd
    cases hd
    exact hlate rfl

theorem Told.quiet (h : Told c past) (hq : Quiet c.slot c'.slot)
    (hreturned : ∀ r ∈ report, r.isReturned) : Told c' (past ++ [report]) := by
  obtain ⟨hfinalized, hstatus, hevidence, hdelivered⟩ := hq
  refine h.append ?_ ?_ (fun hf => .inl (hfinalized.mp hf))
    (fun status hs => .inl (hstatus ▸ hs)) ?_ ?_ ?_
  · have hrecorded : report.any isRecorded = false := by
      rcases report with - | (_ | _ | _ | _ | _ | _ | _) <;>
        first | rfl | exact nomatch hreturned _ rfl
    simp [hrecorded, hfinalized]
  · intro hknown evidence hrem
    exact ⟨hevidence hknown ▸ hrem.state, hdelivered ▸ hevidence hknown ▸ hrem.whole⟩
  · have hdelivery : report.any isDelivered = false := by
      rcases report with - | (_ | _ | _ | _ | _ | _ | _) <;>
        first | rfl | exact nomatch hreturned _ rfl
    simp [hdelivery, hdelivered]
  · rintro outcome rfl
    exact nomatch hreturned _ rfl
  · rintro decision rfl
    exact nomatch hreturned _ rfl

@[simp] theorem moveItemResults_phase (confirmation) :
    (slot.moveItemResults confirmation).phase = slot.phase := by
  unfold moveItemResults
  split <;> rfl

@[simp] theorem moveItemResults_status (confirmation) :
    (slot.moveItemResults confirmation).reconciliationStatus = slot.reconciliationStatus := by
  unfold moveItemResults
  split <;> rfl

@[simp] theorem moveItemResults_state (confirmation) :
    (slot.moveItemResults confirmation).terminalEvidence.map (·.state) =
      slot.terminalEvidence.map (·.state) := by
  unfold moveItemResults
  split
  · rfl
  · cases slot.terminalEvidence <;> rfl

theorem Told.confirms (h : Told c past) (hwaits : c.slot.terminalObserverDelivered = false)
    (hconfirmed : c.slot.confirmedEvidence confirmation = some evidence) (planId : Bytes) :
    Confirmed past ⟨planId, evidence.state, evidence.itemResults, confirmation⟩ := by
  cases confirmation with
  | finalized =>
    simp only [confirmedEvidence] at hconfirmed
    split at hconfirmed
    · cases hconfirmed
    next hphase =>
    obtain ⟨recorded, hmem, hrem⟩ := h.recorded (not_not.mp hphase)
    have heq := (hrem.whole hwaits).symm.trans hconfirmed
    rw [some.injEq] at heq
    subst heq
    exact hmem
  | reconciledTerminal =>
    simp only [confirmedEvidence] at hconfirmed
    split at hconfirmed
    · cases hconfirmed
    next hphase =>
    rw [not_or, not_not] at hphase
    obtain ⟨established, hmem, hrem⟩ := h.established _ hphase.2
    have heq := (hrem.whole hwaits).symm.trans hconfirmed
    rw [some.injEq] at heq
    subst heq
    exact hmem
  | reconciledInterrupted =>
    simp only [confirmedEvidence] at hconfirmed
    split at hconfirmed
    · cases hconfirmed
    next hphase =>
    rw [not_or, not_not] at hphase
    obtain ⟨established, hmem, -⟩ := h.established _ hphase.2
    cases hconfirmed
    exact ⟨rfl, _, hmem⟩

/-- The observer is called with what was confirmed, or not. -/
theorem Told.deliver (h : Told c past) (a : Answers)
    (confirmation : CopyOperationDurableTerminalConfirmation) :
    Told (deliver c a confirmation).1 (past ++ [(deliver c a confirmation).2]) := by
  unfold Submission.deliver deliverTerminalOutcome
  dsimp only
  split
  · exact h.quiet (.refl _) (by simp)
  next hready =>
  rw [Bool.or_eq_true, not_or, Bool.not_eq_true] at hready
  cases hconfirmed : c.slot.confirmedEvidence confirmation with
  | none => exact h.quiet (.refl _) (by simp)
  | some evidence =>
    have hreport : ∀ report, (if a.built then some (CopyOperationDurableTerminalOutcome.mk
        c.slot.terminalOutcomePlanId evidence.state evidence.itemResults confirmation)
        else none).map delivered = some report → report = .delivered
          ⟨c.slot.terminalOutcomePlanId, evidence.state, evidence.itemResults, confirmation⟩ := by
      intro report hr
      split at hr
      · exact (some.inj hr).symm
      · cases hr
    refine h.append ?_ ?_ ?_ ?_ ?_ ?_ ?_
    · cases a.built <;> simp [isRecorded]
    · intro _ remembered hrem
      refine ⟨?_, fun hflag => nomatch hflag⟩
      exact (moveItemResults_state _ _).trans hrem.state
    · intro hf
      exact .inl (by simpa using hf)
    · intro status hs
      exact .inl (by simpa using hs)
    · cases a.built <;> simp [isDelivered, hready.1]
    · intro outcome ho
      have := hreport _ ho
      cases this
      exact h.confirms hready.1 hconfirmed _
    · intro decision hd
      exact nomatch hreport _ hd

/-- The pool is told what a finalizer decides of an outcome that is durable. -/
theorem Told.decision (h : Told c past) (hphase : c.slot.phase = .finalized) :
    c.slot.releaseDecision ≠ .retain ∧
      (c.slot.releaseDecision = .release → DurablyCompleted past) := by
  obtain ⟨evidence, hmem, hrem⟩ := h.recorded hphase
  obtain ⟨found, hfound, hstate⟩ := map_eq_some_iff.mp hrem.state
  unfold releaseDecision
  rw [hfound]
  constructor
  · grind -linarith
  · intro hd
    have hcompleted : found.state = .completed := by grind -linarith
    refine ⟨evidence.itemResults, .inl ?_⟩
    rw [hcompleted] at hstate
    rw [hstate]
    exact hmem

/-! ## Every critical section -/

section
variable (h : Told c past)
include h

theorem told_submit (hs : Sound c) (hp : SubmitPlaced c pc) :
    Told (submitStep c a pc).1 (past ++ [(submitStep c a pc).2.2]) := by
  cases hs
  cases pc with
  | reserve =>
    refine h.quiet ?_ ?_ <;> unfold submitStep
    · constructor <;> grind -linarith
    · grind -linarith
  | arm =>
    refine h.quiet ?_ ?_ <;> unfold submitStep arm
    · constructor <;> grind -linarith
    · grind -linarith
  | release =>
    refine h.quiet ?_ ?_ <;> unfold submitStep
    · constructor <;> grind -linarith
    · grind -linarith
  | prepare =>
    refine h.quiet ?_ ?_ <;> unfold submitStep beginEnqueue
    · constructor <;> grind -linarith
    · grind -linarith
  | before result terminalState =>
    refine h.quiet ?_ ?_ <;>
      unfold submitStep settleAfter finalizeBeforeEnqueue acquireBefore
    · constructor <;> grind -linarith
    · grind -linarith
  | enqueue =>
    refine h.quiet ?_ ?_ <;> unfold submitStep enqueueStep
    · constructor <;> grind -linarith
    · grind -linarith
  | commit =>
    refine h.quiet ?_ ?_ <;> unfold submitStep commitEnqueue
    · constructor <;> grind -linarith
    · grind -linarith
  | reject enqueued =>
    refine h.quiet ?_ ?_ <;>
      unfold submitStep settleAfter rejectEnqueue acquireBefore
    · constructor <;> grind -linarith
    · grind -linarith

theorem told_settle (hs : Sound c) (hp : SettlePlaced c pc) :
    Told (settleStep c a pc).1 (past ++ [(settleStep c a pc).2.2]) := by
  cases pc with
  | finalize =>
    cases hs
    obtain ⟨_, _, _, _, hslot, hphase⟩ := finalizeCustodiedSlot_cases c.slot a.finalize
    unfold settleStep
    dsimp only
    split
    · have hfound : c.slot.terminalEvidence.isSome := by grind -linarith
      obtain ⟨evidence, hevidence⟩ := isSome_iff_exists.mp hfound
      rw [hevidence]
      refine h.append ?_ ?_ ?_ ?_ ?_ ?_ ?_
      · grind -linarith [isRecorded]
      · intro hknown
        exfalso
        grind -linarith
      · intro hf
        exact .inr ⟨evidence, rfl, by grind -linarith, fun _ => by grind -linarith⟩
      · grind -linarith
      · grind -linarith [isDelivered]
      · simp
      · simp
    · refine h.quiet ?_ ?_
      · constructor <;> grind -linarith
      · grind -linarith
  | deliver => exact h.deliver a _
  | erase returns => exact h.quiet (.refl _) hp.2

theorem told_pool (hs : Sound c) (hp : PoolPlaced c pc) :
    Told (poolStep c a pc).1 (past ++ [(poolStep c a pc).2.2]) := by
  cases pc with
  | enter =>
    refine h.quiet ?_ ?_ <;> unfold poolStep enterStep
    · constructor <;> grind -linarith
    · grind -linarith
  | finalize =>
    cases hs
    have hcases := finalizePoolSlot_cases c.slot a.evidence a.finalize
    unfold poolStep finalizeStep
    dsimp only
    split
    · refine h.answers ?_ ?_
      · constructor <;> grind -linarith
      · grind -linarith [left]
    · refine h.quiet ?_ (by simp)
      constructor <;> grind -linarith
    · next evidence hnext =>
      refine h.append ?_ ?_ ?_ ?_ ?_ ?_ ?_
      · grind -linarith [isRecorded]
      · intro hknown
        exfalso
        grind -linarith
      · intro hf
        exact .inr ⟨evidence, rfl, by grind -linarith, fun _ => by grind -linarith⟩
      · grind -linarith
      · grind -linarith [isDelivered]
      · simp
      · simp
  | deliver late own confirmation => exact h.deliver a _
  | decide late own =>
    unfold poolStep
    dsimp only
    split
    · exact h.quiet (.refl _) (by simp)
    · exact h.answers (.refl _) fun hlate => h.decision (hp.2.2 (.inl hlate))
  | erase late decision =>
    obtain ⟨-, hphase, rfl⟩ := hp
    exact h.answers (.refl _) fun _ => h.decision hphase
  | leave decision =>
    refine h.quiet ?_ ?_ <;> unfold poolStep leaveStep
    · constructor <;> grind -linarith
    · grind -linarith

theorem told_finish (hs : Sound c) (hp : FinishPlaced c pc) :
    Told (finishStep c a pc).1 (past ++ [(finishStep c a pc).2.2]) := by
  cases pc with
  | didFinish =>
    refine h.quiet ?_ ?_ <;> unfold finishStep
    · constructor <;> grind -linarith
    · grind -linarith
  | retry pc => exact told_pool a h hs hp

end

theorem told_retry (pc : RetryPc) (h : Told c past) :
    Told (retryStep c pc).1 (past ++ [(retryStep c pc).2.2]) := by
  refine h.quiet ?_ ?_ <;> unfold retryStep
  · constructor <;> grind -linarith
  · grind -linarith

theorem told_reconcile (h : Told c past) (hs : Sound c) :
    Told (reconcileStep c a pc).1 (past ++ [(reconcileStep c a pc).2.2]) := by
  cases pc with
  | find =>
    refine h.quiet ?_ ?_ <;> unfold reconcileStep
    · constructor <;> grind -linarith
    · grind -linarith
  | check =>
    cases hs
    unfold reconcileStep
    dsimp only
    rcases reconcile_cases c.slot a.reopened with
      ⟨hslot, result, hnext⟩ | ⟨hphase, -, evidence, hevidence, status, -, -, -, hreconcile⟩
    · rw [hnext, hslot]
      refine h.quiet (.refl _) ?_
      grind -linarith
    · have hreport : ∀ (r : FrameStep),
          r.1.slot = { c.slot with reconciliationStatus := some status, phase := .reconciled } →
            r.2.2 = some (.established status (some evidence)) → Told r.1 (past ++ [r.2.2]) := by
        intro r hslot hr
        rw [hr]
        refine h.append ?_ ?_ ?_ ?_ ?_ ?_ ?_
        · grind -linarith [isRecorded]
        · intro hknown
          exfalso
          grind -linarith
        · grind -linarith
        · intro status' hs
          rw [hslot] at hs
          cases hs
          exact .inr ⟨evidence, rfl, by grind -linarith, fun _ => by grind -linarith⟩
        · grind -linarith [isDelivered]
        · simp
        · simp
      rw [hreconcile]
      refine hreport _ ?_ ?_
      · grind -linarith
      · grind -linarith
  | deliver status => exact h.deliver a _
  | release status =>
    refine h.quiet ?_ ?_ <;> unfold reconcileStep releaseSettled
    · constructor <;> grind -linarith
    · grind -linarith
  | leave result => exact h.quiet (.refl _) (by simp [reconcileStep, isReturned])

theorem told_release (h : Told c past) (hs : Sound c) (hp : ReleasePlaced c pc) :
    Told (releaseStep c a pc).1 (past ++ [(releaseStep c a pc).2.2]) := by
  cases pc with
  | find =>
    refine h.quiet ?_ ?_ <;> unfold releaseStep
    · constructor <;> grind -linarith
    · grind -linarith
  | check =>
    refine h.quiet ?_ ?_ <;> unfold releaseStep beginRelease
    · constructor <;> grind -linarith
    · grind -linarith
  | deliver status => exact h.deliver a _
  | pool pc => exact told_pool a h hs hp.2
  | latch released => exact h.quiet (.refl _) (by simp [releaseStep])
  | revert released =>
    refine h.quiet ?_ (by simp [releaseStep, isReturned])
    unfold releaseStep revertRelease
    constructor <;> grind -linarith
  | confirm =>
    refine h.quiet ?_ (by simp [releaseStep])
    unfold releaseStep
    constructor <;> grind -linarith

theorem told_advance (h : Told c past) (hs : Sound c) (hp : Placed c f) :
    Told (f.advance c a).1 (past ++ [(f.advance c a).2.2]) := by
  cases f with
  | submit pc => exact told_submit a h hs hp
  | settle pc => exact told_settle a h hs hp
  | finish pc => exact told_finish a h hs hp
  | retry pc => exact told_retry pc h
  | reconcile pc => exact told_reconcile a h hs
  | release pc => exact told_release a h hs hp

/-! ## Every run -/

theorem told_start (plan : OperationPlan) (terminalObserver : Bool) :
    Told (start plan terminalObserver) [] := by
  constructor <;> simp [start, new, recordings, deliveries]

theorem custody_kept : custodian.Kept Coordinated fun c frames past =>
    Custodial c frames ∧ Told c past where
  reorder hperm h := ⟨h.1.perm hperm, h.2⟩
  stay h := ⟨h.1, h.2.quiet (.refl _) (by simp)⟩
  call call h := ⟨h.1.call call, h.2.quiet (.refl _) (by simp)⟩
  advance answers h hc _ :=
    ⟨h.1.advance answers hc, told_advance answers h.2 h.1.sound (h.1.placed _ mem_cons_self)⟩

/-- From every start, in every interleaving in which reconciling waits for `CommitEnqueue`. -/
theorem custody_safe (plan : OperationPlan) (terminalObserver : Bool) (callStacks : List (List Frame))
    (hidle : ∀ stack ∈ callStacks, stack = []) (events : List (ThreadEvent CustodianCall Answers))
    (hmeets : Meets custodian.step (ThreadProgram.Advancing Coordinated)
      ⟨start plan terminalObserver, callStacks⟩ events) :
    Safe (runAll custodian.step ⟨start plan terminalObserver, callStacks⟩ events).2 := by
  have hstart : Custodial (start plan terminalObserver) callStacks.flatten := by
    rw [flatten_eq_nil_iff.mpr hidle]
    exact custodial_start plan terminalObserver
  exact (custody_kept.run events hmeets (ThreadProgram.wellNested_idle hidle)
    ⟨hstart, told_start plan terminalObserver⟩).2.safe

/-- The operation completes; how the journal answers is the rest. -/
def completing (finalize : FinalizeAnswer) : Answers where
  evidence := .acquired ⟨.completed, []⟩
  finalize := finalize
  reopened := ⟨true, some ⟨⟨1, OperationId.positive_one⟩, copyPlan, .completed, 0, []⟩⟩

theorem custody_safe_completed : Safe (runAll custodian.step ⟨start copyPlan true, [[], []]⟩
      ([.call 0 .submit] ++ replicate 5 (.advance 0 (completing .stored)) ++
        [.call 1 .operationDidFinish] ++ replicate 7 (.advance 1 (completing .stored)))).2 := by
  have h := custody_safe copyPlan true [[], []] (by decide)
    ([.call 0 .submit] ++ replicate 5 (.advance 0 (completing .stored)) ++
      [.call 1 .operationDidFinish] ++ replicate 7 (.advance 1 (completing .stored)))
    (by decide +kernel)
  exact h

/-- `Finalize` of an operation that ends early is uncertain, and the operation is reconciled before
`CommitEnqueue`: its slot leaves the table and the pool retains it from then on. -/
theorem custody_strands :
    ¬ ∀ (plan : OperationPlan) (terminalObserver : Bool) (callStacks : List (List Frame))
      (events : List (ThreadEvent CustodianCall Answers)), (∀ stack ∈ callStacks, stack = []) →
      Safe (runAll custodian.step ⟨start plan terminalObserver, callStacks⟩ events).2 := by
  intro h
  let answers := completing (.refused (Journal.failure .durabilityUncertain))
  have hsafe := h copyPlan true [[], [], []]
    ([.call 0 .submit] ++ replicate 4 (.advance 0 answers) ++
      [.call 1 .operationDidFinish] ++ replicate 4 (.advance 1 answers) ++
      [.call 2 .reconcile] ++ replicate 5 (.advance 2 answers) ++ [.advance 0 answers] ++
      [.call 1 .retryFinalization] ++ replicate 3 (.advance 1 answers)) (by decide)
  exact (hsafe.notStranded .retain (by decide +kernel)).1 rfl

end WinCommander.Operations.Submission
