/-
  The terminal outcomes of a conditional copy operation, and the evidence made of them.

  Each item of the batch publishes what its provider said, in whatever order the transactions
  end, and `readEvidence` makes one terminal state of it. `Recorded` is what every publication
  keeps: a slot holds a result that its own context maps to.
-/
import WinCommander.Operations.Journal.CopyJournalMapper
import WinCommander.Operations.Journal.Machine
import WinCommander.Operations.Submission.Slot

namespace WinCommander.Operations.Submission

open Library List Bool
open Journal

/-! ## The terminal state -/

/-- Unresolved, or resolved with or without a result. -/
abbrev TerminalSlot := Option (Option OperationJournalItemResult)

/-- `ProviderConditionalCopyOperationTerminalState`. -/
structure TerminalState where
  slots : List TerminalSlot
  inconsistent : Bool := false

def TerminalState.initial (items : Nat) : TerminalState := { slots := List.replicate items none }

namespace TerminalState

/-- The status that stands for an item, absent when it ends without a result. -/
def publish (state : TerminalState) (index : Nat)
    (providerResult : ProviderConditionalCopyCommitResult)
    (context : ProviderConditionalCopyJournalContext) :
    TerminalState × Option OperationJournalItemStatus :=
  match state.slots[index]? with
  | none => ({ state with inconsistent := true }, none)
  | some (some result) => (state, result.map (·.status))
  | some none =>
    match mapCommitResult providerResult context with
    | .error .nonExecutionTerminal =>
      ({ state with slots := state.slots.set index (some none) }, none)
    | .error .inconsistentResult =>
      ({ slots := state.slots.set index (some none), inconsistent := true }, none)
    | .ok result =>
      ({ state with slots := state.slots.set index (some (some result)) }, some result.status)

def results (state : TerminalState) : List OperationJournalItemResult :=
  state.slots.filterMap Option.join

def hasResult (state : TerminalState) (status : OperationJournalItemStatus) : Bool :=
  state.results.any (·.status == status)

/-- An item ended without a result. -/
def resultless (state : TerminalState) : Bool := state.slots.any (· == some none)

/-- A failure and a cancellation cannot appear in one entry. -/
def reported (state : TerminalState) : List OperationJournalItemResult :=
  state.results.filter fun result =>
    !(state.hasResult .failed && state.hasResult .cancelled && result.status == .cancelled)

def terminal (state : TerminalState) : OperationJournalState :=
  if state.hasResult .failed then .failed
  else if state.hasResult .cancelled then .cancelled
  else .completed

def readEvidence (state : TerminalState) :
    Except CopyOperationTerminalResultError CopyOperationTerminalEvidence :=
  if state.inconsistent then .error .inconsistent
  else if state.slots.any (·.isNone) then .error .pending
  else if state.reported.isEmpty ||
      (state.resultless && !state.hasResult .failed && !state.hasResult .cancelled) then
    .error .inconsistent
  else .ok ⟨state.terminal, state.reported⟩

end TerminalState

/-! ## The items of a plan -/

/-- The journal contexts of a batch, which has an item for each source of its plan. -/
structure Batch (plan : OperationPlan) where
  contexts : List ProviderConditionalCopyJournalContext
  covers : contexts.length = plan.sources.length
  inRange : ∀ context ∈ contexts, context.itemIndex.toNat < plan.sources.length
  removes : ∀ context ∈ contexts, context.removesSource = removesSource plan.type
  increasing : contexts.Pairwise fun a b => a.itemIndex < b.itemIndex

/-- The item `index` of the batch ends with what its provider said. -/
def publishItem (contexts : List ProviderConditionalCopyJournalContext) (state : TerminalState)
    (item : Nat × ProviderConditionalCopyCommitResult) : TerminalState :=
  match contexts[item.1]? with
  | none => state
  | some context => (state.publish item.1 item.2 context).1

/-- The terminal state after the items have ended in some order. -/
def afterItems (contexts : List ProviderConditionalCopyJournalContext)
    (items : List (Nat × ProviderConditionalCopyCommitResult)) : TerminalState :=
  items.foldl (publishItem contexts) (.initial contexts.length)

/-! ## What the slots hold -/

/-- A slot holds a result that its context maps to. -/
def SlotOf (context : ProviderConditionalCopyJournalContext) (slot : TerminalSlot) : Prop :=
  ∀ item, slot = some (some item) → ∃ result, mapCommitResult result context = .ok item

def Recorded (contexts : List ProviderConditionalCopyJournalContext) (state : TerminalState) :
    Prop :=
  List.Forall₂ SlotOf contexts state.slots

theorem slotOf_none (context : ProviderConditionalCopyJournalContext) : SlotOf context none := by
  intro item h
  nomatch h

theorem slotOf_resultless (context : ProviderConditionalCopyJournalContext) :
    SlotOf context (some none) := by
  intro item h
  nomatch h

theorem recorded_initial (contexts : List ProviderConditionalCopyJournalContext) :
    Recorded contexts (.initial contexts.length) := by
  induction contexts with
  | nil => exact Forall₂.nil
  | cons context rest ih => exact Forall₂.cons (slotOf_none context) ih

variable {contexts : List ProviderConditionalCopyJournalContext} {slots : List TerminalSlot}
  {state : TerminalState} {plan : OperationPlan}

theorem Recorded.set (h : List.Forall₂ SlotOf contexts slots)
    (hcontext : contexts[index]? = some context) (hslot : SlotOf context slot) :
    List.Forall₂ SlotOf contexts (slots.set index slot) := by
  induction h generalizing index with
  | nil => exact Forall₂.nil
  | cons hhead htail ih =>
    cases index with
    | zero =>
      cases hcontext
      exact Forall₂.cons hslot htail
    | succ index => exact Forall₂.cons hhead (ih hcontext)

theorem Recorded.publishItem (h : Recorded contexts state)
    (item : Nat × ProviderConditionalCopyCommitResult) :
    Recorded contexts (publishItem contexts state item) := by
  obtain ⟨index, providerResult⟩ := item
  unfold Submission.publishItem
  cases hcontext : contexts[index]? with
  | none => exact h
  | some context =>
    show Recorded contexts (state.publish index providerResult context).1
    unfold TerminalState.publish
    split
    · exact h
    · exact h
    · cases hmap : mapCommitResult providerResult context with
      | error error =>
        cases error with
        | nonExecutionTerminal => exact Recorded.set h hcontext (slotOf_resultless context)
        | inconsistentResult => exact Recorded.set h hcontext (slotOf_resultless context)
      | ok result =>
        apply Recorded.set h hcontext
        intro item hitem
        cases hitem
        exact ⟨providerResult, hmap⟩

theorem recorded_afterItems (contexts : List ProviderConditionalCopyJournalContext)
    (items : List (Nat × ProviderConditionalCopyCommitResult)) :
    Recorded contexts (afterItems contexts items) := by
  unfold afterItems
  generalize hstate : TerminalState.initial contexts.length = state
  have h : Recorded contexts state := hstate ▸ recorded_initial contexts
  clear hstate
  induction items generalizing state with
  | nil => exact h
  | cons item rest ih => exact ih _ (h.publishItem item)

/-! ## Order and validity of the results -/

theorem Recorded.indices (h : List.Forall₂ SlotOf contexts slots) :
    ((slots.filterMap Option.join).map (·.itemIndex)).Sublist (contexts.map (·.itemIndex)) := by
  induction h with
  | nil => exact Sublist.refl _
  | @cons context slot contexts slots hhead htail ih =>
    match slot with
    | none => exact ih.cons _
    | some none => exact ih.cons _
    | some (some item) =>
      obtain ⟨result, hresult⟩ := hhead item rfl
      obtain ⟨-, publication, sync, status, error, recovery, removal, -, -, -, -, rfl⟩ :=
        mapped_cases hresult
      exact ih.cons_cons _

theorem Recorded.valid (batch : Batch plan) (h : Recorded batch.contexts state) :
    ∀ item ∈ state.results, validItemResult plan item := by
  intro item hitem
  obtain ⟨slot, hslot, hjoin⟩ := mem_filterMap.mp hitem
  obtain ⟨i, hi, hget⟩ := mem_iff_getElem.mp hslot
  have hlength := h.length_eq
  have hslotOf := (forall₂_iff_get.mp h).2 i (by omega) hi
  have hcontext := getElem_mem (l := batch.contexts) (by omega : i < batch.contexts.length)
  have hsome : slot = some (some item) := by
    cases slot with
    | none => nomatch hjoin
    | some result => exact congrArg some hjoin
  obtain ⟨result, hresult⟩ := hslotOf item (by rw [get_eq_getElem, hget, hsome])
  exact valid_of_mapped (batch.inRange _ hcontext) (batch.removes _ hcontext) hresult

theorem validOrderedFrom_of_pairwise (hvalid : ∀ result ∈ results, validItemResult plan result)
    (horder : results.Pairwise fun a b => a.itemIndex < b.itemIndex) (previous : Option UInt64)
    (hprevious : ∀ index ∈ previous, ∀ result ∈ results, index < result.itemIndex) :
    validOrderedFrom plan previous results := by
  induction results generalizing previous with
  | nil => rfl
  | cons result rest ih =>
    obtain ⟨hhead, hrest⟩ := pairwise_cons.mp horder
    have hbefore : previous.any (· ≥ result.itemIndex) = false := by
      cases previous with
      | none => rfl
      | some index =>
        have hlt := hprevious index rfl result mem_cons_self
        simpa using hlt
    unfold validOrderedFrom
    rw [hvalid result mem_cons_self, hbefore]
    apply ih (fun r hr => hvalid r (mem_cons_of_mem _ hr)) hrest
    intro index hindex r hr
    cases hindex
    exact hhead r hr

theorem Recorded.ordered (batch : Batch plan) (h : Recorded batch.contexts state) :
    state.results.Pairwise fun a b => a.itemIndex < b.itemIndex := by
  have hincreasing : (batch.contexts.map (·.itemIndex)).Pairwise (· < ·) :=
    pairwise_map.mpr batch.increasing
  exact pairwise_map.mp (hincreasing.sublist (Recorded.indices h))

/-- A batch without an item that lacks a result has one for each source. -/
theorem length_results (hresolved : slots.any (·.isNone) = false)
    (hresults : slots.any (· == some none) = false) :
    (slots.filterMap Option.join).length = slots.length := by
  induction slots with
  | nil => rfl
  | cons slot rest ih =>
    rw [any_cons, or_eq_false_iff] at hresolved hresults
    match slot with
    | none => exact absurd hresolved.1 (by decide)
    | some none => exact absurd hresults.1 (by decide)
    | some (some result) =>
      have hstep : (some (some result) :: rest).filterMap Option.join =
          result :: rest.filterMap Option.join := rfl
      rw [hstep, length_cons, length_cons, ih hresolved.2 hresults.2]

/-! ## The evidence -/

/-- When `readEvidence` reports. -/
theorem readEvidence_ok (h : state.readEvidence = .ok evidence) :
    evidence = ⟨state.terminal, state.reported⟩ ∧ state.slots.any (·.isNone) = false ∧
      (state.resultless && !state.hasResult .failed && !state.hasResult .cancelled) = false := by
  unfold TerminalState.readEvidence at h
  split at h
  · nomatch h
  · split at h
    · nomatch h
    · next hresolved =>
        split at h
        · nomatch h
        · next hreported =>
            rw [not_eq_true, or_eq_false_iff] at hreported
            rw [not_eq_true] at hresolved
            exact ⟨(Except.ok.inj h).symm, hresolved, hreported.2⟩

/-- A status that the evidence has. -/
theorem any_reported (state : TerminalState) (status : OperationJournalItemStatus)
    (hstatus : ¬ (state.hasResult .failed ∧ status = .cancelled)) :
    state.reported.any (·.status == status) = state.hasResult status := by
  unfold TerminalState.reported TerminalState.hasResult
  rw [any_filter, Bool.eq_iff_iff, any_eq_true, any_eq_true]
  constructor
  · rintro ⟨result, hmem, hboth⟩
    exact ⟨result, hmem, (and_eq_true _ _ ▸ hboth).2⟩
  · rintro ⟨result, hmem, hresult⟩
    refine ⟨result, hmem, ?_⟩
    rw [and_eq_true]
    refine ⟨?_, hresult⟩
    rw [beq_iff_eq] at hresult
    by_contra hdropped
    simp only [not_eq_true, not_eq_false', and_eq_true, beq_iff_eq] at hdropped
    exact hstatus ⟨hdropped.1.1, hresult ▸ hdropped.2⟩

/-- With a failure no cancellation is reported. -/
theorem any_reported_cancelled (state : TerminalState) (h : state.hasResult .failed) :
    state.reported.any (·.status == .cancelled) = false := by
  unfold TerminalState.reported
  rw [any_filter, any_eq_false]
  intro result hmem hboth
  have hcancelled : state.hasResult .cancelled :=
    any_eq_true.mpr ⟨result, hmem, (and_eq_true _ _ ▸ hboth).2⟩
  simp [h, hcancelled] at hboth

section

variable {plan : OperationPlan} (batch : Batch plan) {state : TerminalState}
  {evidence : CopyOperationTerminalEvidence}

section
variable (hrecorded : Recorded batch.contexts state)
include hrecorded

theorem reported_ordered : validOrderedItemResults plan state.reported := by
  have hsublist : state.reported.Sublist state.results := filter_sublist
  apply validOrderedFrom_of_pairwise
  · intro result hmem
    exact hrecorded.valid batch result (hsublist.subset hmem)
  · exact (hrecorded.ordered batch).sublist hsublist
  · intro index hindex
    nomatch hindex

/-- Without a failure and a cancellation every source has a result. -/
theorem length_reported (hresolved : state.slots.any (·.isNone) = false)
    (hresults : state.resultless = false) (hfailed : state.hasResult .failed = false) :
    state.reported.length = plan.sources.length := by
  have hall : state.reported = state.results := by
    unfold TerminalState.reported
    rw [hfailed]
    exact filter_eq_self.mpr fun _ _ => rfl
  have hlength : state.results.length = state.slots.length := length_results hresolved hresults
  rw [hall, hlength, ← hrecorded.length_eq, batch.covers]

theorem reported_lifecycle (h : state.readEvidence = .ok evidence) (id : OperationId)
    (time : TimePoint) :
    validEntryLifecycle ⟨id, plan, evidence.state, time, evidence.itemResults⟩ := by
  obtain ⟨rfl, hresolved, hresultless⟩ := readEvidence_ok h
  have hordered := reported_ordered batch hrecorded
  unfold validEntryLifecycle TerminalState.terminal
  rw [if_neg (by simpa using hordered)]
  unfold hasStatus
  cases hfailed : state.hasResult .failed with
  | true =>
    have hany := any_reported state .failed (by simp)
    have hnone := any_reported_cancelled state hfailed
    simp [hany, hnone, hfailed]
  | false =>
    have hany := any_reported state .failed (by simp)
    have hcancelledAny := any_reported state .cancelled (by simp [hfailed])
    cases hcancelled : state.hasResult .cancelled with
    | true => simp [hany, hcancelledAny, hfailed, hcancelled]
    | false =>
      have hresults : state.resultless = false := by
        simpa [hfailed, hcancelled] using hresultless
      have hlength := length_reported batch hrecorded hresolved hresults hfailed
      simp [hany, hcancelledAny, hfailed, hcancelled, hlength]

end

theorem terminal_legal (state : TerminalState) : legalTransition .running state.terminal := by
  unfold TerminalState.terminal
  split
  · rfl
  · split <;> rfl

/-- `Finalize` refuses the evidence for a full journal only. -/
theorem finalize_reported (hrecorded : Recorded batch.contexts state)
    (h : state.readEvidence = .ok evidence)
    (hreceipt : checkReceipt impl receipt .runReceiptAlreadyConsumed .invalidRunReceipt = .ok ())
    (hfound : findReceipt impl receipt .running .invalidRunReceipt = .ok found)
    (hplan : found.entry.plan = plan) (hfresh : found.entry.itemResults = [])
    (hroom : evidence.itemResults.length ≤ maxItemResults - totalResults impl.entries) :
    finalizeCandidate impl receipt evidence.itemResults evidence.state now =
      .ok (found.replace { found.entry with
        itemResults := evidence.itemResults
        state := evidence.state
        updatedAt := now }) := by
  have hlifecycle := reported_lifecycle batch hrecorded h found.entry.operationId now
  obtain ⟨rfl, -, -⟩ := readEvidence_ok h
  have hlegal := terminal_legal state
  have hordered := reported_ordered batch hrecorded
  rw [← hplan] at hlifecycle hordered
  unfold finalizeCandidate
  rw [hreceipt, hfound]
  simp [hlegal, hfresh, hordered, Nat.not_lt.mpr hroom, hlifecycle]

end

/-! ## Agreement -/

/-- The mapper and the journal agree on the items of a plan, one by one and in the evidence. -/
structure EvidenceAgrees (plan : OperationPlan) : Prop where
  valid : ∀ (result : ProviderConditionalCopyCommitResult)
    (context : ProviderConditionalCopyJournalContext) (item : OperationJournalItemResult),
    context.itemIndex.toNat < plan.sources.length →
    context.removesSource = removesSource plan.type →
    mapCommitResult result context = .ok item → validItemResult plan item = true
  refused : ∀ (result : ProviderConditionalCopyCommitResult)
    (context : ProviderConditionalCopyJournalContext),
    (∃ error, mapCommitResult result context = .error error) ↔
      ¬ CommitCoherent result ∨ result.failure = .aborted
  accepted : ∀ (batch : Batch plan) (items : List (Nat × ProviderConditionalCopyCommitResult))
    (evidence : CopyOperationTerminalEvidence),
    (afterItems batch.contexts items).readEvidence = .ok evidence →
    ∀ (impl : Impl) (receipt : OperationJournalRunReceipt) (found : Found) (now : TimePoint),
      checkReceipt impl receipt .runReceiptAlreadyConsumed .invalidRunReceipt = .ok () →
      findReceipt impl receipt .running .invalidRunReceipt = .ok found →
      found.entry.plan = plan → found.entry.itemResults = [] →
      evidence.itemResults.length ≤ maxItemResults - totalResults impl.entries →
      finalizeCandidate impl receipt evidence.itemResults evidence.state now =
        .ok (found.replace { found.entry with
          itemResults := evidence.itemResults
          state := evidence.state
          updatedAt := now })

theorem evidence_agrees (plan : OperationPlan) : EvidenceAgrees plan := by
  refine ⟨?_, ?_, ?_⟩
  · intro result context item hindex hremoves hmapped
    exact valid_of_mapped hindex hremoves hmapped
  · intro result context
    constructor
    · rintro ⟨error, herror⟩
      cases error with
      | inconsistentResult => exact Or.inl ((map_inconsistent_iff result context).mp herror)
      | nonExecutionTerminal =>
        exact Or.inr ((map_nonExecution_iff result context).mp herror).2
    · intro h
      by_cases hcoherent : CommitCoherent result
      · have habort := h.resolve_left (not_not_intro hcoherent)
        exact ⟨_, (map_nonExecution_iff result context).mpr ⟨hcoherent, habort⟩⟩
      · exact ⟨_, (map_inconsistent_iff result context).mpr hcoherent⟩
  · intro batch items evidence h impl receipt found now hreceipt hfound hplan hfresh hroom
    exact finalize_reported batch (recorded_afterItems batch.contexts items) h hreceipt hfound
      hplan hfresh hroom

end WinCommander.Operations.Submission
