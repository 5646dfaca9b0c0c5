/-
  `OperationRetryPolicy`: which finished items may be attempted again.

  The policy asks for an inspection when the publication at the destination is unknown. An item
  of a plan that removes its source has its effect on the other axis, which the policy does not
  look at: `retrySafe_iff` says that the known removals are what its answers are safe for.
-/
import WinCommander.Operations.Journal.Entry

namespace WinCommander.Operations.Journal

open Library Bool

inductive OperationRetryRefusal where
  | none | alreadyDone | deliberatelySkipped | notRetryable | needsInspection
deriving DecidableEq

structure OperationRetryDecision where
  itemIndex : UInt64
  refusal : OperationRetryRefusal
deriving DecidableEq

def OperationRetryDecision.retryable (decision : OperationRetryDecision) : Bool :=
  decision.refusal == .none

def couldDifferOnASecondAttempt : OperationJournalItemError → Bool
  | .sourceChanged | .destinationChanged | .read | .write | .commit | .metadata | .cleanup
  | .cancelled => true
  | .permissionDenied | .unknown | .none | .outside _ => false

/-- The check after the status. -/
def decidePublication (result : OperationJournalItemResult) : OperationRetryDecision :=
  if result.destinationPublication = .unknown then ⟨result.itemIndex, .needsInspection⟩
  else ⟨result.itemIndex, .none⟩

def decideOperationItemRetry (result : OperationJournalItemResult) : OperationRetryDecision :=
  match result.status with
  | .succeeded => ⟨result.itemIndex, .alreadyDone⟩
  | .skipped => ⟨result.itemIndex, .deliberatelySkipped⟩
  | .failed =>
    if !couldDifferOnASecondAttempt result.error then ⟨result.itemIndex, .notRetryable⟩
    else decidePublication result
  | .cancelled | .outside _ => decidePublication result

def decideOperationRetry (results : List OperationJournalItemResult) :
    List OperationRetryDecision :=
  results.map decideOperationItemRetry

def operationHasRetryableItems (results : List OperationJournalItemResult) : Bool :=
  results.any fun result => (decideOperationItemRetry result).retryable

/-! ## Unknown effects -/

/-- The outcome on the plan's own axis is not known. -/
def EffectUnknown (plan : OperationPlan) (result : OperationJournalItemResult) : Prop :=
  (publishesDestination plan.type = true ∧ result.destinationPublication = .unknown) ∨
  (removesSource plan.type = true ∧ result.sourceRemoval = .unknown)

/-- The axes of a valid result, each at rest unless its plan uses it. -/
structure AxesOk (plan : OperationPlan) (result : OperationJournalItemResult) : Prop where
  destination : publishesDestination plan.type = false →
    result.destinationPublication = .notPublished
  source : removesSource plan.type = false → result.sourceRemoval = .notRemoved
  status : validStatus (publishesDestination plan.type) (removesSource plan.type) result = true

variable {plan : OperationPlan} {result : OperationJournalItemResult}

theorem axesOk_of_valid (h : validItemResult plan result) : AxesOk plan result := by
  unfold validItemResult at h
  dsimp only at h
  split at h
  · cases h
  · split at h
    · cases h
    · next hdestination =>
        split at h
        · cases h
        · next hsource =>
            split at h
            · cases h
            · split at h
              · cases h
              · simp only [and_eq_true] at h
                refine ⟨?_, ?_, h.2⟩
                · intro hoff
                  simpa [hoff] using hdestination
                · intro hoff
                  simpa [hoff] using hsource

/-- Axes at rest are known. -/
theorem known_of_rest (hpublication : result.destinationPublication = .notPublished)
    (hremoval : result.sourceRemoval = .notRemoved) :
    ¬ (result.destinationPublication = .unknown ∨ result.sourceRemoval = .unknown) := by
  rw [hpublication, hremoval]
  decide

/-- Only a failed commit leaves an effect unknown. -/
theorem failed_of_unknown (h : AxesOk plan result)
    (hunknown : result.destinationPublication = .unknown ∨ result.sourceRemoval = .unknown) :
    result.status = .failed ∧ result.error = .commit := by
  have hstatus := h.status
  unfold validStatus at hstatus
  cases hs : result.status with
  | succeeded =>
    simp only [hs, and_eq_true, beq_iff_eq] at hstatus
    obtain ⟨⟨⟨⟨-, hpublication⟩, hremoval⟩, -⟩, -⟩ := hstatus
    rcases hunknown with hu | hu
    · rw [hu] at hpublication
      split at hpublication <;> cases hpublication
    · rw [hu] at hremoval
      split at hremoval <;> cases hremoval
  | skipped =>
    simp only [hs, and_eq_true, beq_iff_eq] at hstatus
    obtain ⟨⟨⟨-, hpublication⟩, hremoval⟩, -⟩ := hstatus
    exact absurd hunknown (known_of_rest hpublication hremoval)
  | cancelled =>
    simp only [hs, and_eq_true, beq_iff_eq] at hstatus
    obtain ⟨⟨⟨-, hpublication⟩, hremoval⟩, -⟩ := hstatus
    exact absurd hunknown (known_of_rest hpublication hremoval)
  | outside value =>
    simp only [hs] at hstatus
    cases hstatus
  | failed =>
    refine ⟨rfl, ?_⟩
    simp only [hs] at hstatus
    unfold validFailed at hstatus
    rcases hunknown with hu | hu <;> simp [hu] at hstatus <;> grind

/-- What the policy answers to an unknown effect depends on the destination alone. -/
theorem decide_of_unknown (h : AxesOk plan result)
    (hunknown : result.destinationPublication = .unknown ∨ result.sourceRemoval = .unknown) :
    decideOperationItemRetry result = decidePublication result := by
  obtain ⟨hstatus, herror⟩ := failed_of_unknown h hunknown
  unfold decideOperationItemRetry
  rw [hstatus, herror]
  rfl

/-- A removal is unknown for plans that remove their sources only, and their destination is at
    rest. -/
theorem rest_of_removal_unknown (h : AxesOk plan result)
    (hunknown : result.sourceRemoval = .unknown) :
    removesSource plan.type ∧ result.destinationPublication = .notPublished := by
  have hremoves : removesSource plan.type := by
    by_contra hoff
    have hrest := h.source (by simpa using hoff)
    rw [hunknown] at hrest
    cases hrest
  refine ⟨hremoves, h.destination ?_⟩
  cases htype : plan.type <;> rw [htype] at hremoves <;>
    first | rfl | cases hremoves

/-! ## Safety -/

/-- No item whose effect is unknown is offered again, alone or in its list. -/
structure RetrySafe (plan : OperationPlan) (results : List OperationJournalItemResult) : Prop where
  item : ∀ result ∈ results, EffectUnknown plan result →
    (decideOperationItemRetry result).refusal = .needsInspection
  listed : ∀ (i : Nat) (result : OperationJournalItemResult), results[i]? = some result →
    EffectUnknown plan result →
      (decideOperationRetry results)[i]? = some ⟨result.itemIndex, .needsInspection⟩
  offered : operationHasRetryableItems results = true →
    ∃ result ∈ results, ¬ EffectUnknown plan result ∧
      (decideOperationItemRetry result).retryable = true

/-- A refused item asks for its inspection under its own index. -/
theorem needsInspection_of_publication (h : AxesOk plan result)
    (hunknown : result.destinationPublication = .unknown) :
    decideOperationItemRetry result = ⟨result.itemIndex, .needsInspection⟩ := by
  rw [decide_of_unknown h (Or.inl hunknown)]
  unfold decidePublication
  rw [if_pos hunknown]

theorem retryable_of_removal (h : AxesOk plan result) (hunknown : result.sourceRemoval = .unknown) :
    decideOperationItemRetry result = ⟨result.itemIndex, .none⟩ := by
  obtain ⟨-, hrest⟩ := rest_of_removal_unknown h hunknown
  rw [decide_of_unknown h (Or.inr hunknown)]
  unfold decidePublication
  rw [if_neg (by rw [hrest]; decide)]

/-- The answers are safe for the valid results of a plan exactly when every removal is known. -/
theorem retrySafe_iff (plan : OperationPlan) (results : List OperationJournalItemResult)
    (hvalid : ∀ result ∈ results, validItemResult plan result = true) :
    RetrySafe plan results ↔ ∀ result ∈ results, result.sourceRemoval ≠ .unknown := by
  constructor
  · intro hsafe result hmem hunknown
    have haxes := axesOk_of_valid (hvalid result hmem)
    have hremoves := (rest_of_removal_unknown haxes hunknown).1
    have hrefused := hsafe.item result hmem (Or.inr ⟨hremoves, hunknown⟩)
    rw [retryable_of_removal haxes hunknown] at hrefused
    exact absurd hrefused (by simp)
  · intro hknown
    have hanswer : ∀ result ∈ results, EffectUnknown plan result →
        decideOperationItemRetry result = ⟨result.itemIndex, .needsInspection⟩ := by
      intro result hmem hunknown
      rcases hunknown with ⟨-, hunknown⟩ | ⟨-, hunknown⟩
      · exact needsInspection_of_publication (axesOk_of_valid (hvalid result hmem)) hunknown
      · exact absurd hunknown (hknown result hmem)
    refine ⟨?_, ?_, ?_⟩
    · intro result hmem hunknown
      rw [hanswer result hmem hunknown]
    · intro i result hget hunknown
      have hmem : result ∈ results := List.mem_of_getElem? hget
      unfold decideOperationRetry
      rw [List.getElem?_map, hget, Option.map_some, hanswer result hmem hunknown]
    · intro hoffered
      obtain ⟨result, hmem, hretryable⟩ := List.any_eq_true.mp hoffered
      refine ⟨result, hmem, ?_, hretryable⟩
      intro hunknown
      rw [hanswer result hmem hunknown] at hretryable
      exact absurd hretryable (by simp [OperationRetryDecision.retryable])

/-- Move `/a` to the trash. -/
def trashPlan : OperationPlan where
  id := ascii "plan"
  type := .trash
  sources := [⟨ascii "native", ascii "/a"⟩]
  destination := none
  conflictPolicy := none
  createdAt := 0
  valid := by decide

/-- The move to the trash reported an error, and nobody knows whether the source is gone. -/
def lostRemoval : OperationJournalItemResult where
  itemIndex := 0
  status := .failed
  error := .commit
  systemError := 5
  priorError := .none
  priorSystemError := 0
  bytes := 0
  destinationPublication := .notPublished
  sourceRemoval := .unknown
  filesystemSyncStatus := .notAttempted
  filesystemSyncSystemError := 0
  recoveryAction := .inspectSource

/-- The commit of a copy reported an error, and nobody knows what is at the destination. -/
def lostCopy : OperationJournalItemResult where
  itemIndex := 0
  status := .failed
  error := .commit
  systemError := 5
  priorError := .none
  priorSystemError := 0
  bytes := 0
  destinationPublication := .unknown
  sourceRemoval := .notRemoved
  filesystemSyncStatus := .notAttempted
  filesystemSyncSystemError := 0
  recoveryAction := .inspectDestination

theorem retrySafe_lostCopy :
    RetrySafe copyPlan [lostCopy] ↔ ∀ result ∈ [lostCopy], result.sourceRemoval ≠ .unknown :=
  retrySafe_iff copyPlan [lostCopy] (by decide +kernel)

/-- The journal accepts the result, its effect is unknown, and the policy offers it again. -/
theorem lostRemoval_offered :
    validItemResult trashPlan lostRemoval = true ∧ EffectUnknown trashPlan lostRemoval ∧
      (decideOperationItemRetry lostRemoval).refusal = .none ∧
      operationHasRetryableItems [lostRemoval] = true :=
  ⟨by decide +kernel, Or.inr ⟨by decide, by decide⟩, by decide, by decide⟩

end WinCommander.Operations.Journal
