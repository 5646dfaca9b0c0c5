/-
  `ProviderConditionalCopyJournalMapper`: from what a provider says of a commit to the result of
  an item.

  `CommitCoherent` says by kind of failure what the mapper's consistency check goes through by
  publication, and every coherent result that ran maps to a result that the journal accepts
  (`valid_of_mapped`), for plans that publish a destination and for plans that remove a source.
-/
import WinCommander.Operations.Journal.Entry

namespace WinCommander.Operations.Journal

open Library

/-! ## The provider's result -/

inductive ProviderConditionalCopyPublicationState where
  | notPublished | published | unknown
  | outside (value : UInt8)
deriving DecidableEq

inductive ProviderConditionalCopyCommitFailure where
  | none | aborted | cancelled | sourceStale | destinationParentStale | destinationExists
  | metadataFailed | fileSystemSyncFailed | providerFailure
  | outside (value : UInt8)
deriving DecidableEq

inductive ProviderConditionalCopyFilesystemSyncStatus where
  | notAttempted | confirmed | failed
  | outside (value : UInt8)
deriving DecidableEq

structure ProviderConditionalCopyCommitResult where
  publication : ProviderConditionalCopyPublicationState
  failure : ProviderConditionalCopyCommitFailure
  systemError : Int32
  filesystemSyncStatus : ProviderConditionalCopyFilesystemSyncStatus
  filesystemSyncSystemError : Int32
deriving DecidableEq

structure ProviderConditionalCopyJournalContext where
  itemIndex : UInt64
  exactSourceBytes : UInt64
  removesSource : Bool
deriving DecidableEq

inductive ProviderConditionalCopyJournalMappingError where
  | nonExecutionTerminal | inconsistentResult
deriving DecidableEq

/-- `ESTALE`. -/
abbrev errnoStale : Int32 := 70

/-- `EEXIST`. -/
abbrev errnoExists : Int32 := 17

/-! ## The mapper -/

def syncIsConsistent (result : ProviderConditionalCopyCommitResult) : Bool :=
  match result.filesystemSyncStatus with
  | .notAttempted | .confirmed => result.filesystemSyncSystemError == 0
  | .failed => result.filesystemSyncSystemError != 0
  | .outside _ => false

/-- The failures of a commit that did not publish. -/
def notPublishedIsConsistent (result : ProviderConditionalCopyCommitResult) : Bool :=
  match result.failure with
  | .aborted | .cancelled => result.systemError == 0
  | .sourceStale | .destinationParentStale => result.systemError == errnoStale
  | .destinationExists => result.systemError == errnoExists
  | .providerFailure => result.systemError != 0
  | .none | .metadataFailed | .fileSystemSyncFailed | .outside _ => false

/-- The failures of a commit that published. -/
def publishedIsConsistent (result : ProviderConditionalCopyCommitResult) : Bool :=
  match result.failure with
  | .none => result.systemError == 0 && result.filesystemSyncStatus == .confirmed
  | .metadataFailed => result.systemError != 0 && result.filesystemSyncStatus != .notAttempted
  | .fileSystemSyncFailed =>
    result.systemError != 0 && result.filesystemSyncStatus == .failed &&
      result.filesystemSyncSystemError == result.systemError
  | .providerFailure => result.systemError != 0 && result.filesystemSyncStatus != .notAttempted
  | .aborted | .cancelled | .sourceStale | .destinationParentStale | .destinationExists
  | .outside _ => false

/-- `ProviderConditionalCopyJournalResultIsConsistent`. -/
def resultIsConsistent (result : ProviderConditionalCopyCommitResult) : Bool :=
  if result.systemError < 0 || result.filesystemSyncSystemError < 0 then false
  else if !syncIsConsistent result then false
  else
    match result.publication with
    | .notPublished =>
      if result.filesystemSyncStatus != .notAttempted then false
      else notPublishedIsConsistent result
    | .unknown =>
      result.failure == .providerFailure && result.systemError != 0 &&
        result.filesystemSyncStatus == .notAttempted
    | .published => publishedIsConsistent result
    | .outside _ => false

def journalPublication : ProviderConditionalCopyPublicationState →
    Except ProviderConditionalCopyJournalMappingError OperationJournalPublicationState
  | .notPublished => .ok .notPublished
  | .published => .ok .published
  | .unknown => .ok .unknown
  | .outside _ => .error .inconsistentResult

def journalRemoval : ProviderConditionalCopyPublicationState →
    Except ProviderConditionalCopyJournalMappingError OperationJournalRemovalState
  | .notPublished => .ok .notRemoved
  | .published => .ok .removed
  | .unknown => .ok .unknown
  | .outside _ => .error .inconsistentResult

def journalFilesystemSync : ProviderConditionalCopyFilesystemSyncStatus →
    Except ProviderConditionalCopyJournalMappingError OperationJournalFilesystemSyncStatus
  | .notAttempted => .ok .notAttempted
  | .confirmed => .ok .confirmed
  | .failed => .ok .failed
  | .outside _ => .error .inconsistentResult

/-- The inspection that the plan's own axis needs. -/
def inspection (context : ProviderConditionalCopyJournalContext) : OperationJournalRecoveryAction :=
  if context.removesSource then .inspectSource else .inspectDestination

/-- Status, error and recovery of an item by the failure of its commit. -/
def journalOutcome (result : ProviderConditionalCopyCommitResult)
    (context : ProviderConditionalCopyJournalContext) :
    Except ProviderConditionalCopyJournalMappingError
      (OperationJournalItemStatus × OperationJournalItemError × OperationJournalRecoveryAction) :=
  match result.failure with
  | .none => .ok (.succeeded, .none, .none)
  | .cancelled => .ok (.cancelled, .cancelled, .none)
  | .sourceStale => .ok (.failed, .sourceChanged, .retry)
  | .destinationParentStale | .destinationExists => .ok (.failed, .destinationChanged, .retry)
  | .metadataFailed => .ok (.failed, .metadata, inspection context)
  | .fileSystemSyncFailed => .ok (.failed, .commit, inspection context)
  | .providerFailure =>
    if result.publication = .notPublished then .ok (.failed, .unknown, .retry)
    else .ok (.failed, .commit, inspection context)
  | .aborted => .error .nonExecutionTerminal
  -- The initial values stay where no case of the switch fits.
  | .outside _ => .ok (.failed, .unknown, .retry)

/-- `MapProviderConditionalCopyCommitResultToJournalItemResult`. -/
def mapCommitResult (result : ProviderConditionalCopyCommitResult)
    (context : ProviderConditionalCopyJournalContext) :
    Except ProviderConditionalCopyJournalMappingError OperationJournalItemResult :=
  if !resultIsConsistent result then .error .inconsistentResult
  else if result.failure = .aborted then .error .nonExecutionTerminal
  else do
    let publication ← journalPublication result.publication
    let filesystemSync ← journalFilesystemSync result.filesystemSyncStatus
    let (status, error, recovery) ← journalOutcome result context
    let bytes := if result.publication = .published then context.exactSourceBytes else 0
    let removal ← journalRemoval result.publication
    return {
      itemIndex := context.itemIndex
      status := status
      error := error
      systemError := result.systemError
      priorError := .none
      priorSystemError := 0
      bytes := bytes
      destinationPublication := if context.removesSource then .notPublished else publication
      sourceRemoval := if context.removesSource then removal else .notRemoved
      filesystemSyncStatus := filesystemSync
      filesystemSyncSystemError := result.filesystemSyncSystemError
      recoveryAction := recovery }

/-! ## CommitCoherent results -/

/-- What a kind of failure goes with. -/
def OutcomeFits (result : ProviderConditionalCopyCommitResult) : Prop :=
  match result.failure with
  | .none => result.publication = .published ∧ result.systemError = 0 ∧
      result.filesystemSyncStatus = .confirmed
  | .aborted | .cancelled => result.publication = .notPublished ∧ result.systemError = 0
  | .sourceStale | .destinationParentStale =>
    result.publication = .notPublished ∧ result.systemError = errnoStale
  | .destinationExists => result.publication = .notPublished ∧ result.systemError = errnoExists
  | .metadataFailed => result.publication = .published ∧ 0 < result.systemError
  | .fileSystemSyncFailed => result.publication = .published ∧ 0 < result.systemError ∧
      result.filesystemSyncStatus = .failed ∧ result.filesystemSyncSystemError = result.systemError
  | .providerFailure => 0 < result.systemError
  | .outside _ => False

/-- A result that does not contradict itself: the publication is known by name, a sync was
    attempted exactly where something was published, and only a failed sync has an error. -/
structure CommitCoherent (result : ProviderConditionalCopyCommitResult) : Prop where
  publication : ∀ value, result.publication ≠ .outside value
  sync : ∀ value, result.filesystemSyncStatus ≠ .outside value
  attempted : result.filesystemSyncStatus ≠ .notAttempted ↔ result.publication = .published
  syncError : if result.filesystemSyncStatus = .failed then 0 < result.filesystemSyncSystemError
    else result.filesystemSyncSystemError = 0
  outcome : OutcomeFits result

/-- The sign check of the mapper and a check for zero leave the positive errors. -/
theorem positive_iff (x : Int32) : 0 < x ↔ ¬ x < 0 ∧ x ≠ 0 := by
  constructor
  · intro h
    refine ⟨fun hneg => Int32.lt_irrefl (Int32.lt_trans h hneg), fun hzero => ?_⟩
    rw [hzero] at h
    exact Int32.lt_irrefl h
  · intro h
    exact Int32.lt_of_le_of_ne (Int32.not_lt.mp h.1) (Ne.symm h.2)

theorem commitCoherent_iff (result : ProviderConditionalCopyCommitResult) :
    CommitCoherent result ↔ (∀ value, result.publication ≠ .outside value) ∧
      (∀ value, result.filesystemSyncStatus ≠ .outside value) ∧
      (result.filesystemSyncStatus ≠ .notAttempted ↔ result.publication = .published) ∧
      (if result.filesystemSyncStatus = .failed then 0 < result.filesystemSyncSystemError
        else result.filesystemSyncSystemError = 0) ∧ OutcomeFits result :=
  ⟨fun h => ⟨h.publication, h.sync, h.attempted, h.syncError, h.outcome⟩,
    fun ⟨h1, h2, h3, h4, h5⟩ => ⟨h1, h2, h3, h4, h5⟩⟩

/-- The mapper's check by publication is coherence by kind of failure. -/
theorem consistent_iff (result : ProviderConditionalCopyCommitResult) :
    resultIsConsistent result ↔ CommitCoherent result := by
  rw [commitCoherent_iff]
  obtain ⟨publication, failure, systemError, sync, syncError⟩ := result
  have hstale : ¬ errnoStale < 0 := by decide
  have hexists : ¬ errnoExists < 0 := by decide
  unfold resultIsConsistent syncIsConsistent notPublishedIsConsistent publishedIsConsistent
    OutcomeFits
  cases publication <;> cases sync <;> cases failure <;> simp [positive_iff] <;> grind

/-! ## The mapped result -/

variable {result : ProviderConditionalCopyCommitResult} {item : OperationJournalItemResult}

theorem map_of_coherent (h : CommitCoherent result) (habort : result.failure ≠ .aborted)
    (context : ProviderConditionalCopyJournalContext) :
    ∃ item, mapCommitResult result context = .ok item := by
  have hconsistent := (consistent_iff result).mpr h
  unfold mapCommitResult
  rw [hconsistent, if_neg (by simp), if_neg habort]
  have hpublication := h.publication
  have hsync := h.sync
  unfold journalOutcome
  cases hp : result.publication <;> cases hs : result.filesystemSyncStatus <;>
    cases hf : result.failure <;>
    first
    | exact ⟨_, rfl⟩
    | exact absurd hp (hpublication _)
    | exact absurd hs (hsync _)
    | exact absurd hf habort

theorem journalPublication_ok (h : journalPublication state = .ok publication) :
    publication.listed ∧ (publication = .published ↔ state = .published) := by
  cases state with
  | outside value => nomatch h
  | _ =>
    cases h
    exact ⟨rfl, by simp⟩

theorem journalRemoval_ok (h : journalRemoval state = .ok removal) :
    removal.listed ∧ (removal = .removed ↔ state = .published) := by
  cases state with
  | outside value => nomatch h
  | _ =>
    cases h
    exact ⟨rfl, by simp⟩

/-- A plan has its effect at the destination or at the source. -/
theorem publishes_eq_not_removes (plan : OperationPlan) :
    publishesDestination plan.type = !removesSource plan.type := by
  have hvalid : plan.type.isValid := plan.wellFormed.type_valid
  cases h : plan.type with
  | outside value =>
    rw [h] at hvalid
    cases hvalid
  | _ => rfl

theorem mapped_cases (h : mapCommitResult result context = .ok item) :
    CommitCoherent result ∧ ∃ publication sync status error recovery removal,
      journalPublication result.publication = .ok publication ∧
      journalFilesystemSync result.filesystemSyncStatus = .ok sync ∧
      journalOutcome result context = .ok (status, error, recovery) ∧
      journalRemoval result.publication = .ok removal ∧ item = {
        itemIndex := context.itemIndex
        status := status
        error := error
        systemError := result.systemError
        priorError := .none
        priorSystemError := 0
        bytes := if result.publication = .published then context.exactSourceBytes else 0
        destinationPublication := if context.removesSource then .notPublished else publication
        sourceRemoval := if context.removesSource then removal else .notRemoved
        filesystemSyncStatus := sync
        filesystemSyncSystemError := result.filesystemSyncSystemError
        recoveryAction := recovery } := by
  unfold mapCommitResult at h
  by_cases hconsistent : resultIsConsistent result
  · refine ⟨(consistent_iff result).mp hconsistent, ?_⟩
    rw [if_neg (by simpa using hconsistent)] at h
    by_cases habort : result.failure = .aborted
    · rw [if_pos habort] at h
      nomatch h
    · rw [if_neg habort] at h
      obtain ⟨publication, hpublication, h⟩ := bind_ok_iff.mp h
      obtain ⟨sync, hsync, h⟩ := bind_ok_iff.mp h
      obtain ⟨⟨status, error, recovery⟩, houtcome, h⟩ := bind_ok_iff.mp h
      obtain ⟨removal, hremoval, h⟩ := bind_ok_iff.mp h
      refine ⟨publication, sync, status, error, recovery, removal, hpublication, hsync, houtcome,
        hremoval, ?_⟩
      exact (Except.ok.inj h).symm
  · rw [if_pos (by simpa using hconsistent)] at h
    nomatch h

theorem validStatus_of_failed (hstatus : item.status = .failed) (h : validFailed item) :
    validStatus publishes removes item := by
  unfold validStatus
  rw [hstatus]
  exact h

/-- A failure before anything happened may be tried again. -/
theorem validFailed_retry (herror : item.error ≠ .none ∧ item.error ≠ .cancelled)
    (hsystem : item.systemError ≠ 0) (hpublication : item.destinationPublication = .notPublished)
    (hremoval : item.sourceRemoval = .notRemoved) (hrecovery : item.recoveryAction = .retry) :
    validFailed item := by
  simp [validFailed, herror, hsystem, hpublication, hremoval, hrecovery]

/-- A failure with or after the effect asks for an inspection of its axis. -/
theorem validFailed_inspect (removes : Bool)
    (herror : item.error = .metadata ∨ item.error = .commit) (hsystem : item.systemError ≠ 0)
    (hpublication : item.destinationPublication = .notPublished ↔ removes)
    (hremoval : item.sourceRemoval = .notRemoved ↔ removes = false)
    (hunknown : item.destinationPublication = .unknown ∨ item.sourceRemoval = .unknown → item.error = .commit)
    (hrecovery : item.recoveryAction = if removes then .inspectSource else .inspectDestination) :
    validFailed item := by
  have hlisted : item.error ≠ .none ∧ item.error ≠ .cancelled := by
    rcases herror with h | h <;> rw [h] <;> decide
  cases removes with
  | false =>
    have hrest : item.sourceRemoval = .notRemoved := hremoval.mpr rfl
    have hmoved : item.destinationPublication ≠ .notPublished := by simpa using hpublication
    by_cases hsettled : item.destinationPublication = .unknown
    · simp [validFailed, hsystem, hsettled, hrest, hrecovery, hunknown (Or.inl hsettled)]
    · simp [validFailed, hlisted, hsystem, hsettled, hmoved, hrest, hrecovery]
  | true =>
    have hrest : item.destinationPublication = .notPublished := hpublication.mpr rfl
    have hmoved : item.sourceRemoval ≠ .notRemoved := by simpa using hremoval
    by_cases hsettled : item.sourceRemoval = .unknown
    · simp [validFailed, hsystem, hsettled, hrest, hrecovery, hunknown (Or.inr hsettled)]
    · simp [validFailed, hlisted, hsystem, hsettled, hmoved, hrest, hrecovery]

section

variable {result : ProviderConditionalCopyCommitResult}
  {context : ProviderConditionalCopyJournalContext} {item : OperationJournalItemResult}

section
variable (h : mapCommitResult result context = .ok item)
include h

/-- The outcome is on the axis of the context, and the other one is at rest. -/
theorem mapped_axes : if context.removesSource then item.destinationPublication = .notPublished ∧
        journalRemoval result.publication = .ok item.sourceRemoval else
      item.sourceRemoval = .notRemoved ∧
        journalPublication result.publication = .ok item.destinationPublication := by
  obtain ⟨-, publication, sync, status, error, recovery, removal, hpublication, -, -, hremoval,
    rfl⟩ := mapped_cases h
  cases context.removesSource with
  | false => exact ⟨rfl, hpublication⟩
  | true => exact ⟨rfl, hremoval⟩

theorem validSync_of_mapped : validSync (decide (result.publication = .published)) item := by
  obtain ⟨hcoherent, publication, sync, status, error, recovery, removal, -, hsync, -, -, rfl⟩ :=
    mapped_cases h
  have hattempted := hcoherent.attempted
  have herror := hcoherent.syncError
  unfold validSync
  cases hs : result.filesystemSyncStatus <;> rw [hs] at hsync hattempted herror <;> cases hsync <;>
    simp_all [positive_iff]

theorem validStatus_of_mapped :
    validStatus (!context.removesSource) context.removesSource item := by
  obtain ⟨hcoherent, publication, sync, status, error, recovery, removal, hpublication, hsync,
    houtcome, hremoval, rfl⟩ := mapped_cases h
  have hfits := hcoherent.outcome
  unfold OutcomeFits at hfits
  unfold journalOutcome at houtcome
  cases hf : result.failure with
  | none =>
    simp only [hf] at hfits houtcome
    obtain ⟨hlanded, herror, hconfirmed⟩ := hfits
    rw [hlanded] at hpublication hremoval
    rw [hconfirmed] at hsync
    cases houtcome
    cases hpublication
    cases hremoval
    cases hsync
    cases hremoves : context.removesSource <;> simp [validStatus, herror]
  | aborted =>
    simp only [hf] at houtcome
    nomatch houtcome
  | cancelled =>
    simp only [hf] at hfits houtcome
    obtain ⟨hlanded, herror⟩ := hfits
    rw [hlanded] at hpublication hremoval
    cases houtcome
    cases hpublication
    cases hremoval
    simp [validStatus, herror]
  | sourceStale | destinationParentStale | destinationExists =>
    simp only [hf] at hfits houtcome
    obtain ⟨hlanded, herror⟩ := hfits
    have herrno : result.systemError ≠ 0 := by
      rw [herror]
      decide
    rw [hlanded] at hpublication hremoval
    cases houtcome
    cases hpublication
    cases hremoval
    apply validStatus_of_failed rfl
    apply validFailed_retry
    · simp
    · exact herrno
    · exact ite_self _
    · exact ite_self _
    · rfl
  | metadataFailed | fileSystemSyncFailed =>
    simp only [hf] at hfits houtcome
    have hlanded : result.publication = .published := hfits.1
    have herror : 0 < result.systemError := by simp_all
    rw [hlanded] at hpublication hremoval
    cases houtcome
    cases hpublication
    cases hremoval
    apply validStatus_of_failed rfl
    apply validFailed_inspect context.removesSource
    · simp
    · exact ((positive_iff _).mp herror).2
    · simp
    · simp
    · cases context.removesSource <;> simp
    · rfl
  | providerFailure =>
    simp only [hf] at hfits houtcome
    split_ifs at houtcome with hlanded
    · rw [hlanded] at hpublication hremoval
      cases houtcome
      cases hpublication
      cases hremoval
      apply validStatus_of_failed rfl
      apply validFailed_retry
      · simp
      · exact ((positive_iff _).mp hfits).2
      · exact ite_self _
      · exact ite_self _
      · rfl
    · cases houtcome
      have hmoved : publication ≠ .notPublished ∧ removal ≠ .notRemoved := by
        cases hp : result.publication with
        | notPublished => exact absurd hp hlanded
        | _ =>
          rw [hp] at hpublication hremoval
          cases hpublication <;> cases hremoval <;> decide
      apply validStatus_of_failed rfl
      apply validFailed_inspect context.removesSource
      · exact Or.inr rfl
      · exact ((positive_iff _).mp hfits).2
      · simp [hmoved]
      · simp [hmoved]
      · exact fun _ => rfl
      · rfl
  | outside value =>
    simp only [hf] at hfits

theorem validPrior_of_mapped : validPrior item := by
  obtain ⟨-, publication, sync, status, error, recovery, removal, -, -, houtcome, -, rfl⟩ :=
    mapped_cases h
  have hcleanup : error ≠ .cleanup := by
    intro he
    unfold journalOutcome at houtcome
    cases hf : result.failure <;> rw [hf] at houtcome <;> simp [he] at houtcome
    split at houtcome <;> simp at houtcome
  simp [validPrior, hcleanup]

theorem signs_of_mapped : ¬ item.systemError < 0 ∧ ¬ item.filesystemSyncSystemError < 0 := by
  obtain ⟨hcoherent, publication, sync, status, error, recovery, removal, -, -, -, -, rfl⟩ :=
    mapped_cases h
  have hconsistent := (consistent_iff result).mpr hcoherent
  unfold resultIsConsistent at hconsistent
  split at hconsistent
  · cases hconsistent
  · next hsigns => simpa using hsigns

end

end

/-- An item that a coherent result maps to passes the journal's check, for either axis. -/
theorem valid_of_mapped (hindex : context.itemIndex.toNat < plan.sources.length)
    (hremoves : context.removesSource = removesSource plan.type)
    (hmapped : mapCommitResult result context = .ok item) : validItemResult plan item := by
  have hpublishes := publishes_eq_not_removes plan
  have hsync := validSync_of_mapped hmapped
  have hprior := validPrior_of_mapped hmapped
  have hstatus := validStatus_of_mapped hmapped
  obtain ⟨hsystem, hsyncSystem⟩ := signs_of_mapped hmapped
  have haxes := mapped_axes hmapped
  have hitem : item.itemIndex = context.itemIndex ∧ item.priorSystemError = 0 := by
    obtain ⟨-, publication, sync, status, error, recovery, removal, -, -, -, -, rfl⟩ :=
      mapped_cases hmapped
    exact ⟨rfl, rfl⟩
  unfold validItemResult
  dsimp only
  rw [hpublishes, ← hremoves, hitem.1, hitem.2]
  have hrange : ¬ context.itemIndex.toNat ≥ plan.sources.length := by omega
  cases hr : context.removesSource with
  | false =>
    rw [hr] at haxes hstatus
    obtain ⟨hrest, hpublication⟩ := haxes
    obtain ⟨hlisted, hpublished⟩ := journalPublication_ok hpublication
    have hpositive : (item.destinationPublication == .published) =
        decide (result.publication = .published) := by
      rw [Bool.eq_iff_iff, beq_iff_eq, decide_eq_true_iff, hpublished]
    simp [hrange, hsystem, hsyncSystem, hrest, hlisted, hpositive, hsync, hprior,
      OperationJournalRemovalState.listed]
    simpa using hstatus
  | true =>
    rw [hr] at haxes hstatus
    obtain ⟨hrest, hremoval⟩ := haxes
    obtain ⟨hlisted, hremoved⟩ := journalRemoval_ok hremoval
    have hpositive : (item.sourceRemoval == .removed) =
        decide (result.publication = .published) := by
      rw [Bool.eq_iff_iff, beq_iff_eq, decide_eq_true_iff, hremoved]
    simp [hrange, hsystem, hsyncSystem, hrest, hlisted, hpositive, hsync, hprior,
      OperationJournalPublicationState.listed]
    simpa using hstatus

/-! ## The refusals -/

theorem map_inconsistent_iff (result : ProviderConditionalCopyCommitResult)
    (context : ProviderConditionalCopyJournalContext) :
    mapCommitResult result context = .error .inconsistentResult ↔ ¬ CommitCoherent result := by
  constructor
  · intro h hcoherent
    by_cases habort : result.failure = .aborted
    · unfold mapCommitResult at h
      rw [(consistent_iff result).mpr hcoherent, if_neg (by simp), if_pos habort] at h
      nomatch h
    · obtain ⟨item, hitem⟩ := map_of_coherent hcoherent habort context
      rw [h] at hitem
      nomatch hitem
  · intro h
    unfold mapCommitResult
    rw [if_pos]
    rw [Bool.not_eq_true', Bool.eq_false_iff]
    exact fun hconsistent => h ((consistent_iff result).mp hconsistent)

theorem map_nonExecution_iff (result : ProviderConditionalCopyCommitResult)
    (context : ProviderConditionalCopyJournalContext) :
    mapCommitResult result context = .error .nonExecutionTerminal ↔
      CommitCoherent result ∧ result.failure = .aborted := by
  constructor
  · intro h
    have hcoherent : CommitCoherent result := by
      by_contra hinconsistent
      rw [(map_inconsistent_iff result context).mpr hinconsistent] at h
      nomatch h
    refine ⟨hcoherent, ?_⟩
    by_contra habort
    obtain ⟨item, hitem⟩ := map_of_coherent hcoherent habort context
    rw [h] at hitem
    nomatch hitem
  · rintro ⟨hcoherent, habort⟩
    unfold mapCommitResult
    rw [(consistent_iff result).mpr hcoherent, if_neg (by simp), if_pos habort]

end WinCommander.Operations.Journal
