/-
  The invariant of the journal over runs.

  `step_effect`: every call has one of the outcomes of `Effect`. `candidate_advances`: what
  a call offers to store is coherent, and follows the stored entries. From both, `Holds` is
  kept by every step (`step_holds`), hence in every run (`run_holds`).
-/
import WinCommander.Operations.Journal.Effect

namespace WinCommander.Operations.Journal

open Library Library.Prog List Option

variable {readers : Readers} {world : World} {now : TimePoint} {call : Call}

/-! ## A step -/

theorem performs (hholds : Holds readers world) (call : Call) :
    Performs readers world now call := by
  cases call with
  | openJournal path => exact performs_openJournal path
  | closeJournal => exact performs_done _ rfl (.inl rfl) rfl
  | reserveOperationId => exact performs_reserveOperationId hholds
  | admitReservation k plan => exact performs_admitReservation k plan
  | admitPlan plan => exact performs_admitPlan hholds plan
  | transitionToRunning k => exact performs_transitionToRunning k
  | finalizeAdmission k terminal => exact performs_finalizeAdmission k terminal
  | finalize k results terminal => exact performs_finalize k results terminal
  | moveReservation k => exact performs_done _ rfl (.inr rfl) rfl
  | releaseReservation k => exact performs_releaseReservation k
  | moveAdmissionReceipt k => exact performs_done _ rfl (.inr rfl) rfl
  | moveRunReceipt k => exact performs_done _ rfl (.inr rfl) rfl
  | exit =>
    refine Triple.ret fun disk h => ?_
    exact .stopped (.inl h)

/-- What a step can do. -/
theorem step_effect (hholds : Holds readers world) (event : Event) :
    Effect readers world event.now event.call (step readers world event).1
      (step readers world event).2 := by
  have hperforms : Performs readers world event.now event.call := performs hholds event.call
  have houtcome := hperforms event.replies world.disk rfl
  unfold step
  cases hrun : perform readers world.process event.now event.call event.replies world.disk with
  | stopped disk =>
    rw [hrun] at houtcome
    exact .stopped houtcome
  | returned outcome disk rest =>
    rw [hrun] at houtcome
    exact houtcome

/-! ## Candidates follow the stored entries -/

theorem storedEntries_of_decode (h : decode readers text = .ok decoded) :
    storedEntries readers (some text) = decoded.entries := by
  unfold storedEntries
  dsimp only
  rw [h]

variable {disk : Disk} {entries : List OperationJournalEntry} {impl : Impl}

variable {next : UInt64}

theorem storedEntries_of_snapshot (hcoherent : Coherent entries next)
    (h : IsSnapshot readers entries next disk) : storedEntries readers disk = entries := by
  obtain ⟨text, hencode, rfl⟩ := h
  exact storedEntries_of_decode (decode_encode readers hcoherent hencode)

/-- A usable handle's entries are the stored ones, and coherent under its sequence. -/
theorem Holds.coherent (hholds : Holds readers world) (himpl : world.process.impl = some impl)
    (husable : impl.usable) : storedEntries readers world.disk = impl.entries ∧
    Coherent impl.entries impl.nextOperationSequence := by
  obtain ⟨text, next, hdisk, hdecode, hnext⟩ := hholds.durable impl himpl husable
  refine ⟨?_, (decode_ok hdecode).1.mono hnext⟩
  rw [hdisk]
  exact storedEntries_of_decode hdecode

/-- What holds of an offer to store. -/
def Follows (readers : Readers) (world : World) (call : Call)
    (offer : Option (List OperationJournalEntry × UInt64)) : Prop :=
  ∀ entries next, offer = some (entries, next) →
    Coherent entries next ∧ Advances call (storedEntries readers world.disk) entries

theorem follows_none : Follows readers world call none := by
  intro entries next h
  cases h

variable {candidate : Except OperationJournalError (List OperationJournalEntry)} {process : Process}

theorem snapshot_some (h : impl.snapshot candidate = some (entries, next)) :
    candidate = .ok entries ∧ next = impl.nextOperationSequence := by
  cases candidate with
  | error e => cases h
  | ok candidate =>
    cases h
    exact ⟨rfl, rfl⟩

theorem follows_open (path : Bytes) :
    Follows readers world (.openJournal path) (openCandidate readers world.disk now) := by
  intro entries next h
  unfold openCandidate at h
  cases hdisk : world.disk with
  | none =>
    rw [hdisk] at h
    cases h
    exact ⟨⟨nodup_nil, nodup_nil, by simp⟩, Advances.refl _ []⟩
  | some text =>
    rw [hdisk] at h
    dsimp only at h
    cases hdecode : decode readers text with
    | error e =>
      rw [hdecode] at h
      cases h
    | ok decoded =>
      rw [hdecode] at h
      cases h
      rw [storedEntries_of_decode hdecode]
      exact ⟨interrupt_coherent (decode_ok hdecode).1 now, interrupt_advances now path _⟩

section
variable (hholds : Holds readers world)
include hholds

/-- An admission adds an entry whose id is reserved and whose plan is new. -/
theorem follows_admission (himpl : world.process.impl = some impl₀) (hsettled : Settled impl₀ impl)
    (reservation : AdmissionReservation) (plan : OperationPlan) :
    Follows readers world call (impl.snapshot (admitCandidate impl reservation plan now)) := by
  intro entries next h
  obtain ⟨hcandidate, rfl⟩ := snapshot_some h
  obtain ⟨husable, hlookup, hids, hplans, rfl⟩ := admitCandidate_ok hcandidate
  obtain ⟨hstored, hcoherent⟩ := hholds.coherent himpl (hsettled.usable ▸ husable)
  rw [← hsettled.entries] at hstored hcoherent
  have hreserved := hsettled.reserved (hholds.reserved impl₀ himpl) _ (lookup_mem hlookup)
  refine ⟨⟨nodup_map_append_one _ hcoherent.plans hplans, nodup_map_append_one _ hcoherent.ids hids,
    fun entry hmem => ?_⟩, ?_⟩
  · rw [mem_append, mem_singleton] at hmem
    obtain hmem | rfl := hmem
    · exact UInt64.lt_of_lt_of_le (hcoherent.below entry hmem) hsettled.sequence
    · exact hreserved
  · rw [hstored]
    refine ⟨impl.entries, _, rfl, evolves_all call impl.entries, fun entry hmem => ?_⟩
    rw [mem_singleton.mp hmem]

/-- A receipt's operation changes the state of its own entry. -/
theorem follows_replaces (himpl : world.process.impl = some impl)
    (hcandidate : ∀ entries, candidate = .ok entries → impl.usable ∧ ∃ id source target, mayMove call source target ∧ Replaces impl.entries entries id source target) :
    Follows readers world call (impl.snapshot candidate) := by
  intro entries next h
  obtain ⟨hok, rfl⟩ := snapshot_some h
  obtain ⟨husable, id, source, target, hmove, hreplaces⟩ := hcandidate entries hok
  obtain ⟨hstored, hcoherent⟩ := hholds.coherent himpl husable
  rw [hstored]
  exact ⟨hcoherent.of_map_eq hreplaces.map_eq.1 hreplaces.map_eq.2, hreplaces.advances hmove⟩

theorem candidate_advances (call : Call) :
    Follows readers world call (candidateOf readers world now call) := by
  unfold candidateOf
  cases call with
  | openJournal path => exact follows_open path
  | admitReservation k plan =>
    dsimp only
    split
    · next impl reservation himpl _ =>
        exact follows_admission hholds himpl (Settled.refl impl) reservation plan
    · exact follows_none
  | admitPlan plan =>
    cases himpl : world.process.impl with
    | none => exact follows_none
    | some impl =>
      rcases reserveOperationId_cases impl (hholds.reserved impl himpl) with
        ⟨e, hreserve⟩ | ⟨positive, husable, hlt, hreserve⟩
      · rw [map_some, hreserve]
        exact follows_none
      · rw [map_some, hreserve]
        exact follows_admission hholds himpl (reserving_settled impl hlt) _ plan
  | transitionToRunning k =>
    dsimp only
    split
    · next impl receipt himpl _ =>
        refine follows_replaces hholds himpl fun entries hok => ?_
        obtain ⟨husable, hreplaces⟩ := transitionToRunningCandidate_ok hok
        exact ⟨husable, receipt.operationId, .admitted, .running, rfl, hreplaces⟩
    · exact follows_none
  | finalizeAdmission k terminal =>
    dsimp only
    split
    · next impl receipt himpl _ =>
        refine follows_replaces hholds himpl fun entries hok => ?_
        obtain ⟨husable, hlegal, hreplaces⟩ := finalizeAdmissionCandidate_ok hok
        exact ⟨husable, receipt.operationId, .admitted, terminal, hlegal, hreplaces⟩
    · exact follows_none
  | finalize k results terminal =>
    dsimp only
    split
    · next impl receipt himpl _ =>
        refine follows_replaces hholds himpl fun entries hok => ?_
        obtain ⟨husable, hlegal, hreplaces⟩ := finalizeCandidate_ok hok
        exact ⟨husable, receipt.operationId, .running, terminal, hlegal, hreplaces⟩
    · exact follows_none
  | _ => exact follows_none

end

/-! ## The invariant -/

/-- What a stored candidate looks like to the next reader. -/
theorem decode_of_follows (hfollows : Follows readers world call offer)
    (hoffer : offer = some (entries, next)) (hsnapshot : IsSnapshot readers entries next disk) :
    ∃ text, disk = some text ∧ decode readers text = .ok ⟨entries, next, false⟩ := by
  obtain ⟨text, hencode, hdisk⟩ := hsnapshot
  exact ⟨text, hdisk, decode_encode readers (hfollows entries next hoffer).1 hencode⟩

/-- A handle that has just read or stored its entries. -/
theorem holds_of_decode (himpl : process.impl = some impl)
    (hdecode : decode readers text = .ok ⟨impl.entries, impl.nextOperationSequence, false⟩)
    (hreserved : impl.Reserved) (hhandles : impl.identity < process.handles) :
    Holds readers ⟨some text, process⟩ := by
  have same : ∀ other, process.impl = some other → other = impl :=
    fun other h => some.inj (h.symm.trans himpl)
  constructor
  · rintro other hother -
    rw [same other hother]
    exact ⟨text, _, rfl, hdecode, UInt64.le_refl _⟩
  · intro other hother
    rw [same other hother, storedEntries_of_decode hdecode]
    exact ⟨.exit, Advances.refl _ _⟩
  · intro other hother
    rw [same other hother]
    exact decode_ok hdecode
  · intro other hother
    rw [same other hother]
    exact hreserved
  · intro other hother
    rw [same other hother]
    exact hhandles

/-- The file is as before and so, up to its reservations, is the handle. -/
theorem holds_of_settled (hholds : Holds readers world)
    (hhandle : ∀ impl', process.impl = some impl' → ∃ impl, world.process.impl = some impl ∧ Settled impl impl')
    (hhandles : process.handles = world.process.handles) : Holds readers ⟨world.disk, process⟩ := by
  constructor
  · intro impl' himpl' husable
    obtain ⟨impl, himpl, hsettled⟩ := hhandle impl' himpl'
    obtain ⟨text, next, hdisk, hdecode, hnext⟩ :=
      hholds.durable impl himpl (hsettled.usable ▸ husable)
    exact ⟨text, next, hdisk, hsettled.entries ▸ hdecode, UInt64.le_trans hnext hsettled.sequence⟩
  · intro impl' himpl'
    obtain ⟨impl, himpl, hsettled⟩ := hhandle impl' himpl'
    exact hsettled.entries ▸ hholds.behind impl himpl
  · intro impl' himpl'
    obtain ⟨impl, himpl, hsettled⟩ := hhandle impl' himpl'
    rw [hsettled.entries]
    obtain ⟨hcoherent, hlifecycle⟩ := hholds.valid impl himpl
    exact ⟨hcoherent.mono hsettled.sequence, hlifecycle⟩
  · intro impl' himpl'
    obtain ⟨impl, himpl, hsettled⟩ := hhandle impl' himpl'
    exact hsettled.reserved (hholds.reserved impl himpl)
  · intro impl' himpl'
    obtain ⟨impl, himpl, hsettled⟩ := hhandle impl' himpl'
    rw [hhandles, hsettled.identity]
    exact hholds.handles impl himpl

theorem holds_of_no_handle (h : process.impl = none) : Holds readers ⟨disk, process⟩ := by
  have absurd : ∀ {P : Impl → Prop} (impl : Impl), process.impl = some impl → P impl := by
    intro P impl himpl
    rw [h] at himpl
    cases himpl
  exact ⟨absurd, absurd, absurd, absurd, absurd⟩

theorem untouched_settled {before after : Process} (h : Untouched call before after) :
    (∀ impl', after.impl = some impl' → ∃ impl, before.impl = some impl ∧ Settled impl impl') ∧
    after.handles = before.handles := by
  obtain rfl | ⟨plan, impl, next, nonce, -, himpl, hnext, rfl⟩ := h
  · exact ⟨fun impl' h => ⟨impl', h, Settled.refl impl'⟩, rfl⟩
  · refine ⟨fun impl' h => ⟨impl, himpl, ?_⟩, rfl⟩
    cases h
    exact ⟨rfl, rfl, rfl, hnext, fun hr entry hmem => UInt64.lt_of_lt_of_le (hr entry hmem) hnext⟩

/-- The entries stored by a call follow those stored before it. -/
theorem oldOrNew_advances (hholds : Holds readers world)
    (h : OldOrNew readers (candidateOf readers world now call) world.disk disk) :
    Advances call (storedEntries readers world.disk) (storedEntries readers disk) := by
  obtain rfl | ⟨entries, next, hcandidate, hsnapshot⟩ := h
  · exact Advances.refl call _
  · obtain ⟨hcoherent, hadvances⟩ := candidate_advances hholds call entries next hcandidate
    rw [storedEntries_of_snapshot hcoherent hsnapshot]
    exact hadvances

theorem effect_holds (hholds : Holds readers world) {world' : World}
    (h : Effect readers world now call world' report) : Holds readers world' := by
  cases h with
  | quiet hhandle hhandles hreport => exact holds_of_settled hholds hhandle hhandles
  | refused hprocess =>
    obtain ⟨hhandle, hhandles⟩ := untouched_settled hprocess
    exact holds_of_settled hholds hhandle hhandles
  | @opened path impl disk hcall hnone hopened =>
    obtain ⟨-, hidentity, hempty, -, hcandidate, hdisk⟩ := hopened
    have hread : ∃ text, disk = some text ∧
        decode readers text = .ok ⟨impl.entries, impl.nextOperationSequence, false⟩ := by
      obtain hsnapshot | ⟨-, text, htext, hdecode⟩ := hdisk
      · exact decode_of_follows (follows_open path) hcandidate hsnapshot
      · exact ⟨text, htext, hdecode⟩
    obtain ⟨text, rfl, hdecode⟩ := hread
    refine holds_of_decode rfl hdecode (fun entry hmem => ?_) ?_
    · rw [hempty] at hmem
      cases hmem
    · rw [hidentity]
      exact Nat.lt_succ_self _
  | stored himpl husable hcandidate hsnapshot himpl' hidentity hreserved hhandles hreport =>
    obtain ⟨text, rfl, hdecode⟩ := decode_of_follows (candidate_advances hholds call) hcandidate hsnapshot
    refine holds_of_decode himpl' hdecode (hreserved (hholds.reserved _ himpl)) ?_
    rw [hhandles, hidentity]
    exact hholds.handles _ himpl
  | uncertain hcandidate hdisk hhandle hhandles =>
    have hadvances := oldOrNew_advances hholds
      (hdisk.imp id fun hsnapshot => ⟨_, _, hcandidate, hsnapshot⟩)
    constructor
    · intro impl' himpl' husable
      obtain ⟨impl, -, -, hsettled⟩ := hhandle impl' himpl'
      rw [hsettled.usable] at husable
      cases husable
    · intro impl' himpl'
      obtain ⟨impl, himpl, husable, hsettled⟩ := hhandle impl' himpl'
      rw [(hholds.coherent himpl husable).1] at hadvances
      exact ⟨call, hsettled.entries ▸ hadvances⟩
    · intro impl' himpl'
      obtain ⟨impl, himpl, -, hsettled⟩ := hhandle impl' himpl'
      obtain ⟨hcoherent, hlifecycle⟩ := hholds.valid impl himpl
      rw [hsettled.entries]
      exact ⟨hcoherent.mono hsettled.sequence, hlifecycle⟩
    · intro impl' himpl'
      obtain ⟨impl, himpl, -, hsettled⟩ := hhandle impl' himpl'
      exact hsettled.reserved (hholds.reserved impl himpl)
    · intro impl' himpl'
      obtain ⟨impl, himpl, -, hsettled⟩ := hhandle impl' himpl'
      rw [hsettled.identity, hhandles]
      exact hholds.handles impl himpl
  | stopped hdisk => exact holds_of_no_handle rfl

theorem step_holds (world : World) (event : Event) (hholds : Holds readers world) :
    Holds readers (step readers world event).1 :=
  effect_holds hholds (step_effect hholds event)

theorem start_holds (readers : Readers) (disk : Disk) : Holds readers (World.start disk) :=
  holds_of_no_handle rfl

/-- The invariant of every run. -/
theorem run_holds (readers : Readers) (disk : Disk) (events : List Event) :
    Holds readers (run readers (World.start disk) events).1 :=
  runAll_invariant (Holds readers) step_holds events (start_holds readers disk)

theorem effect_oldOrNew (h : Effect readers world now call world' report) :
    OldOrNew readers (candidateOf readers world now call) world.disk world'.disk := by
  cases h with
  | quiet hhandle hhandles hreport => exact .inl rfl
  | refused hprocess => exact .inl rfl
  | opened hcall hnone hopened =>
    subst hcall
    obtain ⟨-, -, -, -, hcandidate, hdisk⟩ := hopened
    obtain hsnapshot | ⟨hsame, -⟩ := hdisk
    · exact .inr ⟨_, _, hcandidate, hsnapshot⟩
    · exact .inl hsame
  | stored himpl husable hcandidate hsnapshot himpl' hidentity hreserved hhandles hreport =>
    exact .inr ⟨_, _, hcandidate, hsnapshot⟩
  | uncertain hcandidate hdisk hhandle hhandles =>
    exact hdisk.imp id fun hsnapshot => ⟨_, _, hcandidate, hsnapshot⟩
  | stopped hdisk => exact hdisk

/-- Whatever a step does, the stored entries after it follow those before it. -/
theorem step_advances (hholds : Holds readers world) (event : Event) :
    Advances event.call (storedEntries readers world.disk)
      (storedEntries readers (step readers world event).1.disk) :=
  oldOrNew_advances hholds (effect_oldOrNew (step_effect hholds event))

end WinCommander.Operations.Journal
