/-
  Crash consistency of the journal.

  In every world that a run can reach: a usable handle's entries are exactly what the file
  decodes to; a call that fails before the rename has changed nothing; a call that fails
  from the rename on has given its handle up for good, and has left the previous file or
  the complete candidate, as has a process that stopped anywhere in a call.
-/
import WinCommander.Operations.Journal.Invariant

namespace WinCommander.Operations.Journal

open Library

variable {readers : Readers} {world : World}

/-- The handle number `identity` is unusable, or gone. -/
def GivenUp (identity : Nat) (world : World) : Prop :=
  identity < world.process.handles ∧
  ∀ impl, world.process.impl = some impl → impl.identity = identity → impl.usable = false

theorem givenUp_of_settled (h : GivenUp identity world)
    (hhandle : ∀ impl', process.impl = some impl' → ∃ impl, world.process.impl = some impl ∧ Settled impl impl')
    (hhandles : process.handles = world.process.handles) : GivenUp identity ⟨disk, process⟩ := by
  refine ⟨hhandles ▸ h.1, fun impl' himpl' hidentity => ?_⟩
  obtain ⟨impl, himpl, hsettled⟩ := hhandle impl' himpl'
  rw [hsettled.usable]
  exact h.2 impl himpl (hsettled.identity.symm.trans hidentity)

/-- Nothing makes a given up handle usable again, and no other gets its number. -/
theorem step_givenUp (hholds : Holds readers world) (event : Event) (h : GivenUp identity world)
    : GivenUp identity (step readers world event).1 := by
  have heffect := step_effect hholds event
  generalize (step readers world event).1 = world', (step readers world event).2 = report
    at heffect ⊢
  cases heffect with
  | quiet hhandle hhandles hreport => exact givenUp_of_settled h hhandle hhandles
  | refused hprocess =>
    obtain ⟨hhandle, hhandles⟩ := untouched_settled hprocess
    exact givenUp_of_settled h hhandle hhandles
  | opened hcall hnone hopened =>
    refine ⟨Nat.lt_succ_of_lt h.1, fun impl himpl hidentity => ?_⟩
    cases himpl
    have hfresh := hopened.2.1
    have := h.1
    omega
  | stored himpl husable hcandidate hsnapshot himpl' hidentity hreserved hhandles hreport =>
    refine ⟨hhandles ▸ h.1, fun other hother hsame => ?_⟩
    rw [himpl', Option.some.injEq] at hother
    subst hother
    have hunusable := h.2 _ himpl (hidentity.symm.trans hsame)
    rw [husable] at hunusable
    cases hunusable
  | uncertain hcandidate hdisk hhandle hhandles =>
    refine ⟨hhandles ▸ h.1, fun impl' himpl' _ => ?_⟩
    obtain ⟨impl, -, -, hsettled⟩ := hhandle impl' himpl'
    exact hsettled.usable
  | stopped hdisk =>
    refine ⟨h.1, fun impl himpl => ?_⟩
    cases himpl

theorem run_givenUp (hholds : Holds readers world) (events : List Event)
    (h : GivenUp identity world) : GivenUp identity (run readers world events).1 :=
  (runAll_invariant (fun world => Holds readers world ∧ GivenUp identity world)
    (fun world event h => ⟨step_holds world event h.1, step_givenUp h.1 event h.2⟩)
    events ⟨hholds, h⟩).2

/-- The entries of a usable handle, in the file. -/
def InFile (readers : Readers) (world : World) (entries : List OperationJournalEntry) : Prop :=
  ∃ text next, world.disk = some text ∧ decode readers text = .ok ⟨entries, next, false⟩ ∧
    ∀ entry ∈ entries, entry.operationId.sequence < next

section
variable (hholds : Holds readers world)
include hholds

theorem Holds.inFile (himpl : world.process.impl = some impl) (husable : impl.usable) :
    InFile readers world impl.entries := by
  obtain ⟨text, next, hdisk, hdecode, -⟩ := hholds.durable impl himpl husable
  exact ⟨text, next, hdisk, hdecode, (decode_ok hdecode).1.below⟩

/-- A refusal before the rename. -/
theorem refused_untouched (hreport : (step readers world event).2 = .refused ⟨error, false⟩) :
    (step readers world event).1.disk = world.disk ∧
    Untouched event.call world.process (step readers world event).1.process := by
  have heffect := step_effect hholds event
  rw [hreport] at heffect
  generalize (step readers world event).1 = world' at heffect ⊢
  cases heffect with
  | quiet hhandle hhandles hquiet => cases hquiet
  | refused hprocess => exact ⟨rfl, hprocess⟩
  | stored himpl husable hcandidate hsnapshot himpl' hidentity hreserved hhandles hreported =>
    cases hreported

/-- A refusal from the rename on. -/
theorem refused_givenUp (hreport : (step readers world event).2 = .refused ⟨error, true⟩)
    (himpl : (step readers world event).1.process.impl = some impl) :
    impl.usable = false ∧ GivenUp impl.identity (step readers world event).1 := by
  have hholds' := step_holds world event hholds
  have heffect := step_effect hholds event
  rw [hreport] at heffect
  generalize (step readers world event).1 = world' at heffect himpl hholds' ⊢
  cases heffect with
  | quiet hhandle hhandles hquiet => cases hquiet
  | stored himpl husable hcandidate hsnapshot himpl' hidentity hreserved hhandles hreported =>
    cases hreported
  | @uncertain process _ _ _ _ hcandidate hdisk hhandle hhandles =>
    have hunusable : ∀ other, process.impl = some other → other.usable = false := by
      intro other hother
      obtain ⟨_, -, -, hsettled⟩ := hhandle other hother
      exact hsettled.usable
    exact ⟨hunusable impl himpl, hholds'.handles impl himpl,
      fun other hother _ => hunusable other hother⟩

end

/-- Crash consistency of `OperationJournal`. -/
theorem journal_crashConsistent (readers : Readers) (disk : Disk) (events : List Event) :
    let world := (run readers (World.start disk) events).1
    (∀ impl, world.process.impl = some impl → impl.usable → InFile readers world impl.entries) ∧
    ∀ event,
      let world' := (step readers world event).1
      let report := (step readers world event).2
      (∀ error, report = .refused ⟨error, false⟩ →
        world'.disk = world.disk ∧ Untouched event.call world.process world'.process) ∧
      (∀ error, report = .refused ⟨error, true⟩ →
        OldOrNew readers (candidateOf readers world event.now event.call) world.disk world'.disk ∧
        ∀ impl, world'.process.impl = some impl → impl.usable = false ∧
          ∀ later impl', (run readers world' later).1.process.impl = some impl' →
            impl'.identity = impl.identity → impl'.usable = false) ∧ (report = .stopped →
        OldOrNew readers (candidateOf readers world event.now event.call) world.disk world'.disk) := by
  intro world
  have hholds : Holds readers world := run_holds readers disk events
  refine ⟨fun impl himpl husable => hholds.inFile himpl husable, fun event => ?_⟩
  have hdisk := effect_oldOrNew (step_effect hholds event)
  refine ⟨fun error hreport => refused_untouched hholds hreport, fun error hreport => ?_,
    fun _ => hdisk⟩
  refine ⟨hdisk, fun impl himpl => ?_⟩
  obtain ⟨hunusable, hgivenUp⟩ := refused_givenUp hholds hreport himpl
  exact ⟨hunusable, fun later impl' himpl' hsame =>
    (run_givenUp (step_holds world event hholds) later hgivenUp).2 impl' himpl' hsame⟩

end WinCommander.Operations.Journal
