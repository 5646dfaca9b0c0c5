/-
  The history of the journal: append-only, and at most one execution of an operation.

  The stored entries only ever grow: each keeps its place, its id and its plan, and nothing
  of it changes once it is terminal (`Continues`). Hence a run receipt is issued at most
  once for an id, since issuing one takes its entry out of `admitted` for good, and a
  terminal result is accepted at most once, since it makes its entry terminal.
-/
import WinCommander.Operations.Journal.Invariant

namespace WinCommander.Operations.Journal

open Library List Bool World

variable {readers : Readers} {world : World} {call : Call}

/-! ## One entry over time -/

/-- What any number of calls may make of an entry. -/
structure Continued (before after : OperationJournalEntry) : Prop where
  id : after.operationId = before.operationId
  plan : after.plan = before.plan
  begun : before.state ≠ .admitted → after.state ≠ .admitted
  terminal : isTerminal before.state = true → after = before

theorem Continued.refl (entry : OperationJournalEntry) : Continued entry entry :=
  ⟨rfl, rfl, fun h => h, fun _ => rfl⟩

theorem Continued.trans (hab : Continued a b) (hbc : Continued b c) : Continued a c := by
  refine ⟨hbc.id.trans hab.id, hbc.plan.trans hab.plan, fun h => hbc.begun (hab.begun h), ?_⟩
  intro hterminal
  have hsame := hab.terminal hterminal
  subst hsame
  exact hbc.terminal hterminal

theorem mayMove_source (h : mayMove call source target)
    : isTerminal source = false ∧ target ≠ .admitted := by
  unfold mayMove at h
  split at h
  all_goals
    simp only [and_eq_true, or_eq_true, beq_iff_eq, false_eq_true] at h
  · obtain ⟨hs, rfl⟩ := h
    rcases hs with rfl | rfl <;> exact ⟨rfl, by decide⟩
  · obtain ⟨rfl, rfl⟩ := h
    exact ⟨rfl, by decide⟩
  · obtain ⟨rfl, ht⟩ := h
    rcases ht with rfl | rfl <;> exact ⟨rfl, by decide⟩
  · obtain ⟨rfl, ht⟩ := h
    rcases ht with (rfl | rfl) | rfl <;> exact ⟨rfl, by decide⟩

theorem Evolves.continued {before after : OperationJournalEntry} (h : Evolves call before after) :
    Continued before after := by
  rcases h with rfl | ⟨hid, hplan, hmove⟩
  · exact Continued.refl after
  · obtain ⟨hsource, htarget⟩ := mayMove_source hmove
    refine ⟨hid, hplan, fun _ => htarget, fun hterminal => ?_⟩
    rw [hsource] at hterminal
    cases hterminal

/-! ## The list over time -/

/-- Every entry is still in its place. -/
def Continues (before after : List OperationJournalEntry) : Prop :=
  ∀ (k : Nat) (entry : OperationJournalEntry), before[k]? = some entry →
    ∃ entry', after[k]? = some entry' ∧ Continued entry entry'

instance : IsPreorder (List OperationJournalEntry) Continues where
  refl entries k entry h := ⟨entry, h, Continued.refl entry⟩
  trans a b c hab hbc k entry h := by
    obtain ⟨entry', h', hcontinued⟩ := hab k entry h
    obtain ⟨entry'', h'', hcontinued'⟩ := hbc k entry' h'
    exact ⟨entry'', h'', hcontinued.trans hcontinued'⟩

theorem Advances.continues {before after : List OperationJournalEntry}
    (h : Advances call before after) : Continues before after := by
  obtain ⟨kept, added, rfl, hkept, -⟩ := h
  intro k entry hentry
  obtain ⟨hk, rfl⟩ := List.getElem?_eq_some_iff.mp hentry
  have hk' : k < kept.length := hkept.length_eq ▸ hk
  refine ⟨kept[k], ?_, (hkept.get hk hk').continued⟩
  rw [List.getElem?_append_left hk', List.getElem?_eq_getElem hk']

theorem Continues.mem {before after : List OperationJournalEntry} (h : Continues before after)
    (hmem : entry ∈ before) : ∃ entry' ∈ after, Continued entry entry' := by
  obtain ⟨k, hk⟩ := mem_iff_getElem?.mp hmem
  obtain ⟨entry', hentry', hcontinued⟩ := h k entry hk
  exact ⟨entry', mem_iff_getElem?.mpr ⟨k, hentry'⟩, hcontinued⟩

theorem run_continues (hholds : Holds readers world) (events : List Event) :
    Continues (storedEntries readers world.disk)
      (storedEntries readers (run readers world events).1.disk) :=
  runAll_related (Holds readers) (fun world : World => storedEntries readers world.disk) Continues
    step_holds (fun _ event h => (step_advances h event).continues) events hholds

/-! ## At most once -/

def Report.runReceipt : Report → Option OperationId
  | .running id => some id
  | _ => none

def Report.terminal : Report → Option OperationId
  | .finalized id => some id
  | _ => none

/-- The ids that run receipts were issued for. -/
def runReceiptsIssued (reports : List Report) : List OperationId := reports.filterMap Report.runReceipt

/-- The ids that terminal results were accepted for. -/
def terminalsAccepted (reports : List Report) : List OperationId := reports.filterMap Report.terminal

theorem Replaces.mem {id : OperationId} (h : Replaces entries candidate id source target) :
    (∃ entry ∈ entries, entry.operationId = id ∧ entry.state = source) ∧
    ∃ entry ∈ candidate, entry.operationId = id ∧ entry.state = target := by
  obtain ⟨found, entry, rfl, rfl, hid, hid', -, hs, ht⟩ := h.place
  exact ⟨⟨found.entry, mem_append_right _ mem_cons_self, hid, hs⟩,
    ⟨entry, mem_append_right _ mem_cons_self, hid', ht⟩⟩

/-- What a success reports happened to the stored entries. -/
theorem step_reported (hholds : Holds readers world) (event : Event) {id : OperationId} :
    let before := storedEntries readers world.disk
    let after := storedEntries readers (step readers world event).1.disk
    ((step readers world event).2 = .running id → Replaces before after id .admitted .running) ∧
    ((step readers world event).2 = .finalized id → ∃ source target,
      (source = .admitted ∨ source = .running) ∧ isTerminal target ∧
      Replaces before after id source target) := by
  have heffect := step_effect hholds event
  generalize (step readers world event).1 = world', (step readers world event).2 = report at heffect ⊢
  cases heffect with
  | stored himpl husable hcandidate hsnapshot himpl' hidentity hreserved hhandles hreport =>
    have hcoherent := (candidate_advances hholds event.call _ _ hcandidate).1
    rw [(hholds.coherent himpl husable).1, storedEntries_of_snapshot hcoherent hsnapshot]
    constructor
    · rintro rfl
      exact hreport
    · rintro rfl
      exact hreport
  | quiet hhandle hhandles hquiet =>
    constructor <;> (rintro rfl; cases hquiet)
  | _ => exact ⟨nofun, nofun⟩

variable {f : Report → Option OperationId} {P : OperationJournalState → Prop}
  {before after : List OperationJournalEntry} {reports : List Report} {report : Report}

/-- Of the ids that `f` finds in the reports, none comes twice, and the entry of each is in a
    state that satisfies `P`. -/
structure Once (f : Report → Option OperationId) (P : OperationJournalState → Prop)
    (entries : List OperationJournalEntry) (reports : List Report) : Prop where
  nodup : (reports.filterMap f).Nodup
  entry : ∀ id ∈ reports.filterMap f, ∃ entry ∈ entries, entry.operationId = id ∧ P entry.state

/-- An entry in a state outside `P` has an id that was not reported yet. -/
theorem Once.fresh {id : OperationId} (h : Once f P before reports)
    (hnd : (before.map (·.operationId)).Nodup)
    (hentry : ∃ entry ∈ before, entry.operationId = id ∧ entry.state = source) (hsource : ¬P source)
    : id ∉ reports.filterMap f := by
  intro hmem
  obtain ⟨entry, hin, hid, hstate⟩ := hentry
  obtain ⟨other, hin', hid', hP⟩ := h.entry id hmem
  have hsame : other = entry := inj_on_of_nodup_map hnd hin' hin (hid'.trans hid.symm)
  rw [hsame, hstate] at hP
  exact hsource hP

/-- One more report: what it adds to the list takes its entry from outside `P` into `P`. -/
theorem Once.step (h : Once f P before reports) (hnd : (before.map (·.operationId)).Nodup)
    (hcontinues : Continues before after)
    (hkeep : ∀ entry entry', Continued entry entry' → P entry.state → P entry'.state)
    (hnew : ∀ id, f report = some id → ∃ source target, ¬P source ∧ P target ∧
      Replaces before after id source target) : Once f P after (reports ++ [report]) := by
  have hold : ∀ id ∈ reports.filterMap f, ∃ entry ∈ after, entry.operationId = id ∧ P entry.state := by
    intro id hmem
    obtain ⟨entry, hin, hid, hP⟩ := h.entry id hmem
    obtain ⟨entry', hin', hcontinued⟩ := hcontinues.mem hin
    exact ⟨entry', hin', hcontinued.id.trans hid, hkeep entry entry' hcontinued hP⟩
  cases hreport : f report with
  | none =>
    have hsame : (reports ++ [report]).filterMap f = reports.filterMap f := by
      rw [filterMap_append, filterMap_cons_none hreport, filterMap_nil, append_nil]
    exact ⟨hsame ▸ h.nodup, hsame ▸ hold⟩
  | some id =>
    obtain ⟨source, target, hsource, htarget, hreplaces⟩ := hnew id hreport
    obtain ⟨hbefore, entry, hin, hid, hstate⟩ := hreplaces.mem
    have hmore : (reports ++ [report]).filterMap f = (reports.filterMap f).concat id := by
      rw [filterMap_append, filterMap_cons_some hreport, filterMap_nil, concat_eq_append]
    refine ⟨hmore ▸ h.nodup.concat (h.fresh hnd hbefore hsource), ?_⟩
    rw [hmore, concat_eq_append]
    intro other hother
    rcases mem_append.mp hother with hmem | hlast
    · exact hold other hmem
    · rw [mem_singleton.mp hlast]
      exact ⟨entry, hin, hid, hstate ▸ htarget⟩

/-! ## Entry lists as a whole -/

/-- No two entries share an id or a plan id, and each passes the lifecycle check. -/
structure WellKept (entries : List OperationJournalEntry) : Prop where
  ids : (entries.map (·.operationId)).Nodup
  plans : (entries.map (·.plan.id)).Nodup
  lifecycle : ∀ entry ∈ entries, validEntryLifecycle entry = true

theorem storedEntries_wellKept (readers : Readers) (disk : Disk) :
    WellKept (storedEntries readers disk) := by
  unfold storedEntries
  split
  · exact ⟨nodup_nil, nodup_nil, by simp⟩
  · split
    · next hdecode =>
        obtain ⟨hcoherent, hlifecycle⟩ := decode_ok hdecode
        exact ⟨hcoherent.ids, hcoherent.plans, hlifecycle⟩
    · exact ⟨nodup_nil, nodup_nil, by simp⟩

/-- The run receipts so far are of entries no longer admitted, the accepted results of
    terminal ones. -/
structure AtMostOnce (readers : Readers) (world : World) (reports : List Report) : Prop where
  holds : Holds readers world
  running : Once Report.runReceipt (· ≠ .admitted) (storedEntries readers world.disk) reports
  ended : Once Report.terminal (isTerminal · = true) (storedEntries readers world.disk) reports

theorem step_atMostOnce (world : World) (reports : List Report) (event : Event)
    (h : AtMostOnce readers world reports) :
    AtMostOnce readers (step readers world event).1 (reports ++ [(step readers world event).2]) := by
  have hnd := (storedEntries_wellKept readers world.disk).ids
  have hcontinues := (step_advances h.holds event).continues
  refine ⟨step_holds world event h.holds, ?_, ?_⟩
  · refine h.running.step hnd hcontinues (fun _ _ hc => hc.begun) fun id hid => ?_
    have hreport : (step readers world event).2 = .running id := by
      cases hr : (step readers world event).2 <;> rw [hr] at hid <;> cases hid
      rfl
    exact ⟨_, _, by simp, by decide, (step_reported h.holds event).1 hreport⟩
  · refine h.ended.step hnd hcontinues (fun _ _ hc ht => (hc.terminal ht).symm ▸ ht) fun id hid => ?_
    have hreport : (step readers world event).2 = .finalized id := by
      cases hr : (step readers world event).2 <;> rw [hr] at hid <;> cases hid
      rfl
    obtain ⟨source, target, hsource, htarget, hreplaces⟩ := (step_reported h.holds event).2 hreport
    refine ⟨source, target, ?_, htarget, hreplaces⟩
    rcases hsource with rfl | rfl <;> exact Bool.false_ne_true

theorem run_atMostOnce (readers : Readers) (disk : Disk) (events : List Event) :
    AtMostOnce readers (run readers (start disk) events).1 (run readers (start disk) events).2 := by
  refine runAll_reports _ step_atMostOnce [] events ⟨start_holds readers disk, ?_, ?_⟩
  · exact ⟨nodup_nil, nofun⟩
  · exact ⟨nodup_nil, nofun⟩

/-- Append-only history and at-most-once execution, over any number of handles. -/
theorem journal_appendOnly_atMostOnce (readers : Readers) (disk : Disk) (events : List Event) :
    let world := (run readers (start disk) events).1
    let reports := (run readers (start disk) events).2
    let entries := storedEntries readers world.disk
    WellKept entries ∧
    (∀ impl, world.process.impl = some impl → WellKept impl.entries ∧ Continues impl.entries entries) ∧
    (runReceiptsIssued reports).Nodup ∧ (terminalsAccepted reports).Nodup ∧
    (∀ event, Advances event.call entries
      (storedEntries readers (step readers world event).1.disk)) ∧
    ∀ later, Continues entries (storedEntries readers (run readers world later).1.disk) := by
  intro world reports entries
  have hholds : Holds readers world := run_holds readers disk events
  have honce := run_atMostOnce readers disk events
  refine ⟨storedEntries_wellKept readers world.disk, fun impl himpl => ?_, honce.running.nodup,
    honce.ended.nodup, fun event => step_advances hholds event, fun later => run_continues hholds later⟩
  obtain ⟨hcoherent, hlifecycle⟩ := hholds.valid impl himpl
  obtain ⟨call, hadvances⟩ := hholds.behind impl himpl
  exact ⟨⟨hcoherent.ids, hcoherent.plans, hlifecycle⟩, hadvances.continues⟩

/-- A call that succeeds, on a regular file of one link that its owner alone can use. -/
def granted (result : Int) : Reply := ⟨result, 0, false, false, ⟨true, true, 1, true, 0⟩⟩

/-- The replies to a `persist` that writes in one piece. -/
def persistGranted : List Reply := [3, 3, 4096, 0, 0, 0, 0].map granted

/-- The whole life of `copyPlan` in a new directory. -/
def copyEvents : List Event :=
  [⟨.openJournal [slash], 4, [3, 0, 4, 0, 0].map granted ++
      [{ granted (-1) with errno := enoent }] ++ persistGranted⟩,
   ⟨.admitPlan copyPlan, 4, persistGranted⟩, ⟨.transitionToRunning 0, 4, persistGranted⟩,
   ⟨.finalize 0 copyEntry.itemResults .completed, 5, persistGranted⟩]

example : (run Readers.reference (start none) copyEvents).2 =
    [.opened, .admitted copyEntry.operationId, .running copyEntry.operationId,
     .finalized copyEntry.operationId] := by decide +kernel

end WinCommander.Operations.Journal
