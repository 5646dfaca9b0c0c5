/-
  The coordinator's reductions, told by the record they work on.

  A reduction that has found the record holds the lock, so the revision it expects and the
  transitions it has written down stay right until it is done. A durable outcome then always
  gets its two transitions; no transition at all is made from a terminal record.
-/
import WinCommander.Operations.Center.Coordinator
import WinCommander.Operations.Center.ModelInvariant

namespace WinCommander.Operations.Center

open Library List Option OperationRecordState ModelState
open Journal (OperationJournalState)

/-! ## The record -/

variable {found record : OperationRecord} {id : OperationId} {records : List OperationRecord}

theorem find_zipIdx_set (hid : record.operationId = id)
    (h : (records.zipIdx k).find? (fun entry => entry.1.operationId = id) = some (found, i)) :
    ∃ n, i = k + n ∧ ((records.set n record).zipIdx k).find? (fun entry => entry.1.operationId = id) =
      some (record, i) := by
  induction records generalizing k with
  | nil => cases h
  | cons first rest ih =>
    rw [zipIdx_cons, List.find?_cons] at h
    by_cases hfirst : first.operationId = id
    · simp only [hfirst, decide_true] at h
      cases h
      refine ⟨0, rfl, ?_⟩
      simp [hid, decide_true]
    · simp only [hfirst, decide_false] at h
      obtain ⟨n, hn, hset⟩ := ih h
      refine ⟨n + 1, by omega, ?_⟩
      rw [set_cons_succ, zipIdx_cons, List.find?_cons]
      simp only [hfirst, decide_false]
      exact hset

theorem find_set (h : findRecord records id = some (found, i)) (hid : record.operationId = id) :
    findRecord (records.set i record) id = some (record, i) := by
  obtain ⟨n, hn, hset⟩ := find_zipIdx_set hid h
  rw [Nat.zero_add] at hn
  subst hn
  exact hset

theorem transition_recorded {m : ModelState} (h : m.find id = some record)
    {next : OperationRecordState} (hallowed : record.state.allows next) (now : TimePoint) :
    ∃ m', m.transition id record.revision next now = (m', .recorded (transitioned record next now)) ∧
      m'.find id = some (transitioned record next now) := by
  obtain ⟨⟨found, i⟩, hfound, rfl⟩ := map_eq_some_iff.mp h
  have hid : (transitioned found next now).operationId = id := (findRecord_some hfound).2
  refine ⟨{ m with records := m.records.set i (transitioned found next now) }, ?_, ?_⟩
  · unfold transition
    rw [hfound]
    simp [hallowed]
  · unfold find
    rw [Growable.items_set, find_set hfound hid]
    rfl

theorem transition_failed {m : ModelState} (h : m.find id = some record) (revision : UInt64)
    {next : OperationRecordState}
    (hrefused : ¬(record.revision = revision ∧ record.state.allows next)) (now : TimePoint) :
    ∃ error, m.transition id revision next now = (m, .failed error) := by
  obtain ⟨⟨found, i⟩, hfound, rfl⟩ := map_eq_some_iff.mp h
  unfold transition
  rw [hfound]
  by_cases hrevision : found.revision = revision
  · have hallowed : ¬found.state.allows next := fun hallowed => hrefused ⟨hrevision, hallowed⟩
    simp only [hrevision, hallowed, ne_eq, not_true_eq_false, if_false, Bool.false_eq_true,
      not_false_eq_true, if_true]
    exact ⟨_, rfl⟩
  · simp only [hrevision, ne_eq, not_false_eq_true, if_true]
    exact ⟨_, rfl⟩

namespace Reduction

variable {reduction : Reduction} {record : OperationRecord} {next : OperationRecordState}
  {rest : List OperationRecordState} {s : OperationJournalState}

/-- After one of its transitions a reduction has the others left. -/
theorem nexts_transitioned (h : reduction.nexts record = next :: rest) (now : TimePoint) :
    reduction.nexts (transitioned record next now) = rest := by
  cases reduction with
  | started =>
    change startedNexts record = next :: rest at h
    unfold startedNexts at h
    split at h <;> cases h
    rfl
  | paused pausing =>
    change pausedNexts pausing record = next :: rest at h
    unfold pausedNexts at h
    split at h <;> cases h
    cases pausing <;> rfl
  | cancelling =>
    change cancellingNexts record = next :: rest at h
    unfold cancellingNexts at h
    split at h <;> cases h
    rfl
  | terminal s =>
    change terminalNexts s record = next :: rest at h
    show terminalNexts s (transitioned record next now) = rest
    unfold terminalNexts at h ⊢
    cases s
    all_goals simp only [operationCenterStateFromJournal] at h ⊢
    all_goals repeat' split at h
    all_goals cases h
    all_goals rfl

theorem allows_of_terminalNexts (h : terminalNexts s record = next :: rest) :
    record.state.allows next := by
  unfold terminalNexts at h
  cases s
  all_goals simp only [operationCenterStateFromJournal] at h
  all_goals repeat' split at h
  all_goals cases h
  all_goals cases hstate : record.state
  all_goals simp_all [allows, isTerminal]

/-- Only the last transition of a durable outcome ends the record, in the state it maps to. -/
theorem terminal_of_nexts (h : reduction.nexts record = next :: rest) (hnext : next.isTerminal) :
    ∃ s, reduction = .terminal s ∧ operationCenterStateFromJournal s = some next := by
  cases reduction with
  | started =>
    change startedNexts record = next :: rest at h
    unfold startedNexts at h
    split at h <;> cases h
    cases hnext
  | paused pausing =>
    change pausedNexts pausing record = next :: rest at h
    unfold pausedNexts at h
    split at h <;> cases h
    cases pausing <;> cases hnext
  | cancelling =>
    change cancellingNexts record = next :: rest at h
    unfold cancellingNexts at h
    split at h <;> cases h
    cases hnext
  | terminal s =>
    refine ⟨s, rfl, ?_⟩
    change terminalNexts s record = next :: rest at h
    unfold terminalNexts at h
    split at h
    · cases h
    · next terminalState hstate =>
        repeat' split at h
        all_goals cases h
        · cases hnext
        · exact hstate

/-- A durable outcome has nothing left to do for a terminal record only. -/
theorem terminal_of_nexts_nil (h : terminalNexts s record = [])
    (hs : (operationCenterStateFromJournal s).isSome) : record.state.isTerminal := by
  obtain ⟨terminalState, hstate⟩ := isSome_iff_exists.mp hs
  unfold terminalNexts at h
  rw [hstate] at h
  dsimp only at h
  split at h
  · next hterminal => exact hterminal
  · split at h <;> cases h

/-- A terminal record is left alone. -/
theorem step_terminal {m : ModelState} (hfind : m.find id = some record)
    (h : record.state.isTerminal) (reduction : Reduction) (now : TimePoint) (pc : ReducePc) :
    (reduction.step id m now pc).1 = m := by
  have hrefused : ∀ revision next,
      ¬(record.revision = revision ∧ record.state.allows next) := by
    rintro revision next ⟨-, hallowed⟩
    rw [not_terminal_of_allows hallowed] at h
    cases h
  unfold step
  split
  · rfl
  · rw [hfind]
  · rfl
  · next revision next rest =>
      obtain ⟨error, hfailed⟩ := transition_failed hfind revision (hrefused revision next) now
      rw [hfailed]
  · rfl

end Reduction

end WinCommander.Operations.Center
