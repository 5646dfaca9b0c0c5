/-
  The invariant of `OperationCenterModel` over runs.

  `Sound` is the invariant: identities are distinct, every record is finished exactly when
  terminal and shows the controls of its state, and there is room for every outstanding
  draft. `CallSound` is what one call does to the records. `model_sound`: both hold in every
  run, for every next call, and a record of any state reached only moves on.
-/
import WinCommander.Operations.Center.Model

namespace WinCommander.Operations.Center

open Library List OperationRecordState
open Growable (items_emplaceBack items_reserve ofList)
open Journal (OperationJournalAdmissionReceipt)

/-! ## The live drafts -/

def nonceOf (draft : AdmissionDraft) : List UInt64 := if draft.live then [draft.nonce] else []

/-- The nonces of the draft objects that are still to be published. -/
def liveNonces (drafts : List AdmissionDraft) : List UInt64 := drafts.flatMap nonceOf

variable {draft : AdmissionDraft} {drafts : List AdmissionDraft} {i : Nat}

theorem nonceOf_live (h : draft.live) : nonceOf draft = [draft.nonce] := if_pos h

theorem nonceOf_not_live (h : draft.live = false) : nonceOf draft = [] :=
  if_neg (by simp [h])

@[simp] theorem spent_live (draft : AdmissionDraft) : draft.spent.live = false := rfl

@[simp] theorem nonceOf_spent (draft : AdmissionDraft) : nonceOf draft.spent = [] := rfl

theorem liveNonces_append (drafts more : List AdmissionDraft) :
    liveNonces (drafts ++ more) = liveNonces drafts ++ liveNonces more := flatMap_append

theorem liveNonces_singleton (draft : AdmissionDraft) : liveNonces [draft] = nonceOf draft :=
  append_nil _

/-- One object's part of the live nonces, and the rest. -/
theorem liveNonces_set (h : drafts[i]? = some draft) : ∃ rest,
    (liveNonces drafts).Perm (nonceOf draft ++ rest) ∧
      ∀ other, (liveNonces (drafts.set i other)).Perm (nonceOf other ++ rest) := by
  induction drafts generalizing i with
  | nil => cases h
  | cons first more ih =>
    cases i with
    | zero =>
      cases h
      exact ⟨liveNonces more, Perm.refl _, fun _ => Perm.refl _⟩
    | succ i =>
      obtain ⟨rest, hrest, hset⟩ := ih h
      refine ⟨nonceOf first ++ rest, ?_, fun other => ?_⟩
      · have hfirst : (liveNonces (first :: more)).Perm (nonceOf first ++ (nonceOf draft ++ rest)) :=
          hrest.append_left (nonceOf first)
        exact hfirst.trans (perm_append_comm_assoc ..)
      · have hfirst : (liveNonces ((first :: more).set (i + 1) other)).Perm
            (nonceOf first ++ (nonceOf other ++ rest)) := (hset other).append_left (nonceOf first)
        exact hfirst.trans (perm_append_comm_assoc ..)

/-! ## The invariant -/

/-- What `StageAdmission` puts into a draft. -/
structure Staged (record : OperationRecord) : Prop where
  state : record.state = .queued
  revision : record.revision = 1
  finished : record.finishedAt = none
  controls : record.controls = controlsFor .queued

structure Sound (w : World) : Prop where
  distinct : (w.model.records.items.map (·.operationId)).Nodup
  records : ∀ record ∈ w.model.records.items, record.Sound
  /-- Room for every outstanding draft. -/
  room : w.model.records.items.length + w.model.admissionDrafts.length ≤ w.model.records.capacity
  drafts : w.model.admissionDrafts.Perm (liveNonces w.drafts)
  nonces : w.model.admissionDrafts.Nodup
  fresh : w.model.nextAdmissionDraftNonce ≠ 0 →
    ∀ nonce ∈ w.model.admissionDrafts, nonce < w.model.nextAdmissionDraftNonce
  staged : ∀ draft ∈ w.drafts, draft.live = true → Staged draft.record

theorem sound_start : Sound {} :=
  ⟨nodup_nil, fun _ h => (nomatch h), Nat.le_refl _, Perm.refl _, nodup_nil,
    fun _ _ h => (nomatch h), fun _ h => nomatch h⟩

/-- Calls that take terminal records from the journal. -/
def Call.hydrates : Call → Bool
  | .hydrate .. | .refreshColdHistory .. => true
  | _ => false

/-- Each record stays in its place, unchanged or changed once, and new ones follow. -/
structure Evolved (call : Call) (records records' : List OperationRecord) : Prop where
  kept : ∀ (i : Nat) (record : OperationRecord), records[i]? = some record →
    ∃ record', records'[i]? = some record' ∧ (record' = record ∨ record.Changed record')
  added : ∀ (i : Nat) (record : OperationRecord), records[i]? = none → records'[i]? = some record →
    record.revision = 1 ∧ (record.state.isTerminal = true → call.hydrates = true)

/-- What one call does to the records. -/
structure CallSound (w : World) (call : Call) (w' : World) (reply : Reply) : Prop where
  evolved : Evolved call w.model.records.items w'.model.records.items
  failed : ∀ error, reply = .failed error → w'.model.records.items = w.model.records.items
  stale : ∀ id expected next observedAt, call = .transition id expected next observedAt →
    ∀ record ∈ w.model.records.items, record.operationId = id → record.revision ≠ expected →
      w' = w ∧ reply = .failed { code := .staleRevision, currentRevision := some record.revision }
  /-- A live draft with a matching plan and a fresh identity is published in place. -/
  published : ∀ i receipt slack draft, call = .publish i receipt slack → w.drafts[i]? = some draft →
    draft.live = true → draft.record.planId = receipt.plan.id →
    (∀ record ∈ w.model.records.items, record.operationId ≠ receipt.operationId) → reply = .done ∧
      w'.model.records.items =
        w.model.records.items ++ [{ draft.record with operationId := receipt.operationId }] ∧
      w'.model.records.capacity = w.model.records.capacity ∧
      w'.model.records.allocations = w.model.records.allocations

variable {w w' : World} {call : Call} {reply : Reply}

theorem evolved_refl (call : Call) (records : List OperationRecord) : Evolved call records records := by
  refine ⟨fun i record h => ⟨record, h, .inl rfl⟩, fun i record hnone h => ?_⟩
  rw [hnone] at h
  cases h

theorem evolved_append
    (h : ∀ record ∈ added, record.revision = 1 ∧ (record.state.isTerminal → call.hydrates)) :
    Evolved call records (records ++ added) := by
  refine ⟨fun i record hrecord => ⟨record, ?_, .inl rfl⟩, fun i record hnone hrecord => ?_⟩
  · rw [List.getElem?_append_left (List.getElem?_eq_some_iff.mp hrecord).1]
    exact hrecord
  · rw [List.getElem?_append_right (List.getElem?_eq_none_iff.mp hnone)] at hrecord
    exact h record (mem_of_getElem? hrecord)

variable {records : List OperationRecord}

theorem evolved_set (hrecord : records[i]? = some record) (h : record.Changed record') :
    Evolved call records (records.set i record') := by
  refine ⟨fun k other hother => ?_, fun k other hnone hother => ?_⟩
  · by_cases hk : i = k
    · subst hk
      rw [hrecord] at hother
      cases hother
      exact ⟨record', List.getElem?_set_self (List.getElem?_eq_some_iff.mp hrecord).1, .inr h⟩
    · exact ⟨other, (List.getElem?_set_ne hk).trans hother, .inl rfl⟩
  · have hlength := List.getElem?_eq_none_iff.mp hnone
    rw [← length_set, ← List.getElem?_eq_none_iff, hother] at hlength
    cases hlength

/-- A call other than a publication or a transition that leaves the records alone. -/
theorem callSound_unchanged (hrecords : w'.model.records.items = w.model.records.items)
    (hpublish : ∀ i receipt slack, call ≠ .publish i receipt slack)
    (htransition : ∀ id expected next observedAt, call ≠ .transition id expected next observedAt) :
    CallSound w call w' reply := by
  refine ⟨?_, fun _ _ => hrecords, ?_, ?_⟩
  · rw [hrecords]
    exact evolved_refl call _
  · intro id expected next observedAt h
    exact absurd h (htransition id expected next observedAt)
  · intro i receipt slack draft h
    exact absurd h (hpublish i receipt slack)

/-! ## Draft objects -/

/-- Draft objects come and go; the records stay. -/
theorem Sound.redraft (h : Sound w) (hrecords : w'.model.records = w.model.records)
    (hnext : w'.model.nextAdmissionDraftNonce = w.model.nextAdmissionDraftNonce)
    (hfewer : w'.model.admissionDrafts.Sublist w.model.admissionDrafts)
    (hdrafts : w'.model.admissionDrafts.Perm (liveNonces w'.drafts))
    (hstaged : ∀ draft ∈ w'.drafts, draft.live → Staged draft.record) : Sound w' := by
  refine ⟨?_, ?_, ?_, hdrafts, h.nonces.sublist hfewer, ?_, hstaged⟩
  · rw [hrecords]
    exact h.distinct
  · rw [hrecords]
    exact h.records
  · rw [hrecords]
    exact Nat.le_trans (Nat.add_le_add_left hfewer.length_le _) h.room
  · rw [hnext]
    exact fun hne nonce hnonce => h.fresh hne nonce (hfewer.subset hnonce)

theorem staged_set (h : ∀ draft ∈ drafts, draft.live → Staged draft.record)
    (hother : other.live → Staged other.record) :
    ∀ draft ∈ drafts.set i other, draft.live → Staged draft.record := by
  intro draft hdraft hlive
  obtain hold | rfl := mem_or_eq_of_mem_set hdraft
  · exact h draft hold hlive
  · exact hother hlive

theorem staged_spent (draft : AdmissionDraft) : draft.spent.live → Staged draft.spent.record := by
  rw [spent_live]
  exact fun h => absurd h Bool.false_ne_true

theorem moveConstruct_sound (h : Sound w) (source : Nat) : Sound (moveConstruct w source) := by
  unfold moveConstruct
  split
  · exact h
  · next other hother =>
      obtain ⟨rest, hrest, hset⟩ := liveNonces_set hother
      have hstaged := h.staged other (mem_of_getElem? hother)
      refine h.redraft rfl rfl (Sublist.refl _) ?_ ?_
      · -- The object's nonce moves from its place to the end.
        rw [liveNonces_append, liveNonces_singleton]
        have hmoved := (hset other.spent).append_right (nonceOf other)
        exact (h.drafts.trans hrest).trans ((hmoved.trans perm_append_comm).symm)
      · intro draft hdraft hlive
        obtain hdraft | hdraft := mem_append.mp hdraft
        · exact staged_set h.staged (staged_spent other) draft hdraft hlive
        · rw [mem_singleton.mp hdraft] at hlive ⊢
          exact hstaged hlive

/-- Releasing a draft takes its nonce away. -/
theorem releaseDraft_perm (h : m.admissionDrafts.Perm (nonceOf draft ++ rest)) :
    (releaseDraft m draft).admissionDrafts.Perm rest ∧
      (releaseDraft m draft).admissionDrafts.Sublist m.admissionDrafts ∧
      (releaseDraft m draft).records = m.records ∧
      (releaseDraft m draft).nextAdmissionDraftNonce = m.nextAdmissionDraftNonce := by
  unfold releaseDraft
  split
  · next hlive =>
      rw [nonceOf_live hlive] at h
      have herased := h.erase draft.nonce
      rw [singleton_append, erase_cons_head] at herased
      exact ⟨herased, erase_sublist, rfl, rfl⟩
  · next hlive =>
      rw [nonceOf_not_live (Bool.eq_false_iff.mpr hlive)] at h
      exact ⟨h, Sublist.refl _, rfl, rfl⟩

theorem destroy_sound (h : Sound w) (i : Nat) : Sound (destroy w i) := by
  unfold destroy
  split
  · exact h
  · next draft hdraft =>
      obtain ⟨rest, hrest, hset⟩ := liveNonces_set hdraft
      obtain ⟨hperm, hfewer, hrecords, hnext⟩ := releaseDraft_perm (h.drafts.trans hrest)
      refine h.redraft hrecords hnext hfewer ?_ ?_
      · have hspent := hset draft.spent
        exact hperm.trans hspent.symm
      · exact staged_set h.staged (staged_spent draft)

theorem moveAssign_sound (h : Sound w) (target source : Nat) : Sound (moveAssign w target source) := by
  unfold moveAssign
  split
  · exact h
  · next hne =>
      split
      · next draft other hdraft hother =>
          obtain ⟨rest, hrest, hset⟩ := liveNonces_set hdraft
          obtain ⟨hperm, hfewer, hrecords, hnext⟩ := releaseDraft_perm (h.drafts.trans hrest)
          -- The target is overwritten twice: spent, then with the other draft.
          have htwice : (w.drafts.set target draft.spent).set target other = w.drafts.set target other :=
            set_set _
          have hsource : (w.drafts.set target other)[source]? = some other := by
            rw [List.getElem?_set_ne hne]
            exact hother
          obtain ⟨rest', hrest', hset'⟩ := liveNonces_set hsource
          have hsame : rest.Perm rest' :=
            (perm_append_left_iff (nonceOf other)).mp ((hset other).symm.trans hrest')
          have hstaged := h.staged other (mem_of_getElem? hother)
          refine h.redraft hrecords hnext hfewer ?_ ?_
          · rw [htwice]
            have hspent := hset' other.spent
            exact (hperm.trans hsame).trans hspent.symm
          · rw [htwice]
            exact staged_set (staged_set h.staged hstaged) (staged_spent other)
      · exact h

theorem foreignDraft_sound (h : Sound w) (draft : AdmissionDraft) :
    Sound { w with drafts := w.drafts ++ [{ draft with mine := false }] } := by
  have hforeign : ({ draft with mine := false } : AdmissionDraft).live = false := Bool.and_false _
  refine h.redraft rfl rfl (Sublist.refl _) ?_ ?_
  · rw [liveNonces_append, liveNonces_singleton, nonceOf_not_live hforeign, append_nil]
    exact h.drafts
  · intro d hd hlive
    obtain hd | hd := mem_append.mp hd
    · exact h.staged d hd hlive
    · rw [mem_singleton.mp hd, hforeign] at hlive
      cases hlive

/-! ## Admission -/

theorem lt_add_one_of_ne_zero {n : UInt64} (h : n + 1 ≠ 0) : n < n + 1 := by
  have hne : (n + 1).toNat ≠ 0 := fun heq => h (UInt64.toNat_inj.mp heq)
  have hlt := n.toNat_lt
  rw [UInt64.toNat_add, UInt64.toNat_one] at hne
  rw [UInt64.lt_iff_toNat_lt, UInt64.toNat_add, UInt64.toNat_one]
  omega

theorem stagedRecord_staged (plan : OperationPlan) (createdAt : TimePoint) :
    Staged (stagedRecord plan createdAt) := ⟨rfl, rfl, rfl, rfl⟩

theorem stageAdmission_items (w : World) (plan : OperationPlan) (createdAt : TimePoint) (slack : Nat) :
    (stageAdmission w plan createdAt slack).1.model.records.items = w.model.records.items := by
  unfold stageAdmission
  dsimp only
  split
  · rfl
  · split
    · exact items_reserve ..
    · exact items_reserve ..

theorem stageAdmission_sound (h : Sound w) (plan : OperationPlan) (createdAt : TimePoint)
    (slack : Nat) : Sound (stageAdmission w plan createdAt slack).1 := by
  have hitems := stageAdmission_items w plan createdAt slack
  unfold stageAdmission at hitems ⊢
  dsimp only at hitems ⊢
  split at hitems
  · next hexhausted =>
      rw [if_pos hexhausted]
      exact h
  · next hnonce =>
      have hlt := h.fresh hnonce
      have hnew : w.model.nextAdmissionDraftNonce ∉ w.model.admissionDrafts :=
        fun hmem => absurd (hlt _ hmem) (UInt64.lt_irrefl _)
      rw [if_neg hnew] at hitems
      rw [if_neg hnonce, if_neg hnew]
      refine ⟨?_, ?_, ?_, ?_, nodup_cons.mpr ⟨hnew, h.nonces⟩, ?_, ?_⟩
      · rw [hitems]
        exact h.distinct
      · rw [hitems]
        exact h.records
      · rw [hitems, length_cons]
        exact Growable.le_capacity_reserve ..
      · rw [liveNonces_append, liveNonces_singleton, nonceOf_live rfl]
        exact (h.drafts.cons _).trans (perm_append_singleton _ _).symm
      · intro hne nonce hmem
        obtain rfl | hmem := mem_cons.mp hmem
        · exact lt_add_one_of_ne_zero hne
        · exact UInt64.lt_trans (hlt nonce hmem) (lt_add_one_of_ne_zero hne)
      · intro draft hdraft hlive
        obtain hdraft | hdraft := mem_append.mp hdraft
        · exact h.staged draft hdraft hlive
        · rw [mem_singleton.mp hdraft]
          exact stagedRecord_staged plan createdAt

/-- What `Publish` accepts. -/
structure Publishable (w : World) (i : Nat) (receipt : OperationJournalAdmissionReceipt)
    (draft : AdmissionDraft) : Prop where
  place : w.drafts[i]? = some draft
  live : draft.live = true
  plan : draft.record.planId = receipt.plan.id
  identity : ∀ record ∈ w.model.records.items, record.operationId ≠ receipt.operationId

/-- The state after a publication. -/
def published (w : World) (i : Nat) (receipt : OperationJournalAdmissionReceipt)
    (draft : AdmissionDraft) (slack : Nat) : World where
  model := { w.model with
    records :=
      w.model.records.emplaceBack { draft.record with operationId := receipt.operationId } slack
    admissionDrafts := w.model.admissionDrafts.erase draft.nonce }
  drafts := w.drafts.set i draft.spent

variable {receipt : OperationJournalAdmissionReceipt} {record : OperationRecord}

/-- A live draft is outstanding, so there is room for it. -/
theorem Sound.outstanding (h : Sound w) (hp : Publishable w i receipt draft) :
    draft.nonce ∈ w.model.admissionDrafts ∧
      w.model.records.items.length < w.model.records.capacity := by
  obtain ⟨rest, hrest, -⟩ := liveNonces_set hp.place
  have hmem : draft.nonce ∈ w.model.admissionDrafts := by
    refine (h.drafts.trans hrest).mem_iff.mpr ?_
    rw [nonceOf_live hp.live]
    exact mem_append_left _ (mem_singleton.mpr rfl)
  have hpos := length_pos_of_mem hmem
  have hroom := h.room
  exact ⟨hmem, by omega⟩

theorem publish_publishable (h : Sound w) (hp : Publishable w i receipt draft) (slack : Nat) :
    publish w i receipt slack = (published w i receipt draft slack, .done) := by
  obtain ⟨hmem, hroom⟩ := h.outstanding hp
  obtain ⟨hconsumed, hmine⟩ := Bool.and_eq_true_iff.mp hp.live
  have hany : ¬(w.model.records.items.any fun record => record.operationId = receipt.operationId) := by
    intro hany
    obtain ⟨record, hrecord, heq⟩ := any_eq_true.mp hany
    exact hp.identity record hrecord (of_decide_eq_true heq)
  have hconsumed' : ¬draft.consumed := by
    intro hc
    rw [hc] at hconsumed
    cases hconsumed
  unfold publish
  rw [hp.place]
  dsimp only
  rw [if_neg hconsumed', if_neg (not_not.mpr hmine), if_neg (not_not.mpr hmem),
    if_neg (not_not.mpr hp.plan), if_neg hany, if_neg (Nat.ne_of_lt hroom)]
  rfl

/-- A publication that is not accepted changes nothing. -/
theorem publish_cases (w : World) (i : Nat) (receipt : OperationJournalAdmissionReceipt)
    (slack : Nat) : (publish w i receipt slack).1 = w ∨ ∃ draft, Publishable w i receipt draft ∧
        publish w i receipt slack = (published w i receipt draft slack, .done) := by
  unfold publish
  dsimp only
  split
  · exact .inl rfl
  · next draft hplace =>
      split
      · exact .inl rfl
      · next hconsumed =>
          split
          · exact .inl rfl
          · next hmine =>
              split
              · exact .inl rfl
              · split
                · exact .inl rfl
                · next hplan =>
                    split
                    · exact .inl rfl
                    · next hany =>
                        split
                        · exact .inl rfl
                        · refine .inr ⟨draft, ⟨hplace, ?_, not_not.mp hplan, ?_⟩, rfl⟩
                          · unfold AdmissionDraft.live
                            rw [not_not.mp hmine, Bool.eq_false_iff.mpr hconsumed]
                            rfl
                          · intro record hrecord heq
                            exact hany (any_eq_true.mpr ⟨record, hrecord, decide_eq_true heq⟩)

theorem published_sound (h : Sound w) (hp : Publishable w i receipt draft) (slack : Nat) :
    Sound (published w i receipt draft slack) := by
  obtain ⟨hmem, hroom⟩ := h.outstanding hp
  obtain ⟨rest, hrest, hset⟩ := liveNonces_set hp.place
  have hstaged := h.staged draft (mem_of_getElem? hp.place) hp.live
  refine ⟨?_, ?_, ?_, ?_, h.nonces.erase _, ?_, ?_⟩
  · show ((w.model.records.emplaceBack _ slack).items.map (·.operationId)).Nodup
    rw [items_emplaceBack, map_append, map_singleton, ← concat_eq_append]
    refine Nodup.concat ?_ h.distinct
    intro hin
    obtain ⟨record, hrecord, heq⟩ := mem_map.mp hin
    exact hp.identity record hrecord heq
  · show ∀ record ∈ (w.model.records.emplaceBack _ slack).items, record.Sound
    rw [items_emplaceBack]
    intro record hrecord
    obtain hrecord | hrecord := mem_append.mp hrecord
    · exact h.records record hrecord
    · rw [mem_singleton.mp hrecord]
      refine ⟨?_, ?_⟩
      · rw [hstaged.finished, hstaged.state]
        rfl
      · rw [hstaged.state]
        exact hstaged.controls
  · show (w.model.records.emplaceBack _ slack).items.length + (w.model.admissionDrafts.erase _).length ≤
      (w.model.records.emplaceBack _ slack).capacity
    have hpos := length_pos_of_mem hmem
    have hold := h.room
    rw [(Growable.emplaceBack_of_lt hroom _ slack).1, items_emplaceBack, length_append,
      length_singleton, length_erase_of_mem hmem]
    omega
  · have hperm := (h.drafts.trans hrest).erase draft.nonce
    rw [nonceOf_live hp.live, singleton_append, erase_cons_head] at hperm
    have hspent := hset draft.spent
    exact hperm.trans hspent.symm
  · exact fun hne nonce hnonce => h.fresh hne nonce (mem_of_mem_erase hnonce)
  · exact staged_set h.staged (staged_spent draft)

/-! ## Transitions -/

theorem findRecord_some {id : OperationId} (h : findRecord records id = some (found, i)) :
    records[i]? = some found ∧ found.operationId = id := by
  have hmem := List.mem_of_find?_eq_some h
  have hid := List.find?_some h
  exact ⟨mem_zipIdx_iff_getElem?.mp hmem, of_decide_eq_true hid⟩

theorem findRecord_none {id : OperationId} (h : findRecord records id = none) :
    ∀ record ∈ records, record.operationId ≠ id := by
  intro record hrecord heq
  obtain ⟨i, hi⟩ := mem_iff_getElem?.mp hrecord
  have hnot := List.find?_eq_none.mp h (record, i) (mem_zipIdx_iff_getElem?.mpr hi)
  exact hnot (decide_eq_true heq)

theorem transitioned_changed {next : OperationRecordState} (h : record.state.allows next)
    (observedAt : TimePoint) : record.Changed (transitioned record next observedAt) :=
  ⟨⟨rfl, rfl, rfl, rfl⟩, rfl, not_terminal_of_allows h, fun hnext => finalizing_of_allows h hnext⟩

theorem transitioned_sound {next : OperationRecordState} (hrecord : record.Sound)
    (h : record.state.allows next) (observedAt : TimePoint) :
    (transitioned record next observedAt).Sound := by
  refine ⟨?_, rfl⟩
  show (if next.isTerminal = true then some observedAt else record.finishedAt).isSome = next.isTerminal
  cases hterminal : next.isTerminal with
  | true => rfl
  | false =>
    have hunfinished := hrecord.finished
    rw [not_terminal_of_allows h] at hunfinished
    exact hunfinished

/-- What a transition does: nothing, or one change of one record. -/
theorem transition_cases (m : ModelState) (id : OperationId) (expected : UInt64)
    (next : OperationRecordState) (observedAt : TimePoint) :
    ((m.transition id expected next observedAt).1 = m ∧
      ∃ error, (m.transition id expected next observedAt).2 = .failed error) ∨
    ∃ i record, m.records.items[i]? = some record ∧ record.operationId = id ∧
      record.revision = expected ∧ record.state.allows next ∧
      m.transition id expected next observedAt =
        ({ m with records := m.records.set i (transitioned record next observedAt) },
          .recorded (transitioned record next observedAt)) := by
  unfold ModelState.transition
  split
  · exact .inl ⟨rfl, _, rfl⟩
  · next found i hfound =>
      obtain ⟨hplace, hid⟩ := findRecord_some hfound
      split
      · exact .inl ⟨rfl, _, rfl⟩
      · next hrevision =>
          split
          · exact .inl ⟨rfl, _, rfl⟩
          · next hallowed =>
              exact .inr ⟨i, found, hplace, hid, not_not.mp hrevision, not_not.mp hallowed, rfl⟩

theorem map_set_same (h : records[i]? = some record)
    (hid : record'.operationId = record.operationId) :
    (records.set i record').map (·.operationId) = records.map (·.operationId) := by
  induction records generalizing i with
  | nil => rfl
  | cons first rest ih =>
    cases i with
    | zero =>
      cases h
      show record'.operationId :: rest.map _ = _
      rw [hid]
      rfl
    | succ i =>
      show first.operationId :: (rest.set i record').map (·.operationId) = _
      rw [ih h]
      rfl

theorem Sound.set_record (h : Sound w) (hplace : w.model.records.items[i]? = some record)
    (hsame : record.SameIdentity record') (hrecord : record'.Sound) :
    Sound { w with model := { w.model with records := w.model.records.set i record' } } := by
  refine ⟨?_, ?_, ?_, h.drafts, h.nonces, h.fresh, h.staged⟩
  · show ((w.model.records.items.set i record').map (·.operationId)).Nodup
    rw [map_set_same hplace hsame.operationId]
    exact h.distinct
  · intro other hother
    obtain hother | rfl := mem_or_eq_of_mem_set hother
    · exact h.records other hother
    · exact hrecord
  · show (w.model.records.items.set i record').length + _ ≤ w.model.records.capacity
    rw [length_set]
    exact h.room

/-- A stale revision. -/
theorem transition_stale (h : (w.model.records.items.map (·.operationId)).Nodup) {id : OperationId}
    (hrecord : record ∈ w.model.records.items) (hid : record.operationId = id)
    (hstale : record.revision ≠ expected) (next : OperationRecordState) (observedAt : TimePoint) :
    w.model.transition id expected next observedAt =
      (w.model, .failed { code := .staleRevision, currentRevision := some record.revision }) := by
  unfold ModelState.transition
  cases hfound : findRecord w.model.records.items id with
  | none => exact absurd hid (findRecord_none hfound record hrecord)
  | some entry =>
    obtain ⟨found, i⟩ := entry
    obtain ⟨hplace, hfoundId⟩ := findRecord_some hfound
    have hsame : found = record :=
      inj_on_of_nodup_map h (mem_of_getElem? hplace) hrecord (hfoundId.trans hid.symm)
    rw [← hsame] at hstale ⊢
    exact if_pos hstale

/-! ## History -/

/-- A record taken from the journal. -/
structure Restored (record : OperationRecord) : Prop where
  sound : record.Sound
  revision : record.revision = 1

theorem hydrated_restored (h : hydratable record) : Restored (hydrated record) := by
  unfold hydratable at h
  simp only [Bool.and_eq_true, beq_iff_eq] at h
  obtain ⟨⟨⟨hterminal, hrevision⟩, hfinished⟩, -⟩ := h
  refine ⟨⟨?_, rfl⟩, hrevision⟩
  show record.finishedAt.isSome = record.state.isTerminal
  rw [hfinished, hterminal]

theorem hydrateRecords_ok {maximum last : UInt64}
    (h : hydrateRecords sequences maximum records = .ok (items, last)) :
    (∀ record ∈ items, Restored record ∧ record.operationId.sequence ∉ sequences) ∧
      (items.map (·.operationId)).Nodup := by
  induction records generalizing sequences maximum last items with
  | nil =>
    cases h
    exact ⟨fun _ h => (nomatch h), nodup_nil⟩
  | cons record rest ih =>
    unfold hydrateRecords at h
    simp only [refuse_ok_iff, bind_ok_iff, Prod.exists, not_not] at h
    obtain ⟨_, hhydratable, _, hfresh, later, last', hlater, heq⟩ := h
    cases heq
    obtain ⟨hrest, hnodup⟩ := ih hlater
    refine ⟨?_, ?_⟩
    · intro r hr
      obtain rfl | hr := mem_cons.mp hr
      · exact ⟨hydrated_restored hhydratable, hfresh⟩
      · exact ⟨(hrest r hr).1, fun hmem => (hrest r hr).2 (mem_cons_of_mem _ hmem)⟩
    · rw [map_cons]
      refine nodup_cons.mpr ⟨fun hmem => ?_, hnodup⟩
      obtain ⟨r, hr, heq⟩ := mem_map.mp hmem
      refine (hrest r hr).2 ?_
      rw [heq]
      exact mem_cons_self

theorem refreshRecords_ok {maximum last : UInt64}
    (h : refreshRecords current sequences maximum records = .ok (additions, last)) :
    (∀ record ∈ additions, Restored record ∧ record.operationId.sequence ∉ sequences ∧
      ∀ c ∈ current, c.operationId ≠ record.operationId) ∧
      (additions.map (·.operationId)).Nodup := by
  induction records generalizing sequences maximum last additions with
  | nil =>
    cases h
    exact ⟨fun _ h => (nomatch h), nodup_nil⟩
  | cons record rest ih =>
    unfold refreshRecords at h
    simp only [refuse_ok_iff, bind_ok_iff, Prod.exists, not_not] at h
    obtain ⟨_, hhydratable, _, hfresh, _, -, later, last', hlater, heq⟩ := h
    obtain ⟨hrest, hnodup⟩ := ih hlater
    have hrest' : ∀ r ∈ later, Restored r ∧ r.operationId.sequence ∉ sequences ∧
        ∀ c ∈ current, c.operationId ≠ r.operationId := fun r hr =>
      ⟨(hrest r hr).1, fun hmem => (hrest r hr).2.1 (mem_cons_of_mem _ hmem), (hrest r hr).2.2⟩
    cases hknown : current.find? (fun c => c.operationId = record.operationId) with
    | some c =>
      rw [hknown] at heq
      cases heq
      exact ⟨hrest', hnodup⟩
    | none =>
      rw [hknown] at heq
      cases heq
      refine ⟨?_, ?_⟩
      · intro r hr
        obtain rfl | hr := mem_cons.mp hr
        · refine ⟨hydrated_restored hhydratable, hfresh, fun c hc heq => ?_⟩
          exact List.find?_eq_none.mp hknown c hc (decide_eq_true heq)
        · exact hrest' r hr
      · refine nodup_cons.mpr ⟨fun hmem => ?_, hnodup⟩
        obtain ⟨r, hr, heq⟩ := mem_map.mp hmem
        refine (hrest r hr).2.1 ?_
        rw [heq]
        exact mem_cons_self

/-- Restored records follow the ones that are there, and no draft is outstanding. -/
theorem Sound.restore (nextSequence : UInt64) (h : Sound w) (hdrafts : w.model.admissionDrafts = [])
    (hadded : ∀ record ∈ added, Restored record ∧ ∀ c ∈ w.model.records.items, c.operationId ≠ record.operationId)
    (hnodup : (added.map (·.operationId)).Nodup) (slack : Nat) :
    Sound { w with model := { w.model with
      nextSequence := nextSequence
      records := ofList (w.model.records.items ++ added) slack } } := by
  refine ⟨?_, ?_, ?_, h.drafts, h.nonces, h.fresh, h.staged⟩
  · show ((w.model.records.items ++ added).map (·.operationId)).Nodup
    rw [map_append]
    refine Nodup.append h.distinct hnodup ?_
    intro id hold hnew
    obtain ⟨c, hc, rfl⟩ := mem_map.mp hold
    obtain ⟨r, hr, heq⟩ := mem_map.mp hnew
    exact (hadded r hr).2 c hc heq.symm
  · intro record hrecord
    obtain hrecord | hrecord := mem_append.mp hrecord
    · exact h.records record hrecord
    · exact (hadded record hrecord).1.sound
  · rw [hdrafts]
    exact Nat.le_add_right _ _

theorem hydrate_cases (w : World) (records : List OperationRecord) (slack : Nat) :
    (hydrate w records slack).1 = w ∨
    ∃ added nextSequence, w.model.records.items = [] ∧ w.model.admissionDrafts = [] ∧
      (∀ record ∈ added, Restored record) ∧ (added.map (·.operationId)).Nodup ∧
      hydrate w records slack = ({ w with model := { w.model with
        nextSequence := nextSequence, records := ofList added slack } }, .done) := by
  unfold hydrate
  dsimp only
  split
  · exact .inl rfl
  · next hstart =>
      simp only [not_or, not_not] at hstart
      obtain ⟨hempty, -, hdrafts, -⟩ := hstart
      split
      · exact .inl rfl
      · next items maximum hok =>
          obtain ⟨hrestored, hnodup⟩ := hydrateRecords_ok hok
          split
          · exact .inl rfl
          · exact .inr ⟨items, maximum + 1, hempty, hdrafts, fun r hr => (hrestored r hr).1, hnodup, rfl⟩

theorem refreshColdHistory_cases (w : World) (records : List OperationRecord) (slack : Nat)
    (outOfMemory : Bool) : (refreshColdHistory w records slack outOfMemory).1 = w ∨
    ∃ added nextSequence, w.model.admissionDrafts = [] ∧ (∀ record ∈ added, Restored record ∧
        ∀ c ∈ w.model.records.items, c.operationId ≠ record.operationId) ∧
      (added.map (·.operationId)).Nodup ∧
      refreshColdHistory w records slack outOfMemory = ({ w with model := { w.model with
        nextSequence := nextSequence
        records := ofList (w.model.records.items ++ added) slack } }, .done) := by
  unfold refreshColdHistory
  dsimp only
  split
  · exact .inl rfl
  · split
    · exact .inl rfl
    · next hcold =>
        simp only [not_or, not_not] at hcold
        split
        · exact .inl rfl
        · next additions maximum hok =>
            obtain ⟨hrestored, hnodup⟩ := refreshRecords_ok hok
            split
            · exact .inl rfl
            · split
              · exact .inl rfl
              · exact .inr ⟨additions, _, hcold.2.1,
                  fun r hr => ⟨(hrestored r hr).1, (hrestored r hr).2.2⟩, hnodup, rfl⟩

/-! ## Every run -/

theorem step_sound (h : Sound w) (call : Call) : Sound (step w call).1 := by
  cases call with
  | stageAdmission plan createdAt slack => exact stageAdmission_sound h plan createdAt slack
  | publish i receipt slack =>
    show Sound (publish w i receipt slack).1
    obtain hsame | ⟨draft, hp, hpublished⟩ := publish_cases w i receipt slack
    · rw [hsame]
      exact h
    · rw [hpublished]
      exact published_sound h hp slack
  | moveConstruct source => exact moveConstruct_sound h source
  | moveAssign target source => exact moveAssign_sound h target source
  | destroy i => exact destroy_sound h i
  | foreignDraft draft => exact foreignDraft_sound h draft
  | transition id expected next observedAt =>
    show Sound { w with model := (w.model.transition id expected next observedAt).1 }
    rcases transition_cases w.model id expected next observedAt with
      ⟨hsame, -⟩ | ⟨i, record, hplace, -, -, hallowed, hmoved⟩
    · rw [hsame]
      exact h
    · rw [hmoved]
      exact h.set_record hplace (transitioned_changed hallowed observedAt).same
        (transitioned_sound (h.records record (mem_of_getElem? hplace)) hallowed observedAt)
  | hydrate records slack =>
    show Sound (hydrate w records slack).1
    obtain hsame | ⟨added, next, hempty, hdrafts, hrestored, hnodup, heq⟩ := hydrate_cases w records slack
    · rw [hsame]
      exact h
    · have hsound := h.restore next hdrafts (fun r hr => ⟨hrestored r hr, ?_⟩) hnodup slack
      · rw [hempty, nil_append] at hsound
        rw [heq]
        exact hsound
      · rw [hempty]
        exact fun _ hc => nomatch hc
  | refreshColdHistory records slack outOfMemory =>
    show Sound (refreshColdHistory w records slack outOfMemory).1
    rcases refreshColdHistory_cases w records slack outOfMemory with
      hsame | ⟨added, next, hdrafts, hrestored, hnodup, heq⟩
    · rw [hsame]
      exact h
    · rw [heq]
      exact h.restore next hdrafts hrestored hnodup slack

theorem publish_callSound (h : Sound w) (i : Nat) (receipt : OperationJournalAdmissionReceipt)
    (slack : Nat) :
    CallSound w (.publish i receipt slack) (publish w i receipt slack).1 (publish w i receipt slack).2 := by
  have hpublished : ∀ {draft}, Publishable w i receipt draft →
      (published w i receipt draft slack).model.records.items =
        w.model.records.items ++ [{ draft.record with operationId := receipt.operationId }] :=
    fun _ => items_emplaceBack ..
  refine ⟨?_, ?_, ?_, ?_⟩
  · obtain hsame | ⟨draft, hp, heq⟩ := publish_cases w i receipt slack
    · rw [hsame]
      exact evolved_refl _ _
    · have hstaged := h.staged draft (mem_of_getElem? hp.place) hp.live
      rw [heq, hpublished hp]
      refine evolved_append fun record hrecord => ?_
      rw [mem_singleton.mp hrecord]
      refine ⟨hstaged.revision, fun hterminal => ?_⟩
      have hterminal' : draft.record.state.isTerminal := hterminal
      rw [hstaged.state] at hterminal'
      cases hterminal'
  · intro error hfailed
    obtain hsame | ⟨draft, hp, heq⟩ := publish_cases w i receipt slack
    · rw [hsame]
    · rw [heq] at hfailed
      cases hfailed
  · intro id expected next observedAt hcall
    cases hcall
  · intro i' receipt' slack' draft hcall hplace hlive hplan hidentity
    cases hcall
    have hp : Publishable w i receipt draft := ⟨hplace, hlive, hplan, hidentity⟩
    have hroom := (h.outstanding hp).2
    rw [publish_publishable h hp slack]
    exact ⟨rfl, hpublished hp, Growable.emplaceBack_of_lt hroom _ slack⟩

theorem transition_callSound (h : Sound w) (id : OperationId) (expected : UInt64)
    (next : OperationRecordState) (observedAt : TimePoint) :
    CallSound w (.transition id expected next observedAt)
      { w with model := (w.model.transition id expected next observedAt).1 }
      (w.model.transition id expected next observedAt).2 := by
  refine ⟨?_, ?_, ?_, ?_⟩
  · rcases transition_cases w.model id expected next observedAt with
      ⟨hsame, -⟩ | ⟨i, record, hplace, -, -, hallowed, hmoved⟩
    · rw [hsame]
      exact evolved_refl _ _
    · rw [hmoved]
      exact evolved_set hplace (transitioned_changed hallowed observedAt)
  · intro error hfailed
    obtain ⟨hsame, -⟩ | ⟨i, record, -, -, -, -, hmoved⟩ := transition_cases w.model id expected next observedAt
    · rw [hsame]
    · rw [hmoved] at hfailed
      cases hfailed
  · intro id' expected' next' observedAt' hcall record hrecord hid hstale
    cases hcall
    rw [transition_stale h.distinct hrecord hid hstale]
    exact ⟨rfl, rfl⟩
  · intro i receipt slack draft hcall
    cases hcall

/-- A call that takes records from the journal. -/
theorem restore_callSound (hhydrates : call.hydrates)
    (hitems : w'.model.records.items = w.model.records.items ++ added)
    (hadded : ∀ record ∈ added, Restored record) : CallSound w call w' .done := by
  refine ⟨?_, fun error hfailed => (nomatch hfailed), ?_, ?_⟩
  · rw [hitems]
    exact evolved_append fun record hrecord => ⟨(hadded record hrecord).revision, fun _ => hhydrates⟩
  · intro id expected next observedAt hcall
    rw [hcall] at hhydrates
    cases hhydrates
  · intro i receipt slack draft hcall
    rw [hcall] at hhydrates
    cases hhydrates

theorem step_callSound (h : Sound w) (call : Call) :
    CallSound w call (step w call).1 (step w call).2 := by
  cases call with
  | stageAdmission plan createdAt slack =>
    refine callSound_unchanged (stageAdmission_items w plan createdAt slack) ?_ ?_
    · exact fun _ _ _ hcall => nomatch hcall
    · exact fun _ _ _ _ hcall => nomatch hcall
  | publish i receipt slack => exact publish_callSound h i receipt slack
  | moveConstruct source =>
    refine callSound_unchanged ?_ (fun _ _ _ hcall => nomatch hcall) fun _ _ _ _ hcall => nomatch hcall
    show (moveConstruct w source).model.records.items = _
    unfold moveConstruct
    split <;> rfl
  | moveAssign target source =>
    refine callSound_unchanged ?_ (fun _ _ _ hcall => nomatch hcall) fun _ _ _ _ hcall => nomatch hcall
    show (moveAssign w target source).model.records.items = _
    unfold moveAssign releaseDraft
    split
    · rfl
    · split
      · split <;> rfl
      · rfl
  | destroy i =>
    refine callSound_unchanged ?_ (fun _ _ _ hcall => nomatch hcall) fun _ _ _ _ hcall => nomatch hcall
    show (destroy w i).model.records.items = _
    unfold destroy releaseDraft
    split
    · rfl
    · split <;> rfl
  | foreignDraft draft =>
    exact callSound_unchanged rfl (fun _ _ _ hcall => nomatch hcall) fun _ _ _ _ hcall => nomatch hcall
  | transition id expected next observedAt => exact transition_callSound h id expected next observedAt
  | hydrate records slack =>
    show CallSound w _ (hydrate w records slack).1 (hydrate w records slack).2
    obtain hsame | ⟨added, next, hempty, -, hrestored, -, heq⟩ := hydrate_cases w records slack
    · rw [hsame]
      exact callSound_unchanged rfl (fun _ _ _ hcall => nomatch hcall) fun _ _ _ _ hcall => nomatch hcall
    · rw [heq]
      refine restore_callSound rfl ?_ hrestored
      rw [hempty]
      rfl
  | refreshColdHistory records slack outOfMemory =>
    show CallSound w _ (refreshColdHistory w records slack outOfMemory).1
      (refreshColdHistory w records slack outOfMemory).2
    rcases refreshColdHistory_cases w records slack outOfMemory with
      hsame | ⟨added, next, -, hrestored, -, heq⟩
    · rw [hsame]
      exact callSound_unchanged rfl (fun _ _ _ hcall => nomatch hcall) fun _ _ _ _ hcall => nomatch hcall
    · rw [heq]
      exact restore_callSound rfl rfl fun record hrecord => (hrestored record hrecord).1

/-- Records are never removed or reordered, and only move on. -/
def Kept (records records' : List OperationRecord) : Prop :=
  ∀ (i : Nat) (record : OperationRecord), records[i]? = some record →
    ∃ record', records'[i]? = some record' ∧ record.Later record'

instance : IsPreorder (List OperationRecord) Kept where
  refl records i record h := ⟨record, h, OperationRecord.Later.refl record⟩
  trans a b c hab hbc i record h := by
    obtain ⟨record', h', hlater⟩ := hab i record h
    obtain ⟨record'', h'', hlater'⟩ := hbc i record' h'
    exact ⟨record'', h'', hlater.trans hlater'⟩

theorem Evolved.kept_later (h : Evolved call records records') : Kept records records' := by
  intro i record hrecord
  obtain ⟨record', hrecord', hchange⟩ := h.kept i record hrecord
  refine ⟨record', hrecord', ?_⟩
  obtain rfl | hchanged := hchange
  · exact OperationRecord.Later.refl record'
  · exact hchanged.later

/-- In every run: the invariant, what the next call does, and what any further calls keep. -/
theorem model_sound (calls : List Call) (call : Call) (later : List Call) :
    let w := (runAll step {} calls).1
    Sound w ∧ CallSound w call (step w call).1 (step w call).2 ∧
      Kept w.model.records.items (runAll step w later).1.model.records.items := by
  intro w
  have hw : Sound w := runAll_invariant Sound (fun _ call h => step_sound h call) calls sound_start
  refine ⟨hw, step_callSound hw call, ?_⟩
  exact runAll_related Sound (fun w => w.model.records.items) Kept (fun _ call h => step_sound h call)
    (fun _ call h => (step_callSound h call).evolved.kept_later) later hw

end WinCommander.Operations.Center
