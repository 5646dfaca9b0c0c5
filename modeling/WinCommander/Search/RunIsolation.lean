/-
  Runs of a search store are kept apart: a call for another run is refused, what a run has counted
  never shrinks while it is the current one, and run ids are issued once.
-/
import WinCommander.Search.SearchStore

namespace WinCommander.Search

open Library List
open SearchStore (below start)

/-! ## What a run may do to its state -/

def Double.le (value other : Double) : Prop := value = other ∨ value.less other = true

/-- What is there stays there, and grows. -/
def Grows {α : Type} (le : α → α → Prop) (before after : Option α) : Prop :=
  ∀ value, before = some value → ∃ value', after = some value' ∧ le value value'

/-- Published no later. -/
def SearchResultReference.le (results later : SearchResultReference) : Prop :=
  results.generation ≤ later.generation

/-- What a run reports of itself grows, until it has come to its end. -/
structure Progressed (before after : SearchSnapshot) : Prop where
  scanned : Grows (· ≤ ·) before.scannedCount after.scannedCount
  found : Grows (· ≤ ·) before.foundCount after.foundCount
  progress : Grows Double.le before.determinateProgress after.determinateProgress
  results : Grows SearchResultReference.le before.results after.results
  terminal : isTerminal before.phase = true → after = before

/-- The current run is the last one that was started or an earlier one, and its progress is a
    number. -/
structure WellFormed (store : SearchStore) : Prop where
  issued : ∀ runId, store.state.runId = some runId → runId.generation ≤ store.lastRunGeneration
  finite : ∀ progress, store.state.determinateProgress = some progress → progress.isFinite = true

/-- An accepted call of the current run. -/
structure Moves (runId : SearchRunId) (before after : SearchSnapshot) : Prop where
  current : before.runId = some runId
  active : isTerminal before.phase = false
  same : after.runId = before.runId
  revision : after.revision = before.revision + 1
  progressed : Progressed before after
  finite : ∀ progress, after.determinateProgress = some progress → progress.isFinite = true

theorem Grows.refl {le : α → α → Prop} (hrefl : ∀ value, le value value) (before : Option α) :
    Grows le before before :=
  fun value h => ⟨value, h, hrefl value⟩

theorem Grows.trans {before middle after : Option α} (h : Grows le before middle)
    (h' : Grows le middle after)
    (htrans : ∀ first second third, le first second → le second third → le first third) :
    Grows le before after := by
  intro value hvalue
  obtain ⟨value', hvalue', hle⟩ := h value hvalue
  obtain ⟨value'', hvalue'', hle'⟩ := h' value' hvalue'
  exact ⟨value'', hvalue'', htrans _ _ _ hle hle'⟩

theorem SearchResultReference.le_refl (results : SearchResultReference) : results.le results :=
  UInt64.le_refl results.generation

theorem SearchResultReference.le_trans {first second third : SearchResultReference}
    (h : first.le second) (h' : second.le third) : first.le third :=
  UInt64.le_trans h h'

theorem Double.le_refl (value : Double) : value.le value := .inl rfl

theorem Double.less_trans {first second third : Double} (h : first.less second)
    (h' : second.less third) : first.less third := by
  cases first <;> cases second <;> cases third <;> simp_all [Double.less]
  exact h.trans h'

theorem Double.le_trans {first second third : Double} (h : first.le second) (h' : second.le third) :
    first.le third := by
  obtain rfl | h := h
  · exact h'
  obtain rfl | h' := h'
  · exact .inr h
  · exact .inr (Double.less_trans h h')

theorem Double.le_of_not_less {stored progress : Double} (hstored : stored.isFinite)
    (hprogress : progress.isFinite) (h : progress.less stored = false) : stored.le progress := by
  cases stored with
  | finite value =>
    cases progress with
    | finite value' =>
      have hle : value ≤ value' := by simpa [Double.less] using h
      obtain rfl | hlt := eq_or_lt_of_le hle
      · exact .inl rfl
      · exact .inr (decide_eq_true hlt)
    | _ => cases hprogress
  | _ => cases hstored

theorem Progressed.refl (snapshot : SearchSnapshot) : Progressed snapshot snapshot where
  scanned := Grows.refl UInt64.le_refl _
  found := Grows.refl UInt64.le_refl _
  progress := Grows.refl Double.le_refl _
  results := Grows.refl SearchResultReference.le_refl _
  terminal _ := rfl

theorem Progressed.trans (h : Progressed first second) (h' : Progressed second third) :
    Progressed first third where
  scanned := h.scanned.trans h'.scanned fun _ _ _ => UInt64.le_trans
  found := h.found.trans h'.found fun _ _ _ => UInt64.le_trans
  progress := h.progress.trans h'.progress fun _ _ _ => Double.le_trans
  results := h.results.trans h'.results fun _ _ _ => SearchResultReference.le_trans
  terminal hterminal := by
    have heq := h.terminal hterminal
    rw [heq] at h'
    rw [h'.terminal hterminal]

/-! ## What a call may do -/

variable {runId : SearchRunId} {store : SearchStore}

theorem validateActive_ok_iff : store.validateActive runId = .ok () ↔
      store.state.runId = some runId ∧ isTerminal store.state.phase = false := by
  unfold SearchStore.validateActive
  grind

/-- A refused call leaves the store as it was. -/
def Refused (store : SearchStore) (call : Call) : Prop :=
  ∃ failure, store.answer call = (store, .error failure)

/-- The run that the call names has moved on. -/
def Advances (store : SearchStore) (call : Call) : Prop :=
  ∃ runId state, call.runId = some runId ∧ Moves runId store.state state ∧
    store.answer call = ({ store with state }, .ok none)

theorem grows_or (hrefl : ∀ value, le value value)
    (h : ∀ value, update = some value → ∀ value', stored = some value' → le value' value) :
    Grows le stored (update.or stored) := by
  intro value hvalue
  cases update with
  | none => exact ⟨value, hvalue, hrefl value⟩
  | some value' => exact ⟨value', rfl, h value' rfl value hvalue⟩

/-- An answer that is either a refusal or a move of the run gives the call one of the two. -/
theorem settled_cases (hcall : call.runId = some runId)
    (hanswer : store.answer call = settled store answer)
    (h : ∀ result, answer = .ok result → ∃ state, result.2 = { store with state } ∧ Moves runId store.state state) :
    Refused store call ∨ Advances store call := by
  cases answer with
  | error failure => exact .inl ⟨failure, hanswer⟩
  | ok result =>
    obtain ⟨state, hresult, hmoves⟩ := h result rfl
    refine .inr ⟨runId, state, hcall, hmoves, ?_⟩
    rw [hanswer, ← hresult]
    rfl

variable {result : Unit × SearchStore}

/-- A commit of a state of the same run in which nothing has shrunk. -/
theorem commit_moves (h : store.commit state = .ok result)
    (hactive : store.validateActive runId = .ok ()) (hrun : state.runId = store.state.runId)
    (hscanned : Grows (· ≤ ·) store.state.scannedCount state.scannedCount)
    (hfound : Grows (· ≤ ·) store.state.foundCount state.foundCount)
    (hprogress : Grows Double.le store.state.determinateProgress state.determinateProgress)
    (hresults : Grows SearchResultReference.le store.state.results state.results)
    (hfinite : ∀ progress, state.determinateProgress = some progress → progress.isFinite) :
    ∃ state, result.2 = { store with state } ∧ Moves runId store.state state := by
  obtain ⟨hcurrent, hphase⟩ := validateActive_ok_iff.mp hactive
  cases h
  exact ⟨_, rfl, {
    current := hcurrent
    active := hphase
    same := hrun
    revision := rfl
    progressed := ⟨hscanned, hfound, hprogress, hresults, fun h => by rw [hphase] at h; cases h⟩
    finite := hfinite }⟩

/-- A commit of a state of the same run with the same counters. -/
theorem commit_moves_same (h : store.commit state = .ok result) (hwell : WellFormed store)
    (hactive : store.validateActive runId = .ok ()) (hrun : state.runId = store.state.runId)
    (hscanned : state.scannedCount = store.state.scannedCount)
    (hfound : state.foundCount = store.state.foundCount)
    (hprogress : state.determinateProgress = store.state.determinateProgress)
    (hresults : state.results = store.state.results) :
    ∃ state, result.2 = { store with state } ∧ Moves runId store.state state := by
  have hnumber : ∀ progress, state.determinateProgress = some progress → progress.isFinite := by
    rw [hprogress]
    exact hwell.finite
  refine commit_moves h hactive hrun ?_ ?_ ?_ ?_ hnumber
  · rw [hscanned]
    exact Grows.refl UInt64.le_refl _
  · rw [hfound]
    exact Grows.refl UInt64.le_refl _
  · rw [hprogress]
    exact Grows.refl Double.le_refl _
  · rw [hresults]
    exact Grows.refl SearchResultReference.le_refl _

theorem not_below {count stored : Option UInt64} (h : ¬below count stored) :
    Grows (· ≤ ·) stored (count.or stored) := by
  refine grows_or UInt64.le_refl fun value hvalue value' hvalue' => ?_
  rw [hvalue, hvalue'] at h
  simpa [below] using h

section
variable (hwell : WellFormed store)
include hwell

theorem updateProgress_moves {update : SearchProgressUpdate}
    (h : store.updateProgress runId update = .ok result) :
    ∃ state, result.2 = { store with state } ∧ Moves runId store.state state := by
  unfold SearchStore.updateProgress at h
  split at h
  · cases h
  next hactive =>
  split at h
  · cases h
  split at h
  · cases h
  split at h
  · cases h
  next hprogress =>
  split at h
  · cases h
  split at h
  · cases h
  next hscanned =>
  split at h
  · cases h
  next hfound =>
  -- The new progress is a number that is not below the stored one, which is one as well.
  have hnumber : ∀ progress, update.determinateProgress = some progress → progress.isFinite ∧
      ∀ stored, store.state.determinateProgress = some stored → progress.less stored = false := by
    intro progress hvalue
    rw [hvalue] at hprogress
    unfold SearchStore.invalidProgress at hprogress
    simp only [Bool.or_eq_true, not_or, Bool.not_eq_true, Bool.not_eq_false'] at hprogress
    refine ⟨hprogress.1.1.1, fun stored hstored => ?_⟩
    have hany := hprogress.2
    rw [hstored] at hany
    exact hany
  refine commit_moves h hactive rfl (not_below hscanned) (not_below hfound) ?_ ?_ ?_
  · refine grows_or Double.le_refl fun value hvalue stored hstored => ?_
    obtain ⟨hfinite, hless⟩ := hnumber value hvalue
    exact Double.le_of_not_less (hwell.finite stored hstored) hfinite (hless stored hstored)
  · exact Grows.refl SearchResultReference.le_refl _
  · intro progress hvalue
    rcases hupdate : update.determinateProgress with - | value
    · simp only [hupdate, Option.none_or] at hvalue
      exact hwell.finite progress hvalue
    · simp only [hupdate, Option.some_or, Option.some.injEq] at hvalue
      exact hvalue ▸ (hnumber value hupdate).1

theorem publishResults_moves (h : store.publishResults runId results = .ok result) :
    ∃ state, result.2 = { store with state } ∧ Moves runId store.state state := by
  unfold SearchStore.publishResults at h
  split at h
  · cases h
  next hactive =>
  split at h
  · cases h
  split at h
  · cases h
  next hresults =>
  refine commit_moves h hactive rfl (Grows.refl UInt64.le_refl _) (Grows.refl UInt64.le_refl _)
    (Grows.refl Double.le_refl _) ?_ hwell.finite
  intro stored hstored
  refine ⟨results, rfl, ?_⟩
  rw [hstored] at hresults
  have hnewer : ¬results.generation ≤ stored.generation :=
    fun hle => hresults (.inr (.inr (decide_eq_true hle)))
  exact UInt64.le_of_lt (UInt64.not_le.mp hnewer)

theorem markRunning_moves (h : store.markRunning runId = .ok result) :
    ∃ state, result.2 = { store with state } ∧ Moves runId store.state state := by
  unfold SearchStore.markRunning at h
  split at h
  · cases h
  next hactive =>
  split at h
  · cases h
  · exact commit_moves_same h hwell hactive rfl rfl rfl rfl rfl

theorem reportLimitation_moves (h : store.reportLimitation runId limitation = .ok result) :
    ∃ state, result.2 = { store with state } ∧ Moves runId store.state state := by
  unfold SearchStore.reportLimitation at h
  split at h
  · cases h
  next hactive =>
  split at h
  · cases h
  split at h
  · cases h
  · exact commit_moves_same h hwell hactive rfl rfl rfl rfl rfl

theorem complete_moves (h : store.complete runId kind = .ok result) :
    ∃ state, result.2 = { store with state } ∧ Moves runId store.state state := by
  unfold SearchStore.complete at h
  split at h
  · cases h
  next hactive =>
  split at h
  · cases h
  cases kind with
  | complete => exact commit_moves_same h hwell hactive rfl rfl rfl rfl rfl
  | partialResults | tooManyResults | permissionLimited =>
    dsimp only at h
    split at h
    · cases h
    · exact commit_moves_same h hwell hactive rfl rfl rfl rfl rfl

theorem cancel_moves (h : store.cancel runId = .ok result) :
    ∃ state, result.2 = { store with state } ∧ Moves runId store.state state := by
  unfold SearchStore.cancel at h
  split at h
  · cases h
  next hactive => exact commit_moves_same h hwell hactive rfl rfl rfl rfl rfl

theorem fail_moves {failure : SearchFailure} (h : store.fail runId failure = .ok result) :
    ∃ state, result.2 = { store with state } ∧ Moves runId store.state state := by
  unfold SearchStore.fail at h
  split at h
  · cases h
  next hactive =>
  split at h
  · cases h
  · exact commit_moves_same h hwell hactive rfl rfl rfl rfl rfl

end

/-- A new run, of a number that was not issued yet. -/
def Starts (store : SearchStore) (call : Call) : Prop :=
  ∃ runId state, call.runId = none ∧ store.lastRunGeneration < runId.generation ∧
    state.runId = some runId ∧ state.revision = store.state.revision + 1 ∧
    state.determinateProgress = none ∧
    store.answer call = (⟨state, runId.generation⟩, .ok (some runId))

theorem start_cases (store : SearchStore) (plan : SearchPlan) :
    Refused store (.start plan) ∨ Starts store (.start plan) := by
  by_cases hvalid : isValid plan
  · by_cases hlast : store.lastRunGeneration = 18446744073709551615
    · refine .inl ⟨.runIdExhausted, ?_⟩
      simp [SearchStore.answer, start, hvalid, hlast]
    · have hlt : store.lastRunGeneration < store.lastRunGeneration + 1 := by
        have hne : store.lastRunGeneration.toNat ≠ 18446744073709551615 :=
          fun h => hlast (UInt64.toNat_inj.mp h)
        have hbound := store.lastRunGeneration.toNat_lt
        rw [UInt64.lt_iff_toNat_lt, UInt64.toNat_add]
        simp
        omega
      refine .inr ⟨⟨store.state.paneId, store.lastRunGeneration + 1⟩, store.started plan _, rfl, hlt,
        rfl, rfl, rfl, ?_⟩
      simp [SearchStore.answer, start, hvalid, hlast]
  · refine .inl ⟨.invalidPlan, ?_⟩
    simp [SearchStore.answer, start, hvalid]

/-- All that a call can do. -/
theorem answer_cases (hwell : WellFormed store) (call : Call) :
    Refused store call ∨ Advances store call ∨ Starts store call ∨
      (call = .reset ∧ store.answer call = (store.reset, .ok none)) := by
  rw [← or_assoc]
  cases call with
  | start plan =>
    obtain h | h := start_cases store plan
    · exact .inl (.inl h)
    · exact .inr (.inl h)
  | reset => exact .inr (.inr ⟨rfl, rfl⟩)
  | markRunning runId =>
    exact .inl (settled_cases rfl rfl fun _ h => markRunning_moves hwell h)
  | updateProgress runId update =>
    exact .inl (settled_cases rfl rfl fun _ h => updateProgress_moves hwell h)
  | reportLimitation runId limitation =>
    exact .inl (settled_cases rfl rfl fun _ h => reportLimitation_moves hwell h)
  | publishResults runId results =>
    exact .inl (settled_cases rfl rfl fun _ h => publishResults_moves hwell h)
  | complete runId kind =>
    exact .inl (settled_cases rfl rfl fun _ h => complete_moves hwell h)
  | cancel runId =>
    exact .inl (settled_cases rfl rfl fun _ h => cancel_moves hwell h)
  | fail runId failure =>
    exact .inl (settled_cases rfl rfl fun _ h => fail_moves hwell h)

/-! ## Runs -/

/-- What a later store of the same history has to do with an earlier one. -/
structure Follows (store later : SearchStore) : Prop where
  numbered : store.lastRunGeneration ≤ later.lastRunGeneration
  fresh : ∀ runId, later.state.runId = some runId →
    store.state.runId = some runId ∨ store.lastRunGeneration < runId.generation
  progressed : ∀ runId, store.state.runId = some runId → later.state.runId = some runId →
    Progressed store.state later.state

theorem Follows.refl (store : SearchStore) : Follows store store where
  numbered := UInt64.le_refl _
  fresh _ h := .inl h
  progressed _ _ _ := Progressed.refl _

/-- A run that is the current one twice has been so all the while, since its number would be too
    small for a new one. -/
theorem Follows.trans (hwell : WellFormed store) (h : Follows store middle)
    (h' : Follows middle later) : Follows store later where
  numbered := UInt64.le_trans h.numbered h'.numbered
  fresh runId hrun := by
    obtain hmiddle | hlt := h'.fresh runId hrun
    · exact h.fresh runId hmiddle
    · exact .inr (UInt64.lt_of_le_of_lt h.numbered hlt)
  progressed runId hrun hrun' := by
    obtain hmiddle | hlt := h'.fresh runId hrun'
    · exact (h.progressed runId hrun hmiddle).trans (h'.progressed runId hmiddle hrun')
    · have hle := UInt64.le_trans (hwell.issued runId hrun) h.numbered
      exact absurd hle (UInt64.not_le.mpr hlt)

theorem wellFormed_answer (hwell : WellFormed store) (call : Call) :
    WellFormed (store.answer call).1 := by
  rcases answer_cases hwell call with ⟨failure, h⟩ | ⟨runId, state, -, hmoves, h⟩ |
    ⟨runId, state, -, -, hrun, -, hprogress, h⟩ | ⟨-, h⟩
  · rw [h]
    exact hwell
  · rw [h]
    refine ⟨fun other hother => hwell.issued other ?_, hmoves.finite⟩
    rw [← hmoves.same]
    exact hother
  · rw [h]
    refine ⟨fun other hother => ?_, fun progress hvalue => ?_⟩
    · cases hrun.symm.trans hother
      exact UInt64.le_refl _
    · cases hprogress.symm.trans hvalue
  · rw [h]
    exact ⟨nofun, nofun⟩

theorem follows_answer (hwell : WellFormed store) (call : Call) :
    Follows store (store.answer call).1 := by
  rcases answer_cases hwell call with ⟨failure, h⟩ | ⟨runId, state, -, hmoves, h⟩ |
    ⟨runId, state, -, hlt, hrun, -, -, h⟩ | ⟨-, h⟩
  · rw [h]
    exact .refl store
  · rw [h]
    refine ⟨UInt64.le_refl _, fun other hother => .inl ?_, fun _ _ _ => hmoves.progressed⟩
    rw [← hmoves.same]
    exact hother
  · rw [h]
    refine ⟨UInt64.le_of_lt hlt, fun other hother => ?_, fun other hother hother' => ?_⟩
    · cases hrun.symm.trans hother
      exact .inr hlt
    · cases hrun.symm.trans hother'
      exact absurd (hwell.issued _ hother) (UInt64.not_le.mpr hlt)
  · rw [h]
    exact ⟨UInt64.le_refl _, nofun, nofun⟩

theorem follows_run (hwell : WellFormed store) (calls : List Call) :
    WellFormed (runAll SearchStore.answer store calls).1 ∧
      Follows store (runAll SearchStore.answer store calls).1 :=
  runAll_invariant (fun later => WellFormed later ∧ Follows store later)
    (fun _ call h => ⟨wellFormed_answer h.1 call, h.2.trans hwell (follows_answer h.1 call)⟩)
    calls ⟨hwell, .refl store⟩

def accepted (replies : List Reply) : Nat := replies.countP (·.isOk)

/-- The run ids that were issued. -/
def issued (replies : List Reply) : List SearchRunId :=
  replies.filterMap fun reply => reply.toOption.join

/-- The revision counts the accepted calls, and the run ids are numbered as they are issued. -/
structure Counted (store : SearchStore) (replies : List Reply) : Prop where
  wellFormed : WellFormed store
  revision : store.state.revision = UInt64.ofNat (accepted replies)
  distinct : (issued replies).Nodup
  numbered : ∀ runId ∈ issued replies, runId.generation ≤ store.lastRunGeneration

theorem issued_append (replies : List Reply) (reply : Reply) :
    issued (replies ++ [reply]) = issued replies ++ reply.toOption.join.toList := by
  unfold issued
  rw [filterMap_append, filterMap_cons, filterMap_nil]
  cases reply.toOption.join <;> rfl

/-- What the reply of a call says of the store after it. -/
theorem answer_reply (hwell : WellFormed store) (call : Call) : Refused store call ∨
      (∃ next, store.answer call = (next, .ok none) ∧
        next.state.revision = store.state.revision + 1 ∧
          next.lastRunGeneration = store.lastRunGeneration) ∨
      ∃ next runId, store.answer call = (next, .ok (some runId)) ∧
        next.state.revision = store.state.revision + 1 ∧
          next.lastRunGeneration = runId.generation ∧ store.lastRunGeneration < runId.generation := by
  rcases answer_cases hwell call with h | ⟨_, state, -, hmoves, h⟩ |
    ⟨runId, state, -, hlt, -, hnext, -, h⟩ | ⟨-, h⟩
  · exact .inl h
  · exact .inr (.inl ⟨_, h, hmoves.revision, rfl⟩)
  · exact .inr (.inr ⟨_, runId, h, hnext, rfl, hlt⟩)
  · exact .inr (.inl ⟨_, h, rfl, rfl⟩)

theorem counted_answer (h : Counted store replies) (call : Call) :
    Counted (store.answer call).1 (replies ++ [(store.answer call).2]) := by
  have hwell := wellFormed_answer h.wellFormed call
  have hrevision : store.state.revision + 1 = UInt64.ofNat (accepted replies + 1) := by
    rw [h.revision, UInt64.ofNat_add]
    rfl
  rcases answer_reply h.wellFormed call with ⟨failure, hanswer⟩ | ⟨next, hanswer, hnext, hlast⟩ |
    ⟨next, runId, hanswer, hnext, hlast, hlt⟩
  · rw [hanswer] at hwell ⊢
    have hissued : issued (replies ++ [.error failure]) = issued replies := by
      rw [issued_append]
      exact append_nil _
    refine ⟨hwell, ?_, ?_, ?_⟩
    · unfold accepted
      rw [countP_append]
      exact h.revision
    · rw [hissued]
      exact h.distinct
    · rw [hissued]
      exact h.numbered
  · rw [hanswer] at hwell ⊢
    have hissued : issued (replies ++ [.ok none]) = issued replies := by
      rw [issued_append]
      exact append_nil _
    refine ⟨hwell, ?_, ?_, ?_⟩
    · unfold accepted
      rw [countP_append, hnext]
      exact hrevision
    · rw [hissued]
      exact h.distinct
    · rw [hissued, hlast]
      exact h.numbered
  · rw [hanswer] at hwell ⊢
    have hissued : issued (replies ++ [.ok (some runId)]) = issued replies ++ [runId] :=
      issued_append replies _
    refine ⟨hwell, ?_, ?_, ?_⟩
    · unfold accepted
      rw [countP_append, hnext]
      exact hrevision
    · rw [hissued]
      refine h.distinct.append (nodup_singleton _) ?_
      rw [disjoint_singleton]
      exact fun hmem => UInt64.not_le.mpr hlt (h.numbered runId hmem)
    · rw [hissued, hlast]
      intro other hother
      obtain hother | hother := mem_append.mp hother
      · exact UInt64.le_trans (h.numbered other hother) (UInt64.le_of_lt hlt)
      · rw [mem_singleton.mp hother]
        exact UInt64.le_refl _

theorem counted_create (h : create paneId = .ok store) : Counted store [] := by
  unfold create at h
  split at h
  · cases h
  · cases h
    exact ⟨⟨nofun, nofun⟩, rfl, nodup_nil, nofun⟩

/-- What the store answers from here: a call that carries another run id than the current one is
    refused, as is one that a run gets after its end; a refused call changes nothing, and an accepted
    one counts the revision by one. -/
structure Guarded (store : SearchStore) : Prop where
  stale : ∀ call runId, call.runId = some runId → store.state.runId ≠ some runId → Refused store call
  ended : ∀ call runId, call.runId = some runId → isTerminal store.state.phase = true →
    Refused store call
  refused : ∀ call failure, (store.answer call).2 = .error failure → (store.answer call).1 = store
  accepted : ∀ call reply, (store.answer call).2 = .ok reply →
    (store.answer call).1.state.revision = store.state.revision + 1

theorem guarded_of_wellFormed (hwell : WellFormed store) : Guarded store := by
  refine ⟨fun call runId hcall hother => ?_, fun call runId hcall hterminal => ?_,
    fun call failure h => ?_, fun call reply h => ?_⟩
  · rcases answer_cases hwell call with h | ⟨runId', state, hcall', hmoves, -⟩ |
      ⟨_, _, hcall', -⟩ | ⟨rfl, -⟩
    · exact h
    · cases hcall.symm.trans hcall'
      exact absurd hmoves.current hother
    · cases hcall.symm.trans hcall'
    · cases hcall
  · obtain h | ⟨_, state, -, hmoves, -⟩ | ⟨_, _, hcall', -⟩ | ⟨rfl, -⟩ := answer_cases hwell call
    · exact h
    · rw [hmoves.active] at hterminal
      cases hterminal
    · cases hcall.symm.trans hcall'
    · cases hcall
  · obtain ⟨_, hanswer⟩ | ⟨_, hanswer, -⟩ | ⟨_, _, hanswer, -⟩ := answer_reply hwell call
    · rw [hanswer]
    all_goals
      rw [hanswer] at h
      cases h
  · rcases answer_reply hwell call with ⟨_, hanswer⟩ | ⟨_, hanswer, hnext, -⟩ |
      ⟨_, _, hanswer, hnext, -⟩
    · rw [hanswer] at h
      cases h
    all_goals
      rw [hanswer]
      exact hnext

/-- After any calls, whatever run ids they carried: the store is guarded; what the current run
    counts only grows for as long as it is the current one, and it keeps its end; no run id has been
    issued twice, and the revision is the number of the accepted calls. -/
theorem store_isolates_runs {paneId : Pane.PaneId} {first : SearchStore}
    (hcreate : create paneId = .ok first) (calls : List Call) :
    Guarded (runAll SearchStore.answer first calls).1 ∧
    (∀ more runId, (runAll SearchStore.answer first calls).1.state.runId = some runId →
      (runAll SearchStore.answer first (calls ++ more)).1.state.runId = some runId →
      Progressed (runAll SearchStore.answer first calls).1.state
        (runAll SearchStore.answer first (calls ++ more)).1.state) ∧
    (issued (runAll SearchStore.answer first calls).2).Nodup ∧
    (runAll SearchStore.answer first calls).1.state.revision =
      UInt64.ofNat (accepted (runAll SearchStore.answer first calls).2) := by
  have hcounted : Counted (runAll SearchStore.answer first calls).1
      (runAll SearchStore.answer first calls).2 :=
    runAll_reports Counted (fun _ _ call h => counted_answer h call) [] calls
      (counted_create hcreate)
  refine ⟨guarded_of_wellFormed hcounted.wellFormed, fun more runId hrun hrun' => ?_,
    hcounted.distinct, hcounted.revision⟩
  rw [runAll_append] at hrun' ⊢
  exact (follows_run hcounted.wellFormed more).2.progressed runId hrun hrun'

/-- A late publication of the first run, after the second has started. -/
theorem store_isolates_runs_superseded :
    let plan : SearchPlan :=
      { request := { query := [97] }, backend := { support := .supported }, executionRoot := [47] }
    let store := (runAll SearchStore.answer ⟨{ paneId := ⟨1⟩ }, 0⟩
      [.start plan, .markRunning ⟨⟨1⟩, 1⟩, .start plan, .markRunning ⟨⟨1⟩, 2⟩]).1
    store.state.phase = .running ∧ store.state.revision = 4 ∧
      Refused store (.publishResults ⟨⟨1⟩, 1⟩ ⟨1, 1, [97]⟩) := by
  refine ⟨by decide +kernel, by decide +kernel, ?_⟩
  have hcreate : create ⟨1⟩ = .ok ⟨{ paneId := ⟨1⟩ }, 0⟩ := rfl
  exact (store_isolates_runs hcreate _).1.stale _ _ rfl (by decide +kernel)

end WinCommander.Search
