/-
  What one call can do to the directory and the handle.

  `Effect` lists the outcomes of a call: nothing is stored, a refusal before the rename, a
  handle opened, a candidate stored, a refusal from the rename on, a stop. `step_effect`
  says that these are all, in every world where `Holds` does. The candidate is a function
  of the world and the call (`candidateOf`); `candidate_advances` says how it differs from
  the entries it replaces.
-/
import WinCommander.Operations.Journal.Machine

namespace WinCommander.Operations.Journal

open Library Library.Prog List Triple

/-! ## Entry lists that follow one another -/

/-- The change of state that a call may make to an entry. -/
def mayMove : Call → OperationJournalState → OperationJournalState → Bool
  | .openJournal _, source, target =>
    (source == .admitted || source == .running) && target == .interrupted
  | .transitionToRunning _, source, target => source == .admitted && target == .running
  | .finalizeAdmission _ _, source, target =>
    source == .admitted && (target == .failed || target == .cancelled)
  | .finalize _ _ _, source, target =>
    source == .running && (target == .completed || target == .failed || target == .cancelled)
  | _, _, _ => false

/-- What a call may make of one entry. -/
def Evolves (call : Call) (before after : OperationJournalEntry) : Prop :=
  after = before ∨ (after.operationId = before.operationId ∧ after.plan = before.plan ∧
      mayMove call before.state after.state = true)

/-- What a call may make of the entries: each stays in its place, new ones come last. -/
def Advances (call : Call) (before after : List OperationJournalEntry) : Prop :=
  ∃ kept added, after = kept ++ added ∧ List.Forall₂ (Evolves call) before kept ∧
    ∀ entry ∈ added, entry.state = .admitted

theorem evolves_all (call : Call) (entries : List OperationJournalEntry) :
    List.Forall₂ (Evolves call) entries entries := by
  induction entries with
  | nil => exact .nil
  | cons entry rest ih => exact .cons (.inl rfl) ih

theorem Advances.refl (call : Call) (entries : List OperationJournalEntry) :
    Advances call entries entries :=
  ⟨entries, [], (append_nil entries).symm, evolves_all call entries, by simp⟩

/-- One entry changed in its place. -/
structure Replaces (entries candidate : List OperationJournalEntry) (id : OperationId)
    (source target : OperationJournalState) : Prop where
  intro :: place : ∃ (found : Found) (entry : OperationJournalEntry),
    entries = found.replace found.entry ∧ candidate = found.replace entry ∧
    found.entry.operationId = id ∧ entry.operationId = id ∧ entry.plan = found.entry.plan ∧
    found.entry.state = source ∧ entry.state = target

variable {entries candidate : List OperationJournalEntry} {id : OperationId}
  {source target : OperationJournalState}

theorem Replaces.advances (h : Replaces entries candidate id source target) {call : Call}
    (hmove : mayMove call source target) : Advances call entries candidate := by
  obtain ⟨found, entry, rfl, rfl, hid, hid', hplan, hs, ht⟩ := h.place
  refine ⟨found.replace entry, [], (append_nil _).symm, ?_, by simp⟩
  have hentry : Evolves call found.entry entry :=
    .inr ⟨hid'.trans hid.symm, hplan, by rw [hs, ht]; exact hmove⟩
  exact rel_append (evolves_all call found.before)
    (.cons hentry (evolves_all call found.after))

theorem Replaces.map_eq (h : Replaces entries candidate id source target) :
    candidate.map (·.plan.id) = entries.map (·.plan.id) ∧
    candidate.map (·.operationId) = entries.map (·.operationId) := by
  obtain ⟨found, entry, rfl, rfl, hid, hid', hplan, -, -⟩ := h.place
  constructor
  · simp [Found.replace, map_append, hplan]
  · simp [Found.replace, map_append, hid, hid']

variable {next : UInt64} {terminal : OperationJournalState}

theorem Coherent.of_map_eq (h : Coherent entries next)
    (hplans : candidate.map (·.plan.id) = entries.map (·.plan.id))
    (hids : candidate.map (·.operationId) = entries.map (·.operationId)) :
    Coherent candidate next := by
  refine ⟨hplans ▸ h.plans, hids ▸ h.ids, fun entry hmem => ?_⟩
  have hmem' : entry.operationId ∈ candidate.map (·.operationId) := mem_map.mpr ⟨_, hmem, rfl⟩
  rw [hids] at hmem'
  obtain ⟨old, hold, heq⟩ := mem_map.mp hmem'
  rw [← heq]
  exact h.below old hold

theorem Coherent.mono {next next' : UInt64} (h : Coherent entries next) (hle : next ≤ next') :
    Coherent entries next' :=
  ⟨h.plans, h.ids, fun entry hmem => UInt64.lt_of_lt_of_le (h.below entry hmem) hle⟩

/-! ## The candidates -/

theorem findEntry_some {planId : Bytes} {found : Found}
    (h : findEntry id planId entries = some found) : entries = found.replace found.entry := by
  induction entries generalizing found with
  | nil => cases h
  | cons entry rest ih =>
    unfold findEntry at h
    split at h
    · cases h
      rfl
    · obtain ⟨inner, hinner, rfl⟩ := Option.map_eq_some_iff.mp h
      show entry :: rest = (entry :: inner.before) ++ inner.entry :: inner.after
      rw [cons_append, ih hinner]
      rfl

variable {kind : ReceiptKind} {impl : Impl} {receipt : Receipt kind}
  {alreadyConsumed invalid : OperationJournalErrorCode} {now : TimePoint}

theorem findReceipt_ok {state : OperationJournalState} {found : Found}
    (h : findReceipt impl receipt state invalid = .ok found) :
    impl.entries = found.replace found.entry ∧ found.entry.state = state ∧
    found.entry.operationId = receipt.operationId := by
  simp only [findReceipt, bind_ok_iff, demand_ok_iff, refuse_ok_iff, exists_const, pure_ok,
    Except.ok.injEq, not_or, not_not] at h
  obtain ⟨found, hfound, ⟨hstate, hid, -⟩, rfl⟩ := h
  exact ⟨findEntry_some hfound, hstate, hid⟩

theorem checkReceipt_ok {u : Unit}
    (h : checkReceipt impl receipt alreadyConsumed invalid = .ok u) : impl.usable := by
  simp only [checkReceipt, bind_ok_iff, refuse_ok_iff, exists_const, Bool.not_eq_false] at h
  exact h.1

theorem transitionToRunningCandidate_ok {receipt : OperationJournalAdmissionReceipt}
    (h : transitionToRunningCandidate impl receipt now = .ok candidate) : impl.usable ∧
    Replaces impl.entries candidate receipt.operationId .admitted .running := by
  simp only [transitionToRunningCandidate, bind_ok_iff, pure_ok, Except.ok.injEq] at h
  obtain ⟨_, hcheck, found, hfound, rfl⟩ := h
  obtain ⟨hentries, hstate, hid⟩ := findReceipt_ok hfound
  exact ⟨checkReceipt_ok hcheck, ⟨found, _, hentries, rfl, hid, hid, rfl, hstate, rfl⟩⟩

theorem finalizeAdmissionCandidate_ok {receipt : OperationJournalAdmissionReceipt}
    (h : finalizeAdmissionCandidate impl receipt terminal now = .ok candidate) :
    impl.usable ∧ legalTransition .admitted terminal ∧
    Replaces impl.entries candidate receipt.operationId .admitted terminal := by
  simp only [finalizeAdmissionCandidate, bind_ok_iff, refuse_ok_iff, exists_const, pure_ok,
    Except.ok.injEq, Bool.not_eq_false] at h
  obtain ⟨_, hcheck, hlegal, found, hfound, -, rfl⟩ := h
  obtain ⟨hentries, hstate, hid⟩ := findReceipt_ok hfound
  exact ⟨checkReceipt_ok hcheck, hlegal, ⟨found, _, hentries, rfl, hid, hid, rfl, hstate, rfl⟩⟩

theorem finalizeCandidate_ok {receipt : OperationJournalRunReceipt}
    {results : List OperationJournalItemResult}
    (h : finalizeCandidate impl receipt results terminal now = .ok candidate) :
    impl.usable ∧ legalTransition .running terminal ∧
    Replaces impl.entries candidate receipt.operationId .running terminal := by
  simp only [finalizeCandidate, bind_ok_iff, refuse_ok_iff, exists_const, pure_ok,
    Except.ok.injEq, Bool.not_eq_false] at h
  obtain ⟨_, hcheck, hlegal, found, hfound, -, -, -, -, rfl⟩ := h
  obtain ⟨hentries, hstate, hid⟩ := findReceipt_ok hfound
  exact ⟨checkReceipt_ok hcheck, hlegal, ⟨found, _, hentries, rfl, hid, hid, rfl, hstate, rfl⟩⟩

theorem admitCandidate_ok {reservation : AdmissionReservation} {plan : OperationPlan}
    (h : admitCandidate impl reservation plan now = .ok candidate) : impl.usable ∧
    impl.reservations.lookup reservation.operationId.sequence = some reservation.nonce ∧
    (∀ entry ∈ impl.entries, entry.operationId ≠ reservation.operationId) ∧
    (∀ entry ∈ impl.entries, entry.plan.id ≠ plan.id) ∧
    candidate = impl.entries ++ [⟨reservation.operationId, plan, .admitted, now, []⟩] := by
  simp only [admitCandidate, bind_ok_iff, refuse_ok_iff, exists_const, pure_ok, Except.ok.injEq,
    Bool.not_eq_false, not_not, not_exists, not_and] at h
  obtain ⟨husable, -, -, hlookup, -, hids, hplans, rfl⟩ := h
  exact ⟨husable, hlookup, hids, hplans, rfl⟩

theorem interrupt_keeps (now : TimePoint) (entry : OperationJournalEntry) :
    (interrupt now entry).plan = entry.plan ∧
    (interrupt now entry).operationId = entry.operationId := by
  unfold interrupt
  split <;> exact ⟨rfl, rfl⟩

theorem interrupt_advances (now : TimePoint) (path : Bytes) (entries : List OperationJournalEntry) :
    Advances (.openJournal path) entries (entries.map (interrupt now)) := by
  refine ⟨_, [], (append_nil _).symm, ?_, by simp⟩
  induction entries with
  | nil => exact .nil
  | cons entry rest ih =>
    refine .cons ?_ ih
    unfold interrupt
    split
    · next hactive =>
        refine .inr ⟨rfl, rfl, ?_⟩
        show (isActive entry && true)
        rw [hactive]
        rfl
    · exact .inl rfl

theorem interrupt_coherent (h : Coherent entries next) (now : TimePoint) :
    Coherent (entries.map (interrupt now)) next := by
  refine h.of_map_eq ?_ ?_
  · rw [map_map]
    exact map_congr_left fun entry _ => congrArg (·.id) (interrupt_keeps now entry).1
  · rw [map_map]
    exact map_congr_left fun entry _ => (interrupt_keeps now entry).2

/-- When nothing is active there is nothing to interrupt. -/
theorem interrupt_inactive (h : entries.any isActive = false) (now : TimePoint) :
    entries.map (interrupt now) = entries := by
  have hsame : ∀ entry ∈ entries, interrupt now entry = entry :=
    fun entry hmem => if_neg (any_eq_false.mp h entry hmem)
  exact (map_congr_left (g := fun entry => entry) hsame).trans (map_id' entries)

/-! ## Storing -/

variable {readers : Readers} {previous : Disk}

/-- The three ways `persisting` returns. -/
def PersistedOr (readers : Readers) (entries : List OperationJournalEntry) (nextSequence : UInt64)
    (previous : Disk) (outcome : Except Refusal Unit) (disk : Disk) : Prop :=
  match outcome with
  | .ok _ => IsSnapshot readers entries nextSequence disk
  | .error refusal =>
    if refusal.renameAttempted then disk = previous ∨ IsSnapshot readers entries nextSequence disk
    else disk = previous

theorem persisting_spec (readers : Readers) (entries : List OperationJournalEntry)
    (nextSequence : UInt64) (previous : Disk) :
    Triple (fun disk : Disk => disk = previous) (persisting readers entries nextSequence)
      (PersistedOr readers entries nextSequence previous)
      (fun disk => disk = previous ∨ IsSnapshot readers entries nextSequence disk) := by
  refine bind (persist_spec readers entries nextSequence previous) fun outcome => ?_
  obtain ⟨stored, committed⟩ := outcome
  refine ret fun disk h => ?_
  cases stored with
  | ok u => exact h.2
  | error e =>
    cases committed with
    | false => exact h
    | true => exact h

/-- The three ways `storeCandidate` returns. -/
def Stored (readers : Readers) (impl : Impl)
    (candidate : Except OperationJournalError (List OperationJournalEntry)) (previous : Disk)
    (outcome : Impl × Except Refusal Unit) (disk : Disk) : Prop :=
  match outcome with
  | (impl', .ok _) => ∃ entries, candidate = .ok entries ∧ impl' = { impl with entries := entries } ∧
      IsSnapshot readers entries impl.nextOperationSequence disk
  | (impl', .error ⟨_, true⟩) => ∃ entries, candidate = .ok entries ∧
      impl' = { impl with usable := false } ∧
      (disk = previous ∨ IsSnapshot readers entries impl.nextOperationSequence disk)
  | (impl', .error ⟨_, false⟩) => impl' = impl ∧ disk = previous

/-- The old file, or the complete candidate. -/
def OldOrNew (readers : Readers) (candidate : Option (List OperationJournalEntry × UInt64))
    (previous disk : Disk) : Prop :=
  disk = previous ∨
    ∃ entries next, candidate = some (entries, next) ∧ IsSnapshot readers entries next disk

/-- What a candidate is stored as: its entries, under the handle's sequence. -/
def Impl.snapshot (impl : Impl)
    (candidate : Except OperationJournalError (List OperationJournalEntry)) :
    Option (List OperationJournalEntry × UInt64) :=
  candidate.toOption.map (·, impl.nextOperationSequence)

theorem storeCandidate_spec (readers : Readers) (impl : Impl)
    (candidate : Except OperationJournalError (List OperationJournalEntry)) (previous : Disk) :
    Triple (fun disk : Disk => disk = previous) (storeCandidate readers impl candidate)
      (Stored readers impl candidate previous)
      (OldOrNew readers (impl.snapshot candidate) previous) := by
  cases candidate with
  | error e => exact ret fun disk h => ⟨rfl, h⟩
  | ok entries =>
    refine bind ((persisting_spec readers entries impl.nextOperationSequence previous).stops
      fun disk h => h.imp id fun h => ⟨entries, _, rfl, h⟩) fun stored => ?_
    cases stored with
    | ok u => exact ret fun disk h => ⟨entries, rfl, rfl, h⟩
    | error refusal =>
      obtain ⟨error, attempted⟩ := refusal
      cases attempted with
      | false => exact ret fun disk h => ⟨rfl, h⟩
      | true => exact ret fun disk h => ⟨entries, rfl, rfl, h⟩

/-- Its outcome, passed through two functions: the operation's, then the call's. -/
theorem storeCandidate_map {β γ : Type} (impl : Impl)
    (candidate : Except OperationJournalError (List OperationJournalEntry)) (previous : Disk)
    (f : Impl × Except Refusal Unit → β) (g : β → γ) : Triple (fun disk : Disk => disk = previous)
      ((storeCandidate readers impl candidate >>= fun a => pure (f a)) >>= fun b => pure (g b))
      (fun outcome disk => ∃ impl' stored, outcome = g (f (impl', stored)) ∧
        Stored readers impl candidate previous (impl', stored) disk)
      (OldOrNew readers (impl.snapshot candidate) previous) := by
  refine (Triple.map g (Triple.map f (storeCandidate_spec readers impl candidate previous))).post ?_
  rintro _ disk ⟨_, rfl, ⟨impl', stored⟩, rfl, hstored⟩
  exact ⟨impl', stored, rfl, hstored⟩

/-! ## Opening -/

/-- What `Open` stores, when it stores anything. -/
def openCandidate (readers : Readers) (previous : Disk) (now : TimePoint) :
    Option (List OperationJournalEntry × UInt64) :=
  match previous with
  | none => some ([], 1)
  | some text => (decode readers text).toOption.map fun decoded =>
    (decoded.entries.map (interrupt now), decoded.nextOperationSequence)

variable (P : Disk → Prop)

theorem openDirectory_spec : Triple P openDirectory (fun _ disk => P disk) P := by
  refine bind (ask (fun _ h _ => h) fun _ h => h) fun reply => ?_
  split <;> exact ret fun _ h => h

theorem openComponents_spec (components : List Bytes) :
    Triple P (openComponents components) (fun _ disk => P disk) P := by
  induction components with
  | nil => exact ret fun _ h => h
  | cons component rest ih => exact attempt (openDirectory_spec P) (fun _ _ h => h) fun _ => ih

theorem openParent_spec (path : Bytes) : Triple P (openParent path) (fun _ disk => P disk) P := by
  unfold openParent
  split
  · exact ret fun _ h => h
  · exact attempt (openDirectory_spec P) (fun _ _ h => h) fun _ => openComponents_spec P _

theorem checkParent_spec : Triple P checkParent (fun _ disk => P disk) P := by
  refine bind (ask (fun _ h _ => h) fun _ h => h) fun reply => ?_
  split_ifs <;> exact ret fun _ h => h

/-- The lock is taken only when no handle is open. -/
theorem lockJournal_spec (live : Bool) :
    Triple P (lockJournal live) (fun result disk => P disk ∧ ∀ u, result = .ok u → live = false) P := by
  refine bind (ask (fun _ h _ => h) fun _ h => h) fun opened => ?_
  split
  · exact ret fun _ h => ⟨h, by simp⟩
  · refine bind (ask (fun _ h _ => h) fun _ h => h) fun state => ?_
    split
    · exact ret fun _ h => ⟨h, by simp⟩
    · split
      · exact ret fun _ h => ⟨h, by simp⟩
      · refine bind (ask (fun _ h _ => h) fun _ h => h) fun locked => ?_
        split
        · exact ret fun _ h => ⟨h, by simp⟩
        · next hfree => exact ret fun _ h => ⟨h, fun _ _ => by simpa using (not_or.mp hfree).1⟩

/-- The ways `Open` returns. -/
def Opened (readers : Readers) (live : Bool) (identity : Nat) (now : TimePoint) (previous : Disk)
    (outcome : Except Refusal Impl) (disk : Disk) : Prop :=
  match outcome with
  | .ok impl => live = false ∧ impl.identity = identity ∧ impl.reservations = [] ∧
      impl.usable = true ∧
      openCandidate readers previous now = some (impl.entries, impl.nextOperationSequence) ∧
      (IsSnapshot readers impl.entries impl.nextOperationSequence disk ∨
        disk = previous ∧ ∃ text, disk = some text ∧
          decode readers text = .ok ⟨impl.entries, impl.nextOperationSequence, false⟩)
  | .error ⟨_, true⟩ => live = false ∧ ∃ entries next,
      openCandidate readers previous now = some (entries, next) ∧
      (disk = previous ∨ IsSnapshot readers entries next disk)
  | .error ⟨_, false⟩ => disk = previous

/-- A snapshot that `Open` persists, as the way it then returns. -/
theorem opened_of_persisted {live : Bool} {identity : Nat} (hlive : live = false)
    (hcandidate : openCandidate readers previous now = some (entries, next)) :
    Triple (fun disk : Disk => disk = previous)
      (attempt (persisting readers entries next) Except.error fun _ =>
        pure (.ok ⟨identity, entries, next, 1, [], true⟩))
      (Opened readers live identity now previous)
      (OldOrNew readers (openCandidate readers previous now) previous) := by
  refine attempt ((persisting_spec readers entries next previous).stops
    fun disk h => h.imp id fun h => ⟨entries, next, hcandidate, h⟩) (fun refusal disk h => ?_)
    fun _ => ret fun disk h => ⟨hlive, rfl, rfl, rfl, hcandidate, .inl h⟩
  obtain ⟨error, attempted⟩ := refusal
  cases attempted with
  | false => exact h
  | true => exact ⟨hlive, entries, next, hcandidate, h⟩

theorem openJournal_spec (readers : Readers) (live : Bool) (identity : Nat) (path : Bytes)
    (now : TimePoint) (previous : Disk) :
    Triple (fun disk : Disk => disk = previous) (openJournal readers live identity path now)
      (Opened readers live identity now previous)
      (OldOrNew readers (openCandidate readers previous now) previous) := by
  let before := fun disk : Disk => disk = previous
  refine attempt ((openParent_spec before path).stops fun _ h => .inl h) (fun _ _ h => h)
    fun _ => ?_
  refine attempt ((checkParent_spec before).stops fun _ h => .inl h) (fun _ _ h => h)
    fun _ => ?_
  refine attempt ((lockJournal_spec before live).stops fun _ h => .inl h)
    (fun _ _ h => h.1) fun _ => ?_
  refine pre (intro fun hlive : live = false => ?_) fun _ h => ⟨h.2 _ rfl, h.1⟩
  refine attempt ((readJournal_spec previous).stops fun _ h => .inl h)
    (fun _ _ h => h.1) fun persisted => ?_
  refine pre (intro fun hpersisted : persisted = previous => ?_)
    fun _ h => ⟨h.2 _ rfl, h.1⟩
  subst hpersisted
  cases persisted with
  | none =>
    unfold loadOrCreate
    rw [attempt_attempt]
    exact opened_of_persisted hlive rfl
  | some text =>
    unfold loadOrCreate
    dsimp only
    cases hdecode : decode readers text with
    | error e => exact ret fun _ h => h
    | ok decoded =>
      show Triple _ (attempt (interruptEntries readers decoded now) Except.error _) _ _
      have hcandidate : openCandidate readers (some text) now =
          some (decoded.entries.map (interrupt now), decoded.nextOperationSequence) := by
        unfold openCandidate
        dsimp only
        rw [hdecode]
        rfl
      unfold interruptEntries
      split
      · rw [attempt_attempt]
        exact opened_of_persisted hlive hcandidate
      · next hquiet =>
          rw [Bool.or_eq_true, not_or, Bool.not_eq_true, Bool.not_eq_true] at hquiet
          rw [interrupt_inactive hquiet.2] at hcandidate
          refine ret fun disk h => ⟨hlive, rfl, rfl, rfl, hcandidate, .inr ⟨h, text, h, ?_⟩⟩
          rw [hdecode, ← hquiet.1]

/-! ## Reservations -/

/-- The reservations of a handle are below its sequence. -/
def Impl.Reserved (impl : Impl) : Prop :=
  ∀ entry ∈ impl.reservations, entry.1 < impl.nextOperationSequence

/-- The handle `impl'` is `impl` as far as the file is concerned. -/
structure Settled (impl impl' : Impl) : Prop where
  identity : impl'.identity = impl.identity
  entries : impl'.entries = impl.entries
  usable : impl'.usable = impl.usable
  sequence : impl.nextOperationSequence ≤ impl'.nextOperationSequence
  reserved : impl.Reserved → impl'.Reserved

theorem Settled.refl (impl : Impl) : Settled impl impl :=
  ⟨rfl, rfl, rfl, UInt64.le_refl _, fun h => h⟩

theorem Settled.trans {a b c : Impl} (hab : Settled a b) (hbc : Settled b c) : Settled a c :=
  ⟨hbc.identity.trans hab.identity, hbc.entries.trans hab.entries, hbc.usable.trans hab.usable,
    UInt64.le_trans hab.sequence hbc.sequence, fun h => hbc.reserved (hab.reserved h)⟩

theorem eraseReservation_settled (impl : Impl) (sequence : UInt64) :
    Settled impl (impl.eraseReservation sequence) :=
  ⟨rfl, rfl, rfl, UInt64.le_refl _, fun h entry hmem => h entry (mem_filter.mp hmem).1⟩

theorem release_settled (impl : Impl) (reservation : AdmissionReservation) :
    ∃ impl', (release (some impl) reservation).1 = some impl' ∧ Settled impl impl' ∧
      impl'.nextOperationSequence = impl.nextOperationSequence := by
  unfold release
  split
  · exact ⟨impl, rfl, Settled.refl impl, rfl⟩
  · refine ⟨_, rfl, ?_⟩
    dsimp only
    split
    · exact ⟨eraseReservation_settled impl _, rfl⟩
    · exact ⟨Settled.refl impl, rfl⟩

theorem lookup_mem {key value : UInt64} {entries : List (UInt64 × UInt64)}
    (h : entries.lookup key = some value) : (key, value) ∈ entries := by
  induction entries with
  | nil => cases h
  | cons entry rest ih =>
    obtain ⟨k, v⟩ := entry
    rw [lookup_cons] at h
    split at h
    · next heq =>
        cases h
        rw [eq_of_beq heq]
        exact mem_cons_self
    · exact mem_cons_of_mem _ (ih h)

/-- A handle that has just given out its next id. -/
def Impl.reserving (impl : Impl) : Impl :=
  { impl.countReservation with
    reservations := (impl.nextOperationSequence, impl.nextReservationNonce) :: impl.reservations }

/-- A refused reservation changes nothing, a granted one takes the next sequence. -/
theorem reserveOperationId_cases (impl : Impl) (hreserved : impl.Reserved) :
    (∃ e, reserveOperationId impl = (impl, .error e)) ∨ ∃ positive, impl.usable ∧
      impl.nextOperationSequence < impl.nextOperationSequence + 1 ∧ reserveOperationId impl =
        (impl.reserving, .ok ⟨⟨impl.nextOperationSequence, positive⟩, impl.nextReservationNonce,
            some impl.identity, false⟩) := by
  unfold reserveOperationId
  split
  · exact .inl ⟨_, rfl⟩
  · next husable =>
      split
      · exact .inl ⟨_, rfl⟩
      · next hlimit =>
          rw [not_or, not_or] at hlimit
          refine .inr ⟨hlimit.1, by simpa using husable, ?_, ?_⟩
          · exact lt_succ_of_le (UInt64.le_refl _) hlimit.2.1
          · refine if_neg fun hsome => ?_
            obtain ⟨nonce, hnonce⟩ := Option.isSome_iff_exists.mp hsome
            exact UInt64.lt_irrefl _ (hreserved _ (lookup_mem hnonce))

theorem reserving_settled (impl : Impl)
    (hlt : impl.nextOperationSequence < impl.nextOperationSequence + 1) :
    Settled impl impl.reserving := by
  refine ⟨rfl, rfl, rfl, UInt64.le_of_lt hlt, fun h entry hmem => ?_⟩
  obtain rfl | hmem := mem_cons.mp hmem
  · exact hlt
  · exact UInt64.lt_trans (h entry hmem) hlt

/-- Giving the id back at once leaves only the counters moved. -/
theorem release_reserving (impl : Impl) (hreserved : impl.Reserved)
    (positive : impl.nextOperationSequence ≠ 0) :
    (release (some impl.reserving) ⟨⟨impl.nextOperationSequence, positive⟩,
      impl.nextReservationNonce, some impl.identity, false⟩).1 = some impl.countReservation := by
  have hlookup : impl.reserving.reservations.lookup impl.nextOperationSequence =
      some impl.nextReservationNonce := lookup_cons_self
  have hkeep : impl.reservations.filter (fun entry => entry.1 ≠ impl.nextOperationSequence) =
      impl.reservations := by
    refine filter_eq_self.mpr fun entry hmem => ?_
    exact decide_eq_true fun heq => UInt64.lt_irrefl _ (heq ▸ hreserved entry hmem)
  have herase : impl.reserving.eraseReservation impl.nextOperationSequence =
      impl.countReservation := by
    unfold Impl.eraseReservation Impl.reserving
    rw [filter_cons_of_neg (by simp), hkeep]
    rfl
  show some (ite _ _ _) = _
  rw [if_pos ⟨rfl, hlookup⟩, herase]

/-! ## The outcomes of a call -/

/-- The entries in the file; none when there is no file or it is not a journal. -/
def storedEntries (readers : Readers) (disk : Disk) : List OperationJournalEntry :=
  match disk with
  | none => []
  | some text =>
    match decode readers text with
    | .ok decoded => decoded.entries
    | .error _ => []

/-- What the journal keeps true between two calls. -/
structure Holds (readers : Readers) (world : World) : Prop where
  /-- A usable handle has in memory what is in the file. -/
  durable : ∀ impl, world.process.impl = some impl → impl.usable = true →
    ∃ text next, world.disk = some text ∧ decode readers text = .ok ⟨impl.entries, next, false⟩ ∧
      next ≤ impl.nextOperationSequence
  /-- Any handle has in memory what is, or a moment ago was, in the file. -/
  behind : ∀ impl, world.process.impl = some impl →
    ∃ call, Advances call impl.entries (storedEntries readers world.disk)
  valid : ∀ impl, world.process.impl = some impl →
    Coherent impl.entries impl.nextOperationSequence ∧
      ∀ entry ∈ impl.entries, validEntryLifecycle entry = true
  reserved : ∀ impl, world.process.impl = some impl → impl.Reserved
  handles : ∀ impl, world.process.impl = some impl → impl.identity < world.process.handles

/-- What a call stores, when it stores anything. -/
def candidateOf (readers : Readers) (world : World) (now : TimePoint) :
    Call → Option (List OperationJournalEntry × UInt64)
  | .openJournal _ => openCandidate readers world.disk now
  | .admitReservation k plan =>
    match world.process.impl, world.process.reservations[k]? with
    | some impl, some reservation => impl.snapshot (admitCandidate impl reservation plan now)
    | _, _ => none
  | .admitPlan plan =>
    match world.process.impl.map reserveOperationId with
    | some (impl, .ok reservation) => impl.snapshot (admitCandidate impl reservation plan now)
    | _ => none
  | .transitionToRunning k =>
    match world.process.impl, world.process.admissionReceipts[k]? with
    | some impl, some receipt => impl.snapshot (transitionToRunningCandidate impl receipt now)
    | _, _ => none
  | .finalizeAdmission k terminal =>
    match world.process.impl, world.process.admissionReceipts[k]? with
    | some impl, some receipt => impl.snapshot (finalizeAdmissionCandidate impl receipt terminal now)
    | _, _ => none
  | .finalize k results terminal =>
    match world.process.impl, world.process.runReceipts[k]? with
    | some impl, some receipt => impl.snapshot (finalizeCandidate impl receipt results terminal now)
    | _, _ => none
  | _ => none

/-- A report that says nothing of the file. -/
def Report.quiet : Report → Bool
  | .done | .reserved _ => true
  | _ => false

def isTerminal : OperationJournalState → Bool
  | .completed | .failed | .cancelled => true
  | _ => false

theorem terminal_of_legal {source target : OperationJournalState}
    (h : legalTransition source target) (hs : source = .admitted ∨ source = .running) :
    isTerminal target := by
  obtain rfl | rfl := hs
  · cases target <;> first | rfl | cases h
  · cases target <;> first | rfl | cases h

/-- What a success says of the stored candidate. -/
def Reported (entries candidate : List OperationJournalEntry) : Report → Prop
  | .admitted _ => True
  | .running id => Replaces entries candidate id .admitted .running
  | .finalized id => ∃ source target, (source = .admitted ∨ source = .running) ∧
      isTerminal target = true ∧ Replaces entries candidate id source target
  | _ => False

/-- A refusal before the rename changes nothing; only the counters of `Admit` of a plan, which
    reserves and releases an id on the way, have moved. -/
def Untouched (call : Call) (before after : Process) : Prop :=
  after = before ∨ ∃ plan impl next nonce, call = .admitPlan plan ∧ before.impl = some impl ∧
      impl.nextOperationSequence ≤ next ∧
      after = { before with impl := some { impl with
        nextOperationSequence := next
        nextReservationNonce := nonce } }

/-- The outcomes of a call. -/
inductive Effect (readers : Readers) (world : World) (now : TimePoint) (call : Call) :
    World → Report → Prop
  | quiet {process : Process} {report : Report}
      (hhandle : ∀ impl', process.impl = some impl' →
        ∃ impl, world.process.impl = some impl ∧ Settled impl impl')
      (hhandles : process.handles = world.process.handles) (hreport : report.quiet = true) :
      Effect readers world now call ⟨world.disk, process⟩ report
  | refused {process : Process} {error : OperationJournalError}
      (hprocess : Untouched call world.process process) :
      Effect readers world now call ⟨world.disk, process⟩ (.refused ⟨error, false⟩)
  | opened {path : Bytes} {impl : Impl} {disk : Disk} (hcall : call = .openJournal path)
      (hnone : world.process.impl = none)
      (hopened : Opened readers false world.process.handles now world.disk (.ok impl) disk) :
      Effect readers world now call
        ⟨disk, { world.process with impl := some impl, handles := world.process.handles + 1 }⟩ .opened
  | stored {process : Process} {impl impl' : Impl} {disk : Disk} {report : Report}
      (himpl : world.process.impl = some impl) (husable : impl.usable = true)
      (hcandidate : candidateOf readers world now call =
        some (impl'.entries, impl'.nextOperationSequence))
      (hsnapshot : IsSnapshot readers impl'.entries impl'.nextOperationSequence disk)
      (himpl' : process.impl = some impl') (hidentity : impl'.identity = impl.identity)
      (hreserved : impl.Reserved → impl'.Reserved)
      (hhandles : process.handles = world.process.handles)
      (hreport : Reported impl.entries impl'.entries report) :
      Effect readers world now call ⟨disk, process⟩ report
  | uncertain {process : Process} {disk : Disk} {error : OperationJournalError}
      {entries : List OperationJournalEntry} {next : UInt64}
      (hcandidate : candidateOf readers world now call = some (entries, next))
      (hdisk : disk = world.disk ∨ IsSnapshot readers entries next disk)
      (hhandle : ∀ impl', process.impl = some impl' →
        ∃ impl, world.process.impl = some impl ∧ impl.usable = true ∧
          Settled { impl with usable := false } impl')
      (hhandles : process.handles = world.process.handles) :
      Effect readers world now call ⟨disk, process⟩ (.refused ⟨error, true⟩)
  | stopped {disk : Disk}
      (hdisk : OldOrNew readers (candidateOf readers world now call) world.disk disk) :
      Effect readers world now call ⟨disk, .empty world.process.handles⟩ .stopped

variable {world : World} {call : Call}

/-- A handle that stored a candidate, possibly minus a reservation. -/
theorem effect_of_stored {impl impl' : Impl} {stored : Except Refusal Unit} {disk : Disk}
    {process : Process} {success : Report}
    {candidate : Except OperationJournalError (List OperationJournalEntry)}
    (hstored : Stored readers impl candidate world.disk (impl', stored) disk)
    (hcandidate : candidateOf readers world now call = impl.snapshot candidate)
    {impl₀ impl'' : Impl} (himpl : world.process.impl = some impl₀) (hbefore : Settled impl₀ impl)
    (hprocess : process.impl = some impl'') (hafter : Settled impl' impl'')
    (hsequence : impl''.nextOperationSequence = impl'.nextOperationSequence)
    (hhandles : process.handles = world.process.handles)
    (hrefused : ∀ e, stored = .error ⟨e, false⟩ → impl' = impl → Untouched call world.process process)
    (hsuccess : ∀ entries, candidate = .ok entries →
      impl.usable ∧ Reported impl.entries entries success) :
    Effect readers world now call ⟨disk, process⟩ (reportOf success stored) := by
  obtain ⟨error, _ | _⟩ | u := stored
  · obtain ⟨hsame, rfl⟩ := hstored
    exact .refused (hrefused error rfl hsame)
  · obtain ⟨entries, rfl, rfl, hdisk⟩ := hstored
    refine .uncertain hcandidate hdisk (fun other hother => ?_) hhandles
    rw [hprocess, Option.some.injEq] at hother
    subst hother
    have hpoisoned : Settled { impl₀ with usable := false } { impl with usable := false } :=
      ⟨hbefore.identity, hbefore.entries, rfl, hbefore.sequence, hbefore.reserved⟩
    exact ⟨impl₀, himpl, hbefore.usable ▸ (hsuccess entries rfl).1, hpoisoned.trans hafter⟩
  · obtain ⟨entries, rfl, rfl, hsnapshot⟩ := hstored
    have hentries : impl''.entries = entries := hafter.entries
    have hnext : impl''.nextOperationSequence = impl.nextOperationSequence := hsequence
    have husable : impl₀.usable := hbefore.usable ▸ (hsuccess entries rfl).1
    refine .stored himpl husable ?_ ?_ hprocess (hafter.identity.trans hbefore.identity)
      (fun h => hafter.reserved (hbefore.reserved h)) hhandles ?_
    · rw [hentries, hnext]
      exact hcandidate
    · rw [hentries, hnext]
      exact hsnapshot
    · rw [hentries, ← hbefore.entries]
      exact (hsuccess entries rfl).2

/-- The spec of a call, as a goal for each of them. -/
def Performs (readers : Readers) (world : World) (now : TimePoint) (call : Call) : Prop :=
  Triple (fun disk : Disk => disk = world.disk) (perform readers world.process now call)
    (fun outcome disk => Effect readers world now call ⟨disk, outcome.1⟩ outcome.2)
    (OldOrNew readers (candidateOf readers world now call) world.disk)

/-- A call that leaves the file and, up to reservations, the handle. -/
theorem performs_quiet (process : Process) (report : Report)
    (hperform : perform readers world.process now call = pure (process, report))
    (hhandle : ∀ impl', process.impl = some impl' →
      ∃ impl, world.process.impl = some impl ∧ Settled impl impl')
    (hhandles : process.handles = world.process.handles) (hreport : report.quiet) :
    Performs readers world now call := by
  unfold Performs
  rw [hperform]
  refine ret fun disk h => ?_
  rw [h]
  exact .quiet hhandle hhandles hreport

theorem settled_same (impl' : Impl) (h : world.process.impl = some impl') :
    ∃ impl, world.process.impl = some impl ∧ Settled impl impl' :=
  ⟨impl', h, Settled.refl impl'⟩

theorem performs_openJournal (path : Bytes) : Performs readers world now (.openJournal path) := by
  refine bind (openJournal_spec readers world.process.impl.isSome world.process.handles path
    now world.disk) fun outcome => ?_
  obtain ⟨error, _ | _⟩ | impl := outcome
  · refine ret fun disk h => ?_
    rw [show disk = world.disk from h]
    exact .refused (.inl rfl)
  · refine ret fun disk h => ?_
    obtain ⟨hlive, entries, next, hcandidate, hdisk⟩ := h
    refine .uncertain hcandidate hdisk (fun impl' himpl' => ?_) rfl
    rw [himpl'] at hlive
    cases hlive
  · refine ret fun disk h => ?_
    have hnone : world.process.impl = none := by simpa using h.1
    refine .opened rfl hnone ?_
    rw [hnone] at h
    exact h

theorem performs_reserveOperationId (hholds : Holds readers world) :
    Performs readers world now .reserveOperationId := by
  cases himpl : world.process.impl with
  | none =>
    refine performs_quiet world.process .done ?_ settled_same rfl rfl
    simp [perform, himpl]
  | some impl =>
    rcases reserveOperationId_cases impl (hholds.reserved impl himpl) with
      ⟨e, hreserve⟩ | ⟨positive, husable, hlt, hreserve⟩
    · unfold Performs perform
      rw [himpl, Option.map_some, hreserve]
      refine ret fun disk h => ?_
      rw [h]
      refine .refused (.inl ?_)
      rw [← himpl]
    · refine performs_quiet { world.process with
        impl := some impl.reserving
        reservations := world.process.reservations ++
          [⟨⟨impl.nextOperationSequence, positive⟩, impl.nextReservationNonce, some impl.identity, false⟩] }
        (.reserved ⟨impl.nextOperationSequence, positive⟩) ?_ ?_ rfl rfl
      · simp [perform, himpl, hreserve]
      · intro impl' himpl'
        cases himpl'
        exact ⟨impl, himpl, reserving_settled impl hlt⟩

variable (k : Nat)

theorem performs_releaseReservation : Performs readers world now (.releaseReservation k) := by
  cases hreservation : world.process.reservations[k]? with
  | none =>
    refine performs_quiet world.process .done ?_ settled_same rfl rfl
    simp [perform, hreservation]
  | some reservation =>
    refine performs_quiet { world.process with
      impl := (release world.process.impl reservation).1
      reservations := world.process.reservations.set k (release world.process.impl reservation).2 }
      .done ?_ ?_ rfl rfl
    · simp [perform, hreservation]
    · intro impl' himpl'
      cases himpl : world.process.impl with
      | none =>
        rw [himpl] at himpl'
        unfold release at himpl'
        split at himpl' <;> cases himpl'
      | some impl =>
        rw [himpl] at himpl'
        obtain ⟨released, hreleased, hsettled, -⟩ := release_settled impl reservation
        rw [hreleased, Option.some.injEq] at himpl'
        exact ⟨impl, rfl, himpl' ▸ hsettled⟩

/-- The calls that only move a token or end the handle. -/
theorem performs_done (process : Process)
    (hperform : perform readers world.process now call = pure (process, .done))
    (himpl : process.impl = none ∨ process.impl = world.process.impl)
    (hhandles : process.handles = world.process.handles) : Performs readers world now call := by
  refine performs_quiet process .done hperform (fun impl' himpl' => ?_) hhandles rfl
  obtain hnone | hsame := himpl
  · rw [hnone] at himpl'
    cases himpl'
  · exact settled_same impl' (hsame ▸ himpl')

theorem untouched_same {impl : Impl} (himpl : world.process.impl = some impl) :
    Untouched call world.process { world.process with impl := some impl } := by
  left
  rw [← himpl]

theorem set_same {α : Type} {tokens : List α} {k : Nat} {token : α} (h : tokens[k]? = some token) :
    tokens.set k token = tokens := by
  obtain ⟨hlt, rfl⟩ := List.getElem?_eq_some_iff.mp h
  exact set_getElem_self hlt

theorem admissionOf_settled (impl : Impl) (reservation : AdmissionReservation) (plan : OperationPlan)
    (stored : Except Refusal Unit) : Settled impl (admissionOf impl reservation plan stored).1 ∧
    (admissionOf impl reservation plan stored).1.nextOperationSequence =
      impl.nextOperationSequence := by
  cases stored with
  | error refusal => exact ⟨Settled.refl impl, rfl⟩
  | ok u => exact ⟨eraseReservation_settled impl _, rfl⟩

theorem performs_admitReservation (plan : OperationPlan) :
    Performs readers world now (.admitReservation k plan) := by
  cases himpl : world.process.impl with
  | none => exact performs_done world.process (by simp [perform, himpl]) (.inr rfl) rfl
  | some impl =>
    cases htoken : world.process.reservations[k]? with
    | none => exact performs_done world.process (by simp [perform, himpl, htoken]) (.inr rfl) rfl
    | some reservation =>
      have hcandidate : candidateOf readers world now (.admitReservation k plan) =
          impl.snapshot (admitCandidate impl reservation plan now) := by
        simp [candidateOf, himpl, htoken]
      unfold Performs perform
      rw [hcandidate]
      simp only [himpl, htoken]
      refine (storeCandidate_map impl _ world.disk _ _).post ?_
      rintro _ disk ⟨impl', stored, rfl, hstored⟩
      have hreport : reportOf (.admitted (admissionOf impl' reservation plan stored).2.1.operationId)
          (admissionOf impl' reservation plan stored).2.2 =
          reportOf (.admitted reservation.operationId) stored := by
        cases stored <;> rfl
      have hafter := admissionOf_settled impl' reservation plan stored
      rw [hreport]
      refine effect_of_stored hstored hcandidate himpl (Settled.refl impl) rfl hafter.1 hafter.2 rfl
        ?_ fun entries hok => ⟨(admitCandidate_ok hok).1, trivial⟩
      rintro e rfl rfl
      left
      simp [admissionOf, set_same htoken, ← himpl, Except.toOption]

theorem performs_admitPlan (hholds : Holds readers world) (plan : OperationPlan) :
    Performs readers world now (.admitPlan plan) := by
  cases himpl : world.process.impl with
  | none => exact performs_done world.process (by simp [perform, himpl]) (.inr rfl) rfl
  | some impl =>
    have hreserved := hholds.reserved impl himpl
    rcases reserveOperationId_cases impl hreserved with
      ⟨e, hreserve⟩ | ⟨positive, husable, hlt, hreserve⟩
    · unfold Performs perform
      simp only [himpl, admitPlan, hreserve]
      refine ret fun disk h => ?_
      rw [h]
      refine .refused ?_
      simp only [Except.toOption, Option.toList_none, append_nil]
      exact untouched_same himpl
    · let reservation : AdmissionReservation :=
        ⟨⟨impl.nextOperationSequence, positive⟩, impl.nextReservationNonce, some impl.identity, false⟩
      have hcandidate : candidateOf readers world now (.admitPlan plan) =
          impl.reserving.snapshot (admitCandidate impl.reserving reservation plan now) := by
        simp only [candidateOf, himpl, Option.map_some, hreserve]
        rfl
      unfold Performs perform
      rw [hcandidate]
      simp only [himpl, admitPlan, hreserve]
      refine (Triple.map _ (storeCandidate_map impl.reserving _ world.disk _ _)).post ?_
      rintro _ disk ⟨_, rfl, impl', stored, rfl, hstored⟩
      obtain ⟨hadmitted, hsequence⟩ := admissionOf_settled impl' reservation plan stored
      obtain ⟨impl'', hreleased, hsettled, hsequence'⟩ := release_settled
        (admissionOf impl' reservation plan stored).1 (admissionOf impl' reservation plan stored).2.1
      have hreport : admissionReport (admissionOf impl' reservation plan stored).2.2 =
          reportOf (.admitted reservation.operationId) stored := by
        cases stored <;> rfl
      rw [hreport]
      refine effect_of_stored hstored hcandidate himpl (reserving_settled impl hlt) hreleased
        (hadmitted.trans hsettled) (hsequence'.trans hsequence) rfl ?_ fun entries hok => ⟨(admitCandidate_ok hok).1, trivial⟩
      rintro e rfl rfl
      refine .inr ⟨plan, impl, impl.nextOperationSequence + 1, impl.nextReservationNonce + 1, rfl,
        himpl, UInt64.le_of_lt hlt, ?_⟩
      have hcounted := release_reserving impl hreserved positive
      simp only [admissionOf, Except.toOption, Option.toList_none, append_nil]
      exact congrArg (fun handle => { world.process with impl := handle }) hcounted

/-- The calls that consume a receipt of the handle: `process` and `success` are what they
    make of the outcome of `storeCandidate`. -/
theorem performs_receipt {impl : Impl}
    (candidate : Except OperationJournalError (List OperationJournalEntry))
    (process : Impl → Except Refusal Unit → Process) (success : Report)
    (himpl : world.process.impl = some impl)
    (hcandidate : candidateOf readers world now call = impl.snapshot candidate)
    (hperform : Triple (fun disk : Disk => disk = world.disk) (perform readers world.process now call)
      (fun outcome disk => ∃ impl' stored, outcome = (process impl' stored, reportOf success stored) ∧
        Stored readers impl candidate world.disk (impl', stored) disk)
      (OldOrNew readers (impl.snapshot candidate) world.disk))
    (hprocess : ∀ impl' stored, (process impl' stored).impl = some impl' ∧
      (process impl' stored).handles = world.process.handles)
    (hrefused : ∀ e, process impl (.error ⟨e, false⟩) = world.process)
    (hsuccess : ∀ entries, candidate = .ok entries →
      impl.usable ∧ Reported impl.entries entries success) : Performs readers world now call := by
  unfold Performs
  rw [hcandidate]
  refine hperform.post ?_
  rintro _ disk ⟨impl', stored, rfl, hstored⟩
  refine effect_of_stored hstored hcandidate himpl (Settled.refl impl) (hprocess impl' stored).1
    (Settled.refl impl') rfl (hprocess impl' stored).2 ?_ hsuccess
  rintro e rfl rfl
  exact .inl (hrefused e)

theorem settle_refused {kind : ReceiptKind} (receipt : Receipt kind) (e : OperationJournalError) :
    receipt.settle (.error ⟨e, false⟩) = receipt := rfl

theorem settle_operationId {kind : ReceiptKind} (receipt : Receipt kind)
    (stored : Except Refusal Unit) : (receipt.settle stored).operationId = receipt.operationId := by
  unfold Receipt.settle
  split
  · rfl
  · split <;> rfl

theorem performs_transitionToRunning : Performs readers world now (.transitionToRunning k) := by
  cases himpl : world.process.impl with
  | none => exact performs_done world.process (by simp [perform, himpl]) (.inr rfl) rfl
  | some impl =>
    cases htoken : world.process.admissionReceipts[k]? with
    | none => exact performs_done world.process (by simp [perform, himpl, htoken]) (.inr rfl) rfl
    | some receipt =>
      refine performs_receipt (transitionToRunningCandidate impl receipt now)
        (fun impl' stored => { world.process with
          impl := some impl'
          admissionReceipts := world.process.admissionReceipts.set k (receipt.settle stored)
          runReceipts := world.process.runReceipts ++ (stored.map fun _ =>
            ⟨some impl'.identity, receipt.operationId, receipt.plan, false⟩).toOption.toList })
        (.running receipt.operationId) himpl ?_ ?_ (fun _ _ => ⟨rfl, rfl⟩) ?_ ?_
      · simp [candidateOf, himpl, htoken]
      · simp only [perform, himpl, htoken]
        refine (storeCandidate_map impl _ world.disk _ _).post ?_
        rintro _ disk ⟨impl', stored, rfl, hstored⟩
        refine ⟨impl', stored, ?_, hstored⟩
        rw [settle_operationId]
        cases stored <;> rfl
      · intro e
        simp [settle_refused, set_same htoken, ← himpl, Except.map, Except.toOption]
      · exact fun entries hentries => transitionToRunningCandidate_ok hentries

theorem performs_finalizeAdmission (terminal : OperationJournalState) :
    Performs readers world now (.finalizeAdmission k terminal) := by
  cases himpl : world.process.impl with
  | none => exact performs_done world.process (by simp [perform, himpl]) (.inr rfl) rfl
  | some impl =>
    cases htoken : world.process.admissionReceipts[k]? with
    | none => exact performs_done world.process (by simp [perform, himpl, htoken]) (.inr rfl) rfl
    | some receipt =>
      refine performs_receipt (finalizeAdmissionCandidate impl receipt terminal now)
        (fun impl' stored => { world.process with
          impl := some impl'
          admissionReceipts := world.process.admissionReceipts.set k (receipt.settle stored) })
        (.finalized receipt.operationId) himpl ?_ ?_ (fun _ _ => ⟨rfl, rfl⟩) ?_ ?_
      · simp [candidateOf, himpl, htoken]
      · simp only [perform, himpl, htoken]
        refine (storeCandidate_map impl _ world.disk _ _).post ?_
        rintro _ disk ⟨impl', stored, rfl, hstored⟩
        refine ⟨impl', stored, ?_, hstored⟩
        rw [settle_operationId]
      · intro e
        simp [settle_refused, set_same htoken, ← himpl]
      · intro entries hentries
        obtain ⟨husable, hlegal, hreplaces⟩ := finalizeAdmissionCandidate_ok hentries
        exact ⟨husable, .admitted, terminal, .inl rfl, terminal_of_legal hlegal (.inl rfl), hreplaces⟩

theorem performs_finalize (results : List OperationJournalItemResult)
    (terminal : OperationJournalState) :
    Performs readers world now (.finalize k results terminal) := by
  cases himpl : world.process.impl with
  | none => exact performs_done world.process (by simp [perform, himpl]) (.inr rfl) rfl
  | some impl =>
    cases htoken : world.process.runReceipts[k]? with
    | none => exact performs_done world.process (by simp [perform, himpl, htoken]) (.inr rfl) rfl
    | some receipt =>
      refine performs_receipt (finalizeCandidate impl receipt results terminal now)
        (fun impl' stored => { world.process with
          impl := some impl'
          runReceipts := world.process.runReceipts.set k (receipt.settle stored) })
        (.finalized receipt.operationId) himpl ?_ ?_ (fun _ _ => ⟨rfl, rfl⟩) ?_ ?_
      · simp [candidateOf, himpl, htoken]
      · simp only [perform, himpl, htoken]
        refine (storeCandidate_map impl _ world.disk _ _).post ?_
        rintro _ disk ⟨impl', stored, rfl, hstored⟩
        refine ⟨impl', stored, ?_, hstored⟩
        rw [settle_operationId]
      · intro e
        simp [settle_refused, set_same htoken, ← himpl]
      · intro entries hentries
        obtain ⟨husable, hlegal, hreplaces⟩ := finalizeCandidate_ok hentries
        exact ⟨husable, .running, terminal, .inr rfl, terminal_of_legal hlegal (.inr rfl), hreplaces⟩

end WinCommander.Operations.Journal
