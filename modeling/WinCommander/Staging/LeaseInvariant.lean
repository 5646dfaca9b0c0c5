/-
  Staging leases are used once, and by their owner.

  A call grants one lease, takes one, revokes those of an owner, or leaves the store as it was
  (`LeaseMove`, `leaseStep_move`). What a run keeps is read off these four: the active leases
  have headers and tokens of their own, and what an owner has taken of a lease, with what is
  still held of it, is never more than what was held and granted before.
-/
import WinCommander.Staging.LeaseStore

namespace WinCommander.Staging

open Library List LeaseLifecycle LeaseStore

def LeaseStore.active (store : LeaseStore) : List TerminalLease := store.entries.active

/-! ## What the operations do -/

namespace LeaseStore

theorem generateLeaseToken_ok (h : generateLeaseToken random = .ok token) :
    isAllZero token.bytes.1 = false := by
  unfold generateLeaseToken at h
  cases random with
  | none => cases h
  | some bytes =>
    dsimp only at h
    by_cases hzero : isAllZero bytes.1
    · rw [if_pos hzero] at h
      cases h
    · rw [if_neg hzero] at h
      cases h
      exact Bool.not_eq_true _ ▸ hzero

/-- A minted token is not all zero, and no entry has it. -/
theorem mintLease_ok {store : LeaseStore}
    (h : store.mintLease header random attempt remaining = .ok lease) :
    lease.header = header ∧ isAllZero lease.token.bytes.1 = false ∧
      ∀ entry ∈ store.active, entry.lease.token ≠ lease.token := by
  induction remaining generalizing attempt with
  | zero => cases h
  | succ remaining ih =>
    obtain ⟨token, htoken, h⟩ := bind_ok_iff.mp h
    split_ifs at h with hcollision
    · exact ih h
    · cases h
      refine ⟨rfl, generateLeaseToken_ok htoken, fun entry hentry hsame => hcollision ?_⟩
      exact any_eq_true.mpr ⟨entry, hentry, decide_eq_true hsame⟩

variable (pid : Int)

/-- `Grant` adds one entry, with a header and a token that no other has, or does nothing. -/
theorem grant_spec (store : LeaseStore) (owner : OwnerID) (begin : ValidatedBegin)
    (random : Nat → RandomBytes) :
    (∃ error, store.grant pid owner begin random = (store, .error error)) ∨
    ∃ store' entry, store.grant pid owner begin random = (store', .ok entry.lease) ∧
      store.creatorPid = pid ∧ owner ≠ 0 ∧ entry.owner = owner ∧
      entry.lease.header = begin.begin.request.header ∧
      isAllZero entry.lease.token.bytes.1 = false ∧
      (∀ other ∈ store.active, other.lease.header ≠ entry.lease.header) ∧
      (∀ other ∈ store.active, other.lease.token ≠ entry.lease.token) ∧
      store'.creatorPid = store.creatorPid ∧ store'.active.Perm (entry :: store.active) := by
  unfold grant
  by_cases hpid : store.creatorPid ≠ pid
  · exact .inl ⟨_, if_pos hpid⟩
  rw [if_neg hpid]
  by_cases hvalid : begin.valid = false
  · exact .inl ⟨_, if_pos hvalid⟩
  rw [if_neg hvalid]
  by_cases hbegin : begin.creatorPid ≠ pid
  · exact .inl ⟨_, if_pos hbegin⟩
  rw [if_neg hbegin]
  by_cases hrequest : owner = 0 ∨ ¬Accepts begin.begin.request.validate
  · exact .inl ⟨_, if_pos hrequest⟩
  rw [if_neg hrequest]
  by_cases hduplicate : store.entries.active.any (·.lease.header = begin.begin.request.header)
  · exact .inl ⟨_, if_pos hduplicate⟩
  rw [if_neg hduplicate]
  cases hfree : store.entries.freeSlot with
  | none => exact .inl ⟨_, rfl⟩
  | some freeEntry =>
    cases hmint : store.mintLease begin.begin.request.header random 0 kTokenGenerationAttempts with
    | error error => exact .inl ⟨_, rfl⟩
    | ok lease =>
      obtain ⟨hheader, htoken, hfresh⟩ := mintLease_ok hmint
      let entry : TerminalLease :=
        { creatorPid := store.creatorPid, owner, request := begin.begin.request,
          descriptors := begin.begin.descriptors, lease, disposition := .pending }
      refine .inr ⟨_, entry, rfl, not_not.mp hpid, fun hzero => hrequest (.inl hzero), rfl,
        hheader, htoken, fun other hother hsame => hduplicate ?_, hfresh, rfl,
        SlotTable.active_assign_some _ hfree⟩
      exact any_eq_true.mpr ⟨other, hother, decide_eq_true (hsame.trans hheader)⟩

/-- `Take` takes away the entry of this owner, header and token, or does nothing. -/
theorem take_spec (store : LeaseStore) (owner : OwnerID) (header : Header) (lease : Lease)
    (disposition : TerminalDisposition) :
    (∃ error, store.take pid owner header lease disposition = (store, .error error)) ∨
    ∃ store' entry, store.take pid owner header lease disposition =
        (store', .ok { entry with disposition := disposition }) ∧
      store.creatorPid = pid ∧ entry.owner = owner ∧ entry.lease.header = header ∧
      entry.lease = lease ∧ store'.creatorPid = store.creatorPid ∧
      store.active.Perm (entry :: store'.active) := by
  unfold take
  by_cases hpid : store.creatorPid ≠ pid
  · exact .inl ⟨_, if_pos hpid⟩
  rw [if_neg hpid]
  split
  · exact .inl ⟨_, rfl⟩
  · next hrequest =>
      cases hfind : store.entries.findEntry (·.lease.token = lease.token) with
      | none => exact .inl ⟨_, rfl⟩
      | some found =>
        obtain ⟨slot, entry⟩ := found
        obtain ⟨htoken, hperm⟩ := SlotTable.findEntry_eq_some _ hfind
        dsimp only
        by_cases hheader : entry.lease.header ≠ header
        · exact .inl ⟨_, if_pos hheader⟩
        rw [if_neg hheader]
        by_cases howner : entry.owner ≠ owner
        · exact .inl ⟨_, if_pos howner⟩
        rw [if_neg howner]
        have hsame : header = lease.header := by
          simp only [not_or, not_not] at hrequest
          exact hrequest.2.2.2.2
        have hlease : entry.lease = lease := by
          have h1 : entry.lease.header = lease.header := (not_not.mp hheader).trans hsame
          have h2 : entry.lease.token = lease.token := of_decide_eq_true htoken
          calc entry.lease = ⟨entry.lease.header, entry.lease.token⟩ := rfl
            _ = ⟨lease.header, lease.token⟩ := by rw [h1, h2]
            _ = lease := rfl
        exact .inr ⟨_, entry, rfl, not_not.mp hpid, not_not.mp howner, not_not.mp hheader, hlease,
          rfl, hperm⟩

/-- What the two public `Take`s have in common. -/
def TakeOutcome (pid : Int) (store : LeaseStore) (owner : OwnerID) (header : Header)
    (lease : Lease) (outcome : LeaseStore × Except LeaseStoreError TerminalLease) : Prop :=
  (∃ error, outcome = (store, .error error)) ∨
  ∃ store' entry terminal, outcome = (store', .ok terminal) ∧
    store.creatorPid = pid ∧ entry.owner = owner ∧ entry.lease.header = header ∧
    entry.lease = lease ∧ store'.creatorPid = store.creatorPid ∧
    store.active.Perm (entry :: store'.active)

theorem takeCommit_spec (store : LeaseStore) (owner : OwnerID) (request : CommitRequest) :
    TakeOutcome pid store owner request.header request.lease
      (store.takeCommit pid owner request) := by
  unfold takeCommit
  split
  · exact .inl ⟨_, rfl⟩
  split
  · exact .inl ⟨_, rfl⟩
  · exact (take_spec pid store owner request.header request.lease .commit).imp (fun h => h)
      fun ⟨store', entry, h, hrest⟩ => ⟨store', entry, _, h, hrest⟩

theorem takeAbort_spec (store : LeaseStore) (owner : OwnerID) (request : AbortRequest) :
    TakeOutcome pid store owner request.header request.lease
      (store.takeAbort pid owner request) := by
  unfold takeAbort
  split
  · exact .inl ⟨_, rfl⟩
  split
  · exact .inl ⟨_, rfl⟩
  · exact (take_spec pid store owner request.header request.lease .abort).imp (fun h => h)
      fun ⟨store', entry, h, hrest⟩ => ⟨store', entry, _, h, hrest⟩

end LeaseStore

/-! ## One step -/

/-- The ways a call can leave the store. -/
inductive LeaseMove (store : LeaseStore) (pid : Int) : LeaseStore → LeaseReport → Prop where
  | refused (report : LeaseReport) (hgranted : report.granted = none)
      (htaken : report.taken = none) : LeaseMove store pid store report
  | granted (store' : LeaseStore) (report : LeaseReport) (entry : TerminalLease)
      (hpid : store.creatorPid = pid) (hgranted : report.granted = some (entry.owner, entry.lease))
      (htaken : report.taken = none) (howner : entry.owner ≠ 0)
      (hheader : ∀ other ∈ store.active, other.lease.header ≠ entry.lease.header)
      (htoken : ∀ other ∈ store.active, other.lease.token ≠ entry.lease.token)
      (hcreator : store'.creatorPid = store.creatorPid)
      (hactive : store'.active.Perm (entry :: store.active)) : LeaseMove store pid store' report
  | taken (store' : LeaseStore) (report : LeaseReport) (entry : TerminalLease)
      (hpid : store.creatorPid = pid) (hgranted : report.granted = none)
      (htaken : report.taken = some (entry.owner, entry.lease.header, entry.lease))
      (hcreator : store'.creatorPid = store.creatorPid)
      (hactive : store.active.Perm (entry :: store'.active)) : LeaseMove store pid store' report
  | revoked (store' : LeaseStore) (report : LeaseReport) (owner : OwnerID)
      (hpid : store.creatorPid = pid) (hgranted : report.granted = none)
      (htaken : report.taken = none) (hcall : report.call = .revokeOwner owner)
      (hcreator : store'.creatorPid = store.creatorPid)
      (hactive : store'.active = store.active.filter fun entry => !decide (entry.owner = owner)) :
      LeaseMove store pid store' report

variable {report : LeaseReport}

variable {pid : Int}

/-- A call that reports what the two `Take`s of a lease do. -/
theorem leaseMove_of_take (houtcome : LeaseStore.TakeOutcome pid store owner header lease outcome)
    (hgranted : report.granted = none)
    (herror : ∀ error, outcome.2 = .error error → report.taken = none)
    (hok : ∀ terminal, outcome.2 = .ok terminal → report.taken = some (owner, header, lease)) :
    LeaseMove store pid outcome.1 report := by
  rcases houtcome with ⟨error, rfl⟩ | ⟨store', entry, terminal, rfl, hpid, howner, hheader, hlease,
    hcreator, hperm⟩
  · exact .refused report hgranted (herror error rfl)
  · have htaken := hok terminal rfl
    rw [← howner, ← hheader, ← hlease] at htaken
    exact .taken store' report entry hpid hgranted htaken hcreator hperm

theorem commit_eq (pid : Int) (store : LeaseStore) (owner : OwnerID) (request : CommitRequest) :
    commit pid store owner request = ((store.takeCommit pid owner request).1,
        match (store.takeCommit pid owner request).2 with
        | .error _ => notTaken request.header
        | .ok _ => committed request.header) := by
  unfold LeaseLifecycle.commit
  rcases store.takeCommit pid owner request with ⟨store', error | terminal⟩ <;> rfl

theorem abort_eq (pid : Int) (store : LeaseStore) (owner : OwnerID) (request : AbortRequest) :
    abort pid store owner request = ((store.takeAbort pid owner request).1,
        match (store.takeAbort pid owner request).2 with
        | .error _ => notTaken request.header
        | .ok _ => aborted request.header) := by
  unfold abort
  rcases store.takeAbort pid owner request with ⟨store', error | terminal⟩ <;> rfl

theorem leaseStep_move (store : LeaseStore) (event : Int × LeaseCall) :
    LeaseMove store event.1 (leaseStep store event).1 (leaseStep store event).2 := by
  obtain ⟨pid, call⟩ := event
  cases call with
  | grant owner begin random =>
    rcases grant_spec pid store owner begin random with ⟨error, h⟩ |
      ⟨store', entry, h, hpid, hzero, howner, hbegin, hnonzero, hheader, htoken, hcreator, hperm⟩
    · dsimp only [leaseStep, Prod.map]
      rw [h]
      exact .refused _ rfl rfl
    · dsimp only [leaseStep, Prod.map]
      rw [h]
      exact .granted store' _ entry hpid (by rw [howner]; rfl) rfl (howner ▸ hzero) hheader
        htoken hcreator hperm
  | takeCommit owner request =>
    dsimp only [leaseStep, Prod.map]
    refine leaseMove_of_take (takeCommit_spec pid store owner request) rfl ?_ ?_
    · intro error h
      rw [h]
      rfl
    · intro terminal h
      rw [h]
      rfl
  | takeAbort owner request =>
    dsimp only [leaseStep, Prod.map]
    refine leaseMove_of_take (takeAbort_spec pid store owner request) rfl ?_ ?_
    · intro error h
      rw [h]
      rfl
    · intro terminal h
      rw [h]
      rfl
  | begin owner begin random =>
    rcases grant_spec pid store owner begin random with ⟨error, h⟩ |
      ⟨store', entry, h, hpid, hzero, howner, hbegin, hnonzero, hheader, htoken, hcreator, hperm⟩
    · dsimp only [leaseStep, Prod.map, LeaseLifecycle.begin]
      rw [h]
      exact .refused _ rfl rfl
    · dsimp only [leaseStep, Prod.map, LeaseLifecycle.begin]
      rw [h]
      exact .granted store' _ entry hpid (by rw [howner]; rfl) rfl (howner ▸ hzero) hheader
        htoken hcreator hperm
  | commit owner request =>
    dsimp only [leaseStep, Prod.map]
    rw [commit_eq]
    refine leaseMove_of_take (takeCommit_spec pid store owner request) rfl ?_ ?_
    · intro error h
      dsimp only
      rw [h]
      rfl
    · intro terminal h
      dsimp only
      rw [h]
      rfl
  | abort owner request =>
    dsimp only [leaseStep, Prod.map]
    rw [abort_eq]
    refine leaseMove_of_take (takeAbort_spec pid store owner request) rfl ?_ ?_
    · intro error h
      dsimp only
      rw [h]
      rfl
    · intro terminal h
      dsimp only
      rw [h]
      rfl
  | revokeOwner owner =>
    dsimp only [leaseStep, Prod.map, revokeOwner]
    by_cases hpid : store.creatorPid ≠ pid
    · rw [if_pos hpid]
      exact .refused _ rfl rfl
    rw [if_neg hpid]
    by_cases hzero : owner = 0
    · rw [if_pos hzero]
      exact .refused _ rfl rfl
    rw [if_neg hzero]
    exact .revoked _ _ owner (not_not.mp hpid) rfl rfl rfl rfl (SlotTable.active_clearAll _ _)

/-! ## What a run keeps -/

/-- No two active leases share a header or a token, and each has an owner. -/
structure LeaseStore.Sound (store : LeaseStore) : Prop where
  headers : (store.active.map (·.lease.header)).Nodup
  tokens : (store.active.map (·.lease.token)).Nodup
  owned : ∀ entry ∈ store.active, entry.owner ≠ 0

theorem sound_create (pid : Int) : (create pid).Sound := by
  have hactive : (create pid).active = [] := SlotTable.active_empty
  refine ⟨?_, ?_, ?_⟩ <;> rw [hactive]
  · exact nodup_nil
  · exact nodup_nil
  · exact fun entry hentry => absurd hentry not_mem_nil

variable {store store' : LeaseStore}

theorem sound_of_sublist (h : store.Sound) (hsub : store'.active.Sublist store.active) :
    store'.Sound :=
  ⟨h.headers.sublist (hsub.map _), h.tokens.sublist (hsub.map _),
    fun entry hentry => h.owned entry (hsub.subset hentry)⟩

variable {old new : List TerminalLease}

theorem nodup_map_of_fresh (hperm : new.Perm (entry :: old)) (hold : (old.map key).Nodup)
    (hfresh : ∀ other ∈ old, key other ≠ key entry) : (new.map key).Nodup := by
  rw [(hperm.map key).nodup_iff, map_cons, nodup_cons]
  refine ⟨fun hmem => ?_, hold⟩
  obtain ⟨other, hother, hsame⟩ := mem_map.mp hmem
  exact hfresh other hother hsame

theorem nodup_map_of_perm_cons (hperm : old.Perm (entry :: new)) (hold : (old.map key).Nodup) :
    (new.map key).Nodup := by
  rw [(hperm.map key).nodup_iff, map_cons, nodup_cons] at hold
  exact hold.2

theorem sound_of_move (hmove : LeaseMove store pid store' report) (h : store.Sound) :
    store'.Sound := by
  cases hmove with
  | refused => exact h
  | granted _ _ entry hpid hgranted htaken howner hheader htoken hcreator hactive =>
    refine ⟨nodup_map_of_fresh hactive h.headers hheader,
      nodup_map_of_fresh hactive h.tokens htoken, fun other hother => ?_⟩
    rcases mem_cons.mp (hactive.subset hother) with rfl | hold
    · exact howner
    · exact h.owned other hold
  | taken _ _ entry hpid hgranted htaken hcreator hactive =>
    exact ⟨nodup_map_of_perm_cons hactive h.headers, nodup_map_of_perm_cons hactive h.tokens,
      fun other hother => h.owned other (hactive.symm.subset (mem_cons_of_mem _ hother))⟩
  | revoked _ _ owner hpid hgranted htaken hcall hcreator hactive =>
    exact sound_of_sublist h (hactive ▸ filter_sublist)

theorem creatorPid_of_move (hmove : LeaseMove store pid store' report) :
    store'.creatorPid = store.creatorPid := by
  cases hmove with
  | refused => rfl
  | granted _ _ entry hpid hgranted htaken howner hheader htoken hcreator hactive => exact hcreator
  | taken _ _ entry hpid hgranted htaken hcreator hactive => exact hcreator
  | revoked _ _ owner hpid hgranted htaken hcall hcreator hactive => exact hcreator

/-! ## Who holds what -/

/-- How many active entries give this owner this lease. -/
def LeaseStore.held (store : LeaseStore) (owner : OwnerID) (lease : Lease) : Nat :=
  store.active.countP fun entry => decide (entry.owner = owner ∧ entry.lease = lease)

def LeaseReport.grants (owner : OwnerID) (lease : Lease) (report : LeaseReport) : Bool :=
  report.granted = some (owner, lease)

def LeaseReport.takes (owner : OwnerID) (lease : Lease) (report : LeaseReport) : Bool :=
  report.taken.any fun taken => decide (taken.1 = owner ∧ taken.2.2 = lease)

theorem held_le_one (h : store.Sound) (owner : OwnerID) (lease : Lease) :
    store.held owner lease ≤ 1 := by
  have hcount := nodup_iff_count_le_one.mp h.tokens lease.token
  refine le_trans ?_ hcount
  unfold held
  rw [count_eq_countP, countP_map]
  refine countP_mono_left fun entry _ hentry => ?_
  have hlease := (of_decide_eq_true hentry).2
  exact beq_iff_eq.mpr (congrArg Lease.token hlease)

/-- What is taken in a call, and held after it, was held before or granted in it. -/
theorem held_of_move (hmove : LeaseMove store pid store' report) (owner : OwnerID) (lease : Lease) :
    [report].countP (LeaseReport.takes owner lease) + store'.held owner lease ≤
      store.held owner lease + [report].countP (LeaseReport.grants owner lease) := by
  rw [countP_singleton, countP_singleton]
  unfold LeaseReport.takes LeaseReport.grants held
  cases hmove with
  | refused _ hgranted htaken =>
    rw [htaken, hgranted]
    simp
  | granted _ _ entry hpid hgranted htaken howner hheader htoken hcreator hactive =>
    rw [htaken, hgranted, hactive.countP_eq, countP_cons]
    simp
  | taken _ _ entry hpid hgranted htaken hcreator hactive =>
    rw [htaken, hgranted, hactive.countP_eq, countP_cons]
    simp [Nat.add_comm]
  | revoked _ _ revokedOwner hpid hgranted htaken hcall hcreator hactive =>
    rw [htaken, hgranted, hactive]
    have hsub : (store.active.filter fun entry => !decide (entry.owner = revokedOwner)).countP
          (fun entry => decide (entry.owner = owner ∧ entry.lease = lease)) ≤
        store.active.countP fun entry => decide (entry.owner = owner ∧ entry.lease = lease) :=
      filter_sublist.countP_le
    simpa using hsub

/-- The same over a run. -/
theorem held_run (store : LeaseStore) (calls : List (Int × LeaseCall)) (owner : OwnerID)
    (lease : Lease) : (runAll leaseStep store calls).2.countP (LeaseReport.takes owner lease) +
        (runAll leaseStep store calls).1.held owner lease ≤ store.held owner lease +
        (runAll leaseStep store calls).2.countP (LeaseReport.grants owner lease) := by
  have hstep : ∀ (current : LeaseStore) (past : List LeaseReport) (event : Int × LeaseCall),
      past.countP (LeaseReport.takes owner lease) + current.held owner lease ≤
        store.held owner lease + past.countP (LeaseReport.grants owner lease) →
      (past ++ [(leaseStep current event).2]).countP (LeaseReport.takes owner lease) +
          (leaseStep current event).1.held owner lease ≤ store.held owner lease +
          (past ++ [(leaseStep current event).2]).countP (LeaseReport.grants owner lease) := by
    intro current past event h
    have hmove := held_of_move (leaseStep_move current event) owner lease
    rw [countP_append, countP_append]
    omega
  have hrun := runAll_reports (fun current past =>
      past.countP (LeaseReport.takes owner lease) + current.held owner lease ≤
        store.held owner lease + past.countP (LeaseReport.grants owner lease))
    hstep (s := store) [] calls (by simp)
  simpa using hrun

theorem sound_run (pid : Int) (calls : List (Int × LeaseCall)) :
    (runAll leaseStep (.create pid) calls).1.Sound ∧
      (runAll leaseStep (.create pid) calls).1.creatorPid = pid :=
  runAll_invariant (fun store => store.Sound ∧ store.creatorPid = pid)
    (fun store event h => ⟨sound_of_move (leaseStep_move store event) h.1,
      (creatorPid_of_move (leaseStep_move store event)).trans h.2⟩) calls ⟨sound_create pid, rfl⟩

/-- Nothing of an owner is held after its leases were revoked. -/
theorem held_revokeOwner (h : store.Sound) (owner : OwnerID) (lease : Lease) :
    (store.revokeOwner store.creatorPid owner).1.held owner lease = 0 := by
  unfold held
  rw [countP_eq_zero]
  intro entry hentry howned
  obtain ⟨howner, -⟩ := of_decide_eq_true howned
  unfold revokeOwner at hentry
  rw [if_neg (not_not.mpr rfl)] at hentry
  split_ifs at hentry with hzero
  · exact h.owned entry hentry (howner.trans hzero)
  · have hactive := SlotTable.active_clearAll store.entries (fun entry => decide (entry.owner = owner))
    unfold active at hentry
    rw [hactive, mem_filter] at hentry
    simp [howner] at hentry

/-! ## Results -/

theorem beginResult_accepted (hheader : Accepts header.validate)
    (hlease : ∀ lease, granted = .ok lease → lease.header = header ∧ isAllZero lease.token.bytes.1 = false) :
    Accepts (beginResult header granted).validate := by
  cases granted with
  | error error =>
    have hzero : isAllZero (Octets.zero 32).1 := isAllZero_replicate 32
    unfold Accepts BeginResult.validate beginResult
    dsimp only
    rw [seq_ok_iff, refuse_ok_iff]
    refine ⟨hheader, fun h => ?_⟩
    rcases h with hfailure | hlease
    · by_cases herror : error = .invalidArgument
      · rw [if_pos herror] at hfailure
        cases hfailure
      · rw [if_neg herror] at hfailure
        cases hfailure
    · unfold isZeroLease at hlease
      rw [hzero] at hlease
      cases hlease
  | ok lease =>
    obtain ⟨hsame, htoken⟩ := hlease lease rfl
    unfold Accepts BeginResult.validate beginResult
    dsimp only
    rw [seq_ok_iff, seq_ok_iff, refuse_ok_iff, mapError_ok_iff]
    exact ⟨hheader, not_not.mpr rfl, accepts_request_iff.mpr ⟨hheader, htoken, hsame.symm⟩⟩

theorem notTaken_accepted (hheader : Accepts header.validate) :
    Accepts (notTaken header).validate := by
  unfold Accepts CompletionResult.validate notTaken
  rw [seq_ok_iff]
  exact ⟨hheader, rfl⟩

theorem committed_accepted (hheader : Accepts header.validate) :
    Accepts (committed header).validate := by
  unfold Accepts CompletionResult.validate committed
  rw [seq_ok_iff]
  exact ⟨hheader, rfl⟩

theorem aborted_accepted (hheader : Accepts header.validate) :
    Accepts (aborted header).validate := by
  unfold Accepts CompletionResult.validate aborted
  rw [seq_ok_iff]
  exact ⟨hheader, rfl⟩

/-- The header a call speaks of. -/
def LeaseCall.header : LeaseCall → Option Header
  | .grant _ validated _ | .begin _ validated _ => some validated.begin.request.header
  | .takeCommit _ request | .commit _ request => some request.header
  | .takeAbort _ request | .abort _ request => some request.header
  | .revokeOwner _ => none

/-- The result, where a call returns one, is what `Validate` accepts. -/
def LeaseReply.Valid : LeaseReply → Prop
  | .begun result => Accepts result.validate
  | .completed result => Accepts result.validate
  | .lease _ | .terminal _ | .revoked _ => True

theorem reply_valid (store : LeaseStore) (event : Int × LeaseCall)
    (hcall : event.2.header = some header) (hheader : Accepts header.validate) :
    (leaseStep store event).2.reply.Valid := by
  obtain ⟨pid, call⟩ := event
  cases call with
  | grant owner begin random => trivial
  | takeCommit owner request => trivial
  | takeAbort owner request => trivial
  | begin owner begin random =>
    cases hcall
    change Accepts (beginResult _ (store.grant pid owner begin random).2).validate
    refine beginResult_accepted hheader fun lease hlease => ?_
    rcases grant_spec pid store owner begin random with ⟨error, h⟩ |
      ⟨store', entry, h, -, -, -, hbegin, hnonzero, -⟩
    · rw [h] at hlease
      cases hlease
    · rw [h] at hlease
      cases hlease
      exact ⟨hbegin, hnonzero⟩
  | commit owner request =>
    cases hcall
    change Accepts (commit pid store owner request).2.validate
    rw [commit_eq]
    cases (store.takeCommit pid owner request).2 with
    | error error => exact notTaken_accepted hheader
    | ok terminal => exact committed_accepted hheader
  | abort owner request =>
    cases hcall
    change Accepts (abort pid store owner request).2.validate
    rw [abort_eq]
    cases (store.takeAbort pid owner request).2 with
    | error error => exact notTaken_accepted hheader
    | ok terminal => exact aborted_accepted hheader
  | revokeOwner owner => cases hcall

/-- What one call may do, in whichever process it is made. -/
structure LeaseConduct (store : LeaseStore) (event : Int × LeaseCall) : Prop where
  /-- Only the owner takes a lease, with its header and its token. -/
  taken : ∀ owner header lease, (leaseStep store event).2.taken = some (owner, header, lease) →
    header = lease.header ∧ ∃ entry ∈ store.active, entry.owner = owner ∧ entry.lease = lease
  /-- A call that grants nothing, takes nothing and is no revocation changes nothing. -/
  failed : (leaseStep store event).2.granted = none → (leaseStep store event).2.taken = none →
    (∀ owner, event.2 ≠ .revokeOwner owner) → (leaseStep store event).1 = store
  /-- A forked process has no authority. -/
  forked : event.1 ≠ store.creatorPid → (leaseStep store event).1 = store ∧
    (leaseStep store event).2.granted = none ∧ (leaseStep store event).2.taken = none
  answered : ∀ header, event.2.header = some header → Accepts header.validate →
    (leaseStep store event).2.reply.Valid

section

variable {store store' : LeaseStore} {pid : Int} {report : LeaseReport}

section
variable (hmove : LeaseMove store pid store' report)
include hmove

theorem taken_of_move (h : report.taken = some (owner, header, lease)) :
    header = lease.header ∧ ∃ entry ∈ store.active, entry.owner = owner ∧ entry.lease = lease := by
  cases hmove with
  | refused _ hgranted htaken =>
    rw [htaken] at h
    cases h
  | granted _ _ entry hpid hgranted htaken howner hheader htoken hcreator hactive =>
    rw [htaken] at h
    cases h
  | taken _ _ entry hpid hgranted htaken hcreator hactive =>
    rw [htaken] at h
    cases h
    exact ⟨rfl, entry, hactive.symm.subset mem_cons_self, rfl, rfl⟩
  | revoked _ _ revokedOwner hpid hgranted htaken hcall hcreator hactive =>
    rw [htaken] at h
    cases h

theorem unchanged_of_move (hgrantedNone : report.granted = none) (htakenNone : report.taken = none)
    (hcall : ∀ owner, report.call ≠ .revokeOwner owner) : store' = store := by
  cases hmove with
  | refused _ hgranted htaken => rfl
  | granted _ _ entry hpid hgranted htaken howner hheader htoken hcreator hactive =>
    rw [hgranted] at hgrantedNone
    cases hgrantedNone
  | taken _ _ entry hpid hgranted htaken hcreator hactive =>
    rw [htaken] at htakenNone
    cases htakenNone
  | revoked _ _ owner hpid hgranted htaken hrevoke hcreator hactive =>
    exact absurd hrevoke (hcall owner)

theorem refused_of_move (hforked : pid ≠ store.creatorPid) :
    store' = store ∧ report.granted = none ∧ report.taken = none := by
  cases hmove with
  | refused _ hgranted htaken => exact ⟨rfl, hgranted, htaken⟩
  | granted _ _ entry hpid hgranted htaken howner hheader htoken hcreator hactive =>
    exact absurd hpid.symm hforked
  | taken _ _ entry hpid hgranted htaken hcreator hactive => exact absurd hpid.symm hforked
  | revoked _ _ owner hpid hgranted htaken hrevoke hcreator hactive =>
    exact absurd hpid.symm hforked

end

end

theorem leaseStep_conduct (store : LeaseStore) (event : Int × LeaseCall) :
    LeaseConduct store event where
  taken _ _ _ h := taken_of_move (leaseStep_move store event) h
  failed hgranted htaken hcall :=
    unchanged_of_move (leaseStep_move store event) hgranted htaken hcall
  forked h := refused_of_move (leaseStep_move store event) h
  answered _ hcall hheader := reply_valid store event hcall hheader

/--
  Over every sequence of calls: no two active leases share a header or a token, and there are
  at most as many as the store has room for; each call behaves as `LeaseConduct` says; what an
  owner takes of a lease was held or granted to it before, one take for each; and nothing is
  left to take of an owner whose leases were revoked, until it is granted anew.
-/
theorem leases_usedOnce_byOwner (pid : Int) (calls : List (Int × LeaseCall)) :
    let store := (runAll leaseStep (.create pid) calls).1
    ((store.active.map (·.lease.header)).Nodup ∧ (store.active.map (·.lease.token)).Nodup ∧
      store.active.length ≤ kMaximumLeases) ∧ (∀ event, LeaseConduct store event) ∧
    (∀ owner lease, store.held owner lease ≤ 1) ∧ (∀ later owner lease,
      (runAll leaseStep store later).2.countP (LeaseReport.takes owner lease) +
          (runAll leaseStep store later).1.held owner lease ≤ store.held owner lease +
          (runAll leaseStep store later).2.countP (LeaseReport.grants owner lease)) ∧
    ∀ later owner lease,
      let revoked := (leaseStep store (pid, .revokeOwner owner)).1
      (runAll leaseStep revoked later).2.countP (LeaseReport.takes owner lease) ≤
        (runAll leaseStep revoked later).2.countP (LeaseReport.grants owner lease) := by
  intro store
  obtain ⟨hsound, hpid⟩ := sound_run pid calls
  refine ⟨⟨hsound.headers, hsound.tokens, SlotTable.length_active_le _⟩,
    fun event => leaseStep_conduct store event, fun owner lease => held_le_one hsound owner lease,
    fun later owner lease => held_run store later owner lease, ?_⟩
  intro later owner lease revoked
  have hrun := held_run revoked later owner lease
  have hnothing : revoked.held owner lease = 0 := by
    have h := held_revokeOwner hsound owner lease
    rw [hpid] at h
    exact h
  omega

end WinCommander.Staging
