/-
  `RemoteConnectionRegistry`: the connections by their keys, and when each is due for a retry.

  A run of calls is told in a log of what was armed, claimed, failed and forgotten. The state and the
  deadline of a connection agree with the log (`Bookkeeping`) as long as no failure that is none is
  recorded for a connection that waits for its retry.
-/
import WinCommander.Library.Run
import WinCommander.Remote.ConnectionState

namespace WinCommander.Remote

open Library List Option

structure Entry where
  state : RemoteConnectionState := {}
  retryDeadline : Option Int64 := none
deriving DecidableEq

structure Registry where
  entries : AList fun _ : Bytes => Entry := ∅

namespace Registry

variable (registry : Registry)

/-- An entry is made when there is none. -/
def entryAt (key : Bytes) : Entry := (registry.entries.lookup key).getD {}

def state (key : Bytes) : Option RemoteConnectionState :=
  (registry.entries.lookup key).map Entry.state

def retryDeadline (key : Bytes) : Option Int64 :=
  (registry.entries.lookup key).bind Entry.retryDeadline

def recordConnected (key : Bytes) (time : Int64) (latency : Option Int64) (readOnly : Bool) : Registry where
  entries := registry.entries.insert key {
    state := (applyRemoteConnected (registry.entryAt key).state time latency readOnly).state
    retryDeadline := none }

def recordFailure (policy : RemoteRetryPolicy) (key : Bytes) (failure : RemoteConnectionFailure)
    (time : Int64) (detail : Bytes) (now : Int64) : Registry :=
  let transition := applyRemoteFailure (registry.entryAt key).state failure time detail policy
  { entries := registry.entries.insert key {
      state := transition.state
      retryDeadline := transition.retryAfter.map (now + ·) } }

def recordDisconnected (key : Bytes) : Registry :=
  match registry.entries.lookup key with
  | none => registry
  | some entry =>
    { entries := registry.entries.insert key {
        state := (applyRemoteDisconnected entry.state).state
        retryDeadline := none } }

def forget (key : Bytes) : Registry where
  entries := registry.entries.erase key

end Registry

def Entry.isDue (now : Int64) (entry : Entry) : Bool :=
  match entry.retryDeadline with
  | none => false
  | some deadline => ¬deadline > now

/-- Each due entry is disarmed as it is handed out. -/
def claimLoop (now : Int64) : List Bytes → (AList fun _ : Bytes => Entry) → List Bytes →
    (AList fun _ : Bytes => Entry) × List Bytes
  | [], entries, due => (entries, due)
  | key :: keys, entries, due =>
    match entries.lookup key with
    | none => claimLoop now keys entries due
    | some entry =>
      if entry.isDue now then
        claimLoop now keys (entries.insert key { entry with retryDeadline := none }) (due ++ [key])
      else claimLoop now keys entries due

def Registry.claimDueRetries (registry : Registry) (now : Int64) : Registry × List Bytes :=
  let (entries, due) := claimLoop now registry.entries.keys registry.entries []
  ({ entries }, due.mergeSort fun first second => first ≤ second)

/-! ## Calls -/

inductive Call where
  | recordConnected (key : Bytes) (time : Int64) (latency : Option Int64) (readOnly : Bool)
  | recordFailure (key : Bytes) (failure : RemoteConnectionFailure) (time : Int64) (detail : Bytes)
      (now : Int64)
  | recordDisconnected (key : Bytes)
  | forget (key : Bytes)
  | claimDueRetries (now : Int64)

/-- What happens to a connection. -/
inductive Event where
  | armed (key : Bytes) (deadline : Int64)
  | claimed (key : Bytes)
  | failed (key : Bytes) (event : RemoteConnectionEvent)
  | forgotten (key : Bytes)
deriving DecidableEq

/-- A call, and what happened in it. -/
def step (policy : RemoteRetryPolicy) (registry : Registry) : Call → Registry × List Event
  | .recordConnected key time latency readOnly =>
    (registry.recordConnected key time latency readOnly, [])
  | .recordFailure key failure time detail now =>
    let registry := registry.recordFailure policy key failure time detail now
    (registry, (if failure = .none then [] else [.failed key { failure, time, detail }]) ++
      ((registry.retryDeadline key).map (Event.armed key)).toList)
  | .recordDisconnected key => (registry.recordDisconnected key, [])
  | .forget key => (registry.forget key, [.forgotten key])
  | .claimDueRetries now =>
    let (registry, due) := registry.claimDueRetries now
    (registry, due.map .claimed)

/-- What a run of calls leaves, and its log. -/
def afterCalls (policy : RemoteRetryPolicy) (calls : List Call) : Registry × List Event :=
  let (registry, reports) := runAll (step policy) {} calls
  (registry, reports.flatten)

/-! ## Bookkeeping -/

/-- The event is about a connection's timer. -/
def Event.isTimerOf (key : Bytes) : Event → Bool
  | .armed other _ => other = key
  | .claimed other => other = key
  | .failed _ _ | .forgotten _ => false

/-- The last time that a connection's timer was armed or claimed. -/
def lastTimer (log : List Event) (key : Bytes) : Option Event :=
  (log.filter (·.isTimerOf key)).getLast?

/-- What an event makes of the failures of a connection. -/
def Event.addTo (key : Bytes) (past : List RemoteConnectionEvent) : Event → List RemoteConnectionEvent
  | .failed other failure => if other = key then failure :: past else past
  | .forgotten other => if other = key then [] else past
  | .armed _ _ | .claimed _ => past

/-- The failures of a connection since it is known, the latest first. -/
def failuresOf (key : Bytes) (log : List Event) : List RemoteConnectionEvent :=
  log.foldl (Event.addTo key) []

/-- Where a connection is reconnecting someone is going to retry it, no deadline is handed out twice,
    no other connection has one, and the history is that of the latest failures. -/
structure Bookkeeping (registry : Registry) (log : List Event) : Prop where
  waiting : ∀ key state, registry.state key = some state → state.status = .reconnecting →
    (registry.retryDeadline key).isSome = true ∨ lastTimer log key = some (.claimed key)
  once : Each (fun before event => ∀ key, event = .claimed key →
    ∃ deadline, lastTimer before key = some (.armed key deadline)) log
  quiet : ∀ key state, registry.state key = some state →
    state.status ∈ [RemoteConnectionStatus.connected, .disconnected, .offline, .blocked] →
    registry.retryDeadline key = none
  history : ∀ key state, registry.state key = some state →
    state.history = (failuresOf key log).take maximumHistory ∧ state.history.length ≤ maximumHistory

/-- No failure that is none is recorded for a connection that waits for its retry. -/
def KeepsTimer (registry : Registry) : Call → Prop
  | .recordFailure key failure _ _ _ =>
    failure = .none → ∀ state, registry.state key = some state → state.status = .reconnecting →
      registry.retryDeadline key = none
  | _ => True

/-! ## What a call does to the entries -/

section Entries

variable (registry : Registry) (key other : Bytes)

theorem lookup_recordConnected (time : Int64) (latency : Option Int64) (readOnly : Bool) :
    (registry.recordConnected key time latency readOnly).entries.lookup other = if other = key then
        some {
          state := (applyRemoteConnected (registry.entryAt key).state time latency readOnly).state
          retryDeadline := none }
      else registry.entries.lookup other := by
  unfold Registry.recordConnected
  split_ifs with h
  · rw [h, AList.lookup_insert]
  · rw [AList.lookup_insert_ne h]

theorem lookup_recordFailure (policy : RemoteRetryPolicy) (failure : RemoteConnectionFailure)
    (time : Int64) (detail : Bytes) (now : Int64) :
    (registry.recordFailure policy key failure time detail now).entries.lookup other =
      if other = key then some {
          state := (applyRemoteFailure (registry.entryAt key).state failure time detail policy).state
          retryDeadline := (applyRemoteFailure (registry.entryAt key).state failure time detail
            policy).retryAfter.map (now + ·) }
      else registry.entries.lookup other := by
  unfold Registry.recordFailure
  split_ifs with h
  · rw [h, AList.lookup_insert]
  · rw [AList.lookup_insert_ne h]

theorem lookup_recordDisconnected : (registry.recordDisconnected key).entries.lookup other =
      if other = key then (registry.entries.lookup key).map fun entry => {
          state := (applyRemoteDisconnected entry.state).state
          retryDeadline := none }
      else registry.entries.lookup other := by
  unfold Registry.recordDisconnected
  cases hentry : registry.entries.lookup key with
  | none =>
    split_ifs with h
    · rw [h, hentry]
      rfl
    · rfl
  | some entry =>
    split_ifs with h
    · rw [h, AList.lookup_insert]
      rfl
    · rw [AList.lookup_insert_ne h]

theorem lookup_forget : (registry.forget key).entries.lookup other =
    if other = key then none else registry.entries.lookup other := by
  unfold Registry.forget
  split_ifs with h
  · rw [h, AList.lookup_erase]
  · rw [AList.lookup_erase_ne h]

end Entries

/-- The connection has a deadline, and it has come. -/
def dueAt (now : Int64) (entries : AList fun _ : Bytes => Entry) (key : Bytes) : Bool :=
  ((entries.lookup key).map (Entry.isDue now)).getD false

theorem claimLoop_spec (now : Int64) (keys : List Bytes) (hkeys : keys.Nodup)
    (entries : AList fun _ : Bytes => Entry) (due : List Bytes) :
    (claimLoop now keys entries due).2 = due ++ keys.filter (dueAt now entries) ∧
      ∀ other, (claimLoop now keys entries due).1.lookup other =
        if other ∈ keys ∧ dueAt now entries other = true then
          (entries.lookup other).map fun entry => { entry with retryDeadline := none }
        else entries.lookup other := by
  induction keys generalizing entries due with
  | nil => exact ⟨(append_nil due).symm, fun other => (if_neg fun h => absurd h.1 not_mem_nil).symm⟩
  | cons key keys ih =>
    obtain ⟨hkey, hkeys⟩ := nodup_cons.mp hkeys
    -- The other keys do not see what is done to this one.
    have hskip : dueAt now entries key = false →
        (claimLoop now keys entries due).2 = due ++ (key :: keys).filter (dueAt now entries) ∧
        ∀ other, (claimLoop now keys entries due).1.lookup other =
          if other ∈ key :: keys ∧ dueAt now entries other = true then
            (entries.lookup other).map fun entry => { entry with retryDeadline := none }
          else entries.lookup other := by
      intro hdue
      obtain ⟨hclaimed, hlookup⟩ := ih hkeys entries due
      rw [filter_cons_of_neg (by rw [hdue]; decide)]
      refine ⟨hclaimed, fun other => (hlookup other).trans (if_congr ?_ rfl rfl)⟩
      refine and_congr_left fun hother => ⟨mem_cons_of_mem key, fun hmem => ?_⟩
      refine (mem_cons.mp hmem).resolve_left fun heq => ?_
      rw [heq, hdue] at hother
      cases hother
    unfold claimLoop
    cases hentry : entries.lookup key with
    | none => exact hskip (by unfold dueAt; rw [hentry]; rfl)
    | some entry =>
      have hdueAt : dueAt now entries key = entry.isDue now := by
        unfold dueAt
        rw [hentry]
        rfl
      dsimp only
      split_ifs with hdue
      · obtain ⟨hclaimed, hlookup⟩ := ih hkeys
          (entries.insert key { entry with retryDeadline := none }) (due ++ [key])
        have hsame : ∀ other, other ≠ key →
            (entries.insert key { entry with retryDeadline := none }).lookup other =
              entries.lookup other := fun other hne => AList.lookup_insert_ne hne
        have hdues : ∀ other, other ≠ key →
            dueAt now (entries.insert key { entry with retryDeadline := none }) other =
              dueAt now entries other := by
          intro other hne
          unfold dueAt
          rw [hsame other hne]
        constructor
        · rw [hclaimed, filter_cons_of_pos (by rw [hdueAt]; exact hdue), append_assoc]
          refine congrArg (fun rest => due ++ (key :: rest)) (filter_congr fun other hother => ?_)
          exact hdues other fun heq => hkey (heq ▸ hother)
        · intro other
          rw [hlookup]
          by_cases hother : other = key
          · subst hother
            rw [if_neg fun h => hkey h.1, AList.lookup_insert,
              if_pos ⟨mem_cons_self, hdueAt.trans hdue⟩, hentry]
            rfl
          · rw [hdues other hother, hsame other hother]
            refine if_congr (and_congr_left fun _ => ?_) rfl rfl
            exact ⟨mem_cons_of_mem key, fun hmem => (mem_cons.mp hmem).resolve_left hother⟩
      · exact hskip (hdueAt.trans (eq_false_of_ne_true hdue))

/-- What is due is handed out once, and is disarmed. -/
theorem claimDueRetries_spec (registry : Registry) (now : Int64) :
    (registry.claimDueRetries now).2.Nodup ∧
      (∀ key, key ∈ (registry.claimDueRetries now).2 ↔ dueAt now registry.entries key) ∧
      ∀ other, (registry.claimDueRetries now).1.entries.lookup other =
        if dueAt now registry.entries other = true then
          (registry.entries.lookup other).map fun entry => { entry with retryDeadline := none }
        else registry.entries.lookup other := by
  have hnodup := registry.entries.keys_nodup
  obtain ⟨hclaimed, hlookup⟩ := claimLoop_spec now registry.entries.keys hnodup registry.entries []
  rw [nil_append] at hclaimed
  have hkeys : ∀ key, dueAt now registry.entries key → key ∈ registry.entries.keys := by
    intro key hdue
    by_contra hkey
    unfold dueAt at hdue
    rw [AList.lookup_eq_none.mpr hkey] at hdue
    cases hdue
  unfold Registry.claimDueRetries
  dsimp only
  rw [hclaimed]
  have hperm := mergeSort_perm (registry.entries.keys.filter (dueAt now registry.entries))
    fun first second => decide (first ≤ second)
  refine ⟨hperm.nodup_iff.mpr (hnodup.filter _), fun key => ?_, fun other => ?_⟩
  · rw [hperm.mem_iff, mem_filter]
    exact and_iff_right_of_imp (hkeys key)
  · rw [hlookup]
    exact if_congr (and_iff_right_of_imp (hkeys other)) rfl rfl

/-! ## What the log tells -/

def Event.key : Event → Bytes
  | .armed key _ | .claimed key | .failed key _ | .forgotten key => key

section Log

variable {log more : List Event} {key : Bytes}

theorem lastTimer_append_of (hmore : ∀ event ∈ more, event.isTimerOf key = false) :
    lastTimer (log ++ more) key = lastTimer log key := by
  have hnone : more.filter (·.isTimerOf key) = [] := by
    rw [filter_eq_nil_iff]
    intro event hevent
    rw [hmore event hevent]
    exact Bool.false_ne_true
  unfold lastTimer
  rw [filter_append, hnone, append_nil]

theorem lastTimer_concat (hevent : event.isTimerOf key) :
    lastTimer (log ++ [event]) key = some event := by
  unfold lastTimer
  rw [filter_append, filter_cons_of_pos hevent, filter_nil, List.getLast?_concat]

theorem isTimerOf_false {event : Event} (hevent : event.key ≠ key) : event.isTimerOf key = false := by
  cases event with
  | armed other _ => exact decide_eq_false hevent
  | claimed other => exact decide_eq_false hevent
  | failed _ _ => rfl
  | forgotten _ => rfl

theorem failuresOf_append :
    failuresOf key (log ++ more) = more.foldl (Event.addTo key) (failuresOf key log) :=
  foldl_append

theorem addTo_of {event : Event} (hevent : event.key ≠ key ∨ ∃ key, event = .claimed key)
    : event.addTo key past = past := by
  rcases hevent with hkey | ⟨other, rfl⟩
  · cases event with
    | armed _ _ => rfl
    | claimed _ => rfl
    | failed other failure => exact if_neg hkey
    | forgotten other => exact if_neg hkey
  · rfl

theorem failuresOf_append_of
    (hmore : ∀ event ∈ more, event.key ≠ key ∨ ∃ key, event = .claimed key) :
    failuresOf key (log ++ more) = failuresOf key log := by
  rw [failuresOf_append]
  induction more with
  | nil => rfl
  | cons event more ih =>
    rw [foldl_cons, addTo_of (hmore event mem_cons_self)]
    exact ih fun event hevent => hmore event (mem_cons_of_mem _ hevent)

/-- Connections that are handed out together are all told as handed out. -/
theorem lastTimer_claims {due : List Bytes} (hdue : due.Nodup) (hkey : key ∈ due) :
    lastTimer (log ++ due.map Event.claimed) key = some (.claimed key) := by
  obtain ⟨before, after, rfl⟩ := append_of_mem hkey
  have hafter : key ∉ after := (nodup_cons.mp (nodup_append.mp hdue).2.1).1
  rw [map_append, map_cons, append_cons, ← append_assoc, lastTimer_append_of,
    ← append_assoc, lastTimer_concat]
  · exact decide_eq_true rfl
  · intro event hevent
    obtain ⟨other, hother, rfl⟩ := mem_map.mp hevent
    exact decide_eq_false fun heq => hafter (heq ▸ hother)

end Log

/-! ## Agreement with the log -/

/-- What the log says of a connection that is found so. -/
structure Agrees (log : List Event) (key : Bytes) (found : Option Entry) : Prop where
  timed : ∀ entry deadline, found = some entry → entry.retryDeadline = some deadline →
    lastTimer log key = some (.armed key deadline) ∧ entry.state.status = .reconnecting
  known : ∀ entry, found = some entry →
    entry.state.history = (failuresOf key log).take maximumHistory
  unknown : found = none → failuresOf key log = []

/-- A connection that is found reconnecting is going to be retried. -/
def Awaited (log : List Event) (key : Bytes) (found : Option Entry) : Prop :=
  ∀ entry, found = some entry → entry.state.status = .reconnecting →
    entry.retryDeadline.isSome = true ∨ lastTimer log key = some (.claimed key)

/-- A claim hands out what was armed last. -/
def ClaimsArmed (before : List Event) (event : Event) : Prop :=
  ∀ key, event = .claimed key → ∃ deadline, lastTimer before key = some (.armed key deadline)

section Agreement

variable {log more : List Event} {key : Bytes} {found : Option Entry} {entry : Entry}

theorem Agrees.history (h : Agrees log key found) :
    (found.getD {}).state.history = (failuresOf key log).take maximumHistory := by
  cases found with
  | none =>
    rw [h.unknown rfl]
    rfl
  | some entry => exact h.known entry rfl

/-- What happens to other connections does not matter. -/
theorem Agrees.append_of (h : Agrees log key found) (hmore : ∀ event ∈ more, event.key ≠ key) :
    Agrees (log ++ more) key found := by
  have htimer : lastTimer (log ++ more) key = lastTimer log key :=
    lastTimer_append_of fun event hevent => isTimerOf_false (hmore event hevent)
  have hfailures : failuresOf key (log ++ more) = failuresOf key log :=
    failuresOf_append_of fun event hevent => .inl (hmore event hevent)
  constructor
  · rw [htimer]
    exact h.timed
  · rw [hfailures]
    exact h.known
  · rw [hfailures]
    exact h.unknown

theorem Awaited.append_of (h : Awaited log key found) (hmore : ∀ event ∈ more, event.key ≠ key) :
    Awaited (log ++ more) key found := by
  unfold Awaited
  rw [lastTimer_append_of fun event hevent => isTimerOf_false (hmore event hevent)]
  exact h

/-- Nothing is known of a connection that is not there, and nothing is awaited. -/
theorem agrees_none (hfailures : failuresOf key log = []) : Agrees log key none where
  timed := fun _ _ hnone => absurd hnone.symm (some_ne_none _)
  known := fun _ hnone => absurd hnone.symm (some_ne_none _)
  unknown := fun _ => hfailures

theorem awaited_none : Awaited log key none :=
  fun _ hnone => absurd hnone.symm (some_ne_none _)

/-- A connection without a deadline only has to have its history. -/
theorem agrees_of_idle (hdeadline : entry.retryDeadline = none)
    (hhistory : entry.state.history = (failuresOf key log).take maximumHistory) :
    Agrees log key (some entry) where
  timed := by
    intro found deadline hfound hsome
    rw [← some.inj hfound, hdeadline] at hsome
    cases hsome
  known := fun found hfound => some.inj hfound ▸ hhistory
  unknown := nofun

theorem awaited_of_ne (hstatus : entry.state.status ≠ .reconnecting) :
    Awaited log key (some entry) := by
  intro found hfound hreconnecting
  rw [← some.inj hfound] at hreconnecting
  exact absurd hreconnecting hstatus

end Agreement

/-! ## What a call keeps -/

section Steps

variable {policy : RemoteRetryPolicy} {registry : Registry} {log : List Event} {key other : Bytes}

section
variable (failure : RemoteConnectionFailure)
include failure

theorem retryDeadline_recordFailure (time : Int64) (detail : Bytes) (now : Int64) :
    (registry.recordFailure policy key failure time detail now).retryDeadline key =
      (applyRemoteFailure (registry.entryAt key).state failure time detail
        policy).retryAfter.map (now + ·) := by
  unfold Registry.retryDeadline
  rw [lookup_recordFailure, if_pos rfl]
  rfl

/-- The events of a failure: itself, and the retry that it arms. -/
theorem step_recordFailure (time : Int64) (detail : Bytes) (now : Int64) :
    (step policy registry (.recordFailure key failure time detail now)).2 =
      (if failure = .none then [] else [.failed key { failure, time, detail }]) ++
        (((applyRemoteFailure (registry.entryAt key).state failure time detail
          policy).retryAfter.map (now + ·)).map (Event.armed key)).toList := by
  unfold step
  dsimp only
  rw [retryDeadline_recordFailure]

theorem lookup_step_recordFailure (time : Int64) (detail : Bytes) (now : Int64) :
    (step policy registry (.recordFailure key failure time detail now)).1.entries.lookup other =
      if other = key then some {
          state := (applyRemoteFailure (registry.entryAt key).state failure time detail policy).state
          retryDeadline := (applyRemoteFailure (registry.entryAt key).state failure time detail
            policy).retryAfter.map (now + ·) }
      else registry.entries.lookup other :=
  lookup_recordFailure registry key other policy failure time detail now

end

theorem key_of_failure {failure : RemoteConnectionFailure}
    (hevent : event ∈ (step policy registry (.recordFailure key failure time detail now)).2) :
    event.key = key ∧ ∀ claimed, event ≠ .claimed claimed := by
  rcases mem_append.mp hevent with hfailed | harmed
  · split_ifs at hfailed
    · exact absurd hfailed not_mem_nil
    · rw [mem_singleton.mp hfailed]
      exact ⟨rfl, nofun⟩
  · obtain ⟨deadline, _, rfl⟩ := map_eq_some_iff.mp (mem_toList.mp harmed)
    exact ⟨rfl, nofun⟩

theorem take_cons_take (first : α) (rest : List α) (bound : Nat) :
    (first :: rest.take bound).take bound = (first :: rest).take bound := by
  cases bound with
  | zero => rfl
  | succ bound =>
    rw [take_succ_cons, take_succ_cons, take_take, Nat.min_eq_left (Nat.le_succ bound)]

theorem agrees_recordFailure (h : Agrees log key (registry.entries.lookup key))
    (failure : RemoteConnectionFailure) (time : Int64) (detail : Bytes) (now : Int64) :
    Agrees (log ++ (step policy registry (.recordFailure key failure time detail now)).2) key
      ((step policy registry (.recordFailure key failure time detail now)).1.entries.lookup key) := by
  have hhistory : (registry.entryAt key).state.history = (failuresOf key log).take maximumHistory :=
    h.history
  rw [lookup_step_recordFailure, if_pos rfl, step_recordFailure]
  by_cases hnone : failure = .none
  · subst hnone
    rw [if_pos rfl, applyRemoteFailure_none]
    exact agrees_of_idle rfl (by rw [nil_append, Option.map_none, Option.map_none,
      Option.toList_none, append_nil]; exact hhistory)
  · obtain ⟨hretry, hpast⟩ := @applyRemoteFailure_retry (registry.entryAt key).state failure time detail
      policy hnone
    rw [hhistory, take_cons_take] at hpast
    have htold : failuresOf key (log ++ [.failed key { failure, time, detail }]) =
        { failure, time, detail } :: failuresOf key log := by
      rw [failuresOf_append]
      exact if_pos rfl
    rw [if_neg hnone, ← append_assoc]
    cases hafter : (applyRemoteFailure (registry.entryAt key).state failure time detail
        policy).retryAfter with
    | none =>
      rw [Option.map_none, Option.map_none, Option.toList_none, append_nil]
      exact agrees_of_idle rfl (by rw [htold]; exact hpast)
    | some delay =>
      rw [map_some, map_some, toList_some]
      refine ⟨fun entry deadline hentry hdeadline => ?_, fun entry hentry => ?_, nofun⟩
      · rw [← some.inj hentry] at hdeadline ⊢
        rw [lastTimer_concat (by exact decide_eq_true rfl), ← some.inj hdeadline]
        exact ⟨rfl, hretry.mp (by rw [hafter]; rfl)⟩
      · rw [← some.inj hentry, failuresOf_append, htold]
        exact hpast

theorem agrees_forget : Agrees (log ++ [.forgotten key]) key none := by
  refine agrees_none ?_
  rw [failuresOf_append]
  exact if_pos rfl

theorem retryDeadline_of_due (hdue : dueAt now registry.entries key) :
    ∃ entry deadline, registry.entries.lookup key = some entry ∧
      entry.retryDeadline = some deadline := by
  unfold dueAt at hdue
  cases hfound : registry.entries.lookup key with
  | none =>
    rw [hfound] at hdue
    cases hdue
  | some entry =>
    rw [hfound] at hdue
    cases hdeadline : entry.retryDeadline with
    | none =>
      change entry.isDue now = true at hdue
      unfold Entry.isDue at hdue
      rw [hdeadline] at hdue
      cases hdue
    | some deadline => exact ⟨entry, deadline, rfl, hdeadline⟩

theorem key_of_claim (hevent : event ∈ (registry.claimDueRetries now).2.map Event.claimed) :
    dueAt now registry.entries event.key := by
  obtain ⟨claimed, hclaimed, rfl⟩ := mem_map.mp hevent
  exact ((claimDueRetries_spec registry now).2.1 claimed).mp hclaimed

theorem agrees_claimDueRetries (h : Agrees log key (registry.entries.lookup key)) (now : Int64) :
    Agrees (log ++ (step policy registry (.claimDueRetries now)).2) key
      ((step policy registry (.claimDueRetries now)).1.entries.lookup key) := by
  obtain ⟨hnodup, hmem, hlookup⟩ := claimDueRetries_spec registry now
  unfold step
  rw [hlookup]
  have hfailures : failuresOf key (log ++ (registry.claimDueRetries now).2.map Event.claimed) =
      failuresOf key log := by
    refine failuresOf_append_of fun event hevent => .inr ?_
    obtain ⟨claimed, _, rfl⟩ := mem_map.mp hevent
    exact ⟨claimed, rfl⟩
  split_ifs with hdue
  · obtain ⟨entry, deadline, hfound, _⟩ := retryDeadline_of_due hdue
    rw [hfound]
    exact agrees_of_idle rfl (by rw [hfailures]; exact h.known entry hfound)
  · exact h.append_of fun event hevent heq => hdue (heq ▸ key_of_claim hevent)

section
variable (h : ∀ key, Agrees log key (registry.entries.lookup key))
include h

/-- Every call keeps the agreement of every connection with the log. -/
theorem step_agrees (call : Call) (key : Bytes) : Agrees (log ++ (step policy registry call).2) key
      ((step policy registry call).1.entries.lookup key) := by
  cases call with
  | recordConnected changed time latency readOnly =>
    unfold step
    rw [lookup_recordConnected, append_nil]
    split_ifs with hkey
    · refine agrees_of_idle rfl ?_
      rw [hkey]
      exact (h changed).history
    · exact h key
  | recordFailure changed failure time detail now =>
    by_cases hkey : key = changed
    · rw [hkey]
      exact agrees_recordFailure (h changed) failure time detail now
    · rw [lookup_step_recordFailure, if_neg hkey]
      exact (h key).append_of fun event hevent heq => hkey (heq.symm.trans (key_of_failure hevent).1)
  | recordDisconnected changed =>
    unfold step
    rw [lookup_recordDisconnected, append_nil]
    split_ifs with hkey
    · cases hfound : registry.entries.lookup changed with
      | none =>
        rw [hkey, Option.map_none, ← hfound]
        exact h changed
      | some entry =>
        refine agrees_of_idle rfl ?_
        rw [hkey]
        exact (h changed).known entry hfound
    · exact h key
  | forget changed =>
    unfold step
    dsimp only
    rw [lookup_forget]
    split_ifs with hkey
    · rw [hkey]
      exact agrees_forget
    · refine (h key).append_of fun event hevent heq => hkey ?_
      rw [mem_singleton.mp hevent] at heq
      exact heq.symm
  | claimDueRetries now => exact agrees_claimDueRetries (h key) now

/-- A claim hands out what was armed, and hands it out once. -/
theorem step_claims (hlog : Each ClaimsArmed log) (call : Call) :
    Each ClaimsArmed (log ++ (step policy registry call).2) := by
  refine hlog.append fun before event after heq claimed hclaimed => ?_
  cases call with
  | recordConnected changed time latency readOnly =>
    exact absurd heq.symm (append_ne_nil_of_right_ne_nil _ (cons_ne_nil _ _))
  | recordFailure changed failure time detail now =>
    have hmem : event ∈ (step policy registry (.recordFailure changed failure time detail now)).2 :=
      heq ▸ mem_append_cons_self
    exact absurd hclaimed ((key_of_failure hmem).2 claimed)
  | recordDisconnected changed =>
    exact absurd heq.symm (append_ne_nil_of_right_ne_nil _ (cons_ne_nil _ _))
  | forget changed =>
    have hmem : event ∈ (step policy registry (.forget changed)).2 :=
      heq ▸ mem_append_cons_self
    rw [mem_singleton.mp hmem] at hclaimed
    cases hclaimed
  | claimDueRetries now =>
    obtain ⟨hnodup, hmem, _⟩ := claimDueRetries_spec registry now
    change (registry.claimDueRetries now).2.map Event.claimed = _ at heq
    obtain ⟨earlier, rest, hdue, rfl, hrest⟩ := map_eq_append_iff.mp heq
    obtain ⟨key, later, rfl, hkey, rfl⟩ := map_eq_cons_iff.mp hrest
    rw [hclaimed] at hkey
    obtain rfl := Event.claimed.inj hkey
    obtain ⟨entry, deadline, hfound, hdeadline⟩ :=
      retryDeadline_of_due ((hmem key).mp (hdue ▸ mem_append_cons_self))
    refine ⟨deadline, ?_⟩
    rw [lastTimer_append_of, ((h key).timed entry deadline hfound hdeadline).1]
    intro event hevent
    obtain ⟨other, hother, rfl⟩ := mem_map.mp hevent
    rw [hdue] at hnodup
    exact decide_eq_false ((nodup_append.mp hnodup).2.2 other hother key mem_cons_self)

end

/-- A failure that is none leaves the connection as it is, but without a deadline. -/
theorem awaited_recordFailure (h : Awaited log key (registry.entries.lookup key))
    (failure : RemoteConnectionFailure) (time : Int64) (detail : Bytes) (now : Int64)
    (hkeeps : KeepsTimer registry (.recordFailure key failure time detail now)) :
    Awaited (log ++ (step policy registry (.recordFailure key failure time detail now)).2) key
      ((step policy registry (.recordFailure key failure time detail now)).1.entries.lookup key) := by
  rw [lookup_step_recordFailure, if_pos rfl, step_recordFailure]
  intro entry hentry hreconnecting
  rw [← some.inj hentry] at hreconnecting ⊢
  by_cases hnone : failure = .none
  · subst hnone
    rw [applyRemoteFailure_none] at hreconnecting ⊢
    unfold Registry.entryAt at hreconnecting
    cases hfound : registry.entries.lookup key with
    | none =>
      rw [hfound] at hreconnecting
      cases hreconnecting
    | some found =>
      rw [hfound] at hreconnecting
      have hstate : registry.state key = some found.state := by
        unfold Registry.state
        rw [hfound]
        rfl
      have hidle : found.retryDeadline = none := by
        have hnone := hkeeps rfl found.state hstate hreconnecting
        unfold Registry.retryDeadline at hnone
        rw [hfound] at hnone
        exact hnone
      have hlast := (h found hfound hreconnecting).resolve_left (by rw [hidle]; exact nofun)
      rw [if_pos rfl, nil_append, Option.map_none, Option.map_none, Option.toList_none, append_nil]
      exact .inr hlast
  · have hretry := (applyRemoteFailure_retry hnone).1.mpr hreconnecting
    exact .inl (by rw [isSome_map]; exact hretry)

/-- A call that keeps the timers leaves nobody waiting for nothing. -/
theorem step_awaited (h : ∀ key, Awaited log key (registry.entries.lookup key)) (call : Call)
    (hkeeps : KeepsTimer registry call) (key : Bytes) :
    Awaited (log ++ (step policy registry call).2) key
      ((step policy registry call).1.entries.lookup key) := by
  cases call with
  | recordConnected changed time latency readOnly =>
    unfold step
    rw [lookup_recordConnected, append_nil]
    split_ifs
    · exact awaited_of_ne nofun
    · exact h key
  | recordFailure changed failure time detail now =>
    by_cases hkey : key = changed
    · rw [hkey]
      exact awaited_recordFailure (h changed) failure time detail now hkeeps
    · rw [lookup_step_recordFailure, if_neg hkey]
      exact (h key).append_of fun event hevent heq => hkey (heq.symm.trans (key_of_failure hevent).1)
  | recordDisconnected changed =>
    unfold step
    rw [lookup_recordDisconnected, append_nil]
    split_ifs
    · cases registry.entries.lookup changed with
      | none => exact awaited_none
      | some entry => exact awaited_of_ne nofun
    · exact h key
  | forget changed =>
    unfold step
    dsimp only
    rw [lookup_forget]
    split_ifs with hkey
    · exact awaited_none
    · refine (h key).append_of fun event hevent heq => hkey ?_
      rw [mem_singleton.mp hevent] at heq
      exact heq.symm
  | claimDueRetries now =>
    obtain ⟨hnodup, hmem, hlookup⟩ := claimDueRetries_spec registry now
    unfold step
    dsimp only
    rw [hlookup]
    by_cases hdue : dueAt now registry.entries key
    · intro entry _ _
      exact .inr (lastTimer_claims hnodup ((hmem key).mpr hdue))
    · rw [if_neg hdue]
      exact (h key).append_of fun event hevent heq => hdue (heq ▸ key_of_claim hevent)

end Steps

/-! ## Runs -/

section Runs

variable (policy : RemoteRetryPolicy) (calls : List Call)

theorem afterCalls_agrees :
    (∀ key, Agrees (afterCalls policy calls).2 key ((afterCalls policy calls).1.entries.lookup key)) ∧
      Each ClaimsArmed (afterCalls policy calls).2 := by
  have hfresh : ∀ key, (({} : Registry).entries.lookup key) = none := fun _ => rfl
  refine runAll_reports (fun (registry : Registry) past =>
    (∀ key, Agrees past.flatten key (registry.entries.lookup key)) ∧ Each ClaimsArmed past.flatten)
    ?_ [] calls ⟨fun key => ?_, each_nil _⟩
  swap
  · exact agrees_none rfl
  intro registry past call ⟨hagrees, hclaims⟩
  rw [flatten_append, flatten_singleton]
  exact ⟨step_agrees hagrees call, step_claims hagrees hclaims call⟩

theorem afterCalls_awaited (hkeeps : Meets (step policy) KeepsTimer {} calls) (key : Bytes) :
    Awaited (afterCalls policy calls).2 key ((afterCalls policy calls).1.entries.lookup key) := by
  have hfresh : ∀ key, (({} : Registry).entries.lookup key) = none := fun _ => rfl
  refine runAll_meets KeepsTimer (fun (registry : Registry) past =>
    ∀ key, Awaited past.flatten key (registry.entries.lookup key)) ?_ [] calls hkeeps
    (fun key => ?_) key
  swap
  · exact awaited_none
  intro registry past call hcall hawaited
  rw [flatten_append, flatten_singleton]
  exact step_awaited hawaited call hcall

theorem afterCalls_concat (call : Call) : afterCalls policy (calls ++ [call]) =
    ((step policy (afterCalls policy calls).1 call).1,
      (afterCalls policy calls).2 ++ (step policy (afterCalls policy calls).1 call).2) := by
  unfold afterCalls
  rw [runAll_append]
  dsimp only
  rw [flatten_append]
  refine Prod.ext rfl (congrArg (_ ++ ·) ?_)
  exact flatten_singleton

end Runs

/-- The deadlines and the histories are right after any calls, and waiting connections after those
    that keep their timers. -/
theorem bookkeeping_of (hagrees : ∀ key, Agrees log key (registry.entries.lookup key))
    (hclaims : Each ClaimsArmed log)
    (hawaited : ∀ key, Awaited log key (registry.entries.lookup key))
    : Bookkeeping registry log := by
  constructor
  · intro key state hstate hreconnecting
    obtain ⟨entry, hfound, rfl⟩ := map_eq_some_iff.mp hstate
    unfold Registry.retryDeadline
    rw [hfound]
    exact hawaited key entry hfound hreconnecting
  · exact hclaims
  · intro key state hstate hstatus
    obtain ⟨entry, hfound, rfl⟩ := map_eq_some_iff.mp hstate
    unfold Registry.retryDeadline
    rw [hfound]
    by_contra hdeadline
    obtain ⟨deadline, hsome⟩ := ne_none_iff_exists'.mp hdeadline
    rw [((hagrees key).timed entry deadline hfound hsome).2] at hstatus
    exact absurd hstatus (by decide)
  · intro key state hstate
    obtain ⟨entry, hfound, rfl⟩ := map_eq_some_iff.mp hstate
    have hhistory := (hagrees key).known entry hfound
    refine ⟨hhistory, ?_⟩
    rw [hhistory]
    exact length_take_le _ _

/-- A timer that is lost leaves its connection waiting for nothing. -/
theorem keepsTimer_of_bookkeeping (hagrees : ∀ key, Agrees log key (registry.entries.lookup key))
    (h : Bookkeeping (step policy registry call).1 (log ++ (step policy registry call).2)) :
    KeepsTimer registry call := by
  cases call with
  | recordConnected _ _ _ _ => trivial
  | recordDisconnected _ => trivial
  | forget _ => trivial
  | claimDueRetries _ => trivial
  | recordFailure key failure time detail now =>
    rintro rfl state hstate hreconnecting
    obtain ⟨entry, hfound, rfl⟩ := map_eq_some_iff.mp hstate
    unfold Registry.retryDeadline
    rw [hfound]
    by_contra hdeadline
    obtain ⟨deadline, hsome⟩ := ne_none_iff_exists'.mp hdeadline
    have harmed := ((hagrees key).timed entry deadline hfound hsome).1
    have hentryAt : registry.entryAt key = entry := by
      unfold Registry.entryAt
      rw [hfound]
      rfl
    -- What is left is the connection as it was, without its deadline.
    have hlookup : (step policy registry (.recordFailure key .none time detail now)).1.entries.lookup
        key = some { entry with retryDeadline := none } := by
      rw [lookup_step_recordFailure, if_pos rfl, applyRemoteFailure_none, hentryAt]
      rfl
    have hevents : (step policy registry (.recordFailure key .none time detail now)).2 = [] := by
      rw [step_recordFailure, applyRemoteFailure_none, if_pos rfl]
      rfl
    rw [hevents, append_nil] at h
    rcases h.waiting key entry.state (by unfold Registry.state; rw [hlookup]; rfl) hreconnecting with
      hagain | hclaimed
    · unfold Registry.retryDeadline at hagain
      rw [hlookup] at hagain
      cases hagain
    · rw [harmed] at hclaimed
      cases hclaimed

/-- The bookkeeping is right in every state of a run exactly when the run keeps the timers. -/
theorem bookkeeping_iff_keepsTimer (policy : RemoteRetryPolicy) (calls : List Call) :
    (∀ past, past <+: calls → Bookkeeping (afterCalls policy past).1 (afterCalls policy past).2) ↔
      Meets (step policy) KeepsTimer {} calls := by
  constructor
  · intro h
    induction calls using List.reverseRecOn with
    | nil => trivial
    | append_singleton calls call ih =>
      rw [meets_append]
      refine ⟨ih fun past hpast => h past (hpast.trans (prefix_append calls [call])), ?_, trivial⟩
      have hlast := h (calls ++ [call]) prefix_rfl
      rw [afterCalls_concat] at hlast
      exact keepsTimer_of_bookkeeping (afterCalls_agrees policy calls).1 hlast
  · rintro hkeeps past ⟨rest, rfl⟩
    obtain ⟨hagrees, hclaims⟩ := afterCalls_agrees policy past
    exact bookkeeping_of hagrees hclaims
      (afterCalls_awaited policy past ((meets_append KeepsTimer {} past rest).mp hkeeps).1)

/-- A failure that is none takes the timer of a connection that waits for its retry. -/
theorem retry_forgotten : ¬∀ policy calls,
    Bookkeeping (afterCalls policy calls).1 (afterCalls policy calls).2 := by
  intro h
  have := (h {} [.recordFailure [] .timedOut 0 [] 0, .recordFailure [] .none 0 [] 0]).waiting []
    ((afterCalls {} [.recordFailure [] .timedOut 0 [] 0, .recordFailure [] .none 0 [] 0]).1.entryAt
      []).state (by decide +kernel) (by decide +kernel)
  revert this
  decide +kernel

end WinCommander.Remote
