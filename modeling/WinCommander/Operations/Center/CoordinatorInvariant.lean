/-
  What every interleaving of the coordinator's calls on one operation keeps.

  One `Cancel` at most is between raising and lowering the flag. A terminal outcome that has
  taken effect is parked, or carried by a frame that will write it, or written; there is only
  one such outcome, the first. The condition `Harmless` leaves out the two steps that break
  this: a `Stop` that throws while an outcome is parked, and parking a second, different one.
-/
import WinCommander.Operations.Center.Reduction

namespace WinCommander.Operations.Center

open Library List Option Bool Frame Reduction
open Journal (OperationJournalState)

/-- A journal state that ends the operation. -/
def Terminal (s : OperationJournalState) : Prop := (operationCenterStateFromJournal s).isSome = true

instance (s : OperationJournalState) : Decidable (Terminal s) := inferInstanceAs (Decidable (_ = true))

def Report.outcome : Report → Option OperationRecordState
  | .reported s => operationCenterStateFromJournal s
  | .returned _ | .cancelled _ | .paused _ => none

/-- What the first terminal report maps to. -/
def outcomeOf (past : List (Option Report)) : Option OperationRecordState :=
  past.findSome? fun report => report.bind Report.outcome

namespace Frame

/-- Between raising `cancel_in_flight` and lowering it. -/
def inFlight : Frame → Bool
  | .cancel _ .stop | .cancel _ (.cancelling _) | .cancel _ (.settle _) => true
  | _ => false

/-- A `Cancel` that has taken the parked outcome and will retire the residency. -/
def replaying : Frame → Bool
  | .cancel _ (.replay _ _ _) | .cancel _ (.retire _) => true
  | _ => false

/-- The outcome that the frame has taken and will write. -/
def carries : Frame → Option OperationJournalState
  | .reduceDurableTerminal s (.held pc) => if pc = .lock then none else some s
  | .reduceDurableTerminal s (.bare pc) => if pc = .lock then none else some s
  | .cancel _ (.replay _ s _) => some s
  | _ => none

end Frame

section

variable (start : Bool) (c : Control) (record : OperationRecord) (outcome : Option OperationRecordState)

/-- The record ends, or will end, in the state of this outcome. -/
def Decided (s : OperationJournalState) : Prop :=
  record.state.isTerminal = true ∨ outcome = operationCenterStateFromJournal s

/-- What a frame relies on besides the reduction it is in; `start` tells whether there was a
  residency in the beginning. -/
def Frame.Placed : Frame → Prop
  | .reduceStarted _ => True
  | .reduceDurableTerminal s pc =>
    match pc with
    | .find => True
    | .gate | .check => start = true ∧ Terminal s
    | .held _ => start = true ∧ Terminal s ∧ c.cancelInFlight = false
    | .retire => start = true ∧ Terminal s ∧ record.state.isTerminal = true
    | .ungate => start = true ∧ Terminal s ∧
        (record.state.isTerminal = true ∧ c.registered = false ∨ c.deferredTerminal.isSome = true)
    | .bare _ => Terminal s ∧ c.registered = false
  | .cancel _ pc =>
    match pc with
    | .find | .residency _ => True
    | .gate | .check | .stop | .cancelling _ | .settle _ | .result _ | .ungate _ => start = true
    | .replay _ s _ => start = true ∧ Terminal s
    | .retire _ => start = true ∧ record.state.isTerminal = true
  | .setPaused _ _ pc =>
    match pc with
    | .find | .residency _ => True
    | .gate | .check | .act | .reduce _ | .result | .ungate _ => start = true

/-- What the reduction of a frame relies on. -/
structure Frame.Reducing (f : Frame) : Prop where
  planned : ∀ reduction revision nexts, f.reduction = some (reduction, .write revision nexts) →
    revision = record.revision ∧ nexts = reduction.nexts record
  applied : ∀ s, f.reduction = some (.terminal s, .unlock) → record.state.isTerminal = true
  decided : ∀ s, f.carries = some s → Decided record outcome s

/-- The outcome of a durable report is on its way or written. -/
def Noted (frames : List Frame) : Prop :=
  record.state.isTerminal = true ∧ c.registered = false ∨ c.deferredTerminal.isSome = true ∨
    ∃ f ∈ frames, f.replaying = true

structure Consistent (frames : List Frame) (past : List (Option Report)) : Prop where
  counted : frames.countP Frame.inFlight = if c.cancelInFlight then 1 else 0
  placed : ∀ f ∈ frames, f.Placed start c record
  reducing : ∀ f ∈ frames, f.Reducing record (outcomeOf past)
  parked : ∀ s, c.deferredTerminal = some s →
    c.cancelInFlight = true ∧ Terminal s ∧ Decided record (outcomeOf past) s
  registered : record.state.isTerminal = false → c.registered = start
  resident : c.registered = true → start = true
  outcome : record.state.isTerminal = true → outcomeOf past = some record.state
  pending : record.state.isTerminal = false → (outcomeOf past).isSome = true →
    c.deferredTerminal.isSome = true ∨ ∃ f ∈ frames, f.carries.isSome = true
  noted : ∀ s, Terminal s → some (.returned s) ∈ past → Noted c record frames

/-- A step that loses no terminal outcome. -/
def Harmless (c : Control) (f : Frame) (a : Answers) : Prop :=
  match f with
  | .cancel _ .stop => a.stopped = none → c.deferredTerminal = none
  | .reduceDurableTerminal s .check =>
    ∀ parked ∈ c.deferredTerminal,
      operationCenterStateFromJournal parked = operationCenterStateFromJournal s
  | _ => True

end

variable {id : OperationId} {start : Bool} {c c' : Control} {record record' : OperationRecord}
  {f : Frame} {others frames : List Frame} {past : List (Option Report)} {report : Option Report}
  {next : Option Frame} {a : Answers}

/-! ## What the other frames see -/

theorem outcomeOf_append (past : List (Option Report)) (report : Option Report) :
    outcomeOf (past ++ [report]) = (outcomeOf past).or (report.bind Report.outcome) := by
  unfold outcomeOf
  rw [List.findSome?_append, List.findSome?_singleton]

/-- What a step of the frame `f` leaves alone. -/
structure Guarantee (f : Frame) (c : Control) (record : OperationRecord) (c' : Control)
    (record' : OperationRecord) : Prop where
  terminal : record.state.isTerminal = true → record' = record
  retired : c.registered = false → c'.registered = false
  gate : f.holdsGate = false →
    c'.cancelInFlight = c.cancelInFlight ∧ c'.deferredTerminal = c.deferredTerminal
  reductionLock : f.holds .reductionLock = false → record' = record

theorem Guarantee.refl (f : Frame) (c : Control) (record : OperationRecord) :
    Guarantee f c record c record := ⟨fun _ => rfl, id, fun _ => ⟨rfl, rfl⟩, fun _ => rfl⟩

theorem Guarantee.terminal_mono (h : Guarantee f c record c' record')
    (hterminal : record.state.isTerminal) : record'.state.isTerminal := by
  rw [h.terminal hterminal]
  exact hterminal

variable {s : OperationJournalState} {g : Frame} {outcome : Option OperationRecordState}

theorem Decided.mono (hs : Terminal s) (h : Decided record (outcomeOf past) s)
    (hg : Guarantee f c record c' record') : Decided record' (outcomeOf (past ++ [report])) s := by
  obtain hterminal | houtcome := h
  · exact .inl (hg.terminal_mono hterminal)
  · obtain ⟨terminalState, hstate⟩ := isSome_iff_exists.mp hs
    refine .inr ?_
    rw [outcomeOf_append, houtcome, hstate]
    rfl

theorem Frame.terminal_of_carries (h : f.Placed start c record) (hcarries : f.carries = some s) :
    Terminal s := by
  unfold carries at hcarries
  split at hcarries
  · split at hcarries <;> cases hcarries
    exact h.2.1
  · split at hcarries <;> cases hcarries
    exact h.1
  · cases hcarries
    exact h.2
  · cases hcarries

theorem Frame.holds_of_reduction {reduction : Reduction} (h : f.reduction = some (reduction, pc))
    (hpc : pc ≠ .lock) : f.holds .reductionLock := by
  unfold holds
  rw [h]
  cases pc with
  | lock => exact absurd rfl hpc
  | find | write _ _ | unlock => rfl

theorem Frame.Placed.awaiting (h : g.Placed start c record) (hawaits : g.awaits) :
    g.Placed start c' record' := by
  unfold awaits at hawaits
  split at hawaits
  · exact h
  · exact h
  · cases hawaits

theorem Frame.Reducing.awaiting (hawaits : g.awaits) : g.Reducing record outcome := by
  unfold awaits at hawaits
  split at hawaits
  · exact ⟨fun _ _ _ h => (nomatch h), fun _ h => (nomatch h), fun _ h => (nomatch h)⟩
  · exact ⟨fun _ _ _ h => (nomatch h), fun _ h => (nomatch h), fun _ h => (nomatch h)⟩
  · cases hawaits

/-- Nobody else changes what the gate protects while a frame holds it. -/
theorem Frame.Placed.mono (h : g.Placed start c record) (hg : Guarantee f c record c' record')
    (hgate : g.holdsGate → f.holdsGate = false) : g.Placed start c' record' := by
  cases g with
  | reduceStarted pc => trivial
  | reduceDurableTerminal s pc =>
    cases pc with
    | find => trivial
    | gate | check => exact h
    | held pc =>
      refine ⟨h.1, h.2.1, ?_⟩
      rw [(hg.gate (hgate rfl)).1]
      exact h.2.2
    | retire => exact ⟨h.1, h.2.1, hg.terminal_mono h.2.2⟩
    | ungate =>
      refine ⟨h.1, h.2.1, ?_⟩
      rw [(hg.gate (hgate rfl)).2]
      exact h.2.2.imp (fun hdone => ⟨hg.terminal_mono hdone.1, hg.retired hdone.2⟩) id
    | bare pc => exact ⟨h.1, hg.retired h.2⟩
  | cancel revision pc =>
    cases pc with
    | retire accepted => exact ⟨h.1, hg.terminal_mono h.2⟩
    | find | residency _ => trivial
    | gate | check | stop | cancelling _ | settle _ | result _ | ungate _ | replay _ _ _ => exact h
  | setPaused revision intent pc =>
    cases pc with
    | find | residency _ => trivial
    | gate | check | act | reduce _ | result | ungate _ => exact h

theorem Frame.Reducing.mono (h : g.Reducing record (outcomeOf past))
    (hplaced : g.Placed start c record) (hg : Guarantee f c record c' record')
    (hlock : g.holds .reductionLock → f.holds .reductionLock = false) :
    g.Reducing record' (outcomeOf (past ++ [report])) := by
  refine ⟨?_, ?_, ?_⟩
  · intro reduction revision nexts hreduction
    have hheld := holds_of_reduction hreduction (by intro heq; cases heq)
    rw [hg.reductionLock (hlock hheld)]
    exact h.planned reduction revision nexts hreduction
  · intro s hreduction
    exact hg.terminal_mono (h.applied s hreduction)
  · intro s hcarries
    exact (h.decided s hcarries).mono (terminal_of_carries hplaced hcarries) hg

/-! ## One step of a frame -/

theorem countP_next (p : Frame → Bool) (next : Option Frame) (others : List Frame) :
    (next.toList ++ others).countP p = (if next.any p = true then 1 else 0) + others.countP p := by
  rw [countP_append]
  cases next with
  | none => rfl
  | some f' => rw [toList_some, countP_singleton, any_some]

theorem exists_next (q : Frame → Bool) (next : Option Frame)
    (h : ∃ g ∈ f :: others, q g) (hf : q f → next.any q) : ∃ g ∈ next.toList ++ others, q g := by
  obtain ⟨g, hg, hp⟩ := h
  obtain rfl | hg := mem_cons.mp hg
  · obtain ⟨f', hf', hq'⟩ := (any_eq_true q next).mp (hf hp)
    exact ⟨f', mem_append_left _ (mem_toList.mpr hf'), hq'⟩
  · exact ⟨g, mem_append_right _ hg, hp⟩

theorem mem_next (h : g ∈ next.toList ++ others) : g ∈ next ∨ g ∈ others :=
  (mem_append.mp h).imp mem_toList.mp id

section
variable (h : Consistent start c record (f :: others) past)
include h

theorem Consistent.others_placed (next : Option Frame)
    (hapart : ∀ g ∈ others, (coordinator id).Apart f g) (hg : Guarantee f c record c' record')
    (hnext : ∀ f' ∈ next, f'.Placed start c' record') :
    ∀ g ∈ next.toList ++ others, g.Placed start c' record' := by
  intro g hmem
  obtain hmem | hmem := mem_next hmem
  · exact hnext g hmem
  · have hold := h.placed g (mem_cons_of_mem _ hmem)
    obtain hawaits | hfree := hapart g hmem
    · exact hold.awaiting hawaits
    · refine hold.mono hg fun hheld => ?_
      by_contra hf
      rw [not_eq_false] at hf
      have hnot : g.holdsGate = false := hfree .cancelGate (.inl hf)
      rw [hnot] at hheld
      cases hheld

theorem Consistent.others_reducing (next : Option Frame)
    (hapart : ∀ g ∈ others, (coordinator id).Apart f g) (hg : Guarantee f c record c' record')
    (hnext : ∀ f' ∈ next, f'.Reducing record' (outcomeOf (past ++ [report]))) :
    ∀ g ∈ next.toList ++ others, g.Reducing record' (outcomeOf (past ++ [report])) := by
  intro g hmem
  obtain hmem | hmem := mem_next hmem
  · exact hnext g hmem
  · have hmem' := mem_cons_of_mem f hmem
    obtain hawaits | hfree := hapart g hmem
    · exact Reducing.awaiting hawaits
    · refine (h.reducing g hmem').mono (h.placed g hmem') hg fun hheld => ?_
      by_contra hf
      rw [not_eq_false] at hf
      have hnot : g.holds .reductionLock = false := hfree .reductionLock (.inl hf)
      rw [hnot] at hheld
      cases hheld

end

/-- What a step that changes nothing but its own frame has to show. -/
structure Quiet (start : Bool) (c : Control) (record : OperationRecord)
    (outcome : Option OperationRecordState) (f : Frame) (next : Option Frame)
    (report : Option Report) : Prop where
  silent : report.bind Report.outcome = none
  inFlight : next.any Frame.inFlight = f.inFlight
  replaying : f.replaying = true → next.any Frame.replaying = true
  carries : f.carries.isSome = true →
    record.state.isTerminal = true ∨ next.any (fun f' => f'.carries.isSome) = true
  placed : ∀ f' ∈ next, f'.Placed start c record
  reducing : ∀ f' ∈ next, f'.Reducing record outcome
  returned : ∀ s, Terminal s → report = some (.returned s) →
    record.state.isTerminal = true ∧ c.registered = false ∨ c.deferredTerminal.isSome = true

theorem Consistent.quiet (h : Consistent start c record (f :: others) past) (next : Option Frame)
    (hapart : ∀ g ∈ others, (coordinator id).Apart f g)
    (hquiet : Quiet start c record (outcomeOf past) f next report) :
    Consistent start c record (next.toList ++ others) (past ++ [report]) := by
  have houtcome : outcomeOf (past ++ [report]) = outcomeOf past := by
    rw [outcomeOf_append, hquiet.silent, or_none]
  refine ⟨?_, h.others_placed next hapart (.refl f c record) hquiet.placed, ?_, ?_,
    h.registered, h.resident, ?_, ?_, ?_⟩
  · rw [countP_next, hquiet.inFlight, ← h.counted, countP_cons, Nat.add_comm]
  · refine h.others_reducing next hapart (.refl f c record) ?_
    rw [houtcome]
    exact hquiet.reducing
  · rw [houtcome]
    exact h.parked
  · rw [houtcome]
    exact h.outcome
  · rw [houtcome]
    intro hongoing hsome
    refine (h.pending hongoing hsome).imp_right fun hex => exists_next (fun f => f.carries.isSome) _ hex fun hf => ?_
    refine (hquiet.carries hf).resolve_left ?_
    rw [hongoing]
    exact Bool.false_ne_true
  · intro s hs hmem
    obtain hmem | hmem := mem_append.mp hmem
    · obtain hdone | hparked | hex := h.noted s hs hmem
      · exact .inl hdone
      · exact .inr (.inl hparked)
      · exact .inr (.inr (exists_next Frame.replaying _ hex hquiet.replaying))
    · obtain hdone | hparked := hquiet.returned s hs (mem_singleton.mp hmem).symm
      · exact .inl hdone
      · exact .inr (.inl hparked)

/-! ## Reductions -/

/-- A call that runs a reduction in these frames. -/
structure Hosts (inside : ReducePc → Frame) (reduction : Reduction) : Prop where
  runs : ∀ pc, (inside pc).reduction = some (reduction, pc)
  inFlight : ∀ pc pc', (inside pc').inFlight = (inside pc).inFlight
  replaying : ∀ pc pc', (inside pc').replaying = (inside pc).replaying
  carries : ∀ {pc s}, (inside pc).carries = some s → reduction = .terminal s
  carried : ∀ {pc s}, reduction = .terminal s → pc ≠ .lock → (inside pc).carries = some s
  placed : ∀ {pc start c record} pc' c' record', c'.cancelInFlight = c.cancelInFlight →
    c'.registered = c.registered → (inside pc).Placed start c record →
    (inside pc').Placed start c' record'

theorem hosts_reduceStarted : Hosts .reduceStarted .started :=
  ⟨fun _ => rfl, fun _ _ => rfl, fun _ _ => rfl, fun h => (nomatch h), fun h => (nomatch h),
    fun _ _ _ _ _ h => h⟩

theorem hosts_held (s : OperationJournalState) :
    Hosts (fun pc => .reduceDurableTerminal s (.held pc)) (.terminal s) := by
  refine ⟨fun _ => rfl, fun _ _ => rfl, fun _ _ => rfl, ?_, ?_, ?_⟩
  · intro pc s' h
    simp only [carries] at h
    split at h <;> cases h
    rfl
  · intro pc s' h hpc
    cases h
    simp [carries, hpc]
  · intro pc start c record pc' c' record' hflag _ h
    exact ⟨h.1, h.2.1, hflag.trans h.2.2⟩

theorem hosts_bare (s : OperationJournalState) :
    Hosts (fun pc => .reduceDurableTerminal s (.bare pc)) (.terminal s) := by
  refine ⟨fun _ => rfl, fun _ _ => rfl, fun _ _ => rfl, ?_, ?_, ?_⟩
  · intro pc s' h
    simp only [carries] at h
    split at h <;> cases h
    rfl
  · intro pc s' h hpc
    cases h
    simp [carries, hpc]
  · intro pc start c record pc' c' record' _ hregistered h
    exact ⟨h.1, hregistered.trans h.2⟩

theorem hosts_cancelling (revision : UInt64) :
    Hosts (fun pc => .cancel revision (.cancelling pc)) .cancelling :=
  ⟨fun _ => rfl, fun _ _ => rfl, fun _ _ => rfl, fun h => (nomatch h), fun h => (nomatch h),
    fun _ _ _ _ _ h => h⟩

theorem hosts_replay (revision : UInt64) (accepted : Bool) (s : OperationJournalState) :
    Hosts (fun pc => .cancel revision (.replay accepted s pc)) (.terminal s) := by
  refine ⟨fun _ => rfl, fun _ _ => rfl, fun _ _ => rfl, ?_, ?_, fun _ _ _ _ _ h => h⟩
  · intro pc s' h
    cases h
    rfl
  · intro pc s' h _
    cases h
    rfl

theorem hosts_paused (revision : UInt64) (intent : OperationCenterPauseIntent) :
    Hosts (fun pc => .setPaused revision intent (.reduce pc)) (.paused (intent = .pause)) :=
  ⟨fun _ => rfl, fun _ _ => rfl, fun _ _ => rfl, fun h => (nomatch h), fun h => (nomatch h),
    fun _ _ _ _ _ h => h⟩

variable {inside : ReducePc → Frame} {reduction : Reduction} {pc pc' : ReducePc}
  {after : Option Frame}

section
variable (hosts : Hosts inside reduction)
include hosts

theorem Hosts.quiet (hplaced : (inside pc).Placed start c record) (hpc' : pc' ≠ .lock)
    (hdecided : ∀ s, reduction = .terminal s → Decided record (outcomeOf past) s)
    (hplanned : ∀ revision nexts, pc' = .write revision nexts → revision = record.revision ∧ nexts = reduction.nexts record)
    (happlied : pc' = .unlock → ∀ s, reduction = .terminal s → record.state.isTerminal) :
    Quiet start c record (outcomeOf past) (inside pc) (some (inside pc')) none := by
  refine ⟨rfl, hosts.inFlight pc pc', ?_, ?_, ?_, ?_, fun _ _ h => (nomatch h)⟩
  · intro h
    exact (hosts.replaying pc pc').trans h
  · intro h
    obtain ⟨s, hs⟩ := isSome_iff_exists.mp h
    refine .inr ?_
    rw [any_some, hosts.carried (hosts.carries hs) hpc']
    rfl
  · rintro f' ⟨⟩
    exact hosts.placed pc' c record rfl rfl hplaced
  · rintro f' ⟨⟩
    refine ⟨?_, ?_, fun s hs => hdecided s (hosts.carries hs)⟩
    · intro reduction' revision nexts h
      rw [hosts.runs] at h
      cases h
      exact hplanned revision nexts rfl
    · intro s h
      rw [hosts.runs] at h
      cases h
      exact happlied rfl s rfl

/-- A transition of the record. -/
theorem Hosts.write
    (h : Consistent start c record (inside (.write revision (n :: rest)) :: others) past)
    (hapart : ∀ g ∈ others, (coordinator id).Apart (inside (.write revision (n :: rest))) g)
    (hallowed : record.state.allows n) :
    Consistent start { c with model := model } (transitioned record n now)
      (inside (.write (record.revision + 1) rest) :: others) (past ++ [none]) := by
  have hongoing := OperationRecordState.not_terminal_of_allows hallowed
  have hself := h.reducing _ mem_cons_self
  obtain ⟨-, hnexts⟩ := hself.planned _ _ _ (hosts.runs _)
  have hdecided : ∀ s, reduction = .terminal s → Decided record (outcomeOf past) s :=
    fun s hs => hself.decided s (hosts.carried hs (by intro heq; cases heq))
  have houtcome : outcomeOf (past ++ [none]) = outcomeOf past := by
    rw [outcomeOf_append]
    exact or_none
  have hg : Guarantee (inside (.write revision (n :: rest))) c record { c with model := model }
      (transitioned record n now) := by
    refine ⟨?_, fun h => h, fun _ => ⟨rfl, rfl⟩, ?_⟩
    · rw [hongoing]
      exact fun h => (nomatch h)
    · rw [holds_of_reduction (hosts.runs _) (by intro heq; cases heq)]
      exact fun h => (nomatch h)
  have hdecided' : ∀ s, Terminal s → Decided record (outcomeOf past) s →
      Decided (transitioned record n now) (outcomeOf (past ++ [none])) s :=
    fun s hs hdec => hdec.mono hs hg
  refine ⟨?_, ?_, ?_, ?_, fun _ => h.registered hongoing, h.resident, ?_, ?_, ?_⟩
  · rw [← h.counted, countP_cons, countP_cons, hosts.inFlight]
  · refine h.others_placed (some _) hapart hg ?_
    rintro f' ⟨⟩
    exact hosts.placed _ _ _ rfl rfl (h.placed _ mem_cons_self)
  · refine h.others_reducing (some _) hapart hg ?_
    rintro f' ⟨⟩
    refine ⟨?_, ?_, ?_⟩
    · intro reduction' revision' nexts heq
      rw [hosts.runs] at heq
      cases heq
      exact ⟨rfl, (nexts_transitioned hnexts.symm now).symm⟩
    · intro s heq
      rw [hosts.runs] at heq
      cases heq
    · intro s hcarries
      have hs := hosts.carries hcarries
      refine hdecided' s ?_ (hdecided s hs)
      exact terminal_of_carries (h.placed _ mem_cons_self)
        (hosts.carried hs (by intro heq; cases heq))
  · intro s hs
    obtain ⟨hflag, hterminal, hdec⟩ := h.parked s hs
    exact ⟨hflag, hterminal, hdecided' s hterminal hdec⟩
  · intro hended
    obtain ⟨s, hs, hstate⟩ := terminal_of_nexts hnexts.symm hended
    rw [houtcome]
    obtain hterminal | hsame := hdecided s hs
    · rw [hongoing] at hterminal
      cases hterminal
    · exact hsame.trans hstate
  · rw [houtcome]
    intro _ hsome
    refine (h.pending hongoing hsome).imp_right fun hex => ?_
    refine exists_next (fun f => f.carries.isSome) (some _) hex fun hf => ?_
    obtain ⟨s, hs⟩ := isSome_iff_exists.mp hf
    rw [any_some, hosts.carried (hosts.carries hs) (by intro heq; cases heq)]
    rfl
  · intro s hs hmem
    obtain hmem | hmem := mem_append.mp hmem
    · obtain hdone | hparked | hex := h.noted s hs hmem
      · rw [hongoing] at hdone
        cases hdone.1
      · exact .inr (.inl hparked)
      · exact .inr (.inr (exists_next Frame.replaying (some _) hex fun hf =>
          (hosts.replaying _ _).trans hf))
    · cases mem_singleton.mp hmem

/-- A step of a reduction; `hfirst` and `hlast` are about taking and leaving the lock. -/
theorem Hosts.advance (hfind : c.model.find id = some record)
    (h : Consistent start c record (inside pc :: others) past)
    (hapart : ∀ g ∈ others, (coordinator id).Apart (inside pc) g)
    (hfirst : pc = .lock → Consistent start c record (inside .find :: others) (past ++ [report]))
    (hlast : pc = .unlock → Consistent start c record (after.toList ++ others) (past ++ [report]))
    (hsilent : pc ≠ .lock → pc ≠ .unlock → report = none) :
    ∃ record', (reducing id c a reduction pc inside after).1.model.find id = some record' ∧
      Consistent start (reducing id c a reduction pc inside after).1 record'
        ((reducing id c a reduction pc inside after).2.toList ++ others) (past ++ [report]) := by
  have hself := h.reducing _ mem_cons_self
  have hplaced := h.placed _ mem_cons_self
  have hquiet : ∀ pc', pc ≠ .lock → pc' ≠ .lock → report = none →
      (∀ revision nexts, pc' = .write revision nexts →
        revision = record.revision ∧ nexts = reduction.nexts record) →
      (pc' = .unlock → ∀ s, reduction = .terminal s → record.state.isTerminal) →
      Consistent start c record (inside pc' :: others) (past ++ [report]) := by
    intro pc' hpc hpc' hreport hplanned happlied
    rw [hreport]
    exact h.quiet (some (inside pc')) hapart (hosts.quiet hplaced hpc'
      (fun s hs => hself.decided s (hosts.carried hs hpc)) hplanned happlied)
  cases pc with
  | lock => exact ⟨record, hfind, hfirst rfl⟩
  | unlock => exact ⟨record, hfind, hlast rfl⟩
  | find =>
    have hstep : reducing id c a reduction .find inside after =
        (c, some (inside (.write record.revision (reduction.nexts record)))) := by
      simp only [reducing, Reduction.step, hfind]
      rfl
    rw [hstep]
    refine ⟨record, hfind, hquiet _ (by decide) (by intro heq; cases heq)
      (hsilent (by decide) (by decide)) ?_ ?_⟩
    · rintro revision nexts ⟨⟩
      exact ⟨rfl, rfl⟩
    · intro heq
      cases heq
  | write revision nexts =>
    have hreport := hsilent (by intro heq; cases heq) (by intro heq; cases heq)
    obtain ⟨hrevision, hnexts⟩ := hself.planned _ _ _ (hosts.runs _)
    cases nexts with
    | nil =>
      refine ⟨record, hfind, hquiet _ (by intro heq; cases heq) (by decide) hreport ?_ ?_⟩
      · intro revision nexts heq
        cases heq
      · rintro - s rfl
        have hs := terminal_of_carries hplaced (hosts.carried rfl (by intro heq; cases heq))
        exact terminal_of_nexts_nil hnexts.symm hs
    | cons n rest =>
      subst hrevision
      by_cases hallowed : record.state.allows n
      · obtain ⟨model, htransition, hfind'⟩ := transition_recorded hfind hallowed a.now
        have hstep : reducing id c a reduction (.write record.revision (n :: rest)) inside after =
            ({ c with model := model }, some (inside (.write (record.revision + 1) rest))) := by
          simp only [reducing, Reduction.step, htransition]
          rfl
        rw [hstep, hreport]
        refine ⟨_, hfind', ?_⟩
        exact hosts.write h hapart hallowed
      · obtain ⟨error, htransition⟩ :=
          transition_failed hfind record.revision (fun hcond => hallowed hcond.2) a.now
        have hstep : reducing id c a reduction (.write record.revision (n :: rest)) inside after =
            (c, some (inside .unlock)) := by
          simp only [reducing, Reduction.step, htransition]
          rfl
        rw [hstep]
        refine ⟨record, hfind, hquiet _ (by intro heq; cases heq) (by decide) hreport ?_ ?_⟩
        · intro revision nexts heq
          cases heq
        · rintro - s rfl
          exact absurd (allows_of_terminalNexts hnexts.symm) hallowed

end

/-! ## Taking the first outcome -/

theorem Frame.holdsGate_of_carries (h : g.carries = some s) :
    g.holdsGate ∨ ∃ pc, g = .reduceDurableTerminal s (.bare pc) ∧ pc ≠ .lock := by
  unfold carries at h
  split at h
  · exact .inl rfl
  · split at h
    · cases h
    · next pc hpc =>
        cases h
        exact .inr ⟨pc, rfl, hpc⟩
  · exact .inl rfl
  · cases h

theorem Frame.carries_of_awaits (h : g.awaits) : g.carries = none := by
  unfold awaits at h
  split at h
  · rfl
  · rfl
  · cases h

theorem Frame.Placed.started (h : g.Placed start c record) (hgate : g.holdsGate) : start := by
  cases g with
  | reduceStarted pc => cases hgate
  | reduceDurableTerminal s pc =>
    cases pc with
    | find | gate | bare _ => cases hgate
    | check | held _ | retire | ungate => exact h.1
  | cancel revision pc =>
    cases pc with
    | find | residency _ | gate => cases hgate
    | check | stop | cancelling _ | settle _ | result _ | ungate _ => exact h
    | replay _ _ _ | retire _ => exact h.1
  | setPaused revision intent pc =>
    cases pc with
    | find | residency _ | gate => cases hgate
    | check | act | reduce _ | result | ungate _ => exact h

theorem Frame.holdsGate_of_inFlight (h : g.inFlight) : g.holdsGate := by
  unfold inFlight at h
  split at h
  · rfl
  · rfl
  · rfl
  · cases h

/-- Under the gate, an outcome that is still to be written is parked: nobody else has it. -/
theorem Consistent.first_of_gate (h : Consistent start c record (f :: others) past)
    (hapart : ∀ g ∈ others, (coordinator id).Apart f g) (hgate : f.holdsGate)
    (hcarries : f.carries = none) (hdeferred : c.deferredTerminal = none)
    (hongoing : record.state.isTerminal = false) : outcomeOf past = none := by
  by_contra hne
  obtain hparked | ⟨g, hg, hgcarries⟩ := h.pending hongoing (isSome_iff_ne_none.mpr hne)
  · rw [hdeferred] at hparked
    cases hparked
  · obtain ⟨s, hs⟩ := isSome_iff_exists.mp hgcarries
    obtain rfl | hg := mem_cons.mp hg
    · rw [hcarries] at hs
      cases hs
    · obtain hawaits | hfree := hapart g hg
      · rw [carries_of_awaits hawaits] at hs
        cases hs
      · have hnot : g.holdsGate = false := hfree .cancelGate (.inl hgate)
        obtain hheld | ⟨pc, rfl, hpc⟩ := holdsGate_of_carries hs
        · rw [hnot] at hheld
          cases hheld
        · have hbare := (h.placed _ (mem_cons_of_mem _ hg)).2
          rw [h.registered hongoing, (h.placed f mem_cons_self).started hgate] at hbare
          cases hbare

/-- Without a residency nobody is under the gate, and the reduction lock is free. -/
theorem Consistent.first_of_bare
    (h : Consistent start c record (.reduceDurableTerminal s (.bare .lock) :: others) past)
    (hapart : ∀ g ∈ others, (coordinator id).Apart (.reduceDurableTerminal s (.bare .lock)) g)
    (hongoing : record.state.isTerminal = false) : outcomeOf past = none := by
  have hstart : start = false := by
    rw [← h.registered hongoing]
    exact (h.placed _ mem_cons_self).2
  have hgates : ∀ g ∈ reduceDurableTerminal s (.bare .lock) :: others, g.holdsGate = false := by
    intro g hg
    by_contra hheld
    rw [not_eq_false] at hheld
    have hstarted := (h.placed g hg).started hheld
    rw [hstart] at hstarted
    cases hstarted
  by_contra hne
  obtain hparked | ⟨g, hg, hgcarries⟩ := h.pending hongoing (isSome_iff_ne_none.mpr hne)
  · obtain ⟨s', hs'⟩ := isSome_iff_exists.mp hparked
    have hflag := (h.parked s' hs').1
    have hcount := h.counted
    rw [hflag, if_pos rfl] at hcount
    have hpos : 0 < (reduceDurableTerminal s (.bare .lock) :: others).countP inFlight := by
      omega
    obtain ⟨g, hg, hflying⟩ := countP_pos_iff.mp hpos
    have hheld := holdsGate_of_inFlight hflying
    rw [hgates g hg] at hheld
    cases hheld
  · obtain ⟨s', hs'⟩ := isSome_iff_exists.mp hgcarries
    obtain hheld | ⟨pc, rfl, hpc⟩ := holdsGate_of_carries hs'
    · rw [hgates g hg] at hheld
      cases hheld
    · obtain heq | hg := mem_cons.mp hg
      · cases heq
        exact hpc rfl
      · obtain hawaits | hfree := hapart _ hg
        · cases hawaits
        · have hnot := hfree .reductionLock (.inr rfl)
          have hheld : (reduceDurableTerminal s' (.bare pc)).holds .reductionLock :=
            holds_of_reduction rfl hpc
          exact absurd (hheld.symm.trans hnot) (by decide)

theorem Decided.first (hfirst : record.state.isTerminal = false → outcomeOf past = none) :
    Decided record (outcomeOf (past ++ [some (.reported s)])) s := by
  cases hterminal : record.state.isTerminal with
  | true => exact .inl hterminal
  | false =>
    refine .inr ?_
    rw [outcomeOf_append, hfirst hterminal]
    rfl

/-- The reduction of a durable outcome gets the lock. -/
theorem Hosts.reported (hosts : Hosts inside (.terminal s))
    (h : Consistent start c record (inside .lock :: others) past)
    (hapart : ∀ g ∈ others, (coordinator id).Apart (inside .lock) g)
    (hfirst : record.state.isTerminal = false → outcomeOf past = none) :
    Consistent start c record (inside .find :: others) (past ++ [some (.reported s)]) := by
  have hg := Guarantee.refl (inside .lock) c record
  refine ⟨?_, ?_, ?_, ?_, h.registered, h.resident, ?_, ?_, ?_⟩
  · rw [← h.counted, countP_cons, countP_cons, hosts.inFlight]
  · refine h.others_placed (some _) hapart hg ?_
    rintro f' ⟨⟩
    exact hosts.placed _ _ _ rfl rfl (h.placed _ mem_cons_self)
  · refine h.others_reducing (some _) hapart hg ?_
    rintro f' ⟨⟩
    refine ⟨?_, ?_, ?_⟩
    · intro reduction revision nexts heq
      rw [hosts.runs] at heq
      cases heq
    · intro s' heq
      rw [hosts.runs] at heq
      cases heq
    · intro s' hcarries
      cases hosts.carries hcarries
      exact Decided.first hfirst
  · intro s' hs'
    obtain ⟨hflag, hterminal, hdecided⟩ := h.parked s' hs'
    exact ⟨hflag, hterminal, hdecided.mono hterminal hg⟩
  · intro hterminal
    rw [outcomeOf_append, h.outcome hterminal]
    rfl
  · intro _ _
    refine .inr ⟨inside .find, mem_cons_self, ?_⟩
    rw [hosts.carried rfl (by decide)]
    rfl
  · intro s' hs' hmem
    obtain hmem | hmem := mem_append.mp hmem
    · obtain hdone | hparked | hex := h.noted s' hs' hmem
      · exact .inl hdone
      · exact .inr (.inl hparked)
      · exact .inr (.inr (exists_next Frame.replaying (some _) hex fun hf =>
          (hosts.replaying _ _).trans hf))
    · cases mem_singleton.mp hmem

/-! ## What the gate protects -/

theorem outcomeOf_silent (past : List (Option Report)) : outcomeOf (past ++ [none]) = outcomeOf past := by
  rw [outcomeOf_append]
  exact or_none

theorem flagCount (h : Consistent start c record (f :: others) past) (hf : f.inFlight) :
    c.cancelInFlight ∧ others.countP inFlight = 0 := by
  have hcount := h.counted
  rw [countP_cons_of_pos hf] at hcount
  split at hcount
  · next hflag => exact ⟨hflag, by omega⟩
  · cases hcount

/-- Frames that neither carry an outcome nor are in a reduction. -/
structure Frame.Plain (f : Frame) : Prop where
  reduction : ∀ reduction pc, f.reduction = some (reduction, pc) → pc = .lock
  carries : f.carries = none

theorem Frame.Plain.reducing (h : f.Plain) : f.Reducing record outcome := by
  refine ⟨?_, ?_, ?_⟩
  · intro reduction revision nexts heq
    cases h.reduction _ _ heq
  · intro s heq
    cases h.reduction _ _ heq
  · intro s heq
    rw [h.carries] at heq
    cases heq

theorem quiet_plain (hf : f.carries = none) (hreplaying : f.replaying = false)
    (hinFlight : next.any inFlight = f.inFlight)
    (hplaced : ∀ f' ∈ next, f'.Placed start c record) (hplain : ∀ f' ∈ next, f'.Plain)
    (hsilent : report.bind Report.outcome = none) (hreturned : ∀ s, report ≠ some (.returned s)) :
    Quiet start c record outcome f next report := by
  refine ⟨hsilent, hinFlight, ?_, ?_, hplaced, fun f' hf' => (hplain f' hf').reducing, ?_⟩
  · rw [hreplaying]
    exact fun h => (nomatch h)
  · rw [hf]
    exact fun h => (nomatch h)
  · exact fun s _ hreport => absurd hreport (hreturned s)

/-- The residency is retired after the record has ended. -/
theorem Consistent.retire (h : Consistent start c record (f :: others) past)
    (hapart : ∀ g ∈ others, (coordinator id).Apart f g) (hterminal : record.state.isTerminal)
    (hinFlight : f'.inFlight = f.inFlight)
    (hplaced : f'.Placed start { c with registered := false } record) (hplain : f'.Plain) :
    Consistent start { c with registered := false } record (f' :: others) (past ++ [none]) := by
  have hg : Guarantee f c record { c with registered := false } record :=
    ⟨fun _ => rfl, fun _ => rfl, fun _ => ⟨rfl, rfl⟩, fun _ => rfl⟩
  refine ⟨?_, ?_, ?_, ?_, ?_, fun h => (nomatch h), ?_, ?_, ?_⟩
  · rw [← h.counted, countP_cons, countP_cons, hinFlight]
  · refine h.others_placed (some _) hapart hg ?_
    rintro f' ⟨⟩
    exact hplaced
  · refine h.others_reducing (some _) hapart hg ?_
    rintro f' ⟨⟩
    exact hplain.reducing
  · intro s hs
    obtain ⟨hflag, hterm, hdecided⟩ := h.parked s hs
    exact ⟨hflag, hterm, hdecided.mono hterm hg⟩
  · rw [hterminal]
    exact fun h => (nomatch h)
  · rw [outcomeOf_silent]
    exact h.outcome
  · rw [hterminal]
    exact fun h => (nomatch h)
  · exact fun s _ _ => .inl ⟨hterminal, rfl⟩

/-- A `Cancel` raises the flag. -/
theorem Consistent.raise (h : Consistent start c record (.cancel revision .check :: others) past)
    (hapart : ∀ g ∈ others, (coordinator id).Apart (.cancel revision .check) g)
    (hflag : c.cancelInFlight = false) :
    Consistent start { c with cancelInFlight := true } record (.cancel revision .stop :: others)
      (past ++ [none]) := by
  have hg : Guarantee (.cancel revision .check) c record { c with cancelInFlight := true } record :=
    ⟨fun _ => rfl, fun h => h, fun h => (nomatch h), fun _ => rfl⟩
  have hcount := h.counted
  rw [hflag] at hcount
  refine ⟨?_, ?_, ?_, ?_, h.registered, h.resident, ?_, ?_, ?_⟩
  · rw [countP_cons_of_pos rfl]
    exact congrArg (· + 1) hcount
  · refine h.others_placed (some _) hapart hg ?_
    rintro f' ⟨⟩
    exact h.placed _ mem_cons_self
  · refine h.others_reducing (some _) hapart hg ?_
    rintro f' ⟨⟩
    exact Reducing.awaiting rfl
  · intro s hs
    have hraised := (h.parked s hs).1
    rw [hflag] at hraised
    cases hraised
  · rw [outcomeOf_silent]
    exact h.outcome
  · rw [outcomeOf_silent]
    intro hongoing hsome
    refine (h.pending hongoing hsome).imp_right fun hex => ?_
    exact exists_next (fun f => f.carries.isSome) (some _) hex fun hf => (nomatch hf)
  · intro s hs hmem
    obtain hmem | hmem := mem_append.mp hmem
    · refine (h.noted s hs hmem).imp_right fun hrest => hrest.imp_right fun hex => ?_
      exact exists_next Frame.replaying (some _) hex fun hf => (nomatch hf)
    · cases mem_singleton.mp hmem

/-- A `Cancel` lowers the flag; a parked outcome goes on to the frame that replays it. -/
theorem Consistent.lower {pc pc' : CancelPc}
    (h : Consistent start c record (.cancel revision pc :: others) past)
    (hapart : ∀ g ∈ others, (coordinator id).Apart (.cancel revision pc) g)
    (hpc : (cancel revision pc).inFlight) (hpc' : (cancel revision pc').inFlight = false)
    (hcarries : (cancel revision pc).carries = none)
    (hreplaying : (cancel revision pc).replaying = false)
    (hplaced : (cancel revision pc').Placed start { c with cancelInFlight := false, deferredTerminal := none } record)
    (hreducing : (cancel revision pc').Reducing record (outcomeOf past))
    (htaken : c.deferredTerminal = none ∨ (cancel revision pc').carries = c.deferredTerminal ∧ (cancel revision pc').replaying) :
    Consistent start { c with cancelInFlight := false, deferredTerminal := none } record
      (.cancel revision pc' :: others) (past ++ [none]) := by
  have hg : Guarantee (.cancel revision pc) c record
      { c with cancelInFlight := false, deferredTerminal := none } record := by
    refine ⟨fun _ => rfl, fun h => h, ?_, fun _ => rfl⟩
    rw [holdsGate_of_inFlight hpc]
    exact fun h => (nomatch h)
  obtain ⟨hflag, hcount⟩ := flagCount h hpc
  refine ⟨?_, ?_, ?_, fun s hs => (nomatch hs), h.registered, h.resident, ?_, ?_, ?_⟩
  · rw [countP_cons_of_neg (by simp [hpc']), hcount]
    rfl
  · refine h.others_placed (some _) hapart hg ?_
    rintro f' ⟨⟩
    exact hplaced
  · refine h.others_reducing (some _) hapart hg ?_
    rintro f' ⟨⟩
    rw [outcomeOf_silent]
    exact hreducing
  · rw [outcomeOf_silent]
    exact h.outcome
  · rw [outcomeOf_silent]
    intro hongoing hsome
    refine .inr ?_
    obtain hparked | hex := h.pending hongoing hsome
    · obtain hnone | ⟨htaken, -⟩ := htaken
      · rw [hnone] at hparked
        cases hparked
      · exact ⟨_, mem_cons_self, by rw [htaken]; exact hparked⟩
    · refine exists_next (fun f => f.carries.isSome) (some _) hex fun hf => ?_
      simp only [hcarries, isSome_none, false_eq_true] at hf
  · intro s hs hmem
    obtain hmem | hmem := mem_append.mp hmem
    · obtain hdone | hparked | hex := h.noted s hs hmem
      · exact .inl hdone
      · obtain hnone | ⟨-, htaken⟩ := htaken
        · rw [hnone] at hparked
          cases hparked
        · exact .inr (.inr ⟨_, mem_cons_self, htaken⟩)
      · refine .inr (.inr (exists_next Frame.replaying (some _) hex fun hf => ?_))
        rw [hreplaying] at hf
        cases hf
    · cases mem_singleton.mp hmem

/-- An outcome is parked. -/
theorem Consistent.park
    (h : Consistent start c record (.reduceDurableTerminal s .check :: others) past)
    (hapart : ∀ g ∈ others, (coordinator id).Apart (.reduceDurableTerminal s .check) g)
    (hflag : c.cancelInFlight)
    (hharmless : ∀ parked ∈ c.deferredTerminal, operationCenterStateFromJournal parked = operationCenterStateFromJournal s) :
    Consistent start { c with deferredTerminal := some s } record
      (.reduceDurableTerminal s .ungate :: others) (past ++ [some (.reported s)]) := by
  have hg : Guarantee (.reduceDurableTerminal s .check) c record
      { c with deferredTerminal := some s } record :=
    ⟨fun _ => rfl, fun h => h, fun h => (nomatch h), fun _ => rfl⟩
  obtain ⟨hstart, hs⟩ := h.placed _ mem_cons_self
  refine ⟨?_, ?_, ?_, ?_, h.registered, h.resident, ?_, fun _ _ => .inl rfl,
    fun _ _ _ => .inr (.inl rfl)⟩
  · rw [← h.counted, countP_cons, countP_cons]
    rfl
  · refine h.others_placed (some _) hapart hg ?_
    rintro f' ⟨⟩
    exact ⟨hstart, hs, .inr rfl⟩
  · refine h.others_reducing (some _) hapart hg ?_
    rintro f' ⟨⟩
    exact Plain.reducing ⟨fun _ _ h => (nomatch h), rfl⟩
  · rintro s' ⟨⟩
    refine ⟨hflag, hs, ?_⟩
    cases hdeferred : c.deferredTerminal with
    | none => exact Decided.first (h.first_of_gate hapart rfl rfl hdeferred)
    | some parked =>
      obtain ⟨-, hparked, hdecided⟩ := h.parked parked hdeferred
      have hkept : Decided record (outcomeOf (past ++ [some (.reported s)])) parked :=
        hdecided.mono hparked hg
      obtain hterminal | hsame := hkept
      · exact .inl hterminal
      · exact .inr (hsame.trans (hharmless parked hdeferred))
  · intro hterminal
    rw [outcomeOf_append, h.outcome hterminal]
    rfl

end WinCommander.Operations.Center
