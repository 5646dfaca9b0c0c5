/-
  Every frame of the coordinator keeps the invariant, and so does every interleaving.

  Each call is one lemma with a case for each place where its frame can stand. No step at all
  changes a record that has ended, whatever the others do.
-/
import WinCommander.Operations.Center.CoordinatorInvariant

namespace WinCommander.Operations.Center

open Library List Bool
open Frame (advance cancel reduceDurableTerminal setPaused)
open Journal (OperationJournalState)

variable {id : OperationId} {start : Bool} {c : Control} {record : OperationRecord} {f : Frame}
  {others frames : List Frame} {past : List (Option Report)} {report : Option Report} {a : Answers}

/-! ## Every frame -/

/-- After an advance of the frame the record is found and everything is consistent. -/
def Advances (id : OperationId) (start : Bool) (c : Control) (a : Answers) (f : Frame)
    (others : List Frame) (past : List (Option Report)) : Prop :=
  ∃ record, (f.advance id c a).1.model.find id = some record ∧
    Consistent start (f.advance id c a).1 record ((f.advance id c a).2.1.toList ++ others)
      (past ++ [(f.advance id c a).2.2])

theorem plain_of_reduction (hreduction : f.reduction = none) (hcarries : f.carries = none) :
    f.Plain := by
  refine ⟨?_, hcarries⟩
  intro reduction pc h
  rw [hreduction] at h
  cases h

theorem plain_of_lock (hreduction : f.reduction = some (reduction, .lock))
    (hcarries : f.carries = none) : f.Plain := by
  refine ⟨?_, hcarries⟩
  intro reduction' pc h
  rw [hreduction] at h
  cases h
  rfl

section
variable (hfind : c.model.find id = some record)
include hfind

/-- An advance to another frame that changes nothing. -/
theorem advances_to (h : Consistent start c record (f :: others) past)
    (hapart : ∀ g ∈ others, (coordinator id).Apart f g)
    (hadvance : f.advance id c a = (c, some f', none)) (hf : f.carries = none)
    (hreplaying : f.replaying = false) (hinFlight : f'.inFlight = f.inFlight)
    (hplaced : f'.Placed start c record) (hplain : f'.Plain) :
    Advances id start c a f others past := by
  unfold Advances
  rw [hadvance]
  refine ⟨record, hfind, h.quiet (some f') hapart (quiet_plain hf hreplaying hinFlight ?_ ?_ rfl ?_)⟩
  · rintro f'' ⟨⟩
    exact hplaced
  · rintro f'' ⟨⟩
    exact hplain
  · exact fun s heq => (nomatch heq)

/-- A return that changes nothing. -/
theorem advances_returns (h : Consistent start c record (f :: others) past)
    (hapart : ∀ g ∈ others, (coordinator id).Apart f g)
    (hadvance : f.advance id c a = (c, none, report)) (hf : f.carries = none)
    (hreplaying : f.replaying = false) (hinFlight : f.inFlight = false)
    (hsilent : report.bind Report.outcome = none) (hreturned : ∀ s, report ≠ some (.returned s)) :
    Advances id start c a f others past := by
  unfold Advances
  rw [hadvance]
  refine ⟨record, hfind, h.quiet none hapart (quiet_plain hf hreplaying hinFlight.symm ?_ ?_ hsilent hreturned)⟩
  · exact fun f' hf' => (nomatch hf')
  · exact fun f' hf' => (nomatch hf')

theorem reduceStarted_advances (h : Consistent start c record (.reduceStarted pc :: others) past)
    (hapart : ∀ g ∈ others, (coordinator id).Apart (.reduceStarted pc) g) :
    Advances id start c a (.reduceStarted pc) others past := by
  refine hosts_reduceStarted.advance hfind h hapart ?_ ?_ fun _ _ => rfl
  · rintro rfl
    exact h.quiet (some (.reduceStarted .find)) hapart (hosts_reduceStarted.quiet trivial
      (by decide) (fun _ hs => nomatch hs) (fun _ _ heq => nomatch heq) (fun heq => nomatch heq))
  · rintro rfl
    exact h.quiet none hapart (quiet_plain rfl rfl rfl (fun _ hf' => nomatch hf')
      (fun _ hf' => nomatch hf') rfl (fun _ heq => nomatch heq))

theorem reduceDurableTerminal_advances
    (h : Consistent start c record (.reduceDurableTerminal s pc :: others) past)
    (hapart : ∀ g ∈ others, (coordinator id).Apart (.reduceDurableTerminal s pc) g)
    (hharmless : Harmless c (.reduceDurableTerminal s pc) a) :
    Advances id start c a (.reduceDurableTerminal s pc) others past := by
  have hplaced := h.placed _ mem_cons_self
  cases pc with
  | find =>
    by_cases hs : operationCenterStateFromJournal s = none
    · have hnot : ¬Terminal s := by
        unfold Terminal
        rw [hs]
        exact Bool.false_ne_true
      have hadvance : (reduceDurableTerminal s .find).advance id c a =
          (c, none, some (.returned s)) := if_pos hs
      unfold Advances
      rw [hadvance]
      refine ⟨record, hfind, h.quiet none hapart ⟨rfl, rfl, fun hf => (by cases hf),
        fun hf => (by cases hf), fun _ hf' => (by cases hf'), fun _ hf' => (by cases hf'), ?_⟩⟩
      rintro s' hs' ⟨⟩
      exact absurd hs' hnot
    · have hterminal : Terminal s := Option.isSome_iff_ne_none.mpr hs
      cases hregistered : c.registered with
      | true =>
        have hadvance : (reduceDurableTerminal s .find).advance id c a =
            (c, some (.reduceDurableTerminal s .gate), none) := by
          simp [advance, reduceDurableTerminalStep, hs, hregistered]
        exact advances_to hfind h hapart hadvance rfl rfl rfl ⟨h.resident hregistered, hterminal⟩
          (plain_of_reduction rfl rfl)
      | false =>
        have hadvance : (reduceDurableTerminal s .find).advance id c a =
            (c, some (.reduceDurableTerminal s (.bare .lock)), none) := by
          simp [advance, reduceDurableTerminalStep, hs, hregistered]
        exact advances_to hfind h hapart hadvance rfl rfl rfl ⟨hterminal, hregistered⟩
          (plain_of_lock rfl rfl)
  | gate => exact advances_to hfind h hapart rfl rfl rfl rfl hplaced (plain_of_reduction rfl rfl)
  | check =>
    cases hflag : c.cancelInFlight with
    | true =>
      have hadvance : (reduceDurableTerminal s .check).advance id c a =
          ({ c with deferredTerminal := some s }, some (.reduceDurableTerminal s .ungate),
            some (.reported s)) := by
        simp [advance, reduceDurableTerminalStep, hflag]
      unfold Advances
      rw [hadvance]
      exact ⟨record, hfind, h.park hapart hflag hharmless⟩
    | false =>
      have hadvance : (reduceDurableTerminal s .check).advance id c a =
          (c, some (.reduceDurableTerminal s (.held .lock)), none) := by
        simp [advance, reduceDurableTerminalStep, hflag]
      exact advances_to hfind h hapart hadvance rfl rfl rfl ⟨hplaced.1, hplaced.2, hflag⟩
        (plain_of_lock rfl rfl)
  | held pc =>
    refine (hosts_held s).advance hfind h hapart ?_ ?_ ?_
    · rintro rfl
      refine (hosts_held s).reported h hapart (h.first_of_gate hapart rfl rfl ?_)
      -- Nothing is parked while the flag is down.
      by_contra hparked
      obtain ⟨parked, hparked⟩ := Option.ne_none_iff_exists'.mp hparked
      have hraised := (h.parked parked hparked).1
      rw [hplaced.2.2] at hraised
      cases hraised
    · rintro rfl
      have hterminal := (h.reducing _ mem_cons_self).applied s rfl
      refine h.quiet (some (.reduceDurableTerminal s .retire)) hapart
        ⟨rfl, rfl, fun hf => (by cases hf), fun _ => .inl hterminal, ?_, ?_, fun _ _ h => (by cases h)⟩
      · rintro f' ⟨⟩
        exact ⟨hplaced.1, hplaced.2.1, hterminal⟩
      · rintro f' ⟨⟩
        exact (plain_of_reduction rfl rfl).reducing
    · exact fun hpc _ => if_neg hpc
  | retire =>
    exact ⟨record, hfind, h.retire hapart hplaced.2.2 rfl
      ⟨hplaced.1, hplaced.2.1, .inl ⟨hplaced.2.2, rfl⟩⟩ (plain_of_reduction rfl rfl)⟩
  | ungate =>
    refine ⟨record, hfind, h.quiet none hapart ⟨rfl, rfl, fun hf => (by cases hf),
      fun hf => (by cases hf), fun _ hf' => (by cases hf'), fun _ hf' => (by cases hf'), ?_⟩⟩
    rintro s' - ⟨⟩
    exact hplaced.2.2
  | bare pc =>
    refine (hosts_bare s).advance hfind h hapart ?_ ?_ ?_
    · rintro rfl
      exact (hosts_bare s).reported h hapart (h.first_of_bare hapart)
    · rintro rfl
      have hterminal := (h.reducing _ mem_cons_self).applied s rfl
      refine h.quiet none hapart ⟨rfl, rfl, fun hf => (by cases hf),
        fun _ => .inl hterminal, fun _ hf' => (by cases hf'), fun _ hf' => (by cases hf'), ?_⟩
      intro _ _ _
      exact .inl ⟨hterminal, hplaced.2⟩
    · intro hlock hunlock
      exact (if_neg hlock).trans (if_neg fun hended => hunlock (reducing_ends hended))

theorem cancel_advances (h : Consistent start c record (.cancel revision pc :: others) past)
    (hapart : ∀ g ∈ others, (coordinator id).Apart (.cancel revision pc) g)
    (hharmless : Harmless c (.cancel revision pc) a) :
    Advances id start c a (.cancel revision pc) others past := by
  have hplaced := h.placed _ mem_cons_self
  cases pc with
  | find =>
    by_cases hcode : cancelResultFor revision record = .accepted
    · have hadvance : (cancel revision .find).advance id c a =
          (c, some (.cancel revision (.residency record)), none) := by
        simp [advance, cancelStep, hfind, hcode]
      exact advances_to hfind h hapart hadvance rfl rfl rfl trivial (plain_of_reduction rfl rfl)
    · have hadvance : (cancel revision .find).advance id c a =
          (c, none, some (.cancelled ⟨cancelResultFor revision record, some record⟩)) := by
        simp [advance, cancelStep, hfind, hcode]
      exact advances_returns hfind h hapart hadvance rfl rfl rfl rfl (fun s heq => by cases heq)
  | residency initial =>
    cases hregistered : c.registered with
    | true =>
      have hadvance : (cancel revision (.residency initial)).advance id c a =
          (c, some (.cancel revision .gate), none) := by
        simp [advance, cancelStep, hregistered]
      exact advances_to hfind h hapart hadvance rfl rfl rfl (h.resident hregistered)
        (plain_of_reduction rfl rfl)
    | false =>
      have hadvance : (cancel revision (.residency initial)).advance id c a =
          (c, none, some (.cancelled ⟨.residencyUnavailable, some initial⟩)) := by
        simp [advance, cancelStep, hregistered]
      exact advances_returns hfind h hapart hadvance rfl rfl rfl rfl (fun s heq => by cases heq)
  | gate => exact advances_to hfind h hapart rfl rfl rfl rfl hplaced (plain_of_reduction rfl rfl)
  | check =>
    have hungate : ∀ result, (cancel revision .check).advance id c a =
        (c, some (.cancel revision (.ungate result)), none) →
        Advances id start c a (.cancel revision .check) others past := by
      intro result hadvance
      exact advances_to hfind h hapart hadvance rfl rfl rfl hplaced (plain_of_reduction rfl rfl)
    by_cases hcode : cancelResultFor revision record = .accepted
    · cases hflag : c.cancelInFlight with
      | true =>
        refine hungate ⟨.cancelInProgress, some record⟩ ?_
        simp [advance, cancelStep, hfind, hcode, hflag]
      | false =>
        rcases hresident : a.resident with - | - | -
        · refine hungate { code := .residencyUnavailable } ?_
          simp [advance, cancelStep, hfind, hcode, hflag, hresident]
        · refine hungate ⟨.residencyUnavailable, some record⟩ ?_
          simp [advance, cancelStep, hfind, hcode, hflag, hresident]
        · have hadvance : (cancel revision .check).advance id c a =
              ({ c with cancelInFlight := true }, some (.cancel revision .stop), none) := by
            simp [advance, cancelStep, hfind, hcode, hflag, hresident]
          unfold Advances
          rw [hadvance]
          exact ⟨record, hfind, h.raise hapart hflag⟩
    · refine hungate ⟨cancelResultFor revision record, some record⟩ ?_
      simp [advance, cancelStep, hfind, hcode]
  | stop =>
    rcases hstopped : a.stopped with - | - | -
    · have hdeferred : c.deferredTerminal = none := hharmless hstopped
      have hadvance : (cancel revision .stop).advance id c a =
          ({ c with cancelInFlight := false, deferredTerminal := none },
            some (.cancel revision (.ungate { code := .residencyUnavailable })), none) := by
        simp [advance, cancelStep, hstopped, ← hdeferred]
      unfold Advances
      rw [hadvance]
      exact ⟨record, hfind, h.lower hapart rfl rfl rfl rfl hplaced
        (plain_of_reduction rfl rfl).reducing (.inl hdeferred)⟩
    · have hadvance : (cancel revision .stop).advance id c a =
          (c, some (.cancel revision (.settle false)), none) := by
        simp [advance, cancelStep, hstopped]
      exact advances_to hfind h hapart hadvance rfl rfl rfl hplaced (plain_of_reduction rfl rfl)
    · have hadvance : (cancel revision .stop).advance id c a =
          (c, some (.cancel revision (.cancelling .lock)), none) := by
        simp [advance, cancelStep, hstopped]
      exact advances_to hfind h hapart hadvance rfl rfl rfl hplaced (plain_of_lock rfl rfl)
  | cancelling pc =>
    refine (hosts_cancelling revision).advance hfind h hapart ?_ ?_ fun _ _ => rfl
    · rintro rfl
      exact h.quiet (some (.cancel revision (.cancelling .find))) hapart
        ((hosts_cancelling revision).quiet hplaced (by decide) (fun _ hs => by cases hs)
          (fun _ _ heq => by cases heq) (fun heq => by cases heq))
    · rintro rfl
      refine h.quiet (some (.cancel revision (.settle true))) hapart
        (quiet_plain rfl rfl rfl ?_ ?_ rfl (fun _ heq => by cases heq))
      · rintro f' ⟨⟩
        exact hplaced
      · rintro f' ⟨⟩
        exact plain_of_reduction rfl rfl
  | settle accepted =>
    cases hdeferred : c.deferredTerminal with
    | none =>
      have hadvance : (cancel revision (.settle accepted)).advance id c a =
          ({ c with cancelInFlight := false, deferredTerminal := none },
            some (.cancel revision (.result accepted)), none) := by
        simp [advance, cancelStep, hdeferred]
      unfold Advances
      rw [hadvance]
      exact ⟨record, hfind, h.lower hapart rfl rfl rfl rfl hplaced
        (plain_of_reduction rfl rfl).reducing (.inl hdeferred)⟩
    | some s =>
      have hadvance : (cancel revision (.settle accepted)).advance id c a =
          ({ c with cancelInFlight := false, deferredTerminal := none },
            some (.cancel revision (.replay accepted s .lock)), none) := by
        simp [advance, cancelStep, hdeferred]
      obtain ⟨-, hterminal, hdecided⟩ := h.parked s hdeferred
      unfold Advances
      rw [hadvance]
      refine ⟨record, hfind, h.lower hapart rfl rfl rfl rfl ⟨hplaced, hterminal⟩ ⟨?_, ?_, ?_⟩
        (.inr ⟨hdeferred.symm, rfl⟩)⟩
      · exact fun _ _ _ heq => (by cases heq)
      · exact fun _ heq => (by cases heq)
      · rintro s' ⟨⟩
        exact hdecided
  | replay accepted s pc =>
    refine (hosts_replay revision accepted s).advance hfind h hapart ?_ ?_ fun _ _ => rfl
    · rintro rfl
      refine h.quiet (some (.cancel revision (.replay accepted s .find))) hapart
        ((hosts_replay revision accepted s).quiet hplaced (by decide) ?_
          (fun _ _ heq => by cases heq) (fun heq => by cases heq))
      rintro s' ⟨⟩
      exact (h.reducing _ mem_cons_self).decided s rfl
    · rintro rfl
      have hterminal := (h.reducing _ mem_cons_self).applied s rfl
      refine h.quiet (some (.cancel revision (.retire accepted))) hapart
        ⟨rfl, rfl, fun _ => rfl, fun _ => .inl hterminal, ?_, ?_, fun _ _ h => (by cases h)⟩
      · rintro f' ⟨⟩
        exact ⟨hplaced.1, hterminal⟩
      · rintro f' ⟨⟩
        exact (plain_of_reduction rfl rfl).reducing
  | retire accepted =>
    exact ⟨record, hfind, h.retire hapart hplaced.2 rfl hplaced.1 (plain_of_reduction rfl rfl)⟩
  | result accepted =>
    exact advances_to hfind h hapart rfl rfl rfl rfl hplaced (plain_of_reduction rfl rfl)
  | ungate result =>
    exact advances_returns hfind h hapart rfl rfl rfl rfl rfl (fun s heq => by cases heq)

theorem setPaused_advances
    (h : Consistent start c record (.setPaused revision intent pc :: others) past)
    (hapart : ∀ g ∈ others, (coordinator id).Apart (.setPaused revision intent pc) g) :
    Advances id start c a (.setPaused revision intent pc) others past := by
  have hplaced := h.placed _ mem_cons_self
  cases pc with
  | find =>
    by_cases hcode : pauseResultFor revision intent record = .accepted
    · have hadvance : (setPaused revision intent .find).advance id c a =
          (c, some (.setPaused revision intent (.residency record)), none) := by
        simp [advance, setPausedStep, hfind, hcode]
      exact advances_to hfind h hapart hadvance rfl rfl rfl trivial (plain_of_reduction rfl rfl)
    · have hadvance : (setPaused revision intent .find).advance id c a =
          (c, none, some (.paused ⟨pauseResultFor revision intent record, some record⟩)) := by
        simp [advance, setPausedStep, hfind, hcode]
      exact advances_returns hfind h hapart hadvance rfl rfl rfl rfl (fun s heq => by cases heq)
  | residency initial =>
    cases hregistered : c.registered with
    | true =>
      have hadvance : (setPaused revision intent (.residency initial)).advance id c a =
          (c, some (.setPaused revision intent .gate), none) := by
        simp [advance, setPausedStep, hregistered]
      exact advances_to hfind h hapart hadvance rfl rfl rfl (h.resident hregistered)
        (plain_of_reduction rfl rfl)
    | false =>
      have hadvance : (setPaused revision intent (.residency initial)).advance id c a =
          (c, none, some (.paused ⟨.residencyUnavailable, some initial⟩)) := by
        simp [advance, setPausedStep, hregistered]
      exact advances_returns hfind h hapart hadvance rfl rfl rfl rfl (fun s heq => by cases heq)
  | gate => exact advances_to hfind h hapart rfl rfl rfl rfl hplaced (plain_of_reduction rfl rfl)
  | check =>
    have hto : ∀ f', (setPaused revision intent .check).advance id c a = (c, some f', none) →
        f'.inFlight = false → f'.Placed start c record → f'.Plain →
        Advances id start c a (.setPaused revision intent .check) others past := by
      intro f' hadvance hinFlight hplaced' hplain
      exact advances_to hfind h hapart hadvance rfl rfl hinFlight hplaced' hplain
    by_cases hcode : pauseResultFor revision intent record = .accepted
    · rcases hresident : a.resident with - | - | -
      · refine hto (.setPaused revision intent (.ungate { code := .residencyUnavailable })) ?_ rfl
          hplaced (plain_of_reduction rfl rfl)
        simp [advance, setPausedStep, hfind, hcode, hresident]
      · refine hto (.setPaused revision intent (.ungate ⟨.residencyUnavailable, some record⟩)) ?_ rfl
          hplaced (plain_of_reduction rfl rfl)
        simp [advance, setPausedStep, hfind, hcode, hresident]
      · refine hto (.setPaused revision intent .act) ?_ rfl hplaced (plain_of_reduction rfl rfl)
        simp [advance, setPausedStep, hfind, hcode, hresident]
    · refine hto (.setPaused revision intent
        (.ungate ⟨pauseResultFor revision intent record, some record⟩)) ?_ rfl hplaced
        (plain_of_reduction rfl rfl)
      simp [advance, setPausedStep, hfind, hcode]
  | act =>
    cases hstopped : a.stopped with
    | none =>
      have hadvance : (setPaused revision intent .act).advance id c a =
          (c, some (.setPaused revision intent (.ungate { code := .residencyUnavailable })),
            none) := by
        simp [advance, setPausedStep, hstopped]
      exact advances_to hfind h hapart hadvance rfl rfl rfl hplaced (plain_of_reduction rfl rfl)
    | some _ =>
      have hadvance : (setPaused revision intent .act).advance id c a =
          (c, some (.setPaused revision intent (.reduce .lock)), none) := by
        simp [advance, setPausedStep, hstopped]
      exact advances_to hfind h hapart hadvance rfl rfl rfl hplaced (plain_of_lock rfl rfl)
  | reduce pc =>
    refine (hosts_paused revision intent).advance hfind h hapart ?_ ?_ fun _ _ => rfl
    · rintro rfl
      exact h.quiet (some (.setPaused revision intent (.reduce .find))) hapart
        ((hosts_paused revision intent).quiet hplaced (by decide) (fun _ hs => by cases hs)
          (fun _ _ heq => by cases heq) (fun heq => by cases heq))
    · rintro rfl
      refine h.quiet (some (.setPaused revision intent .result)) hapart
        (quiet_plain rfl rfl rfl ?_ ?_ rfl (fun _ heq => by cases heq))
      · rintro f' ⟨⟩
        exact hplaced
      · rintro f' ⟨⟩
        exact plain_of_reduction rfl rfl
  | result => exact advances_to hfind h hapart rfl rfl rfl rfl hplaced (plain_of_reduction rfl rfl)
  | ungate result =>
    exact advances_returns hfind h hapart rfl rfl rfl rfl rfl (fun s heq => by cases heq)

end

/-! ## Every interleaving -/

theorem advance_advances (hfind : c.model.find id = some record)
    (h : Consistent start c record (f :: others) past)
    (hapart : ∀ g ∈ others, (coordinator id).Apart f g) (hharmless : Harmless c f a) :
    Advances id start c a f others past := by
  cases f with
  | reduceStarted pc => exact reduceStarted_advances hfind h hapart
  | reduceDurableTerminal s pc => exact reduceDurableTerminal_advances hfind h hapart hharmless
  | cancel revision pc => exact cancel_advances hfind h hapart hharmless
  | setPaused revision intent pc => exact setPaused_advances hfind h hapart

theorem Consistent.perm (h : Consistent start c record frames past) (hperm : frames.Perm frames')
    : Consistent start c record frames' past := by
  refine ⟨?_, ?_, ?_, h.parked, h.registered, h.resident, h.outcome, ?_, ?_⟩
  · rw [← hperm.countP_eq]
    exact h.counted
  · exact fun g hg => h.placed g (hperm.mem_iff.mpr hg)
  · exact fun g hg => h.reducing g (hperm.mem_iff.mpr hg)
  · intro hongoing hsome
    refine (h.pending hongoing hsome).imp_right ?_
    rintro ⟨g, hg, hcarries⟩
    exact ⟨g, hperm.mem_iff.mp hg, hcarries⟩
  · intro s hs hmem
    refine (h.noted s hs hmem).imp_right fun hrest => hrest.imp_right ?_
    rintro ⟨g, hg, hreplaying⟩
    exact ⟨g, hperm.mem_iff.mp hg, hreplaying⟩

theorem returned_of_append_none (h : some (.returned s) ∈ past ++ [none])
    : some (.returned s) ∈ past := by
  rcases mem_append.mp h with h | h
  · exact h
  · cases mem_singleton.mp h

theorem Consistent.stay (h : Consistent start c record frames past) :
    Consistent start c record frames (past ++ [none]) := by
  refine ⟨h.counted, h.placed, ?_, ?_, h.registered, h.resident, ?_, ?_, ?_⟩
  · rw [outcomeOf_silent]
    exact h.reducing
  · rw [outcomeOf_silent]
    exact h.parked
  · rw [outcomeOf_silent]
    exact h.outcome
  · rw [outcomeOf_silent]
    exact h.pending
  · exact fun s hs hmem => h.noted s hs (returned_of_append_none hmem)

/-- A frame that a call has just put on a stack relies on nothing. -/
theorem entry_placed (call : CoordinatorCall) : call.entry.Placed start c record := by
  cases call <;> trivial

theorem entry_plain (call : CoordinatorCall) : call.entry.Plain := by
  cases call with
  | reduceStarted => exact plain_of_lock rfl rfl
  | reduceDurableTerminal s => exact plain_of_reduction rfl rfl
  | cancel revision => exact plain_of_reduction rfl rfl
  | setPaused revision intent => exact plain_of_reduction rfl rfl

theorem Consistent.call (h : Consistent start c record frames past) (call : CoordinatorCall) :
    Consistent start c record (call.entry :: frames) (past ++ [none]) := by
  have hcalm : call.entry.inFlight = false := by cases call <;> rfl
  have h' := h.stay
  refine ⟨?_, ?_, ?_, h'.parked, h.registered, h.resident, h'.outcome, ?_, ?_⟩
  · rw [countP_cons_of_neg (by simp [hcalm])]
    exact h.counted
  · intro g hg
    rcases mem_cons.mp hg with rfl | hg
    · exact entry_placed call
    · exact h.placed g hg
  · intro g hg
    rcases mem_cons.mp hg with rfl | hg
    · exact (entry_plain call).reducing
    · exact h'.reducing g hg
  · intro hongoing hsome
    refine (h'.pending hongoing hsome).imp_right ?_
    rintro ⟨g, hg, hcarries⟩
    exact ⟨g, mem_cons_of_mem _ hg, hcarries⟩
  · intro s hs hmem
    refine (h'.noted s hs hmem).imp_right fun hrest => hrest.imp_right ?_
    rintro ⟨g, hg, hreplaying⟩
    exact ⟨g, mem_cons_of_mem _ hg, hreplaying⟩

theorem coordinator_kept (id : OperationId) (start : Bool) :
    (coordinator id).Kept Harmless fun c frames past =>
      ∃ record, c.model.find id = some record ∧ Consistent start c record frames past := by
  refine ⟨?_, ?_, ?_, ?_⟩
  · rintro c frames frames' past hperm ⟨record, hfind, h⟩
    exact ⟨record, hfind, h.perm hperm⟩
  · rintro c frames past ⟨record, hfind, h⟩
    exact ⟨record, hfind, h.stay⟩
  · rintro c frames past call ⟨record, hfind, h⟩
    exact ⟨record, hfind, h.call call⟩
  · rintro c f others past a ⟨record, hfind, h⟩ hharmless hapart
    exact advance_advances hfind h hapart hharmless

/-! ## Records that have ended -/

theorem reducing_terminal (hfind : c.model.find id = some record)
    (hterminal : record.state.isTerminal) (reduction : Reduction) (pc : ReducePc)
    (inside : ReducePc → Frame) (after : Option Frame) :
    (reducing id c a reduction pc inside after).1.model.find id = some record := by
  show (reduction.step id c.model a.now pc).1.find id = some record
  rw [Reduction.step_terminal hfind hterminal]
  exact hfind

theorem advance_terminal (hfind : c.model.find id = some record)
    (hterminal : record.state.isTerminal) (f : Frame) (a : Answers) :
    (f.advance id c a).1.model.find id = some record := by
  cases f with
  | reduceStarted pc => exact reducing_terminal hfind hterminal .started pc .reduceStarted none
  | reduceDurableTerminal s pc =>
    cases pc with
    | held pc =>
      exact reducing_terminal hfind hterminal (.terminal s) pc
        (fun pc' => .reduceDurableTerminal s (.held pc')) (some (.reduceDurableTerminal s .retire))
    | bare pc =>
      exact reducing_terminal hfind hterminal (.terminal s) pc
        (fun pc' => .reduceDurableTerminal s (.bare pc')) none
    | find | gate | check | retire | ungate =>
      simp only [advance, reduceDurableTerminalStep]
      repeat' split
      all_goals exact hfind
  | cancel revision pc =>
    cases pc with
    | cancelling pc =>
      exact reducing_terminal hfind hterminal .cancelling pc
        (fun pc' => .cancel revision (.cancelling pc')) (some (.cancel revision (.settle true)))
    | replay accepted s pc =>
      exact reducing_terminal hfind hterminal (.terminal s) pc
        (fun pc' => .cancel revision (.replay accepted s pc'))
        (some (.cancel revision (.retire accepted)))
    | find | residency _ | gate | check | stop | settle _ | retire _ | result _ | ungate _ =>
      simp only [advance, cancelStep]
      repeat' split
      all_goals exact hfind
  | setPaused revision intent pc =>
    cases pc with
    | reduce pc =>
      exact reducing_terminal hfind hterminal (.paused (intent = .pause)) pc
        (fun pc' => .setPaused revision intent (.reduce pc'))
        (some (.setPaused revision intent .result))
    | find | residency _ | gate | check | act | result | ungate _ =>
      simp only [advance, setPausedStep]
      repeat' split
      all_goals exact hfind

theorem step_terminal (hfind : sys.shared.model.find id = some record)
    (hterminal : record.state.isTerminal) (event : ThreadEvent CoordinatorCall Answers) :
    ((coordinator id).step sys event).1.shared.model.find id = some record := by
  have hmoves := (coordinator id).step_moves sys event
  generalize (coordinator id).step sys event = result at hmoves
  cases hmoves with
  | stays => exact hfind
  | calls => exact hfind
  | advances thread answers f => exact advance_terminal hfind hterminal f answers

end WinCommander.Operations.Center
