/-
  The lifecycle of the operations of a pool, over every interleaving of its calls.

  Each part of the invariant is about the lists, the frames of all threads and the reports so far:
  where the accepted operations are (`Placed`), whose turn it is to finalize (`Owned`), what is
  still to be started (`Starts`) and to be completed (`Completions`), what the finalizers have
  decided (`Decisions`), and who wakes the pending operations up (`Staffed`).
-/
import WinCommander.Library.LockOrder
import WinCommander.Operations.Pool.Pool

namespace WinCommander.Operations.Pooling

open Library List Report Frame Releasing
open Option (mem_toList some toList_none)
open Submission (PoolTerminalFinalizationDecision)

variable {Op : Type}

/-! ## What is to hold -/

namespace Report

def acceptedOperation : Report Op → Option Op
  | .accepted operation => some operation
  | _ => none

def startedOperation : Report Op → Option Op
  | .started operation => some operation
  | _ => none

def releasedOperation : Report Op → Option Op
  | .released operation => some operation
  | _ => none

def completedOperation : Report Op → Option Op
  | .completionRuns operation => some operation
  | _ => none

end Report

/-- The operations of the reports of one kind, in order. -/
def told (select : Report Op → Option Op) (past : List (Option (Report Op))) : List Op :=
  past.filterMap (·.bind select)

/-- What a report asks of those before it. -/
def Admissible (past : List (Option (Report Op))) : Option (Report Op) → Prop
  | some (.started operation) => some (.started operation) ∉ past
  -- The finalizer has not answered a release yet.
  | some (.finalizerRuns operation) =>
    ∀ decision, some (.decided operation decision) ∈ past → decision = .retain
  | some (.completionRuns operation) =>
    some (.decided operation .release) ∈ past ∧ some (.completionRuns operation) ∉ past
  | _ => True

namespace Frame

def runsFinalizer [DecidableEq Op] (operation : Op) : Frame Op → Bool
  | .finalizer finalizing _ => decide (finalizing.operation = operation)
  | _ => false

/-- A frame of a call of the pool, not of a job. -/
def inPool : Frame Op → Bool
  | .finish _ _ | .finishObservers _ | .turn _ _ => false
  | _ => true

end Frame

/-- In how many places of the three lists an operation is. -/
def Pool.places [DecidableEq Op] (s : Pool Op) (operation : Op) : Nat :=
  s.pendingOperations.count operation + s.runningOperations.count operation +
    (s.finalizingOperations.map FinalizingOperation.operation).count operation

/-- The lifecycle of the operations of a pool. -/
structure Lifecycle [DecidableEq Op] (settings : Settings) (s : Pool Op) (frames : List (Frame Op))
    (past : List (Option (Report Op))) : Prop where
  placed : ∀ operation, s.places operation = if operation ∈ told Report.acceptedOperation past ∧
      operation ∉ told Report.releasedOperation past then 1 else 0
  finalizedAlone : ∀ operation, frames.countP (Frame.runsFinalizer operation) ≤ 1
  history : Each Admissible past
  staffed : (∀ f ∈ frames, f.inPool = false) → s.shuttingDown = false →
    settings.concurrency ≤ s.runningOperations.length ∨ s.pendingOperations = []

/-! ## The invariant -/

namespace Frame

/-- An operation that is about to be admitted. -/
def admitting : Frame Op → Option Op
  | .enqueue operation _ => some operation
  | _ => none

/-- An operation whose end is being told. -/
def ending : Frame Op → Option Op
  | .finishObservers operation | .didFinish operation => some operation
  | _ => none

/-- The object that a thread has in progress. -/
def owned : Frame Op → Option (FinalizingOperation Op)
  | .finalizer finalizing _ | .retain finalizing _ | .release finalizing _ => some finalizing
  | _ => none

/-- The operations that are going to be started. -/
def toStart : Frame Op → List Op
  | .kickstart toStart _ => toStart
  | .gate operation rest _ | .start operation rest _ => operation :: rest
  | .startObservers rest _ => rest
  | _ => []

/-- The release whose completion callback has not run yet. -/
def releasing : Frame Op → Option (Releasing Op)
  | .startPending releasing | .kickstart _ releasing | .gate _ _ releasing
  | .start _ _ releasing | .startObservers _ releasing => releasing
  | .removalObservers releasing | .complete releasing => some releasing
  | _ => none

/-- A frame that goes on to `StartPendingOperations`. -/
def wakes (s : Pool Op) : Frame Op → Prop
  | .additionObservers | .startPending _ | .removalObservers _ | .release _ _ => True
  | .finalizer _ inFinish | .retain _ inFinish => inFinish = true
  | .retry operation inFinish => inFinish = true ∧ s.isFinalizing operation
  | _ => False

end Frame

/-- Every accepted operation is in one list until it is released. -/
structure Placed (s : Pool Op) (frames : List (Frame Op)) (past : List (Option (Report Op))) :
    Prop where
  once : (told Report.acceptedOperation past).Nodup
  places : (told Report.acceptedOperation past).Perm
    (s.pendingOperations ++ s.runningOperations ++
      s.finalizingOperations.map FinalizingOperation.operation ++
        told Report.releasedOperation past)
  ended : ∀ operation ∈ s.finalizingOperations.map FinalizingOperation.operation ++
    told Report.releasedOperation past, (s.states operation).ended = true
  ending : ∀ operation ∈ frames.filterMap Frame.ending, (s.states operation).ended = true
  admitting : ∀ operation ∈ frames.filterMap Frame.admitting,
    operation ∉ told Report.acceptedOperation past

/-- An object has one thread at most that has it in progress. -/
structure Owned (s : Pool Op) (frames : List (Frame Op)) : Prop where
  tickets : ((s.terminalFinalizers ++ s.finalizingOperations).map FinalizingOperation.ticket).Nodup
  given : ∀ finalizing ∈ s.terminalFinalizers ++ s.finalizingOperations,
    finalizing.ticket < s.tickets
  owners : ((frames.filterMap Frame.owned).map FinalizingOperation.ticket).Nodup
  listed : ∀ finalizing ∈ frames.filterMap Frame.owned,
    { finalizing with inProgress := true } ∈ s.finalizingOperations

structure Starts (s : Pool Op) (frames : List (Frame Op)) (past : List (Option (Report Op))) :
    Prop where
  once : (told Report.startedOperation past ++ frames.flatMap Frame.toStart).Nodup
  taken : ∀ operation ∈ told Report.startedOperation past ++ frames.flatMap Frame.toStart,
    operation ∈ told Report.acceptedOperation past ∧ operation ∉ s.pendingOperations

structure Completions (frames : List (Frame Op)) (past : List (Option (Report Op))) : Prop where
  once : (told Report.completedOperation past ++
    (frames.filterMap Frame.releasing).map Releasing.operation).Nodup
  released : ∀ operation ∈ told Report.completedOperation past ++
    (frames.filterMap Frame.releasing).map Releasing.operation,
      operation ∈ told Report.releasedOperation past
  reporting : ∀ releasing ∈ frames.filterMap Frame.releasing, releasing.reportCompletion = true →
    some (.decided releasing.operation .release) ∈ past

structure Decisions (frames : List (Frame Op)) (past : List (Option (Report Op))) : Prop where
  deciding : ∀ finalizing decision, .release finalizing decision ∈ frames →
    some (.decided finalizing.operation decision) ∈ past
  letGo : ∀ operation decision, some (.decided operation decision) ∈ past → decision ≠ .retain →
    operation ∈ told Report.releasedOperation past ∨
      ∃ finalizing decision, .release finalizing decision ∈ frames ∧
        finalizing.operation = operation

def Staffed (settings : Settings) (s : Pool Op) (frames : List (Frame Op)) : Prop :=
  s.shuttingDown = true ∨ settings.concurrency ≤ s.runningOperations.length ∨
    s.pendingOperations = [] ∨ ∃ f ∈ frames, f.wakes s

/-! ## Where the operations are -/

variable {settings : Settings} {s s' : Pool Op} {f : Frame Op} {others : List (Frame Op)}
  {past : List (Option (Report Op))} {result : PoolStep Op}

@[simp] theorem told_concat (select : Report Op → Option Op) (report : Option (Report Op)) :
    told select (past ++ [report]) = told select past ++ (report.bind select).toList := by
  unfold told
  rw [filterMap_append]
  cases h : report.bind select <;> simp [h]

theorem filterMap_next {α : Type} (g : Frame Op → Option α) (next : Option (Frame Op)) :
    (next.toList ++ others).filterMap g = (next.bind g).toList ++ others.filterMap g := by
  cases next with
  | none => rfl
  | some f =>
    rw [filterMap_append]
    cases h : g f <;> simp [h]

theorem filterMap_cons_toList {α : Type} (g : Frame Op → Option α) (f : Frame Op)
    (others : List (Frame Op)) :
    (f :: others).filterMap g = (g f).toList ++ others.filterMap g := by
  cases h : g f <;> simp [h]

/-- No operation has changed its list, and none has come back from its end. -/
structure SamePlaces (s s' : Pool Op) : Prop where
  running : s'.runningOperations = s.runningOperations
  pending : s'.pendingOperations = s.pendingOperations
  finalizing : s'.finalizingOperations.map FinalizingOperation.operation =
    s.finalizingOperations.map FinalizingOperation.operation
  ended : ∀ operation, (s.states operation).ended = true → (s'.states operation).ended = true
  down : s.shuttingDown = true → s'.shuttingDown = true

theorem SameLists.places (h : SameLists s s') : SamePlaces s s' :=
  ⟨h.running, h.pending, by rw [h.finalizing], h.ended, h.down⟩

theorem samePlaces_refl (s : Pool Op) : SamePlaces s s := Pool.sameLists_refl.places

theorem samePlaces_setInProgress (ticket : Nat) (inProgress : Bool) :
    SamePlaces s (s.setInProgress ticket inProgress) := by
  refine ⟨rfl, rfl, ?_, fun _ h => h, fun h => h⟩
  show (s.finalizingOperations.map _).map _ = _
  rw [map_map]
  refine map_congr_left fun finalizing _ => ?_
  show (if finalizing.ticket = ticket then _ else finalizing).operation = _
  split <;> rfl

variable {report : Option (Report Op)} {frames : List (Frame Op)} {operation : Op}
  {before after : List (FinalizingOperation Op)} {finalizing : FinalizingOperation Op}
  {decision : PoolTerminalFinalizationDecision} {releasing : Releasing Op} {f' : Frame Op}

/-- A report of another kind. -/
theorem told_silent {select : Report Op → Option Op} (h : report.bind select = none) :
    told select (past ++ [report]) = told select past := by
  rw [told_concat, h, toList_none, append_nil]

theorem told_none (select : Report Op → Option Op) : told select (past ++ [none]) = told select past :=
  told_silent rfl

/-- A step that changes no list and tells of no admission and no release. -/
theorem Placed.quiet (h : Placed s (f :: others) past) (same : SamePlaces s s')
    {next : Option (Frame Op)}
    (hending : ∀ operation, next.bind Frame.ending = some operation → (s'.states operation).ended)
    (hadmitting : next.bind Frame.admitting = none)
    (haccepted : report.bind acceptedOperation = none)
    (hreleased : report.bind releasedOperation = none) :
    Placed s' (next.toList ++ others) (past ++ [report]) := by
  have htold := @told_silent _ past report _ haccepted
  have hgone := @told_silent _ past report _ hreleased
  refine ⟨?_, ?_, ?_, ?_, ?_⟩
  · rw [htold]
    exact h.once
  · rw [htold, hgone, same.pending, same.running, same.finalizing]
    exact h.places
  · intro operation hmem
    rw [hgone, same.finalizing] at hmem
    exact same.ended _ (h.ended operation hmem)
  · intro operation hmem
    rw [filterMap_next] at hmem
    obtain hnext | hother := mem_append.mp hmem
    · exact hending operation (mem_toList.mp hnext)
    · refine same.ended _ (h.ending operation ?_)
      rw [filterMap_cons_toList]
      exact mem_append_right _ hother
  · intro operation hmem
    rw [filterMap_next, hadmitting] at hmem
    rw [htold]
    refine h.admitting operation ?_
    rw [filterMap_cons_toList]
    exact mem_append_right _ hmem

/-- An operation that is in no list was not accepted, or is not cold any more. -/
theorem Placed.not_accepted (h : Placed s frames past) (hrunning : operation ∉ s.runningOperations)
    (hpending : operation ∉ s.pendingOperations) (hfinalizing : ¬s.isFinalizing operation)
    (hcold : s.states operation = .cold) : operation ∉ told acceptedOperation past := by
  intro hmem
  have hplaces := h.places.mem_iff.mp hmem
  simp only [mem_append] at hplaces
  obtain ((hmem | hmem) | hmem) | hmem := hplaces
  · exact hpending hmem
  · exact hrunning hmem
  · exact hfinalizing hmem
  · have hended := h.ended operation (mem_append_right _ hmem)
    rw [hcold] at hended
    cases hended

theorem Placed.nodup (h : Placed s frames past) : (s.pendingOperations ++ s.runningOperations ++
      s.finalizingOperations.map FinalizingOperation.operation ++
        told releasedOperation past).Nodup :=
  h.places.nodup_iff.mp h.once

/-- The operations that leave a list, and those that stay. -/
theorem perm_cons_filter_ne {α : Type} [DecidableEq α] {l : List α} {a : α} (hnodup : l.Nodup)
    (hmem : a ∈ l) : l.Perm (a :: l.filter (· ≠ a)) := by
  have herase := perm_cons_erase hmem
  rw [hnodup.erase_eq_filter a] at herase
  refine herase.trans (.of_eq (congrArg (a :: ·) (filter_congr fun b _ => ?_)))
  by_cases h : b = a <;> simp [h]

theorem holds_of_admitting (h : f.admitting = some operation) : f.holds .lock := by
  cases f <;> simp_all [Frame.admitting, holds]

/-- An admission, of an operation that no other thread is admitting. -/
theorem Placed.enqueue (h : Placed s (.enqueue operation hasFinalizer :: others) past)
    (hapart : ∀ g ∈ others, g.holds .lock = false) : Placed (s.enqueue operation hasFinalizer).1
      ((s.enqueue operation hasFinalizer).2.1.toList ++ others)
      (past ++ [(s.enqueue operation hasFinalizer).2.2]) := by
  have hnew : operation ∉ told acceptedOperation past :=
    h.admitting operation mem_cons_self
  have htold : told acceptedOperation
      (past ++ [(s.enqueue operation hasFinalizer).2.2]) =
      told acceptedOperation past ++ [operation] := told_concat _ _
  have hgone :=
    @told_silent _ past (s.enqueue operation hasFinalizer).2.2 releasedOperation rfl
  refine ⟨?_, ?_, ?_, ?_, ?_⟩
  · rw [htold]
    exact nodup_append.mpr ⟨h.once, nodup_singleton _, fun a ha b hb hab => hnew
      (mem_singleton.mp hb ▸ hab ▸ ha)⟩
  · rw [htold, hgone]
    show (_ ++ [operation]).Perm
      (s.pendingOperations ++ [operation] ++ s.runningOperations ++ _ ++ _)
    have hmoved := (h.places.append_right [operation]).trans perm_append_comm
    refine hmoved.trans ?_
    simp only [append_assoc]
    exact perm_append_comm_assoc _ _ _
  · intro other hmem
    rw [hgone] at hmem
    exact h.ended other hmem
  · intro other hmem
    exact h.ending other hmem
  · intro other hmem
    obtain ⟨g, hg, hother⟩ := mem_filterMap.mp hmem
    obtain rfl | hg := mem_cons.mp hg
    · cases hother
    · have hheld := holds_of_admitting hother
      rw [hapart g hg] at hheld
      cases hheld

/-- An end that takes an operation out of the running or the pending ones. -/
theorem Placed.taken [DecidableEq Op] (h : Placed s (.didFinish finalizing.operation :: others) past)
    (listed : finalizing.operation ∈ s.runningOperations ∨ finalizing.operation ∈ s.pendingOperations) :
    Placed { s with
        finalizingOperations := s.finalizingOperations ++ [finalizing]
        runningOperations := s.runningOperations.filter (· ≠ finalizing.operation)
        pendingOperations := s.pendingOperations.filter (· ≠ finalizing.operation)
        terminalFinalizers := before ++ after }
      (.retry finalizing.operation true :: others) (past ++ [none]) := by
  have hended : (s.states finalizing.operation).ended :=
    h.ending _ mem_cons_self
  refine ⟨?_, ?_, ?_, ?_, ?_⟩
  · rw [told_none]
    exact h.once
  · rw [told_none, told_none]
    refine h.places.trans (Perm.append_right _ ?_)
    rw [map_append, ← filter_append]
    have hmem : finalizing.operation ∈ s.pendingOperations ++ s.runningOperations :=
      mem_append.mpr listed.symm
    have hnodup := (nodup_append.mp (nodup_append.mp h.nodup).1).1
    refine ((perm_cons_filter_ne hnodup hmem).append_right _).trans ?_
    rw [← append_assoc]
    exact (perm_append_singleton _ _).symm
  · intro operation hmem
    rw [told_none, map_append, append_assoc] at hmem
    obtain hfinalizing | hmem := mem_append.mp hmem
    · exact h.ended operation (mem_append_left _ hfinalizing)
    · obtain hsame | hreleased := mem_append.mp hmem
      · rw [mem_singleton.mp hsame]
        exact hended
      · exact h.ended operation (mem_append_right _ hreleased)
  · intro operation hmem
    exact h.ending operation (mem_cons_of_mem _ hmem)
  · intro operation hmem
    rw [told_none]
    exact h.admitting operation hmem

/-- A release, which takes the operation of its object out of the finalizing ones. -/
theorem Placed.released {finalizing other : FinalizingOperation Op}
    (h : Placed s (.release finalizing decision :: others) past)
    (found : s.finalizingOperations = before ++ other :: after)
    (same : other.operation = finalizing.operation) :
    Placed { s with finalizingOperations := before ++ after } (.removalObservers releasing :: others)
      (past ++ [some (.released finalizing.operation)]) := by
  have htold :=
    @told_silent _ past (some (.released finalizing.operation)) acceptedOperation rfl
  have hgone : told releasedOperation
      (past ++ [some (.released finalizing.operation)]) =
      told releasedOperation past ++ [finalizing.operation] := told_concat _ _
  have hmoved : (s.finalizingOperations.map FinalizingOperation.operation ++
      told releasedOperation past).Perm ((before ++ after).map FinalizingOperation.operation ++
        (told releasedOperation past ++ [finalizing.operation])) := by
    rw [found, map_append, map_append, map_cons, same]
    refine (perm_middle.append_right _).trans ?_
    rw [← append_assoc]
    exact (perm_append_singleton _ _).symm
  refine ⟨?_, ?_, ?_, ?_, ?_⟩
  · rw [htold]
    exact h.once
  · rw [htold, hgone]
    have hplaces := h.places
    rw [append_assoc] at hplaces ⊢
    exact hplaces.trans (hmoved.append_left _)
  · intro operation hmem
    rw [hgone] at hmem
    exact h.ended operation (hmoved.mem_iff.mpr hmem)
  · intro operation hmem
    exact h.ending operation hmem
  · intro operation hmem
    rw [htold]
    exact h.admitting operation hmem

/-- The start of pending operations, which puts them among the running ones. -/
theorem Placed.gathered {releasing : Option (Releasing Op)} {toStart left : List Op}
    (h : Placed s (.startPending releasing :: others) past)
    (parts : s.pendingOperations.Perm (toStart ++ left)) : Placed
      { s with pendingOperations := left, runningOperations := s.runningOperations ++ toStart }
      (.kickstart toStart releasing :: others) (past ++ [none]) := by
  refine ⟨?_, ?_, ?_, ?_, ?_⟩
  · rw [told_none]
    exact h.once
  · rw [told_none, told_none]
    refine h.places.trans ((Perm.append_right _ ?_).append_right _)
    refine (parts.append_right _).trans ?_
    refine (perm_append_comm.append_right _).trans ?_
    rw [append_assoc]
    exact perm_append_comm.append_left _
  · intro operation hmem
    rw [told_none] at hmem
    exact h.ended operation hmem
  · intro operation hmem
    exact h.ending operation hmem
  · intro operation hmem
    rw [told_none]
    exact h.admitting operation hmem

/-! ## Whose turn it is to finalize -/

theorem Owned.eq_of_ticket (h : Owned s frames) {a b : FinalizingOperation Op}
    (ha : a ∈ s.finalizingOperations) (hb : b ∈ s.finalizingOperations)
    (hticket : a.ticket = b.ticket) : a = b :=
  inj_on_of_nodup_map h.tickets (mem_append_right _ ha) (mem_append_right _ hb)
    hticket

theorem Owned.listed_of_mem (h : Owned s frames) (hmem : f ∈ frames)
    (howned : f.owned = some finalizing) :
    { finalizing with inProgress := true } ∈ s.finalizingOperations :=
  h.listed finalizing (mem_filterMap.mpr ⟨f, hmem, howned⟩)

/-- The object that a frame has in progress is the only one with its ticket. -/
theorem Owned.operation_eq (h : Owned s frames) (hmem : f ∈ frames)
    {finalizing other : FinalizingOperation Op} (howned : f.owned = some finalizing)
    (hother : other ∈ s.finalizingOperations) (hticket : other.ticket = finalizing.ticket) :
    other.operation = finalizing.operation := by
  rw [h.eq_of_ticket hother (h.listed_of_mem hmem howned) hticket]

/-- No other frame has the object of a frame in progress. -/
theorem Owned.apart {finalizing other : FinalizingOperation Op} (h : Owned s (f :: others))
    (howned : f.owned = some finalizing) (hother : other ∈ others.filterMap owned) :
    other.ticket ≠ finalizing.ticket := by
  have howners := h.owners
  rw [filterMap_cons_toList, howned] at howners
  have hnot := (nodup_cons.mp howners).1
  intro hticket
  exact hnot (hticket ▸ mem_map_of_mem hother)

theorem Owned.tail (h : Owned s (f :: others)) : Owned s others := by
  refine ⟨h.tickets, h.given, ?_, ?_⟩
  · have howners := h.owners
    rw [filterMap_cons_toList, map_append] at howners
    exact (nodup_append.mp howners).2.1
  · intro finalizing hmem
    refine h.listed finalizing ?_
    rw [filterMap_cons_toList]
    exact mem_append_right _ hmem

/-- A frame that has nothing in progress. -/
theorem Owned.next (h : Owned s others) {next : Option (Frame Op)}
    (hnext : next.bind owned = none) : Owned s (next.toList ++ others) := by
  have hsame : (next.toList ++ others).filterMap owned = others.filterMap owned := by
    rw [filterMap_next, hnext]
    rfl
  exact ⟨h.tickets, h.given, hsame ▸ h.owners, hsame ▸ h.listed⟩

theorem Owned.congr (h : Owned s frames) (same : SameLists s s') : Owned s' frames := by
  refine ⟨?_, ?_, h.owners, ?_⟩
  · rw [same.terminal, same.finalizing]
    exact h.tickets
  · rw [same.terminal, same.finalizing, same.tickets]
    exact h.given
  · rw [same.finalizing]
    exact h.listed

/-- A frame that keeps the object of the one before. -/
theorem Owned.keeps (h : Owned s (f :: others)) (howned : f'.owned = f.owned) :
    Owned s (f' :: others) := by
  have hsame : (f' :: others).filterMap owned = (f :: others).filterMap owned := by
    rw [filterMap_cons_toList, filterMap_cons_toList, howned]
  exact ⟨h.tickets, h.given, hsame ▸ h.owners, hsame ▸ h.listed⟩

theorem Owned.enqueue (h : Owned s frames) (operation : Op) (hasFinalizer : Bool) :
    Owned (s.enqueue operation hasFinalizer).1 frames := by
  refine ⟨?_, ?_, h.owners, h.listed⟩
  · show ((s.terminalFinalizers ++ [_] ++ s.finalizingOperations).map
      FinalizingOperation.ticket).Nodup
    rw [append_assoc]
    have hmoved : (s.terminalFinalizers ++ ([(⟨operation, hasFinalizer, s.tickets, false⟩ :
        FinalizingOperation Op)] ++ s.finalizingOperations)).Perm
        (⟨operation, hasFinalizer, s.tickets, false⟩ ::
          (s.terminalFinalizers ++ s.finalizingOperations)) := perm_middle
    refine ((hmoved.map _).nodup_iff).mpr (nodup_cons.mpr ⟨?_, h.tickets⟩)
    intro hmem
    obtain ⟨finalizing, hmem, hticket⟩ := mem_map.mp hmem
    have hlt := h.given finalizing hmem
    rw [hticket] at hlt
    exact absurd hlt (Nat.lt_irrefl _)
  · intro finalizing hmem
    have hmem' : finalizing ∈ s.terminalFinalizers ++ [_] ++ s.finalizingOperations := hmem
    simp only [append_assoc, mem_append, mem_singleton] at hmem'
    obtain hmem | rfl | hmem := hmem'
    · exact Nat.lt_succ_of_lt (h.given finalizing (mem_append_left _ hmem))
    · exact Nat.lt_succ_self _
    · exact Nat.lt_succ_of_lt (h.given finalizing (mem_append_right _ hmem))

theorem Owned.taken [DecidableEq Op] (h : Owned s frames)
    (registered : s.terminalFinalizers = before ++ finalizing :: after) : Owned { s with
        finalizingOperations := s.finalizingOperations ++ [finalizing]
        runningOperations := s.runningOperations.filter (· ≠ finalizing.operation)
        pendingOperations := s.pendingOperations.filter (· ≠ finalizing.operation)
        terminalFinalizers := before ++ after }
      frames := by
  have hmoved : (s.terminalFinalizers ++ s.finalizingOperations).Perm
      (before ++ after ++ (s.finalizingOperations ++ [finalizing])) := by
    rw [registered, ← append_assoc]
    refine (perm_middle.append_right _).trans ?_
    exact (perm_append_singleton _ _).symm
  refine ⟨((hmoved.map _).nodup_iff).mp h.tickets, ?_, h.owners, ?_⟩
  · intro other hmem
    exact h.given other (hmoved.mem_iff.mpr hmem)
  · intro other hmem
    exact mem_append_left _ (h.listed other hmem)

theorem mem_setInProgress {ticket : Nat} {inProgress : Bool}
    (hmem : finalizing ∈ s.finalizingOperations)
    (hkeeps : finalizing.ticket = ticket → finalizing.inProgress = inProgress) :
    finalizing ∈ (s.setInProgress ticket inProgress).finalizingOperations := by
  refine mem_map.mpr ⟨finalizing, hmem, ?_⟩
  split_ifs with hticket
  · rw [← hkeeps hticket]
  · rfl

theorem map_ticket_setInProgress (ticket : Nat) (inProgress : Bool) :
    (s.setInProgress ticket inProgress).finalizingOperations.map FinalizingOperation.ticket =
      s.finalizingOperations.map FinalizingOperation.ticket := by
  show (s.finalizingOperations.map _).map _ = _
  rw [map_map]
  refine map_congr_left fun finalizing _ => ?_
  show (if finalizing.ticket = ticket then _ else finalizing).ticket = _
  split <;> rfl

/-- The object of a ticket is put in progress, or out of it, by the thread that has it. -/
theorem Owned.setInProgress (h : Owned s frames) {ticket : Nat} {inProgress : Bool}
    (hkeeps : ∀ finalizing ∈ frames.filterMap owned, finalizing.ticket = ticket → inProgress) :
    Owned (s.setInProgress ticket inProgress) frames := by
  have hmoved : ∀ finalizing ∈ (s.setInProgress ticket inProgress).finalizingOperations,
      ∃ other ∈ s.finalizingOperations, other.ticket = finalizing.ticket := by
    intro finalizing hmem
    have hticket := mem_map_of_mem (f := FinalizingOperation.ticket) hmem
    rw [map_ticket_setInProgress] at hticket
    exact mem_map.mp hticket
  refine ⟨?_, ?_, h.owners, ?_⟩
  · have htickets := h.tickets
    rw [map_append] at htickets ⊢
    rw [map_ticket_setInProgress]
    exact htickets
  · intro finalizing hmem
    obtain hterminal | hfinalizing := mem_append.mp hmem
    · exact h.given finalizing (mem_append_left _ hterminal)
    · obtain ⟨other, hother, hticket⟩ := hmoved finalizing hfinalizing
      rw [← hticket]
      exact h.given other (mem_append_right _ hother)
  · intro finalizing hmem
    refine mem_setInProgress (h.listed finalizing hmem) fun hticket => ?_
    exact (hkeeps finalizing hmem hticket).symm

/-- An object that was not in progress. -/
theorem Owned.take (h : Owned s others) (hmem : finalizing ∈ s.finalizingOperations)
    (hidle : finalizing.inProgress = false) (howned : f'.owned = some finalizing) :
    Owned (s.setInProgress finalizing.ticket true) (f' :: others) := by
  have hset : Owned (s.setInProgress finalizing.ticket true) others :=
    h.setInProgress fun _ _ _ => rfl
  have hnew : (f' :: others).filterMap owned =
      finalizing :: others.filterMap owned := by
    rw [filterMap_cons_toList, howned]
    rfl
  refine ⟨hset.tickets, hset.given, ?_, ?_⟩
  · rw [hnew, map_cons]
    refine nodup_cons.mpr ⟨?_, h.owners⟩
    intro hother
    obtain ⟨other, hother, hticket⟩ := mem_map.mp hother
    have hsame := h.eq_of_ticket (h.listed other hother) hmem hticket
    rw [← hsame] at hidle
    exact absurd hidle.symm Bool.false_ne_true
  · rw [hnew]
    intro other hother
    obtain rfl | hother := mem_cons.mp hother
    · refine mem_map.mpr ⟨other, hmem, ?_⟩
      rw [if_pos rfl]
    · exact hset.listed other hother

theorem Owned.released {finalizing other : FinalizingOperation Op}
    (h : Owned s (.release finalizing decision :: others))
    (found : s.finalizingOperations = before ++ other :: after)
    (same : other.ticket = finalizing.ticket) :
    Owned { s with finalizingOperations := before ++ after }
      (.removalObservers releasing :: others) := by
  have hsub : (before ++ after).Sublist s.finalizingOperations := by
    rw [found]
    exact (sublist_cons_self other after).append_left before
  refine ⟨?_, ?_, h.tail.owners, ?_⟩
  · exact h.tickets.sublist ((hsub.append_left _).map _)
  · intro fin hmem
    exact h.given fin ((hsub.append_left _).subset hmem)
  · intro fin hmem
    have hlisted := h.tail.listed fin hmem
    have hapart : fin.ticket ≠ finalizing.ticket := h.apart rfl hmem
    rw [found] at hlisted
    obtain hbefore | hafter := mem_append.mp hlisted
    · exact mem_append_left _ hbefore
    · obtain hsame | hafter := mem_cons.mp hafter
      · exact absurd (congrArg FinalizingOperation.ticket hsame |>.trans same) hapart
      · exact mem_append_right _ hafter

/-! ## What is to be started and to be completed -/

theorem mem_told {select : Report Op → Option Op} {report : Report Op} (hmem : some report ∈ past)
    (hselect : select report = some operation) : operation ∈ told select past :=
  mem_filterMap.mpr ⟨some report, hmem, hselect⟩

theorem mem_told_concat {select : Report Op → Option Op} (report : Option (Report Op))
    (hmem : operation ∈ told select past) : operation ∈ told select (past ++ [report]) := by
  rw [told_concat]
  exact mem_append_left _ hmem

/-- A step that takes nothing up, and starts no operation itself. -/
theorem Starts.quiet (h : Starts s (f :: others) past)
    (hpending : s'.pendingOperations.Sublist s.pendingOperations) {next : Option (Frame Op)}
    (hnext : (next.toList.flatMap Frame.toStart).Sublist f.toStart)
    (hstarted : report.bind startedOperation = none) :
    Starts s' (next.toList ++ others) (past ++ [report]) := by
  have hsub : (told startedOperation (past ++ [report]) ++
      (next.toList ++ others).flatMap Frame.toStart).Sublist
        (told startedOperation past ++ (f :: others).flatMap Frame.toStart) := by
    rw [told_concat, hstarted, toList_none, append_nil, flatMap_append, flatMap_cons]
    exact (hnext.append_right _).append_left _
  refine ⟨h.once.sublist hsub, ?_⟩
  intro operation hmem
  obtain ⟨haccepted, hnot⟩ := h.taken operation (hsub.subset hmem)
  exact ⟨mem_told_concat report haccepted, fun hleft => hnot (hpending.subset hleft)⟩

/-- A frame with some of the operations of the one before. -/
theorem Starts.keeps (h : Starts s (f :: others) past) (hkept : f'.toStart.Sublist f.toStart) :
    Starts s (f' :: others) (past ++ [none]) := by
  show Starts s ((some f').toList ++ others) (past ++ [none])
  refine h.quiet (.refl _) ?_ rfl
  show (f'.toStart ++ []).Sublist f.toStart
  rw [append_nil]
  exact hkept

theorem Starts.enqueue {hasFinalizer : Bool}
    (h : Starts s (.enqueue operation hasFinalizer :: others) past)
    (hnew : operation ∉ told acceptedOperation past) :
    Starts (s.enqueue operation hasFinalizer).1 (.additionObservers :: others)
      (past ++ [some (.accepted operation)]) := by
  have hsame := @told_silent _ past (some (.accepted operation)) startedOperation rfl
  refine ⟨?_, ?_⟩
  · rw [hsame]
    exact h.once
  · intro other hmem
    rw [hsame] at hmem
    obtain ⟨haccepted, hnot⟩ := h.taken other hmem
    refine ⟨mem_told_concat _ haccepted, ?_⟩
    intro hpending
    obtain hold | hsingle := mem_append.mp hpending
    · exact hnot hold
    · exact hnew (mem_singleton.mp hsingle ▸ haccepted)

theorem Starts.gathered {releasing : Option (Releasing Op)} {toStart left : List Op}
    (h : Starts s (.startPending releasing :: others) past)
    (hplaced : Placed s (.startPending releasing :: others) past)
    (parts : s.pendingOperations.Perm (toStart ++ left)) : Starts
      { s with pendingOperations := left, runningOperations := s.runningOperations ++ toStart }
      (.kickstart toStart releasing :: others) (past ++ [none]) := by
  have hpending : (toStart ++ left).Nodup := by
    refine parts.nodup_iff.mp ?_
    exact (nodup_append.mp (nodup_append.mp (nodup_append.mp hplaced.nodup).1).1).1
  have hold : ∀ operation ∈ told startedOperation past ++ others.flatMap Frame.toStart,
      operation ∈ told acceptedOperation past ∧ operation ∉ toStart ++ left := by
    intro operation hmem
    obtain ⟨haccepted, hnot⟩ := h.taken operation hmem
    exact ⟨haccepted, fun hmem => hnot (parts.mem_iff.mpr hmem)⟩
  have hmoved : (told startedOperation past ++ (toStart ++ others.flatMap Frame.toStart)).Perm
        (toStart ++ (told startedOperation past ++ others.flatMap Frame.toStart)) :=
    perm_append_comm_assoc _ _ _
  refine ⟨?_, ?_⟩
  · rw [told_none]
    refine hmoved.nodup_iff.mpr (nodup_append.mpr ⟨(nodup_append.mp hpending).1, h.once, ?_⟩)
    intro a ha b hb hab
    exact (hold b hb).2 (mem_append_left _ (hab ▸ ha))
  · intro operation hmem
    rw [told_none] at hmem ⊢
    obtain hstart | hbefore := mem_append.mp (hmoved.mem_iff.mp hmem)
    · refine ⟨?_, fun hleft => (nodup_append.mp hpending).2.2 _ hstart _ hleft rfl⟩
      refine hplaced.places.mem_iff.mpr ?_
      simp only [mem_append]
      exact .inl (.inl (.inl (parts.mem_iff.mpr (mem_append_left _ hstart))))
    · exact ⟨(hold operation hbefore).1,
        fun hleft => (hold operation hbefore).2 (mem_append_right _ hleft)⟩

theorem Starts.started {rest : List Op} {releasing : Option (Releasing Op)}
    (h : Starts s (.start operation rest releasing :: others) past)
    (hpending : s'.pendingOperations = s.pendingOperations) :
    Starts s' (.startObservers rest releasing :: others) (past ++ [some (.started operation)]) := by
  have hsame : told startedOperation (past ++ [some (.started operation)]) ++
      (startObservers rest releasing :: others).flatMap Frame.toStart =
      told startedOperation past ++
        (start operation rest releasing :: others).flatMap Frame.toStart := by
    rw [told_concat, append_assoc]
    rfl
  refine ⟨hsame ▸ h.once, ?_⟩
  intro other hmem
  rw [hsame] at hmem
  obtain ⟨haccepted, hnot⟩ := h.taken other hmem
  rw [hpending]
  exact ⟨mem_told_concat _ haccepted, hnot⟩

/-- A step that neither releases an operation nor runs the callback. -/
theorem Completions.quiet (h : Completions (f :: others) past) {next : Option (Frame Op)}
    (hnext : next.bind Frame.releasing = none ∨ next.bind Frame.releasing = f.releasing)
    (hcompleted : report.bind completedOperation = none) :
    Completions (next.toList ++ others) (past ++ [report]) := by
  have hsame := @told_silent _ past report _ hcompleted
  have hsub : ((next.toList ++ others).filterMap Frame.releasing).Sublist
      ((f :: others).filterMap Frame.releasing) := by
    rw [filterMap_next, filterMap_cons_toList]
    obtain hnone | hkept := hnext
    · rw [hnone]
      exact sublist_append_right _ _
    · rw [hkept]
  have hwhole := (hsub.map operation).append_left
    (told completedOperation past)
  refine ⟨?_, ?_, ?_⟩
  · rw [hsame]
    exact h.once.sublist hwhole
  · intro operation hmem
    rw [hsame] at hmem
    exact mem_told_concat report (h.released operation (hwhole.subset hmem))
  · intro releasing hmem hreport
    exact mem_append_left _ (h.reporting releasing (hsub.subset hmem) hreport)

theorem Completions.release (h : Completions (.release finalizing decision :: others) past)
    (hnew : finalizing.operation ∉ told releasedOperation past)
    (hdecided : some (.decided finalizing.operation decision) ∈ past) : Completions
      (.removalObservers
        { operation := finalizing.operation, reportCompletion := decision = .release } :: others)
      (past ++ [some (.released finalizing.operation)]) := by
  have hsame :=
    @told_silent _ past (some (.released finalizing.operation)) completedOperation rfl
  have hgone : told releasedOperation (past ++ [some (.released finalizing.operation)]) =
      told releasedOperation past ++ [finalizing.operation] := told_concat _ _
  have hmoved := @List.perm_middle _ finalizing.operation
    (told completedOperation past) ((others.filterMap Frame.releasing).map operation)
  refine ⟨?_, ?_, ?_⟩
  · rw [hsame]
    refine hmoved.nodup_iff.mpr (nodup_cons.mpr ⟨fun hmem => hnew ?_, h.once⟩)
    exact h.released _ hmem
  · intro operation hmem
    rw [hsame] at hmem
    rw [hgone]
    obtain rfl | hold := mem_cons.mp (hmoved.mem_iff.mp hmem)
    · exact mem_append_right _ mem_cons_self
    · exact mem_append_left _ (h.released operation hold)
  · intro releasing hmem hreport
    obtain rfl | hold := mem_cons.mp hmem
    · rw [of_decide_eq_true hreport] at hdecided
      exact mem_append_left _ hdecided
    · exact mem_append_left _ (h.reporting releasing hold hreport)

theorem Completions.completes (h : Completions (.complete releasing :: others) past) :
    Completions (.completionCallback releasing :: others)
      (past ++ [some (.completionRuns releasing.operation)]) := by
  have hsame : told completedOperation
      (past ++ [some (.completionRuns releasing.operation)]) ++
        ((completionCallback releasing :: others).filterMap Frame.releasing).map
          operation = told completedOperation past ++
        ((Frame.complete releasing :: others).filterMap Frame.releasing).map
          operation := by
    rw [told_concat, append_assoc]
    rfl
  refine ⟨hsame ▸ h.once, ?_, ?_⟩
  · intro operation hmem
    rw [hsame] at hmem
    exact mem_told_concat _ (h.released operation hmem)
  · intro other hmem hreport
    exact mem_append_left _ (h.reporting other (mem_cons_of_mem _ hmem) hreport)

/-! ## What is decided, and who wakes the pending operations up -/

theorem mem_concat_some {r : Report Op} (h : some r ∈ past ++ [report]) :
    some r ∈ past ∨ report = some r := by
  obtain hpast | hlast := mem_append.mp h
  · exact .inl hpast
  · exact .inr (mem_singleton.mp hlast).symm

/-- The frames that come instead of one, with what they have decided. -/
theorem Decisions.concat (h : Decisions (f :: others) past) {next : List (Frame Op)}
    (hnext : ∀ finalizing decision, .release finalizing decision ∈ next →
      some (.decided finalizing.operation decision) ∈ past ++ [report])
    (hf : ∀ finalizing decision, f = .release finalizing decision →
      finalizing.operation ∈ told releasedOperation (past ++ [report]))
    (hreport : ∀ operation decision, report = some (.decided operation decision) →
      decision ≠ .retain → ∃ finalizing decision, .release finalizing decision ∈ next ∧
        finalizing.operation = operation) : Decisions (next ++ others) (past ++ [report]) := by
  refine ⟨?_, ?_⟩
  · intro finalizing decision hmem
    obtain hnew | hold := mem_append.mp hmem
    · exact hnext finalizing decision hnew
    · exact mem_append_left _ (h.deciding finalizing decision (mem_cons_of_mem _ hold))
  · intro operation decision hmem hletsGo
    obtain hpast | hlast := mem_concat_some hmem
    · obtain hreleased | ⟨finalizing, d, hframe, rfl⟩ := h.letGo operation decision hpast hletsGo
      · exact .inl (mem_told_concat report hreleased)
      · obtain hhead | hframe := mem_cons.mp hframe
        · exact .inl (hf finalizing d hhead.symm)
        · exact .inr ⟨finalizing, d, mem_append_right _ hframe, rfl⟩
    · obtain ⟨finalizing, d, hframe, hsame⟩ := hreport operation decision hlast hletsGo
      exact .inr ⟨finalizing, d, mem_append_left _ hframe, hsame⟩

/-- A step outside a release, with no decision to release. -/
theorem Decisions.quiet (h : Decisions (f :: others) past) {next : Option (Frame Op)}
    (hf : ∀ finalizing decision, f ≠ .release finalizing decision)
    (hnext : ∀ finalizing decision, next ≠ some (.release finalizing decision))
    (hreport : ∀ operation decision, report = some (.decided operation decision) → decision = .retain) :
    Decisions (next.toList ++ others) (past ++ [report]) :=
  h.concat (fun finalizing d hmem => absurd (mem_toList.mp hmem) (hnext finalizing d))
    (fun finalizing d heq => absurd heq (hf finalizing d))
    fun operation d heq hletsGo => absurd (hreport operation d heq) hletsGo

/-- A decision to release. -/
theorem Decisions.decides (h : Decisions (f :: others) past)
    (hf : ∀ finalizing decision, f ≠ .release finalizing decision)
    (finalizing : FinalizingOperation Op) (decision : PoolTerminalFinalizationDecision) :
    Decisions (.release finalizing decision :: others)
      (past ++ [some (.decided finalizing.operation decision)]) := by
  refine @Decisions.concat _ f others past _ h [.release finalizing decision] ?_
    (fun other d heq => absurd heq (hf other d)) ?_
  · intro other d hmem
    obtain ⟨rfl, rfl⟩ := release.inj (mem_singleton.mp hmem)
    exact mem_append_right _ mem_cons_self
  · intro operation d heq _
    exact ⟨finalizing, decision, mem_cons_self, (decided.inj (some.inj heq)).1⟩

theorem Decisions.release (h : Decisions (.release finalizing decision :: others) past) :
    Decisions (.removalObservers releasing :: others)
      (past ++ [some (.released finalizing.operation)]) := by
  refine @Decisions.concat _ _ others past _ h [.removalObservers releasing] ?_ ?_ ?_
  · exact fun other d hmem => nomatch mem_singleton.mp hmem
  · intro other d heq
    obtain ⟨rfl, -⟩ := release.inj heq
    rw [told_concat]
    exact mem_append_right _ mem_cons_self
  · exact fun operation d heq => nomatch heq

/-- The frames that wake up still do while the operations that finalize stay. -/
theorem wakes_mono (hfinalizing : ∀ operation, s.isFinalizing operation → s'.isFinalizing operation)
    (h : f.wakes s) : f.wakes s' := by
  cases f with
  | retry operation inFinish => exact ⟨h.1, hfinalizing operation h.2⟩
  | _ => exact h

/-- A step that changes no list, and passes on the task to wake up. -/
theorem Staffed.quiet (h : Staffed settings s (f :: others)) (same : SamePlaces s s')
    {next : Option (Frame Op)} (hf : f.wakes s → ∃ f', next = some f' ∧ f'.wakes s') :
    Staffed settings s' (next.toList ++ others) := by
  have hfinalizing : ∀ operation, s.isFinalizing operation → s'.isFinalizing operation := by
    intro operation hmem
    unfold Pool.isFinalizing
    rw [same.finalizing]
    exact hmem
  obtain hdown | hfull | hnone | ⟨g, hmem, hwakes⟩ := h
  · exact .inl (same.down hdown)
  · exact .inr (.inl (same.running ▸ hfull))
  · exact .inr (.inr (.inl (same.pending ▸ hnone)))
  · refine .inr (.inr (.inr ?_))
    obtain rfl | hmem := mem_cons.mp hmem
    · obtain ⟨f', rfl, hwakes'⟩ := hf hwakes
      exact ⟨f', mem_cons_self, hwakes'⟩
    · exact ⟨g, mem_append_right _ hmem, wakes_mono hfinalizing hwakes⟩

theorem staffed_of_next (hwakes : f'.wakes s) : Staffed settings s (f' :: others) :=
  .inr (.inr (.inr ⟨f', mem_cons_self, hwakes⟩))

/-! ## One step -/

variable [DecidableEq Op]

theorem Placed.advance (h : Placed s (f :: others) past) (howned : Owned s (f :: others))
    (hadvances : Advances settings s f result)
    (hapart : f.holds .lock → ∀ g ∈ others, g.holds .lock = false) :
    Placed result.1 (result.2.1.toList ++ others) (past ++ [result.2.2]) := by
  cases hadvances with
  | admitted operation hasFinalizer running pending finalizing cold =>
    have hnew := h.not_accepted running pending finalizing cold
    refine ⟨?_, ?_, ?_, ?_, ?_⟩
    all_goals simp only [told_concat, Option.bind_none, toList_none, append_nil]
    · exact h.once
    · exact h.places
    · exact h.ended
    · exact h.ending
    · intro other hmem
      obtain rfl | hmem := mem_cons.mp hmem
      · exact hnew
      · exact h.admitting other hmem
  | enqueued operation hasFinalizer => exact h.enqueue (hapart rfl)
  | gathered releasing toStart left parts full => exact h.gathered parts
  | taken finalizing before after listed registered => exact h.taken listed
  | released finalizing other decision before after found same =>
    have hmem : other ∈ s.finalizingOperations := found ▸ mem_append_cons_self
    exact h.released found (howned.operation_eq mem_cons_self rfl hmem same)
  | finishes operation completed s' same now =>
    refine h.quiet same.places ?_ rfl rfl rfl
    intro other hother
    rw [← some.inj hother]
    exact now
  | told operation =>
    refine h.quiet (samePlaces_refl s) ?_ rfl rfl rfl
    intro other hother
    rw [← some.inj hother]
    exact h.ending operation mem_cons_self
  | shutOut releasing _ | allStarted releasing =>
    refine h.quiet (samePlaces_refl s) ?_ ?_ rfl rfl <;> cases releasing <;> simp [afterStart, Frame.ending, Frame.admitting]
  | busy _ inFinish =>
    refine h.quiet (samePlaces_refl s) ?_ ?_ rfl rfl <;> cases inFinish <;> simp [afterRetry, Frame.ending, Frame.admitting]
  | retained finalizing inFinish found =>
    refine h.quiet (samePlaces_setInProgress _ _) ?_ ?_ rfl rfl <;> cases inFinish <;> simp [afterRetry, Frame.ending, Frame.admitting]
  | run finalizing inFinish mem idle | unfinalized finalizing inFinish mem idle =>
    exact h.quiet (samePlaces_setInProgress _ _) (fun _ hnone => by cases hnone) rfl rfl rfl
  | started operation rest releasing s' same | shutdown s' same =>
    exact h.quiet same.places (fun _ hnone => by cases hnone) rfl rfl rfl
  | turns operation state s' same =>
    exact h.quiet same.places (fun _ hnone => by cases hnone) rfl rfl rfl
  | refused | added | nextStart | skipped | opened | startTold | notTaken | notFinalizing | keeps
  | lets | retainedNone | releasedNone | removed | completes | completesNone | completed
  | shutdownDone | alreadyEnded | untold =>
    exact h.quiet (samePlaces_refl s) (fun _ hnone => by cases hnone) rfl rfl rfl

theorem Owned.advance (h : Owned s (f :: others)) (hadvances : Advances settings s f result) :
    Owned result.1 (result.2.1.toList ++ others) := by
  cases hadvances with
  | enqueued operation hasFinalizer => exact h.tail.enqueue operation hasFinalizer |>.next rfl
  | gathered releasing toStart left parts full =>
    have hsame : Owned
        { s with pendingOperations := left, runningOperations := s.runningOperations ++ toStart }
        others := ⟨h.tail.tickets, h.tail.given, h.tail.owners, h.tail.listed⟩
    exact hsame.next rfl
  | taken finalizing before after listed registered => exact (h.tail.taken registered).next rfl
  | run finalizing inFinish mem idle | unfinalized finalizing inFinish mem idle =>
    exact h.tail.take mem idle rfl
  | keeps finalizing inFinish | lets finalizing inFinish decision _ => exact h.keeps rfl
  | retained finalizing inFinish found =>
    refine (h.tail.setInProgress ?_).next (by cases inFinish <;> rfl)
    intro other hother hticket
    exact absurd hticket (h.apart rfl hother)
  | released finalizing other decision before after found same => exact h.released found same
  | started operation rest releasing s' same | shutdown s' same =>
    exact (h.tail.congr same).next rfl
  | finishes operation completed s' same now => exact (h.tail.congr same).next rfl
  | turns operation state s' same => exact (h.tail.congr same).next rfl
  | shutOut releasing _ | allStarted releasing => exact h.tail.next (by cases releasing <;> rfl)
  | busy _ inFinish => exact h.tail.next (by cases inFinish <;> rfl)
  | refused | admitted | added | nextStart | skipped | opened | startTold | notTaken
  | notFinalizing | retainedNone | releasedNone | removed | completes | completesNone | completed
  | shutdownDone | alreadyEnded | told | untold => exact h.tail.next rfl

omit [DecidableEq Op] in
/-- The object that a frame has in progress is found again. -/
theorem Owned.has (h : Owned s (f :: others)) (howned : f.owned = some finalizing) :
    s.has finalizing :=
  mem_map.mpr ⟨_, h.listed_of_mem mem_cons_self howned, rfl⟩

theorem Starts.advance (h : Starts s (f :: others) past) (hplaced : Placed s (f :: others) past)
    (hadvances : Advances settings s f result) :
    Starts result.1 (result.2.1.toList ++ others) (past ++ [result.2.2]) := by
  cases hadvances with
  | enqueued operation hasFinalizer =>
    exact h.enqueue (hplaced.admitting operation mem_cons_self)
  | gathered releasing toStart left parts full => exact h.gathered hplaced parts
  | started operation rest releasing s' same => exact h.started same.pending
  | taken finalizing before after listed registered =>
    exact h.quiet filter_sublist (nil_sublist _) rfl
  | skipped operation rest releasing => exact h.keeps (sublist_cons_self operation rest)
  | nextStart operation rest releasing | opened operation rest releasing =>
    exact h.keeps (.refl _)
  | startTold rest releasing => exact h.keeps (.refl _)
  | shutdown s' same => exact h.quiet (same.pending ▸ .refl _) (nil_sublist _) rfl
  | finishes operation completed s' same now =>
    exact h.quiet (same.pending ▸ .refl _) (nil_sublist _) rfl
  | turns operation state s' same =>
    exact h.quiet (same.pending ▸ .refl _) (nil_sublist _) rfl
  | shutOut releasing _ | allStarted releasing =>
    exact h.quiet (.refl _) (by cases releasing <;> exact nil_sublist _) rfl
  | busy _ inFinish => exact h.quiet (.refl _) (by cases inFinish <;> exact nil_sublist _) rfl
  | retained finalizing inFinish found =>
    refine h.quiet ?_ (by cases inFinish <;> exact nil_sublist _) rfl
    exact Sublist.refl s.pendingOperations
  | run | unfinalized | released =>
    refine h.quiet ?_ (nil_sublist _) rfl
    exact Sublist.refl s.pendingOperations
  | refused | admitted | added | notTaken | notFinalizing | keeps | lets | retainedNone
  | releasedNone | removed | completes | completesNone | completed | shutdownDone | alreadyEnded
  | told | untold => exact h.quiet (.refl _) (nil_sublist _) rfl

theorem Completions.advance (h : Completions (f :: others) past)
    (hplaced : Placed s (f :: others) past) (howned : Owned s (f :: others))
    (hdecisions : Decisions (f :: others) past) (hadvances : Advances settings s f result) :
    Completions (result.2.1.toList ++ others) (past ++ [result.2.2]) := by
  cases hadvances with
  | released finalizing other decision before after found same =>
    have hmem : other ∈ s.finalizingOperations := found ▸ mem_append_cons_self
    have hsame := howned.operation_eq mem_cons_self rfl hmem same
    refine h.release ?_ (hdecisions.deciding finalizing decision mem_cons_self)
    intro hgone
    have hfinalizing : finalizing.operation ∈
        s.finalizingOperations.map FinalizingOperation.operation :=
      mem_map.mpr ⟨other, hmem, hsame⟩
    exact (nodup_append.mp hplaced.nodup).2.2 _ (mem_append_right _ hfinalizing)
      _ hgone rfl
  | removed releasing error =>
    have hsame : Completions
        ((some (.startPending (some releasing))).toList ++ others) (past ++ [none]) :=
      h.quiet (.inr rfl) rfl
    refine ⟨hsame.once, hsame.released, ?_⟩
    intro other hmem hreport
    obtain rfl | hmem := mem_cons.mp hmem
    · exact hsame.reporting releasing mem_cons_self hreport
    · exact hsame.reporting other (mem_cons_of_mem _ hmem) hreport
  | completes releasing reports => exact h.completes
  | shutOut releasing _ | allStarted releasing =>
    exact h.quiet (by cases releasing <;> exact .inr rfl) rfl
  | busy _ inFinish => exact h.quiet (by cases inFinish <;> exact .inl rfl) rfl
  | retained finalizing inFinish found => exact h.quiet (by cases inFinish <;> exact .inl rfl) rfl
  | gathered | nextStart | skipped | opened | started | startTold => exact h.quiet (.inr rfl) rfl
  | refused | admitted | enqueued | added | notTaken | taken | notFinalizing | run | unfinalized
  | keeps | lets | retainedNone | releasedNone | completesNone | completed | shutdown
  | shutdownDone | alreadyEnded | finishes | told | untold | turns => exact h.quiet (.inl rfl) rfl

theorem Decisions.advance (h : Decisions (f :: others) past) (howned : Owned s (f :: others))
    (hadvances : Advances settings s f result) :
    Decisions (result.2.1.toList ++ others) (past ++ [result.2.2]) := by
  cases hadvances with
  | unfinalized finalizing inFinish mem idle =>
    exact h.decides (fun _ _ => nofun) finalizing .release
  | lets finalizing inFinish decision letsGo =>
    exact h.decides (fun _ _ => nofun) finalizing decision
  | released finalizing other decision before after found same => exact h.release
  | releasedNone finalizing decision missing => exact absurd (howned.has rfl) missing
  | keeps finalizing inFinish =>
    refine h.quiet (fun _ _ => nofun) (fun _ _ => nofun) ?_
    intro operation decision heq
    exact (decided.inj (some.inj heq)).2.symm
  | shutOut releasing _ | allStarted releasing =>
    exact h.quiet (fun _ _ => nofun) (fun _ _ => by cases releasing <;> exact nofun)
      fun _ _ => nofun
  | busy _ inFinish | retained _ inFinish _ =>
    exact h.quiet (fun _ _ => nofun) (fun _ _ => by cases inFinish <;> exact nofun)
      fun _ _ => nofun
  | refused | admitted | enqueued | added | gathered | nextStart | skipped | opened | started
  | startTold | notTaken | taken | notFinalizing | run | retainedNone | removed | completes
  | completesNone | completed | shutdown | shutdownDone | alreadyEnded | finishes | told | untold
  | turns => exact h.quiet (fun _ _ => nofun) (fun _ _ => nofun) fun _ _ => nofun

theorem Staffed.advance (h : Staffed settings s (f :: others)) (howned : Owned s (f :: others))
    (hadvances : Advances settings s f result) :
    Staffed settings result.1 (result.2.1.toList ++ others) := by
  cases hadvances with
  | enqueued | added | removed | lets | unfinalized | released => exact staffed_of_next trivial
  | shutOut releasing down => exact .inl down
  | gathered releasing toStart left parts full =>
    obtain hfull | hnone := full
    · exact .inr (.inl hfull)
    · exact .inr (.inr (.inl hnone))
  | taken finalizing before after listed registered =>
    refine staffed_of_next ⟨rfl, ?_⟩
    show _ ∈ (s.finalizingOperations ++ [finalizing]).map FinalizingOperation.operation
    rw [map_append]
    exact mem_append_right _ mem_cons_self
  | notFinalizing operation inFinish missing =>
    exact h.quiet (samePlaces_refl s) fun hwakes => absurd hwakes.2 missing
  | busy operation inFinish =>
    refine h.quiet (samePlaces_refl s) fun hwakes => ⟨.startPending none, ?_, trivial⟩
    rw [hwakes.1]
    rfl
  | run finalizing inFinish mem idle =>
    exact h.quiet (samePlaces_setInProgress _ _) fun hwakes => ⟨_, rfl, hwakes.1⟩
  | keeps finalizing inFinish =>
    exact h.quiet (samePlaces_refl s) fun hwakes => ⟨_, rfl, hwakes⟩
  | retained finalizing inFinish found =>
    refine h.quiet (samePlaces_setInProgress _ _) fun hwakes => ⟨.startPending none, ?_, trivial⟩
    rw [show inFinish from hwakes]
    rfl
  | retainedNone finalizing inFinish missing => exact absurd (howned.has rfl) missing
  | releasedNone finalizing decision missing => exact absurd (howned.has rfl) missing
  | started operation rest releasing s' same | shutdown s' same =>
    exact h.quiet same.places fun hwakes => hwakes.elim
  | finishes operation completed s' same now => exact h.quiet same.places fun hwakes => hwakes.elim
  | turns operation state s' same => exact h.quiet same.places fun hwakes => hwakes.elim
  | refused | admitted | allStarted | nextStart | skipped | opened | startTold | notTaken
  | completes | completesNone | completed | shutdownDone | alreadyEnded | told | untold =>
    exact h.quiet (samePlaces_refl s) fun hwakes => hwakes.elim

/-- What is reported meets the condition on the reports before it. -/
theorem admissible_advance (hplaced : Placed s (f :: others) past) (howned : Owned s (f :: others))
    (hstarts : Starts s (f :: others) past) (hcompletions : Completions (f :: others) past)
    (hdecisions : Decisions (f :: others) past) (hadvances : Advances settings s f result) :
    Admissible past result.2.2 := by
  cases hadvances with
  | started operation rest releasing s' same =>
    intro hmem
    exact (nodup_append.mp hstarts.once).2.2 _ (mem_told hmem rfl) _ mem_cons_self rfl
  | run finalizing inFinish mem idle =>
    intro decision hdecided
    by_contra hletsGo
    have hfinalizing : finalizing.operation ∈
        s.finalizingOperations.map FinalizingOperation.operation := mem_map_of_mem mem
    obtain hgone | ⟨other, d, hframe, hsame⟩ := hdecisions.letGo _ decision hdecided hletsGo
    · exact (nodup_append.mp hplaced.nodup).2.2 _ (mem_append_right _ hfinalizing)
        _ hgone rfl
    · -- The object of the release is in progress, and this one is not.
      have hlisted := howned.listed_of_mem hframe rfl
      have hoperations := (nodup_append.mp (nodup_append.mp hplaced.nodup).1).2.1
      have hequal := inj_on_of_nodup_map hoperations hlisted mem hsame
      rw [← hequal] at idle
      exact absurd idle.symm Bool.false_ne_true
  | completes releasing reports =>
    refine ⟨hcompletions.reporting releasing mem_cons_self reports, ?_⟩
    intro hmem
    exact (nodup_append.mp hcompletions.once).2.2 _ (mem_told hmem rfl) _
      mem_cons_self rfl
  | refused | admitted | enqueued | added | shutOut | gathered | allStarted | nextStart | skipped
  | opened | startTold | notTaken | taken | notFinalizing | busy | unfinalized | keeps | lets
  | retained | retainedNone | released | releasedNone | removed | completesNone | completed
  | shutdown | shutdownDone | alreadyEnded | finishes | told | untold | turns => trivial

/-! ## Runs -/

/-- The invariant of the pool, of the frames of all threads and of the reports so far. -/
structure Inv (settings : Settings) (s : Pool Op) (frames : List (Frame Op))
    (past : List (Option (Report Op))) : Prop where
  placed : Placed s frames past
  owned : Owned s frames
  starts : Starts s frames past
  completions : Completions frames past
  decisions : Decisions frames past
  staffed : Staffed settings s frames
  history : Each Admissible past

theorem Inv.advance (h : Inv settings s (f :: others) past)
    (hadvances : Advances settings s f result)
    (hapart : f.holds .lock → ∀ g ∈ others, g.holds .lock = false) :
    Inv settings result.1 (result.2.1.toList ++ others) (past ++ [result.2.2]) where
  placed := h.placed.advance h.owned hadvances hapart
  owned := h.owned.advance hadvances
  starts := h.starts.advance h.placed hadvances
  completions := h.completions.advance h.placed h.owned h.decisions hadvances
  decisions := h.decisions.advance h.owned hadvances
  staffed := h.staffed.advance h.owned hadvances
  history := h.history.concat
    (admissible_advance h.placed h.owned h.starts h.completions h.decisions hadvances)

omit [DecidableEq Op] in
theorem Inv.reorder {frames frames' : List (Frame Op)} (hperm : frames.Perm frames')
    (h : Inv settings s frames past) : Inv settings s frames' past where
  placed := ⟨h.placed.once, h.placed.places, h.placed.ended,
    fun operation hmem => h.placed.ending operation ((hperm.filterMap _).mem_iff.mpr hmem),
    fun operation hmem => h.placed.admitting operation ((hperm.filterMap _).mem_iff.mpr hmem)⟩
  owned := ⟨h.owned.tickets, h.owned.given, ((hperm.filterMap _).map _).nodup_iff.mp h.owned.owners,
    fun finalizing hmem => h.owned.listed finalizing ((hperm.filterMap _).mem_iff.mpr hmem)⟩
  starts := ⟨((hperm.flatMap_right _).append_left _).nodup_iff.mp h.starts.once,
    fun operation hmem => h.starts.taken operation
      (((hperm.flatMap_right _).append_left _).mem_iff.mpr hmem)⟩
  completions := ⟨(((hperm.filterMap _).map _).append_left _).nodup_iff.mp h.completions.once,
    fun operation hmem => h.completions.released operation
      ((((hperm.filterMap _).map _).append_left _).mem_iff.mpr hmem),
    fun releasing hmem => h.completions.reporting releasing ((hperm.filterMap _).mem_iff.mpr hmem)⟩
  decisions := by
    refine ⟨fun finalizing decision hmem =>
      h.decisions.deciding finalizing decision (hperm.mem_iff.mpr hmem), ?_⟩
    intro operation decision hmem hletsGo
    obtain hgone | ⟨finalizing, d, hframe, hsame⟩ := h.decisions.letGo operation decision hmem hletsGo
    · exact .inl hgone
    · exact .inr ⟨finalizing, d, hperm.mem_iff.mp hframe, hsame⟩
  staffed := by
    obtain hdown | hfull | hnone | ⟨f, hmem, hwakes⟩ := h.staffed
    · exact .inl hdown
    · exact .inr (.inl hfull)
    · exact .inr (.inr (.inl hnone))
    · exact .inr (.inr (.inr ⟨f, hperm.mem_iff.mp hmem, hwakes⟩))
  history := h.history

omit [DecidableEq Op] in
/-- A frame that has nothing to do with the operations yet. -/
theorem Inv.idle (h : Inv settings s frames past) (hending : f.ending = none)
    (hadmitting : f.admitting = none) (howned : f.owned = none) (htoStart : f.toStart = [])
    (hreleasing : f.releasing = none) : Inv settings s (f :: frames) past where
  placed := by
    refine ⟨h.placed.once, h.placed.places, h.placed.ended, ?_, ?_⟩
    · rw [filterMap_cons_toList, hending]
      exact h.placed.ending
    · rw [filterMap_cons_toList, hadmitting]
      exact h.placed.admitting
  owned := by
    refine ⟨h.owned.tickets, h.owned.given, ?_, ?_⟩
    · rw [filterMap_cons_toList, howned]
      exact h.owned.owners
    · rw [filterMap_cons_toList, howned]
      exact h.owned.listed
  starts := by
    have hsame : (f :: frames).flatMap Frame.toStart = frames.flatMap Frame.toStart := by
      rw [flatMap_cons, htoStart, nil_append]
    exact ⟨hsame ▸ h.starts.once, hsame ▸ h.starts.taken⟩
  completions := by
    have hsame : (f :: frames).filterMap Frame.releasing = frames.filterMap Frame.releasing := by
      rw [filterMap_cons_toList, hreleasing]
      rfl
    exact ⟨hsame ▸ h.completions.once, hsame ▸ h.completions.released,
      hsame ▸ h.completions.reporting⟩
  decisions := by
    refine ⟨?_, ?_⟩
    · intro finalizing decision hmem
      obtain rfl | hmem := mem_cons.mp hmem
      · cases howned
      · exact h.decisions.deciding finalizing decision hmem
    · intro operation decision hmem hletsGo
      rcases h.decisions.letGo operation decision hmem hletsGo with
        hgone | ⟨finalizing, d, hframe, hsame⟩
      · exact .inl hgone
      · exact .inr ⟨finalizing, d, mem_cons_of_mem _ hframe, hsame⟩
  staffed := by
    obtain hdown | hfull | hnone | ⟨g, hmem, hwakes⟩ := h.staffed
    · exact .inl hdown
    · exact .inr (.inl hfull)
    · exact .inr (.inr (.inl hnone))
    · exact .inr (.inr (.inr ⟨g, mem_cons_of_mem _ hmem, hwakes⟩))
  history := h.history

/-- Nothing happens. -/
theorem Inv.stay (h : Inv settings s frames past) : Inv settings s frames (past ++ [none]) :=
  (h.idle (f := .shutdownGate) rfl rfl rfl rfl rfl).advance .shutdownDone
    fun hheld => absurd hheld Bool.false_ne_true

theorem inv_kept (settings : Settings) :
    (@program Op _ settings).Kept (fun _ _ _ => True) (Inv settings) where
  reorder := Inv.reorder
  stay := Inv.stay
  call call h := by
    refine (Inv.idle h ?_ ?_ ?_ ?_ ?_).stay <;> cases call <;> rfl
  advance answers h _ hapart := by
    refine h.advance (Pool.advances settings _ answers _) ?_
    intro hheld g hg
    obtain hawaits | hfree := hapart g hg
    · cases g <;> first | rfl | cases hawaits
    · exact hfree .lock (.inl hheld)

omit [DecidableEq Op] in
theorem inv_started (states : Op → OperationState) :
    Inv settings { states } ([] : List (Frame Op)) [] where
  placed := ⟨.nil, .refl _, nofun, nofun, nofun⟩
  owned := ⟨.nil, nofun, .nil, nofun⟩
  starts := ⟨.nil, nofun⟩
  completions := ⟨.nil, nofun, nofun⟩
  decisions := ⟨nofun, nofun⟩
  staffed := .inr (.inr (.inl rfl))
  history := each_nil _

/-! ## The lifecycle -/

theorem count_of_nodup {l : List Op} (h : l.Nodup) (operation : Op) :
    l.count operation = if operation ∈ l then 1 else 0 := by
  split_ifs with hmem
  · rw [count_eq_one_of_mem h hmem]
  · rw [count_eq_zero_of_not_mem hmem]

theorem Placed.places_eq (h : Placed s frames past) (operation : Op) : s.places operation =
      if operation ∈ told acceptedOperation past ∧
        operation ∉ told releasedOperation past then 1 else 0 := by
  have hcount := h.places.count_eq operation
  simp only [count_append] at hcount
  rw [count_of_nodup h.once, count_of_nodup (nodup_append.mp h.nodup).2.1] at hcount
  have haccepted : operation ∈ told releasedOperation past →
      operation ∈ told acceptedOperation past :=
    fun hgone => h.places.mem_iff.mpr (mem_append_right _ hgone)
  unfold Pool.places
  by_cases hgone : operation ∈ told releasedOperation past
  · rw [if_pos hgone, if_pos (haccepted hgone)] at hcount
    rw [if_neg fun hboth => hboth.2 hgone]
    omega
  · rw [if_neg hgone] at hcount
    split_ifs at hcount with hmem
    · rw [if_pos ⟨hmem, hgone⟩]
      omega
    · rw [if_neg fun hboth => hmem hboth.1]
      omega

omit [DecidableEq Op] in
/-- The objects in progress are of different operations. -/
theorem Owned.operations_nodup (h : Owned s frames) (hplaced : Placed s frames past) :
    ((frames.filterMap owned).map FinalizingOperation.operation).Nodup := by
  have hoperations := (nodup_append.mp (nodup_append.mp hplaced.nodup).1).2.1
  refine Nodup.map_on ?_ (.of_map _ h.owners)
  intro a ha b hb hsame
  have hequal := inj_on_of_nodup_map hoperations (h.listed a ha) (h.listed b hb) hsame
  have hticket : a.ticket = b.ticket := (FinalizingOperation.mk.inj hequal).2.2.1
  exact inj_on_of_nodup_map h.owners ha hb hticket

theorem countP_runsFinalizer (frames : List (Frame Op)) (operation : Op) :
    frames.countP (runsFinalizer operation) ≤
      ((frames.filterMap owned).map FinalizingOperation.operation).count operation := by
  induction frames with
  | nil => exact Nat.le_refl _
  | cons f frames ih =>
    rw [filterMap_cons_toList, map_append, count_append, countP_cons]
    by_cases hruns : f.runsFinalizer operation
    · obtain ⟨finalizing, howned, hsame⟩ : ∃ finalizing, f.owned = some finalizing ∧
          finalizing.operation = operation := by
        cases f with
        | finalizer finalizing inFinish => exact ⟨finalizing, rfl, of_decide_eq_true hruns⟩
        | _ => cases hruns
      rw [if_pos hruns, howned, Option.toList_some, map_singleton, hsame, count_singleton_self]
      omega
    · rw [if_neg hruns]
      omega

omit [DecidableEq Op] in
theorem Staffed.of_quiet (h : Staffed settings s frames) (hquiet : ∀ f ∈ frames, f.inPool = false)
    (hup : s.shuttingDown = false) :
    settings.concurrency ≤ s.runningOperations.length ∨ s.pendingOperations = [] := by
  obtain hdown | hfull | hnone | ⟨f, hmem, hwakes⟩ := h
  · rw [hup] at hdown
    cases hdown
  · exact .inl hfull
  · exact .inr hnone
  · have houtside := hquiet f hmem
    cases f <;> first | exact hwakes.elim | cases houtside

theorem Inv.lifecycle (h : Inv settings s frames past) : Lifecycle settings s frames past where
  placed := h.placed.places_eq
  finalizedAlone operation :=
    (countP_runsFinalizer frames operation).trans
      (nodup_iff_count_le_one.mp (h.owned.operations_nodup h.placed) operation)
  history := h.history
  staffed := h.staffed.of_quiet

/-- Over every interleaving of the calls, from an empty pool. -/
theorem lifecycle_of_run (settings : Settings) (states : Op → OperationState) (threads : Nat)
    (events : List (ThreadEvent (Call Op) (Answers Op))) :
    let run := runAll (program settings).step (started states threads) events
    Lifecycle settings run.1.shared run.1.frames run.2 := by
  have hidle : ∀ stack ∈ (started states threads).callStacks, stack = [] :=
    fun stack hmem => eq_of_mem_replicate hmem
  have hframes : (started states threads).frames = [] :=
    flatten_eq_nil_iff.mpr hidle
  have hmeets : Meets (program settings).step
      (ThreadProgram.Advancing fun (_ : Pool Op) (_ : Frame Op) (_ : Answers Op) => True)
      (started states threads) events := by
    refine meets_of_forall (fun sys event => ?_) _ _
    cases event with
    | call thread call => trivial
    | advance thread answers => exact fun _ _ => trivial
  have hrun := (inv_kept settings).run events hmeets (ThreadProgram.wellNested_idle hidle) (hframes ▸ inv_started states)
  exact hrun.lifecycle

/-! ## The two mutexes -/

theorem program_ordered (settings : Settings) : (@program Op _ settings).Ordered
    (fun | .startGate => 0 | .lock => 1) 1 where
  bounded mutex := by cases mutex <;> decide
  rising f held wanted hheld hwants := by
    cases held <;> cases f <;> cases hheld <;> cases hwants
    decide
  outside f held hawaits hheld := by
    cases held with
    | startGate => exact ⟨rfl, fun mutex => by cases mutex <;> simp⟩
    | lock => cases f <;> cases hheld; cases hawaits

/-- In no interleaving of the calls do all threads wait for the pool's mutexes. -/
theorem pool_live (settings : Settings) (states : Op → OperationState) (threads : Nat)
    (events : List (ThreadEvent (Call Op) (Answers Op))) : (program settings).Live
      (runAll (program settings).step (started states threads) events).1.callStacks :=
  (program_ordered settings).run { states } threads events

/-! ## The number of running operations -/

end WinCommander.Operations.Pooling
