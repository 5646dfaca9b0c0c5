/-
  The preflight of a permanent deletion.

  An accepted report deletes exactly the plan's sources, in order, and each was probed as a
  file under a directory whose delete access was granted. That no item is deleted twice is
  nowhere checked: `Create` compares the sources byte by byte, so it holds exactly when the
  plan does not spell one item in two ways.
-/
import WinCommander.Operations.Planner.Evidence

namespace WinCommander.Operations.Planner

open Library List
open Review (Ensures)

/-- What the report shows about an item to be deleted. -/
structure ReviewedForDeletion (probes : OperationPlanningProbes) (report : OperationPreflightReport)
    (item : OperationPlannedDeleteItem) : Prop where
  kind : item.sourceKind = .file
  source : report.Probed probes item.source .file
  parent : report.Probed probes item.source.parent .directory
  access : report.Granted probes item.source.parent .delete

/-- What a deletion's report has to be. -/
structure DeletionSound (probes : OperationPlanningProbes) (plan : OperationPlan)
    (report : OperationPreflightReport) : Prop where
  sources : report.deletedItems.map (·.source) = plan.sources.map sourcePath
  reviewed : ∀ item ∈ report.deletedItems, ReviewedForDeletion probes report item
  /-- No two deleted items name the same item. -/
  distinct : (report.deletedItems.map (·.source.normalized)).Nodup

variable {probes : OperationPlanningProbes} {plan : OperationPlan} {s t : RunState}

theorem ReviewedForDeletion.grew {item : OperationPlannedDeleteItem}
    (h : ReviewedForDeletion probes r item) (hgrew : Grew r r')
    : ReviewedForDeletion probes r' item :=
  ⟨h.kind, hgrew.probed h.source, hgrew.probed h.parent, hgrew.granted h.access⟩

/-- The loop of `RunPermanentDelete` after the sources `done`. -/
structure Deleting (probes : OperationPlanningProbes) (done : List OperationPlanSource)
    (s : RunState) : Prop where
  sound : Sound probes s
  sources : s.report.deletedItems.map (·.source) = done.map sourcePath
  reviewed : ∀ item ∈ s.report.deletedItems, ReviewedForDeletion probes s.report item

theorem Deleting.probing (h : Deleting probes done s) (hst : Probing probes s t)
    : Deleting probes done t := by
  have hitems : t.report.deletedItems = s.report.deletedItems :=
    congrArg Outcome.deletedItems hst.outcome
  refine ⟨hst.sound, ?_, ?_⟩
  · rw [hitems]
    exact h.sources
  · rw [hitems]
    exact fun item hitem => (h.reviewed item hitem).grew hst.grew

theorem planDeleteSource_ensures (hs : Deleting probes done s)
    (hsource : (sourcePath source).Proper) :
    (planDeleteSource probes source).Ensures s (fun _ => Deleting probes (done ++ [source])) Q := by
  have hparent := hsource.parent
  unfold planDeleteSource
  generalize hpath : sourcePath source = path at hsource hparent ⊢
  refine Ensures.bind (orLeave_ensures (provider_ensures hs.sound hparent)) ?_
  rintro evidence t₁ ⟨h₁, -⟩
  refine blockIf_bind_ensures fun _ => ?_
  refine Ensures.bind (orLeave_ensures (item_ensures h₁.sound hparent)) ?_
  rintro parentItem t₂ ⟨h₂, hparentItem⟩
  refine blockIf_bind_ensures fun hdirectory => ?_
  refine Ensures.bind (orLeave_ensures (item_ensures h₂.sound hsource)) ?_
  rintro sourceItem t₃ ⟨h₃, hsourceItem⟩
  refine blockIf_bind_ensures fun _ => blockIf_bind_ensures fun hfile => ?_
  refine Ensures.bind (grantedOrLeave_ensures h₃.sound hparent) ?_
  rintro _ t₄ ⟨h₄, hgranted⟩
  refine Ensures.bind (leaveIfCancelled_ensures h₄.sound) ?_
  rintro _ t₅ rfl
  have hdone := hs.probing (((h₁.trans h₂).trans h₃).trans h₄)
  refine updateReport_ensures ⟨hdone.sound.untouched rfl, ?_, ?_⟩
  · rw [map_append, map_append, hdone.sources, map_singleton, map_singleton, hpath]
  · intro item hitem
    rcases mem_append.mp hitem with hitem | hitem
    · exact (hdone.reviewed item hitem).grew (Grew.untouched rfl)
    · rw [mem_singleton.mp hitem]
      have hkind : sourceItem.kind = .file := not_not.mp hfile
      refine ⟨hkind, ?_, ?_, hgranted⟩
      · exact ⟨sourceItem, hkind, h₄.grew.shown hsourceItem⟩
      · exact ⟨parentItem, not_not.mp hdirectory, (h₃.trans h₄).grew.shown hparentItem⟩

theorem runPermanentDelete_ensures :
    (runPermanentDelete probes plan).Ensures {} (fun _ => Deleting probes plan.sources) Q := by
  refine Ensures.bind (Ensures.forEach (Deleting probes) (fun _ _ h => h.sound.running) []
    plan.sources ?_ ⟨sound_start, rfl, by simp⟩) ?_
  · intro before source after t hall ht
    refine planDeleteSource_ensures ht (sourcePath_proper plan ?_)
    rw [← nil_append plan.sources, ← hall]
    exact mem_append_right _ mem_cons_self
  · intro _ t ht
    exact (finish_ensures ht.sound).weaken (fun _ _ h => ht.probing h) fun _ h => h

/-- An accepted deletion is sound exactly when no two sources of the plan are spellings of
  one item. -/
theorem preflight_deletionSound_iff (probes : OperationPlanningProbes) (plan plan' : OperationPlan)
    (report : OperationPreflightReport) (htype : plan.type = .permanentDelete)
    (haccepted : preflight probes plan = .accepted plan' report) :
    DeletionSound probes plan report ↔
      (plan.sources.map fun source => (sourcePath source).normalized).Nodup := by
  have hrun : (run probes plan).Ensures {} (fun _ => Deleting probes plan.sources)
      (Deleting probes plan.sources) := by
    unfold run
    rw [htype]
    exact runPermanentDelete_ensures
  obtain ⟨-, s, hs, rfl⟩ := preflight_accepted hrun haccepted
  have hnormalized : s.report.deletedItems.map (·.source.normalized) =
      plan.sources.map fun source => (sourcePath source).normalized := by
    have hmap := congrArg (List.map OperationPlanningPath.normalized) hs.sources
    rw [map_map, map_map] at hmap
    exact hmap
  constructor
  · intro h
    rw [← hnormalized]
    exact h.distinct
  · intro h
    refine ⟨hs.sources, hs.reviewed, ?_⟩
    rw [hnormalized]
    exact h

/-! ## Two spellings of one file -/

/-- `/a` is a directory, everything else a file of three bytes, and everything is allowed. -/
def permissiveProbes : OperationPlanningProbes where
  provider _ _ := some (.ok { canDeletePermanently := true, pathIdentity := .exactBytes })
  item _ path := some (.ok (if normalizeAbsolutePath path.absolutePath = ascii "/a"
    then { kind := .directory } else { kind := .file, byteSize := some 3 }))
  destinationName _ _ := none
  access _ _ _ := some (.ok { state := .granted })
  estimate _ _ _ := none
  space _ _ := none

/-- Delete `/a/x` and `/a//x`. -/
def twiceSpelledPlan : OperationPlan where
  id := ascii "plan"
  type := .permanentDelete
  sources := [⟨ascii "native", ascii "/a/x"⟩, ⟨ascii "native", ascii "/a//x"⟩]
  destination := none
  conflictPolicy := none
  createdAt := 0
  valid := by decide

/-- Delete `/a/x` and `/a/y`. -/
def deletePlan : OperationPlan where
  id := ascii "plan"
  type := .permanentDelete
  sources := [⟨ascii "native", ascii "/a/x"⟩, ⟨ascii "native", ascii "/a/y"⟩]
  destination := none
  conflictPolicy := none
  createdAt := 0
  valid := by decide

/-- One file is accepted for two deletions, and counted twice. -/
theorem preflight_deletes_twice : ∃ report,
    preflight permissiveProbes twiceSpelledPlan = .accepted twiceSpelledPlan report ∧
      report.estimatedFiles = some 2 ∧ report.estimatedBytes = some 6 ∧
      ¬DeletionSound permissiveProbes twiceSpelledPlan report := by
  refine ⟨_, preflight_of_clean (by decide +kernel), by decide +kernel, by decide +kernel, ?_⟩
  intro h
  exact absurd h.distinct (by decide +kernel)

/-- The condition is met by an accepted plan. -/
theorem preflight_deletionSound_iff_deletePlan :
    DeletionSound permissiveProbes deletePlan ((run permissiveProbes deletePlan).run {}).1.report ↔
      (deletePlan.sources.map fun source => (sourcePath source).normalized).Nodup :=
  preflight_deletionSound_iff permissiveProbes deletePlan deletePlan _ rfl
    (preflight_of_clean (by decide +kernel))

end WinCommander.Operations.Planner
