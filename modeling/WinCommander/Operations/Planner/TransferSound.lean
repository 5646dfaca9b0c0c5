/-
  The preflight of a copy or a move: the run, and when its report is sound.

  Everything that a report should show holds of every accepted plan, but for the place of one
  kind of item: a source whose last component is ".." is not refused, and its effective
  destination is the parent of the planned directory. The report is sound exactly when every
  such source is dropped, or the destination is an exact item.
-/
import WinCommander.Operations.Planner.Transfer

namespace WinCommander.Operations.Planner

open Library List Bool Outcome
open Library.Path (resolve render descend dot dotDot IsName)
open Review (Ensures)

/-- The invariant of the loop over the sources: `done` are planned, and conflicts are
  recorded for sources among `seen`. -/
structure Planned (probes : OperationPlanningProbes) (plan : OperationPlan)
    (destination : OperationPlanDestination) (decision : OperationPlanConflictDecision)
    (evidence : OperationPlanningProviderEvidence) (seen done : List OperationPlanSource)
    (s : RunState) : Prop where
  sound : Sound probes s
  directory : DirectoryReady probes plan destination evidence s.report
  sources : s.report.items.map (·.source) =
    (done.map sourcePath).filter fun source => !skipped s.report source
  items : ∀ item ∈ s.report.items,
    ItemSound probes plan decision evidence.pathIdentity s.report item
  effective : ∀ item ∈ s.report.items, baseName item.source.absolutePath ≠ [] ∧
    item.destination = effectiveDestination destination (baseName item.source.absolutePath)
  conflicts : ∀ c ∈ s.report.conflicts, c.source ∈ seen.map sourcePath ∧ c.decision = decision ∧
    c.destination = effectiveDestination destination (baseName c.source.absolutePath) ∧
    ∃ kind, kind ≠ .missing ∧ s.report.Probed probes c.destination kind
  claimed : 1 < plan.sources.length →
    (s.report.items.map fun item => destinationKey evidence.pathIdentity item.destination).Nodup ∧
    ∀ item ∈ s.report.items,
      destinationKey evidence.pathIdentity item.destination ∈ s.effectiveDestinations
  access : ∀ source ∈ done,
    s.report.Granted probes (providerPath plan.type (sourcePath source)) (sourceAccess plan.type)

section Loop

variable {probes : OperationPlanningProbes} {plan : OperationPlan}
  {destination : OperationPlanDestination} {decision : OperationPlanConflictDecision}
  {evidence : OperationPlanningProviderEvidence} {seen done : List OperationPlanSource}
  {source : OperationPlanSource} {s t : RunState} {Q : RunState → Prop}

/-! ## Steps of the invariant -/

theorem Reached.extends (h : Reached probes s o t)
    (hdestructive : s.report.destructiveEffects ⊆ o.destructiveEffects)
    (hconfirmation : s.report.requiresConfirmation → o.requiresConfirmation) :
    Extends s.report t.report := by
  have heffects : t.report.destructiveEffects = o.destructiveEffects :=
    congrArg destructiveEffects h.outcome
  have hrequires : t.report.requiresConfirmation = o.requiresConfirmation :=
    congrArg requiresConfirmation h.outcome
  refine ⟨h.grew, ?_, ?_⟩
  · rw [heffects]
    exact hdestructive
  · rw [hrequires]
    exact hconfirmation

section
variable (h : Planned probes plan destination decision evidence seen done s)
include h

/-- The invariant when items, conflicts and taken destinations are as they were. -/
theorem Planned.extend (hsound : Sound probes t) (hext : Extends s.report t.report)
    (hitems : t.report.items = s.report.items)
    (hconflicts : t.report.conflicts = s.report.conflicts)
    (htaken : s.effectiveDestinations ⊆ t.effectiveDestinations) :
    Planned probes plan destination decision evidence seen done t := by
  refine ⟨hsound, h.directory.grew hext.grew, ?_, ?_, ?_, ?_, ?_, ?_⟩
  · unfold skipped
    rw [hitems, hconflicts]
    exact h.sources
  · rw [hitems]
    exact fun item hitem => (h.items item hitem).mono hext
  · rw [hitems]
    exact h.effective
  · rw [hconflicts]
    intro c hc
    obtain ⟨hseen, hdecision, hplace, kind, hkind, hprobed⟩ := h.conflicts c hc
    exact ⟨hseen, hdecision, hplace, kind, hkind, hext.grew.probed hprobed⟩
  · rw [hitems]
    exact fun hmany => ⟨(h.claimed hmany).1, fun item hitem => htaken ((h.claimed hmany).2 item hitem)⟩
  · exact fun source hsource => hext.grew.granted (h.access source hsource)

theorem Planned.probing (hst : Probing probes s t) :
    Planned probes plan destination decision evidence seen done t := by
  have htaken : t.effectiveDestinations = s.effectiveDestinations :=
    congrArg effectiveDestinations hst.outcome
  refine h.extend hst.sound (hst.reached.extends (Subset.refl _) id)
    (congrArg Outcome.items hst.outcome) (congrArg Outcome.conflicts hst.outcome) ?_
  rw [htaken]
  exact Subset.refl _

end

/-- A conflict about a new source changes nothing for the others. -/
theorem Planned.conflict (h : Planned probes plan destination decision evidence done done s)
    (hst : Reached probes s o t) (hext : Extends s.report t.report)
    (hitems : o.items = s.report.items) (hconflicts : o.conflicts = s.report.conflicts ++ [c])
    (htaken : o.effectiveDestinations = s.effectiveDestinations)
    (hsource : c.source = sourcePath source) (hnew : source ∉ done)
    (hdecision : c.decision = decision)
    (hplace : c.destination = effectiveDestination destination (baseName c.source.absolutePath))
    (hprobed : ∃ kind, kind ≠ .missing ∧ t.report.Probed probes c.destination kind) :
    Planned probes plan destination decision evidence (done ++ [source]) done t := by
  have htitems : t.report.items = s.report.items :=
    (congrArg Outcome.items hst.outcome).trans hitems
  have htconflicts : t.report.conflicts = s.report.conflicts ++ [c] :=
    (congrArg Outcome.conflicts hst.outcome).trans hconflicts
  have httaken : t.effectiveDestinations = s.effectiveDestinations :=
    (congrArg effectiveDestinations hst.outcome).trans htaken
  refine ⟨hst.sound, h.directory.grew hst.grew, ?_, ?_, ?_, ?_, ?_, ?_⟩
  · rw [htitems, h.sources]
    refine filter_congr fun path hpath => ?_
    obtain ⟨old, hold, rfl⟩ := mem_map.mp hpath
    have hother : c.source ≠ sourcePath old := by
      rw [hsource]
      exact fun heq => hnew (sourcePath_injective heq ▸ hold)
    unfold skipped
    rw [htconflicts, any_append, any_cons, decide_eq_false hother, Bool.false_and,
      any_nil, Bool.or_false, Bool.or_false]
  · rw [htitems]
    exact fun item hitem => (h.items item hitem).mono hext
  · rw [htitems]
    exact h.effective
  · rw [htconflicts]
    intro c' hc'
    obtain hc' | hc' := mem_append.mp hc'
    · obtain ⟨hdone, hdecision', hplace', kind, hkind, hprobed'⟩ := h.conflicts c' hc'
      refine ⟨?_, hdecision', hplace', kind, hkind, hst.grew.probed hprobed'⟩
      rw [map_append]
      exact mem_append_left _ hdone
    · rw [mem_singleton.mp hc']
      refine ⟨?_, hdecision, hplace, hprobed⟩
      rw [hsource]
      exact mem_map_of_mem (mem_append_right _ (mem_singleton.mpr rfl))
  · rw [htitems, httaken]
    exact h.claimed
  · exact fun source hsource => hst.grew.granted (h.access source hsource)

/-- The source is dropped by its conflict. -/
theorem Planned.skip (h : Planned probes plan destination decision evidence (done ++ [source]) done s)
    (hskipped : skipped s.report (sourcePath source))
    (hgranted : s.report.Granted probes (providerPath plan.type (sourcePath source))
      (sourceAccess plan.type)) :
    Planned probes plan destination decision evidence (done ++ [source]) (done ++ [source]) s := by
  refine ⟨h.sound, h.directory, ?_, h.items, h.effective, h.conflicts, h.claimed, ?_⟩
  · rw [map_append, filter_append, ← h.sources, map_singleton, filter_singleton, hskipped]
    exact (append_nil _).symm
  · intro source' hsource'
    obtain hsource' | hsource' := mem_append.mp hsource'
    · exact h.access source' hsource'
    · rw [mem_singleton.mp hsource']
      exact hgranted

variable {item : OperationPlannedCopyItem}

/-- The source's item is added. -/
theorem Planned.keep (h : Planned probes plan destination decision evidence seen done s)
    (hst : Reached probes s (s.outcome.keep item) t) (hseen : seen ⊆ done ++ [source])
    (hsource : item.source = sourcePath source)
    (hkept : skipped s.report (sourcePath source) = false)
    (hitem : ItemSound probes plan decision evidence.pathIdentity s.report item)
    (heffective : baseName item.source.absolutePath ≠ [] ∧ item.destination = effectiveDestination destination (baseName item.source.absolutePath))
    (hclaimed : 1 < plan.sources.length → destinationKey evidence.pathIdentity item.destination ∈ s.effectiveDestinations ∧ ∀ other ∈ s.report.items, destinationKey evidence.pathIdentity other.destination ≠ destinationKey evidence.pathIdentity item.destination)
    (hgranted : s.report.Granted probes (providerPath plan.type (sourcePath source)) (sourceAccess plan.type)) :
    Planned probes plan destination decision evidence (done ++ [source]) (done ++ [source]) t := by
  have hext : Extends s.report t.report := hst.extends (Subset.refl _) id
  have hitems : t.report.items = s.report.items ++ [item] := congrArg Outcome.items hst.outcome
  have hconflicts : t.report.conflicts = s.report.conflicts :=
    congrArg Outcome.conflicts hst.outcome
  have htaken : t.effectiveDestinations = s.effectiveDestinations :=
    congrArg effectiveDestinations hst.outcome
  have hskipped : skipped t.report = skipped s.report := by
    unfold skipped
    rw [hconflicts]
  refine ⟨hst.sound, h.directory.grew hst.grew, ?_, ?_, ?_, ?_, ?_, ?_⟩
  · rw [hitems, hskipped, map_append, map_append, filter_append, h.sources,
      map_singleton, map_singleton, filter_singleton, hkept, hsource]
    rfl
  · rw [hitems]
    intro item' hitem'
    obtain hitem' | hitem' := mem_append.mp hitem'
    · exact (h.items item' hitem').mono hext
    · rw [mem_singleton.mp hitem']
      exact hitem.mono hext
  · rw [hitems]
    intro item' hitem'
    obtain hitem' | hitem' := mem_append.mp hitem'
    · exact h.effective item' hitem'
    · rw [mem_singleton.mp hitem']
      exact heffective
  · rw [hconflicts]
    intro c hc
    obtain ⟨hc', hdecision, hplace, kind, hkind, hprobed⟩ := h.conflicts c hc
    exact ⟨map_subset sourcePath hseen hc', hdecision, hplace, kind, hkind,
      hext.grew.probed hprobed⟩
  · intro hmany
    obtain ⟨hnodup, hold⟩ := h.claimed hmany
    obtain ⟨hmine, hother⟩ := hclaimed hmany
    rw [hitems, htaken]
    constructor
    · rw [map_append, map_singleton, ← concat_eq_append]
      refine Nodup.concat (fun hmem => ?_) hnodup
      obtain ⟨other, hmem, heq⟩ := mem_map.mp hmem
      exact hother other hmem heq
    · intro item' hitem'
      obtain hitem' | hitem' := mem_append.mp hitem'
      · exact hold item' hitem'
      · rw [mem_singleton.mp hitem']
        exact hmine
  · intro source' hsource'
    obtain hsource' | hsource' := mem_append.mp hsource'
    · exact hext.grew.granted (h.access source' hsource')
    · rw [mem_singleton.mp hsource']
      exact hext.grew.granted hgranted

theorem Planned.not_skipped_new
    (h : Planned probes plan destination decision evidence done done s) (hnew : source ∉ done) :
    skipped s.report (sourcePath source) = false := by
  refine any_eq_false.mpr fun c hc hskip => ?_
  obtain ⟨old, hold, heq⟩ := mem_map.mp (h.conflicts c hc).1
  have hsame : c.source = sourcePath source := of_decide_eq_true (and_eq_true_iff.mp hskip).1
  rw [hsame] at heq
  exact hnew (sourcePath_injective heq ▸ hold)

theorem Planned.not_skipped (h : Planned probes plan destination decision evidence seen done s)
    (hdecision : decision ≠ .skip) (path : OperationPlanningPath) :
    skipped s.report path = false := by
  refine any_eq_false.mpr fun c hc hskip => hdecision ?_
  rw [← (h.conflicts c hc).2.1]
  exact of_decide_eq_true (and_eq_true_iff.mp hskip).2

/-! ## One source -/

theorem effectiveDestination_proper (h : OperationPlanInput.DestinationOk destination)
    (hname : 0 ∉ name) : (effectiveDestination destination name).Proper := by
  refine ⟨h.identity, ?_⟩
  unfold effectiveDestination
  split
  · exact joinPath_valid h.path hname
  · exact h.path

/-- What stands after the conflict check: the source is kept, and nothing is in its way. -/
structure Kept (probes : OperationPlanningProbes) (plan : OperationPlan)
    (destination : OperationPlanDestination) (decision : OperationPlanConflictDecision)
    (evidence : OperationPlanningProviderEvidence) (done : List OperationPlanSource)
    (source : OperationPlanSource) (effective : OperationPlanningPath)
    (kind : OperationPlanningItemKind) (s t : RunState) : Prop where
  planned : ∃ seen, seen ⊆ done ++ [source] ∧
    Planned probes plan destination decision evidence seen done t
  extended : Extends s.report t.report
  not_skipped : skipped t.report (sourcePath source) = false
  cleared : ∀ estimated,
    Cleared probes t.report decision ⟨sourcePath source, effective, kind, estimated⟩

variable {effective : OperationPlanningPath}

theorem claimDestination_kept
    (h : Kept probes plan destination decision evidence done source effective kind s t) :
    (Review.doIf (1 < plan.sources.length)
      (claimDestination evidence.pathIdentity effective)).Ensures t
      (fun _ u => Kept probes plan destination decision evidence done source effective kind s u ∧
        (1 < plan.sources.length →
          destinationKey evidence.pathIdentity effective ∈ u.effectiveDestinations ∧
          ∀ other ∈ u.report.items, destinationKey evidence.pathIdentity other.destination ≠
            destinationKey evidence.pathIdentity effective)) Q := by
  obtain ⟨seen, hseen, hplanned⟩ := h.planned
  refine Ensures.doIf (fun hmany => ?_) fun hone => ⟨h, fun hmany => absurd hmany hone⟩
  refine (claimDestination_ensures hplanned.sound).weaken ?_ fun _ h => h
  rintro _ u ⟨hfresh, hu⟩
  have hext : Extends t.report u.report := hu.extends (Subset.refl _) id
  have hitems : u.report.items = t.report.items := congrArg Outcome.items hu.outcome
  have hconflicts : u.report.conflicts = t.report.conflicts := congrArg Outcome.conflicts hu.outcome
  have htaken : u.effectiveDestinations =
      destinationKey evidence.pathIdentity effective :: t.effectiveDestinations :=
    congrArg effectiveDestinations hu.outcome
  refine ⟨⟨⟨seen, hseen, ?_⟩, ?_, ?_, ?_⟩, fun _ => ⟨?_, ?_⟩⟩
  · refine hplanned.extend hu.sound hext hitems hconflicts ?_
    rw [htaken]
    exact subset_cons_self _ _
  · exact ⟨h.extended.grew.trans hext.grew, Subset.trans h.extended.destructive hext.destructive,
      fun hs => hext.confirmation (h.extended.confirmation hs)⟩
  · unfold skipped
    rw [hconflicts]
    exact h.not_skipped
  · intro estimated
    obtain hmissing | ⟨hreplace, hkind, hprobed, heffect, hconfirmation⟩ := h.cleared estimated
    · exact .inl (hext.grew.probed hmissing)
    · exact .inr ⟨hreplace, hkind, hext.grew.probed hprobed, hext.destructive heffect,
        hext.confirmation hconfirmation⟩
  · rw [htaken]
    exact mem_cons_self
  · rw [hitems]
    intro other hother heq
    have hold := (hplanned.claimed hmany).2 other hother
    rw [heq] at hold
    exact hfresh hold

/-- The end of a source that is kept: its item is sound. -/
theorem Kept.add (h : Kept probes plan destination decision evidence done source effective kind s t)
    (hclaimed : 1 < plan.sources.length → destinationKey evidence.pathIdentity effective ∈ t.effectiveDestinations ∧ ∀ other ∈ t.report.items, destinationKey evidence.pathIdentity other.destination ≠ destinationKey evidence.pathIdentity effective)
    (hu : Reached probes t (t.outcome.keep ⟨sourcePath source, effective, kind, estimated⟩) u)
    (hprovided : s.report.Provided probes (providerPath plan.type (sourcePath source)) found)
    (hprobed : s.report.Probed probes (sourcePath source) kind)
    (hgranted : s.report.Granted probes (providerPath plan.type (sourcePath source)) (sourceAccess plan.type))
    (hapart : (sourcePath source).providerId = effective.providerId → ∀ estimated, Apart (found.pathIdentity.combine evidence.pathIdentity).caseSensitive ⟨sourcePath source, effective, kind, estimated⟩)
    (hname : baseName source.absolutePath ≠ [])
    (heffective : effective = effectiveDestination destination (baseName source.absolutePath)) :
    Planned probes plan destination decision evidence (done ++ [source]) (done ++ [source]) u := by
  obtain ⟨seen, hseen, hplanned⟩ := h.planned
  have hgrew := h.extended.grew
  refine hplanned.keep hu hseen rfl h.not_skipped ?_ ⟨hname, heffective⟩ hclaimed
    (hgrew.granted hgranted)
  refine ⟨hgrew.probed hprobed, fun hsame => ⟨found, hgrew.provided hprovided, ?_⟩, h.cleared _⟩
  exact hapart hsame estimated

theorem resolveConflict_kept (hs : Planned probes plan destination decision evidence done done s)
    (hnew : source ∉ done) (hproper : effective.Proper) (hdecision : decision.isValid)
    (heffective : effective = effectiveDestination destination (baseName source.absolutePath))
    (hshown : s.report.Shown probes effective destinationItem)
    (hgranted : s.report.Granted probes (providerPath plan.type (sourcePath source)) (sourceAccess plan.type)) :
    (Review.doIf (destinationItem.kind ≠ .missing)
      (resolveConflict probes decision (sourcePath source) effective sourceItem destinationItem)).Ensures s
      (fun _ => Kept probes plan destination decision evidence done source effective sourceItem.kind s)
      (Planned probes plan destination decision evidence (done ++ [source]) (done ++ [source])) := by
  have hprobed : s.report.Probed probes effective destinationItem.kind := ⟨_, rfl, hshown⟩
  refine Ensures.doIf (fun hexists => ?_) fun hmissing => ?_
  · refine (resolveConflict_ensures hs.sound hproper hdecision).weaken ?_ ?_
    · rintro _ t ⟨hreplace, hkinds, hkind, ht⟩
      have hext : Extends s.report t.report :=
        ht.extends (subset_append_left _ _) fun _ => rfl
      have hplanned := hs.conflict ht hext rfl rfl rfl rfl hnew rfl heffective
        ⟨destinationItem.kind, hexists, ht.grew.probed hprobed⟩
      refine ⟨⟨_, Subset.refl _, hplanned⟩, hext, ?_, fun _ => .inr ⟨hreplace, hkind, ?_, ?_, ?_⟩⟩
      · refine hplanned.not_skipped ?_ _
        rw [hreplace]
        exact fun h => nomatch h
      · rw [hkinds]
        exact ht.grew.probed hprobed
      · have heffects : t.report.destructiveEffects = s.report.destructiveEffects ++ [⟨effective⟩] :=
          congrArg destructiveEffects ht.outcome
        rw [heffects]
        exact mem_append_right _ (mem_singleton.mpr rfl)
      · exact congrArg requiresConfirmation ht.outcome
    · rintro t ⟨hskip, ht⟩
      have hext : Extends s.report t.report := ht.extends (Subset.refl _) id
      have hplanned := hs.conflict ht hext rfl rfl rfl rfl hnew rfl heffective
        ⟨destinationItem.kind, hexists, ht.grew.probed hprobed⟩
      refine hplanned.skip ?_ (ht.grew.granted hgranted)
      have hconflicts : t.report.conflicts =
          s.report.conflicts ++ [⟨sourcePath source, effective, decision⟩] :=
        congrArg Outcome.conflicts ht.outcome
      unfold skipped
      rw [hconflicts, hskip, any_append, any_cons, decide_eq_true rfl, decide_eq_true rfl]
      simp
  · have hkind : destinationItem.kind = .missing := not_not.mp hmissing
    rw [hkind] at hprobed
    exact ⟨⟨done, subset_append_left _ _, hs⟩,
      ⟨Grew.refl _, Subset.refl _, id⟩, hs.not_skipped_new hnew, fun _ => .inl hprobed⟩

theorem planSource_ensures (htype : plan.type ≠ .move)
    (hok : OperationPlanInput.DestinationOk destination) (hdecision : decision.isValid)
    (hs : Planned probes plan destination decision evidence done done s)
    (hsource : source ∈ plan.sources) (hnew : source ∉ done) :
    (planSource probes plan destination decision (some evidence) true source).Ensures s
      (fun _ => Planned probes plan destination decision evidence (done ++ [source]) (done ++ [source]))
      (Planned probes plan destination decision evidence (done ++ [source]) (done ++ [source])) := by
  have hproper := sourcePath_proper plan hsource
  have heffective := effectiveDestination_proper hok (not_mem_nul_baseName hproper.path)
  refine blockIf_bind_ensures fun hname => ?_
  refine Ensures.bind (checkSource_ensures htype hs.sound hproper) ?_
  rintro ⟨sourceProvider, sourceItem⟩ t₁ hchecked
  refine Ensures.bind (R := fun _ t => t = t₁ ∧ ((sourcePath source).providerId =
        (effectiveDestination destination (baseName (sourcePath source).absolutePath)).providerId →
      ∀ estimated, Apart (sourceProvider.pathIdentity.combine evidence.pathIdentity).caseSensitive
        ⟨sourcePath source, effectiveDestination destination (baseName (sourcePath source).absolutePath),
          sourceItem.kind, estimated⟩)) ?_ ?_
  · refine Ensures.doIf (fun hsame => ?_) fun hother => ⟨rfl, fun hsame => absurd hsame hother⟩
    exact (checkNotRecursive_ensures hsame).weaken (fun _ t ⟨ht, hapart⟩ => ⟨ht, fun _ => hapart⟩)
      fun _ h => h
  rintro _ t ⟨rfl, hapart⟩
  refine Ensures.bind (R := fun _ u => u = t)
    (Ensures.leaveIf (fun h => absurd rfl h) fun _ => rfl) ?_
  rintro _ u rfl
  refine Ensures.bind (orLeave_ensures (item_ensures hchecked.probing.sound heffective)) ?_
  rintro destinationItem t₂ ⟨h₂, hshown⟩
  refine blockIf_bind_ensures fun _ => ?_
  have hplanned := (hs.probing hchecked.probing).probing h₂
  have hgranted := h₂.grew.granted hchecked.granted
  refine Ensures.bind (resolveConflict_kept hplanned hnew heffective hdecision rfl hshown hgranted) ?_
  intro _ t₃ hkept
  refine Ensures.bind (claimDestination_kept hkept) ?_
  rintro _ t₄ ⟨hkept, hclaimed⟩
  obtain ⟨seen, -, hplanned'⟩ := hkept.planned
  refine (planItem_ensures hplanned'.sound).weaken ?_ fun _ h => h
  rintro _ t₅ ⟨estimated, h₅⟩
  exact hkept.add hclaimed h₅ (h₂.grew.provided hchecked.provided) (h₂.grew.probed hchecked.probed)
    hgranted hapart hname rfl

theorem planMoveSource_ensures (htype : plan.type = .move)
    (hok : OperationPlanInput.DestinationOk destination)
    (hs : Planned probes plan destination decision evidence done done s)
    (hsource : source ∈ plan.sources) (hnew : source ∉ done)
    (hsame : source.providerId = destination.providerId) :
    (planMoveSource probes plan destination decision (some evidence) true source).Ensures s
      (fun _ => Planned probes plan destination decision evidence (done ++ [source]) (done ++ [source]))
      Q := by
  have hproper := sourcePath_proper plan hsource
  have heffective := effectiveDestination_proper hok (not_mem_nul_baseName hproper.path)
  refine blockIf_bind_ensures fun hname => ?_
  refine Ensures.bind (checkMoveSource_ensures htype hs.sound hproper) ?_
  rintro ⟨sourceProvider, sourceItem⟩ t₁ ⟨hchecked, hfile⟩
  refine Ensures.bind (checkNotSame_ensures hsame) ?_
  rintro _ t ⟨rfl, hne⟩
  refine Ensures.bind (R := fun _ u => u = t)
    (Ensures.leaveIf (fun h => absurd rfl h) fun _ => rfl) ?_
  rintro _ u rfl
  refine Ensures.bind (orLeave_ensures (item_ensures hchecked.probing.sound heffective)) ?_
  rintro destinationItem t₂ ⟨h₂, hshown⟩
  have hplanned := (hs.probing hchecked.probing).probing h₂
  refine Ensures.bind (R := fun _ t => t = t₂ ∧ destinationItem.kind = .missing)
    (Ensures.doIf (fun _ => updateReport_bind_ensures block_ensures)
      fun hmissing => ⟨rfl, not_not.mp hmissing⟩) ?_
  rintro _ t ⟨rfl, hmissing⟩
  have hkept : Kept probes plan destination decision evidence done source
      (effectiveDestination destination (baseName (sourcePath source).absolutePath)) sourceItem.kind t t :=
    ⟨⟨done, subset_append_left _ _, hplanned⟩, ⟨Grew.refl _, Subset.refl _, id⟩,
      hplanned.not_skipped_new hnew, fun _ => .inl ⟨destinationItem, hmissing, hshown⟩⟩
  refine Ensures.bind (claimDestination_kept hkept) ?_
  rintro _ t₄ ⟨hkept, hclaimed⟩
  obtain ⟨seen, -, hplanned'⟩ := hkept.planned
  refine (addItem_ensures hplanned'.sound).weaken ?_ fun _ h => h
  intro _ t₅ h₅
  refine hkept.add hclaimed h₅ (h₂.grew.provided hchecked.provided)
    (h₂.grew.probed hchecked.probed) (h₂.grew.granted hchecked.granted) (fun _ _ => ⟨hne, ?_⟩) hname rfl
  -- Only files are moved.
  exact fun hdirectory => absurd (hfile.symm.trans hdirectory) (by decide)

/-! ## The run -/

theorem new_of_split {before after sources : List OperationPlanSource} (hnodup : sources.Nodup)
    (h : before ++ source :: after = [] ++ sources) : source ∈ sources ∧ source ∉ before := by
  rw [nil_append] at h
  rw [← h] at hnodup ⊢
  refine ⟨mem_append_right _ mem_cons_self, fun hmem => ?_⟩
  exact disjoint_of_nodup_append hnodup hmem mem_cons_self

theorem destinationDirectory_proper (h : OperationPlanInput.DestinationOk destination) :
    (destinationDirectory destination).Proper := by
  refine ⟨h.identity, ?_⟩
  unfold destinationDirectory
  split
  · exact trimTrailingSlashes_valid h.path
  · exact parentPath_valid h.path

theorem planned_start (plan : OperationPlan) (decision : OperationPlanConflictDecision)
    (ht : Probing probes {} t) (hready : DirectoryReady probes plan destination evidence t.report) :
    Planned probes plan destination decision evidence [] [] t := by
  have hitems : t.report.items = [] := congrArg Outcome.items ht.outcome
  have hconflicts : t.report.conflicts = [] := congrArg Outcome.conflicts ht.outcome
  refine ⟨ht.sound, hready, ?_, ?_, ?_, ?_, ?_, fun _ h => nomatch h⟩
  · rw [hitems]
    rfl
  · rw [hitems]
    exact fun _ h => nomatch h
  · rw [hitems]
    exact fun _ h => nomatch h
  · rw [hconflicts]
    exact fun _ h => nomatch h
  · rw [hitems]
    exact fun _ => ⟨nodup_nil, fun _ h => nomatch h⟩

variable {policy : OperationPlanConflictPolicy}

theorem runCopy_ensures (htype : plan.type = .copy) (hdestination : plan.destination = some destination)
    (hpolicy : plan.conflictPolicy = some policy) :
    (runCopy probes plan).Ensures {} (fun _ t => ∃ evidence,
      Planned probes plan destination policy.decision evidence plan.sources plan.sources t) Q := by
  have hok := plan.wellFormed.destination destination hdestination
  have hdecision := (plan.wellFormed.policy policy hpolicy).1
  have hcopy : plan.type ≠ .move := by
    rw [htype]
    exact fun h => nomatch h
  have hwrite : destinationAccess plan.type = .write := if_neg hcopy
  unfold runCopy
  rw [hdestination, hpolicy]
  refine Ensures.bind (R := fun found t => policy = found ∧ t = {})
    (orLeave_ensures (Ensures.pure ⟨policy, rfl, rfl, rfl⟩)) ?_
  rintro _ _ ⟨rfl, rfl⟩
  refine blockIf_bind_ensures fun _ => ?_
  refine Ensures.bind (R := fun found t => destination = found ∧ t = {})
    (orLeave_ensures (Ensures.pure ⟨destination, rfl, rfl, rfl⟩)) ?_
  rintro _ _ ⟨rfl, rfl⟩
  refine Ensures.bind (checkDestination_ensures sound_start (destinationDirectory_proper hok)) ?_
  rintro _ t₁ ⟨evidence, rfl, h₁, hprovided, hprobed, hgranted⟩
  have hstart := planned_start plan policy.decision h₁ ⟨hprovided, hprobed, hwrite ▸ hgranted⟩
  refine Ensures.bind (Ensures.forEach (fun done =>
    Planned probes plan destination policy.decision evidence done done)
    (fun _ _ h => h.sound.running) [] plan.sources ?_ hstart) ?_
  · intro before source after t hall ht
    obtain ⟨hsource, hnew⟩ := new_of_split plan.wellFormed.nodup hall
    exact planSource_ensures hcopy hok hdecision ht hsource hnew
  intro _ t₂ h₂
  refine Ensures.bind (calculateTotals_ensures h₂.sound) fun _ t₃ h₃ => ?_
  refine Ensures.bind (R := fun _ t => t = t₃) (Ensures.read rfl) ?_
  rintro now _ rfl
  refine Ensures.bind (R := fun _ t => Probing probes t₂ t) (Ensures.doIf
    (fun _ => (checkSpace_ensures h₃.sound).weaken (fun _ _ h => h₃.trans h) fun _ h => h)
    fun _ => h₃) ?_
  intro _ t₄ h₄
  refine Ensures.bind (addWarning_ensures h₄.sound) fun _ t₅ h₅ => ?_
  refine (checkNothingToDo_ensures h₅.sound).weaken (fun _ t₆ h₆ => ?_) fun _ h => h
  exact ⟨evidence, h₂.probing ((h₄.trans h₅).trans h₆)⟩

theorem runMove_ensures (htype : plan.type = .move) (hdestination : plan.destination = some destination)
    (hpolicy : plan.conflictPolicy = some policy) :
    (runMove probes plan).Ensures {} (fun _ t => ∃ evidence,
      Planned probes plan destination policy.decision evidence plan.sources plan.sources t) Q := by
  have hok := plan.wellFormed.destination destination hdestination
  have hrename : destinationAccess plan.type = .rename := if_pos htype
  unfold runMove
  rw [hdestination, hpolicy]
  refine Ensures.bind (R := fun found t => policy = found ∧ t = {})
    (orLeave_ensures (Ensures.pure ⟨policy, rfl, rfl, rfl⟩)) ?_
  rintro _ _ ⟨rfl, rfl⟩
  refine Ensures.bind (R := fun found t => destination = found ∧ t = {})
    (orLeave_ensures (Ensures.pure ⟨destination, rfl, rfl, rfl⟩)) ?_
  rintro _ _ ⟨rfl, rfl⟩
  refine blockIf_bind_ensures fun _ => blockIf_bind_ensures fun _ => blockIf_bind_ensures fun hcross => ?_
  refine Ensures.bind (checkDestination_ensures sound_start (destinationDirectory_proper hok)) ?_
  rintro _ t₁ ⟨evidence, rfl, h₁, hprovided, hprobed, hgranted⟩
  have hstart := planned_start plan policy.decision h₁ ⟨hprovided, hprobed, hrename ▸ hgranted⟩
  refine Ensures.bind (Ensures.forEach (fun done =>
    Planned probes plan destination policy.decision evidence done done)
    (fun _ _ h => h.sound.running) [] plan.sources ?_ hstart) ?_
  · intro before source after t hall ht
    obtain ⟨hsource, hnew⟩ := new_of_split plan.wellFormed.nodup hall
    refine planMoveSource_ensures htype hok ht hsource hnew ?_
    exact not_not.mp fun hne => hcross ⟨source, hsource, hne⟩
  intro _ t₂ h₂
  exact (finish_ensures h₂.sound).weaken (fun _ _ h => ⟨evidence, h₂.probing h⟩) fun _ h => h

/-! ## Where the items are placed -/

section
variable (h : Planned probes plan destination decision evidence seen done s)
include h

/-- Where the item appears, when the destination is a directory. -/
theorem Planned.resolve_destination (hok : OperationPlanInput.DestinationOk destination)
    (hdirectory : destination.kind = .directory) (hitem : item ∈ s.report.items) :
    item.destination.providerId = destination.providerId ∧ resolve item.destination.absolutePath =
        descend (resolve destination.absolutePath) (baseName item.source.absolutePath) := by
  obtain ⟨-, heffective⟩ := h.effective item hitem
  rw [heffective]
  unfold effectiveDestination
  rw [if_pos hdirectory]
  exact ⟨rfl, resolve_joinPath hok.path (not_mem_baseName _)⟩

/-- No item takes the place of the planned directory itself. -/
theorem Planned.not_directory (hok : OperationPlanInput.DestinationOk destination)
    (hdirectory : destination.kind = .directory) (hitem : item ∈ s.report.items) :
    descend (resolve destination.absolutePath) (baseName item.source.absolutePath) ≠
      resolve destination.absolutePath := by
  intro hsame
  obtain ⟨hprovider, hresolve⟩ := h.resolve_destination hok hdirectory hitem
  have hnormalized : item.destination.normalized = (destinationDirectory destination).normalized := by
    refine OperationPlanningPath.normalized_eq_iff.mpr ⟨hprovider, ?_⟩
    unfold destinationDirectory
    rw [if_pos hdirectory, resolve_trimTrailingSlashes hok.path, hresolve, hsame]
  obtain hmissing | ⟨-, hkind, hprobed, -⟩ := (h.items item hitem).cleared
  · have hboth := h.sound.probed_unique hnormalized hmissing h.directory.probed
    cases hboth
  · exact hkind (h.sound.probed_unique hnormalized hprobed h.directory.probed)

theorem Planned.placed (hok : OperationPlanInput.DestinationOk destination)
    (hitem : item ∈ s.report.items)
    (hup : destination.kind = .exactItem ∨ baseName item.source.absolutePath ≠ dotDot) :
    PlacedAt destination item := by
  obtain ⟨hname, heffective⟩ := h.effective item hitem
  unfold PlacedAt
  by_cases hkind : destination.kind = .exactItem
  · rw [if_pos hkind, heffective]
    unfold effectiveDestination
    rw [hkind]
    exact ⟨rfl, rfl⟩
  · have hdirectory := hok.directory_of_not_exact hkind
    obtain ⟨hprovider, hresolve⟩ := h.resolve_destination hok hdirectory hitem
    have hnot := h.not_directory hok hdirectory hitem
    rw [if_neg hkind, hresolve]
    refine ⟨hprovider, baseName item.source.absolutePath, Path.descend_name ?_ _⟩
    refine ⟨hname, not_mem_baseName _, fun hdot => hnot ?_, hup.resolve_left hkind⟩
    rw [hdot]
    rfl

/-- An item named ".." is not placed in the planned directory. -/
theorem Planned.not_placed (hok : OperationPlanInput.DestinationOk destination)
    (hdirectory : destination.kind = .directory) (hitem : item ∈ s.report.items)
    (hup : baseName item.source.absolutePath = dotDot) : ¬PlacedAt destination item := by
  intro hplaced
  obtain ⟨-, hresolve⟩ := h.resolve_destination hok hdirectory hitem
  have hplace := hplaced.2
  rw [if_neg (by rw [hdirectory]; decide), hresolve, hup] at hplace
  obtain ⟨name, hname⟩ := hplace
  have hparent : descend (resolve destination.absolutePath) dotDot =
      (resolve destination.absolutePath).dropLast := rfl
  have hlength := congrArg List.length hname
  rw [hparent, length_dropLast, length_append, length_singleton] at hlength
  omega

end

/-- Effective destinations differ. -/
theorem Planned.distinct (h : Planned probes plan destination decision evidence plan.sources plan.sources s) :
    (s.report.items.map fun item =>
      names evidence.pathIdentity.caseSensitive item.destination.absolutePath).Nodup := by
  by_cases hmany : 1 < plan.sources.length
  · have hkeys := (h.claimed hmany).1
    have hmap : (s.report.items.map fun item => destinationKey evidence.pathIdentity item.destination) =
        (s.report.items.map fun item =>
          names evidence.pathIdentity.caseSensitive item.destination.absolutePath).map
          fun path => destination.providerId ++ 0 :: render path := by
      rw [map_map]
      refine map_congr_left fun item hitem => ?_
      have hprovider : item.destination.providerId = destination.providerId := by
        rw [(h.effective item hitem).2]
        rfl
      unfold destinationKey
      rw [hprovider, comparablePath_eq]
      rfl
    rw [hmap] at hkeys
    exact Nodup.of_map _ hkeys
  · have hlength : (s.report.items.map (·.source)).length ≤ 1 := by
      rw [h.sources]
      refine le_trans (length_filter_le _ _) ?_
      rw [length_map]
      omega
    cases hitems : s.report.items with
    | nil => exact nodup_nil
    | cons item rest =>
      rw [hitems, length_map, length_cons] at hlength
      rw [length_eq_zero_iff.mp (by omega : rest.length = 0)]
      exact nodup_singleton _

end Loop

/-! ## When the report is sound -/

/-- No source named ".." is kept in a planned directory: each is dropped by the Skip policy,
  because the parent of the directory exists. -/
def UpwardSourcesDropped (probes : OperationPlanningProbes) (plan : OperationPlan)
    (destination : OperationPlanDestination) (policy : OperationPlanConflictPolicy)
    (report : OperationPreflightReport) : Prop :=
  destination.kind = .exactItem ∨ ∀ source ∈ plan.sources, baseName source.absolutePath = dotDot →
    policy.decision = .skip ∧
      ¬report.Probed probes (effectiveDestination destination dotDot) .missing

/-- An accepted copy or move is sound exactly when every source named ".." is dropped, or the
  destination is an exact item. -/
theorem preflight_transferSound_iff (probes : OperationPlanningProbes) (plan plan' : OperationPlan)
    (report : OperationPreflightReport) (destination : OperationPlanDestination)
    (policy : OperationPlanConflictPolicy) (htype : plan.type = .copy ∨ plan.type = .move)
    (hdestination : plan.destination = some destination)
    (hpolicy : plan.conflictPolicy = some policy)
    (haccepted : preflight probes plan = .accepted plan' report) :
    TransferSound probes plan destination policy report ↔
      UpwardSourcesDropped probes plan destination policy report := by
  have hrun : (run probes plan).Ensures {} (fun _ t => ∃ evidence,
      Planned probes plan destination policy.decision evidence plan.sources plan.sources t)
      (fun t => ∃ evidence,
        Planned probes plan destination policy.decision evidence plan.sources plan.sources t) := by
    unfold run
    obtain htype | htype := htype
    · rw [htype]
      exact runCopy_ensures htype hdestination hpolicy
    · rw [htype]
      exact runMove_ensures htype hdestination hpolicy
  obtain ⟨-, s, ⟨evidence, hs⟩, rfl⟩ := preflight_accepted hrun haccepted
  have hok := plan.wellFormed.destination destination hdestination
  constructor
  · intro h
    by_cases hkind : destination.kind = .exactItem
    · exact .inl hkind
    refine .inr fun source hsource hup => ?_
    have hdirectory : destination.kind = .directory := hok.directory_of_not_exact hkind
    -- The source is no item, so a conflict has dropped it.
    have hskipped : skipped s.report (sourcePath source) := by
      by_contra hkept
      have hmem : sourcePath source ∈ s.report.items.map (·.source) := by
        rw [h.sources]
        refine mem_filter.mpr ⟨mem_map_of_mem hsource, ?_⟩
        rw [eq_false_iff.mpr hkept]
        rfl
      obtain ⟨item, hitem, heq⟩ := mem_map.mp hmem
      refine hs.not_placed hok hdirectory hitem ?_ (h.placed item hitem)
      rw [heq]
      exact hup
    obtain ⟨c, hc, hskip⟩ := any_eq_true.mp hskipped
    obtain ⟨hcsource, hcskip⟩ := and_eq_true_iff.mp hskip
    obtain ⟨-, hdecision, hplace, kind, hkind', hprobed⟩ := hs.conflicts c hc
    have hcup : baseName c.source.absolutePath = dotDot := by
      rw [of_decide_eq_true hcsource]
      exact hup
    rw [hcup] at hplace
    rw [hplace] at hprobed
    refine ⟨hdecision.symm.trans (of_decide_eq_true hcskip), fun hmissing => hkind' ?_⟩
    exact hs.sound.probed_unique rfl hprobed hmissing
  · intro h
    refine ⟨hs.sources, ?_, fun item hitem => hs.placed hok hitem ?_,
      ⟨evidence, hs.directory, hs.distinct, hs.items⟩, hs.access⟩
    · rw [hs.sources]
      exact (plan.wellFormed.nodup.map sourcePath_injective).filter _
    · refine h.imp_right fun hdropped hup => ?_
      have hmem : item.source ∈ s.report.items.map (·.source) := mem_map_of_mem hitem
      rw [hs.sources] at hmem
      obtain ⟨source, hsource, heq⟩ := mem_map.mp (mem_filter.mp hmem).1
      obtain ⟨hskip, hexists⟩ := hdropped source hsource (by rw [← hup, ← heq]; rfl)
      obtain hmissing | ⟨hreplace, -⟩ := (hs.items item hitem).cleared
      · rw [(hs.effective item hitem).2, hup] at hmissing
        exact hexists hmissing
      · exact absurd (hskip.symm.trans hreplace) (by decide)

/-- `/a`, `/b` and `/d/e` are directories of one file each, everything else is missing, and
  everything is allowed. -/
def directoryProbes : OperationPlanningProbes where
  provider _ _ := some (.ok
    { canCopyFrom := true, canCopyTo := true, pathIdentity := .exactBytes, canCopySymlinkTo := true })
  item _ path := some (.ok (if [ascii "/a", ascii "/b", ascii "/d/e"].contains
      (normalizeAbsolutePath path.absolutePath) then { kind := .directory }
    else { kind := .missing }))
  destinationName _ _ := none
  access _ _ _ := some (.ok { state := .granted })
  estimate _ _ _ := some (.ok { files := 1, bytes := 3 })
  space _ _ := some (.ok { availableBytes := some 100 })

/-- Copy `/a/x/..` into the directory `/d/e`. -/
def upwardPlan : OperationPlan where
  id := ascii "plan"
  type := .copy
  sources := [⟨ascii "native", ascii "/a/x/.."⟩]
  destination := some ⟨ascii "native", ascii "/d/e", .directory⟩
  conflictPolicy := some ⟨.ask, .thisItem⟩
  createdAt := 0
  valid := by decide

/-- The copy is accepted for the destination `/d`, next to the planned directory. -/
theorem preflight_copies_upwards : ∃ report item,
    preflight directoryProbes upwardPlan = .accepted upwardPlan report ∧ report.items = [item] ∧
      normalizeAbsolutePath item.destination.absolutePath = ascii "/d" ∧
      ¬TransferSound directoryProbes upwardPlan ⟨ascii "native", ascii "/d/e", .directory⟩
        ⟨.ask, .thisItem⟩ report := by
  refine ⟨_, ⟨⟨ascii "native", ascii "/a/x/.."⟩, ⟨ascii "native", ascii "/d/e/.."⟩, .directory,
    some { files := 1, bytes := 3 }⟩, preflight_of_clean (by decide +kernel), by decide +kernel,
    by decide +kernel, ?_⟩
  intro h
  have hplaced := h.placed ⟨⟨ascii "native", ascii "/a/x/.."⟩, ⟨ascii "native", ascii "/d/e/.."⟩,
    .directory, some { files := 1, bytes := 3 }⟩ (by decide +kernel)
  obtain ⟨-, name, hname⟩ := hplaced
  have hlength := congrArg List.length hname
  rw [length_append, length_singleton] at hlength
  exact absurd hlength (by decide +kernel)

/-- The condition is met by an accepted plan. -/
theorem preflight_transferSound_iff_copyPlan :
    TransferSound directoryProbes copyPlan ⟨ascii "native", ascii "/b", .directory⟩ ⟨.ask, .thisItem⟩
        ((run directoryProbes copyPlan).run {}).1.report ↔
      UpwardSourcesDropped directoryProbes copyPlan ⟨ascii "native", ascii "/b", .directory⟩
        ⟨.ask, .thisItem⟩ ((run directoryProbes copyPlan).run {}).1.report :=
  preflight_transferSound_iff directoryProbes copyPlan copyPlan _ _ _ (.inl rfl) rfl rfl
    (preflight_of_clean (by decide +kernel))

end WinCommander.Operations.Planner
