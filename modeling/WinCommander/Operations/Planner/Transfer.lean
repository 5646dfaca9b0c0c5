/-
  The preflight of a copy or a move: what one source of an accepted plan has passed.

  `TransferSound` is what the report of an accepted copy or move has to be. The loop over the
  sources keeps `Planned`; a source that leaves no blocker is either kept (`Planned.keep`) or
  dropped by a recorded Skip conflict (`Planned.skip`).
-/
import WinCommander.Operations.Planner.Evidence

namespace WinCommander.Operations.Planner

open Library
open Library.Path (resolve fold)
open Review (Ensures leaveIf doIf)

/-! ## What a report has to be -/

/-- The source and destination of an item differ, and a directory is not put into itself. -/
structure Apart (caseSensitive : Bool) (item : OperationPlannedCopyItem) : Prop where
  not_same : names caseSensitive item.source.absolutePath ≠
    names caseSensitive item.destination.absolutePath
  not_inside : item.sourceKind = .directory →
    ¬names caseSensitive item.source.absolutePath <+: names caseSensitive item.destination.absolutePath

/-- Nothing is in the way of the item, or it is a confirmed replacement of like by like. -/
def Cleared (probes : OperationPlanningProbes) (report : OperationPreflightReport)
    (decision : OperationPlanConflictDecision) (item : OperationPlannedCopyItem) : Prop :=
  report.Probed probes item.destination .missing ∨
    decision = .replace ∧ item.sourceKind ≠ .directory ∧
      report.Probed probes item.destination item.sourceKind ∧
      ⟨item.destination⟩ ∈ report.destructiveEffects ∧ report.requiresConfirmation = true

/-- Where the provider of a source is asked about it. -/
def providerPath (type : OperationPlanType) (source : OperationPlanningPath) : OperationPlanningPath :=
  if type = .move then source.parent else source

/-- A copy reads its sources, a move renames in their parents. -/
def sourceAccess (type : OperationPlanType) : OperationPlanningRequiredAccess :=
  if type = .move then .rename else .read

def destinationAccess (type : OperationPlanType) : OperationPlanningRequiredAccess :=
  if type = .move then .rename else .write

/-- The exact planned item, or a direct child of the planned directory. -/
def PlacedAt (destination : OperationPlanDestination) (item : OperationPlannedCopyItem) : Prop :=
  item.destination.providerId = destination.providerId ∧ if destination.kind = .exactItem then
      resolve item.destination.absolutePath = resolve destination.absolutePath
    else ∃ name, resolve item.destination.absolutePath = resolve destination.absolutePath ++ [name]

/-- The report has a Skip conflict for this source. -/
def skipped (report : OperationPreflightReport) (source : OperationPlanningPath) : Bool :=
  report.conflicts.any fun c => c.source = source && c.decision = .skip

/-- What a report shows about one planned item. -/
structure ItemSound (probes : OperationPlanningProbes) (plan : OperationPlan)
    (decision : OperationPlanConflictDecision) (identity : OperationPlanningPathIdentitySemantics)
    (report : OperationPreflightReport) (item : OperationPlannedCopyItem) : Prop where
  probed : report.Probed probes item.source item.sourceKind
  /-- Within one provider, under the semantics of both ends. -/
  apart : item.source.providerId = item.destination.providerId → ∃ evidence,
    report.Provided probes (providerPath plan.type item.source) evidence ∧
      Apart (evidence.pathIdentity.combine identity).caseSensitive item
  cleared : Cleared probes report decision item

/-- What the report shows about the directory that the items appear in. -/
structure DirectoryReady (probes : OperationPlanningProbes) (plan : OperationPlan)
    (destination : OperationPlanDestination) (evidence : OperationPlanningProviderEvidence)
    (report : OperationPreflightReport) : Prop where
  provided : report.Provided probes (destinationDirectory destination) evidence
  probed : report.Probed probes (destinationDirectory destination) .directory
  granted : report.Granted probes (destinationDirectory destination) (destinationAccess plan.type)

/-- What the report of an accepted copy or move has to be. -/
structure TransferSound (probes : OperationPlanningProbes) (plan : OperationPlan)
    (destination : OperationPlanDestination) (policy : OperationPlanConflictPolicy)
    (report : OperationPreflightReport) : Prop where
  /-- Exactly the sources, in order, but for those that a Skip conflict drops. -/
  sources : report.items.map (·.source) =
    (plan.sources.map sourcePath).filter fun source => !skipped report source
  once : (report.items.map (·.source)).Nodup
  placed : ∀ item ∈ report.items, PlacedAt destination item
  reviewed : ∃ evidence, DirectoryReady probes plan destination evidence report ∧
    (report.items.map fun item =>
      names evidence.pathIdentity.caseSensitive item.destination.absolutePath).Nodup ∧
    ∀ item ∈ report.items, ItemSound probes plan policy.decision evidence.pathIdentity report item
  access : ∀ source ∈ plan.sources,
    report.Granted probes (providerPath plan.type (sourcePath source)) (sourceAccess plan.type)

/-! ## Reports that grow -/

variable {probes : OperationPlanningProbes} {plan : OperationPlan} {s t u : RunState}

/-- The report shows at least as much, and forgets no destructive effect. -/
structure Extends (r r' : OperationPreflightReport) : Prop where
  grew : Grew r r'
  destructive : r.destructiveEffects ⊆ r'.destructiveEffects
  confirmation : r.requiresConfirmation = true → r'.requiresConfirmation = true

variable {r r' : OperationPreflightReport}

theorem ItemSound.mono {item : OperationPlannedCopyItem}
    (h : ItemSound probes plan decision identity r item) (hext : Extends r r') :
    ItemSound probes plan decision identity r' item := by
  refine ⟨hext.grew.probed h.probed, fun hsame => ?_, ?_⟩
  · obtain ⟨evidence, hprovided, hapart⟩ := h.apart hsame
    exact ⟨evidence, hext.grew.provided hprovided, hapart⟩
  · rcases h.cleared with hmissing | ⟨hreplace, hkind, hprobed, heffect, hconfirmation⟩
    · exact .inl (hext.grew.probed hmissing)
    · exact .inr ⟨hreplace, hkind, hext.grew.probed hprobed, hext.destructive heffect,
        hext.confirmation hconfirmation⟩

theorem DirectoryReady.grew (h : DirectoryReady probes plan destination evidence r)
    (hgrew : Grew r r') : DirectoryReady probes plan destination evidence r' :=
  ⟨hgrew.provided h.provided, hgrew.probed h.probed, hgrew.granted h.granted⟩

/-- From `s` to `t`, evidence has grown and the outcome has become `o`. -/
structure Reached (probes : OperationPlanningProbes) (s : RunState) (o : Outcome) (t : RunState) :
    Prop where
  sound : Sound probes t
  grew : Grew s.report t.report
  outcome : t.outcome = o

theorem Probing.reached (h : Probing probes s t) : Reached probes s s.outcome t :=
  ⟨h.sound, h.grew, h.outcome⟩

theorem Reached.probing (h : Reached probes s o t) (h' : Probing probes t u) :
    Reached probes s o u :=
  ⟨h'.sound, h.grew.trans h'.grew, h'.outcome.trans h.outcome⟩

/-- A change of the outcome alone. -/
theorem Reached.update (f : Outcome → Outcome) (h : Reached probes s o t)
    (hevidence : u.evidence = t.evidence) (houtcome : u.outcome = f t.outcome) :
    Reached probes s (f o) u :=
  ⟨h.sound.untouched hevidence, h.grew.trans (Grew.untouched hevidence),
    houtcome.trans (congrArg f h.outcome)⟩

/-! ## The stages of one source -/

section Stages

variable {destination : OperationPlanDestination} {decision : OperationPlanConflictDecision}
  {evidence : OperationPlanningProviderEvidence} {source effective : OperationPlanningPath}
  {Q : RunState → Prop}

theorem checkDestination_ensures (hs : Sound probes s) (hdirectory : directory.Proper) :
    (checkDestination probes capable required directory).Ensures s (fun found t => ∃ evidence,
      found = (some evidence, true) ∧ Probing probes s t ∧ t.report.Provided probes directory evidence ∧
        t.report.Probed probes directory .directory ∧ t.report.Granted probes directory required) Q := by
  refine Ensures.bind (provider_ensures hs hdirectory) ?_
  rintro _ t ⟨evidence, rfl, ht, hprovided⟩
  dsimp only
  split
  · refine Ensures.bind (item_ensures ht.sound hdirectory) ?_
    rintro _ u ⟨directoryItem, rfl, hu, hshown⟩
    dsimp only
    split
    · exact addBlocker_bind_ensures
    · split
      · exact addBlocker_bind_ensures
      · next hkind =>
          refine Ensures.bind (access_ensures hu.sound hdirectory) ?_
          rintro _ v ⟨rfl, hv, hgranted⟩
          refine Ensures.pure ⟨evidence, by rw [decide_eq_true rfl], (ht.trans hu).trans hv, ?_, ?_,
            hgranted⟩
          · exact (hu.trans hv).grew.provided hprovided
          · exact ⟨directoryItem, not_not.mp hkind, hv.grew.shown hshown⟩
  · exact addBlocker_bind_ensures

theorem checkDestinationName_ensures (hs : Sound probes s) :
    (checkDestinationName probes effective).Ensures s (fun _ t => Probing probes s t) Q := by
  refine Ensures.bind (orLeave_ensures (destinationName_ensures hs)) ?_
  intro name t ht
  exact blockIf_ensures fun _ => ht

/-- What the checks on a source establish. -/
structure SourceChecked (probes : OperationPlanningProbes) (type : OperationPlanType)
    (source : OperationPlanningPath) (found : OperationPlanningProviderEvidence × OperationPlanningItemEvidence)
    (s t : RunState) : Prop where
  probing : Probing probes s t
  provided : t.report.Provided probes (providerPath type source) found.1
  probed : t.report.Probed probes source found.2.kind
  granted : t.report.Granted probes (providerPath type source) (sourceAccess type)
  kind : found.2.kind ≠ .missing

variable {destinationProvider : Option OperationPlanningProviderEvidence}
  {comparison : OperationPlanningPathIdentitySemantics}

theorem checkSource_ensures (htype : plan.type ≠ .move) (hs : Sound probes s)
    (hsource : source.Proper) :
    (checkSource probes destination destinationProvider source effective).Ensures s
      (fun found => SourceChecked probes plan.type source found s) Q := by
  have hprovider : providerPath plan.type source = source := if_neg htype
  have haccess : sourceAccess plan.type = .read := if_neg htype
  refine Ensures.bind (orLeave_ensures (provider_ensures hs hsource)) ?_
  rintro sourceProvider t₁ ⟨h₁, hprovided⟩
  refine blockIf_bind_ensures fun _ => ?_
  refine Ensures.bind (orLeave_ensures (item_ensures h₁.sound hsource)) ?_
  rintro sourceItem t₂ ⟨h₂, hshown⟩
  refine blockIf_bind_ensures fun hmissing => blockIf_bind_ensures fun _ =>
    blockIf_bind_ensures fun _ => ?_
  refine Ensures.bind (R := fun _ t => Probing probes t₂ t)
    (Ensures.doIf (fun _ => checkDestinationName_ensures h₂.sound) fun _ => Probing.refl h₂.sound) ?_
  intro _ t₃ h₃
  refine Ensures.bind (grantedOrLeave_ensures h₃.sound hsource) ?_
  rintro _ t₄ ⟨h₄, hgranted⟩
  refine Ensures.bind (leaveIfCancelled_ensures h₄.sound) ?_
  rintro _ t₅ rfl
  refine Ensures.pure ⟨((h₁.trans h₂).trans h₃).trans h₄, ?_, ?_, ?_, hmissing⟩
  · rw [hprovider]
    exact ((h₂.trans h₃).trans h₄).grew.provided hprovided
  · exact ⟨sourceItem, rfl, (h₃.trans h₄).grew.shown hshown⟩
  · rw [hprovider, haccess]
    exact hgranted

theorem checkMoveSource_ensures (htype : plan.type = .move) (hs : Sound probes s)
    (hsource : source.Proper) : (checkMoveSource probes destination source effective).Ensures s
      (fun found t => SourceChecked probes plan.type source found s t ∧ found.2.kind = .file) Q := by
  have hprovider : providerPath plan.type source = source.parent := if_pos htype
  have haccess : sourceAccess plan.type = .rename := if_pos htype
  have hparent := hsource.parent
  refine Ensures.bind (orLeave_ensures (provider_ensures hs hparent)) ?_
  rintro sourceProvider t₁ ⟨h₁, hprovided⟩
  refine blockIf_bind_ensures fun _ => ?_
  refine Ensures.bind (orLeave_ensures (item_ensures h₁.sound hparent)) ?_
  rintro parentItem t₂ ⟨h₂, -⟩
  refine blockIf_bind_ensures fun _ => ?_
  refine Ensures.bind (orLeave_ensures (item_ensures h₂.sound hsource)) ?_
  rintro sourceItem t₃ ⟨h₃, hshown⟩
  refine blockIf_bind_ensures fun hmissing => blockIf_bind_ensures fun hfile => ?_
  refine Ensures.bind (R := fun _ t => Probing probes t₃ t)
    (Ensures.doIf (fun _ => checkDestinationName_ensures h₃.sound) fun _ => Probing.refl h₃.sound) ?_
  intro _ t₄ h₄
  refine Ensures.bind (grantedOrLeave_ensures h₄.sound hparent) ?_
  rintro _ t₅ ⟨h₅, hgranted⟩
  refine Ensures.bind (leaveIfCancelled_ensures h₅.sound) ?_
  rintro _ t₆ rfl
  have hlast := h₄.trans h₅
  refine Ensures.pure ⟨⟨((h₁.trans h₂).trans h₃).trans hlast, ?_, ?_, ?_, hmissing⟩, not_not.mp hfile⟩
  · rw [hprovider]
    exact ((h₂.trans h₃).trans hlast).grew.provided hprovided
  · exact ⟨sourceItem, rfl, hlast.grew.shown hshown⟩
  · rw [hprovider, haccess]
    exact hgranted

theorem checkNotSame_ensures (hsame : source.providerId = effective.providerId) :
    (checkNotSame comparison source effective).Ensures s (fun _ t => t = s ∧
      names comparison.caseSensitive source.absolutePath ≠
        names comparison.caseSensitive effective.absolutePath) Q := by
  refine blockIf_bind_ensures fun _ => blockIf_ensures fun h => ⟨rfl, fun heq => h ?_⟩
  exact samePath_iff.mpr ⟨hsame, heq⟩

theorem checkNotRecursive_ensures (hsame : source.providerId = effective.providerId) :
    (checkNotRecursive comparison source effective kind).Ensures s (fun _ t => t = s ∧
      ∀ estimated, Apart comparison.caseSensitive ⟨source, effective, kind, estimated⟩) Q := by
  refine Ensures.bind (checkNotSame_ensures hsame) ?_
  rintro _ t ⟨rfl, hne⟩
  refine blockIf_ensures fun h => ⟨rfl, fun _ => ⟨hne, fun hkind hinside => h ⟨hkind, ?_⟩⟩⟩
  exact isDescendant_iff.mpr ⟨hsame, hinside, hne⟩

/-- The outcome after a conflict that drops the source. -/
def Outcome.skip (o : Outcome) (c : OperationPlanningConflict) : Outcome :=
  { o with conflicts := o.conflicts ++ [c] }

/-- The outcome after a conflict that replaces the destination. -/
def Outcome.replace (o : Outcome) (c : OperationPlanningConflict) : Outcome :=
  { o with
    conflicts := o.conflicts ++ [c]
    destructiveEffects := o.destructiveEffects ++ [⟨c.destination⟩]
    requiresConfirmation := true }

theorem resolveConflict_ensures (hs : Sound probes s) (heffective : effective.Proper)
    (hdecision : decision.isValid = true) :
    (resolveConflict probes decision source effective sourceItem destinationItem).Ensures s
      (fun _ t => decision = .replace ∧ sourceItem.kind = destinationItem.kind ∧
        sourceItem.kind ≠ .directory ∧
        Reached probes s (s.outcome.replace ⟨source, effective, decision⟩) t)
      (fun t => decision = .skip ∧
        Reached probes s (s.outcome.skip ⟨source, effective, decision⟩) t) := by
  refine updateReport_bind_ensures ?_
  generalize hrecorded : ({ s with report := { s.report with
    conflicts := s.report.conflicts ++ [⟨source, effective, decision⟩] } } : RunState) = r
  have hr : Reached probes s (s.outcome.skip ⟨source, effective, decision⟩) r := by
    rw [← hrecorded]
    exact ⟨hs.untouched rfl, Grew.untouched rfl, rfl⟩
  cases decision with
  | ask => exact block_ensures
  | mergeFolders => exact block_ensures
  | keepBoth => exact block_ensures
  | renameNew => exact block_ensures
  | renameExisting => exact block_ensures
  | outside _ => cases hdecision
  | skip => exact Ensures.leave ⟨rfl, hr⟩
  | replace =>
    refine blockIf_bind_ensures fun hkinds => blockIf_bind_ensures fun hdirectory => ?_
    refine Ensures.bind (orLeave_ensures (provider_ensures hr.sound heffective)) ?_
    rintro replacement t₁ ⟨h₁, -⟩
    refine blockIf_bind_ensures fun _ => ?_
    refine Ensures.bind (grantedOrLeave_ensures h₁.sound heffective) ?_
    rintro _ t₂ ⟨h₂, -⟩
    have hready := (hr.probing h₁).probing h₂
    refine updateReport_bind_ensures ?_
    generalize hdestructive : ({ t₂ with report := { t₂.report with
      destructiveEffects := t₂.report.destructiveEffects ++ [⟨effective⟩] } } : RunState) = v
    have hv := hready.update (u := v)
      (fun o => { o with destructiveEffects := o.destructiveEffects ++ [⟨effective⟩] })
      (by rw [← hdestructive]; rfl) (by rw [← hdestructive]; rfl)
    refine Ensures.bind (addWarning_ensures hv.sound) ?_
    intro _ t₃ h₃
    refine updateReport_ensures ⟨rfl, not_not.mp hkinds, hdirectory, ?_⟩
    exact (hv.probing h₃).update (fun o => { o with requiresConfirmation := true }) rfl rfl

/-- The key of an effective destination in the set of those taken. -/
def destinationKey (identity : OperationPlanningPathIdentitySemantics)
    (destination : OperationPlanningPath) : Bytes :=
  destination.providerId ++ 0 :: comparablePath identity.caseSensitive destination.absolutePath

def Outcome.claim (o : Outcome) (key : Bytes) : Outcome :=
  { o with effectiveDestinations := key :: o.effectiveDestinations }

theorem claimDestination_ensures (hs : Sound probes s) :
    (claimDestination identity effective).Ensures s
      (fun _ t => destinationKey identity effective ∉ s.effectiveDestinations ∧
        Reached probes s (s.outcome.claim (destinationKey identity effective)) t) Q := by
  refine blockIf_bind_ensures fun _ => ?_
  refine Ensures.bind (R := fun taken t => taken = s.effectiveDestinations ∧ t = s)
    (Ensures.read ⟨rfl, rfl⟩) ?_
  rintro _ t ⟨rfl, rfl⟩
  refine blockIf_bind_ensures fun hfresh => Ensures.modify fun _ => ⟨hfresh, ?_⟩
  exact (Probing.refl hs).reached.update (fun o => o.claim (destinationKey identity effective)) rfl rfl

def Outcome.keep (o : Outcome) (item : OperationPlannedCopyItem) : Outcome :=
  { o with items := o.items ++ [item] }

theorem addItem_ensures {item : OperationPlannedCopyItem} (hs : Sound probes s) :
    (addItem item).Ensures s (fun _ t => Reached probes s (s.outcome.keep item) t) Q :=
  updateReport_ensures ((Probing.refl hs).reached.update (fun o => o.keep item) rfl rfl)

theorem planItem_ensures {sourceItem : OperationPlanningItemEvidence} (hs : Sound probes s) :
    (planItem probes destinationProvider source effective sourceItem).Ensures s
      (fun _ t => ∃ estimated,
        Reached probes s (s.outcome.keep ⟨source, effective, sourceItem.kind, estimated⟩) t) Q := by
  refine Ensures.bind (R := fun _ t => t = s) (Ensures.read rfl) ?_
  rintro before t rfl
  refine Ensures.bind (R := fun _ u => Probing probes t u) ?_ ?_
  · unfold estimateItem
    split
    · exact Ensures.pure (Probing.refl hs)
    · exact estimate_ensures hs
  · intro estimated u hu
    refine blockIf_bind_ensures fun _ => blockIf_bind_ensures fun _ => ?_
    refine Ensures.bind (R := fun _ v => v = u) (Ensures.read rfl) ?_
    rintro now v rfl
    refine blockIf_bind_ensures fun _ => ?_
    refine (addItem_ensures hu.sound).weaken (fun _ w hw => ⟨estimated, ?_⟩) fun _ h => h
    exact ⟨hw.sound, hu.grew.trans hw.grew, by rw [hw.outcome, hu.outcome]⟩

end Stages

end WinCommander.Operations.Planner
