/-
  What a preflight run knows, as long as nothing blocks it.

  `Sound` is the invariant of a run without blockers: every cached answer is a good one, is
  what a probe answered, and is shown in the report under its own path. `Probing` relates the
  states before and after a part of the run that only asks: the invariant holds again, the
  report shows at least as much, and nothing is planned. Each probe has one specification:
  without a blocker it never returns null, and what it returns is shown.
-/
import WinCommander.Operations.Planner.Preflight

namespace WinCommander.Operations.Planner

open Library List
open Review (Ensures read leave orLeave leaveIf doIf forEach)

variable {probes : OperationPlanningProbes} {s t : RunState}

/-! ## The invariant -/

/-- Every cached answer is a good one, and satisfies `Q` with its key. -/
def Recorded {α : Type} (cache : Cache α) (Q : Bytes → α → Prop) : Prop :=
  ∀ key result, (key, result) ∈ cache → ∃ evidence, result = .ok evidence ∧ Q key evidence

theorem Recorded.mono (h : Recorded cache Q) (hQR : ∀ key evidence, Q key evidence → R key evidence)
    : Recorded cache R := by
  intro key result hmem
  obtain ⟨evidence, hok, hQ⟩ := h key result hmem
  exact ⟨evidence, hok, hQR key evidence hQ⟩

theorem Recorded.cons {α : Type} {cache : Cache α} {Q : Bytes → α → Prop} {key : Bytes}
    {evidence : α} (h : Recorded cache Q) (hQ : Q key evidence) :
    Recorded ((key, .ok evidence) :: cache) Q := by
  intro key' result hmem
  rcases mem_cons.mp hmem with heq | hmem
  · obtain ⟨rfl, rfl⟩ := Prod.mk.inj heq
    exact ⟨evidence, rfl, hQ⟩
  · exact h key' result hmem

/-- The run without blockers. -/
structure Sound (probes : OperationPlanningProbes) (s : RunState) : Prop where
  running : s.cancelled = false
  provider : Recorded s.providerCache fun key evidence =>
    ∃ path, path.Proper ∧ key = path.key ∧ s.report.Provided probes path evidence
  item : Recorded s.itemCache fun key evidence =>
    ∃ path, path.Proper ∧ key = path.itemKey ∧ s.report.Shown probes path evidence
  name : Recorded s.nameCache fun _ _ => True
  access : Recorded s.accessCache fun key evidence =>
    ∃ path required, path.Proper ∧ key = accessKey path required ∧ evidence = ⟨.granted⟩ ∧
      s.report.Granted probes path required
  /-- One snapshot for each item. -/
  once : (s.report.itemEvidence.map (·.path)).Nodup
  snapshot_cached : ∀ snapshot ∈ s.report.itemEvidence,
    ∃ result, (snapshot.path.key, result) ∈ s.itemCache

theorem sound_start : Sound probes {} :=
  ⟨rfl, fun _ _ h => (nomatch h), fun _ _ h => (nomatch h), fun _ _ h => (nomatch h),
    fun _ _ h => (nomatch h), nodup_nil, fun _ h => nomatch h⟩

/-- The report shows at least as much. -/
structure Grew (r r' : OperationPreflightReport) : Prop where
  provider : r.providerEvidence ⊆ r'.providerEvidence
  item : r.itemEvidence ⊆ r'.itemEvidence
  access : r.accessEvidence ⊆ r'.accessEvidence

namespace Grew

variable {r r' r'' : OperationPreflightReport} {path : OperationPlanningPath}

theorem refl (r : OperationPreflightReport) : Grew r r :=
  ⟨Subset.refl _, Subset.refl _, Subset.refl _⟩

section
variable (h : Grew r r')
include h

theorem trans (h' : Grew r' r'') : Grew r r'' :=
  ⟨Subset.trans h.provider h'.provider, Subset.trans h.item h'.item,
    Subset.trans h.access h'.access⟩

theorem provided (hr : r.Provided probes path evidence) : r'.Provided probes path evidence :=
  ⟨h.provider hr.1, hr.2⟩

theorem shown (hr : r.Shown probes path evidence) : r'.Shown probes path evidence :=
  ⟨h.item hr.1, hr.2⟩

theorem probed (hr : r.Probed probes path kind) : r'.Probed probes path kind := by
  obtain ⟨evidence, hkind, hshown⟩ := hr
  exact ⟨evidence, hkind, h.shown hshown⟩

theorem granted (hr : r.Granted probes path required) : r'.Granted probes path required :=
  ⟨h.access hr.1, hr.2⟩

end

end Grew

/-- Everything of a run's state but its evidence. -/
structure Outcome where
  items : List OperationPlannedCopyItem
  deletedItems : List OperationPlannedDeleteItem
  conflicts : List OperationPlanningConflict
  destructiveEffects : List OperationPlanningDestructiveEffect
  requiresConfirmation : Bool
  effectiveDestinations : List Bytes

def RunState.outcome (s : RunState) : Outcome :=
  ⟨s.report.items, s.report.deletedItems, s.report.conflicts, s.report.destructiveEffects,
    s.report.requiresConfirmation, s.effectiveDestinations⟩

/-- From `s` to `t` the run has only asked. -/
structure Probing (probes : OperationPlanningProbes) (s t : RunState) : Prop where
  sound : Sound probes t
  grew : Grew s.report t.report
  outcome : t.outcome = s.outcome

theorem Probing.refl (h : Sound probes s) : Probing probes s s := ⟨h, Grew.refl _, rfl⟩

theorem Probing.trans (h : Probing probes s t) (h' : Probing probes t u) : Probing probes s u :=
  ⟨h'.sound, h.grew.trans h'.grew, h'.outcome.trans h.outcome⟩

/-- All that the invariant speaks of. -/
def RunState.evidence (s : RunState) :=
  (s.cancelled, s.providerCache, s.itemCache, s.nameCache, s.accessCache,
    s.report.providerEvidence, s.report.itemEvidence, s.report.accessEvidence)

theorem Grew.untouched (h : t.evidence = s.evidence) : Grew s.report t.report := by
  unfold RunState.evidence at h
  simp only [Prod.mk.injEq] at h
  obtain ⟨-, -, -, -, -, hprovider, hitem, haccess⟩ := h
  refine ⟨?_, ?_, ?_⟩
  · rw [hprovider]
    exact Subset.refl _
  · rw [hitem]
    exact Subset.refl _
  · rw [haccess]
    exact Subset.refl _

theorem Sound.untouched (hs : Sound probes s) (h : t.evidence = s.evidence) : Sound probes t := by
  have hgrew := Grew.untouched h
  unfold RunState.evidence at h
  simp only [Prod.mk.injEq] at h
  obtain ⟨hcancelled, hproviders, hitems, hnames, haccesses, -, hitem, -⟩ := h
  refine ⟨?_, ?_, ?_, ?_, ?_, ?_, ?_⟩
  · rw [hcancelled]
    exact hs.running
  · rw [hproviders]
    refine hs.provider.mono ?_
    rintro key evidence ⟨path, hpath, hkey, hprovided⟩
    exact ⟨path, hpath, hkey, hgrew.provided hprovided⟩
  · rw [hitems]
    refine hs.item.mono ?_
    rintro key evidence ⟨path, hpath, hkey, hshown⟩
    exact ⟨path, hpath, hkey, hgrew.shown hshown⟩
  · rw [hnames]
    exact hs.name
  · rw [haccesses]
    refine hs.access.mono ?_
    rintro key evidence ⟨path, required, hpath, hkey, heq, hgranted⟩
    exact ⟨path, required, hpath, hkey, heq, hgrew.granted hgranted⟩
  · rw [hitem]
    exact hs.once
  · rw [hitem, hitems]
    exact hs.snapshot_cached

/-- Neither evidence nor outcome changed. -/
theorem Probing.untouched (hs : Sound probes s) (hevidence : t.evidence = s.evidence)
    (houtcome : t.outcome = s.outcome) : Probing probes s t :=
  ⟨hs.untouched hevidence, Grew.untouched hevidence, houtcome⟩

/-- Evidence about one item does not change. -/
theorem Sound.shown_unique (h : Sound probes s) (hab : a.normalized = b.normalized)
    (ha : s.report.Shown probes a evidence) (hb : s.report.Shown probes b evidence') :
    evidence = evidence' := by
  have hsame := inj_on_of_nodup_map h.once ha.1 hb.1 hab
  exact congrArg OperationPlanningItemSnapshot.evidence hsame

theorem Sound.probed_unique (h : Sound probes s) (hab : a.normalized = b.normalized)
    (ha : s.report.Probed probes a kind) (hb : s.report.Probed probes b kind') : kind = kind' := by
  obtain ⟨evidence, hkind, hshown⟩ := ha
  obtain ⟨evidence', hkind', hshown'⟩ := hb
  rw [← hkind, ← hkind', h.shown_unique hab hshown hshown']

/-! ## Blocking never passes -/

section Rules

variable {α : Type} {P : α → RunState → Prop} {Q : RunState → Prop}
  {code : OperationPlanningBlockerCode} {path? : Option OperationPlanningPath}
  {path : OperationPlanningPath}

theorem addBlocker_ensures {P : Unit → RunState → Prop} : (addBlocker code path?).Ensures s P Q :=
  Ensures.modify fun h => absurd h (listOnce_ne_nil _ _)

variable {f : Unit → Planning α} {error : OperationPlanningProbeError}
  {required : OperationPlanningRequiredAccess} {warning : OperationPlanningWarningCode}

theorem addBlocker_bind_ensures : (addBlocker code path? >>= f).Ensures s P Q :=
  Ensures.bind (R := fun _ _ => False) addBlocker_ensures fun _ _ h => h.elim

theorem block_ensures : (block code path? : Planning α).Ensures s P Q := addBlocker_bind_ensures

theorem addProbeBlocker_bind_ensures : (addProbeBlocker error path >>= f).Ensures s P Q :=
  Ensures.bind (R := fun _ _ => False) addBlocker_bind_ensures fun _ _ h => h.elim

theorem addProbeBlocker_ensures {P : Unit → RunState → Prop} :
    (addProbeBlocker error path).Ensures s P Q :=
  addBlocker_bind_ensures

theorem blockIf_ensures [Decidable c] {P : Unit → RunState → Prop} (h : ¬c → P () s) :
    (blockIf c code path?).Ensures s P Q :=
  Ensures.doIf (fun _ => block_ensures) h

theorem blockIf_bind_ensures [Decidable c] (h : ¬c → (f ()).Ensures s P Q) :
    (blockIf c code path? >>= f).Ensures s P Q :=
  Ensures.bind (R := fun _ t => ¬c ∧ t = s) (blockIf_ensures fun hc => ⟨hc, rfl⟩)
    fun _ _ ⟨hc, ht⟩ => ht ▸ h hc

theorem updateReport_ensures {f : OperationPreflightReport → OperationPreflightReport}
    {P : Unit → RunState → Prop} (h : P () { s with report := f s.report }) :
    (updateReport f).Ensures s P Q :=
  Ensures.modify fun _ => h

theorem updateReport_bind_ensures (h : (f ()).Ensures { s with report := g s.report } P Q) :
    (updateReport g >>= f).Ensures s P Q :=
  Ensures.bind (R := fun _ t => t = { s with report := g s.report }) (updateReport_ensures rfl)
    fun _ _ ht => ht ▸ h

/-! ## The probes -/

/-- A cached answer, when there are good ones only. -/
theorem cached_ensures {P : Option α → RunState → Prop} (hcache : Recorded (cache s) R)
    (hhit : ∀ evidence, R key evidence → P (some evidence) s)
    (hmiss : (∀ result, (key, result) ∉ cache s) → fresh.Ensures s P Q) :
    (cached cache key fresh).Ensures s P Q := by
  refine Ensures.bind (R := fun found u => found = cache u ∧ u = s) (Ensures.read ⟨rfl, rfl⟩) ?_
  rintro found u ⟨rfl, rfl⟩
  cases hlookup : (cache u).lookup key with
  | none =>
    refine hmiss fun result hmem => ?_
    have hne := lookup_eq_none_iff.mp hlookup _ hmem
    exact bne_iff_ne.mp hne rfl
  | some result =>
    obtain ⟨before, after, hsplit, -⟩ := lookup_eq_some_iff.mp hlookup
    have hmem : (key, result) ∈ cache u := hsplit ▸ mem_append_right _ mem_cons_self
    obtain ⟨evidence, rfl, hR⟩ := hcache key result hmem
    exact Ensures.pure (hhit evidence hR)

theorem ask_bind_ensures {P : β → RunState → Prop} {f : OperationPlanningProbeResult α → Planning β}
    (herror : ∀ error t, (f (.error error)).Ensures t P Q)
    (hok : ∀ evidence, answer s.asked = some (.ok evidence) → (f (.ok evidence)).Ensures (store (.ok evidence) { s with asked := s.asked ++ [question] }) P Q) :
    (ask question answer store hstore >>= f).Ensures s P Q := by
  refine Ensures.bind (R := fun result t => result = (answer s.asked).getD (.error .failed) ∧
    t = store result { s with asked := s.asked ++ [question] }) (Ensures.act fun _ => ⟨rfl, rfl⟩) ?_
  rintro result t ⟨hresult, rfl⟩
  cases result with
  | error error => exact herror error _
  | ok evidence =>
    refine hok evidence ?_
    cases hanswer : answer s.asked with
    | none =>
      rw [hanswer] at hresult
      cases hresult
    | some result =>
      rw [hanswer] at hresult
      rw [hresult]
      rfl

theorem provider_ensures (hs : Sound probes s) (hpath : path.Proper) :
    (provider probes path).Ensures s (fun found t => ∃ evidence, found = some evidence ∧
      Probing probes s t ∧ t.report.Provided probes path evidence) Q := by
  refine cached_ensures hs.provider ?_ fun _ => ?_
  · rintro evidence ⟨path', hpath', hkey, hprovided⟩
    obtain rfl := OperationPlanningPath.key_inj hpath hpath' hkey
    exact ⟨evidence, rfl, Probing.refl hs, hprovided⟩
  · refine ask_bind_ensures (fun _ _ => addProbeBlocker_bind_ensures) fun evidence hanswer => ?_
    dsimp only
    split
    · refine updateReport_bind_ensures (Ensures.pure ?_)
      have hgrew : Grew s.report
          { s.report with providerEvidence := s.report.providerEvidence ++ [⟨path, evidence⟩] } :=
        ⟨subset_append_left _ _, Subset.refl _, Subset.refl _⟩
      have hprovided : ({ s.report with
          providerEvidence := s.report.providerEvidence ++ [⟨path, evidence⟩] } :
            OperationPreflightReport).Provided probes path evidence :=
        ⟨mem_append_right _ (mem_singleton.mpr rfl), s.asked, hanswer⟩
      refine ⟨evidence, rfl, ⟨⟨hs.running, ?_, hs.item, hs.name, hs.access, hs.once,
        hs.snapshot_cached⟩, hgrew, rfl⟩, hprovided⟩
      refine Recorded.cons (hs.provider.mono ?_) ⟨path, hpath, rfl, hprovided⟩
      rintro key evidence ⟨path', hpath', hkey, hprovided'⟩
      exact ⟨path', hpath', hkey, hgrew.provided hprovided'⟩
    · exact addBlocker_bind_ensures

theorem item_ensures (hs : Sound probes s) (hpath : path.Proper) :
    (item probes path).Ensures s (fun found t => ∃ evidence, found = some evidence ∧
      Probing probes s t ∧ t.report.Shown probes path evidence) Q := by
  refine cached_ensures hs.item ?_ fun hmiss => ?_
  · rintro evidence ⟨path', hpath', hkey, hshown⟩
    have hsame := OperationPlanningPath.itemKey_inj hpath hpath' hkey
    refine ⟨evidence, rfl, Probing.refl hs, ?_⟩
    unfold OperationPreflightReport.Shown at hshown ⊢
    rw [hsame]
    exact hshown
  · refine ask_bind_ensures (fun _ _ => addProbeBlocker_bind_ensures) fun evidence hanswer => ?_
    dsimp only
    split
    · refine updateReport_bind_ensures (Ensures.pure ?_)
      have hgrew : Grew s.report
          { s.report with itemEvidence := s.report.itemEvidence ++ [⟨path.normalized, evidence⟩] } :=
        ⟨Subset.refl _, subset_append_left _ _, Subset.refl _⟩
      have hshown : ({ s.report with
          itemEvidence := s.report.itemEvidence ++ [⟨path.normalized, evidence⟩] } :
            OperationPreflightReport).Shown probes path evidence :=
        ⟨mem_append_right _ (mem_singleton.mpr rfl), s.asked, path, rfl, hanswer⟩
      refine ⟨evidence, rfl, ⟨⟨hs.running, hs.provider, ?_, hs.name, hs.access, ?_, ?_⟩, hgrew, rfl⟩,
        hshown⟩
      · refine Recorded.cons (hs.item.mono ?_) ⟨path, hpath, rfl, hshown⟩
        rintro key evidence ⟨path', hpath', hkey, hshown'⟩
        exact ⟨path', hpath', hkey, hgrew.shown hshown'⟩
      · -- A snapshot of this item would be in the cache already.
        rw [map_append, map_singleton, ← concat_eq_append]
        refine Nodup.concat ?_ hs.once
        intro hmem
        obtain ⟨snapshot, hsnapshot, hsame⟩ := mem_map.mp hmem
        obtain ⟨result, hcached⟩ := hs.snapshot_cached snapshot hsnapshot
        rw [hsame] at hcached
        exact hmiss result hcached
      · intro snapshot hmem
        rcases mem_append.mp hmem with hmem | hmem
        · obtain ⟨result, hcached⟩ := hs.snapshot_cached snapshot hmem
          exact ⟨result, mem_cons_of_mem _ hcached⟩
        · rw [mem_singleton.mp hmem]
          exact ⟨.ok evidence, mem_cons_self⟩
    · exact addBlocker_bind_ensures

theorem destinationName_ensures (hs : Sound probes s) : (destinationName probes path).Ensures s
      (fun found t => ∃ evidence, found = some evidence ∧ Probing probes s t) Q := by
  refine cached_ensures hs.name ?_ fun _ => ?_
  · exact fun evidence _ => ⟨evidence, rfl, Probing.refl hs⟩
  · refine ask_bind_ensures (fun _ _ => addProbeBlocker_bind_ensures) fun evidence _ => ?_
    refine updateReport_bind_ensures (Ensures.pure ⟨evidence, rfl, ?_⟩)
    exact ⟨⟨hs.running, hs.provider, hs.item, hs.name.cons trivial, hs.access, hs.once,
      hs.snapshot_cached⟩, ⟨Subset.refl _, Subset.refl _, Subset.refl _⟩, rfl⟩

theorem accessKey_inj (hpath : path.Proper) (hpath' : path'.Proper)
    (h : accessKey path required = accessKey path' required') :
    path = path' ∧ required = required' := by
  obtain ⟨hkey, hcode⟩ := append_inj' h rfl
  exact ⟨OperationPlanningPath.key_inj hpath hpath' hkey,
    OperationPlanningRequiredAccess.code_inj (cons.inj hcode).1⟩

theorem access_ensures (hs : Sound probes s) (hpath : path.Proper) :
    (access probes path required).Ensures s (fun found t => found = some ⟨.granted⟩ ∧
      Probing probes s t ∧ t.report.Granted probes path required) Q := by
  refine cached_ensures hs.access ?_ fun _ => ?_
  · rintro evidence ⟨path', required', hpath', hkey, rfl, hgranted⟩
    obtain ⟨rfl, rfl⟩ := accessKey_inj hpath hpath' hkey
    exact ⟨rfl, Probing.refl hs, hgranted⟩
  · refine ask_bind_ensures (fun _ _ => addProbeBlocker_bind_ensures) fun evidence hanswer => ?_
    refine updateReport_bind_ensures ?_
    obtain ⟨state⟩ := evidence
    cases state with
    | permissionRequired => exact addBlocker_bind_ensures
    | denied => exact addBlocker_bind_ensures
    | outside _ => exact addBlocker_bind_ensures
    | granted =>
      refine Ensures.pure ?_
      have hgrew : Grew s.report
          { s.report with accessEvidence := s.report.accessEvidence ++ [⟨path, required, ⟨.granted⟩⟩] } :=
        ⟨Subset.refl _, Subset.refl _, subset_append_left _ _⟩
      have hgranted : ({ s.report with
          accessEvidence := s.report.accessEvidence ++ [⟨path, required, ⟨.granted⟩⟩] } :
            OperationPreflightReport).Granted probes path required :=
        ⟨mem_append_right _ (mem_singleton.mpr rfl), s.asked, hanswer⟩
      refine ⟨rfl, ⟨⟨hs.running, hs.provider, hs.item, hs.name, ?_, hs.once, hs.snapshot_cached⟩,
        hgrew, rfl⟩, hgranted⟩
      refine Recorded.cons (hs.access.mono ?_) ⟨path, required, hpath, rfl, rfl, hgranted⟩
      rintro key evidence ⟨path', required', hpath', hkey, heq, hgranted'⟩
      exact ⟨path', required', hpath', hkey, heq, hgrew.granted hgranted'⟩

/-- A probe that leaves with nothing finds something. -/
theorem orLeave_ensures (h : m.Ensures s (fun found t => ∃ a, found = some a ∧ R a t) Q) :
    (orLeave m).Ensures s R Q := by
  refine Ensures.orLeave (h.weaken ?_ fun _ h => h)
  rintro _ t ⟨a, rfl, hR⟩
  exact hR

theorem grantedOrLeave_ensures (hs : Sound probes s) (hpath : path.Proper) :
    (grantedOrLeave probes path required).Ensures s
      (fun _ t => Probing probes s t ∧ t.report.Granted probes path required) Q := by
  refine Ensures.bind (R := fun evidence t => evidence = ⟨.granted⟩ ∧ Probing probes s t ∧
    t.report.Granted probes path required) (orLeave_ensures ((access_ensures hs hpath).weaken ?_
      fun _ h => h)) ?_
  · rintro _ t ⟨rfl, h⟩
    exact ⟨_, rfl, rfl, h⟩
  · rintro _ t ⟨rfl, h⟩
    exact Ensures.leaveIf (fun hne => absurd rfl hne) fun _ => h

theorem leaveIfCancelled_ensures (hs : Sound probes s) :
    leaveIfCancelled.Ensures s (fun _ t => t = s) Q := by
  refine Ensures.bind (R := fun cancelled t => cancelled = false ∧ t = s)
    (Ensures.read ⟨hs.running, rfl⟩) ?_
  rintro _ t ⟨rfl, rfl⟩
  exact Ensures.leaveIf (fun h => absurd h Bool.false_ne_true) fun _ => rfl

theorem estimate_ensures (hs : Sound probes s) :
    (estimate probes path destination).Ensures s (fun _ t => Probing probes s t) Q := by
  refine Ensures.bind (R := fun _ t => t = s) (Ensures.read rfl) ?_
  rintro cache t rfl
  have hstored : ∀ cache asked, Probing probes t
      { t with asked := asked, estimateCache := cache } := fun _ _ => Probing.untouched hs rfl rfl
  split
  · exact Ensures.pure (Probing.refl hs)
  · exact Ensures.pure (Probing.refl hs)
  · refine Ensures.bind (R := fun _ u => ∃ cache asked,
      u = { t with asked := asked, estimateCache := cache }) (Ensures.act fun _ => ⟨_, _, rfl⟩) ?_
    rintro result u ⟨cache, asked, rfl⟩
    split
    · exact updateReport_bind_ensures (Ensures.pure (Probing.untouched hs rfl rfl))
    · exact addProbeBlocker_bind_ensures
    · exact Ensures.pure (hstored cache asked)

/-! ## The ends of a run -/

theorem addWarning_ensures (hs : Sound probes s) :
    (addWarning warning path?).Ensures s (fun _ t => Probing probes s t) Q :=
  updateReport_ensures (Probing.untouched hs rfl rfl)

theorem checkSpace_ensures (hs : Sound probes s) :
    (checkSpace probes path).Ensures s (fun _ t => Probing probes s t) Q := by
  have hasked : ∀ asked, Probing probes s { s with asked := asked } :=
    fun _ => Probing.untouched hs rfl rfl
  refine Ensures.bind (R := fun _ u => ∃ asked, u = { s with asked := asked })
    (Ensures.act fun _ => ⟨_, rfl⟩) ?_
  rintro result u ⟨asked, rfl⟩
  have hstart := hasked asked
  generalize ({ s with asked := asked } : RunState) = u at hstart
  have hu := hstart.sound
  split
  · exact (addWarning_ensures hu).weaken (fun _ _ h => hstart.trans h) fun _ h => h
  · exact addProbeBlocker_ensures
  · refine updateReport_bind_ensures ?_
    rename_i evidence
    have hspace : Probing probes s { u with report := { u.report with destinationSpace := some evidence } } :=
      hstart.trans (Probing.untouched hu rfl rfl)
    split
    · exact (addWarning_ensures hspace.sound).weaken (fun _ _ h => hspace.trans h) fun _ h => h
    · refine Ensures.bind (R := fun _ t => Probing probes s t) (Ensures.read hspace) ?_
      intro estimated t ht
      exact Ensures.doIf (fun _ => addBlocker_ensures) fun _ => ht

theorem accumulate_ensures : (accumulate totals entries).Ensures s (fun _ t => t = s) Q := by
  induction entries generalizing totals with
  | nil => exact Ensures.pure rfl
  | cons entry rest ih =>
    obtain ⟨source, estimated⟩ := entry
    cases estimated with
    | none => exact ih
    | some e =>
      unfold accumulate
      split
      · exact addBlocker_bind_ensures
      · exact ih

theorem calculateTotals_ensures (hs : Sound probes s) :
    calculateTotals.Ensures s (fun _ t => Probing probes s t) Q := by
  refine Ensures.bind (R := fun _ t => t = s) (Ensures.read rfl) ?_
  rintro report t rfl
  refine Ensures.bind accumulate_ensures ?_
  rintro totals t rfl
  exact Ensures.doIf (fun _ => updateReport_ensures (Probing.untouched hs rfl rfl))
    fun _ => Probing.refl hs

theorem checkNothingToDo_ensures (hs : Sound probes s) :
    (checkNothingToDo planned).Ensures s (fun _ t => Probing probes s t) Q := by
  refine Ensures.bind (R := fun _ t => t = s) (Ensures.read rfl) ?_
  rintro _ t rfl
  exact Ensures.doIf (fun _ => addBlocker_ensures) fun _ => Probing.refl hs

/-- How each run ends: totals, the warning, and the check that there was something to do. -/
theorem finish_ensures (hs : Sound probes s) :
    (do calculateTotals; addWarning warning path?; checkNothingToDo planned : Planning Unit).Ensures s
      (fun _ t => Probing probes s t) Q := by
  refine Ensures.bind (calculateTotals_ensures hs) fun _ t ht => ?_
  refine Ensures.bind (addWarning_ensures ht.sound) fun _ u hu => ?_
  exact (checkNothingToDo_ensures hu.sound).weaken (fun _ _ h => (ht.trans hu).trans h) fun _ h => h

end Rules

/-! ## The result -/

/-- What a run ensures without a blocker holds of the accepted report. -/
theorem preflight_accepted (hrun : (run probes plan).Ensures {} (fun _ => P) P)
    (h : preflight probes plan = .accepted plan' report) :
    plan' = plan ∧ ∃ s, P s ∧ s.report = report := by
  unfold preflight at h
  dsimp only at h
  split at h
  · next hclean =>
      cases h
      have hmatch := hrun hclean
      refine ⟨rfl, _, ?_, rfl⟩
      cases hvalue : ((run probes plan).run {}).2 with
      | none =>
        rw [hvalue] at hmatch
        exact hmatch
      | some _ =>
        rw [hvalue] at hmatch
        exact hmatch
  · cases h

theorem preflight_of_clean (h : ((run probes plan).run {}).1.blockers = []) :
    preflight probes plan = .accepted plan ((run probes plan).run {}).1.report :=
  if_pos h

theorem sourcePath_proper (plan : OperationPlan) (h : source ∈ plan.sources) :
    (sourcePath source).Proper := by
  have hok := plan.wellFormed.source source h
  exact ⟨hok.identity, hok.path⟩

theorem sourcePath_injective : Function.Injective sourcePath := by
  intro a b h
  cases a
  cases b
  cases h
  rfl

end WinCommander.Operations.Planner
