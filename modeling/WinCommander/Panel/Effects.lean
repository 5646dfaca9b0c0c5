/-
  What a call can do to a model, said once (`perform_effect`): it rebuilds the index arrays of a
  model that has its data and its raw names in place, it filters softly, or it writes volatile
  data that no array depends on. A batch of sizes that throws is the one call that leaves sizes
  behind unsorted.
-/
import WinCommander.Panel.Indexed

namespace WinCommander.Panel

open Library List IndirectListingComparator

/-- What decides which entries are shown and in which order. -/
structure Setting where
  listing : Listing
  hardFiltering : HardFilter
  customSortMode : SortMode

namespace Model

def setting (m : Model) : Setting := ⟨m.listing, m.hardFiltering, m.customSortMode⟩

/-- Only sizes differ. -/
structure SizesOnly (m m' : Model) : Prop where
  same : m' = { m with volatileData := m'.volatileData }
  length : m'.volatileData.length = m.volatileData.length
  vd : ∀ raw, ∃ size, m'.vd raw = { m.vd raw with size := size }

namespace SizesOnly

theorem refl (m : Model) : SizesOnly m m := ⟨rfl, rfl, fun raw => ⟨(m.vd raw).size, rfl⟩⟩

theorem trans (h : SizesOnly m m') (h' : SizesOnly m' m'') : SizesOnly m m'' where
  same := by
    have hsame := h'.same
    rw [h.same] at hsame
    exact hsame
  length := h'.length.trans h.length
  vd raw := by
    obtain ⟨size, hsize⟩ := h.vd raw
    obtain ⟨size', hsize'⟩ := h'.vd raw
    exact ⟨size', by rw [hsize', hsize]⟩

theorem setSize (m : Model) (raw : Nat) (size : BitVec 64) : SizesOnly m (m.setSize raw size) where
  same := rfl
  length := m.length_updateVd raw _
  vd other := by
    unfold Model.setSize
    rw [vd_updateVd]
    split
    · exact ⟨size, rfl⟩
    · exact ⟨(m.vd other).size, rfl⟩

end SizesOnly

/-! ## Batches of sizes -/

/-- A batch that changed nothing still has the model that it began with. -/
structure SizeBatch.From (m : Model) (batch : SizeBatch) : Prop where
  sizes : SizesOnly m batch.model
  unchanged : batch.numChanged = 0 → batch.model = m

theorem SizeBatch.From.set {batch : SizeBatch} (h : batch.From m) (raw : Nat) (size : BitVec 64)
    : (batch.set raw size).From m := by
  unfold SizeBatch.set
  split
  · exact ⟨h.sizes.trans (SizesOnly.setSize batch.model raw size),
      fun hzero => absurd hzero (Nat.succ_ne_zero _)⟩
  · exact ⟨h.sizes, h.unchanged⟩

theorem setRawSizes_from (entries : List (Nat × BitVec 64)) {batch : SizeBatch} (h : batch.From m)
    : (setRawSizes entries batch).1.From m := by
  induction entries generalizing batch with
  | nil => exact h
  | cons e entries ih =>
    unfold setRawSizes
    split
    · exact h
    · split
      · exact ih (h.set e.1 e.2)
      · exact ih h

end Model

open Model

variable {p : Platform} {torn : Prop}

/-- What a call leaves, `s` being the setting that the call asks for and `torn` whether it may
    throw between its sizes. -/
inductive Effect (p : Platform) (m : Model) (s : Setting) (torn : Prop) : Model → Prop
  | rebuilt (clears : Bool) (base : Model) (hsize : base.volatileData.length = base.listing.count)
      (hraw : base.entriesByRawName =
        p.rangesSort.sort (rawLess base.listing) (List.range base.listing.count))
      (hsetting : base.setting = s) : Effect p m s torn (rebuild p clears base)
  | soft (filter : TextualFilter) (hsetting : m.setting = s) :
      Effect p m s torn (({ m with softFiltering := filter } : Model).softFiltered p)
  | flags (vds : List ItemVolatileData) (stats : Statistics)
      (hlength : vds.length = m.volatileData.length)
      (hsame : ∀ raw, SameShown (m.vd raw) (vds.getD raw {}))
      (hsizes : ∀ raw, (vds.getD raw {}).size = (m.vd raw).size) (hsetting : m.setting = s) :
      Effect p m s torn { m with volatileData := vds, stats := stats }
  | sizes (m' : Model) (hsizes : SizesOnly m m') (hsetting : m.setting = s) (htorn : torn) :
      Effect p m s torn m'

theorem Effect.unchanged (m : Model) : Effect p m m.setting torn m :=
  .flags m.volatileData m.stats rfl (fun _ => ⟨rfl, rfl⟩) (fun _ => rfl) rfl

theorem Effect.setting_eq (h : Effect p m s torn m') : m'.setting = s := by
  cases h with
  | rebuilt clears base hsize hraw hsetting =>
    rw [← hsetting]
    have hsorted : (base.sorted p).setting = base.setting := by
      rw [sorted_eq p base hsize]
      rfl
    cases clears with
    | false =>
      refine Eq.trans ?_ hsorted
      unfold rebuild
      rw [softFiltered_eq]
      rfl
    | true =>
      refine Eq.trans ?_ hsorted
      unfold rebuild
      rw [softFiltered_eq]
      rfl
  | soft filter hsetting =>
    rw [softFiltered_eq]
    exact hsetting
  | flags => assumption
  | sizes m' hsizes hsetting htorn =>
    rw [← hsetting, hsizes.same]
    rfl

theorem Effect.indexed (h : Effect p m s torn m') (hm : Indexed p m) : Indexed p m' := by
  cases h with
  | rebuilt clears base hsize hraw => exact rebuild_indexed clears base hsize hraw
  | soft filter =>
    have hsort : SortIndexed p { m with softFiltering := filter } :=
      ⟨hm.size, hm.raw, hm.perm, hm.head, hm.plain, hm.reverse, hm.shown, hm.plainHidden⟩
    exact hsort.softFiltered
  | flags vds stats hlength hsame => exact (hm.of_vds hlength fun raw _ => hsame raw).of_stats stats
  | sizes m' hsizes =>
    rw [hsizes.same]
    apply hm.of_vds hsizes.length
    intro raw _
    obtain ⟨size, hvd⟩ := hsizes.vd raw
    have hraw : m'.volatileData.getD raw {} = { m.vd raw with size := size } := hvd
    rw [hraw]
    exact ⟨rfl, rfl⟩

theorem Effect.inOrder (h : Effect p m s torn m') (hm : InOrder p m)
    (htorn : torn → ¬ m.customSortMode.BySize) : InOrder p m' := by
  cases h with
  | rebuilt clears base hsize => exact rebuild_inOrder clears base hsize
  | soft filter =>
    have hsort : InOrder p { m with softFiltering := filter } := hm
    exact hsort.softFiltered
  | flags vds stats hlength hsame hsizes => exact hm.of_sizes hsizes
  | sizes m' hsizes hsetting ht =>
    have hless := less_of_not_bySize p.strings m.listing (htorn ht)
      m.volatileData m'.volatileData
    rw [hsizes.same]
    intro hmode
    show Ordered (less p.strings m.listing m'.volatileData m.customSortMode) _
    rw [← hless]
    exact hm hmode

/-! ## The effect of each call -/

namespace Model

/-- The model that `Load` builds its arrays for. -/
def loaded (p : Platform) (l : Listing) (type : PanelType) (m : Model) : Model :=
  { m with
    listing := l
    type := type
    volatileData := (List.range l.count).map (initVolatileData l)
    hardFiltering := { m.hardFiltering with text := m.hardFiltering.text.onPanelDataLoad }
    softFiltering := m.softFiltering.onPanelDataLoad
    entriesByRawName := p.rangesSort.sort (rawLess l) (List.range l.count) }

/-- The model that `ReLoad` builds its arrays for, the old entries' data carried over. -/
def reloaded (p : Platform) (l : Listing) (pairs : List (Nat × Nat)) (m : Model) : Model :=
  { m with
    listing := l
    volatileData := m.transfer ((List.range l.count).map (initVolatileData l)) pairs
    entriesByRawName := p.rangesSort.sort (rawLess l) (List.range l.count) }

theorem reLoad_ok
    (h : reloadPairs p m l (p.rangesSort.sort (rawLess l) (range l.count)) = .ok (rounds, pairs)) :
    m.reLoad p (some l) = .ok (rebuild p false (reloaded p l pairs m)) := by
  have hresult : ((doRawSort p l).result) =
      p.rangesSort.sort (rawLess l) (range l.count) := rfl
  unfold reLoad reLoadImpl
  simp only [Polled.result_bind, hresult, h]
  rfl

theorem reLoad_error {failure : Failure}
    (h : reloadPairs p m l (p.rangesSort.sort (rawLess l) (range l.count)) = .error failure)
    : m.reLoad p (some l) = .error failure := by
  have hresult : ((doRawSort p l).result) =
      p.rangesSort.sort (rawLess l) (range l.count) := rfl
  unfold reLoad reLoadImpl
  simp only [Polled.result_bind, hresult, h]
  rfl

/-- A reload is refused exactly when one listing is uniform and the other is not. -/
theorem reloadPairs_isOk (m : Model) (l : Listing) (names : List Nat) :
    (reloadPairs p m l names).isOk = (l.isUniform == m.listing.isUniform) := by
  unfold reloadPairs
  cases l.isUniform <;> cases m.listing.isUniform <;> rfl

theorem length_transfer (m : Model) (fresh : List ItemVolatileData) (pairs : List (Nat × Nat)) :
    (m.transfer fresh pairs).length = fresh.length := by
  unfold transfer
  induction pairs generalizing fresh with
  | nil => rfl
  | cons pair pairs ih => rw [foldl_cons, ih, length_modify]

end Model

/-- The setting that a call asks for; a listing that does not fit is refused. -/
def Operation.setting (m : Model) : Operation → Setting
  | .load (some l) _ =>
    ⟨l, { m.hardFiltering with text := m.hardFiltering.text.onPanelDataLoad },
      m.customSortMode⟩
  | .reLoad (some l) =>
    ⟨if l.isUniform == m.listing.isUniform then l else m.listing, m.hardFiltering, m.customSortMode⟩
  | .setSortMode mode => ⟨m.listing, m.hardFiltering, mode⟩
  | .setHardFiltering filter =>
    ⟨m.listing, if m.hardFiltering.same filter then m.hardFiltering else filter, m.customSortMode⟩
  | .clearTextFiltering =>
    ⟨m.listing, { m.hardFiltering with text := { m.hardFiltering.text with text := none } },
      m.customSortMode⟩
  | _ => m.setting

/-- An index out of range behind a directory whose size changes. -/
def Operation.Tears (m : Model) : Operation → Prop
  | .setCalculatedSizesForRawIndices indices sizes =>
    indices.length = sizes.length ∧ (∃ raw ∈ indices, m.listing.count ≤ raw) ∧
      ∃ e ∈ (indices.zip sizes).takeWhile fun e => e.1 < m.listing.count,
        m.listing.isDir e.1 ∧ (m.vd e.1).size ≠ e.2
  | _ => False

theorem toggleSelected_same (vd : ItemVolatileData) (v : Bool) :
    SameShown vd (vd.toggleSelected v) := ⟨rfl, rfl⟩

variable {m : Model}

/-- A change of one entry's flags. -/
theorem effect_updateVd (stats : Statistics) (raw : Nat) (hsame : ∀ vd, SameShown vd (f vd))
    (hsize : ∀ vd, (f vd).size = vd.size) :
    Effect p m m.setting torn (({ m with stats := stats } : Model).updateVd raw f) := by
  refine Effect.flags (m.volatileData.modify raw f) stats (length_modify _ _ _) ?_ ?_ rfl
  · intro other
    have hvd := m.vd_updateVd raw f other
    change (m.volatileData.modify raw f).getD other {} = _ at hvd
    rw [hvd]
    split
    · exact hsame _
    · exact ⟨rfl, rfl⟩
  · intro other
    have hvd := m.vd_updateVd raw f other
    change (m.volatileData.modify raw f).getD other {} = _ at hvd
    rw [hvd]
    split
    · exact hsize _
    · rfl

theorem effect_customFlagsSelectRaw (m : Model) (index : Int) (isSelected : Bool) :
    Effect p m m.setting torn (m.customFlagsSelectRaw index isSelected) := by
  unfold customFlagsSelectRaw
  dsimp only
  split
  · exact Effect.unchanged m
  · split
    · exact Effect.unchanged m
    · split
      · exact Effect.unchanged m
      · exact effect_updateVd _ _ (fun vd => toggleSelected_same vd isSelected) fun _ => rfl

/-- Only selection flags differ. -/
structure SelectionOnly (m m' : Model) : Prop where
  same : m' = { m with volatileData := m'.volatileData }
  length : m'.volatileData.length = m.volatileData.length
  vd : ∀ raw, m'.vd raw = { m.vd raw with isSelected := (m'.vd raw).isSelected }

namespace SelectionOnly

theorem refl (m : Model) : SelectionOnly m m := ⟨rfl, rfl, fun _ => rfl⟩

theorem trans (h : SelectionOnly m m') (h' : SelectionOnly m' m'') : SelectionOnly m m'' where
  same := by
    have hsame := h'.same
    rw [h.same] at hsame
    exact hsame
  length := h'.length.trans h.length
  vd raw := by rw [h'.vd raw, h.vd raw]

theorem toggle (m : Model) (raw : Nat) (v : Bool) :
    SelectionOnly m (m.updateVd raw (·.toggleSelected v)) where
  same := rfl
  length := m.length_updateVd raw _
  vd other := by
    rw [vd_updateVd]
    split <;> rfl

theorem toggleSorted (s : Model × Bool) (raw : Nat) (v : Bool) :
    SelectionOnly s.1 (Model.toggleSorted s raw v).1 := by
  unfold Model.toggleSorted
  split
  · exact refl s.1
  · split
    · exact toggle s.1 raw v
    · split
      · exact toggle s.1 raw v
      · exact refl s.1

theorem toggleAll (entries : List (Nat × Bool)) (s : Model × Bool) : SelectionOnly s.1
      (entries.foldl (fun s (raw, selected) => Model.toggleSorted s raw selected) s).1 := by
  induction entries generalizing s with
  | nil => exact refl s.1
  | cons e entries ih => exact (toggleSorted s e.1 e.2).trans (ih _)

theorem effect (h : SelectionOnly m m') (stats : Statistics) :
    Effect p m m.setting torn { m' with stats := stats } := by
  rw [h.same]
  refine Effect.flags m'.volatileData stats h.length ?_ ?_ rfl
  · intro raw
    have hvd : m'.volatileData.getD raw {} = _ := h.vd raw
    rw [hvd]
    exact ⟨rfl, rfl⟩
  · intro raw
    have hvd : m'.volatileData.getD raw {} = _ := h.vd raw
    rw [hvd]

end SelectionOnly

theorem effect_map (m : Model) (f : ItemVolatileData → ItemVolatileData)
    (hdefault : f {} = {}) (hsame : ∀ vd, SameShown vd (f vd)) (hsize : ∀ vd, (f vd).size = vd.size) :
    Effect p m m.setting torn { m with volatileData := m.volatileData.map f } := by
  have hvd := getD_map_default hdefault m.volatileData
  refine Effect.flags (m.volatileData.map f) m.stats (length_map _) ?_ ?_ rfl
  · intro raw
    rw [hvd raw]
    exact hsame _
  · intro raw
    rw [hvd raw]
    exact hsize _

theorem effect_customFlagsSelectAllSorted (m : Model) (isSelected : List Bool) :
    Effect p m m.setting torn (m.customFlagsSelectAllSorted isSelected).1 := by
  have htoggled := SelectionOnly.toggleAll (m.entriesByCustomSort.zip isSelected) (m, false)
  unfold customFlagsSelectAllSorted
  dsimp only
  split
  · exact htoggled.effect _
  · exact htoggled.effect _

theorem effect_finalize (h : Indexed p m) (hsizes : SizesOnly m m') :
    Effect p m m.setting torn (m'.finalizeSettingCalculatedSizes p) := by
  refine Effect.rebuilt true m' ?_ ?_ ?_
  · rw [hsizes.length, hsizes.same]
    exact h.size
  · rw [hsizes.same]
    exact h.raw
  · rw [hsizes.same]
    rfl

theorem effect_finish (h : Indexed p m) {batch : SizeBatch} (hbatch : batch.From m) :
    Effect p m m.setting torn (batch.finish p).1 := by
  unfold SizeBatch.finish
  split
  · exact effect_finalize h hbatch.sizes
  · next hzero =>
      have hmodel : batch.model = m := hbatch.unchanged (by simpa using hzero)
      rw [hmodel]
      exact Effect.unchanged m

theorem named_from (entries : List (Bytes × Bytes × BitVec 64)) {batch : SizeBatch}
    (h : batch.From m) : (entries.foldl (fun batch (filename, directory, size) =>
      match batch.model.directoryNamed filename directory with
      | none => batch
      | some raw => batch.set raw size) batch).From m := by
  induction entries generalizing batch with
  | nil => exact h
  | cons e entries ih =>
    obtain ⟨filename, directory, size⟩ := e
    rw [foldl_cons]
    apply ih
    dsimp only
    cases batch.model.directoryNamed filename directory with
    | none => exact h
    | some raw => exact h.set raw size

theorem Model.SizeBatch.From.start (m : Model) : (SizeBatch.mk m 0 0).From m :=
  ⟨SizesOnly.refl m, fun _ => rfl⟩

theorem effect_setCalculatedSizeForDirectory (h : Indexed p m) (filename directory : Bytes)
    (size : BitVec 64) :
    Effect p m m.setting torn (m.setCalculatedSizeForDirectory p filename directory size).1 := by
  unfold setCalculatedSizeForDirectory
  split
  · exact Effect.unchanged m
  · split
    · exact Effect.unchanged m
    · split
      · exact Effect.unchanged m
      · exact effect_finalize h (SizesOnly.setSize m _ size)

theorem effect_setCalculatedSizesForDirectories (h : Indexed p m)
    (filenames directories : List Bytes) (sizes : List (BitVec 64)) : Effect p m m.setting torn
      (m.setCalculatedSizesForDirectories p filenames directories sizes).1 := by
  unfold setCalculatedSizesForDirectories
  split
  · exact Effect.unchanged m
  · exact effect_finish h (named_from _ (SizeBatch.From.start m))

theorem Model.SizeBatch.set_listing (batch : SizeBatch) (raw : Nat) (size : BitVec 64) :
    (batch.set raw size).model.listing = batch.model.listing := by
  unfold SizeBatch.set
  split <;> rfl

variable (entries : List (Nat × BitVec 64))

theorem setRawSizes_thrown (batch : SizeBatch) (h : (setRawSizes entries batch).2) :
    ∃ e ∈ entries, batch.model.listing.count ≤ e.1 := by
  induction entries generalizing batch with
  | nil => cases h
  | cons e entries ih =>
    by_cases hout : batch.model.listing.count ≤ e.1
    · exact ⟨e, mem_cons_self, hout⟩
    · unfold setRawSizes at h
      rw [if_neg hout] at h
      have hlater : ∃ e ∈ entries, batch.model.listing.count ≤ e.1 := by
        split at h
        · have hset := ih (batch.set e.1 e.2) h
          rw [batch.set_listing] at hset
          exact hset
        · exact ih batch h
      obtain ⟨other, hother, hcount⟩ := hlater
      exact ⟨other, mem_cons_of_mem e hother, hcount⟩

theorem setRawSizes_kept (batch : SizeBatch)
    (h : ∀ e ∈ entries.takeWhile fun e => e.1 < batch.model.listing.count, batch.model.listing.isDir e.1 → (batch.model.vd e.1).size = e.2) :
    (setRawSizes entries batch).1.model = batch.model := by
  induction entries generalizing batch with
  | nil => rfl
  | cons e entries ih =>
    unfold setRawSizes
    by_cases hout : batch.model.listing.count ≤ e.1
    · rw [if_pos hout]
    · have hin : decide (e.1 < batch.model.listing.count) := by
        simpa using Nat.lt_of_not_le hout
      simp only [takeWhile_cons, hin, if_true] at h
      rw [if_neg hout]
      split
      · next hdir =>
          have hsize := h e mem_cons_self hdir
          have hset : batch.set e.1 e.2 = { batch with numSet := batch.numSet + 1 } := by
            unfold SizeBatch.set
            rw [if_neg fun hne => hne hsize]
          rw [hset]
          exact ih _ fun other hother => h other (mem_cons_of_mem e hother)
      · exact ih batch fun other hother => h other (mem_cons_of_mem e hother)

theorem effect_setCalculatedSizesForRawIndices (h : Indexed p m) (indices : List Nat)
    (sizes : List (BitVec 64)) :
    Effect p m m.setting ((Operation.setCalculatedSizesForRawIndices indices sizes).Tears m)
      (m.setCalculatedSizesForRawIndices p indices sizes).1 := by
  unfold setCalculatedSizesForRawIndices
  split
  · exact Effect.unchanged m
  · next hlengths =>
      have hfrom := setRawSizes_from (indices.zip sizes) (SizeBatch.From.start m)
      have hthrown := setRawSizes_thrown (indices.zip sizes) ⟨m, 0, 0⟩
      have hkept := setRawSizes_kept (indices.zip sizes) ⟨m, 0, 0⟩
      cases hrun : setRawSizes (indices.zip sizes) ⟨m, 0, 0⟩ with
      | mk batch thrown =>
        rw [hrun] at hfrom hthrown hkept
        cases thrown with
        | false => exact effect_finish h hfrom
        | true =>
          obtain ⟨e, he, hcount⟩ := hthrown rfl
          by_cases hchanged : ∃ e ∈ (indices.zip sizes).takeWhile fun e =>
              e.1 < m.listing.count, m.listing.isDir e.1 ∧ (m.vd e.1).size ≠ e.2
          · exact Effect.sizes batch.model hfrom.sizes rfl
              ⟨by simpa using hlengths, ⟨e.1, (of_mem_zip he).1, hcount⟩, hchanged⟩
          · push Not at hchanged
            have hmodel : batch.model = m := hkept hchanged
            show Effect p m m.setting _ batch.model
            rw [hmodel]
            exact Effect.unchanged m

/-- What a call leaves behind, whatever it does. -/
theorem perform_effect (h : Indexed p m) (call : Operation) :
    Effect p m (call.setting m) (call.Tears m) (perform p m call).1 := by
  cases call with
  | load listing type =>
    cases listing with
    | none => exact Effect.unchanged m
    | some l =>
      refine Effect.rebuilt false (loaded p l type m) ?_ rfl rfl
      show ((range l.count).map (initVolatileData l)).length = l.count
      rw [length_map, length_range]
  | reLoad listing =>
    cases listing with
    | none => exact Effect.unchanged m
    | some l =>
      have hok := reloadPairs_isOk (p := p) m l
        (p.rangesSort.sort (rawLess l) (range l.count))
      show Effect p m ⟨if l.isUniform == m.listing.isUniform then l else m.listing,
        m.hardFiltering, m.customSortMode⟩ _ (replacing m (m.reLoad p (some l))).1
      rw [← hok]
      cases hpairs : reloadPairs p m l
          (p.rangesSort.sort (rawLess l) (range l.count)) with
      | error failure =>
        rw [reLoad_error hpairs]
        exact Effect.unchanged m
      | ok result =>
        rw [reLoad_ok hpairs]
        refine Effect.rebuilt false (reloaded p l result.2 m) ?_ rfl rfl
        show (m.transfer _ _).length = l.count
        rw [length_transfer, length_map, length_range]
  | setSortMode mode =>
    show Effect p m _ _ (m.setSortMode p mode)
    unfold setSortMode
    split
    · next hsame =>
        have hsetting : (⟨m.listing, m.hardFiltering, mode⟩ : Setting) = m.setting := by
          rw [← hsame]
          rfl
        rw [show (Operation.setSortMode mode).setting m = _ from hsetting]
        exact Effect.unchanged m
    · exact Effect.rebuilt false { m with customSortMode := mode } h.size h.raw rfl
  | setHardFiltering filter =>
    show Effect p m ⟨m.listing, if m.hardFiltering.same filter then m.hardFiltering else filter,
      m.customSortMode⟩ _ (m.setHardFiltering p filter)
    unfold setHardFiltering
    by_cases hsame : m.hardFiltering.same filter
    · rw [if_pos hsame, if_pos hsame]
      exact Effect.unchanged m
    · rw [if_neg hsame, if_neg hsame]
      exact Effect.rebuilt true { m with hardFiltering := filter } h.size h.raw rfl
  | setSoftFiltering filter =>
    show Effect p m _ _ (m.setSoftFiltering p filter)
    unfold setSoftFiltering
    split
    · exact Effect.unchanged m
    · exact Effect.soft filter rfl
  | clearTextFiltering =>
    show Effect p m _ _ (m.clearTextFiltering p).1
    unfold clearTextFiltering
    split
    · next hnone =>
        have hsetting : Operation.clearTextFiltering.setting m = m.setting := by
          show (⟨_, { m.hardFiltering with
            text := { m.hardFiltering.text with text := none } }, _⟩ : Setting) = _
          rw [← hnone.2]
          rfl
        rw [hsetting]
        exact Effect.unchanged m
    · refine Effect.rebuilt true m.withoutText ?_ h.raw rfl
      exact (length_map _).trans h.size
  | customFlagsSelectRaw index isSelected => exact effect_customFlagsSelectRaw m index isSelected
  | customFlagsSelectSorted index isSelected =>
    show Effect p m _ _ (m.customFlagsSelectSorted index isSelected)
    unfold customFlagsSelectSorted
    split
    · exact Effect.unchanged m
    · exact effect_customFlagsSelectRaw m _ isSelected
  | customFlagsSelectAllSorted isSelected => exact effect_customFlagsSelectAllSorted m isSelected
  | customIconClearAll => exact effect_map m _ rfl (fun _ => ⟨rfl, rfl⟩) fun _ => rfl
  | customFlagsClearHighlights => exact effect_map m _ rfl (fun _ => ⟨rfl, rfl⟩) fun _ => rfl
  | setCalculatedSizeForDirectory filename directory size =>
    exact effect_setCalculatedSizeForDirectory h filename directory size
  | setCalculatedSizesForDirectories filenames directories sizes =>
    exact effect_setCalculatedSizesForDirectories h filenames directories sizes
  | setCalculatedSizesForRawIndices indices sizes =>
    have heffect := effect_setCalculatedSizesForRawIndices h indices sizes
    cases hcall : m.setCalculatedSizesForRawIndices p indices sizes with
    | mk m' result =>
      cases result with
      | ok count => simpa only [perform, hcall, Operation.setting] using heffect
      | error failure => simpa only [perform, hcall, Operation.setting] using heffect

end WinCommander.Panel
