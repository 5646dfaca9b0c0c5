/-
  What the three rebuilding functions make of a model, as equations: the entries that pass the
  hard filter, in order (`customEntries`), their places (`reverseEntries`), the places that pass
  the soft filter (`softEntries`) and the volatile data of each entry.
-/
import WinCommander.Panel.Operations

namespace WinCommander.Panel

open Library List IndirectListingComparator

/-- A comparator looks at the sizes only. -/
theorem IndirectListingComparator.less_congr (strings : StringComparison) (l : Listing)
    (mode : SortMode) (h : ∀ raw, (vds.getD raw {}).size = (vds'.getD raw {}).size) :
    less strings l vds mode = less strings l vds' mode := by
  have hsize : IndirectListingComparator.size vds = IndirectListingComparator.size vds' :=
    funext h
  funext a b
  unfold less isLessByMode isLessBySize isLessBySizeReversed
  rw [hsize]

/-- A sort mode that looks at the sizes. -/
def SortMode.BySize (mode : SortMode) : Prop := mode.sort = .bySize ∨ mode.sort = .bySizeRev

instance (mode : SortMode) : Decidable mode.BySize :=
  inferInstanceAs (Decidable (_ ∨ _))

theorem IndirectListingComparator.less_of_not_bySize (strings : StringComparison) (l : Listing)
    (hmode : ¬ mode.BySize) (vds vds' : List ItemVolatileData) :
    less strings l vds mode = less strings l vds' mode := by
  obtain ⟨sort, sepDirs, extensionlessDirs, collation⟩ := mode
  funext a b
  cases sort with
  | bySize => exact absurd (Or.inl rfl) hmode
  | bySizeRev => exact absurd (Or.inr rfl) hmode
  | _ => rfl

namespace Model

variable (p : Platform)

variable (m : Model)

theorem vd_updateVd (raw : Nat) (f : ItemVolatileData → ItemVolatileData) (other : Nat) :
    (m.updateVd raw f).vd other =
      if raw = other ∧ other < m.volatileData.length then f (m.vd other) else m.vd other :=
  getD_modify m.volatileData raw f other {}

@[simp] theorem length_updateVd (raw : Nat) (f : ItemVolatileData → ItemVolatileData) :
    (m.updateVd raw f).volatileData.length = m.volatileData.length :=
  length_modify _ _ _

/-! ## The entries that pass the hard filter -/

theorem filteredEntries_eq : m.filteredEntries p =
      (range m.listing.count).filter fun raw => (m.isValidItem p raw).isSome := by
  unfold filteredEntries
  by_cases hfiltering : m.hardFiltering.isFiltering = true
  · rw [if_pos hfiltering]
  · have hoff : m.hardFiltering.isFiltering = false := by simpa using hfiltering
    rw [if_neg hfiltering]
    symm
    apply filter_eq_self.mpr
    intro raw _
    unfold isValidItem
    rw [HardFilter.isValidItem_of_not_filtering p.search hoff]
    rfl

theorem mem_filteredEntries :
    raw ∈ m.filteredEntries p ↔ raw < m.listing.count ∧ (m.isValidItem p raw).isSome := by
  rw [filteredEntries_eq, mem_filter, mem_range]

theorem filteredEntries_increasing : (m.filteredEntries p).Pairwise (· < ·) := by
  rw [filteredEntries_eq]
  exact Pairwise.filter _ pairwise_lt_range

theorem filteredEntries_nodup : (m.filteredEntries p).Nodup :=
  (m.filteredEntries_increasing p).imp fun h => Nat.ne_of_lt h

/-- What a sort with the hard filter shows of a matching name. -/
def hardHighlight (m : Model) (raw : Nat) : QuickSearchHighlight :=
  if m.hardFiltering.text.hightlightResults then (m.isValidItem p raw).getD {} else {}

@[simp] theorem length_showFiltered : (m.showFiltered p).length = m.volatileData.length := by
  unfold showFiltered
  cases m.hardFiltering.isFiltering <;> simp

theorem vd_showFiltered (hraw : raw < m.volatileData.length) : (m.showFiltered p).getD raw {} =
      { m.vd raw with
        highlight := m.hardHighlight p raw
        isShown := (m.isValidItem p raw).isSome } := by
  unfold showFiltered hardHighlight vd
  rw [List.getD_eq_getElem?_getD, List.getD_eq_getElem?_getD, List.getElem?_eq_getElem hraw]
  cases hfiltering : m.hardFiltering.isFiltering with
  | false =>
    have hvalid : m.isValidItem p raw = some {} :=
      HardFilter.isValidItem_of_not_filtering p.search hfiltering m.listing raw
    simp [hvalid, hraw]
  | true =>
    cases hvalid : m.isValidItem p raw with
    | none => simp [hvalid, hraw, ItemVolatileData.toggleShown]
    | some found =>
      cases hhighlight : m.hardFiltering.text.hightlightResults <;> simp [hvalid, hraw]

/-- The flags and highlights of the filter leave the order as it is. -/
theorem customLess_showFiltered :
    customLess p { m with volatileData := m.showFiltered p } = m.customLess p := by
  apply less_congr
  intro raw
  by_cases hraw : raw < m.volatileData.length
  · rw [vd_showFiltered p m hraw]
    rfl
  · have hnone : ∀ vds : List ItemVolatileData, vds.length ≤ raw → vds.getD raw {} = {} := by
      intro vds h
      rw [List.getD_eq_getElem?_getD, List.getElem?_eq_none h]
      rfl
    rw [hnone _ (by rw [length_showFiltered]; omega), hnone _ (by omega)]

/-! ## Sorting -/

/-- `m_EntriesByCustomSort` after a sort. -/
def customEntries (cancellable : Bool) (m : Model) : List Nat :=
  let entries := m.filteredEntries p
  if entries = [] ∨ m.customSortMode.sort = .noSort then entries
  else
    entries.take m.unsorted ++
      (customSorter p cancellable entries.length).sort (m.customLess p) (entries.drop m.unsorted)

/-- `m_ReverseToCustomSort` for the entries, which the early returns leave empty. -/
def reverseEntries (m : Model) (entries : List Nat) : List (Option Nat) :=
  if entries = [] ∨ m.customSortMode.sort = .noSort then [] else reverseOf m.listing.count entries

theorem strictWeakOrder_customLess : StrictWeakOrder (m.customLess p) :=
  strictWeakOrder_less p.strings m.listing m.volatileData
    m.customSortMode

variable (cancellable : Bool)

theorem customEntries_perm (m : Model) :
    (m.customEntries p cancellable).Perm (m.filteredEntries p) := by
  unfold customEntries
  dsimp only
  split
  · exact Perm.refl _
  · have hsort := (customSorter p cancellable (m.filteredEntries p).length).perm
      ((m.filteredEntries p).drop m.unsorted) (m.strictWeakOrder_customLess p)
    have hperm := hsort.append_left ((m.filteredEntries p).take m.unsorted)
    rw [take_append_drop] at hperm
    exact hperm

theorem length_take_unsorted (h : m.filteredEntries p ≠ []) :
    ((m.filteredEntries p).take m.unsorted).length = m.unsorted := by
  have hpos : 0 < (m.filteredEntries p).length := length_pos_iff.mpr h
  rw [length_take]
  unfold unsorted
  split <;> omega

theorem customEntries_take (m : Model) :
    (m.customEntries p cancellable).take m.unsorted = (m.filteredEntries p).take m.unsorted := by
  unfold customEntries
  dsimp only
  split
  · rfl
  · next h =>
      exact take_left' (m.length_take_unsorted p fun hnil => h (Or.inl hnil))

theorem customEntries_ordered (m : Model) (hmode : m.customSortMode.sort ≠ .noSort) :
    Ordered (m.customLess p) ((m.customEntries p cancellable).drop m.unsorted) := by
  unfold customEntries
  dsimp only
  split
  · next h =>
      have hnil : m.filteredEntries p = [] := h.resolve_right hmode
      rw [hnil, drop_nil]
      exact Pairwise.nil
  · next h =>
      rw [drop_left' (m.length_take_unsorted p fun hnil => h (Or.inl hnil))]
      exact (customSorter p cancellable _).ordered _ (m.strictWeakOrder_customLess p)

theorem customEntries_noSort (m : Model) (hmode : m.customSortMode.sort = .noSort) :
    m.customEntries p cancellable = m.filteredEntries p := by
  unfold customEntries
  rw [if_pos (Or.inr hmode)]

/-- One equation for the sort, its early returns included. -/
theorem doSort_result (m : Model) (hsize : m.volatileData.length = m.listing.count) :
    (doSortWithHardFiltering p cancellable m).result = { m with
        volatileData := m.showFiltered p
        entriesByCustomSort := m.customEntries p cancellable
        reverseToCustomSort := m.reverseEntries (m.customEntries p cancellable) } := by
  have hnil : m.customEntries p cancellable = [] ↔ m.filteredEntries p = [] := by
    constructor
    · intro h
      exact Perm.nil_eq (h ▸ m.customEntries_perm p cancellable) |>.symm
    · intro h
      exact Perm.eq_nil (h ▸ m.customEntries_perm p cancellable)
  unfold doSortWithHardFiltering
  by_cases hcount : m.listing.count = 0
  · have hvds : m.volatileData = [] := length_eq_zero_iff.mp (hsize.trans hcount)
    have hshow : m.showFiltered p = [] := by
      apply length_eq_zero_iff.mp
      rw [length_showFiltered, hvds]
      rfl
    have hfiltered : m.filteredEntries p = [] := by
      rw [filteredEntries_eq, hcount]
      rfl
    rw [if_pos hcount, hshow, hnil.mpr hfiltered]
    unfold reverseEntries
    rw [if_pos (Or.inl rfl), ← hvds]
    rfl
  · rw [if_neg hcount]
    by_cases hearly : m.filteredEntries p = [] ∨ m.customSortMode.sort = .noSort
    · have hentries : m.customEntries p cancellable = m.filteredEntries p := by
        unfold customEntries
        rw [if_pos hearly]
      have hreverse : m.reverseEntries (m.filteredEntries p) = [] := by
        unfold reverseEntries
        rw [if_pos hearly]
      rw [hentries, hreverse]
      cases hfiltering : m.hardFiltering.isFiltering <;>
        simp [hearly]
    · have hreverse : m.reverseEntries (m.customEntries p cancellable) =
          reverseOf m.listing.count (m.customEntries p cancellable) := by
        unfold reverseEntries
        rw [if_neg fun h => hearly (h.imp_left hnil.mp)]
      have hentries : m.customEntries p cancellable = (m.filteredEntries p).take m.unsorted ++
          (customSorter p cancellable (m.filteredEntries p).length).sort (m.customLess p)
            ((m.filteredEntries p).drop m.unsorted) := by
        unfold customEntries
        rw [if_neg hearly]
      rw [hreverse, hentries]
      have hless := m.customLess_showFiltered p
      cases hfiltering : m.hardFiltering.isFiltering <;>
        simp [hearly, hless]

theorem sorted_eq (hsize : m.volatileData.length = m.listing.count) : m.sorted p = { m with
        volatileData := m.showFiltered p
        entriesByCustomSort := m.customEntries p false
        reverseToCustomSort := m.reverseEntries (m.customEntries p false) } :=
  doSort_result p false m hsize

/-! ## The soft filter -/

/-- `m_EntriesBySoftFiltering`. -/
def softEntries (m : Model) : List Nat :=
  (List.range m.entriesByCustomSort.length).filter fun i =>
    (m.softRange p (m.entriesByCustomSort.getD i 0)).isSome

/-- The soft filter writes highlights. -/
def softHighlights (m : Model) : Bool :=
  m.softFiltering.isFiltering && m.softFiltering.hightlightResults

def softHighlighted (m : Model) : List ItemVolatileData :=
  if m.softHighlights then
    m.entriesByCustomSort.foldl (fun vds raw => vds.modify raw fun vd =>
      { vd with highlight := (m.softRange p raw).getD {} }) m.volatileData
  else m.volatileData

@[simp] theorem length_softHighlighted : (m.softHighlighted p).length = m.volatileData.length := by
  unfold softHighlighted
  split
  · exact length_foldl_modify m.entriesByCustomSort m.volatileData
  · rfl

theorem vd_softHighlighted (hraw : raw < m.volatileData.length) :
    (m.softHighlighted p).getD raw {} = if m.softHighlights ∧ raw ∈ m.entriesByCustomSort then
        { m.vd raw with highlight := (m.softRange p raw).getD {} }
      else m.vd raw := by
  unfold softHighlighted vd
  cases hhighlights : m.softHighlights with
  | false => simp
  | true =>
    have h := getD_foldl_modify (f := fun raw vd =>
      { vd with highlight := (m.softRange p raw).getD {} }) m.entriesByCustomSort
      m.volatileData (fun _ _ => rfl) hraw {}
    simpa using h

theorem soft_result : (buildSoftFilteringIndeces p m).result = { m with
        entriesBySoftFiltering := m.softEntries p
        volatileData := m.softHighlighted p } := by
  unfold buildSoftFilteringIndeces softEntries softHighlighted softHighlights
  cases hfiltering : m.softFiltering.isFiltering with
  | true => simp
  | false =>
    have hall : ∀ raw, m.softRange p raw = some {} := fun raw =>
      TextualFilter.isValidItem_of_not_filtering p.search m.softFiltering hfiltering _ raw
    simp [hall]

theorem softFiltered_eq : m.softFiltered p = { m with
        entriesBySoftFiltering := m.softEntries p
        volatileData := m.softHighlighted p } :=
  soft_result p m

theorem counted_eq : m.counted = { m with stats := m.statictics } := rfl

end Model

end WinCommander.Panel
