/-
  The index arrays that hold in every state, whatever calls led to it.

  `Indexed` is kept by all of them: a call rebuilds the arrays (`rebuild_indexed`), or it writes
  volatile data that the arrays do not depend on (`Indexed.of_vds`). The order of the entries is
  kept apart (`InOrder`), as a call that throws between its sizes leaves it behind.
-/
import WinCommander.Panel.Rebuilding

namespace WinCommander.Panel

open Library ItemVolatileData List

variable {p : Platform}

namespace Model

/-- The arrays that a sort writes, and the flags and highlights that go with them. -/
structure SortIndexed (p : Platform) (m : Model) : Prop where
  size : m.volatileData.length = m.listing.count
  raw : m.entriesByRawName = p.rangesSort.sort (rawLess m.listing) (List.range m.listing.count)
  perm : m.entriesByCustomSort.Perm (m.filteredEntries p)
  head : m.entriesByCustomSort.take m.unsorted = (m.filteredEntries p).take m.unsorted
  plain : m.customSortMode.sort = .noSort → m.entriesByCustomSort = m.filteredEntries p
  reverse : m.reverseToCustomSort = m.reverseEntries m.entriesByCustomSort
  shown : ∀ raw < m.listing.count, (m.vd raw).isShown = (m.isValidItem p raw).isSome
  plainHidden : ∀ raw < m.listing.count, m.isValidItem p raw = none → (m.vd raw).highlight = {}

structure Indexed (p : Platform) (m : Model) : Prop extends SortIndexed p m where
  soft : m.entriesBySoftFiltering = m.softEntries p

/-- The entries behind those that stay out of the sorting are in order. -/
def InOrder (p : Platform) (m : Model) : Prop :=
  m.customSortMode.sort ≠ .noSort → Ordered (m.customLess p) (m.entriesByCustomSort.drop m.unsorted)

/-- The volatile data of an entry differ at most in what no index array depends on. -/
structure SameShown (vd vd' : ItemVolatileData) : Prop where
  isShown : vd'.isShown = vd.isShown
  highlight : vd'.highlight = vd.highlight

variable {m : Model} {raw : Nat} {vds : List ItemVolatileData}

theorem SortIndexed.mem_custom (h : SortIndexed p m) :
    raw ∈ m.entriesByCustomSort ↔ raw < m.listing.count ∧ (m.isValidItem p raw).isSome :=
  h.perm.mem_iff.trans (m.mem_filteredEntries p)

theorem SortIndexed.nodup (h : SortIndexed p m) : m.entriesByCustomSort.Nodup :=
  h.perm.nodup_iff.mpr (m.filteredEntries_nodup p)

theorem SortIndexed.of_vds (h : SortIndexed p m) (hlength : vds.length = m.volatileData.length)
    (hsame : ∀ raw < m.volatileData.length, (vds.getD raw {}).isShown = (m.vd raw).isShown)
    (hplain : ∀ raw < m.volatileData.length, m.isValidItem p raw = none → (vds.getD raw {}).highlight = (m.vd raw).highlight) :
    SortIndexed p { m with volatileData := vds } where
  size := hlength.trans h.size
  raw := h.raw
  perm := h.perm
  head := h.head
  plain := h.plain
  reverse := h.reverse
  shown raw hraw := (hsame raw (h.size ▸ hraw)).trans (h.shown raw hraw)
  plainHidden raw hraw hinvalid :=
    (hplain raw (h.size ▸ hraw) hinvalid).trans (h.plainHidden raw hraw hinvalid)

theorem Indexed.of_vds (h : Indexed p m) (hlength : vds.length = m.volatileData.length)
    (hsame : ∀ raw < m.volatileData.length, SameShown (m.vd raw) (vds.getD raw {})) :
    Indexed p { m with volatileData := vds } where
  toSortIndexed := h.toSortIndexed.of_vds hlength (fun raw hraw => (hsame raw hraw).isShown)
    fun raw hraw _ => (hsame raw hraw).highlight
  soft := h.soft

theorem Indexed.of_stats (h : Indexed p m) (stats : Statistics) :
    Indexed p { m with stats := stats } :=
  ⟨⟨h.size, h.raw, h.perm, h.head, h.plain, h.reverse, h.shown, h.plainHidden⟩, h.soft⟩

theorem InOrder.of_sizes (h : InOrder p m) (hsize : ∀ raw, (vds.getD raw {}).size = (m.vd raw).size) :
    InOrder p { m with volatileData := vds } := by
  intro hmode
  have hless : customLess p { m with volatileData := vds } = m.customLess p :=
    IndirectListingComparator.less_congr p.strings m.listing m.customSortMode hsize
  rw [hless]
  exact h hmode

/-! ## Rebuilding -/

theorem vd_of_length_le (h : vds.length ≤ raw) : vds.getD raw {} = {} := by
  rw [List.getD_eq_getElem?_getD, List.getElem?_eq_none h]
  rfl

variable (cancellable : Bool)

theorem doSort_indexed (m : Model) (hsize : m.volatileData.length = m.listing.count)
    (hraw : m.entriesByRawName = p.rangesSort.sort (rawLess m.listing) (range m.listing.count)) :
    SortIndexed p (doSortWithHardFiltering p cancellable m).result := by
  rw [doSort_result p cancellable m hsize]
  have hvd : ∀ raw < m.listing.count, (m.showFiltered p).getD raw {} = { m.vd raw with
        highlight := m.hardHighlight p raw
        isShown := (m.isValidItem p raw).isSome } := by
    intro raw hlt
    exact m.vd_showFiltered p (by rw [hsize]; exact hlt)
  constructor
  · exact (m.length_showFiltered p).trans hsize
  · exact hraw
  · exact m.customEntries_perm p cancellable
  · exact m.customEntries_take p cancellable
  · exact m.customEntries_noSort p cancellable
  · rfl
  · intro raw hlt
    exact congrArg isShown (hvd raw hlt)
  · intro raw hlt hinvalid
    have hnone : m.isValidItem p raw = none := hinvalid
    have hhighlight : m.hardHighlight p raw = {} := by
      unfold hardHighlight
      rw [hnone]
      exact ite_self _
    exact (congrArg highlight (hvd raw hlt)).trans hhighlight

theorem doSort_inOrder (m : Model) (hsize : m.volatileData.length = m.listing.count) :
    InOrder p (doSortWithHardFiltering p cancellable m).result := by
  intro hmode
  rw [doSort_result p cancellable m hsize] at hmode ⊢
  have hless := m.customLess_showFiltered p
  have hordered := m.customEntries_ordered p cancellable hmode
  rw [← hless] at hordered
  exact hordered

theorem vd_clearSelected (m : Model) (raw : Nat) : (m.clearSelectedFlagsFromHiddenElements).vd raw =
      { m.vd raw with isSelected := (m.vd raw).isShown && (m.vd raw).isSelected } := by
  have hmap := getD_map_default (f := fun vd : ItemVolatileData =>
    if !vd.isShown && vd.isSelected then vd.toggleSelected false else vd) (d := {}) rfl
    m.volatileData raw
  refine hmap.trans ?_
  unfold vd
  obtain ⟨size, highlight, icon, isSelected, isShown, isHighlighted⟩ :=
    m.volatileData.getD raw {}
  cases isSelected <;> cases isShown <;> rfl

@[simp] theorem length_clearSelected (m : Model) :
    m.clearSelectedFlagsFromHiddenElements.volatileData.length = m.volatileData.length :=
  length_map _

theorem SortIndexed.clearSelected (h : SortIndexed p m) :
    SortIndexed p m.clearSelectedFlagsFromHiddenElements :=
  h.of_vds m.length_clearSelected
    (fun raw _ => by
      change (m.clearSelectedFlagsFromHiddenElements.vd raw).isShown = _
      rw [vd_clearSelected])
    fun raw _ _ => by
      change (m.clearSelectedFlagsFromHiddenElements.vd raw).highlight = _
      rw [vd_clearSelected]

theorem InOrder.clearSelected (h : InOrder p m) :
    InOrder p m.clearSelectedFlagsFromHiddenElements :=
  h.of_sizes fun raw => by
    change (m.clearSelectedFlagsFromHiddenElements.vd raw).size = _
    rw [vd_clearSelected]

theorem SortIndexed.softFiltered (h : SortIndexed p m) : Indexed p (m.softFiltered p) := by
  rw [softFiltered_eq]
  have hvds : SortIndexed p { m with volatileData := m.softHighlighted p } := by
    apply h.of_vds (m.length_softHighlighted p)
    · intro raw hraw
      rw [m.vd_softHighlighted p hraw]
      split <;> rfl
    · intro raw hraw hinvalid
      have hout : raw ∉ m.entriesByCustomSort := by
        intro hmem
        have hsome := (h.mem_custom.mp hmem).2
        rw [hinvalid] at hsome
        cases hsome
      rw [m.vd_softHighlighted p hraw, if_neg fun hboth => hout hboth.2]
  exact ⟨⟨hvds.size, hvds.raw, hvds.perm, hvds.head, hvds.plain, hvds.reverse, hvds.shown,
    hvds.plainHidden⟩, rfl⟩

theorem InOrder.softFiltered (h : InOrder p m) : InOrder p (m.softFiltered p) := by
  rw [softFiltered_eq]
  have hvds : InOrder p { m with volatileData := m.softHighlighted p } := by
    apply h.of_sizes
    intro raw
    by_cases hraw : raw < m.volatileData.length
    · rw [m.vd_softHighlighted p hraw]
      split <;> rfl
    · unfold vd
      rw [vd_of_length_le (by rw [length_softHighlighted]; omega), vd_of_length_le (by omega)]
  exact hvds

/-- A sort with or without a checker. -/
abbrev sortedWith (p : Platform) (cancellable : Bool) (m : Model) : Model :=
  (doSortWithHardFiltering p cancellable m).result

theorem sortedWith_eq (m : Model) (hsize : m.volatileData.length = m.listing.count) :
    sortedWith p cancellable m = { m with
      volatileData := m.showFiltered p
      entriesByCustomSort := m.customEntries p cancellable
      reverseToCustomSort := m.reverseEntries (m.customEntries p cancellable) } :=
  doSort_result p cancellable m hsize

/-- What every rebuilding call does, some of them clearing the flags of hidden entries. -/
def rebuildWith (p : Platform) (cancellable clears : Bool) (m : Model) : Model :=
  ((if clears then (sortedWith p cancellable m).clearSelectedFlagsFromHiddenElements
    else sortedWith p cancellable m).softFiltered p).counted

theorem rebuildWith_indexed (cancellable clears : Bool) (m : Model)
    (hsize : m.volatileData.length = m.listing.count) (hraw : m.entriesByRawName =
      p.rangesSort.sort (rawLess m.listing) (range m.listing.count)) :
    Indexed p (rebuildWith p cancellable clears m) := by
  have hsorted : SortIndexed p (sortedWith p cancellable m) :=
    doSort_indexed cancellable m hsize hraw
  apply Indexed.of_stats
  apply SortIndexed.softFiltered
  cases clears with
  | false => exact hsorted
  | true => exact hsorted.clearSelected

theorem rebuildWith_inOrder (cancellable clears : Bool) (m : Model)
    (hsize : m.volatileData.length = m.listing.count) :
    InOrder p (rebuildWith p cancellable clears m) := by
  have hsorted : InOrder p (sortedWith p cancellable m) := doSort_inOrder cancellable m hsize
  apply InOrder.softFiltered
  cases clears with
  | false => exact hsorted
  | true => exact hsorted.clearSelected

/-- A rebuild writes arrays, volatile data and statistics. -/
theorem rebuildWith_eq (cancellable clears : Bool) (m : Model)
    (hsize : m.volatileData.length = m.listing.count) :
    ∃ vds soft, rebuildWith p cancellable clears m = { m with
        volatileData := vds
        entriesByCustomSort := m.customEntries p cancellable
        reverseToCustomSort := m.reverseEntries (m.customEntries p cancellable)
        entriesBySoftFiltering := soft
        stats := (rebuildWith p cancellable clears m).stats } := by
  unfold rebuildWith sortedWith
  rw [softFiltered_eq, doSort_result p cancellable m hsize]
  cases clears <;> exact ⟨_, _, rfl⟩

theorem mem_customEntries (m : Model) : raw ∈ m.customEntries p cancellable ↔
      raw < m.listing.count ∧ (m.isValidItem p raw).isSome :=
  (m.customEntries_perm p cancellable).mem_iff.trans (m.mem_filteredEntries p)

/-- The highlight that a rebuilt model shows: that of the soft filter where it writes one. -/
def rebuiltHighlight (p : Platform) (m : Model) (raw : Nat) : QuickSearchHighlight :=
  if m.softHighlights ∧ (m.isValidItem p raw).isSome then (m.softRange p raw).getD {}
  else m.hardHighlight p raw

theorem vd_softFiltered (m : Model) (hraw : raw < m.volatileData.length) :
    (m.softFiltered p).vd raw = if m.softHighlights ∧ raw ∈ m.entriesByCustomSort then
        { m.vd raw with highlight := (m.softRange p raw).getD {} }
      else m.vd raw := by
  rw [softFiltered_eq]
  exact m.vd_softHighlighted p hraw

/-- The soft filter writes highlights and nothing else. -/
theorem softFiltered_highlights (m : Model) (raw : Nat) :
    ∃ highlight, (m.softFiltered p).vd raw = { m.vd raw with highlight := highlight } := by
  by_cases hraw : raw < m.volatileData.length
  · rw [vd_softFiltered m hraw]
    split
    · exact ⟨_, rfl⟩
    · exact ⟨(m.vd raw).highlight, rfl⟩
  · rw [softFiltered_eq]
    refine ⟨(m.vd raw).highlight, ?_⟩
    unfold vd
    rw [vd_of_length_le (by rw [length_softHighlighted]; exact Nat.le_of_not_lt hraw),
      vd_of_length_le (Nat.le_of_not_lt hraw)]

/-- The volatile data of an entry after a rebuild. -/
theorem vd_rebuildWith (cancellable clears : Bool) (m : Model)
    (hsize : m.volatileData.length = m.listing.count) (hraw : raw < m.listing.count) :
    (rebuildWith p cancellable clears m).vd raw = { m.vd raw with
        highlight := m.rebuiltHighlight p raw
        isShown := (m.isValidItem p raw).isSome
        isSelected := (m.vd raw).isSelected && (!clears || (m.isValidItem p raw).isSome) } := by
  have hvalid : raw ∈ m.customEntries p cancellable ↔ (m.isValidItem p raw).isSome = true :=
    (mem_customEntries cancellable m).trans (and_iff_right hraw)
  have hsorted : (sortedWith p cancellable m).vd raw = { m.vd raw with
      highlight := m.hardHighlight p raw, isShown := (m.isValidItem p raw).isSome } := by
    rw [sortedWith_eq cancellable m hsize]
    exact m.vd_showFiltered p (hsize ▸ hraw)
  have hlength : raw < (sortedWith p cancellable m).volatileData.length := by
    rw [sortedWith_eq cancellable m hsize]
    show raw < (m.showFiltered p).length
    rw [length_showFiltered]
    exact hsize ▸ hraw
  have hhighlights : (sortedWith p cancellable m).softHighlights = m.softHighlights := by
    rw [sortedWith_eq cancellable m hsize]
    rfl
  have hrange : (sortedWith p cancellable m).softRange p raw = m.softRange p raw := by
    rw [sortedWith_eq cancellable m hsize]
    rfl
  have hentries : (sortedWith p cancellable m).entriesByCustomSort = m.customEntries p cancellable := by
    rw [sortedWith_eq cancellable m hsize]
  unfold rebuiltHighlight
  cases clears with
  | false =>
    show ((sortedWith p cancellable m).softFiltered p).vd raw = _
    rw [vd_softFiltered _ hlength, hsorted, hhighlights, hrange, hentries]
    simp only [hvalid, Bool.not_false, Bool.true_or, Bool.and_true]
    split <;> rfl
  | true =>
    show ((sortedWith p cancellable m).clearSelectedFlagsFromHiddenElements.softFiltered p).vd raw = _
    rw [vd_softFiltered _ (by rw [length_clearSelected]; exact hlength), vd_clearSelected, hsorted]
    show (if (sortedWith p cancellable m).softHighlights ∧ raw ∈ (sortedWith p cancellable m).entriesByCustomSort then
      { m.vd raw with
        highlight := ((sortedWith p cancellable m).softRange p raw).getD {}
        isShown := (m.isValidItem p raw).isSome
        isSelected := (m.isValidItem p raw).isSome && (m.vd raw).isSelected }
      else { m.vd raw with
        highlight := m.hardHighlight p raw
        isShown := (m.isValidItem p raw).isSome
        isSelected := (m.isValidItem p raw).isSome && (m.vd raw).isSelected }) = _
    rw [hhighlights, hrange, hentries]
    simp only [hvalid, Bool.not_true, Bool.false_or, Bool.and_comm]
    split <;> rfl

/-! ## Rebuilding on the main thread -/

def rebuild (p : Platform) (clears : Bool) (m : Model) : Model :=
  ((if clears then (m.sorted p).clearSelectedFlagsFromHiddenElements
    else m.sorted p).softFiltered p).counted

theorem rebuild_indexed (clears : Bool) (m : Model)
    (hsize : m.volatileData.length = m.listing.count) (hraw : m.entriesByRawName =
      p.rangesSort.sort (rawLess m.listing) (range m.listing.count)) :
    Indexed p (rebuild p clears m) :=
  rebuildWith_indexed false clears m hsize hraw

theorem rebuild_inOrder (clears : Bool) (m : Model)
    (hsize : m.volatileData.length = m.listing.count) : InOrder p (rebuild p clears m) :=
  rebuildWith_inOrder false clears m hsize

end Model

end WinCommander.Panel
