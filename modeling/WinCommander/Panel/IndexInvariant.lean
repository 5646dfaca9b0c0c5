/-
  The index arrays of a panel model after any calls.

  `Indexed` and, apart from torn batches, `InOrder` hold after all of them (`indexed_after`).
  What a reader of the arrays relies on (`Indices`) asks more of the setting in force
  (`Setting.Sortable`): a sort that is none writes no reverse index, and the first entry is left
  out of the sorting because it is dot-dot, whether or not the filter lets dot-dot through.
-/
import WinCommander.Panel.Effects

namespace WinCommander.Panel

open Library Model List Nat IndirectListingComparator Pairwise

variable {p : Platform}

/-! ## What holds after all calls -/

theorem indexed_new : Indexed p {} where
  size := rfl
  raw := by
    have hperm := p.rangesSort.perm [] (strictWeakOrder_byFilesystemRepresentation Listing.empty)
    exact (Perm.eq_nil hperm).symm
  perm := Perm.refl _
  head := rfl
  plain _ := rfl
  reverse := rfl
  shown raw hraw := absurd hraw (Nat.not_lt_zero raw)
  plainHidden raw hraw := absurd hraw (Nat.not_lt_zero raw)
  soft := rfl

theorem inOrder_new : InOrder p {} := fun _ => nil

theorem indexed_after (calls : List Operation) : Indexed p (afterCalls p calls) :=
  runAll_invariant (Indexed p) (fun _ call h => (perform_effect h call).indexed h) calls
    indexed_new

/-! ## What a reader of the arrays relies on -/

structure Indices (p : Platform) (m : Model) : Prop where
  rawPerm : m.entriesByRawName.Perm (List.range m.listing.count)
  rawOrdered : Ordered (rawLess m.listing) m.entriesByRawName
  nodup : m.entriesByCustomSort.Nodup
  members : ∀ raw, raw ∈ m.entriesByCustomSort ↔
    raw < m.listing.count ∧ (m.isValidItem p raw).isSome
  dotDotFirst : ∀ raw ∈ m.entriesByCustomSort, m.listing.isDotDot raw →
    m.entriesByCustomSort.head? = some raw
  ordered : m.customSortMode.sort ≠ .noSort →
    Ordered (m.customLess p) (m.entriesByCustomSort.filter fun raw => !m.listing.isDotDot raw)
  listingOrder : m.customSortMode.sort = .noSort → m.entriesByCustomSort.Pairwise (· < ·)
  inverse : ∀ i < m.entriesByCustomSort.length,
    m.sortedIndexForRawIndex (m.rawIndexForSortIndex i) = i
  hidden : ∀ raw < m.listing.count, m.sortedIndexForRawIndex raw = -1 ↔ m.isValidItem p raw = none
  softIncreasing : m.entriesBySoftFiltering.Pairwise (· < ·)
  softMembers : ∀ i, i ∈ m.entriesBySoftFiltering ↔ i < m.entriesByCustomSort.length ∧
      (m.softRange p (m.entriesByCustomSort.getD i 0)).isSome

def Setting.isValidItem (p : Platform) (s : Setting) (raw : Nat) : Option QuickSearchHighlight :=
  s.hardFiltering.isValidItem p.search s.listing raw

/-- Nothing is shown; or the entries are sorted, and dot-dot is shown if it comes first in the
    listing and not shown if it stands anywhere else. -/
def Setting.Sortable (p : Platform) (s : Setting) : Prop :=
  (∀ raw < s.listing.count, s.isValidItem p raw = none) ∨ s.customSortMode.sort ≠ .noSort ∧
      (s.listing.isDotDot 0 → (s.isValidItem p 0).isSome) ∧
        ∀ raw < s.listing.count, s.listing.isDotDot raw → (s.isValidItem p raw).isSome → raw = 0

instance (s : Setting) : Decidable (s.Sortable p) :=
  inferInstanceAs (Decidable (_ ∨ _ ∧ _ ∧ _))

instance (m : Model) (call : Operation) : Decidable (call.Tears m) := by
  cases call with
  | setCalculatedSizesForRawIndices indices sizes =>
    exact inferInstanceAs (Decidable (_ ∧ _ ∧ _))
  | _ => exact inferInstanceAs (Decidable False)

/-- The call asks for a sortable setting and does not tear the sizes that the order is by. -/
def Orderly (p : Platform) (m : Model) (call : Operation) : Prop :=
  (call.setting m).Sortable p ∧ (call.Tears m → ¬ m.customSortMode.BySize)

instance (m : Model) (call : Operation) : Decidable (Orderly p m call) :=
  inferInstanceAs (Decidable (_ ∧ (_ → _)))

/-! ## From the arrays to the readers -/

section Reader

variable {m : Model}

section
variable (h : Indexed p m)
include h

theorem custom_eq_nil (hnone : ∀ raw < m.listing.count, m.isValidItem p raw = none) :
    m.entriesByCustomSort = [] := by
  apply eq_nil_iff_forall_not_mem.mpr
  intro raw hmem
  obtain ⟨hraw, hsome⟩ := h.mem_custom.mp hmem
  rw [hnone raw hraw] at hsome
  cases hsome

/-- The first entry of the listing is the first one shown, if it is shown and not sorted. -/
theorem head_custom (hdotdot : m.listing.isDotDot 0)
    (hvalid : (m.isValidItem p 0).isSome) (hcount : 0 < m.listing.count) :
    m.entriesByCustomSort.head? = some 0 := by
  have hunsorted : m.unsorted = 1 := if_pos hdotdot
  have hfiltered : (m.filteredEntries p).head? = some 0 := by
    obtain ⟨n, hn⟩ := exists_eq_succ_of_ne_zero hcount.ne'
    rw [filteredEntries_eq, hn, range_succ_eq_map, filter_cons, if_pos hvalid]
    rfl
  have hhead := h.head
  rw [hunsorted] at hhead
  have htake : ∀ xs : List Nat, (xs.take 1).head? = xs.head? := by
    intro xs
    cases xs <;> rfl
  rw [← htake, hhead, htake, hfiltered]

theorem ordered_filter (horder : InOrder p m) (hs : m.setting.Sortable p)
    (hmode : m.customSortMode.sort ≠ .noSort) : Ordered (m.customLess p)
      (m.entriesByCustomSort.filter fun raw => !m.listing.isDotDot raw) := by
  rcases hs with hnone | ⟨_, hvalid, _⟩
  · rw [custom_eq_nil h hnone]
    exact nil
  · have hrest := horder hmode
    by_cases hdotdot : m.listing.isDotDot 0
    · have hunsorted : m.unsorted = 1 := if_pos hdotdot
      rw [hunsorted] at hrest
      cases hentries : m.entriesByCustomSort with
      | nil => exact nil
      | cons first rest =>
        have hcount : 0 < m.listing.count := by
          have hmem : first ∈ m.entriesByCustomSort := hentries ▸ mem_cons_self
          exact zero_lt_of_lt (h.mem_custom.mp hmem).1
        have hhead := head_custom h hdotdot (hvalid hdotdot) hcount
        rw [hentries] at hhead hrest
        have hfirst : first = 0 := Option.some.inj hhead
        have hout : ¬ (!m.listing.isDotDot first) := by
          rw [hfirst, hdotdot]
          exact Bool.false_ne_true
        rw [filter_cons, if_neg hout]
        exact filter _ hrest
    · have hunsorted : m.unsorted = 0 := if_neg hdotdot
      rw [hunsorted] at hrest
      exact filter _ hrest

/-- The reverse index says where an entry stands. -/
theorem sortedIndexForRawIndex_eq
    (hs : m.entriesByCustomSort = [] ∨ m.customSortMode.sort ≠ .noSort)
    (hraw : raw < m.listing.count) : m.sortedIndexForRawIndex raw =
      if raw ∈ m.entriesByCustomSort then (m.entriesByCustomSort.idxOf raw : Int) else -1 := by
  have hreverse := h.reverse
  unfold sortedIndexForRawIndex
  unfold reverseEntries at hreverse
  by_cases hnil : m.entriesByCustomSort = []
  · rw [if_pos (Or.inl hnil)] at hreverse
    rw [hreverse, hnil, if_pos, if_neg not_mem_nil]
    exact Or.inr (Int.natCast_nonneg raw)
  · have hmode : m.customSortMode.sort ≠ .noSort := hs.resolve_left hnil
    rw [if_neg (not_or.mpr ⟨hnil, hmode⟩)] at hreverse
    have hlength : m.reverseToCustomSort.length = m.listing.count := by
      rw [hreverse]
      unfold reverseOf
      rw [length_place, length_replicate]
    have hentry : m.reverseToCustomSort.getD raw none =
        if raw ∈ m.entriesByCustomSort then some (0 + m.entriesByCustomSort.idxOf raw)
        else (replicate m.listing.count none).getD raw none := by
      rw [hreverse]
      exact getD_place _ _ 0 h.nodup (by rw [length_replicate]; exact hraw)
    have hin : ¬ ((raw : Int) < 0 ∨ (m.reverseToCustomSort.length : Int) ≤ raw) := by
      omega
    rw [if_neg hin, Int.toNat_natCast, hentry]
    by_cases hmem : raw ∈ m.entriesByCustomSort
    · rw [if_pos hmem, if_pos hmem, Nat.zero_add]
    · rw [if_neg hmem, if_neg hmem, List.getD_eq_getElem?_getD]
      simp [hraw]

theorem indices_of (horder : InOrder p m) (hs : m.setting.Sortable p) : Indices p m := by
  have hraw := p.rangesSort.perm (range m.listing.count)
    (strictWeakOrder_byFilesystemRepresentation m.listing)
  have hordered := p.rangesSort.ordered (range m.listing.count)
    (strictWeakOrder_byFilesystemRepresentation m.listing)
  have hshown : m.entriesByCustomSort = [] ∨ m.customSortMode.sort ≠ .noSort :=
    hs.imp (custom_eq_nil h) fun hsort => hsort.1
  refine ⟨?_, ?_, h.nodup, fun raw => h.mem_custom, ?_, ordered_filter h horder hs, ?_, ?_, ?_,
    ?_, ?_⟩
  · rw [h.raw]
    exact hraw
  · rw [h.raw]
    exact hordered
  · intro raw hmem hdotdot
    obtain ⟨hlt, hvalid⟩ := h.mem_custom.mp hmem
    rcases hs with hnone | ⟨_, _, honly⟩
    · rw [custom_eq_nil h hnone] at hmem
      exact absurd hmem not_mem_nil
    · have hzero : raw = 0 := honly raw hlt hdotdot hvalid
      rw [hzero] at hdotdot hvalid ⊢
      exact head_custom h hdotdot hvalid (zero_lt_of_lt hlt)
  · intro hmode
    rw [h.plain hmode]
    exact m.filteredEntries_increasing p
  · intro i hi
    have hentry : m.rawIndexForSortIndex i = m.entriesByCustomSort[i] := by
      unfold rawIndexForSortIndex
      rw [if_neg (by omega), Int.toNat_natCast, List.getD_eq_getElem?_getD,
        List.getElem?_eq_getElem hi]
      rfl
    have hmem : m.entriesByCustomSort[i] ∈ m.entriesByCustomSort := getElem_mem hi
    rw [hentry, sortedIndexForRawIndex_eq h hshown (h.mem_custom.mp hmem).1, if_pos hmem,
      h.nodup.idxOf_getElem i hi]
  · intro raw hlt
    rw [sortedIndexForRawIndex_eq h hshown hlt]
    have hmem : raw ∈ m.entriesByCustomSort ↔
        raw < m.listing.count ∧ (m.isValidItem p raw).isSome := h.mem_custom
    by_cases hvalid : (m.isValidItem p raw).isSome
    · rw [if_pos (hmem.mpr ⟨hlt, hvalid⟩)]
      refine iff_of_false (by omega) fun hnone => ?_
      rw [hnone] at hvalid
      cases hvalid
    · rw [if_neg fun hin => hvalid (hmem.mp hin).2]
      exact iff_of_true rfl (by simpa using hvalid)
  · rw [h.soft]
    exact filter _ pairwise_lt_range
  · intro i
    rw [h.soft]
    unfold softEntries
    rw [mem_filter, mem_range]

end

end Reader

/-! ## Runs -/

/-- What the run lemma carries: the arrays, their order and a setting that allows both. -/
structure WellSorted (p : Platform) (m : Model) : Prop where
  indexed : Indexed p m
  inOrder : InOrder p m
  sortable : m.setting.Sortable p

theorem WellSorted.perform (h : WellSorted p m) (hcall : Orderly p m call)
    : WellSorted p (perform p m call).1 where
  indexed := (perform_effect h.indexed call).indexed h.indexed
  inOrder := (perform_effect h.indexed call).inOrder h.inOrder hcall.2
  sortable := by
    rw [(perform_effect h.indexed call).setting_eq]
    exact hcall.1

theorem wellSorted_new : WellSorted p {} :=
  ⟨indexed_new, inOrder_new, Or.inl fun raw hraw => absurd hraw (Nat.not_lt_zero raw)⟩

/-- After any calls that ask for sortable settings and tear no sizes, the arrays are as their
    readers take them. -/
theorem indices_after (calls : List Operation)
    (h : Meets (perform p) (Orderly p) {} calls) : Indices p (afterCalls p calls) := by
  have hrun : WellSorted p (afterCalls p calls) :=
    runAll_meets (Orderly p) (fun m _ => WellSorted p m)
      (fun _ _ _ hcall hm => hm.perform hcall) [] calls h wellSorted_new
  exact indices_of hrun.indexed hrun.inOrder hrun.sortable

/-! ## A platform to run on -/

/-- Foundation's searches on ASCII texts. -/
def asciiFold (caseInsensitive : Bool) (unit : UInt16) : UInt16 :=
  if caseInsensitive && 65 ≤ unit && unit ≤ 90 then unit + 32 else unit

def asciiRangeOf (text needle : Text) (options : SearchOptions) (start length : Nat) : Range :=
  let fold := List.map (asciiFold options.caseInsensitive)
  let last := start + length - needle.length
  let spots := (List.range (text.length + 1)).filter fun spot =>
    start ≤ spot && spot ≤ last && needle.length ≤ length &&
      fold ((text.drop spot).take needle.length) == fold needle &&
      (!options.anchored || spot == if options.backwards then last else start)
  match if options.backwards then spots.getLast? else spots.head? with
  | none => ⟨0, 0⟩
  | some spot => ⟨spot, needle.length⟩

def asciiCompare (collation : SortMode.Collation) (first second : Text) : Ordering :=
  compare (first.map (asciiFold (collation != .caseSensitive)))
    (second.map (asciiFold (collation != .caseSensitive)))

def asciiPlatform : Platform where
  search :=
    { rangeOfString := asciiRangeOf
      find := fun text needle start length =>
        let found := asciiRangeOf text needle { caseInsensitive := true } start length
        if found.length = 0 then none else some found.offset }
  strings :=
    { compare := asciiCompare
      lawful := fun collation => StrictWeakOrder.transCmp_on compare
        (List.map (asciiFold (collation != .caseSensitive))) }
  rangesSort := .insertion
  stdSort := .insertion
  pstldSort := .insertion

/-- A file with an ASCII name in the directory `/`. -/
def asciiFile (name : String) : Entry :=
  { filename := ascii name
    displayFilename := name.toList.map fun c => c.toNat.toUInt16
    directory := ascii "/"
    host := 0
    unixMode := 0o100000
    unixFlags := none
    size := some 1
    aTime := none
    mTime := none
    bTime := none
    addTime := none }

/-- The directory `/` with two files, the later name first. -/
def twoFiles : Listing where
  entries := [asciiFile "b", asciiFile "a"]
  hasCommonHost := true
  hasCommonDirectory := true
  creationTime := 0
  filename_ne := by decide
  directory_slash := by decide
  common_host := by decide
  common_directory := by decide

theorem indices_after_twoFiles : Indices asciiPlatform (afterCalls asciiPlatform
      [.load (some twoFiles) .directory, .setSortMode { sort := .byNameRev },
        .setHardFiltering { showHidden := false }, .customFlagsSelectSorted 0 true]) :=
  indices_after _ (by decide +kernel)

/-- Without sorting, an entry that is shown has no place in the reverse index. -/
theorem indices_after_noSort :
    ¬ ∀ calls : List Operation, Indices asciiPlatform (afterCalls asciiPlatform calls) := by
  intro h
  have hinverse := (h [.setSortMode { sort := .noSort },
    .load (some twoFiles) .directory]).inverse 0 (by decide +kernel)
  have hnone : (afterCalls asciiPlatform [.setSortMode { sort := .noSort },
      .load (some twoFiles) .directory]).sortedIndexForRawIndex
        ((afterCalls asciiPlatform [.setSortMode { sort := .noSort },
          .load (some twoFiles) .directory]).rawIndexForSortIndex 0) = -1 := by
    decide +kernel
  exact absurd (hnone.symm.trans hinverse) (by decide)

end WinCommander.Panel
