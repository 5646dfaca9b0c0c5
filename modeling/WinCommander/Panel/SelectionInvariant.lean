/-
  The selection flags and the statistics of a panel model after any calls.

  The statistics are those of the listing plus one share for each selected entry that is shown
  (`statictics_eq`), so that a single toggle changes them by the share of one entry. The runs of
  `selection_after` leave out the calls that forget about the flags of entries that become
  hidden, and about the statistics.
-/
import WinCommander.Panel.IndexInvariant

namespace WinCommander.Panel

open Library Model List Statistics SizeBatch

variable {p : Platform}

/-! ## The statistics as a sum -/

/-- The bytes and the numbers of entries, directories and files that an entry stands for. -/
abbrev Share := BitVec 64 × Int × Int × Int

def Statistics.plus (s : Statistics) (share : Share) : Statistics :=
  { s with
    bytesInSelectedEntries := s.bytesInSelectedEntries + share.1
    selectedEntriesAmount := s.selectedEntriesAmount + share.2.1
    selectedDirsAmount := s.selectedDirsAmount + share.2.2.1
    selectedRegAmount := s.selectedRegAmount + share.2.2.2 }

theorem Statistics.plus_zero (s : Statistics) : s.plus 0 = s := by
  unfold plus
  simp

theorem Statistics.plus_plus (s : Statistics) (share share' : Share) :
    (s.plus share).plus share' = s.plus (share + share') := by
  unfold plus
  simp [add_assoc]

namespace Model

/-- The share of an entry that is selected. -/
def shareOf (m : Model) (raw : Nat) : Share :=
  ((m.vd raw).selectedBytes, 1, if m.listing.isDir raw then 1 else 0,
    if m.listing.isDir raw then 0 else 1)

def share (m : Model) (raw : Nat) : Share :=
  if (m.vd raw).isSelected then m.shareOf raw else 0

def rawStatistics (l : Listing) : Statistics :=
  (List.range l.count).foldl (countRaw l) { totalEntriesAmount := totalEntries l }

theorem countSelected_eq (m : Model) (s : Statistics) (raw : Nat) :
    m.countSelected s raw = s.plus (m.shareOf raw) := by
  unfold countSelected plus shareOf
  cases m.listing.isDir raw <;> simp

theorem foldl_countSelected (m : Model) (entries : List Nat) (s : Statistics) :
    entries.foldl (fun s raw => if (m.vd raw).isSelected then m.countSelected s raw else s) s =
      s.plus (entries.map m.share).sum := by
  induction entries generalizing s with
  | nil => exact s.plus_zero.symm
  | cons raw entries ih =>
    rw [foldl_cons, ih, map_cons, sum_cons, ← plus_plus]
    unfold share
    cases (m.vd raw).isSelected with
    | false =>
      rw [if_neg Bool.false_ne_true, if_neg Bool.false_ne_true, plus_zero]
    | true => rw [if_pos rfl, if_pos rfl, countSelected_eq]

theorem statictics_eq (m : Model) :
    m.statictics = (rawStatistics m.listing).plus (m.entriesByCustomSort.map m.share).sum :=
  m.foldl_countSelected m.entriesByCustomSort _

theorem selectedAmounts_raw (l : Listing) :
    (rawStatistics l).selectedEntriesAmount = 0 ∧ (rawStatistics l).selectedDirsAmount = 0 ∧
      (rawStatistics l).selectedRegAmount = 0 := by
  have hfold : ∀ (entries : List Nat) (s : Statistics),
      (entries.foldl (countRaw l) s).selectedEntriesAmount = s.selectedEntriesAmount ∧
        (entries.foldl (countRaw l) s).selectedDirsAmount = s.selectedDirsAmount ∧
          (entries.foldl (countRaw l) s).selectedRegAmount = s.selectedRegAmount := by
    intro entries
    induction entries with
    | nil => exact fun s => ⟨rfl, rfl, rfl⟩
    | cons raw entries ih =>
      intro s
      rw [foldl_cons]
      obtain ⟨hentries, hdirs, hreg⟩ := ih (countRaw l s raw)
      rw [hentries, hdirs, hreg]
      unfold countRaw
      split <;> exact ⟨rfl, rfl, rfl⟩
  exact hfold _ _

theorem share_nonneg (m : Model) (raw : Nat) :
    0 ≤ (m.share raw).2.1 ∧ 0 ≤ (m.share raw).2.2.1 ∧ 0 ≤ (m.share raw).2.2.2 := by
  unfold share shareOf
  cases (m.vd raw).isSelected <;> cases m.listing.isDir raw <;> simp

theorem sum_share_nonneg (m : Model) (entries : List Nat) :
    0 ≤ (entries.map m.share).sum.2.1 ∧ 0 ≤ (entries.map m.share).sum.2.2.1 ∧
      0 ≤ (entries.map m.share).sum.2.2.2 := by
  induction entries with
  | nil => exact ⟨le_refl _, le_refl _, le_refl _⟩
  | cons raw entries ih =>
    obtain ⟨h1, h2, h3⟩ := m.share_nonneg raw
    obtain ⟨t1, t2, t3⟩ := ih
    exact ⟨Int.add_nonneg h1 t1, Int.add_nonneg h2 t2, Int.add_nonneg h3 t3⟩

/-- Two models with the same shown entries, sizes and selection have the same statistics. -/
theorem statictics_congr {m m' : Model} (hlisting : m'.listing = m.listing)
    (hentries : m'.entriesByCustomSort = m.entriesByCustomSort)
    (hvd : ∀ raw ∈ m.entriesByCustomSort, (m'.vd raw).isSelected = (m.vd raw).isSelected ∧
      ((m.vd raw).isSelected → (m'.vd raw).size = (m.vd raw).size)) :
    m'.statictics = m.statictics := by
  have hshares : m.entriesByCustomSort.map m'.share = m.entriesByCustomSort.map m.share := by
    apply map_congr_left
    intro raw hraw
    obtain ⟨hselected, hsize⟩ := hvd raw hraw
    unfold share shareOf ItemVolatileData.selectedBytes ItemVolatileData.isSizeCalculated
    rw [hselected, hlisting]
    cases hcase : (m.vd raw).isSelected with
    | false => rfl
    | true => rw [hsize hcase]
  rw [statictics_eq, statictics_eq, hentries, hlisting, hshares]

end Model

/-! ## The invariant -/

structure SelectionSound (m : Model) : Prop where
  hidden : ∀ raw < m.listing.count, raw ∉ m.entriesByCustomSort → (m.vd raw).isSelected = false
  dotDot : ∀ raw < m.listing.count, m.listing.isDotDot raw → (m.vd raw).isSelected = false
  stats : m.stats = m.statictics
  amounts : 0 ≤ m.stats.selectedEntriesAmount ∧ 0 ≤ m.stats.selectedDirsAmount ∧
    0 ≤ m.stats.selectedRegAmount

variable {m : Model}

theorem amounts_of_stats (h : m.stats = m.statictics) :
    0 ≤ m.stats.selectedEntriesAmount ∧ 0 ≤ m.stats.selectedDirsAmount ∧
      0 ≤ m.stats.selectedRegAmount := by
  obtain ⟨hentries, hdirs, hreg⟩ := selectedAmounts_raw m.listing
  obtain ⟨h1, h2, h3⟩ := m.sum_share_nonneg m.entriesByCustomSort
  rw [h, statictics_eq]
  unfold plus
  rw [hentries, hdirs, hreg]
  exact ⟨by simpa using h1, by simpa using h2, by simpa using h3⟩

/-- The statistics of a rebuilt model are those that it was counted with. -/
theorem rebuildWith_sound (cancellable clears : Bool) (m : Model)
    (hsize : m.volatileData.length = m.listing.count)
    (hhidden : ∀ raw < m.listing.count, clears = false → (m.vd raw).isSelected →
      (m.isValidItem p raw).isSome)
    (hdotDot : ∀ raw < m.listing.count, m.listing.isDotDot raw → (m.vd raw).isSelected = false) :
    SelectionSound (rebuildWith p cancellable clears m) := by
  have hlisting : (rebuildWith p cancellable clears m).listing = m.listing := by
    obtain ⟨vds, soft, heq⟩ := rebuildWith_eq (p := p) cancellable clears m hsize
    rw [heq]
  have hentries : (rebuildWith p cancellable clears m).entriesByCustomSort =
      m.customEntries p cancellable := by
    obtain ⟨vds, soft, heq⟩ := rebuildWith_eq (p := p) cancellable clears m hsize
    rw [heq]
  have hstats : (rebuildWith p cancellable clears m).stats = (rebuildWith p cancellable clears m).statictics := rfl
  refine ⟨?_, ?_, hstats, amounts_of_stats hstats⟩
  · intro raw hraw hout
    rw [hlisting] at hraw
    rw [hentries, mem_customEntries] at hout
    have hinvalid : (m.isValidItem p raw).isSome = false := by
      by_contra hvalid
      exact hout ⟨hraw, Bool.of_not_eq_false hvalid⟩
    rw [vd_rebuildWith cancellable clears m hsize hraw]
    rw [hinvalid]
    cases hclears : clears with
    | true => simp
    | false =>
      have hunselected : (m.vd raw).isSelected = false := by
        by_contra hselected
        have hvalid := hhidden raw hraw hclears (by simpa using hselected)
        rw [hinvalid] at hvalid
        cases hvalid
      rw [hunselected]
      rfl
  · intro raw hraw hdot
    rw [hlisting] at hraw hdot
    rw [vd_rebuildWith cancellable clears m hsize hraw]
    rw [hdotDot raw hraw hdot]
    rfl

theorem rebuild_sound (clears : Bool) (m : Model) (hsize : m.volatileData.length = m.listing.count)
    (hhidden : ∀ raw < m.listing.count, clears = false → (m.vd raw).isSelected →
      (m.isValidItem p raw).isSome)
    (hdotDot : ∀ raw < m.listing.count, m.listing.isDotDot raw → (m.vd raw).isSelected = false) :
    SelectionSound (rebuild p clears m) :=
  rebuildWith_sound false clears m hsize hhidden hdotDot

/-! ## Single toggles -/

/-- An entry may be deselected when its bytes do not exceed the selected ones, as signed. -/
def Deselectable (m : Model) (raw : Nat) : Prop :=
  (m.vd raw).isSelected = true → (m.vd raw).selectedBytes.sle m.stats.bytesInSelectedEntries = true

instance (m : Model) (raw : Nat) : Decidable (Deselectable m raw) :=
  inferInstanceAs (Decidable (_ → _))

theorem uncountSelected_eq (hselected : (m.vd raw).isSelected) (h : Deselectable m raw) :
    m.uncountSelected raw = m.stats.plus (-m.shareOf raw) := by
  have hsle := h hselected
  unfold uncountSelected plus shareOf
  cases m.listing.isDir raw <;> simp [hsle, sub_eq_add_neg]

section Toggle

variable (m : Model) (stats : Statistics) (v : Bool) {raw : Nat}

/-- The model with the flag of one entry written. -/
abbrev toggled (raw : Nat) : Model :=
  ({ m with stats := stats } : Model).updateVd raw (·.toggleSelected v)

theorem vd_toggled_self (hraw : raw < m.volatileData.length) :
    (toggled m stats v raw).vd raw = (m.vd raw).toggleSelected v :=
  (vd_updateVd { m with stats := stats } raw _ raw).trans (if_pos ⟨rfl, hraw⟩)

theorem vd_toggled_other (hne : other ≠ raw) : (toggled m stats v raw).vd other = m.vd other :=
  (vd_updateVd { m with stats := stats } raw _ other).trans
    (if_neg fun hboth => hne hboth.1.symm)

/-- The share of the toggled entry is all that the statistics change by. -/
theorem statictics_toggled (h : Indexed p m) (hmem : raw ∈ m.entriesByCustomSort) :
    (toggled m stats v raw).statictics =
      (m.statictics).plus ((if v then m.shareOf raw else 0) - m.share raw) := by
  have hraw : raw < m.volatileData.length := h.size ▸ (h.mem_custom.mp hmem).1
  have hself : (toggled m stats v raw).share raw = if v then m.shareOf raw else 0 := by
    unfold share shareOf
    rw [vd_toggled_self m stats v hraw]
    rfl
  have hother : ∀ other, other ≠ raw → (toggled m stats v raw).share other = m.share other := by
    intro other hne
    unfold share shareOf
    rw [vd_toggled_other m stats v hne]
    rfl
  have hsum := sum_map_of_differs h.nodup hmem hother
  rw [hself] at hsum
  rw [statictics_eq m, plus_plus, ← hsum, statictics_eq]
  rfl

end Toggle

theorem select_sound (h : Indexed p m) (hs : SelectionSound m) {index : Int}
    (hin : 0 ≤ index → index < m.listing.count → isSelected = true → m.listing.isDotDot index.toNat ∨ index.toNat ∈ m.entriesByCustomSort)
    (hout : 0 ≤ index → index < m.listing.count → isSelected = false → Deselectable m index.toNat) :
    SelectionSound (m.customFlagsSelectRaw index isSelected) := by
  unfold customFlagsSelectRaw
  by_cases hrange : index < 0 ∨ m.listing.count ≤ index
  · rw [if_pos hrange]
    exact hs
  · rw [if_neg hrange]
    push Not at hrange
    have hraw : index.toNat < m.listing.count := by omega
    by_cases hdot : m.listing.isDotDot index.toNat
    · rw [if_pos hdot]
      exact hs
    · rw [if_neg hdot]
      by_cases hsame : (m.vd index.toNat).isSelected = isSelected
      · rw [if_pos hsame]
        exact hs
      · rw [if_neg hsame]
        have hmem : index.toNat ∈ m.entriesByCustomSort := by
          cases isSelected with
          | true => exact (hin hrange.1 hrange.2 rfl).resolve_left hdot
          | false =>
            by_contra hhidden
            exact hsame (hs.hidden _ hraw hhidden)
        generalize hstats : (if isSelected = true then m.countSelected m.stats index.toNat
          else m.uncountSelected index.toNat) = stats
        have hcount := statictics_toggled m stats isSelected h hmem
        have hplus : stats = m.stats.plus ((if isSelected then m.shareOf index.toNat else 0) -
              m.share index.toNat) := by
          rw [← hstats]
          unfold share
          cases isSelected with
          | true =>
            have hoff : (m.vd index.toNat).isSelected = false := by simpa using hsame
            rw [if_pos rfl, if_pos rfl, hoff, if_neg Bool.false_ne_true, sub_zero, countSelected_eq]
          | false =>
            have hon : (m.vd index.toNat).isSelected := by simpa using hsame
            rw [if_neg Bool.false_ne_true, if_neg Bool.false_ne_true, hon, if_pos rfl, zero_sub,
              uncountSelected_eq hon (hout hrange.1 hrange.2 rfl)]
        have heq : (toggled m stats isSelected index.toNat).stats =
            (toggled m stats isSelected index.toNat).statictics := by
          rw [hcount, ← hs.stats]
          exact hplus
        refine ⟨?_, ?_, heq, amounts_of_stats heq⟩
        · intro raw hlt hhidden
          have hne : raw ≠ index.toNat := fun hraw => hhidden (hraw ▸ hmem)
          rw [vd_toggled_other m stats isSelected hne]
          exact hs.hidden raw hlt hhidden
        · intro raw hlt hdotdot
          have hne : raw ≠ index.toNat := fun hraw => hdot (hraw ▸ hdotdot)
          rw [vd_toggled_other m stats isSelected hne]
          exact hs.dotDot raw hlt hdotdot

/-! ## Whole selections -/

variable (entries : List (Nat × Bool))

/-- The flags of the other entries, and of dot-dot, stay. -/
theorem vd_toggleAll (s : Model × Bool) {raw : Nat}
    (hraw : s.1.listing.isDotDot raw ∨ raw ∉ entries.map Prod.fst) :
    (entries.foldl (fun s (raw, selected) => toggleSorted s raw selected) s).1.vd raw =
      s.1.vd raw := by
  induction entries generalizing s with
  | nil => rfl
  | cons e entries ih =>
    have honly := SelectionOnly.toggleSorted s e.1 e.2
    have hlisting : (toggleSorted s e.1 e.2).1.listing = s.1.listing := by rw [honly.same]
    rw [foldl_cons, ih]
    · show (toggleSorted s e.1 e.2).1.vd raw = s.1.vd raw
      unfold toggleSorted
      by_cases hdot : s.1.listing.isDotDot e.1
      · rw [if_pos hdot]
      · have hne : raw ≠ e.1 := by
          rintro rfl
          obtain hdotdot | hout := hraw
          · exact hdot hdotdot
          · exact hout mem_cons_self
        have hkeep := vd_toggled_other s.1 s.1.stats e.2 hne
        rw [if_neg hdot]
        split
        · exact hkeep
        · split
          · exact hkeep
          · rfl
    · rw [hlisting]
      exact hraw.imp id fun hout hmem => hout (mem_cons_of_mem e.1 hmem)

/-- Without a change reported there was none. -/
theorem toggleAll_unchanged (s : Model × Bool)
    (h : (entries.foldl (fun s (raw, selected) => toggleSorted s raw selected) s).2 = false) :
    entries.foldl (fun s (raw, selected) => toggleSorted s raw selected) s = s := by
  have hone : ∀ (s : Model × Bool) (raw : Nat) (v : Bool),
      (toggleSorted s raw v).2 = false → toggleSorted s raw v = s := by
    intro s raw v
    unfold toggleSorted
    split
    · exact fun _ => rfl
    · split
      · exact fun hfalse => absurd hfalse.symm Bool.false_ne_true
      · split
        · exact fun hfalse => absurd hfalse.symm Bool.false_ne_true
        · exact fun _ => rfl
  induction entries generalizing s with
  | nil => rfl
  | cons e entries ih =>
    have hrest := ih (toggleSorted s e.1 e.2) h
    have hfirst : (toggleSorted s e.1 e.2).2 = false := (congrArg Prod.snd hrest).symm.trans h
    exact hrest.trans (hone s e.1 e.2 hfirst)

theorem SelectionSound.congr {m m' : Model} (hs : SelectionSound m)
    (hlisting : m'.listing = m.listing)
    (hentries : m'.entriesByCustomSort = m.entriesByCustomSort) (hstats : m'.stats = m.stats)
    (hselected : ∀ raw, (m'.vd raw).isSelected = (m.vd raw).isSelected)
    (hsize : ∀ raw, (m.vd raw).isSelected → (m'.vd raw).size = (m.vd raw).size) :
    SelectionSound m' := by
  have hcount : m'.stats = m'.statictics := by
    rw [hstats, hs.stats]
    exact (statictics_congr hlisting hentries fun raw _ => ⟨hselected raw, hsize raw⟩).symm
  refine ⟨?_, ?_, hcount, amounts_of_stats hcount⟩
  · intro raw hraw hout
    rw [hselected]
    exact hs.hidden raw (hlisting ▸ hraw) (hentries ▸ hout)
  · intro raw hraw hdot
    rw [hselected]
    exact hs.dotDot raw (hlisting ▸ hraw) (hlisting ▸ hdot)

theorem SelectionSound.map (hs : SelectionSound m) (hdefault : f {} = {})
    (hselected : ∀ vd, (f vd).isSelected = vd.isSelected) (hsize : ∀ vd, (f vd).size = vd.size) :
    SelectionSound { m with volatileData := m.volatileData.map f } := by
  have hvd := getD_map_default hdefault m.volatileData
  refine hs.congr rfl rfl rfl ?_ ?_
  · intro raw
    show ((m.volatileData.map f).getD raw {}).isSelected = _
    rw [hvd raw]
    exact hselected _
  · intro raw _
    show ((m.volatileData.map f).getD raw {}).size = _
    rw [hvd raw]
    exact hsize _

theorem selectAll_sound (hs : SelectionSound m) (isSelected : List Bool) :
    SelectionSound (m.customFlagsSelectAllSorted isSelected).1 := by
  have honly := SelectionOnly.toggleAll (m.entriesByCustomSort.zip isSelected) (m, false)
  have hkeep := fun raw => @vd_toggleAll (m.entriesByCustomSort.zip isSelected) (m, false) raw
  have hunchanged := toggleAll_unchanged (m.entriesByCustomSort.zip isSelected) (m, false)
  unfold customFlagsSelectAllSorted
  dsimp only
  generalize hfold : (m.entriesByCustomSort.zip isSelected).foldl
    (fun s (raw, selected) => toggleSorted s raw selected) (m, false) = s at *
  split_ifs with hchanged
  · have hlisting : s.1.listing = m.listing := by rw [honly.same]
    have hentries : s.1.entriesByCustomSort = m.entriesByCustomSort := by rw [honly.same]
    have hstats : s.1.counted.stats = s.1.counted.statictics := rfl
    refine ⟨?_, ?_, hstats, amounts_of_stats hstats⟩
    · intro raw hraw hout
      have hnot : raw ∉ (m.entriesByCustomSort.zip isSelected).map Prod.fst := by
        intro hmem
        obtain ⟨e, he, heq⟩ := mem_map.mp hmem
        have hin : raw ∈ m.entriesByCustomSort := heq ▸ (of_mem_zip he).1
        exact hout (hentries ▸ hin)
      show (s.1.vd raw).isSelected = false
      rw [hkeep raw (Or.inr hnot)]
      exact hs.hidden raw (hlisting ▸ hraw) fun hin => hout (hentries ▸ hin)
    · intro raw hraw hdot
      have hdotdot : m.listing.isDotDot raw := hlisting ▸ hdot
      show (s.1.vd raw).isSelected = false
      rw [hkeep raw (Or.inl hdotdot)]
      exact hs.dotDot raw (hlisting ▸ hraw) hdotdot
  · rw [hunchanged (by simpa using hchanged)]
    exact hs

/-! ## Reloads -/

/-- What a reload takes for the same entry. -/
def SameEntry (m : Model) (l : Listing) (src dst : Nat) : Prop :=
  if l.isUniform && m.listing.isUniform then m.listing.filename src = l.filename dst
  else
    ((!l.isUniform && !m.listing.isUniform) = true ∧
      longEntryKey m.listing src = longEntryKey l dst)

instance (m : Model) (l : Listing) (src dst : Nat) : Decidable (SameEntry m l src dst) :=
  inferInstanceAs (Decidable (if l.isUniform && m.listing.isUniform then
    m.listing.filename src = l.filename dst else (_ ∧ _)))

theorem syncSwap_mem (h : (dst, src) ∈ (syncSwap compareKeys srcs dsts).2) :
    src ∈ srcs ∧ dst ∈ dsts ∧ compareKeys src dst = .eq := by
  induction srcs generalizing dsts with
  | nil => exact absurd h not_mem_nil
  | cons first srcs ih =>
    unfold syncSwap at h
    split_ifs at h
    · exact absurd h not_mem_nil
    · have hsuffix : ∀ other ∈ dsts.dropWhile (fun dst => compareKeys first dst == .gt),
          other ∈ dsts := fun other hother => (dropWhile_sublist _).mem hother
      cases hdrop : dsts.dropWhile (fun dst => compareKeys first dst == .gt) with
      | nil =>
        rw [hdrop] at h
        exact absurd h not_mem_nil
      | cons head rest =>
        rw [hdrop] at h hsuffix
        dsimp only at h
        split_ifs at h with heq
        · obtain hpair | hlater := mem_cons.mp h
          · obtain ⟨hdst, hsrc⟩ := Prod.mk.inj hpair
            rw [hdst, hsrc]
            exact ⟨mem_cons_self, hsuffix head mem_cons_self, heq⟩
          · obtain ⟨hsrc, hdst, hcmp⟩ := ih hlater
            exact ⟨mem_cons_of_mem first hsrc, hsuffix dst (mem_cons_of_mem head hdst), hcmp⟩
        · obtain ⟨hsrc, hdst, hcmp⟩ := ih h
          exact ⟨mem_cons_of_mem first hsrc, hsuffix dst hdst, hcmp⟩

theorem rangesSort_mem (h : StrictWeakOrder less) {count i : Nat}
    (hmem : i ∈ p.rangesSort.sort less (range count)) : i < count :=
  mem_range.mp ((p.rangesSort.perm _ h).mem_iff.mp hmem)

theorem reloadPairs_mem (h : Indexed p m) {rounds : Nat}
    (hpairs : reloadPairs p m l (p.rangesSort.sort (rawLess l) (range l.count)) = .ok (rounds, pairs))
    (hmem : (dst, src) ∈ pairs) :
    src < m.listing.count ∧ dst < l.count ∧ SameEntry m l src dst := by
  have hraw := fun l => IndirectListingComparator.strictWeakOrder_byFilesystemRepresentation l
  have hkeys := fun l : Listing =>
    (StrictWeakOrder.of_isLT (compare : Bytes → Bytes → Ordering)).on (longEntryKey l)
  have heq : ∀ a b : Bytes, compare a b = .eq → a = b := fun a b hab =>
    Std.LawfulEqCmp.eq_of_compare hab
  unfold reloadPairs at hpairs
  unfold SameEntry
  by_cases huniform : (l.isUniform && m.listing.isUniform)
  · rw [if_pos huniform] at hpairs ⊢
    obtain ⟨-, hlist⟩ := Prod.mk.inj (Except.ok.inj hpairs)
    rw [← hlist, h.raw] at hmem
    obtain ⟨hsrc, hdst, hcmp⟩ := syncSwap_mem hmem
    exact ⟨rangesSort_mem (hraw _) hsrc, rangesSort_mem (hraw _) hdst, heq _ _ hcmp⟩
  · rw [if_neg huniform] at hpairs ⊢
    by_cases hplural : (!l.isUniform && !m.listing.isUniform)
    · rw [if_pos hplural] at hpairs
      obtain ⟨-, hlist⟩ := Prod.mk.inj (Except.ok.inj hpairs)
      rw [← hlist] at hmem
      obtain ⟨hsrc, hdst, hcmp⟩ := syncSwap_mem hmem
      exact ⟨rangesSort_mem (hkeys _) hsrc, rangesSort_mem (hkeys _) hdst, hplural, heq _ _ hcmp⟩
    · rw [if_neg hplural] at hpairs
      cases hpairs

theorem fresh_unselected (l : Listing) (raw : Nat) :
    (((range l.count).map (initVolatileData l)).getD raw {}).isSelected = false := by
  rw [List.getD_eq_getElem?_getD, List.getElem?_map]
  cases (range l.count)[raw]? with
  | none => rfl
  | some i =>
    show (initVolatileData l i).isSelected = false
    unfold initVolatileData
    split
    · split <;> rfl
    · rfl

/-- A selected entry of the new listing has its flag from an old one. -/
theorem transfer_selected (m : Model) (fresh : List ItemVolatileData) (pairs : List (Nat × Nat))
    (h : ((m.transfer fresh pairs).getD dst {}).isSelected) : (fresh.getD dst {}).isSelected ∨
      ∃ src, (dst, src) ∈ pairs ∧ (m.vd src).isSelected := by
  unfold transfer at h
  induction pairs generalizing fresh with
  | nil => exact Or.inl h
  | cons pair pairs ih =>
    obtain hnow | ⟨src, hmem, hselected⟩ := ih _ h
    · rw [getD_modify] at hnow
      split at hnow
      · next hpair =>
          refine Or.inr ⟨pair.2, ?_, ?_⟩
          · rw [← hpair.1]
            exact mem_cons_self
          · unfold updateWithExisingVD at hnow
            split at hnow <;> exact hnow
      · exact Or.inl hnow
    · exact Or.inr ⟨src, mem_cons_of_mem pair hmem, hselected⟩

/-! ## Runs -/

/-- What the calls are asked to respect: a selected entry of the old listing is shown in the new
    one, and is not dot-dot there; no hidden entry is selected by its raw index; an entry to
    deselect does not count more bytes than all selected ones together; and no batch of sizes
    throws behind a selected directory whose size it changes. -/
def Operation.KeepsSelection (p : Platform) (m : Model) : Operation → Prop
  | .reLoad (some l) =>
    ∀ dst < l.count, ∀ src < m.listing.count, SameEntry m l src dst → (m.vd src).isSelected = true →
        (m.hardFiltering.isValidItem p.search l dst).isSome = true ∧ l.isDotDot dst = false
  | .customFlagsSelectRaw index isSelected =>
    0 ≤ index → index < m.listing.count → if isSelected then
        m.listing.isDotDot index.toNat = true ∨ (m.isValidItem p index.toNat).isSome = true
      else Deselectable m index.toNat
  | .customFlagsSelectSorted index isSelected =>
    0 ≤ index → index < m.entriesByCustomSort.length → isSelected = false →
      Deselectable m (m.entriesByCustomSort.getD index.toNat 0)
  | .setCalculatedSizesForRawIndices indices sizes =>
    indices.length = sizes.length → (∃ raw ∈ indices, m.listing.count ≤ raw) →
      ∀ e ∈ (indices.zip sizes).takeWhile fun e => e.1 < m.listing.count,
        m.listing.isDir e.1 = true → (m.vd e.1).isSelected = true → (m.vd e.1).size = e.2
  | _ => True

instance (m : Model) : (call : Operation) → Decidable (call.KeepsSelection p m)
  | .reLoad (some l) =>
    inferInstanceAs (Decidable (∀ _ < l.count, ∀ _ < m.listing.count, _ → _ → _))
  | .customFlagsSelectRaw _ isSelected =>
    inferInstanceAs (Decidable (_ → _ → if isSelected then (_ ∨ _) else _))
  | .customFlagsSelectSorted _ _ => inferInstanceAs (Decidable (_ → _ → _ → _))
  | .setCalculatedSizesForRawIndices _ _ =>
    inferInstanceAs (Decidable (_ → _ → ∀ _ ∈ _, _ → _ → _))
  | .reLoad none | .load _ _ | .setSortMode _ | .setHardFiltering _ | .setSoftFiltering _
  | .clearTextFiltering | .customFlagsSelectAllSorted _ | .customIconClearAll
  | .customFlagsClearHighlights | .setCalculatedSizeForDirectory _ _ _
  | .setCalculatedSizesForDirectories _ _ _ => .isTrue trivial

theorem load_sound (l : Listing) (type : PanelType) (m : Model) :
    SelectionSound (rebuild p false (loaded p l type m)) := by
  have hlength : (loaded p l type m).volatileData.length = (loaded p l type m).listing.count := by
    show ((range l.count).map (initVolatileData l)).length = l.count
    rw [length_map, length_range]
  have hfresh : ∀ raw, ((loaded p l type m).vd raw).isSelected = false :=
    fun raw => fresh_unselected l raw
  refine rebuild_sound false _ hlength ?_ fun raw _ _ => hfresh raw
  intro raw _ _ hselected
  rw [hfresh raw] at hselected
  cases hselected

theorem reLoad_sound (h : Indexed p m)
    (hpairs : reloadPairs p m l (p.rangesSort.sort (rawLess l) (range l.count)) = .ok (rounds, pairs))
    (hcall : (Operation.reLoad (some l)).KeepsSelection p m) :
    SelectionSound (rebuild p false (reloaded p l pairs m)) := by
  have hlength : (reloaded p l pairs m).volatileData.length =
      (reloaded p l pairs m).listing.count := by
    show (m.transfer _ _).length = l.count
    rw [length_transfer, length_map, length_range]
  have hkept : ∀ dst, ((reloaded p l pairs m).vd dst).isSelected →
      (m.hardFiltering.isValidItem p.search l dst).isSome ∧ l.isDotDot dst = false := by
    intro dst hselected
    obtain hfresh | ⟨src, hmem, hold⟩ := transfer_selected m _ pairs hselected
    · rw [fresh_unselected l dst] at hfresh
      cases hfresh
    · obtain ⟨hsrc, hdst, hsame⟩ := reloadPairs_mem h hpairs hmem
      exact hcall dst hdst src hsrc hsame hold
  refine rebuild_sound false _ hlength ?_ ?_
  · intro dst _ _ hselected
    exact (hkept dst hselected).1
  · intro dst _ hdot
    by_contra hselected
    have hnot := (hkept dst (Bool.of_not_eq_false hselected)).2
    have hdotdot : l.isDotDot dst := hdot
    rw [hnot] at hdotdot
    cases hdotdot

/-- An entry whose size no item of the batch changes is left alone. -/
theorem setRawSizes_vd (entries : List (Nat × BitVec 64)) (batch : SizeBatch) (raw : Nat)
    (h : ∀ e ∈ entries.takeWhile fun e => e.1 < batch.model.listing.count, e.1 = raw →
      batch.model.listing.isDir raw → (batch.model.vd raw).size = e.2) :
    (setRawSizes entries batch).1.model.vd raw = batch.model.vd raw := by
  induction entries generalizing batch with
  | nil => rfl
  | cons e entries ih =>
    unfold setRawSizes
    by_cases hout : batch.model.listing.count ≤ e.1
    · rw [if_pos hout]
    · have hin : decide (e.1 < batch.model.listing.count) := by
        simpa using Nat.lt_of_not_le hout
      simp only [takeWhile_cons, hin, if_true] at h
      rw [if_neg hout]
      split
      · next hdir =>
          have hvd : (batch.set e.1 e.2).model.vd raw = batch.model.vd raw := by
            unfold SizeBatch.set
            split
            · next hne =>
                have hother : e.1 ≠ raw := by
                  rintro rfl
                  exact hne (h e mem_cons_self rfl hdir)
                exact (vd_updateVd _ _ _ raw).trans (if_neg fun hboth => hother hboth.1)
            · rfl
          rw [ih (batch.set e.1 e.2) ?_, hvd]
          rw [batch.set_listing, hvd]
          exact fun other hother => h other (mem_cons_of_mem e hother)
      · exact ih batch fun other hother => h other (mem_cons_of_mem e hother)

theorem finalize_sound (h : Indexed p m) (hs : SelectionSound m) (hsizes : SizesOnly m m') :
    SelectionSound (m'.finalizeSettingCalculatedSizes p) := by
  have hlisting : m'.listing = m.listing := by rw [hsizes.same]
  refine rebuild_sound true m' ?_ (fun raw _ hclears => nomatch hclears) ?_
  · rw [hsizes.length, hlisting]
    exact h.size
  · intro raw hraw hdot
    obtain ⟨size, hvd⟩ := hsizes.vd raw
    rw [hvd]
    exact hs.dotDot raw (hlisting ▸ hraw) (hlisting ▸ hdot)

theorem finish_sound (h : Indexed p m) (hs : SelectionSound m) {batch : SizeBatch}
    (hbatch : batch.From m) : SelectionSound (batch.finish p).1 := by
  unfold finish
  split
  · exact finalize_sound h hs hbatch.sizes
  · next hzero =>
      have hmodel : batch.model = m := hbatch.unchanged (by simpa using hzero)
      rw [hmodel]
      exact hs

theorem rawSizes_sound (h : Indexed p m) (hs : SelectionSound m)
    (hcall : (Operation.setCalculatedSizesForRawIndices indices sizes).KeepsSelection p m) :
    SelectionSound (m.setCalculatedSizesForRawIndices p indices sizes).1 := by
  unfold setCalculatedSizesForRawIndices
  split
  · exact hs
  · next hlengths =>
      have hfrom := setRawSizes_from (indices.zip sizes) (From.start m)
      have hthrown := setRawSizes_thrown (indices.zip sizes) ⟨m, 0, 0⟩
      have hvd := setRawSizes_vd (indices.zip sizes) ⟨m, 0, 0⟩
      cases hrun : setRawSizes (indices.zip sizes) ⟨m, 0, 0⟩ with
      | mk batch thrown =>
        rw [hrun] at hfrom hthrown hvd
        cases thrown with
        | false => exact finish_sound h hs hfrom
        | true =>
          obtain ⟨e, he, hcount⟩ := hthrown rfl
          have hkept := hcall (by simpa using hlengths)
            ⟨e.1, (of_mem_zip he).1, hcount⟩
          have hsizes : SizesOnly m batch.model := hfrom.sizes
          show SelectionSound batch.model
          refine hs.congr (by rw [hsizes.same]) (by rw [hsizes.same]) (by rw [hsizes.same])
            ?_ ?_
          · intro raw
            obtain ⟨size, hraw⟩ := hsizes.vd raw
            rw [hraw]
          · intro raw hselected
            have hsame : batch.model.vd raw = m.vd raw := by
              apply hvd raw
              rintro e he rfl hdir
              exact hkept e he hdir hselected
            rw [hsame]

theorem perform_sound (h : Indexed p m) (hs : SelectionSound m) {call : Operation}
    (hcall : call.KeepsSelection p m) : SelectionSound (perform p m call).1 := by
  cases call with
  | load listing type =>
    cases listing with
    | none => exact hs
    | some l => exact load_sound l type m
  | reLoad listing =>
    cases listing with
    | none => exact hs
    | some l =>
      show SelectionSound (replacing m (m.reLoad p (some l))).1
      cases hpairs : reloadPairs p m l
          (p.rangesSort.sort (rawLess l) (range l.count)) with
      | error failure =>
        rw [reLoad_error hpairs]
        exact hs
      | ok result =>
        rw [reLoad_ok hpairs]
        exact reLoad_sound h hpairs hcall
  | setSortMode mode =>
    show SelectionSound (m.setSortMode p mode)
    unfold setSortMode
    split
    · exact hs
    · refine rebuild_sound false { m with customSortMode := mode } h.size ?_ hs.dotDot
      intro raw hraw _ hselected
      by_contra hinvalid
      have hout : raw ∉ m.entriesByCustomSort := fun hmem =>
        hinvalid (h.mem_custom.mp hmem).2
      have hunselected := hs.hidden raw hraw hout
      have hon : (m.vd raw).isSelected = true := hselected
      rw [hunselected] at hon
      cases hon
  | setHardFiltering filter =>
    show SelectionSound (m.setHardFiltering p filter)
    unfold setHardFiltering
    split
    · exact hs
    · exact rebuild_sound true { m with hardFiltering := filter } h.size
        (fun raw _ hclears => by cases hclears) hs.dotDot
  | setSoftFiltering filter =>
    show SelectionSound (m.setSoftFiltering p filter)
    unfold setSoftFiltering
    split
    · exact hs
    · have hvd := softFiltered_highlights (p := p) { m with softFiltering := filter }
      refine hs.congr (by rw [softFiltered_eq]) (by rw [softFiltered_eq])
        (by rw [softFiltered_eq]) ?_ ?_
      · intro raw
        obtain ⟨highlight, heq⟩ := hvd raw
        rw [heq]
        rfl
      · intro raw _
        obtain ⟨highlight, heq⟩ := hvd raw
        rw [heq]
        rfl
  | clearTextFiltering =>
    show SelectionSound (m.clearTextFiltering p).1
    unfold clearTextFiltering
    split
    · exact hs
    · refine rebuild_sound true m.withoutText ((length_map _).trans h.size)
        (fun raw _ hclears => by cases hclears) ?_
      intro raw hraw hdot
      have hvd : m.withoutText.vd raw = { m.vd raw with highlight := {} } :=
        getD_map_default (f := fun vd : ItemVolatileData => { vd with highlight := {} }) rfl
          m.volatileData raw
      rw [hvd]
      exact hs.dotDot raw hraw hdot
  | customFlagsSelectRaw index isSelected =>
    refine select_sound h hs ?_ ?_
    · intro hlow hhigh hselect
      have hshown := hcall hlow hhigh
      rw [if_pos hselect] at hshown
      exact hshown.imp id fun hvalid => h.mem_custom.mpr ⟨by omega, hvalid⟩
    · intro hlow hhigh hselect
      have hfits := hcall hlow hhigh
      rw [if_neg (by simp [hselect])] at hfits
      exact hfits
  | customFlagsSelectSorted index isSelected =>
    show SelectionSound (m.customFlagsSelectSorted index isSelected)
    unfold customFlagsSelectSorted
    split_ifs with hrange
    · exact hs
    · push Not at hrange
      have hlt : index.toNat < m.entriesByCustomSort.length := by omega
      have hmem : m.entriesByCustomSort.getD index.toNat 0 ∈ m.entriesByCustomSort := by
        rw [List.getD_eq_getElem?_getD, List.getElem?_eq_getElem hlt]
        exact getElem_mem hlt
      refine select_sound h hs ?_ ?_
      · intro _ _ _
        exact Or.inr hmem
      · intro _ _ hselect
        rw [Int.toNat_natCast]
        exact hcall hrange.1 hrange.2 hselect
  | customFlagsSelectAllSorted isSelected => exact selectAll_sound hs isSelected
  | customIconClearAll => exact hs.map rfl (fun _ => rfl) fun _ => rfl
  | customFlagsClearHighlights => exact hs.map rfl (fun _ => rfl) fun _ => rfl
  | setCalculatedSizeForDirectory filename directory size =>
    show SelectionSound (m.setCalculatedSizeForDirectory p filename directory size).1
    unfold setCalculatedSizeForDirectory
    split
    · exact hs
    · split
      · exact hs
      · split
        · exact hs
        · exact finalize_sound h hs (SizesOnly.setSize m _ size)
  | setCalculatedSizesForDirectories filenames directories sizes =>
    show SelectionSound (m.setCalculatedSizesForDirectories p filenames directories sizes).1
    unfold setCalculatedSizesForDirectories
    split
    · exact hs
    · exact finish_sound h hs (named_from _ (From.start m))
  | setCalculatedSizesForRawIndices indices sizes =>
    have hsound := rawSizes_sound h hs hcall
    cases hresult : m.setCalculatedSizesForRawIndices p indices sizes with
    | mk m' result =>
      rw [hresult] at hsound
      cases result with
      | ok count => simpa only [perform, hresult] using hsound
      | error failure => simpa only [perform, hresult] using hsound

theorem selectionSound_new : SelectionSound {} where
  hidden raw hraw := absurd hraw (Nat.not_lt_zero raw)
  dotDot raw hraw := absurd hraw (Nat.not_lt_zero raw)
  stats := rfl
  amounts := ⟨le_refl _, le_refl _, le_refl _⟩

/-- After any calls that keep to their conditions, only entries that are shown are selected, and
    the statistics are those that counting anew would give. -/
theorem selection_after (calls : List Operation)
    (h : Meets (perform p) (Operation.KeepsSelection p) {} calls) :
    SelectionSound (afterCalls p calls) :=
  (runAll_meets (Operation.KeepsSelection p) (fun m _ => Indexed p m ∧ SelectionSound m)
    (fun _ _ call hcall hm =>
      ⟨(perform_effect hm.1 call).indexed hm.1, perform_sound hm.1 hm.2 hcall⟩)
    [] calls h ⟨indexed_new, selectionSound_new⟩).2

/-- The same two files, the later of them with `UF_HIDDEN`. -/
def hiddenFile : Listing where
  entries := [{ asciiFile "b" with unixFlags := some 0x8000 }, asciiFile "a"]
  hasCommonHost := true
  hasCommonDirectory := true
  creationTime := 0
  filename_ne := by decide
  directory_slash := by decide
  common_host := by decide
  common_directory := by decide

theorem selection_after_twoFiles : SelectionSound (afterCalls asciiPlatform
      [.load (some twoFiles) .directory, .customFlagsSelectSorted 0 true,
        .setHardFiltering { showHidden := false }, .reLoad (some hiddenFile),
        .customFlagsSelectSorted 0 false]) :=
  selection_after _ (by decide +kernel)

/-- A reload that finds the selected file hidden keeps it selected. -/
theorem selection_after_hidden :
    ¬ ∀ calls : List Operation, SelectionSound (afterCalls asciiPlatform calls) := by
  intro h
  have hhidden := (h [.load (some twoFiles) .directory,
    .setHardFiltering { showHidden := false }, .customFlagsSelectSorted 1 true,
    .reLoad (some hiddenFile)]).hidden 0 (by decide +kernel) (by decide +kernel)
  have hselected : ((afterCalls asciiPlatform [.load (some twoFiles) .directory,
      .setHardFiltering { showHidden := false }, .customFlagsSelectSorted 1 true,
      .reLoad (some hiddenFile)]).vd 0).isSelected := by
    decide +kernel
  rw [hhidden] at hselected
  cases hselected

end WinCommander.Panel
