/-
  What a reload carries from the old entries to the new ones.

  The merge of two lists that are strictly sorted by their keys pairs exactly the entries of one
  key (`mem_syncSwap_iff`): the entries that a round skips have smaller keys than all that the
  later rounds ask for. Names that are unique in each listing make both lists strictly sorted.
-/
import WinCommander.Panel.SelectionInvariant

namespace WinCommander.Panel

open Library Model List StrictWeakOrder

variable {p : Platform}

/-! ## The merge -/

section Merge

variable {srcKey dstKey : Nat → Bytes}

/-- Strictly sorted by a key. -/
def Increasing (key : Nat → Bytes) (xs : List Nat) : Prop :=
  xs.Pairwise fun a b => compare (key a) (key b) = .lt

theorem compare_key_self (key : Bytes) : compare key key = .eq := Std.ReflCmp.compare_self

/-- The merge pairs exactly the entries of one key. -/
theorem mem_syncSwap_iff (hsrcs : Increasing srcKey srcs) (hdsts : Increasing dstKey dsts) :
    (dst, src) ∈ (syncSwap (fun src dst => compare (srcKey src) (dstKey dst)) srcs dsts).2 ↔
      src ∈ srcs ∧ dst ∈ dsts ∧ srcKey src = dstKey dst := by
  constructor
  · intro h
    obtain ⟨hsrc, hdst, hcmp⟩ := syncSwap_mem h
    exact ⟨hsrc, hdst, Std.LawfulEqCmp.eq_of_compare hcmp⟩
  · rintro ⟨hsrc, hdst, hkey⟩
    induction srcs generalizing dsts with
    | nil => exact absurd hsrc not_mem_nil
    | cons first srcs ih =>
      obtain ⟨hhead, htail⟩ := pairwise_cons.mp hsrcs
      have hnil : dsts ≠ [] := ne_nil_of_mem hdst
      -- the round of `first` skips no entry with the key of `src`
      have hkeep : (compare (srcKey first) (dstKey dst) == .gt) = false := by
        obtain rfl | hlater := mem_cons.mp hsrc
        · rw [hkey, compare_key_self]
          rfl
        · rw [← hkey, hhead src hlater]
          rfl
      obtain ⟨head, rest, hdrop, hstop, hwhere⟩ := @dropWhile_of_pairwise _
        (fun dst => compare (srcKey first) (dstKey dst) == .gt) _ _ hdsts _ hdst hkeep
      have hrest : Increasing dstKey (head :: rest) := by
        rw [← hdrop]
        exact Pairwise.sublist (dropWhile_sublist _) hdsts
      unfold syncSwap
      rw [if_neg hnil, hdrop]
      dsimp only
      split_ifs with heq
      · have hfirst : srcKey first = dstKey head := Std.LawfulEqCmp.eq_of_compare heq
        obtain rfl | hlater := mem_cons.mp hsrc
        · obtain rfl | ⟨hlt, -⟩ := hwhere
          · exact mem_cons_self
          · rw [← hfirst, hkey, compare_key_self] at hlt
            cases hlt
        · obtain rfl | ⟨-, hin⟩ := hwhere
          · have hlt := hhead src hlater
            rw [hfirst, hkey, compare_key_self] at hlt
            cases hlt
          · exact mem_cons_of_mem _ (ih htail (pairwise_cons.mp hrest).2 hlater hin)
      · obtain rfl | hlater := mem_cons.mp hsrc
        · obtain rfl | ⟨hlt, -⟩ := hwhere
          · rw [hkey, compare_key_self] at heq
            exact absurd rfl heq
          · rw [hkey, Std.OrientedCmp.gt_of_lt hlt] at hstop
            cases hstop
        · exact ih htail hrest hlater (hwhere.elim (fun h => h ▸ mem_cons_self)
            fun h => mem_cons_of_mem _ h.2)

/-- A new entry is taken at most once. -/
theorem syncSwap_dsts (compareKeys : Nat → Nat → Ordering) (srcs dsts : List Nat) :
    ((syncSwap compareKeys srcs dsts).2.map Prod.fst).Sublist dsts := by
  induction srcs generalizing dsts with
  | nil => exact nil_sublist dsts
  | cons first srcs ih =>
    unfold syncSwap
    split_ifs
    · exact nil_sublist dsts
    · have hdropped := dropWhile_sublist (l := dsts) fun dst => compareKeys first dst == .gt
      cases hdrop : dsts.dropWhile (fun dst => compareKeys first dst == .gt) with
      | nil => exact nil_sublist dsts
      | cons head rest =>
        rw [hdrop] at hdropped
        dsimp only
        split_ifs
        · exact ((ih rest).cons_cons head).trans hdropped
        · exact (ih (head :: rest)).trans hdropped

end Merge

/-! ## The data carried over -/

section Transfer

variable (m : Model) {dst : Nat}

theorem vd_transfer_of_not_mem (hout : dst ∉ pairs.map Prod.fst) (fresh : List ItemVolatileData)
    : (m.transfer fresh pairs).getD dst {} = fresh.getD dst {} := by
  unfold transfer
  induction pairs generalizing fresh with
  | nil => rfl
  | cons pair pairs ih =>
    rw [map_cons, mem_cons, not_or] at hout
    rw [foldl_cons, ih hout.2, getD_modify, if_neg fun hboth => hout.1 hboth.1.symm]

theorem vd_transfer_of_mem (hnodup : (pairs.map Prod.fst).Nodup) (hmem : (dst, src) ∈ pairs)
    (hdst : dst < fresh.length) : (m.transfer fresh pairs).getD dst {} =
      updateWithExisingVD (fresh.getD dst {}) (m.vd src) := by
  unfold transfer
  induction pairs generalizing fresh with
  | nil => exact absurd hmem not_mem_nil
  | cons pair pairs ih =>
    obtain ⟨hhead, htail⟩ := nodup_cons.mp hnodup
    rw [foldl_cons]
    obtain rfl | hlater := mem_cons.mp hmem
    · have hrest := vd_transfer_of_not_mem m hhead
        (fresh.modify dst fun vd => updateWithExisingVD vd (m.vd src))
      unfold transfer at hrest
      rw [hrest, getD_modify, if_pos ⟨rfl, hdst⟩]
    · have hne : pair.1 ≠ dst := by
        rintro rfl
        exact hhead (mem_map.mpr ⟨_, hlater, rfl⟩)
      rw [ih htail hlater (by rw [length_modify]; exact hdst), getD_modify,
        if_neg fun hboth => hne hboth.1]

end Transfer

/-! ## Keys -/

/-- What a reload knows an entry by: its filename, in a listing of several directories or hosts
    all three. -/
def entryKey (l : Listing) (i : Nat) : Bytes :=
  if l.isUniform then l.filename i else longEntryKey l i

/-- No two entries have one key. -/
def UniqueKeys (l : Listing) : Prop :=
  ∀ i < l.count, ∀ j < l.count, entryKey l i = entryKey l j → i = j

instance (l : Listing) : Decidable (UniqueKeys l) :=
  inferInstanceAs (Decidable (∀ i < l.count, ∀ j < l.count, _ → _))

theorem increasing_of_unique {count : Nat}
    (hunique : ∀ i < count, ∀ j < count, key i = key j → i = j) :
    Increasing key (p.rangesSort.sort (fun a b => (compare (key a) (key b)).isLT)
      (range count)) := by
  have horder : StrictWeakOrder fun a b => (compare (key a) (key b)).isLT :=
    (of_isLT (compare : Bytes → Bytes → Ordering)).on key
  have hperm := p.rangesSort.perm (range count) horder
  have hordered := p.rangesSort.ordered (range count) horder
  have hnodup := hperm.nodup_iff.mpr nodup_range
  refine (hordered.and hnodup).imp_of_mem ?_
  intro a b ha hb hab
  have hlt : ∀ {i}, i ∈ p.rangesSort.sort (fun a b => (compare (key a) (key b)).isLT)
      (range count) → i < count := fun h => mem_range.mp (hperm.mem_iff.mp h)
  cases hcmp : compare (key a) (key b) with
  | lt => rfl
  | eq => exact absurd (hunique a (hlt ha) b (hlt hb) (Std.LawfulEqCmp.eq_of_compare hcmp)) hab.2
  | gt =>
    have hba : compare (key b) (key a) = .lt := Std.OrientedCmp.lt_of_gt hcmp
    have hle : (compare (key b) (key a)).isLT = false := hab.1
    rw [hba] at hle
    cases hle

/-- With unique keys, the pairs are exactly the entries of one key, each new one once. -/
theorem reloadPairs_unique (h : Indexed p m) {l : Listing}
    (hfits : l.isUniform = m.listing.isUniform) (hold : UniqueKeys m.listing) (hnew : UniqueKeys l) :
    ∃ rounds pairs, reloadPairs p m l (p.rangesSort.sort (rawLess l) (range l.count)) =
        .ok (rounds, pairs) ∧ (pairs.map Prod.fst).Nodup ∧ ∀ dst src, (dst, src) ∈ pairs ↔
        src < m.listing.count ∧ dst < l.count ∧ entryKey m.listing src = entryKey l dst := by
  have hmem : ∀ (key : Nat → Bytes) (count i : Nat),
      i ∈ p.rangesSort.sort (fun a b => (compare (key a) (key b)).isLT) (range count) ↔
        i < count := by
    intro key count i
    rw [(p.rangesSort.perm (range count)
      ((of_isLT (compare : Bytes → Bytes → Ordering)).on key)).mem_iff, mem_range]
  have hnodup : ∀ (key : Nat → Bytes) (count : Nat),
      (p.rangesSort.sort (fun a b => (compare (key a) (key b)).isLT)
        (range count)).Nodup := by
    intro key count
    exact (p.rangesSort.perm (range count) ((of_isLT
      (compare : Bytes → Bytes → Ordering)).on key)).nodup_iff.mpr nodup_range
  unfold reloadPairs
  unfold UniqueKeys entryKey at hold hnew
  unfold entryKey
  cases huniform : m.listing.isUniform with
  | true =>
    rw [huniform] at hfits hold
    rw [hfits] at hnew ⊢
    refine ⟨_, _, rfl, (syncSwap_dsts _ _ _).nodup (hnodup l.filename l.count), ?_⟩
    intro dst src
    rw [h.raw]
    refine (mem_syncSwap_iff (increasing_of_unique hold) (increasing_of_unique hnew)).trans ?_
    exact and_congr (hmem m.listing.filename _ src) (and_congr_left' (hmem l.filename _ dst))
  | false =>
    rw [huniform] at hfits hold
    rw [hfits] at hnew ⊢
    refine ⟨_, _, rfl, (syncSwap_dsts _ _ _).nodup (hnodup (longEntryKey l) l.count), ?_⟩
    intro dst src
    refine (mem_syncSwap_iff (increasing_of_unique hold) (increasing_of_unique hnew)).trans ?_
    exact and_congr (hmem (longEntryKey m.listing) _ src)
      (and_congr_left' (hmem (longEntryKey l) _ dst))

/-! ## After a reload -/

/-- The data of an entry with the flag and the highlight that the filters of the model write. -/
def judged (p : Platform) (m : Model) (raw : Nat) (vd : ItemVolatileData) : ItemVolatileData :=
  { vd with
    highlight := m.rebuiltHighlight p raw
    isShown := (m.isValidItem p raw).isSome }

/-- The new model has, behind what its filters write, the data of the old entry of the same key,
    its own size kept where the new listing knows it, and the data of a new entry where there is
    none. -/
structure CarriedByKey (p : Platform) (m : Model) (l : Listing) (m' : Model) : Prop where
  listing : m'.listing = l
  length : m'.volatileData.length = l.count
  known : ∀ dst < l.count, ∀ src < m.listing.count, entryKey m.listing src = entryKey l dst →
    m'.vd dst = judged p m' dst (updateWithExisingVD (initVolatileData l dst) (m.vd src))
  fresh : ∀ dst < l.count, (∀ src < m.listing.count, entryKey m.listing src ≠ entryKey l dst) →
      m'.vd dst = judged p m' dst (initVolatileData l dst)

theorem vd_fresh (hdst : dst < l.count) :
    ((range l.count).map (initVolatileData l)).getD dst {} = initVolatileData l dst := by
  rw [List.getD_eq_getElem?_getD, List.getElem?_map, List.getElem?_range hdst]
  rfl

/-- A rebuild writes what the filters say, and nothing else. -/
theorem vd_rebuild_judged (hsize : m.volatileData.length = m.listing.count)
    (hraw : raw < m.listing.count) :
    (rebuild p false m).vd raw = judged p (rebuild p false m) raw (m.vd raw) := by
  obtain ⟨vds, soft, heq⟩ := rebuildWith_eq (p := p) false false m hsize
  have hvd := vd_rebuildWith (p := p) false false m hsize hraw
  have hsame : judged p (rebuild p false m) raw = judged p m raw := by
    show judged p (rebuildWith p false false m) raw = _
    rw [heq]
    rfl
  rw [hsame]
  refine hvd.trans ?_
  unfold judged
  simp

theorem reLoad_carries (h : Indexed p m) (hfits : l.isUniform = m.listing.isUniform)
    (hold : UniqueKeys m.listing) (hnew : UniqueKeys l)
    : ∃ m', m.reLoad p (some l) = .ok m' ∧ CarriedByKey p m l m' := by
  obtain ⟨rounds, pairs, hpairs, hnodup, hmem⟩ := reloadPairs_unique h hfits hold hnew
  have hsize : (reloaded p l pairs m).volatileData.length = (reloaded p l pairs m).listing.count := by
    show (m.transfer _ _).length = l.count
    rw [length_transfer, length_map, length_range]
  have hindexed : Indexed p (rebuild p false (reloaded p l pairs m)) :=
    rebuild_indexed false (reloaded p l pairs m) hsize rfl
  have hlisting : (rebuild p false (reloaded p l pairs m)).listing = l := by
    obtain ⟨vds, soft, heq⟩ := rebuildWith_eq (p := p) false false (reloaded p l pairs m) hsize
    show (rebuildWith p false false _).listing = l
    rw [heq]
    rfl
  refine ⟨_, reLoad_ok hpairs, hlisting, by rw [hindexed.size, hlisting], ?_, ?_⟩
  · intro dst hdst src hsrc hkey
    rw [vd_rebuild_judged hsize hdst]
    congr 1
    refine (vd_transfer_of_mem m hnodup ((hmem dst src).mpr ⟨hsrc, hdst, hkey⟩) ?_).trans ?_
    · rw [length_map, length_range]
      exact hdst
    · rw [vd_fresh hdst]
  · intro dst hdst hout
    rw [vd_rebuild_judged hsize hdst]
    congr 1
    refine (vd_transfer_of_not_mem m ?_ _).trans (vd_fresh hdst)
    intro hin
    obtain ⟨pair, hpair, rfl⟩ := mem_map.mp hin
    obtain ⟨hsrc, -, hkey⟩ := (hmem pair.1 pair.2).mp hpair
    exact hout pair.2 hsrc hkey

/-- After any calls, a reload carries the state of each entry by its key. -/
theorem reLoad_carriesByKey (calls : List Operation) {l : Listing}
    (hfits : l.isUniform = (afterCalls p calls).listing.isUniform)
    (hold : UniqueKeys (afterCalls p calls).listing) (hnew : UniqueKeys l) :
    ∃ m', (afterCalls p calls).reLoad p (some l) = .ok m' ∧
      CarriedByKey p (afterCalls p calls) l m' :=
  reLoad_carries (indexed_after calls) hfits hold hnew

theorem reLoad_carriesByKey_twoFiles :
    ∃ m', (afterCalls asciiPlatform [.load (some twoFiles) .directory,
        .customFlagsSelectSorted 0 true]).reLoad asciiPlatform (some hiddenFile) = .ok m' ∧
      CarriedByKey asciiPlatform (afterCalls asciiPlatform [.load (some twoFiles) .directory,
        .customFlagsSelectSorted 0 true]) hiddenFile m' :=
  reLoad_carriesByKey _ (by decide +kernel) (by decide +kernel) (by decide +kernel)

end WinCommander.Panel
