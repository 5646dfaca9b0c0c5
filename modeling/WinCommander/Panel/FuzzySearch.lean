/-
  The fuzzy search of a filename, where Foundation folds the case of each code unit on its own.

  The look-ahead keeps one invariant: what is left of the text is a subsequence of what is left of
  the filename (`satisfiable_iff`). A text of one unit passes it where the unit is first found, so
  that a round of the greedy loop always finds something (`longestFound_some`).
-/
import WinCommander.Library.Subsequence
import WinCommander.Panel.Filter

namespace WinCommander.Panel

open Library List Nat StringSearch QuickSearchHighlight

/-! ## Searches that fold each code unit -/

/-- The needle stands at a place of the text, up to case. -/
def standsAt (fold : UInt16 → UInt16) (text needle : Text) (place : Nat) : Bool :=
  ((text.drop place).take needle.length).map fold == needle.map fold

/-- The first place in the range where the needle stands as a whole. -/
def firstMatch (fold : UInt16 → UInt16) (text needle : Text) (start length : Nat) : Option Nat :=
  (List.range' start (length + 1 - needle.length)).find? (standsAt fold text needle)

/-- Foundation's forward searches without regard to case, unit by unit. -/
structure StringSearch.FoldsUnits (search : StringSearch) (fold : UInt16 → UInt16) : Prop where
  rangeOfString : ∀ (text needle : Text) (start length : Nat), needle ≠ [] →
    start + length ≤ text.length → match firstMatch fold text needle start length with
      | some place => search.rangeOfString text needle { caseInsensitive := true } start length =
          ⟨place, needle.length⟩
      | none =>
        (search.rangeOfString text needle { caseInsensitive := true } start length).length = 0
  find : ∀ (text needle : Text) (start length : Nat), needle ≠ [] → start + length ≤ text.length →
    search.find text needle start length = firstMatch fold text needle start length

/-- The ranges spell the text: they are not empty, follow one another inside the filename, and
    what stands at them is the text up to case. -/
structure Spells (fold : UInt16 → UInt16) (filename text : Text) (position : Nat)
    (ranges : List Range) : Prop where
  nonempty : ∀ r ∈ ranges, 0 < r.length
  behind : ∀ r ∈ ranges, position ≤ r.offset
  inside : ∀ r ∈ ranges, r.offset + r.length ≤ filename.length
  increasing : ranges.Pairwise fun r r' => r.offset + r.length ≤ r'.offset
  spelled : (ranges.flatMap fun r => (filename.drop r.offset).take r.length).map fold =
    text.map fold

section Search

variable {search : StringSearch} {fold : UInt16 → UInt16}

theorem firstMatch_some {start length place : Nat} (hneedle : needle ≠ [])
    (h : firstMatch fold text needle start length = some place) :
    start ≤ place ∧ place + needle.length ≤ start + length ∧ standsAt fold text needle place ∧
        ∀ earlier, start ≤ earlier → earlier < place → standsAt fold text needle earlier = false := by
  have hpos : 0 < needle.length := length_pos_iff.mpr hneedle
  obtain ⟨hstands, hin, hearlier⟩ := List.find?_range'_eq_some.mp h
  rw [List.mem_range'_1] at hin
  refine ⟨hin.1, by omega, hstands, fun earlier hlow hlt => ?_⟩
  simpa using hearlier earlier hlow hlt

theorem firstMatch_none {start length : Nat} (h : firstMatch fold text needle start length = none)
    {place : Nat} (hlow : start ≤ place) (hhigh : place + needle.length ≤ start + length) :
    standsAt fold text needle place = false := by
  have hall := List.find?_range'_eq_none.mp h place hlow (by omega)
  simpa using hall

/-- One unit stands where the folded text has it. -/
theorem standsAt_singleton (text : Text) (c : UInt16) (place : Nat) :
    standsAt fold text [c] place ↔ (text.map fold)[place]? = some (fold c) := by
  unfold standsAt
  rw [beq_iff_eq, map_take, map_drop]
  generalize text.map fold = folded
  have hhead : (folded.drop place)[0]? = folded[place]? := by
    rw [List.getElem?_drop, Nat.add_zero]
  rw [← hhead]
  cases folded.drop place with
  | nil => simp
  | cons unit rest => simp

variable {filename text : Text}

theorem standsAt_take {k place : Nat} (hk : k ≤ text.length)
    (h : standsAt fold filename (text.take k) place) :
    ((filename.drop place).take k).map fold = (text.take k).map fold := by
  unfold standsAt at h
  rw [beq_iff_eq, length_take, Nat.min_eq_left hk] at h
  exact h

/-! ## The look-ahead -/

/-- What is left of the text is a subsequence of what is left of the filename. -/
def Left (fold : UInt16 → UInt16) (filename : Text) (position : Nat) (text : Text) : Prop :=
  (text.map fold).Sublist ((filename.map fold).drop position)

/-- The first unit of the text is taken where it is first found. -/
theorem left_first {position place : Nat}
    (h : firstMatch fold filename [c] position (filename.length - position) = some place) :
    Left fold filename position (c :: text) ↔ Left fold filename (place + 1) text := by
  obtain ⟨hlow, -, hstands, hearlier⟩ := firstMatch_some (cons_ne_nil c []) h
  have hfound : ((filename.map fold).drop position)[place - position]? = some (fold c) := by
    rw [List.getElem?_drop, Nat.add_sub_cancel' hlow]
    exact (standsAt_singleton filename c place).mp hstands
  have hfirst : ∀ j < place - position,
      ((filename.map fold).drop position)[j]? ≠ some (fold c) := by
    intro j hj hthere
    rw [List.getElem?_drop] at hthere
    have hstands : standsAt fold filename [c] (position + j) :=
      (standsAt_singleton filename c (position + j)).mpr hthere
    rw [hearlier (position + j) (by omega) (by omega)] at hstands
    cases hstands
  unfold Left
  rw [map_cons, sublist_first hfound hfirst, drop_drop]
  have hplace : position + (place - position + 1) = place + 1 := by omega
  rw [hplace]

variable {position : Nat}

theorem not_left_of_none {c : UInt16}
    (h : firstMatch fold filename [c] position (filename.length - position) = none) :
    ¬ Left fold filename position (c :: text) := by
  intro hleft
  have hmem : fold c ∈ (filename.map fold).drop position := by
    apply hleft.subset
    exact mem_cons_self
  obtain ⟨j, hj⟩ := mem_iff_getElem?.mp hmem
  rw [List.getElem?_drop] at hj
  obtain ⟨hlt, -⟩ := List.getElem?_eq_some_iff.mp hj
  rw [length_map] at hlt
  have hnot := firstMatch_none h (Nat.le_add_right position j)
    (by rw [length_singleton]; omega)
  rw [(standsAt_singleton filename c (position + j)).mpr hj] at hnot
  exact Bool.false_ne_true hnot.symm

theorem satisfiable_iff (hs : search.FoldsUnits fold) (filename text : Text)
    (hposition : position ≤ filename.length) :
    search.fuzzySearchSatisfiable filename position text ↔ Left fold filename position text := by
  induction text generalizing position with
  | nil => exact iff_of_true rfl (nil_sublist _)
  | cons c text ih =>
    have hfind := hs.find filename [c] position (filename.length - position)
      (cons_ne_nil c []) (by omega)
    unfold fuzzySearchSatisfiable
    rw [hfind]
    cases hmatch : firstMatch fold filename [c] position (filename.length - position) with
    | none => exact iff_of_false Bool.false_ne_true (not_left_of_none hmatch)
    | some place =>
      obtain ⟨-, hhigh, -, -⟩ := firstMatch_some (cons_ne_nil c []) hmatch
      rw [length_singleton] at hhigh
      rw [left_first hmatch]
      exact ih (by omega)

/-! ## The greedy loop -/

/-- A substring that a round takes: it stands behind the position, and the rest is still there. -/
structure Taken (fold : UInt16 → UInt16) (filename : Text) (position : Nat) (text : Text)
    (r : Range) : Prop where
  nonempty : 0 < r.length
  short : r.length ≤ text.length
  behind : position ≤ r.offset
  inside : r.offset + r.length ≤ filename.length
  spelled : ((filename.drop r.offset).take r.length).map fold = (text.take r.length).map fold
  left : Left fold filename (r.offset + r.length) (text.drop r.length)

theorem longestFound_taken (hs : search.FoldsUnits fold) (hposition : position ≤ filename.length)
    {length : Nat} (hlength : length ≤ text.length)
    (h : search.longestFound filename position text length = some r) :
    Taken fold filename position text r.val := by
  induction length with
  | zero => cases h
  | succ length ih =>
    have hneedle : text.take (length + 1) ≠ [] := by
      intro hnil
      have hzero := congrArg List.length hnil
      rw [length_take, length_nil] at hzero
      omega
    have hrange := hs.rangeOfString filename (text.take (length + 1)) position
      (filename.length - position) hneedle (by omega)
    unfold longestFound at h
    cases hmatch : firstMatch fold filename (text.take (length + 1)) position
        (filename.length - position) with
    | none =>
      rw [hmatch] at hrange
      rw [dif_pos hrange] at h
      exact ih (by omega) h
    | some place =>
      rw [hmatch] at hrange
      obtain ⟨hlow, hhigh, hstands, -⟩ := firstMatch_some hneedle hmatch
      have htake : (text.take (length + 1)).length = length + 1 := by
        rw [length_take]
        omega
      rw [htake] at hrange hhigh
      by_cases hzero : (search.rangeOfString filename (text.take (length + 1))
          { caseInsensitive := true } position (filename.length - position)).length = 0
      · rw [hrange] at hzero
        exact absurd hzero (succ_ne_zero length)
      · rw [dif_neg hzero] at h
        by_cases hrest : search.fuzzySearchSatisfiable filename
            ((search.rangeOfString filename (text.take (length + 1))
              { caseInsensitive := true } position (filename.length - position)).offset +
            (search.rangeOfString filename (text.take (length + 1))
              { caseInsensitive := true } position (filename.length - position)).length)
            (text.drop (length + 1))
        · rw [if_pos hrest] at h
          rw [hrange] at hrest
          have hval : r.val = ⟨place, length + 1⟩ := by
            rw [← Option.some.inj h]
            exact hrange
          rw [hval]
          exact ⟨succ_pos length, hlength, hlow, by dsimp only; omega,
            standsAt_take hlength hstands,
            (satisfiable_iff hs filename _ (by dsimp only; omega)).mp hrest⟩
        · rw [if_neg hrest] at h
          exact ih (by omega) h

/-- While the text is still there, some substring is taken: its first unit at the latest. -/
theorem longestFound_some (hs : search.FoldsUnits fold) (hposition : position ≤ filename.length)
    {length : Nat} (hpos : 0 < length) (hlength : length ≤ text.length)
    (hleft : Left fold filename position text) :
    ∃ r, search.longestFound filename position text length = some r := by
  induction length with
  | zero => exact absurd hpos (Nat.lt_irrefl 0)
  | succ length ih =>
    unfold longestFound
    dsimp only
    by_cases hfirst : length = 0
    · -- one unit: it is found, and what follows its first place is enough for the rest
      subst hfirst
      cases text with
      | nil => exact absurd hlength (not_succ_le_zero 0)
      | cons c text =>
        have hone : (c :: text).take (0 + 1) = [c] := rfl
        have hrange := hs.rangeOfString filename [c] position (filename.length - position)
          (cons_ne_nil c []) (by omega)
        cases hmatch : firstMatch fold filename [c] position
            (filename.length - position) with
        | none => exact absurd hleft (not_left_of_none hmatch)
        | some place =>
          rw [hmatch] at hrange
          obtain ⟨-, hhigh, -, -⟩ := firstMatch_some (cons_ne_nil c []) hmatch
          rw [length_singleton] at hhigh
          have hrest : search.fuzzySearchSatisfiable filename (place + 1) text :=
            (satisfiable_iff hs filename text (by omega)).mpr ((left_first hmatch).mp hleft)
          have hnonzero : ¬ (search.rangeOfString filename [c] { caseInsensitive := true }
              position (filename.length - position)).length = 0 := by
            rw [hrange]
            exact Nat.one_ne_zero
          have hlook : search.fuzzySearchSatisfiable filename
              ((search.rangeOfString filename [c] { caseInsensitive := true }
                position (filename.length - position)).offset +
              (search.rangeOfString filename [c] { caseInsensitive := true }
                position (filename.length - position)).length) text := by
            rw [hrange]
            exact hrest
          rw [hone, dif_neg hnonzero]
          exact ⟨_, if_pos hlook⟩
    · obtain ⟨r, hr⟩ := ih (Nat.pos_of_ne_zero hfirst) (by omega)
      rw [hr]
      split
      · exact ⟨r, rfl⟩
      · split
        · exact ⟨_, rfl⟩
        · exact ⟨r, rfl⟩

theorem Spells.nil (filename : Text) (position : Nat) : Spells fold filename [] position [] where
  nonempty := forall_mem_nil _
  behind := forall_mem_nil _
  inside := forall_mem_nil _
  increasing := List.Pairwise.nil
  spelled := rfl

theorem Spells.cons {r : Range} {ranges : List Range} (h : Taken fold filename position text r)
    (hrest : Spells fold filename (text.drop r.length) (r.offset + r.length) ranges) :
    Spells fold filename text position (r :: ranges) where
  nonempty := forall_mem_cons.mpr ⟨h.nonempty, hrest.nonempty⟩
  behind := by
    refine forall_mem_cons.mpr ⟨h.behind, fun r' hr' => ?_⟩
    have hle := hrest.behind r' hr'
    have hbehind := h.behind
    omega
  inside := forall_mem_cons.mpr ⟨h.inside, hrest.inside⟩
  increasing := pairwise_cons.mpr ⟨hrest.behind, hrest.increasing⟩
  spelled := by
    rw [flatMap_cons, map_append, h.spelled, hrest.spelled, ← map_append, take_append_drop]

/-- The loop comes to its end with ranges that spell the text. -/
theorem fuzzyRanges_spells (hs : search.FoldsUnits fold) (filename : Text) :
    ∀ (n : Nat) (text : Text) (position : Nat) (found : List Range), text.length ≤ n →
      position ≤ filename.length → Left fold filename position text →
        ∃ ranges, search.fuzzyRanges filename position text found = some (found ++ ranges) ∧
          Spells fold filename text position ranges := by
  intro n
  induction n with
  | zero =>
    intro text position found hlength _ _
    have hnil : text = [] := length_eq_zero_iff.mp (le_zero.mp hlength)
    refine ⟨[], ?_, ?_⟩
    · rw [hnil, fuzzyRanges, dif_pos rfl, append_nil]
    · rw [hnil]
      exact Spells.nil filename position
  | succ n ih =>
    intro text position found hlength hposition hleft
    by_cases hnil : text = []
    · refine ⟨[], ?_, ?_⟩
      · rw [hnil, fuzzyRanges, dif_pos rfl, append_nil]
      · rw [hnil]
        exact Spells.nil filename position
    · have hpos : 0 < text.length := length_pos_iff.mpr hnil
      obtain ⟨r, hr⟩ := longestFound_some hs hposition hpos (Nat.le_refl _) hleft
      have htaken := longestFound_taken hs hposition (Nat.le_refl _) hr
      have hrest : (text.drop r.val.length).length ≤ n := by
        have hnonempty := htaken.nonempty
        rw [length_drop]
        omega
      obtain ⟨ranges, hranges, hspells⟩ := ih (text.drop r.val.length)
        (r.val.offset + r.val.length) (found ++ [r.val]) hrest htaken.inside htaken.left
      refine ⟨r.val :: ranges, ?_, Spells.cons htaken hspells⟩
      rw [fuzzyRanges, dif_neg hnil, hr]
      rw [append_assoc] at hranges
      exact hranges

/-- `FuzzySearch` answers exactly for the texts that are subsequences of the filename up to case.
    Behind its first check the loop always comes to its end, with ranges that spell the text. -/
theorem fuzzySearch_complete (hs : search.FoldsUnits fold) (filename text : Text) :
    ((∃ found, search.fuzzySearch filename text = some found) ↔
        (text.map fold).Sublist (filename.map fold)) ∧
      (search.fuzzySearchSatisfiable filename 0 text = true →
        ∃ ranges, search.fuzzyRanges filename 0 text [] = some ranges ∧
          search.fuzzySearch filename text = some (ofRanges ranges) ∧
            Spells fold filename text 0 ranges) := by
  have hsatisfiable := satisfiable_iff hs filename text (Nat.zero_le filename.length)
  have hranges : search.fuzzySearchSatisfiable filename 0 text →
      ∃ ranges, search.fuzzyRanges filename 0 text [] = some ranges ∧
        search.fuzzySearch filename text = some (ofRanges ranges) ∧
          Spells fold filename text 0 ranges := by
    intro hfits
    obtain ⟨ranges, hloop, hspells⟩ := fuzzyRanges_spells hs filename text.length text 0 []
      (Nat.le_refl _) (Nat.zero_le _) (hsatisfiable.mp hfits)
    rw [nil_append] at hloop
    refine ⟨ranges, hloop, ?_, hspells⟩
    unfold fuzzySearch
    rw [if_pos hfits, hloop]
    rfl
  refine ⟨?_, hranges⟩
  have hwhole : (text.map fold).Sublist (filename.map fold) ↔ Left fold filename 0 text := by
    unfold Left
    rw [drop_zero]
  rw [hwhole, ← hsatisfiable]
  constructor
  · rintro ⟨found, hfound⟩
    unfold fuzzySearch at hfound
    by_contra hnot
    rw [if_neg hnot] at hfound
    cases hfound
  · intro hfits
    obtain ⟨ranges, -, hfound, -⟩ := hranges hfits
    exact ⟨_, hfound⟩

/-- Foundation's searches on texts with ASCII letters folded. -/
def foldAscii (unit : UInt16) : UInt16 := if 65 ≤ unit && unit ≤ 90 then unit + 32 else unit

def unitSearch : StringSearch where
  rangeOfString text needle _ start length :=
    match firstMatch foldAscii text needle start length with
    | some place => ⟨place, needle.length⟩
    | none => ⟨0, 0⟩
  find := firstMatch foldAscii

theorem unitSearch_folds : unitSearch.FoldsUnits foldAscii where
  rangeOfString text needle start length _ _ := by
    show match firstMatch foldAscii text needle start length with
      | some place => (match firstMatch foldAscii text needle start length with
          | some place => (⟨place, needle.length⟩ : Range)
          | none => ⟨0, 0⟩) = ⟨place, needle.length⟩
      | none => (match firstMatch foldAscii text needle start length with
          | some place => (⟨place, needle.length⟩ : Range)
          | none => ⟨0, 0⟩).length = 0
    cases firstMatch foldAscii text needle start length <;> rfl
  find _ _ _ _ _ _ := rfl

/-- The text `ob` in the filename `fooBar`. -/
theorem fuzzySearch_complete_fooBar :
    ((∃ found, unitSearch.fuzzySearch [102, 111, 111, 66, 97, 114] [111, 98] = some found) ↔
        ([111, 98].map foldAscii).Sublist ([102, 111, 111, 66, 97, 114].map foldAscii)) ∧
      (unitSearch.fuzzySearchSatisfiable [102, 111, 111, 66, 97, 114] 0 [111, 98] = true →
        ∃ ranges, unitSearch.fuzzyRanges [102, 111, 111, 66, 97, 114] 0 [111, 98] [] = some ranges ∧
          unitSearch.fuzzySearch [102, 111, 111, 66, 97, 114] [111, 98] = some (ofRanges ranges) ∧
            Spells foldAscii [102, 111, 111, 66, 97, 114] [111, 98] 0 ranges) :=
  fuzzySearch_complete unitSearch_folds _ _

end Search

end WinCommander.Panel
