/-
  The orders in which a panel shows its entries.

  The comparisons of Core Foundation strings are a parameter (`StringComparison`) that carries
  what a sort relies on. `strictWeakOrder_less` then holds for every sort mode, as each of the
  comparators is one lexicographic comparison (`isLT_compareLex`) and each reversed one is its
  twin with the two entries changed round.
-/
import WinCommander.Library.Sorting
import WinCommander.Panel.VolatileData

namespace WinCommander.Panel

open Library StrictWeakOrder

inductive SortMode.Mode where
  | noSort | byName | byNameRev | byExt | byExtRev | bySize | bySizeRev | byModTime | byModTimeRev
  | byBirthTime | byBirthTimeRev | byAddTime | byAddTimeRev | byAccessTime | byAccessTimeRev
  | byRawCName
deriving DecidableEq

inductive SortMode.Collation where
  | caseSensitive | caseInsensitive | natural
deriving DecidableEq

structure SortMode where
  sort : SortMode.Mode := .byRawCName
  sepDirs : Bool := false
  extensionlessDirs : Bool := false
  collation : SortMode.Collation := .caseInsensitive
deriving DecidableEq

/-- `NaturalCompare` and `CFStringCompare` with its two options. -/
structure StringComparison where
  compare : SortMode.Collation → Text → Text → Ordering
  lawful : ∀ collation, Std.TransCmp (compare collation)

def toLower (b : UInt8) : UInt8 := if 65 ≤ b && b ≤ 90 then b + 32 else b

def strcmp (first second : Bytes) : Ordering := compare first second

def strcasecmp (first second : Bytes) : Ordering :=
  compare (first.map toLower) (second.map toLower)

/-- `Compare` of the null-terminated extensions. -/
def compareExtensions (collation : SortMode.Collation) (first second : Bytes) : Ordering :=
  match collation with
  | .natural => strcasecmp first second
  | .caseInsensitive => strcasecmp first second
  | .caseSensitive => strcmp first second

namespace IndirectListingComparator

variable (strings : StringComparison) (l : Listing) (vd : List ItemVolatileData) (mode : SortMode)

def compareNames (a b : Nat) : Ordering :=
  strings.compare mode.collation (l.item a).displayFilename (l.item b).displayFilename

def isLessByFilesystemRepresentation (a b : Nat) : Bool :=
  (compare (l.filename a) (l.filename b)).isLT

def isLessByName (a b : Nat) : Bool := compareNames strings l mode a b == .lt

def isLessByNameReversed (a b : Nat) : Bool := compareNames strings l mode a b == .gt

def size (a : Nat) : BitVec 64 := (vd.getD a {}).size

def isLessBySize (a b : Nat) : Bool :=
  let s1 := size vd a
  let s2 := size vd b
  if s1 ≠ invalidSize ∧ s2 ≠ invalidSize ∧ s1 ≠ s2 then decide (s2 < s1)
  else if s1 ≠ invalidSize ∧ s2 = invalidSize then false
  else if s1 = invalidSize ∧ s2 ≠ invalidSize then true
  else compareNames strings l mode a b == .lt

def isLessBySizeReversed (a b : Nat) : Bool :=
  let s1 := size vd a
  let s2 := size vd b
  if s1 ≠ invalidSize ∧ s2 ≠ invalidSize ∧ s1 ≠ s2 then decide (s1 < s2)
  else if s1 ≠ invalidSize ∧ s2 = invalidSize then true
  else if s1 = invalidSize ∧ s2 ≠ invalidSize then false
  else compareNames strings l mode a b == .gt

def isLessByAddedTime (a b : Nat) : Bool :=
  let h1 := l.hasAddTime a
  let h2 := l.hasAddTime b
  if h1 ∧ h2 ∧ l.addTime a ≠ l.addTime b then decide (l.addTime b < l.addTime a)
  else if h1 ∧ !h2 then true
  else if h2 ∧ !h1 then false
  else compareNames strings l mode a b == .lt

def isLessByAddedTimeReversed (a b : Nat) : Bool :=
  let h1 := l.hasAddTime a
  let h2 := l.hasAddTime b
  if h1 ∧ h2 ∧ l.addTime a ≠ l.addTime b then decide (l.addTime a < l.addTime b)
  else if h1 ∧ !h2 then false
  else if h2 ∧ !h1 then true
  else compareNames strings l mode a b == .gt

/-- The later time first. -/
def isLessByTime (time : Nat → Int) (a b : Nat) : Bool :=
  if time a ≠ time b then decide (time b < time a) else compareNames strings l mode a b == .lt

/-- The earlier time first. -/
def isLessByTimeReversed (time : Nat → Int) (a b : Nat) : Bool :=
  if time a ≠ time b then decide (time a < time b) else compareNames strings l mode a b == .gt

def isLessByModificationTime := isLessByTime strings l mode l.mTime
def isLessByModificationTimeReversed := isLessByTimeReversed strings l mode l.mTime
def isLessByBirthTime := isLessByTime strings l mode l.bTime
def isLessByBirthTimeReversed := isLessByTimeReversed strings l mode l.bTime
def isLessByAccessTime := isLessByTime strings l mode l.aTime
def isLessByAccessTimeReversed := isLessByTimeReversed strings l mode l.aTime

def hasExtension (a : Nat) : Bool := l.hasExtension a && (!mode.extensionlessDirs || !l.isDir a)

def isLessByExension (a b : Nat) : Bool :=
  let first := hasExtension l mode a
  let second := hasExtension l mode b
  if first ∧ second then
    match compareExtensions mode.collation (l.extension a) (l.extension b) with
    | .lt => true
    | .gt => false
    | .eq => compareNames strings l mode a b == .lt
  else if first ∧ !second then false
  else if !first ∧ second then true
  else compareNames strings l mode a b == .lt

def isLessByExensionReversed (a b : Nat) : Bool :=
  let first := hasExtension l mode a
  let second := hasExtension l mode b
  if first ∧ second then
    match compareExtensions mode.collation (l.extension a) (l.extension b) with
    | .lt => false
    | .gt => true
    | .eq => compareNames strings l mode a b == .gt
  else if first ∧ !second then true
  else if !first ∧ second then false
  else compareNames strings l mode a b == .gt

/-- `operator()` behind the separation of directories. -/
def isLessByMode (a b : Nat) : Bool :=
  match mode.sort with
  | .noSort => false
  | .byName => isLessByName strings l mode a b
  | .byNameRev => isLessByNameReversed strings l mode a b
  | .byExt => isLessByExension strings l mode a b
  | .byExtRev => isLessByExensionReversed strings l mode a b
  | .byModTime => isLessByModificationTime strings l mode a b
  | .byModTimeRev => isLessByModificationTimeReversed strings l mode a b
  | .byBirthTime => isLessByBirthTime strings l mode a b
  | .byBirthTimeRev => isLessByBirthTimeReversed strings l mode a b
  | .byAddTime => isLessByAddedTime strings l mode a b
  | .byAddTimeRev => isLessByAddedTimeReversed strings l mode a b
  | .byAccessTime => isLessByAccessTime strings l mode a b
  | .byAccessTimeRev => isLessByAccessTimeReversed strings l mode a b
  | .bySize => isLessBySize strings l vd mode a b
  | .bySizeRev => isLessBySizeReversed strings l vd mode a b
  | .byRawCName => isLessByFilesystemRepresentation l a b

/-- `operator()`. -/
def less (a b : Nat) : Bool :=
  if mode.sepDirs && (l.isDir a && !l.isDir b) then true
  else if mode.sepDirs && (!l.isDir a && l.isDir b) then false
  else isLessByMode strings l vd mode a b

/-! ## The comparators are strict weak orders -/

theorem transCmp_compareNames : Std.TransCmp (compareNames strings l mode) :=
  have := strings.lawful mode.collation
  transCmp_on (strings.compare mode.collation) fun a => (l.item a).displayFilename

theorem compareNames_gt (a b : Nat) :
    (compareNames strings l mode a b == .gt) = (compareNames strings l mode b a == .lt) := by
  have := transCmp_compareNames strings l mode
  have hswap : compareNames strings l mode a b = (compareNames strings l mode b a).swap :=
    Std.OrientedCmp.eq_swap
  rw [hswap]
  cases compareNames strings l mode b a <;> rfl

theorem transCmp_compareExtensions (collation : SortMode.Collation) :
    Std.TransCmp (compareExtensions collation) := by
  cases collation with
  | natural => exact transCmp_on compare (List.map toLower)
  | caseInsensitive => exact transCmp_on compare (List.map toLower)
  | caseSensitive => exact inferInstanceAs (Std.TransCmp (compare : Bytes → Bytes → Ordering))

theorem compareExtensions_swap (collation : SortMode.Collation) (first second : Bytes) :
    compareExtensions collation first second = (compareExtensions collation second first).swap :=
  have := transCmp_compareExtensions collation
  Std.OrientedCmp.eq_swap

theorem beq_lt (o : Ordering) : (o == .lt) = o.isLT := by
  cases o <;> rfl

theorem strictWeakOrder_byName : StrictWeakOrder (isLessByName strings l mode) := by
  have := transCmp_compareNames strings l mode
  have h := of_isLT (compareNames strings l mode)
  unfold isLessByName
  simp only [beq_lt]
  exact h

theorem isLessByNameReversed_eq (a b : Nat) :
    isLessByNameReversed strings l mode a b = isLessByName strings l mode b a :=
  compareNames_gt strings l mode a b

/-- A key decides before the names do. -/
theorem strictWeakOrder_keyed (less : Nat → Nat → Bool) (key : Nat → Nat → Ordering)
    [Std.TransCmp key]
    (h : ∀ a b, less a b = (compareLex key (compareNames strings l mode) a b).isLT) :
    StrictWeakOrder less := by
  have := transCmp_compareNames strings l mode
  have hless : less = fun a b => (compareLex key (compareNames strings l mode) a b).isLT :=
    funext fun a => funext (h a)
  rw [hless]
  exact of_isLT _

theorem isLT_then (first second : Ordering) : (first.then second).isLT =
      match first with
      | .lt => true
      | .gt => false
      | .eq => second.isLT := by
  cases first <;> rfl

theorem laterFirst (t1 t2 : Int) (names : Ordering) :
    (if t1 ≠ t2 then decide (t2 < t1) else names == .lt) = ((compare t2 t1).then names).isLT := by
  rw [isLT_then]
  rcases lt_trichotomy t1 t2 with h | h | h
  · have hgt : compare t2 t1 = .gt := Int.compare_eq_gt.mpr h
    rw [hgt, if_pos h.ne]
    simpa using h.le
  · have heq : compare t2 t1 = .eq := Int.compare_eq_eq.mpr h.symm
    rw [heq, if_neg (by simpa using h), beq_lt]
  · have hlt : compare t2 t1 = .lt := Int.compare_eq_lt.mpr h
    rw [hlt, if_pos h.ne']
    simpa using h

theorem isLessByTime_eq (time : Nat → Int) (a b : Nat) : isLessByTime strings l mode time a b =
      (compareLex (fun a b => compare (time b) (time a)) (compareNames strings l mode) a b).isLT :=
  laterFirst (time a) (time b) (compareNames strings l mode a b)

theorem isLessByTimeReversed_eq (time : Nat → Int) (a b : Nat) :
    isLessByTimeReversed strings l mode time a b = isLessByTime strings l mode time b a := by
  unfold isLessByTimeReversed isLessByTime
  rw [compareNames_gt]
  simp [ne_comm]

theorem strictWeakOrder_byTime (time : Nat → Int) :
    StrictWeakOrder (isLessByTime strings l mode time) :=
  have := transCmp_on (fun a b : Int => compare b a) time
  strictWeakOrder_keyed strings l mode _ (fun a b => compare (time b) (time a))
    (isLessByTime_eq strings l mode time)

theorem not_invalidSize_lt (s : BitVec 64) : ¬ invalidSize < s := by
  rw [BitVec.lt_def, invalidSize, BitVec.toNat_allOnes]
  have := s.isLt
  omega

/-- An unknown size is the largest of all, so that the larger size simply comes first. -/
theorem largerFirst (s1 s2 : BitVec 64) (names : Ordering) :
    (if s1 ≠ invalidSize ∧ s2 ≠ invalidSize ∧ s1 ≠ s2 then decide (s2 < s1)
      else if s1 ≠ invalidSize ∧ s2 = invalidSize then false
      else if s1 = invalidSize ∧ s2 ≠ invalidSize then true else names == .lt) =
      ((compare s2.toNat s1.toNat).then names).isLT := by
  rw [isLT_then]
  rcases Nat.lt_trichotomy s1.toNat s2.toNat with h | h | h
  · have hlt : s1 < s2 := BitVec.lt_def.mpr h
    have hgt : compare s2.toNat s1.toNat = .gt := Nat.compare_eq_gt.mpr h
    have hs1 : s1 ≠ invalidSize := by
      intro hinvalid
      exact not_invalidSize_lt _ (hinvalid ▸ hlt)
    have hnot : ¬ s2 < s1 := by
      rw [BitVec.lt_def]
      omega
    rw [hgt]
    by_cases hs2 : s2 = invalidSize
    · simp [hs1, hs2]
    · have hne : s1 ≠ s2 := fun heq => hnot (heq ▸ hlt)
      simp [hs1, hs2, hne, hnot]
  · have heq : s1 = s2 := BitVec.eq_of_toNat_eq h
    have hcmp : compare s2.toNat s1.toNat = .eq := Nat.compare_eq_eq.mpr h.symm
    simp [heq, beq_lt]
  · have hlt : s2 < s1 := BitVec.lt_def.mpr h
    have hcmp : compare s2.toNat s1.toNat = .lt := Nat.compare_eq_lt.mpr h
    have hs2 : s2 ≠ invalidSize := by
      intro hinvalid
      exact not_invalidSize_lt _ (hinvalid ▸ hlt)
    rw [hcmp]
    by_cases hs1 : s1 = invalidSize
    · simp [hs1, hs2]
    · have hne : s1 ≠ s2 := by
        intro heq
        rw [heq] at h
        exact lt_irrefl _ h
      simp [hs1, hs2, hne, hlt]

theorem isLessBySize_eq (a b : Nat) : isLessBySize strings l vd mode a b =
      (compareLex (fun a b => compare (size vd b).toNat (size vd a).toNat)
        (compareNames strings l mode) a b).isLT :=
  largerFirst (size vd a) (size vd b) (compareNames strings l mode a b)

theorem isLessBySizeReversed_eq (a b : Nat) :
    isLessBySizeReversed strings l vd mode a b = isLessBySize strings l vd mode b a := by
  unfold isLessBySizeReversed isLessBySize
  rw [compareNames_gt]
  by_cases ha : size vd a = invalidSize <;> by_cases hb : size vd b = invalidSize <;>
    simp [ha, hb, ne_comm]

theorem strictWeakOrder_bySize : StrictWeakOrder (isLessBySize strings l vd mode) :=
  have := transCmp_on (fun a b : Nat => compare b a) fun a => (size vd a).toNat
  strictWeakOrder_keyed strings l mode _
    (fun a b => compare (size vd b).toNat (size vd a).toNat)
    (isLessBySize_eq strings l vd mode)

/-- What has no added time comes behind all that has one. -/
theorem laterAddedFirst (h1 h2 : Bool) (t1 t2 : Int) (names : Ordering) :
    (if h1 ∧ h2 ∧ t1 ≠ t2 then decide (t2 < t1) else if h1 ∧ !h2 then true
      else if h2 ∧ !h1 then false else names == .lt) =
      ((compare (if h2 then some t2 else none) (if h1 then some t1 else none)).then names).isLT := by
  rw [isLT_then]
  cases h1 with
  | false =>
    cases h2 with
    | false => simp [beq_lt]
    | true => rfl
  | true =>
    cases h2 with
    | false => rfl
    | true =>
      rcases lt_trichotomy t1 t2 with h | h | h
      · have hgt : compare (some t2) (some t1) = .gt := Int.compare_eq_gt.mpr h
        simp [hgt, h.ne, h.le]
      · simp [h, beq_lt]
      · have hlt : compare (some t2) (some t1) = .lt := Int.compare_eq_lt.mpr h
        simp [hlt, h.ne', h]

theorem addTime_eq (a : Nat) :
    (if l.hasAddTime a then some (l.addTime a) else none) = (l.item a).addTime := by
  unfold Listing.hasAddTime Listing.addTime
  cases (l.item a).addTime <;> rfl

theorem isLessByAddedTime_eq (a b : Nat) : isLessByAddedTime strings l mode a b =
      (compareLex (fun a b => compare (l.item b).addTime (l.item a).addTime)
        (compareNames strings l mode) a b).isLT := by
  have h := laterAddedFirst (l.hasAddTime a) (l.hasAddTime b) (l.addTime a) (l.addTime b)
    (compareNames strings l mode a b)
  rw [addTime_eq, addTime_eq] at h
  exact h

theorem isLessByAddedTimeReversed_eq (a b : Nat) :
    isLessByAddedTimeReversed strings l mode a b = isLessByAddedTime strings l mode b a := by
  unfold isLessByAddedTimeReversed isLessByAddedTime
  rw [compareNames_gt]
  cases ha : l.hasAddTime a <;> cases hb : l.hasAddTime b <;> simp [eq_comm]

theorem strictWeakOrder_byAddedTime : StrictWeakOrder (isLessByAddedTime strings l mode) :=
  have := transCmp_on (fun a b : Option Int => compare b a)
    fun a => (l.item a).addTime
  strictWeakOrder_keyed strings l mode _
    (fun a b => compare (l.item b).addTime (l.item a).addTime)
    (isLessByAddedTime_eq strings l mode)

/-- The extension that counts, empty where none does. -/
def sortedExtension (a : Nat) : Bytes := if hasExtension l mode a then l.extension a else []

/-- Entries without an extension first, then by extension. -/
def compareByExtension : Nat → Nat → Ordering :=
  compareLex (compareOn (hasExtension l mode)) fun a b =>
    compareExtensions mode.collation (sortedExtension l mode a) (sortedExtension l mode b)

theorem byExtensionFirst (collation : SortMode.Collation) (first second : Bool) (x1 x2 : Bytes)
    (names : Ordering) : (if first ∧ second then
        match compareExtensions collation x1 x2 with
        | .lt => true
        | .gt => false
        | .eq => names == .lt else if first ∧ !second then false else if !first ∧ second then true
      else names == .lt) =
      (((compare first second).then (compareExtensions collation (if first then x1 else [])
        (if second then x2 else []))).then names).isLT := by
  have hself : ∀ x : Bytes, compareExtensions collation x x = .eq := by
    intro x
    have := transCmp_compareExtensions collation
    exact Std.ReflCmp.compare_self
  rw [isLT_then]
  cases first <;> cases second
  · simp only [Std.ReflCmp.compare_self, hself, Bool.false_eq_true, if_false, beq_lt]
    rfl
  · rfl
  · rfl
  · simp only [Std.ReflCmp.compare_self, if_true, beq_lt]
    rfl

theorem isLessByExension_eq (a b : Nat) : isLessByExension strings l mode a b =
      (compareLex (compareByExtension l mode) (compareNames strings l mode) a b).isLT :=
  byExtensionFirst mode.collation (hasExtension l mode a) (hasExtension l mode b) (l.extension a)
    (l.extension b) (compareNames strings l mode a b)

theorem transCmp_compareByExtension : Std.TransCmp (compareByExtension l mode) :=
  have := transCmp_compareExtensions mode.collation
  have : Std.TransCmp fun a b =>
      compareExtensions mode.collation (sortedExtension l mode a) (sortedExtension l mode b) :=
    transCmp_on (compareExtensions mode.collation) (sortedExtension l mode)
  inferInstanceAs (Std.TransCmp (compareLex (compareOn (hasExtension l mode)) _))

theorem isLessByExensionReversed_eq (a b : Nat) :
    isLessByExensionReversed strings l mode a b = isLessByExension strings l mode b a := by
  unfold isLessByExensionReversed isLessByExension
  rw [compareNames_gt, compareExtensions_swap]
  cases ha : hasExtension l mode a <;> cases hb : hasExtension l mode b
  · rfl
  · rfl
  · rfl
  · cases compareExtensions mode.collation (l.extension b) (l.extension a) <;> rfl

theorem strictWeakOrder_byExension : StrictWeakOrder (isLessByExension strings l mode) :=
  have := transCmp_compareByExtension l mode
  strictWeakOrder_keyed strings l mode _ (compareByExtension l mode)
    (isLessByExension_eq strings l mode)

theorem strictWeakOrder_byFilesystemRepresentation :
    StrictWeakOrder (isLessByFilesystemRepresentation l) :=
  (of_isLT (compare : Bytes → Bytes → Ordering)).on l.filename

/-- A reversed comparator is its twin with the entries changed round. -/
theorem strictWeakOrder_reversed {less reversed : Nat → Nat → Bool} (h : StrictWeakOrder less)
    (hreversed : ∀ a b, reversed a b = less b a) : StrictWeakOrder reversed := by
  have heq : reversed = fun a b => less b a := funext fun a => funext (hreversed a)
  rw [heq]
  exact h.flip

theorem strictWeakOrder_isLessByMode : StrictWeakOrder (isLessByMode strings l vd mode) := by
  have hname := strictWeakOrder_byName strings l mode
  have hext := strictWeakOrder_byExension strings l mode
  have htime := strictWeakOrder_byTime strings l mode
  have hadded := strictWeakOrder_byAddedTime strings l mode
  have hsize := strictWeakOrder_bySize strings l vd mode
  unfold isLessByMode
  cases mode.sort with
  | noSort => exact ⟨fun h => absurd h Bool.false_ne_true, fun _ _ => rfl⟩
  | byName => exact hname
  | byNameRev => exact strictWeakOrder_reversed hname (isLessByNameReversed_eq strings l mode)
  | byExt => exact hext
  | byExtRev => exact strictWeakOrder_reversed hext (isLessByExensionReversed_eq strings l mode)
  | byModTime => exact htime l.mTime
  | byModTimeRev =>
    exact strictWeakOrder_reversed (htime l.mTime) (isLessByTimeReversed_eq strings l mode _)
  | byBirthTime => exact htime l.bTime
  | byBirthTimeRev =>
    exact strictWeakOrder_reversed (htime l.bTime) (isLessByTimeReversed_eq strings l mode _)
  | byAddTime => exact hadded
  | byAddTimeRev =>
    exact strictWeakOrder_reversed hadded (isLessByAddedTimeReversed_eq strings l mode)
  | byAccessTime => exact htime l.aTime
  | byAccessTimeRev =>
    exact strictWeakOrder_reversed (htime l.aTime) (isLessByTimeReversed_eq strings l mode _)
  | bySize => exact hsize
  | bySizeRev =>
    exact strictWeakOrder_reversed hsize (isLessBySizeReversed_eq strings l vd mode)
  | byRawCName => exact strictWeakOrder_byFilesystemRepresentation l

/-- Directories may come first; within each kind the mode decides. -/
theorem strictWeakOrder_less : StrictWeakOrder (less strings l vd mode) := by
  have hmode := strictWeakOrder_isLessByMode strings l vd mode
  unfold less
  cases mode.sepDirs
  · simpa using hmode
  · constructor
    · intro a b
      have hasymm := @StrictWeakOrder.asymm _ _ hmode a b
      cases ha : l.isDir a <;> cases hb : l.isDir b <;> simpa using hasymm
    · intro a b c
      have htrans := @StrictWeakOrder.negTrans _ _ hmode a b c
      cases ha : l.isDir a <;> cases hb : l.isDir b <;> cases hc : l.isDir c <;>
        simpa using htrans

end IndirectListingComparator

end WinCommander.Panel
