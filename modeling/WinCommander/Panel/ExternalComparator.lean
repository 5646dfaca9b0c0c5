/-
  The order of a panel against a key that outlives its listing.

  A key is built from an entry and says `-1` for a missing added time and nothing for a missing
  extension. `less_ofItem_iff` says when it still tells what the entry did: the two comparators
  differ only at entries with a negative added time or with an extension that begins with a null
  byte, which a host does not produce.
-/
import WinCommander.Panel.Comparator

namespace WinCommander.Panel

open Library

structure ExternalEntryKey where
  name : Bytes := []
  extension : Bytes := []
  displayName : Option Text := none
  size : BitVec 64 := 0
  mTime : Int := 0
  bTime : Int := 0
  aTime : Int := 0
  /-- -1 means absent. -/
  addTime : Int := 0
  isDir : Bool := false
deriving DecidableEq

namespace ExternalEntryKey

/-- The key of an entry of a listing. -/
def ofItem (l : Listing) (i : Nat) (vd : ItemVolatileData) : ExternalEntryKey where
  name := l.filename i
  extension := if l.hasExtension i then l.extension i else []
  displayName := some (l.item i).displayFilename
  size := vd.size
  mTime := l.mTime i
  bTime := l.bTime i
  aTime := l.aTime i
  addTime := if l.hasAddTime i then l.addTime i else -1
  isDir := l.isDir i

def isValid (key : ExternalEntryKey) : Bool := key.name ≠ [] && key.displayName.isSome

end ExternalEntryKey

namespace ExternalListingComparator

variable (strings : StringComparison) (l : Listing) (vd : List ItemVolatileData) (mode : SortMode)

/-- `by_name`, of a key with a display name. -/
def byName (a : Nat) (key : ExternalEntryKey) : Ordering :=
  strings.compare mode.collation (l.item a).displayFilename (key.displayName.getD [])

def hasExtension (key : ExternalEntryKey) : Bool :=
  key.extension ≠ [] && (!mode.extensionlessDirs || !key.isDir)

def isLessByExtension (a : Nat) (key : ExternalEntryKey) : Bool :=
  let first := IndirectListingComparator.hasExtension l mode a
  let second := hasExtension mode key
  if first ∧ second then
    match compareExtensions mode.collation (l.extension a) (cString key.extension) with
    | .lt => true
    | .gt => false
    | .eq => byName strings l mode a key == .lt
  else if first ∧ !second then false
  else if !first ∧ second then true
  else byName strings l mode a key == .lt

def isLessByExtensionReversed (a : Nat) (key : ExternalEntryKey) : Bool :=
  let first := IndirectListingComparator.hasExtension l mode a
  let second := hasExtension mode key
  if first ∧ second then
    match compareExtensions mode.collation (l.extension a) (cString key.extension) with
    | .lt => false
    | .gt => true
    | .eq => byName strings l mode a key == .gt
  else if first ∧ !second then true
  else if !first ∧ second then false
  else byName strings l mode a key == .gt

/-- The later time first. -/
def isLessByTime (time keyTime : Int) (a : Nat) (key : ExternalEntryKey) : Bool :=
  if time ≠ keyTime then decide (keyTime < time) else byName strings l mode a key == .lt

/-- The earlier time first. -/
def isLessByTimeReversed (time keyTime : Int) (a : Nat) (key : ExternalEntryKey) : Bool :=
  if time ≠ keyTime then decide (time < keyTime) else byName strings l mode a key == .gt

def isLessByAddedTime (a : Nat) (key : ExternalEntryKey) : Bool :=
  let h1 := l.hasAddTime a
  let h2 := decide (0 ≤ key.addTime)
  if h1 ∧ h2 ∧ l.addTime a ≠ key.addTime then decide (key.addTime < l.addTime a)
  else if h1 ∧ !h2 then true
  else if h2 ∧ !h1 then false
  else byName strings l mode a key == .lt

def isLessByAddedTimeReversed (a : Nat) (key : ExternalEntryKey) : Bool :=
  let h1 := l.hasAddTime a
  let h2 := decide (0 ≤ key.addTime)
  if h1 ∧ h2 ∧ l.addTime a ≠ key.addTime then decide (l.addTime a < key.addTime)
  else if h1 ∧ !h2 then false
  else if h2 ∧ !h1 then true
  else byName strings l mode a key == .gt

def isLessBySize (a : Nat) (key : ExternalEntryKey) : Bool :=
  let s1 := IndirectListingComparator.size vd a
  if s1 ≠ invalidSize ∧ key.size ≠ invalidSize ∧ s1 ≠ key.size then decide (key.size < s1)
  else if s1 ≠ invalidSize ∧ key.size = invalidSize then false
  else if s1 = invalidSize ∧ key.size ≠ invalidSize then true
  else byName strings l mode a key == .lt

def isLessBySizeReversed (a : Nat) (key : ExternalEntryKey) : Bool :=
  let s1 := IndirectListingComparator.size vd a
  if s1 ≠ invalidSize ∧ key.size ≠ invalidSize ∧ s1 ≠ key.size then decide (s1 < key.size)
  else if s1 ≠ invalidSize ∧ key.size = invalidSize then true
  else if s1 = invalidSize ∧ key.size ≠ invalidSize then false
  else byName strings l mode a key == .gt

/-- `operator()` behind the separation of directories. -/
def isLessByMode (a : Nat) (key : ExternalEntryKey) : Bool :=
  match mode.sort with
  | .noSort => false
  | .byName => byName strings l mode a key == .lt
  | .byNameRev => byName strings l mode a key == .gt
  | .byExt => isLessByExtension strings l mode a key
  | .byExtRev => isLessByExtensionReversed strings l mode a key
  | .byModTime => isLessByTime strings l mode (l.mTime a) key.mTime a key
  | .byModTimeRev => isLessByTimeReversed strings l mode (l.mTime a) key.mTime a key
  | .byBirthTime => isLessByTime strings l mode (l.bTime a) key.bTime a key
  | .byBirthTimeRev => isLessByTimeReversed strings l mode (l.bTime a) key.bTime a key
  | .byAddTime => isLessByAddedTime strings l mode a key
  | .byAddTimeRev => isLessByAddedTimeReversed strings l mode a key
  | .byAccessTime => isLessByTime strings l mode (l.aTime a) key.aTime a key
  | .byAccessTimeRev => isLessByTimeReversed strings l mode (l.aTime a) key.aTime a key
  | .bySize => isLessBySize strings l vd mode a key
  | .bySizeRev => isLessBySizeReversed strings l vd mode a key
  | .byRawCName => (compare (l.filename a) key.name).isLT

/-- `operator()`. -/
def less (a : Nat) (key : ExternalEntryKey) : Bool :=
  if mode.sepDirs && (l.isDir a && !key.isDir) then true
  else if mode.sepDirs && (!l.isDir a && key.isDir) then false
  else isLessByMode strings l vd mode a key

/-! ## The key of an entry -/

/-- The key of entry `j`. -/
abbrev keyOf (j : Nat) : ExternalEntryKey := .ofItem l j (vd.getD j {})

/-- An added time that the key takes for a missing one. -/
def LosesAddTime (j : Nat) : Prop := l.hasAddTime j = true ∧ l.addTime j < 0

/-- An extension that the key takes for a missing one. -/
def LosesExtension (j : Nat) : Prop :=
  IndirectListingComparator.hasExtension l mode j = true ∧ l.extension j = []

instance (j : Nat) : Decidable (LosesAddTime l j) := inferInstanceAs (Decidable (_ ∧ _))

instance (j : Nat) : Decidable (LosesExtension l mode j) := inferInstanceAs (Decidable (_ ∧ _))

theorem byName_ofItem (a j : Nat) : byName strings l mode a (keyOf l vd j) =
      IndirectListingComparator.compareNames strings l mode a j := rfl

theorem cString_extension (j : Nat) : cString (l.extension j) = l.extension j := by
  unfold Listing.extension cString
  rw [List.takeWhile_takeWhile]
  simp

theorem hasExtension_ofItem (h : ¬ LosesExtension l mode j) :
    hasExtension mode (keyOf l vd j) = IndirectListingComparator.hasExtension l mode j := by
  unfold LosesExtension IndirectListingComparator.hasExtension at h
  unfold hasExtension IndirectListingComparator.hasExtension
  show (decide ((if l.hasExtension j then l.extension j else []) ≠ []) &&
    (!mode.extensionlessDirs || !l.isDir j)) = _
  cases hext : l.hasExtension j with
  | false => simp
  | true =>
    cases hdir : !mode.extensionlessDirs || !l.isDir j with
    | false => simp
    | true =>
      have hne : l.extension j ≠ [] := by simpa [hext, hdir] using h
      simp [hne]

theorem hasExtension_lost (h : LosesExtension l mode j) :
    hasExtension mode (keyOf l vd j) = false := by
  show (decide ((if l.hasExtension j then l.extension j else []) ≠ []) && _) = false
  rw [h.2]
  simp

theorem hasAddTime_ofItem (h : ¬ LosesAddTime l j) :
    decide (0 ≤ (keyOf l vd j).addTime) = l.hasAddTime j := by
  unfold LosesAddTime at h
  show decide (0 ≤ if l.hasAddTime j then l.addTime j else -1) = _
  cases hadd : l.hasAddTime j with
  | false => rfl
  | true =>
    have hle : 0 ≤ l.addTime j := by simpa [hadd] using h
    simpa using hle

theorem hasAddTime_lost (h : LosesAddTime l j) : decide (0 ≤ (keyOf l vd j).addTime) = false := by
  show decide (0 ≤ if l.hasAddTime j then l.addTime j else -1) = false
  rw [h.1]
  simpa using h.2

/-! ## Against the comparator of entries -/

/-- The key loses nothing that the mode looks at. -/
structure Tells (j : Nat) : Prop where
  addTime : mode.sort = .byAddTime ∨ mode.sort = .byAddTimeRev → ¬ LosesAddTime l j
  extension : mode.sort = .byExt ∨ mode.sort = .byExtRev → ¬ LosesExtension l mode j

/-- A time that is there is in the key as it is. -/
theorem addTime_ofItem (h : l.hasAddTime j) : (keyOf l vd j).addTime = l.addTime j := if_pos h

theorem extension_ofItem (h : IndirectListingComparator.hasExtension l mode j) :
    cString (keyOf l vd j).extension = l.extension j := by
  have hext : l.hasExtension j := (Bool.and_eq_true_iff.mp h).1
  have hkey : (keyOf l vd j).extension = l.extension j := if_pos hext
  rw [hkey, cString_extension]

theorem isLessByMode_ofItem (h : Tells l mode j) : isLessByMode strings l vd mode a (keyOf l vd j) =
      IndirectListingComparator.isLessByMode strings l vd mode a j := by
  have hext := h.extension
  have hadd := h.addTime
  unfold isLessByMode IndirectListingComparator.isLessByMode
  cases hsort : mode.sort with
  | byExt =>
    have hsame := hasExtension_ofItem l vd mode (hext (Or.inl hsort))
    dsimp only
    unfold isLessByExtension IndirectListingComparator.isLessByExension
    rw [hsame]
    cases hj : IndirectListingComparator.hasExtension l mode j with
    | false => simp [byName_ofItem]
    | true => rw [extension_ofItem l vd mode hj]; rfl
  | byExtRev =>
    have hsame := hasExtension_ofItem l vd mode (hext (Or.inr hsort))
    dsimp only
    unfold isLessByExtensionReversed IndirectListingComparator.isLessByExensionReversed
    rw [hsame]
    cases hj : IndirectListingComparator.hasExtension l mode j with
    | false => simp [byName_ofItem]
    | true => rw [extension_ofItem l vd mode hj]; rfl
  | byAddTime =>
    have hsame := hasAddTime_ofItem l vd (hadd (Or.inl hsort))
    dsimp only
    unfold isLessByAddedTime IndirectListingComparator.isLessByAddedTime
    rw [hsame]
    cases hj : l.hasAddTime j with
    | false => simp [byName_ofItem]
    | true => rw [addTime_ofItem l vd hj]; rfl
  | byAddTimeRev =>
    have hsame := hasAddTime_ofItem l vd (hadd (Or.inr hsort))
    dsimp only
    unfold isLessByAddedTimeReversed IndirectListingComparator.isLessByAddedTimeReversed
    rw [hsame]
    cases hj : l.hasAddTime j with
    | false => simp [byName_ofItem]
    | true => rw [addTime_ofItem l vd hj]; rfl
  | _ => rfl

/-- Both are directories, or neither is, where that comes first. -/
def SameKind (a j : Nat) : Prop := mode.sepDirs = true → l.isDir a = l.isDir j

theorem less_ofItem_iff (a j : Nat) : less strings l vd mode a (keyOf l vd j) =
        IndirectListingComparator.less strings l vd mode a j ↔
      (SameKind l mode a j → isLessByMode strings l vd mode a (keyOf l vd j) =
        IndirectListingComparator.isLessByMode strings l vd mode a j) := by
  have hdir : (keyOf l vd j).isDir = l.isDir j := rfl
  unfold less IndirectListingComparator.less SameKind
  rw [hdir]
  cases mode.sepDirs <;> cases l.isDir a <;> cases l.isDir j <;> simp

/-! ## When the two agree -/

open IndirectListingComparator in
/-- What the keys still have to tell for the order that is asked for. By added time: no entry has
    a negative one. In reverse: no entry with a time comes before one with a negative time, and
    one without a time does so by name. By extension: where an extension is lost, an entry without
    an extension comes before it by name, and one whose extension is empty does not. In reverse:
    no extension is lost. -/
def KeysTell : Prop :=
  match mode.sort with
  | .byAddTime => ∀ j < l.count, ¬ LosesAddTime l j
  | .byAddTimeRev => ∀ j < l.count, LosesAddTime l j → ∀ a < l.count, SameKind l mode a j →
      if l.hasAddTime a then
        ¬ (l.addTime a < l.addTime j ∨
          l.addTime a = l.addTime j ∧ compareNames strings l mode a j = .gt)
      else compareNames strings l mode a j = .gt
  | .byExt => ∀ j < l.count, LosesExtension l mode j → ∀ a < l.count, SameKind l mode a j →
      if IndirectListingComparator.hasExtension l mode a then
        l.extension a = [] → compareNames strings l mode a j ≠ .lt
      else compareNames strings l mode a j = .lt
  | .byExtRev => ∀ j < l.count, ¬ LosesExtension l mode j
  | _ => True

/-- The comparator of entries is a strict weak order, and that of keys agrees with it. -/
structure Consistent : Prop where
  weakOrder : StrictWeakOrder (IndirectListingComparator.less strings l vd mode)
  agree : ∀ a < l.count, ∀ j < l.count,
    less strings l vd mode a (keyOf l vd j) = IndirectListingComparator.less strings l vd mode a j

theorem compareExtensions_nil (collation : SortMode.Collation) (extension : Bytes) :
    compareExtensions collation extension [] = if extension = [] then .eq else .gt := by
  cases extension with
  | nil => cases collation <;> rfl
  | cons b rest => cases collation <;> rfl

theorem compareNames_self (j : Nat) :
    IndirectListingComparator.compareNames strings l mode j j = .eq := by
  have := IndirectListingComparator.transCmp_compareNames strings l mode
  exact Std.ReflCmp.compare_self

theorem addedTime_lost (h : LosesAddTime l j) (a : Nat) :
    isLessByAddedTimeReversed strings l mode a (keyOf l vd j) =
        IndirectListingComparator.isLessByAddedTimeReversed strings l mode a j ↔
      if l.hasAddTime a then ¬ (l.addTime a < l.addTime j ∨ l.addTime a = l.addTime j ∧
          IndirectListingComparator.compareNames strings l mode a j = .gt)
      else IndirectListingComparator.compareNames strings l mode a j = .gt := by
  have hnone := hasAddTime_lost l vd h
  unfold isLessByAddedTimeReversed IndirectListingComparator.isLessByAddedTimeReversed
  rw [hnone, h.1, byName_ofItem]
  cases l.hasAddTime a with
  | false => cases IndirectListingComparator.compareNames strings l mode a j <;> simp
  | true =>
    by_cases heq : l.addTime a = l.addTime j
    · cases IndirectListingComparator.compareNames strings l mode a j <;> simp [heq]
    · by_cases hlt : l.addTime a < l.addTime j <;> simp [heq, hlt]

theorem extension_lost (h : LosesExtension l mode j) (a : Nat) :
    isLessByExtension strings l mode a (keyOf l vd j) =
        IndirectListingComparator.isLessByExension strings l mode a j ↔
      if IndirectListingComparator.hasExtension l mode a then
        l.extension a = [] → IndirectListingComparator.compareNames strings l mode a j ≠ .lt
      else IndirectListingComparator.compareNames strings l mode a j = .lt := by
  have hnone := hasExtension_lost l vd mode h
  unfold isLessByExtension IndirectListingComparator.isLessByExension
  rw [hnone, h.1, h.2, compareExtensions_nil, byName_ofItem]
  cases IndirectListingComparator.hasExtension l mode a with
  | false => cases IndirectListingComparator.compareNames strings l mode a j <;> simp
  | true =>
    by_cases hnil : l.extension a = []
    · cases IndirectListingComparator.compareNames strings l mode a j <;> simp [hnil]
    · simp [hnil]

theorem addedTime_self (h : LosesAddTime l j) : isLessByAddedTime strings l mode j (keyOf l vd j) ≠
      IndirectListingComparator.isLessByAddedTime strings l mode j j := by
  have hnone := hasAddTime_lost l vd h
  unfold isLessByAddedTime IndirectListingComparator.isLessByAddedTime
  rw [hnone, h.1, compareNames_self]
  simp

theorem extensionReversed_self (h : LosesExtension l mode j) :
    isLessByExtensionReversed strings l mode j (keyOf l vd j) ≠
      IndirectListingComparator.isLessByExensionReversed strings l mode j j := by
  have hnone := hasExtension_lost l vd mode h
  unfold isLessByExtensionReversed IndirectListingComparator.isLessByExensionReversed
  rw [hnone, h.1, h.2, compareExtensions_nil, compareNames_self]
  simp

theorem sameKind_self (j : Nat) : SameKind l mode j j := fun _ => rfl

/-- The comparators agree on a listing exactly when its keys tell what the order asks. -/
theorem agree_iff_keysTell :
    (∀ a < l.count, ∀ j < l.count, less strings l vd mode a (keyOf l vd j) =
      IndirectListingComparator.less strings l vd mode a j) ↔ KeysTell strings l mode := by
  simp only [less_ofItem_iff]
  have htells : (∀ j < l.count, Tells l mode j) → ∀ a < l.count, ∀ j < l.count,
      SameKind l mode a j → isLessByMode strings l vd mode a (keyOf l vd j) =
        IndirectListingComparator.isLessByMode strings l vd mode a j :=
    fun h _ _ j hj _ => isLessByMode_ofItem strings l vd mode (h j hj)
  unfold KeysTell
  cases hsort : mode.sort with
  | byAddTime =>
    constructor
    · intro h j hj hlost
      have hself := h j hj j hj (sameKind_self l mode j)
      unfold isLessByMode IndirectListingComparator.isLessByMode at hself
      rw [hsort] at hself
      exact addedTime_self strings l vd mode hlost hself
    · intro h
      exact htells fun j hj => ⟨fun _ => h j hj, by simp [hsort]⟩
  | byExtRev =>
    constructor
    · intro h j hj hlost
      have hself := h j hj j hj (sameKind_self l mode j)
      unfold isLessByMode IndirectListingComparator.isLessByMode at hself
      rw [hsort] at hself
      exact extensionReversed_self strings l vd mode hlost hself
    · intro h
      exact htells fun j hj => ⟨by simp [hsort], fun _ => h j hj⟩
  | byAddTimeRev =>
    have hboth : ∀ a j, (isLessByMode strings l vd mode a (keyOf l vd j) =
        IndirectListingComparator.isLessByMode strings l vd mode a j) =
        (isLessByAddedTimeReversed strings l mode a (keyOf l vd j) =
          IndirectListingComparator.isLessByAddedTimeReversed strings l mode a j) := by
      intro a j
      unfold isLessByMode IndirectListingComparator.isLessByMode
      rw [hsort]
    constructor
    · intro h j hj hlost a ha hkind
      have hone := h a ha j hj hkind
      rw [hboth] at hone
      exact (addedTime_lost strings l vd mode hlost a).mp hone
    · intro h a ha j hj hkind
      by_cases hlost : LosesAddTime l j
      · rw [hboth]
        exact (addedTime_lost strings l vd mode hlost a).mpr (h j hj hlost a ha hkind)
      · exact isLessByMode_ofItem strings l vd mode ⟨fun _ => hlost, by simp [hsort]⟩
  | byExt =>
    have hboth : ∀ a j, (isLessByMode strings l vd mode a (keyOf l vd j) =
        IndirectListingComparator.isLessByMode strings l vd mode a j) =
        (isLessByExtension strings l mode a (keyOf l vd j) =
          IndirectListingComparator.isLessByExension strings l mode a j) := by
      intro a j
      unfold isLessByMode IndirectListingComparator.isLessByMode
      rw [hsort]
    constructor
    · intro h j hj hlost a ha hkind
      have hone := h a ha j hj hkind
      rw [hboth] at hone
      exact (extension_lost strings l vd mode hlost a).mp hone
    · intro h a ha j hj hkind
      by_cases hlost : LosesExtension l mode j
      · rw [hboth]
        exact (extension_lost strings l vd mode hlost a).mpr (h j hj hlost a ha hkind)
      · exact isLessByMode_ofItem strings l vd mode ⟨by simp [hsort], fun _ => hlost⟩
  | _ => exact iff_of_true (htells fun j _ => ⟨by simp [hsort], by simp [hsort]⟩) trivial

/-- The comparator of entries is a strict weak order on every listing, and the comparator of keys
    agrees with it exactly when the keys tell what the order asks. -/
theorem comparators_consistent_iff : Consistent strings l vd mode ↔ KeysTell strings l mode := by
  constructor
  · intro h
    exact (agree_iff_keysTell strings l vd mode).mp h.agree
  · intro h
    exact ⟨IndirectListingComparator.strictWeakOrder_less strings l vd mode,
      (agree_iff_keysTell strings l vd mode).mpr h⟩

/-- Texts compared unit by unit. -/
def unitStrings : StringComparison where
  compare _ := compare
  lawful _ := inferInstance

/-- A file that was added before 1970. -/
def addedLongAgo : Listing where
  entries := [{
    filename := ascii "a"
    displayFilename := [97]
    directory := ascii "/"
    host := 0
    unixMode := 0o100000
    unixFlags := none
    size := some 1
    aTime := none
    mTime := none
    bTime := none
    addTime := some (-5) }]
  hasCommonHost := true
  hasCommonDirectory := true
  creationTime := 0
  filename_ne := by decide
  directory_slash := by decide
  common_host := by decide
  common_directory := by decide

/-- The key of such a file says that it was never added. -/
theorem consistent_addedLongAgo :
    ¬ ∀ (strings : StringComparison) (l : Listing) (vd : List ItemVolatileData) (mode : SortMode),
      mode.sort ≠ .noSort → Consistent strings l vd mode := by
  intro h
  have hsame := (h unitStrings addedLongAgo [] { sort := .byAddTime } (by decide)).agree 0
    (by decide) 0 (by decide)
  exact absurd hsame (by decide +kernel)

end ExternalListingComparator

end WinCommander.Panel
