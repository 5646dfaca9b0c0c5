/-
  `CompareFolders`: two listings of one directory level, matched by exact name.

  `compareFolders_ok` says what the loops build: one entry for each name of either listing, which
  depends on the two items of that name and on nothing else (`entryFor`).
-/
import WinCommander.Library.Numeral

namespace WinCommander.Compare

open Library List

/-! ## The data -/

inductive FolderCompareStatus where
  | same | leftOnly | rightOnly | changed | conflict
deriving DecidableEq

inductive FolderCompareNewerSide where
  | neither | left | right
deriving DecidableEq

inductive FolderCompareFailure where
  | duplicateName | emptyName | reservedName | negativeTolerance
deriving DecidableEq

structure FolderCompareItem where
  name : Bytes
  size : UInt64 := 0
  modificationTime : Int64 := 0
  isDirectory : Bool := false
deriving DecidableEq, Inhabited

structure FolderCompareOptions where
  compareSize : Bool := true
  compareModificationTime : Bool := true
  modificationTimeTolerance : Int64 := 0
deriving DecidableEq

structure FolderCompareEntry where
  name : Bytes
  status : FolderCompareStatus := .same
  newerSide : FolderCompareNewerSide := .neither
  leftIndex : Option Nat := none
  rightIndex : Option Nat := none
  isDirectory : Bool := false
deriving DecidableEq

structure FolderComparison where
  entries : List FolderCompareEntry
deriving DecidableEq

def FolderComparison.identical (comparison : FolderComparison) : Bool :=
  comparison.entries.all (·.status == .same)

/-! ## The comparison -/

/-- `.` and `..`. -/
def isReservedName (name : Bytes) : Bool := name == [46] || name == [46, 46]

/-- The map from the names to their positions. -/
abbrev ListingIndex := List (Bytes × Nat)

def indexFrom (index : ListingIndex) (position : Nat) :
    List FolderCompareItem → Except FolderCompareFailure ListingIndex
  | [] => .ok index
  | item :: rest =>
    if item.name = [] then .error .emptyName
    else if isReservedName item.name then .error .reservedName
    else if (index.lookup item.name).isSome then .error .duplicateName
    else indexFrom (index ++ [(item.name, position)]) (position + 1) rest

def indexListing (items : List FolderCompareItem) : Except FolderCompareFailure ListingIndex :=
  indexFrom [] 0 items

/-- The difference is taken in 64 bits without a sign. -/
def newerSide (leftTime rightTime tolerance : Int64) : FolderCompareNewerSide :=
  if leftTime = rightTime then .neither
  else
    let leftNewer := leftTime > rightTime
    let larger := (if leftNewer then leftTime else rightTime).toUInt64
    let smaller := (if leftNewer then rightTime else leftTime).toUInt64
    if larger - smaller ≤ tolerance.toUInt64 then .neither
    else if leftNewer then .left else .right

def compareFiles (left right : FolderCompareItem) (options : FolderCompareOptions)
    (newerSide : FolderCompareNewerSide) : FolderCompareStatus :=
  if options.compareSize ∧ left.size ≠ right.size then .changed
  else if options.compareModificationTime ∧ newerSide ≠ .neither then .changed
  else .same

/-- A name that both listings have. -/
def matchedEntry (options : FolderCompareOptions) (position rightPosition : Nat)
    (left right : FolderCompareItem) : FolderCompareEntry :=
  let entry : FolderCompareEntry :=
    { name := left.name, leftIndex := some position, rightIndex := some rightPosition }
  if left.isDirectory ≠ right.isDirectory then { entry with status := .conflict }
  else if left.isDirectory then { entry with status := .same, isDirectory := true }
  else
    let newerSide := newerSide left.modificationTime right.modificationTime
      options.modificationTimeTolerance
    { entry with newerSide, status := compareFiles left right options newerSide }

/-- The first loop's body. -/
def leftEntry (options : FolderCompareOptions) (rightIndex : ListingIndex)
    (right : List FolderCompareItem) (item : FolderCompareItem) (position : Nat) :
    FolderCompareEntry :=
  match rightIndex.lookup item.name with
  | none =>
    { name := item.name, status := .leftOnly, leftIndex := some position
      isDirectory := item.isDirectory }
  | some found => matchedEntry options position found item (right.getD found default)

/-- The second loop's body. -/
def rightEntry (leftIndex : ListingIndex) (item : FolderCompareItem) (position : Nat) :
    Option FolderCompareEntry :=
  if (leftIndex.lookup item.name).isSome then none
  else
    some { name := item.name, status := .rightOnly, rightIndex := some position
           isDirectory := item.isDirectory }

def compareFolders (left right : List FolderCompareItem) (options : FolderCompareOptions) :
    Except FolderCompareFailure FolderComparison :=
  if options.modificationTimeTolerance < 0 then .error .negativeTolerance
  else
    match indexListing left with
    | .error failure => .error failure
    | .ok leftIndex =>
      match indexListing right with
      | .error failure => .error failure
      | .ok rightIndex =>
        .ok ⟨(left.zipIdx.map fun (item, position) =>
            leftEntry options rightIndex right item position) ++
          right.zipIdx.filterMap fun (item, position) => rightEntry leftIndex item position⟩

/-! ## Listings -/

/-- What `IndexListing` accepts. -/
structure Listing (items : List FolderCompareItem) : Prop where
  named : ∀ item ∈ items, item.name ≠ []
  unreserved : ∀ item ∈ items, isReservedName item.name = false
  distinct : (items.map (·.name)).Nodup

instance (items : List FolderCompareItem) : Decidable (Listing items) :=
  decidable_of_iff ((∀ item ∈ items, item.name ≠ []) ∧
    (∀ item ∈ items, isReservedName item.name = false) ∧ (items.map (·.name)).Nodup)
    ⟨fun h => ⟨h.1, h.2.1, h.2.2⟩, fun h => ⟨h.named, h.unreserved, h.distinct⟩⟩

/-- The item of a name. -/
def itemOf (items : List FolderCompareItem) (name : Bytes) : Option FolderCompareItem :=
  items.find? (·.name == name)

/-- The position of a name. -/
def positionOf (items : List FolderCompareItem) (name : Bytes) : Option Nat :=
  items.findIdx? (·.name == name)

/-- The positions of a listing that starts at `position`. -/
def indexOf (position : Nat) (items : List FolderCompareItem) : ListingIndex :=
  (items.zipIdx position).map fun (item, position) => (item.name, position)

theorem lookup_append_single (index : ListingIndex) (name key : Bytes) (position : Nat) :
    ((index ++ [(name, position)]).lookup key).isSome =
      ((index.lookup key).isSome || key == name) := by
  induction index with
  | nil =>
    by_cases h : key == name <;> simp [lookup, h]
  | cons head index ih =>
    rw [cons_append, lookup_cons, lookup_cons]
    split
    · simp
    · exact ih

variable {item : FolderCompareItem} {items : List FolderCompareItem} {position : Nat} {name : Bytes}

theorem listing_cons : Listing (item :: items) ↔
      (item.name ≠ [] ∧ isReservedName item.name = false ∧ ∀ other ∈ items, other.name ≠ item.name) ∧
        Listing items := by
  have hdistinct : (∀ other ∈ items, other.name ≠ item.name) ↔ item.name ∉ items.map (·.name) := by
    simp [mem_map]
  constructor
  · rintro ⟨hnamed, hunreserved, hnodup⟩
    obtain ⟨hname, hnamed⟩ := forall_mem_cons.mp hnamed
    obtain ⟨hreserved, hunreserved⟩ := forall_mem_cons.mp hunreserved
    rw [map_cons, nodup_cons] at hnodup
    exact ⟨⟨hname, hreserved, hdistinct.mpr hnodup.1⟩, hnamed, hunreserved, hnodup.2⟩
  · rintro ⟨⟨hname, hreserved, hother⟩, hnamed, hunreserved, hnodup⟩
    refine ⟨forall_mem_cons.mpr ⟨hname, hnamed⟩, forall_mem_cons.mpr ⟨hreserved, hunreserved⟩, ?_⟩
    rw [map_cons, nodup_cons]
    exact ⟨hdistinct.mp hother, hnodup⟩

theorem indexFrom_ok_iff : indexFrom index position items = .ok result ↔
      Listing items ∧ (∀ item ∈ items, (index.lookup item.name).isSome = false) ∧
        result = index ++ indexOf position items := by
  induction items generalizing index position with
  | nil =>
    have hnil : Listing [] := by decide
    unfold indexFrom indexOf
    simp only [hnil, true_and, Except.ok.injEq, zipIdx_nil, map_nil, append_nil,
      not_mem_nil, false_implies, implies_true]
    exact eq_comm
  | cons item items ih =>
    have hindex : indexOf position (item :: items) =
        (item.name, position) :: indexOf (position + 1) items := rfl
    rw [listing_cons, forall_mem_cons, hindex, append_cons]
    unfold indexFrom
    by_cases hname : item.name = []
    · simp [hname]
    by_cases hreserved : isReservedName item.name
    · simp [hname, hreserved]
    by_cases hfound : (index.lookup item.name).isSome
    · simp [hname, hreserved, hfound]
    rw [if_neg hname, if_neg hreserved, if_neg hfound, ih]
    have hlookup : ∀ other : FolderCompareItem,
        ((index ++ [(item.name, position)]).lookup other.name).isSome = false ↔
          (index.lookup other.name).isSome = false ∧ other.name ≠ item.name := by
      intro other
      rw [lookup_append_single, Bool.or_eq_false_iff, beq_eq_false_iff_ne]
    simp only [hlookup, hname, eq_false_of_ne_true hreserved, eq_false_of_ne_true hfound, ne_eq,
      not_false_eq_true, true_and]
    constructor
    · rintro ⟨hitems, hothers, heq⟩
      exact ⟨⟨fun other h => (hothers other h).2, hitems⟩, fun other h => (hothers other h).1, heq⟩
    · rintro ⟨⟨hother, hitems⟩, hothers, heq⟩
      exact ⟨hitems, fun other h => ⟨hothers other h, hother other h⟩, heq⟩

theorem indexListing_ok_iff :
    indexListing items = .ok result ↔ Listing items ∧ result = indexOf 0 items := by
  unfold indexListing
  rw [indexFrom_ok_iff]
  simp

/-- The map finds the first item of a name. -/
theorem lookup_indexOf (position : Nat) (items : List FolderCompareItem) (name : Bytes) :
    (indexOf position items).lookup name = (positionOf items name).map (· + position) := by
  induction items generalizing position with
  | nil => rfl
  | cons item items ih =>
    have hindex : indexOf position (item :: items) =
        (item.name, position) :: indexOf (position + 1) items := rfl
    unfold positionOf
    rw [hindex, lookup_cons, List.findIdx?_cons]
    by_cases h : item.name = name
    · simp [h]
    · have h' : (name == item.name) = false := beq_eq_false_iff_ne.mpr (Ne.symm h)
      have h'' : (item.name == name) = false := beq_eq_false_iff_ne.mpr h
      rw [h', h'']
      simp only [ih, positionOf]
      cases items.findIdx? (·.name == name) with
      | none => rfl
      | some found =>
        simp only [Bool.false_eq_true, if_false, Option.map_some, Option.some.injEq]
        omega

theorem lookup_indexOf_zero (items : List FolderCompareItem) (name : Bytes) :
    (indexOf 0 items).lookup name = positionOf items name := by
  rw [lookup_indexOf]
  simp

theorem itemOf_name (h : itemOf items name = some item) : item.name = name := by
  have hname := List.find?_some h
  exact eq_of_beq hname

theorem itemOf_mem (h : itemOf items name = some item) : item ∈ items := List.mem_of_find?_eq_some h

theorem itemOf_eq_none_iff : itemOf items name = none ↔ name ∉ items.map (·.name) := by
  unfold itemOf
  simp [List.find?_eq_none, mem_map]

theorem isSome_positionOf (items : List FolderCompareItem) (name : Bytes) :
    (positionOf items name).isSome = (itemOf items name).isSome := by
  unfold positionOf itemOf
  rw [List.findIdx?_isSome, Bool.eq_iff_iff, List.find?_isSome, any_eq_true]

theorem getElem?_positionOf (h : positionOf items name = some found) :
    items[found]? = itemOf items name := by
  unfold positionOf at h
  rw [List.findIdx?_eq_some_iff_getElem] at h
  obtain ⟨hlt, hname, hbefore⟩ := h
  unfold itemOf
  rw [List.getElem?_eq_getElem hlt, eq_comm, List.find?_eq_some_iff_getElem]
  exact ⟨hname, found, hlt, rfl, fun j hj => by simpa using hbefore j hj⟩

theorem itemOf_eq_none_of_position (h : positionOf items name = none) :
    itemOf items name = none := by
  rw [← Option.not_isSome_iff_eq_none, ← isSome_positionOf, h]
  decide

theorem getD_positionOf (h : positionOf items name = some found) :
    itemOf items name = some (items.getD found default) := by
  have hsome : (itemOf items name).isSome := by
    rw [← isSome_positionOf, h]
    rfl
  rw [List.getD_eq_getElem?_getD, getElem?_positionOf h]
  exact (Option.some_get hsome).symm.trans (by rw [Option.get_eq_getD])

/-- In a listing every item is the one of its name. -/
theorem Listing.itemOf (h : Listing items) (hmem : item ∈ items) :
    itemOf items item.name = some item := by
  induction items with
  | nil => cases hmem
  | cons head items ih =>
    obtain ⟨⟨-, -, hother⟩, hitems⟩ := listing_cons.mp h
    unfold Compare.itemOf
    rcases mem_cons.mp hmem with rfl | hmem
    · simp
    · rw [List.find?_cons_of_neg (by simpa using (hother item hmem).symm)]
      exact ih hitems hmem

theorem Listing.positionOf (h : Listing items) (hget : items[position]? = some item) :
    positionOf items item.name = some position := by
  induction items generalizing position with
  | nil => cases hget
  | cons head items ih =>
    obtain ⟨⟨-, -, hother⟩, hitems⟩ := listing_cons.mp h
    unfold Compare.positionOf
    rw [List.findIdx?_cons]
    cases position with
    | zero =>
      cases hget
      simp
    | succ position =>
      have hne : (head.name == item.name) = false :=
        beq_eq_false_iff_ne.mpr (hother item (mem_of_getElem? hget)).symm
      rw [hne]
      have htail := ih hitems hget
      unfold Compare.positionOf at htail
      simp [htail]

/-! ## What the comparison is -/

/-- What is said of the two items of a name. -/
def judged (options : FolderCompareOptions) :
    Option FolderCompareItem → Option FolderCompareItem → FolderCompareEntry
  | some left, some right => matchedEntry options 0 0 left right
  | some left, none => { name := left.name, status := .leftOnly, isDirectory := left.isDirectory }
  | none, some right => { name := right.name, status := .rightOnly, isDirectory := right.isDirectory }
  | none, none => { name := [] }

def entryFor (options : FolderCompareOptions) (left right : List FolderCompareItem) (name : Bytes) :
    FolderCompareEntry :=
  { judged options (itemOf left name) (itemOf right name) with
    name, leftIndex := positionOf left name, rightIndex := positionOf right name }

/-- The names of the left listing, then those that only the right one has. -/
def unionNames (left right : List FolderCompareItem) : List Bytes :=
  left.map (·.name) ++ (right.map (·.name)).filter fun name => (itemOf left name).isNone

variable {left right : List FolderCompareItem} {options : FolderCompareOptions}

theorem leftEntry_eq (options : FolderCompareOptions) (hleft : Listing left)
    (hget : left[position]? = some item) : leftEntry options (indexOf 0 right) right item position =
      entryFor options left right item.name := by
  unfold leftEntry entryFor
  rw [lookup_indexOf_zero, hleft.positionOf hget, hleft.itemOf (mem_of_getElem? hget)]
  cases hfound : positionOf right item.name with
  | none =>
    rw [itemOf_eq_none_of_position hfound]
    rfl
  | some found =>
    rw [getD_positionOf hfound]
    unfold judged matchedEntry
    dsimp only
    split
    · rfl
    · split <;> rfl

theorem rightEntry_eq (options : FolderCompareOptions) (hright : Listing right)
    (hget : right[position]? = some item) : rightEntry (indexOf 0 left) item position =
      if (itemOf left item.name).isNone then some (entryFor options left right item.name)
      else none := by
  unfold rightEntry entryFor
  rw [lookup_indexOf_zero, isSome_positionOf]
  cases hitem : itemOf left item.name with
  | some found => rfl
  | none =>
    have hposition : positionOf left item.name = none := by
      rw [← Option.not_isSome_iff_eq_none, isSome_positionOf, hitem]
      decide
    rw [hposition, hright.positionOf hget, hright.itemOf (mem_of_getElem? hget)]
    rfl

theorem zipIdx_map_eq {f : α → Nat → β} {items : List α}
    (h : ∀ position item, items[position]? = some item → f item position = g item) :
    (items.zipIdx.map fun (item, position) => f item position) = items.map g := by
  refine ext_getElem? fun position => ?_
  simp only [List.getElem?_map, List.getElem?_zipIdx, Option.map_map]
  cases hget : items[position]? with
  | none => rfl
  | some item =>
    simp only [Option.map_some, Function.comp_apply, Nat.zero_add]
    rw [h position item hget]

theorem zipIdx_filterMap_eq {f : α → Nat → Option β} {items : List α}
    (h : ∀ position item, items[position]? = some item → f item position = g item) :
    (items.zipIdx.filterMap fun (item, position) => f item position) = items.filterMap g := by
  have hmap := congrArg (filterMap id) (zipIdx_map_eq h)
  rw [filterMap_map, filterMap_map] at hmap
  exact hmap

theorem filterMap_ite_some (p : α → Bool) (g : α → β) (items : List α) :
    (items.filterMap fun item => if p item then some (g item) else none) = (items.filter p).map g := by
  induction items with
  | nil => rfl
  | cons item items ih =>
    by_cases h : p item
    · rw [filterMap_cons_some (by rw [if_pos h]), filter_cons_of_pos h, ih, map_cons]
    · rw [filterMap_cons_none (by rw [if_neg h]), filter_cons_of_neg h, ih]

/-- Of two listings the comparison has one entry for each name. -/
theorem compareFolders_ok_iff : compareFolders left right options = .ok comparison ↔
      ¬options.modificationTimeTolerance < 0 ∧ Listing left ∧ Listing right ∧
        comparison.entries = (unionNames left right).map (entryFor options left right) := by
  unfold compareFolders
  by_cases htolerance : options.modificationTimeTolerance < 0
  · simp [htolerance]
  rw [if_neg htolerance]
  cases hleft : indexListing left with
  | error failure =>
    have hnot : ¬Listing left := fun h => by
      rw [indexListing_ok_iff.mpr ⟨h, rfl⟩] at hleft
      cases hleft
    simp [hnot]
  | ok leftIndex =>
    obtain ⟨hlisting, rfl⟩ := indexListing_ok_iff.mp hleft
    cases hright : indexListing right with
    | error failure =>
      have hnot : ¬Listing right := fun h => by
        rw [indexListing_ok_iff.mpr ⟨h, rfl⟩] at hright
        cases hright
      simp [hnot]
    | ok rightIndex =>
      obtain ⟨hlisting', rfl⟩ := indexListing_ok_iff.mp hright
      have hentries : (left.zipIdx.map fun (item, position) =>
            leftEntry options (indexOf 0 right) right item position) ++
          (right.zipIdx.filterMap fun (item, position) =>
            rightEntry (indexOf 0 left) item position) =
          (unionNames left right).map (entryFor options left right) := by
        have hlefts : ∀ position item, left[position]? = some item →
            leftEntry options (indexOf 0 right) right item position =
              entryFor options left right item.name :=
          fun _ _ hget => leftEntry_eq options hlisting hget
        have hrights : ∀ position item, right[position]? = some item →
            rightEntry (indexOf 0 left) item position =
              if (itemOf left item.name).isNone then some (entryFor options left right item.name)
              else none :=
          fun _ _ hget => rightEntry_eq options hlisting' hget
        rw [zipIdx_map_eq hlefts, zipIdx_filterMap_eq hrights,
          filterMap_ite_some fun item : FolderCompareItem => (itemOf left item.name).isNone]
        unfold unionNames
        rw [map_append, filter_map, map_map, map_map]
        rfl
      dsimp only
      rw [hentries]
      simp only [htolerance, hlisting, hlisting', not_false_eq_true, true_and, Except.ok.injEq]
      constructor
      · rintro rfl
        rfl
      · intro h
        rw [← h]

theorem mem_unionNames :
    name ∈ unionNames left right ↔ itemOf left name ≠ none ∨ itemOf right name ≠ none := by
  have hmem : ∀ items : List FolderCompareItem,
      name ∈ items.map (·.name) ↔ itemOf items name ≠ none := fun items => by
    rw [ne_eq, itemOf_eq_none_iff, not_not]
  unfold unionNames
  rw [mem_append, mem_filter, hmem, hmem]
  cases itemOf left name <;> simp

theorem nodup_unionNames (hleft : Listing left) (hright : Listing right) :
    (unionNames left right).Nodup := by
  refine Nodup.append hleft.distinct (hright.distinct.filter _) ?_
  intro name hname hfilter
  have hnone := (mem_filter.mp hfilter).2
  rw [Option.isNone_iff_eq_none, itemOf_eq_none_iff] at hnone
  exact hnone hname

@[simp] theorem entryFor_name (options : FolderCompareOptions) (left right : List FolderCompareItem)
    (name : Bytes) : (entryFor options left right name).name = name := rfl

/-! ## Equal files -/

/-- Neither time is later by more than the tolerance, whatever their signs are. -/
theorem newerSide_eq_neither_iff (h : ¬tolerance < 0) :
    newerSide leftTime rightTime tolerance = .neither ↔
      leftTime.toInt - rightTime.toInt ≤ tolerance.toInt ∧
        rightTime.toInt - leftTime.toInt ≤ tolerance.toInt := by
  have hcond : ∀ x : Int64, x.toInt = if 2 * x.toUInt64.toNat < 2 ^ 64 then (x.toUInt64.toNat : Int)
      else (x.toUInt64.toNat : Int) - 2 ^ 64 := by
    intro x
    exact BitVec.toInt_eq_toNat_cond x.toBitVec
  have hl := hcond leftTime
  have hr := hcond rightTime
  have ht := hcond tolerance
  have hltl := leftTime.toUInt64.toNat_lt
  have hltr := rightTime.toUInt64.toNat_lt
  have hltt := tolerance.toUInt64.toNat_lt
  rw [Int64.lt_iff_toInt_lt] at h
  have h0 : (0 : Int64).toInt = 0 := rfl
  rw [h0] at h
  unfold newerSide
  by_cases heq : leftTime = rightTime
  · subst heq
    simp
    omega
  · have hne : leftTime.toInt ≠ rightTime.toInt := fun hi => heq (Int64.toInt_inj.mp hi)
    rw [if_neg heq]
    dsimp only
    by_cases hgt : leftTime > rightTime
    · have hgt' : rightTime.toInt < leftTime.toInt := Int64.lt_iff_toInt_lt.mp hgt
      simp only [UInt64.le_iff_toNat_le, UInt64.toNat_sub]
      split
      · simp; omega
      · simp; omega
    · have hlt' : leftTime.toInt < rightTime.toInt := by
        rw [gt_iff_lt, Int64.lt_iff_toInt_lt] at hgt
        omega
      rw [if_neg hgt, if_neg hgt]
      simp only [UInt64.le_iff_toNat_le, UInt64.toNat_sub]
      split
      · simp; omega
      · simp; omega
/-- Two files that are equal under the criteria. -/
def FilesEqual (options : FolderCompareOptions) (left right : FolderCompareItem) : Prop :=
  (options.compareSize = true → left.size = right.size) ∧ (options.compareModificationTime = true →
      left.modificationTime.toInt - right.modificationTime.toInt ≤
          options.modificationTimeTolerance.toInt ∧
        right.modificationTime.toInt - left.modificationTime.toInt ≤
          options.modificationTimeTolerance.toInt)

/-- What two listings have to have of a name for the level to be equal. -/
def Agree (options : FolderCompareOptions) :
    Option FolderCompareItem → Option FolderCompareItem → Prop
  | some left, some right =>
    left.isDirectory = right.isDirectory ∧ (left.isDirectory = false → FilesEqual options left right)
  | none, none => True
  | _, _ => False

theorem compareFiles_eq_same_iff (htolerance : ¬options.modificationTimeTolerance < 0)
    (left right : FolderCompareItem) :
    compareFiles left right options (newerSide left.modificationTime right.modificationTime
      options.modificationTimeTolerance) = .same ↔ FilesEqual options left right := by
  unfold compareFiles FilesEqual
  rw [← newerSide_eq_neither_iff htolerance]
  grind

/-- At one level a name is `Same` when the two listings agree on it. -/
theorem judged_same_iff (htolerance : ¬options.modificationTimeTolerance < 0)
    (left right : Option FolderCompareItem) :
    (judged options left right).status = .same ↔ Agree options left right := by
  cases left with
  | none => cases right <;> simp [judged, Agree]
  | some left =>
    cases right with
    | none => simp [judged, Agree]
    | some right =>
      have hfiles := compareFiles_eq_same_iff htolerance left right
      unfold judged matchedEntry Agree
      grind

/-! ## Exchanged sides -/

def FolderCompareNewerSide.swap : FolderCompareNewerSide → FolderCompareNewerSide
  | .neither => .neither
  | .left => .right
  | .right => .left

def FolderCompareStatus.swap : FolderCompareStatus → FolderCompareStatus
  | .leftOnly => .rightOnly
  | .rightOnly => .leftOnly
  | status => status

def FolderCompareEntry.swap (entry : FolderCompareEntry) : FolderCompareEntry :=
  { entry with
    status := entry.status.swap, newerSide := entry.newerSide.swap
    leftIndex := entry.rightIndex, rightIndex := entry.leftIndex }

theorem newerSide_swap (leftTime rightTime tolerance : Int64) :
    newerSide rightTime leftTime tolerance = (newerSide leftTime rightTime tolerance).swap := by
  unfold newerSide
  by_cases heq : leftTime = rightTime
  · rw [if_pos heq, if_pos heq.symm]
    rfl
  rw [if_neg heq, if_neg (Ne.symm heq)]
  have hflip : (rightTime > leftTime) = ¬(leftTime > rightTime) := by
    rw [gt_iff_lt, gt_iff_lt, Int64.not_lt, Int64.lt_iff_le_and_ne]
    simp [heq]
  by_cases hlt : leftTime > rightTime
  · simp only [hflip, hlt, not_true_eq_false, if_true, if_false]
    split <;> rfl
  · simp only [hflip, hlt, not_false_eq_true, if_true, if_false]
    split <;> rfl

theorem compareFiles_swap (left right : FolderCompareItem) (options : FolderCompareOptions)
    (newerSide : FolderCompareNewerSide) :
    compareFiles right left options newerSide.swap = compareFiles left right options newerSide := by
  have hside : (newerSide.swap ≠ .neither) = (newerSide ≠ .neither) := by
    cases newerSide <;> simp [FolderCompareNewerSide.swap]
  unfold compareFiles
  simp [ne_comm (a := right.size), hside]

theorem judged_swap (options : FolderCompareOptions) (left right : Option FolderCompareItem)
    (hname : ∀ l ∈ left, ∀ r ∈ right, l.name = r.name) :
    judged options right left = (judged options left right).swap := by
  cases left with
  | none => cases right <;> rfl
  | some left =>
    cases right with
    | none => rfl
    | some right =>
      have heq := hname left rfl right rfl
      unfold judged matchedEntry FolderCompareEntry.swap
      dsimp only
      by_cases hkind : left.isDirectory = right.isDirectory
      · have hkinds : ¬left.isDirectory ≠ right.isDirectory := not_not.mpr hkind
        have hkinds' : ¬right.isDirectory ≠ left.isDirectory := not_not.mpr hkind.symm
        rw [if_neg hkinds, if_neg hkinds', hkind]
        by_cases hdirectory : right.isDirectory
        · rw [if_pos hdirectory, if_pos hdirectory, heq]
          rfl
        · have hstatus : ∀ side, (compareFiles left right options side).swap =
              compareFiles left right options side := by
            intro side
            unfold compareFiles
            split
            · rfl
            · split <;> rfl
          rw [if_neg hdirectory, if_neg hdirectory, newerSide_swap, compareFiles_swap, heq]
          rw [hstatus]
      · rw [if_pos hkind, if_pos (Ne.symm hkind), heq]
        rfl

theorem entryFor_swap (options : FolderCompareOptions) (left right : List FolderCompareItem)
    (name : Bytes) : entryFor options right left name = (entryFor options left right name).swap := by
  have hname : ∀ l ∈ itemOf left name, ∀ r ∈ itemOf right name, l.name = r.name := by
    intro l hl r hr
    rw [itemOf_name hl, itemOf_name hr]
  unfold entryFor
  rw [judged_swap options _ _ hname]
  rfl

theorem unionNames_perm (hleft : Listing left) (hright : Listing right) :
    (unionNames right left).Perm (unionNames left right) := by
  refine (perm_ext_iff_of_nodup (nodup_unionNames hright hleft)
    (nodup_unionNames hleft hright)).mpr fun name => ?_
  rw [mem_unionNames, mem_unionNames]
  exact or_comm

end WinCommander.Compare
