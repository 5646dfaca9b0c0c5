/-
  Listings composed of items of other listings (`Listing::Compose`), and the columns of a listing
  as `Listing::Build` stores them.

  An item is the row of its columns (`ListingInput.row`); whether it has an attribute and the value
  of the attribute are read off there. Both forms of `Compose` go through `copyItem` for each item,
  but the one that takes indices leaves out the tags (`compose_iff`).
-/
import WinCommander.Library.Path
import WinCommander.Utility.TagColors

namespace WinCommander.VFS.Composing

open Library List AList
open Library.Path (slash)

/-! ## Columns -/

inductive VariableContainer (α : Type) where
  | dense (elements : List α)
  | sparse (elements : AList fun _ : Nat => α)
  | common (value : α)

namespace VariableContainer

variable {α : Type} {c : VariableContainer α} {i k n : Nat} {value : α}

/-- `has` and `operator[]`. -/
def get? : VariableContainer α → Nat → Option α
  | .dense elements, i => elements[i]?
  | .sparse elements, i => elements.lookup i
  | .common value, _ => some value

def size : VariableContainer α → Nat
  | .dense elements => elements.length
  | .sparse elements => elements.keys.length
  | .common _ => 1

def isSparse : VariableContainer α → Bool
  | .sparse _ => true
  | _ => false

def isCommon : VariableContainer α → Bool
  | .common _ => true
  | _ => false

/-- Dense, and of this many elements. -/
def isDense (n : Nat) : VariableContainer α → Bool
  | .dense elements => elements.length == n
  | _ => false

def insert [Inhabited α] (i : Nat) (value : α) : VariableContainer α → VariableContainer α
  | .dense elements =>
    .dense ((elements ++ List.replicate (i + 1 - elements.length) default).set i value)
  | .sparse elements => .sparse (elements.insert i value)
  | .common _ => .common value

/-- The insertion of an attribute that an item may lack. -/
def insertIf [Inhabited α] (i : Nat) (value : Option α) (c : VariableContainer α) :
    VariableContainer α :=
  match value with
  | some value => c.insert i value
  | none => c

def isContiguous (c : VariableContainer α) : Bool :=
  (List.range c.size).all fun i => (c.get? i).isSome

/-- `CompressIntoContiguous`. -/
def compress [Inhabited α] (c : VariableContainer α) : VariableContainer α :=
  if c.isSparse && c.isContiguous then
    .dense ((List.range c.size).map fun i => (c.get? i).getD default)
  else
    c

theorem get?_insert [Inhabited α] (h : c.isDense n) :
    (∀ k, (c.insert n value).get? k = if k = n then some value else c.get? k) ∧
      (c.insert n value).isDense (n + 1) := by
  cases c with
  | dense elements =>
    obtain rfl : elements.length = n := by simpa [isDense] using h
    have hone : elements.length + 1 - elements.length = 1 := by omega
    simp only [insert, get?, isDense, hone, replicate_one, List.getElem?_set]
    refine ⟨fun k => ?_, by simp⟩
    by_cases hk : k = elements.length
    · simp [hk]
    · by_cases hlt : k < elements.length
      · simp [hk, Ne.symm hk, List.getElem?_append, hlt]
      · have hpast : elements.length < k := by omega
        simp [hk, Ne.symm hk, Nat.le_of_not_lt hlt, hpast]
  | _ => simp [isDense] at h

theorem get?_insertIf [Inhabited α] {value : Option α} (h : c.isSparse) (hnone : c.get? n = none) :
    (∀ k, (c.insertIf n value).get? k = if k = n then value else c.get? k) ∧
      (c.insertIf n value).isSparse := by
  cases c with
  | sparse elements =>
    cases value with
    | none =>
      refine ⟨fun k => ?_, rfl⟩
      split
      · rename_i hk
        exact hk ▸ hnone
      · rfl
    | some value =>
      refine ⟨fun k => ?_, rfl⟩
      by_cases hk : k = n
      · subst hk
        simp [insertIf, insert, get?]
      · simp [insertIf, insert, get?, hk, lookup_insert_ne hk]
  | _ => simp [isSparse] at h

/-- The keys of a sparse column without gaps are the places before its end. -/
theorem get?_compress [Inhabited α] (c : VariableContainer α) (i : Nat) :
    c.compress.get? i = c.get? i := by
  unfold compress
  split
  · rename_i h
    cases c with
    | sparse elements =>
      have hsome : ∀ i < elements.keys.length,
          ((sparse elements).get? i).isSome := by
        simpa [isSparse, isContiguous, size] using h
      have hsub : range elements.keys.length ⊆ elements.keys := by
        intro i hi
        have hkey : i ∈ elements := lookup_isSome.mp (hsome i (mem_range.mp hi))
        exact mem_keys.mp hkey
      have hnodup : (range elements.keys.length).Nodup := nodup_range
      have hperm : (range elements.keys.length).Perm elements.keys :=
        (subperm_of_subset hnodup hsub).perm_of_length_le (by simp)
      by_cases hi : i < elements.keys.length
      · obtain ⟨value, hvalue⟩ := Option.isSome_iff_exists.mp (hsome i hi)
        have hlookup : elements.lookup i = some value := hvalue
        simp [get?, size, List.getElem?_range hi, hlookup]
      · have hnone : elements.lookup i = none := by
          rw [lookup_eq_none]
          intro hkey
          exact hi (mem_range.mp (hperm.mem_iff.mpr (mem_keys.mp hkey)))
        simp [get?, size, hi, hnone]
    | _ => simp [isSparse] at h
  · rfl

/-- Some element is bad, as the loops of `Validate` look for one. -/
def anyElement (bad : α → Bool) (c : VariableContainer α) : Bool :=
  (List.range c.size).any fun i => (c.get? i).any bad

def isInconsistent (n : Nat) : VariableContainer α → Bool
  | .dense elements => elements.length != n
  | _ => false

theorem get?_of_checked (hsparse : c.isSparse = false) (hbad : c.anyElement bad = false)
    (hlength : c.isInconsistent n = false) (hi : i < n) :
    ∃ value, c.get? i = some value ∧ bad value = false := by
  simp only [anyElement, any_eq_false, mem_range, Bool.not_eq_true] at hbad
  cases c with
  | dense elements =>
    obtain rfl : elements.length = n := by simpa [isInconsistent] using hlength
    have hget : elements[i]? = some elements[i] := List.getElem?_eq_getElem hi
    exact ⟨elements[i], hget, by simpa [get?, hget] using hbad i hi⟩
  | sparse elements => simp [isSparse] at hsparse
  | common value => exact ⟨value, rfl, by simpa [get?] using hbad 0 (by simp [size])⟩

theorem checked_of_dense (bad : α → Bool) (h : c.isDense n)
    (hbad : ∀ i < n, (c.get? i).any bad = false) :
    c.isSparse = false ∧ c.anyElement bad = false ∧ c.isInconsistent n = false := by
  cases c with
  | dense elements =>
    obtain rfl : elements.length = n := by simpa [isDense] using h
    refine ⟨rfl, ?_, by simp [isInconsistent]⟩
    simpa [anyElement, size] using hbad
  | _ => simp [isDense] at h

theorem isCommon_of_sparse (h : c.isSparse) : c.isCommon = false := by
  cases c <;> simp_all [isSparse, isCommon]

end VariableContainer

open VariableContainer

/-! ## Items -/

/-- The attributes that an item may lack. -/
inductive Attribute where
  | displayFilenames
  | sizes
  | inodes
  | atimes
  | mtimes
  | ctimes
  | btimes
  | addTimes
  | uids
  | gids
  | unixFlags
  | symlinks

namespace Attribute

abbrev Value : Attribute → Type
  | displayFilenames | symlinks => Bytes
  | sizes | inodes => UInt64
  | atimes | mtimes | ctimes | btimes | addTimes => Int
  | uids | gids | unixFlags => UInt32

instance : (a : Attribute) → Inhabited a.Value
  | displayFilenames | symlinks => inferInstanceAs (Inhabited Bytes)
  | sizes | inodes => inferInstanceAs (Inhabited UInt64)
  | atimes | mtimes | ctimes | btimes | addTimes => inferInstanceAs (Inhabited Int)
  | uids | gids | unixFlags => inferInstanceAs (Inhabited UInt32)

/-- Whether `Compress` makes the column dense where it can. -/
def compressed : Attribute → Bool
  | displayFilenames | symlinks => false
  | _ => true

end Attribute

/-- The title is left out; hosts are numbered, and `none` is `nullptr`. -/
structure ListingInput where
  hosts : VariableContainer (Option Nat)
  directories : VariableContainer Bytes
  filenames : List Bytes
  columns : (a : Attribute) → VariableContainer a.Value
  unixModes : List UInt16
  unixTypes : List UInt8
  tags : AList fun _ : Nat => List Utility.Tag

/-- The answers of the accessors for an item: what each `Has..` says and, where there is a value,
the value. -/
@[ext] structure Row where
  filename : Bytes
  unixMode : UInt16
  unixType : UInt8
  host : Option Nat
  directory : Bytes
  cells : (a : Attribute) → Option a.Value
  tags : Option (List Utility.Tag)

/-- What lies behind the last item. -/
def Row.absent : Row := ⟨[], 0, 0, none, [], fun _ => none, none⟩

def basicDirectoryCheck (str : Bytes) : Bool := str.getLast? == some slash

namespace ListingInput

def count (input : ListingInput) : Nat := input.filenames.length

def row (input : ListingInput) (i : Nat) : Row where
  filename := input.filenames.getD i []
  unixMode := input.unixModes.getD i 0
  unixType := input.unixTypes.getD i 0
  host := (input.hosts.get? i).getD none
  directory := (input.directories.get? i).getD []
  cells a := (input.columns a).get? i
  tags := input.tags.lookup i

def rows (input : ListingInput) : List Row := (List.range input.count).map input.row

/-- The checks of `Validate` in their order, each with its text. -/
def checks (source : ListingInput) : List (Bool × String) :=
  [(source.hosts.isSparse, "hosts can't be sparse"),
  (source.hosts.anyElement Option.isNone, "host can't be nullptr"),
  (source.directories.isSparse, "directories can't be sparse"),
  (source.directories.anyElement (!basicDirectoryCheck ·), "invalid directory"),
  (source.filenames.any List.isEmpty, "filename can't be empty"),
  ((source.columns .displayFilenames).isCommon && decide (1 < source.count),
    "dispay_filenames can't be common"),
  ((source.columns .sizes).isCommon && decide (1 < source.count), "sizes can't be common"),
  ((source.columns .inodes).isCommon && decide (1 < source.count), "inodes can't be common"),
  ((source.columns .symlinks).isCommon && decide (1 < source.count), "symlinks can't be common"),
  (source.hosts.isInconsistent source.count, "hosts amount is inconsistent"),
  (source.directories.isInconsistent source.count, "directories amount is inconsistent"),
  (source.unixModes.length != source.count, "unix_modes amount is inconsistent"),
  (source.unixTypes.length != source.count, "unix_types amount is inconsistent")]

/-- The text of the exception, if one is thrown. -/
def validate (source : ListingInput) : Option String :=
  (source.checks.find? (·.1)).map fun check => "VFSListingInput validation failed: " ++ check.2

def compressHosts : VariableContainer (Option Nat) → VariableContainer (Option Nat)
  | .dense (first :: rest) =>
    if rest.all (· == first) then .common first else .dense (first :: rest)
  | hosts => hosts

/-- `Compress`. -/
def compress (input : ListingInput) : ListingInput :=
  { input with
    columns a := if a.compressed then (input.columns a).compress else input.columns a
    hosts := compressHosts input.hosts }

theorem validate_eq_none {source : ListingInput} :
    source.validate = none ↔ ∀ check ∈ source.checks, check.1 = false := by
  simp [validate]

/-- Where an item has a host at all, it keeps it. -/
theorem get?_compressHosts {hosts : VariableContainer (Option Nat)}
    (h : (hosts.get? i).isSome) : (compressHosts hosts).get? i = hosts.get? i := by
  unfold compressHosts
  split
  · rename_i first rest
    split
    · rename_i hall
      obtain ⟨host, hhost⟩ := Option.isSome_iff_exists.mp h
      have hmem : host ∈ first :: rest := mem_of_getElem? hhost
      have hfirst : host = first := by
        rcases mem_cons.mp hmem with heq | hrest
        · exact heq
        · simpa using all_eq_true.mp hall host hrest
      exact (hhost.trans (congrArg some hfirst)).symm
    · rfl
  · rfl

end ListingInput

/-- What `Validate` promises of an item. -/
structure Row.Valid (item : Row) : Prop where
  filename : item.filename ≠ []
  host : item.host ≠ none
  directory : basicDirectoryCheck item.directory = true

namespace ListingInput

theorem items_compress {input : ListingInput} (h : input.validate = none) (hi : i < input.count)
    : (input.row i).Valid ∧ input.compress.row i = input.row i := by
  have hchecks := validate_eq_none.mp h
  simp only [checks, forall_mem_cons] at hchecks
  obtain ⟨hsparse, hnull, hsparse', hinvalid, hempty, -, -, -, -, hamount, hamount', -⟩ := hchecks
  obtain ⟨host, hhost, hhost'⟩ := get?_of_checked hsparse hnull hamount hi
  obtain ⟨directory, hdirectory, hdirectory'⟩ := get?_of_checked hsparse' hinvalid hamount' hi
  have hsome : (input.hosts.get? i).isSome := by simp [hhost]
  constructor
  · constructor
    · have hget : input.filenames[i]? = some input.filenames[i] := List.getElem?_eq_getElem hi
      have hmem := any_eq_false.mp hempty _ (getElem_mem hi)
      simpa [row, hget] using hmem
    · simpa [row, hhost, ← Option.isSome_iff_ne_none] using hhost'
    · simpa [row, hdirectory] using hdirectory'
  · have hcells : ∀ a : Attribute, (input.compress.columns a).get? i = (input.columns a).get? i := by
      intro a
      simp only [compress]
      split
      · exact get?_compress _ _
      · rfl
    simp only [row, hcells]
    simp [compress, get?_compressHosts hsome]

end ListingInput

/-- The creation time is left out. -/
structure Listing where
  columns : ListingInput
  valid : ∀ i < columns.count, (columns.row i).Valid

namespace Listing

def count (listing : Listing) : Nat := listing.columns.count

def rows (listing : Listing) : List Row := listing.columns.rows

def build (input : ListingInput) : Except String Listing :=
  match h : input.validate with
  | some message => .error message
  | none => .ok ⟨input.compress, fun _ hi =>
    (ListingInput.items_compress h hi).2 ▸ (ListingInput.items_compress h hi).1⟩

/-- No accessor answers otherwise after the compression. -/
theorem rows_build {input : ListingInput} (h : build input = .ok listing) :
    listing.rows = input.rows := by
  unfold build at h
  split at h
  · cases h
  · rename_i hvalid
    cases h
    refine map_congr_left fun i hi => ?_
    exact (ListingInput.items_compress hvalid (mem_range.mp hi)).2

theorem build_ok {input : ListingInput} (h : input.validate = none) :
    ∃ listing, build input = .ok listing := by
  unfold build
  split
  · rename_i message hmessage
    rw [h] at hmessage
    cases hmessage
  · exact ⟨_, rfl⟩

end Listing

/-! ## Composing -/

namespace ListingInput

def empty : ListingInput := ⟨.dense [], .dense [], [], fun _ => .sparse ∅, [], [], ∅⟩

/-- The body of the loops, behind the items so far. The tags are copied by one of the loops only. -/
def copyItem (tagged : Bool) (result : ListingInput) (item : Row) : ListingInput where
  filenames := result.filenames ++ [item.filename]
  unixModes := result.unixModes ++ [item.unixMode]
  unixTypes := result.unixTypes ++ [item.unixType]
  hosts := result.hosts.insert result.count item.host
  directories := result.directories.insert result.count item.directory
  columns a := (result.columns a).insertIf result.count (item.cells a)
  tags :=
    match tagged, item.tags with
    | true, some tags => result.tags.insert result.count tags
    | _, _ => result.tags

end ListingInput

/-- `Compose`, of all items. -/
def composeAll (listings : List Listing) : ListingInput :=
  listings.foldl (fun result listing =>
    (List.range listing.count).foldl (fun result i =>
      result.copyItem true (listing.columns.row i)) result) .empty

def copyIndex (listing : Listing) (result : ListingInput) (i : Nat) : Except String ListingInput :=
  if listing.count ≤ i then
    .error "VFSListing::Compose: invalid index"
  else
    .ok (result.copyItem false (listing.columns.row i))

/-- `Compose`, of the items of these indices. -/
def compose (listings : List Listing) (itemsIndeces : List (List Nat)) :
    Except String ListingInput :=
  if listings.length ≠ itemsIndeces.length then
    .error "VFSListing::Compose input containers has different sizes"
  else
    (listings.zip itemsIndeces).foldlM (fun result pair =>
      pair.2.foldlM (copyIndex pair.1) result) .empty

/-- The items that the indices select, in order. -/
def selected (listings : List Listing) (itemsIndeces : List (List Nat)) : List Row :=
  (listings.zip itemsIndeces).flatMap fun pair => pair.2.map pair.1.columns.row

/-- What arrives of an item. -/
def Row.kept (tagged : Bool) (item : Row) : Row :=
  if tagged then item else { item with tags := none }

theorem Row.kept_eq_iff {item : Row} : item.kept tagged = item ↔ tagged ∨ item.tags = none := by
  cases tagged
  · simp only [Row.kept, Bool.false_eq_true, if_false, false_or]
    constructor
    · intro h
      exact (congrArg Row.tags h).symm
    · intro h
      rw [← h]
  · simp [Row.kept]

/-- The columns hold the items, each in its row. -/
structure Composed (result : ListingInput) (items : List Row) : Prop where
  hosts : result.hosts.isDense items.length = true
  directories : result.directories.isDense items.length = true
  sparse : ∀ a, (result.columns a).isSparse = true
  count : result.count = items.length
  unixModes : result.unixModes.length = items.length
  unixTypes : result.unixTypes.length = items.length
  row : ∀ k, result.row k = items.getD k .absent

namespace Composed

variable {result : ListingInput} {items : List Row} {item : Row} {tagged : Bool}

theorem getElem?_concat (l : List α) (x : α) (k : Nat) :
    (l ++ [x])[k]? = if k = l.length then some x else l[k]? := by
  rcases Nat.lt_trichotomy k l.length with hlt | rfl | hgt
  · simp [List.getElem?_append, hlt, Nat.ne_of_lt hlt]
  · simp
  · have hpast : ¬k < l.length := by omega
    have hbehind : k - l.length ≠ 0 := by omega
    simp [List.getElem?_append, hpast, Nat.ne_of_gt hgt, hbehind]

/-- One turn of the loop. -/
theorem copyItem (h : Composed result items) (item : Row) :
    Composed (result.copyItem tagged item) (items ++ [item.kept tagged]) := by
  obtain ⟨hhosts, hdirectories, hsparse, hcount, hmodes, htypes, hrow⟩ := h
  rw [← hcount] at hhosts hdirectories hmodes htypes
  have habsent : result.row result.count = .absent := by
    rw [hrow, hcount]
    simp
  simp only [Row.ext_iff, ListingInput.row, Row.absent, funext_iff] at habsent
  obtain ⟨-, -, -, -, -, hcell, htags⟩ := habsent
  have hlength : (items ++ [item.kept tagged]).length = result.count + 1 := by simp [hcount]
  refine ⟨hlength ▸ (get?_insert hhosts).2, hlength ▸ (get?_insert hdirectories).2, ?_, ?_, ?_, ?_,
    fun k => ?_⟩
  · exact fun a => (get?_insertIf (hsparse a) (hcell a)).2
  · simp [ListingInput.count, ListingInput.copyItem, hlength]
  · simp [ListingInput.copyItem, hlength, hmodes]
  · simp [ListingInput.copyItem, hlength, htypes]
  · have hnames : result.filenames.length = result.count := rfl
    have hcells := hrow k
    simp only [List.getD_eq_getElem?_getD, getElem?_concat, ← hcount] at hcells ⊢
    simp only [ListingInput.row, ListingInput.copyItem, List.getD_eq_getElem?_getD,
      getElem?_concat, hnames, hmodes, htypes, (get?_insert hhosts).1,
      (get?_insert hdirectories).1, (get?_insertIf (hsparse _) (hcell _)).1]
    by_cases hk : k = result.count
    · subst hk
      cases tagged <;> cases htag : item.tags <;> simp [Row.ext_iff, Row.kept, htag, htags]
    · simp only [if_neg hk, ← hcells]
      cases tagged <;> cases htag : item.tags <;>
        simp [ListingInput.row, lookup_insert_ne hk]

theorem empty : Composed .empty [] := by
  constructor <;> first | rfl | exact fun _ => rfl

section
variable (h : Composed result items)
include h

theorem foldl (more : List Row) : Composed (more.foldl (ListingInput.copyItem tagged) result)
      (items ++ more.map (Row.kept tagged)) := by
  induction more generalizing result items with
  | nil => simpa using h
  | cons item more ih => simpa using ih (h.copyItem item)

theorem rows_eq : result.rows = items := by
  refine ext_getElem? fun k => ?_
  by_cases hk : k < items.length
  · simp [ListingInput.rows, h.count, h.row, hk]
  · simp [ListingInput.rows, h.count, hk]

theorem build_ok (hvalid : ∀ item ∈ items, item.Valid) :
    ∃ listing, Listing.build result = .ok listing ∧ listing.rows = items := by
  have hrow : ∀ i < items.length, (result.row i).Valid := by
    intro i hi
    rw [h.row]
    simpa [hi] using hvalid _ (getElem_mem hi)
  have hhosts := checked_of_dense Option.isNone h.hosts fun i hi => by
    have hhost := (hrow i hi).host
    rcases hget : result.hosts.get? i with - | (- | host)
    · rfl
    · simp [ListingInput.row, hget] at hhost
    · rfl
  have hdirectories := checked_of_dense (!basicDirectoryCheck ·) h.directories
    fun i hi => by
      have hdirectory := (hrow i hi).directory
      cases hget : result.directories.get? i with
      | none => rfl
      | some directory => simpa [ListingInput.row, hget] using hdirectory
  have hnames : ∀ name ∈ result.filenames, name ≠ [] := by
    intro name hname
    obtain ⟨i, hi, rfl⟩ := getElem_of_mem hname
    have hlt : i < items.length := h.count ▸ hi
    simpa [ListingInput.row, hi] using (hrow i hlt).filename
  have hcommon := fun a => isCommon_of_sparse (h.sparse a)
  have hchecks : result.validate = none := by
    rw [ListingInput.validate_eq_none]
    simpa [ListingInput.checks, h.count, hhosts, hdirectories, h.unixModes, h.unixTypes,
      hcommon] using hnames
  obtain ⟨listing, hlisting⟩ := Listing.build_ok hchecks
  exact ⟨listing, hlisting, (Listing.rows_build hlisting).trans h.rows_eq⟩

end

end Composed

theorem composeAll_composed (listings : List Listing) :
    Composed (composeAll listings) (listings.flatMap Listing.rows) := by
  have hfold : composeAll listings =
      (listings.flatMap Listing.rows).foldl (ListingInput.copyItem true) .empty := by
    simp [composeAll, foldl_flatMap, Listing.rows, ListingInput.rows, foldl_map, Listing.count]
  have hkept : (listings.flatMap Listing.rows).map (Row.kept true) =
      listings.flatMap Listing.rows := map_id _
  have h : Composed (composeAll listings) _ := hfold ▸ Composed.empty.foldl _
  rwa [hkept, nil_append] at h

theorem copyIndex_foldlM {indeces : List Nat} (h : ∀ i ∈ indeces, i < listing.count)
    (result : ListingInput) : indeces.foldlM (copyIndex listing) result =
      .ok ((indeces.map listing.columns.row).foldl (ListingInput.copyItem false) result) := by
  induction indeces generalizing result with
  | nil => rfl
  | cons i indeces ih =>
    have hi : ¬listing.count ≤ i := Nat.not_le_of_lt (h i (by simp))
    rw [foldlM_cons, copyIndex, if_neg hi]
    exact ih (fun k hk => h k (by simp [hk])) _

theorem compose_composed {listings : List Listing} {itemsIndeces : List (List Nat)}
    (hlength : listings.length = itemsIndeces.length)
    (hvalid : ∀ pair ∈ listings.zip itemsIndeces, ∀ i ∈ pair.2, i < pair.1.count) :
    ∃ input, compose listings itemsIndeces = .ok input ∧
      Composed input ((selected listings itemsIndeces).map (Row.kept false)) := by
  have hfold : ∀ (pairs : List (Listing × List Nat)) (result : ListingInput),
      (∀ pair ∈ pairs, ∀ i ∈ pair.2, i < pair.1.count) →
      pairs.foldlM (fun result pair => pair.2.foldlM (copyIndex pair.1) result) result =
        .ok ((pairs.flatMap fun pair => pair.2.map pair.1.columns.row).foldl
          (ListingInput.copyItem false) result) := by
    intro pairs
    induction pairs with
    | nil => intros; rfl
    | cons pair pairs ih =>
      intro result h
      have hstep := copyIndex_foldlM (h pair (by simp)) result
      simp only [foldlM_cons, hstep, flatMap_cons, foldl_append]
      exact ih _ fun pair hpair => h pair (by simp [hpair])
  refine ⟨_, ?_, Composed.empty.foldl (selected listings itemsIndeces)⟩
  simpa [compose, hlength, selected] using hfold _ .empty hvalid

theorem selected_all (listings : List Listing) :
    selected listings (listings.map fun listing => range listing.count) =
      listings.flatMap Listing.rows := by
  induction listings with
  | nil => rfl
  | cons listing listings ih => exact congrArg (listing.rows ++ ·) ih

theorem map_kept_eq_iff (items : List Row) :
    items.map (Row.kept false) = items ↔ ∀ item ∈ items, item.tags = none := by
  induction items with
  | nil => simp
  | cons item items ih => simp [ih, Row.kept_eq_iff]

/-- Both forms keep the items and their attributes, but the one that takes indices leaves out the
tags; and no accessor sees the compression. -/
theorem compose_iff (listings : List Listing) (itemsIndeces : List (List Nat))
    (hlength : listings.length = itemsIndeces.length)
    (hvalid : ∀ pair ∈ listings.zip itemsIndeces, ∀ i ∈ pair.2, i < pair.1.count) :
    ((∃ input listing, compose listings itemsIndeces = .ok input ∧
        Listing.build input = .ok listing ∧ listing.rows = selected listings itemsIndeces) ↔
      ∀ item ∈ selected listings itemsIndeces, item.tags = none) ∧
    (∃ listing, Listing.build (composeAll listings) = .ok listing ∧
      listing.rows = listings.flatMap Listing.rows) ∧
    ((∃ input, compose listings (listings.map fun listing => range listing.count) = .ok input ∧
        input.rows = (composeAll listings).rows) ↔
      ∀ item ∈ listings.flatMap Listing.rows, item.tags = none) ∧
    ∀ input listing, Listing.build input = .ok listing → listing.rows = input.rows := by
  have hitems : ∀ item ∈ listings.flatMap Listing.rows, item.Valid := by
    simp only [mem_flatMap, Listing.rows, ListingInput.rows, mem_map, mem_range]
    rintro item ⟨listing, -, i, hi, rfl⟩
    exact listing.valid i hi
  have hlengthAll : listings.length =
      (listings.map fun listing => range listing.count).length := (length_map _).symm
  have hvalidAll : ∀ pair ∈ listings.zip (listings.map fun listing => range listing.count),
      ∀ i ∈ pair.2, i < pair.1.count := by
    intro pair hpair i hi
    obtain ⟨k, hk, rfl⟩ := getElem_of_mem hpair
    simpa using hi
  have hselected : ∀ item ∈ selected listings itemsIndeces, (item.kept false).Valid := by
    simp only [selected, mem_flatMap, mem_map]
    rintro item ⟨pair, hpair, i, hi, rfl⟩
    obtain ⟨hname, hhost, hdirectory⟩ := pair.1.valid i (hvalid pair hpair i hi)
    exact ⟨hname, hhost, hdirectory⟩
  refine ⟨⟨?_, fun hnone => ?_⟩, ?_, ⟨?_, fun hnone => ?_⟩, fun _ _ => Listing.rows_build⟩
  · rintro ⟨input, listing, hinput, hlisting, hrows⟩
    obtain ⟨input', hinput', hcomposed⟩ := compose_composed hlength hvalid
    obtain rfl : input = input' := Except.ok.inj (hinput.symm.trans hinput')
    rw [Listing.rows_build hlisting, hcomposed.rows_eq] at hrows
    exact (map_kept_eq_iff _).mp hrows
  · obtain ⟨input, hinput, hcomposed⟩ := compose_composed hlength hvalid
    obtain ⟨listing, hlisting, hrows⟩ := hcomposed.build_ok (by simpa using hselected)
    exact ⟨input, listing, hinput, hlisting, hrows.trans ((map_kept_eq_iff _).mpr hnone)⟩
  · exact (composeAll_composed listings).build_ok hitems
  · rintro ⟨input, hinput, hrows⟩
    obtain ⟨input', hinput', hcomposed⟩ := compose_composed hlengthAll hvalidAll
    obtain rfl : input = input' := Except.ok.inj (hinput.symm.trans hinput')
    rw [hcomposed.rows_eq, (composeAll_composed listings).rows_eq, selected_all] at hrows
    exact (map_kept_eq_iff _).mp hrows
  · obtain ⟨input, hinput, hcomposed⟩ := compose_composed hlengthAll hvalidAll
    refine ⟨input, hinput, ?_⟩
    rw [hcomposed.rows_eq, (composeAll_composed listings).rows_eq, selected_all]
    exact (map_kept_eq_iff _).mpr hnone

/-- A listing of one item, which has one tag. -/
def taggedListing : Listing where
  columns := { ListingInput.empty with
    hosts := .common (some 1)
    directories := .common [slash]
    filenames := [[0x61]]
    unixModes := [0]
    unixTypes := [0]
    tags := AList.singleton 0 [⟨[0x54], .red⟩] }
  valid i _ := by
    obtain rfl : i = 0 := by simp_all [ListingInput.count]
    exact ⟨cons_ne_nil _ _, Option.some_ne_none _, rfl⟩

theorem compose_iff_tagged : (∃ input listing, compose [taggedListing] [[0]] = .ok input ∧
      Listing.build input = .ok listing ∧ listing.rows = selected [taggedListing] [[0]]) ↔
    ∀ item ∈ selected [taggedListing] [[0]], item.tags = none :=
  (compose_iff [taggedListing] [[0]] rfl (by decide)).1

theorem compose_drops_tags : ¬∀ (listings : List Listing) (itemsIndeces : List (List Nat)),
    listings.length = itemsIndeces.length →
    (∀ pair ∈ listings.zip itemsIndeces, ∀ i ∈ pair.2, i < pair.1.count) →
    ∃ input listing, compose listings itemsIndeces = .ok input ∧
      Listing.build input = .ok listing ∧ listing.rows = selected listings itemsIndeces := by
  intro h
  have hvalid : ∀ pair ∈ [taggedListing].zip [[0]], ∀ i ∈ pair.2, i < pair.1.count := by decide
  obtain ⟨input, listing, hinput, hlisting, hrows⟩ := h [taggedListing] [[0]] rfl hvalid
  obtain ⟨input', hinput', hcomposed⟩ := @compose_composed [taggedListing] [[0]] rfl hvalid
  obtain rfl : input = input' := Except.ok.inj (hinput.symm.trans hinput')
  rw [Listing.rows_build hlisting, hcomposed.rows_eq, map_kept_eq_iff] at hrows
  exact absurd (hrows (taggedListing.columns.row 0) (mem_singleton.mpr rfl)) (by decide)

end WinCommander.VFS.Composing
