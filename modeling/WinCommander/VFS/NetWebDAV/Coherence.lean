/-
  When the answers of the cache are those of the server.

  The server is a tree, and every request that it meets is mirrored by the cache. Listings,
  creations and the removal of files keep the two coherent. The removal of a directory drops its
  own listing only, and a move takes that listing only with it; a move also leaves the listings of
  a target that it replaces, and passes by a new parent when the old one is not cached.
  `Undisturbed` are the requests that meet none of this.
-/
import WinCommander.Library.FileTree
import WinCommander.Library.Run
import WinCommander.VFS.NetWebDAV.Cache

namespace WinCommander.VFS.NetWebDAV

open Library List SortedTable Function PropFindResponse FileTree Cache AList
open Option (isSome_iff_exists mem_toList none_or some some_or toList_none toList_some)
open Library.Path (slash dotDot FileName text directoryText)

/-! ## The server and its client -/

structure Attributes where
  size : Int
  creationDate : Int
  modificationDate : Int
deriving DecidableEq

abbrev Server := FileTree FileName Attributes

/-- What a listing says of a node. -/
def response (filename : Bytes) (node : Node Attributes) : PropFindResponse where
  filename
  size := node.attributes.size
  creationDate := node.attributes.creationDate
  modificationDate := node.attributes.modificationDate
  isDirectory := node.directory

/-- The items of a directory: itself and what is in it. -/
def serverItems (t : Server) (path : List FileName) : List PropFindResponse :=
  (t.find path).toList.map (response dotDot) ++
    (t.children path).map fun child => response child.1.bytes child.2

/-- A path is told with a slash at the end or without. -/
def spelled (slashed : Bool) (path : List FileName) : Bytes :=
  if slashed then directoryText path else text path

inductive Operation where
  | list (path : List FileName) (slashed : Bool) (items : List PropFindResponse) (now : Int)
  | makeDirectory (path : List FileName) (name : FileName) (slashed : Bool) (a : Attributes)
  | makeFile (path : List FileName) (name : FileName) (a : Attributes)
  | removeDirectory (path : List FileName) (name : FileName) (slashed : Bool)
  | unlink (path : List FileName) (name : FileName)
  | move (oldPath : List FileName) (oldName : FileName) (oldSlashed : Bool)
      (newPath : List FileName) (newName : FileName) (newSlashed : Bool)

theorem concat_ne_nil {path : List FileName} {name : FileName} : path ++ [name] ≠ [] :=
  List.concat_ne_nil _ _

/-- What a request leaves on the server, if it succeeds. A move replaces what is at its target. -/
def serve (t : Server) : Operation → Option Server
  | .list path _ items _ => if t.isDirectory path ∧ items.Perm (serverItems t path) then some t else none
  | .makeDirectory path name _ a =>
    if h : t.isDirectory path = true ∧ t.isDirectory (path ++ [name]) = false ∧
        t.find (path ++ [name]) = none then
      some (t.put path name ⟨true, a⟩ h.1 h.2.1)
    else none
  | .makeFile path name a =>
    if h : t.isDirectory path = true ∧ t.isDirectory (path ++ [name]) = false then
      some (t.put path name ⟨false, a⟩ h.1 h.2)
    else none
  | .removeDirectory path name _ =>
    if t.isDirectory (path ++ [name]) then some (t.remove (path ++ [name]) concat_ne_nil) else none
  | .unlink path name =>
    if (t.find (path ++ [name])).isSome ∧ t.isDirectory (path ++ [name]) = false then
      some (t.remove (path ++ [name]) concat_ne_nil)
    else none
  | .move oldPath oldName _ newPath newName _ =>
    if h : t.isDirectory newPath = true ∧ ¬oldPath ++ [oldName] <+: newPath ++ [newName] ∧
        ¬newPath ++ [newName] <+: oldPath ++ [oldName] ∧
        (t.find (oldPath ++ [oldName])).isSome = true then
      some (t.move (oldPath ++ [oldName]) newPath newName h.1 h.2.1)
    else none

/-- How the host mirrors a request that succeeded. -/
def commit (c : Cache) : Operation → Cache
  | .list path slashed items now => c.commitListing now (spelled slashed path) items
  | .makeDirectory path name slashed _ => c.commitMkDir (spelled slashed (path ++ [name]))
  | .makeFile path name _ => c.commitMkFile (text (path ++ [name]))
  | .removeDirectory path name slashed => c.commitRmDir (spelled slashed (path ++ [name]))
  | .unlink path name => c.commitUnlink (text (path ++ [name]))
  | .move oldPath oldName oldSlashed newPath newName newSlashed =>
    c.commitMove (spelled oldSlashed (oldPath ++ [oldName]))
      (spelled newSlashed (newPath ++ [newName]))

structure Client where
  server : Server
  cache : Cache := ⟨∅⟩

def step (s : Client) (operation : Operation) : Client × Unit :=
  (match serve s.server operation with
    | none => s
    | some server => ⟨server, commit s.cache operation⟩, ())

/-! ## Coherence -/

/-- The last name of a path; a listing of the root calls it "..". -/
def lastName (path : List FileName) : Bytes := (path.getLast?.map FileName.bytes).getD dotDot

/-- Each listing is a sorted table with a mark for each item, and the answers, at whatever time,
    are those of the server. -/
structure Coherent (s : Client) : Prop where
  sorted : ∀ key listing, s.cache.dirs.lookup key = some listing →
    SortedTable.Sorted PropFindResponse.filename listing.items ∧
      listing.dirtyMarks.length = listing.items.length
  ok : ∀ now path slashed answer, s.cache.item now (spelled slashed path) = (answer, .ok) →
    ∃ node, s.server.find path = some node ∧ answer = some (response (lastName path) node)
  nonExist : ∀ now path slashed answer,
    s.cache.item now (spelled slashed path) = (answer, .nonExist) → s.server.find path = none
  listing : ∀ now path slashed items, s.cache.listing now (spelled slashed path) = some items →
    s.server.isDirectory path = true ∧ items.Perm (serverItems s.server path)

/-- The key is of a directory below the path. -/
def Below (path : List FileName) (key : Bytes) : Prop :=
  directoryText path <+: key ∧ key ≠ directoryText path

instance (path : List FileName) (key : Bytes) : Decidable (Below path key) :=
  inferInstanceAs (Decidable (_ ∧ _))

/-- The requests after which the cache is still coherent. -/
def Undisturbed (s : Client) : Operation → Prop
  | .removeDirectory path name _ =>
    ∀ cached ∈ s.cache.dirs.entries, ¬Below (path ++ [name]) cached.1
  | .move oldPath oldName _ newPath newName _ =>
    (∀ cached ∈ s.cache.dirs.entries,
      ¬Below (oldPath ++ [oldName]) cached.1 ∧ ¬Below (newPath ++ [newName]) cached.1) ∧
    ((s.cache.dirs.lookup (directoryText (newPath ++ [newName]))).isSome →
      (s.cache.dirs.lookup (directoryText (oldPath ++ [oldName]))).isSome) ∧
    ((s.cache.dirs.lookup (directoryText newPath)).isSome →
      (s.cache.dirs.lookup (directoryText oldPath)).isSome)
  | _ => True

/-! ## Listings -/

/-- The names in a listing of a directory: ".." for itself, or that of a child. -/
def keyName : Option FileName → Bytes
  | none => dotDot
  | some name => name.bytes

theorem keyName_injective : Function.Injective keyName := by
  intro a b h
  cases a with
  | none =>
    cases b with
    | none => rfl
    | some name => exact absurd h.symm name.isName.ne_dotDot
  | some name =>
    cases b with
    | none => exact absurd h name.isName.ne_dotDot
    | some other =>
      cases name
      cases other
      simp_all [keyName]

abbrev Known := Option FileName → Option (Node Attributes)

/-- The listing has an item for each node, which tells of it unless it is marked. -/
structure Mirrors (listing : Directory) (known : Known) : Prop where
  sorted : SortedTable.Sorted PropFindResponse.filename listing.items
  marks : listing.dirtyMarks.length = listing.items.length
  directory : ∃ a, known none = some ⟨true, a⟩
  names : ∀ bytes, bytes ∈ listing.items.map PropFindResponse.filename ↔
    ∃ key, keyName key = bytes ∧ (known key).isSome = true
  current : ∀ item, (item, false) ∈ listing.items.zip listing.dirtyMarks →
    ∃ key node, known key = some node ∧ item = response (keyName key) node
  clean : listing.hasDirtyItems = false → true ∉ listing.dirtyMarks

section Listing

variable {listing : Directory} {known : Known} {name : FileName}

section
variable (h : Mirrors listing known)
include h

theorem Mirrors.mem_names (key : Option FileName) :
    keyName key ∈ listing.items.map filename ↔ (known key).isSome := by
  rw [h.names]
  constructor
  · rintro ⟨other, hsame, hsome⟩
    exact keyName_injective hsame ▸ hsome
  · exact fun hsome => ⟨key, rfl, hsome⟩

theorem Mirrors.find_eq_none_iff (key : Option FileName) :
    listing.find (keyName key) = none ↔ known key = none := by
  rw [Directory.find, SortedTable.find_eq_none_iff h.sorted, ← Option.not_isSome_iff_eq_none,
    ← h.mem_names key, mem_map, not_exists]
  exact forall_congr' fun item => not_and.symm

theorem Mirrors.dirty : Mirrors { listing with hasDirtyItems := true } known :=
  ⟨h.sorted, h.marks, h.directory, h.names, h.current, nofun⟩

end

theorem mem_names_zip {bytes : Bytes} (hmarks : listing.dirtyMarks.length = listing.items.length) :
    bytes ∈ listing.items.map filename ↔
      ∃ entry ∈ listing.items.zip listing.dirtyMarks, entry.1.filename = bytes := by
  have hitems : (listing.items.zip listing.dirtyMarks).map Prod.fst = listing.items :=
    map_fst_zip hmarks.ge
  constructor
  · intro h
    obtain ⟨item, hitem, hname⟩ := mem_map.mp h
    rw [← hitems] at hitem
    obtain ⟨entry, hentry, rfl⟩ := mem_map.mp hitem
    exact ⟨entry, hentry, hname⟩
  · rintro ⟨entry, hentry, rfl⟩
    exact mem_map_of_mem (of_mem_zip hentry).1

section
variable (h : Mirrors listing known)
include h

/-- The entries are those of another listing but for one name, which has a marked item if there is
    a node. -/
theorem Mirrors.changed {listing' : Directory}
    (hsorted : SortedTable.Sorted filename listing'.items)
    (hmarks : listing'.dirtyMarks.length = listing'.items.length)
    (hclean : listing'.hasDirtyItems = false → true ∉ listing'.dirtyMarks) {item : PropFindResponse}
    (hname : item.filename = name.bytes) (node : Option (Node Attributes))
    (hentries : ∀ entry, entry ∈ listing'.items.zip listing'.dirtyMarks ↔ (node.isSome ∧ entry = (item, true)) ∨ (entry ∈ listing.items.zip listing.dirtyMarks ∧ entry.1.filename ≠ name.bytes)) :
    Mirrors listing' (update known (some name) node) := by
  have hother : ∀ {key}, keyName key ≠ name.bytes →
      update known (some name) node key = known key := by
    intro key hne
    refine update_of_ne ?_ _ _
    rintro rfl
    exact hne rfl
  refine ⟨hsorted, hmarks, ?_, ?_, ?_, hclean⟩
  · exact h.directory
  · intro bytes
    rw [mem_names_zip hmarks]
    constructor
    · rintro ⟨entry, hentry, rfl⟩
      obtain ⟨hsome, rfl⟩ | ⟨hentry, hne⟩ := (hentries entry).mp hentry
      · exact ⟨some name, hname.symm, by rw [update_self]; exact hsome⟩
      · obtain ⟨key, hkey, hsome⟩ := (h.names _).mp ((mem_names_zip h.marks).mpr ⟨entry, hentry, rfl⟩)
        exact ⟨key, hkey, by rw [hother (hkey ▸ hne)]; exact hsome⟩
    · rintro ⟨key, rfl, hsome⟩
      by_cases hkey : key = some name
      · subst hkey
        rw [update_self] at hsome
        exact ⟨_, (hentries _).mpr (.inl ⟨hsome, rfl⟩), hname⟩
      · have hne : keyName key ≠ name.bytes :=
          fun heq => hkey (@keyName_injective key (some name) heq)
        rw [hother hne] at hsome
        obtain ⟨entry, hentry, hsame⟩ := (mem_names_zip h.marks).mp ((h.mem_names key).mpr hsome)
        exact ⟨entry, (hentries _).mpr (.inr ⟨hentry, hsame ▸ hne⟩), hsame⟩
  · intro unmarked hunmarked
    obtain ⟨-, hsame⟩ | ⟨hold, hne⟩ := (hentries _).mp hunmarked
    · exact absurd (Prod.mk.inj hsame).2 Bool.false_ne_true
    · obtain ⟨key, node', hknown, rfl⟩ := h.current unmarked hold
      exact ⟨key, node', by rw [hother hne]; exact hknown, rfl⟩

/-- A new node, or another one, has a marked item. -/
theorem Mirrors.patch {item : PropFindResponse} {change : PropFindResponse → PropFindResponse}
    (hname : item.filename = name.bytes)
    (hchange : ∀ found, found.filename = name.bytes → (change found).filename = name.bytes)
    (node : Node Attributes) :
    Mirrors (listing.patch item change) (update known (some name) (some node)) := by
  unfold Directory.patch
  rw [hname]
  cases hfind : listing.find name.bytes with
  | none =>
    refine h.changed (sorted_insertIdx h.sorted hfind hname) ?_ ?_ hname (some node) ?_
    · rw [length_insertIdx, length_insertIdx, h.marks]
    · exact fun hclean => absurd hclean.symm Bool.false_ne_true
    · intro entry
      refine (mem_zip_insertIdx h.sorted h.marks hfind).trans ?_
      refine or_congr (and_iff_right rfl).symm ⟨fun hentry => ⟨hentry, ?_⟩, And.left⟩
      exact (SortedTable.find_eq_none_iff h.sorted).mp hfind _ (of_mem_zip hentry).1
  | some found =>
    have hfound := hchange found (mem_of_find hfind).2
    refine h.changed (sorted_set h.sorted hfind hfound) ?_ ?_ hfound (some node) ?_
    · rw [length_set, length_set, h.marks]
    · exact fun hclean => absurd hclean.symm Bool.false_ne_true
    · intro entry
      refine (mem_zip_set h.sorted h.marks hfind).trans ?_
      exact or_congr (and_iff_right rfl).symm Iff.rfl

/-- The item of a node goes with it. -/
theorem Mirrors.erase (name : FileName) :
    Mirrors (listing.erase name.bytes) (update known (some name) none) := by
  unfold Directory.erase
  cases hfind : listing.find name.bytes with
  | none =>
    have hnone : known (some name) = none := (h.find_eq_none_iff (some name)).mp hfind
    rw [← hnone, update_eq_self]
    exact h
  | some found =>
    refine h.changed (sorted_eraseIdx h.sorted _) ?_ ?_
      (mem_of_find hfind).2 none ?_
    · rw [length_eraseIdx, length_eraseIdx, h.marks]
    · exact fun hclean hmem => h.clean hclean (mem_of_mem_eraseIdx hmem)
    · intro entry
      refine (mem_zip_eraseIdx h.sorted h.marks hfind).trans ?_
      exact (or_iff_right fun hnot => absurd hnot.1 Bool.false_ne_true).symm

end

end Listing

/-! ## Paths -/

section Paths

variable (slashed : Bool) (path : List FileName) (name : FileName)

theorem directoryText_ne_nil : directoryText path ≠ [] := by
  obtain ⟨initial, h⟩ := Path.directoryText_eq_concat path
  rw [h]
  exact List.concat_ne_nil _ _

theorem getLast?_directoryText : (directoryText path).getLast? = some slash := by
  obtain ⟨initial, h⟩ := Path.directoryText_eq_concat path
  rw [h, List.getLast?_concat]

theorem getLast?_text {path : List FileName} (h : path ≠ []) : (text path).getLast? ≠ some slash := by
  obtain ⟨initial, last, htext, hlast⟩ := Path.text_eq_concat h
  rw [htext, List.getLast?_concat]
  exact fun heq => hlast (some.inj heq)

theorem ensureTrailingSlash_spelled :
    ensureTrailingSlash (spelled slashed path) = directoryText path := by
  unfold ensureTrailingSlash spelled
  cases slashed with
  | true => rw [if_pos rfl, if_neg fun h => h.2 (getLast?_directoryText path)]
  | false =>
    rw [if_neg Bool.false_ne_true]
    by_cases h : path = []
    · subst h
      rfl
    · rw [if_pos ⟨cons_ne_nil _ _, getLast?_text h⟩, Path.directoryText_of_ne h]

theorem deconstructPath_spelled :
    deconstructPath (spelled slashed (path ++ [name])) = (directoryText path, name.bytes) := by
  have hnil : text (path ++ [name]) ≠ [] := cons_ne_nil _ _
  have hne : text (path ++ [name]) ≠ [slash] := mt Path.text_eq_root.mp concat_ne_nil
  have hslash : slash ∈ text (path ++ [name]) := mem_cons_self
  have hparts : (if slash ∈ text (path ++ [name]) then
      ((text (path ++ [name])).rdropWhile (· ≠ slash), Path.filename (text (path ++ [name])))
      else ([], [])) = (directoryText path, name.bytes) := by
    rw [if_pos hslash, Path.filename_text, Path.text_concat, Path.rdropWhile_directory]
  unfold deconstructPath spelled
  cases slashed with
  | true =>
    have hroot : directoryText (path ++ [name]) ≠ [slash] := fun heq =>
      concat_ne_nil (Path.directoryText_injective (b := []) heq)
    rw [if_pos rfl, if_neg (directoryText_ne_nil _), if_neg hroot,
      if_pos (getLast?_directoryText _)]
    rw [Path.directoryText_of_ne concat_ne_nil, dropLast_concat]
    exact hparts
  | false =>
    rw [if_neg Bool.false_ne_true, if_neg hnil, if_neg hne, if_neg (getLast?_text concat_ne_nil)]
    exact hparts

end Paths

/-! ## Cached directories -/

/-- What is known at each path: the node there, and those below it. -/
def view (t : Server) (path : List FileName) : Known := fun key => t.find (path ++ key.toList)

/-- Every cached listing is of a directory of the view. -/
def Inv (known : List FileName → Known) (c : Cache) : Prop :=
  ∀ key listing, c.dirs.lookup key = some listing →
    ∃ path, key = directoryText path ∧ Mirrors listing (known path)

section Cached

variable {known known' : List FileName → Known} {c : Cache} {path : List FileName}
  {listing : Directory}

theorem Inv.mirrors (h : Inv known c) (hcached : c.dirs.lookup (directoryText path) = some listing) :
    Mirrors listing (known path) := by
  obtain ⟨other, hkey, hmirrors⟩ := h _ _ hcached
  rw [Path.directoryText_injective hkey]
  exact hmirrors

/-- The view may change where nothing is cached. -/
theorem Inv.congr (h : Inv known c)
    (hsame : ∀ path listing, c.dirs.lookup (directoryText path) = some listing →
      Mirrors listing (known path) → known' path = known path) : Inv known' c := by
  intro key listing hcached
  obtain ⟨path, rfl, hmirrors⟩ := h key listing hcached
  exact ⟨path, rfl, hsame path listing hcached hmirrors ▸ hmirrors⟩

theorem lookup_set (c : Cache) (key other : Bytes) (listing : Directory) :
    (c.set key listing).dirs.lookup other = if other = key then some listing else c.dirs.lookup other := by
  split_ifs with h
  · rw [h]
    exact lookup_insert _
  · exact lookup_insert_ne h

theorem Inv.set (h : Inv known c) {mirrored : Known} (hlisting : Mirrors listing mirrored) :
    Inv (update known path mirrored) (c.set (directoryText path) listing) := by
  intro key cached hcached
  rw [lookup_set] at hcached
  split_ifs at hcached with hkey
  · rw [← some.inj hcached]
    exact ⟨path, hkey, by rw [update_self]; exact hlisting⟩
  · obtain ⟨other, rfl, hmirrors⟩ := h key cached hcached
    have hne : other ≠ path := by
      rintro rfl
      exact hkey rfl
    exact ⟨other, rfl, by rw [update_of_ne hne]; exact hmirrors⟩

theorem lookup_erase (c : Cache) (key other : Bytes) :
    (c.dirs.erase key).lookup other = if other = key then none else c.dirs.lookup other := by
  split_ifs with h
  · rw [h]
    exact AList.lookup_erase _ _
  · exact lookup_erase_ne h

theorem Inv.erase (h : Inv known c) (key : Bytes) : Inv known ⟨c.dirs.erase key⟩ := by
  intro other listing hcached
  rw [lookup_erase] at hcached
  by_cases hkey : other = key
  · rw [if_pos hkey] at hcached
    cases hcached
  · rw [if_neg hkey] at hcached
    exact h other listing hcached

/-- The listing that a path is in is patched, if it is cached. -/
theorem Inv.commitIn (h : Inv known c) (slashed : Bool) (name : FileName)
    {change : Bytes → Directory → Directory} {mirrored : Known}
    (hchange : ∀ listing, c.dirs.lookup (directoryText path) = some listing →
      Mirrors listing (known path) → Mirrors (change name.bytes listing) mirrored) :
    Inv (update known path mirrored) (c.commitIn (spelled slashed (path ++ [name])) change) := by
  unfold Cache.commitIn
  rw [deconstructPath_spelled]
  dsimp only
  rw [if_neg name.isName.nonempty]
  cases hcached : c.dirs.lookup (directoryText path) with
  | none =>
    refine h.congr fun other listing hother _ => update_of_ne ?_ _ _
    rintro rfl
    rw [hcached] at hother
    cases hother
  | some listing => exact h.set (hchange listing hcached (h.mirrors hcached))

end Cached

/-! ## Listings and creations -/

section Requests

variable {t : Server} {c : Cache} {path : List FileName} {name : FileName}

theorem mem_serverItems {item : PropFindResponse} : item ∈ serverItems t path ↔
      ∃ key node, view t path key = some node ∧ item = response (keyName key) node := by
  unfold serverItems view
  rw [mem_append, mem_map, mem_map]
  constructor
  · rintro (⟨node, hnode, rfl⟩ | ⟨⟨child, node⟩, hchild, rfl⟩)
    · refine ⟨none, node, ?_, rfl⟩
      rw [toList_none, append_nil]
      exact mem_toList.mp hnode
    · exact ⟨some child, node, mem_children.mp hchild, rfl⟩
  · rintro ⟨key, node, hnode, rfl⟩
    cases key with
    | none =>
      rw [toList_none, append_nil] at hnode
      exact .inl ⟨node, mem_toList.mpr hnode, rfl⟩
    | some child => exact .inr ⟨(child, node), mem_children.mpr hnode, rfl⟩

theorem serverItems_distinct (t : Server) (path : List FileName) :
    ((serverItems t path).map filename).Nodup := by
  have hself : (t.find path).toList.map (filename ∘ response dotDot) =
      (t.find path).toList.map fun _ => dotDot := rfl
  have hchildren : (t.children path).map
      (filename ∘ fun child => response child.1.bytes child.2) =
        ((t.children path).map Prod.fst).map FileName.bytes := by
    rw [map_map]
    rfl
  unfold serverItems
  rw [map_append, map_map, map_map, hself, hchildren]
  refine nodup_append.mpr ⟨?_, (t.children_nodup path).map ?_, ?_⟩
  · cases t.find path <;> simp
  · intro a b hab
    exact some.inj (@keyName_injective (some a) (some b) hab)
  · intro a ha b hb hab
    obtain ⟨-, -, rfl⟩ := mem_map.mp ha
    obtain ⟨child, -, rfl⟩ := mem_map.mp hb
    exact child.isName.ne_dotDot hab.symm

variable {items : List PropFindResponse} {other : List FileName}

theorem sorted_of_ordered
    (h : Ordered (fun a b : PropFindResponse => (compare a.filename b.filename).isLT) items)
    (hdistinct : (items.map filename).Nodup) : SortedTable.Sorted filename items := by
  refine (h.and (pairwise_map.mp hdistinct)).imp fun {a b} hab => ?_
  cases hcompare : compare a.filename b.filename with
  | lt => rfl
  | eq => exact absurd (Std.LawfulEqCmp.eq_of_compare hcompare) hab.2
  | gt =>
    have hlt : compare b.filename a.filename = .lt := Std.OrientedCmp.lt_of_gt hcompare
    have hnot : (compare b.filename a.filename).isLT = false := hab.1
    rw [hlt] at hnot
    exact absurd hnot.symm Bool.false_ne_true

theorem byFilename : StrictWeakOrder fun a b : PropFindResponse =>
    (compare a.filename b.filename).isLT :=
  (StrictWeakOrder.of_isLT (compare : Bytes → Bytes → Ordering)).on filename

theorem Inv.commitListing (h : Inv (view t) c) (slashed : Bool) (now : Int)
    (hdirectory : t.isDirectory path) (hitems : items.Perm (serverItems t path)) :
    Inv (view t) (c.commitListing now (spelled slashed path) items) := by
  have hperm := (Sorter.insertion.perm items byFilename).trans hitems
  have hnames := hperm.map filename
  have hmarks : ∀ n, true ∉ replicate n false :=
    fun n hmem => absurd (eq_of_mem_replicate hmem).symm Bool.false_ne_true
  unfold Cache.commitListing
  rw [ensureTrailingSlash_spelled, ← update_eq_self path (view t)]
  refine h.set ⟨?_, length_replicate, ?_, ?_, ?_, fun _ => hmarks _⟩
  · exact sorted_of_ordered (Sorter.insertion.ordered items byFilename)
      (hnames.nodup_iff.mpr (serverItems_distinct t path))
  · obtain ⟨a, hfind⟩ := isDirectory_iff.mp hdirectory
    refine ⟨a, ?_⟩
    unfold view
    rw [toList_none, append_nil]
    exact hfind
  · intro bytes
    rw [hnames.mem_iff, mem_map]
    constructor
    · rintro ⟨item, hitem, rfl⟩
      obtain ⟨key, node, hnode, rfl⟩ := mem_serverItems.mp hitem
      exact ⟨key, rfl, by rw [hnode]; rfl⟩
    · rintro ⟨key, rfl, hsome⟩
      obtain ⟨node, hnode⟩ := isSome_iff_exists.mp hsome
      exact ⟨_, mem_serverItems.mpr ⟨key, node, hnode, rfl⟩, rfl⟩
  · intro item hitem
    exact mem_serverItems.mp (hperm.mem_iff.mp (of_mem_zip hitem).1)

theorem append_toList_eq {key : Option FileName} : other ++ key.toList = path ++ [name] ↔
      (key = none ∧ other = path ++ [name]) ∨ (key = some name ∧ other = path) := by
  cases key with
  | none => simp
  | some child =>
    simp [and_comm]

/-- What a new node changes in the directories that were there. -/
theorem view_put {node : Node Attributes} (hparent : t.isDirectory path)
    (hfile : t.isDirectory (path ++ [name]) = false) (hother : t.isDirectory other) :
    view (t.put path name node hparent hfile) other =
      update (view t) path (update (view t path) (some name) (some node)) other := by
  have hne : other ≠ path ++ [name] := by
    rintro rfl
    rw [hfile] at hother
    cases hother
  funext key
  show (t.put path name node hparent hfile).find (other ++ key.toList) = _
  rw [find_put]
  by_cases hpath : other = path
  · subst hpath
    rw [update_self]
    by_cases hkey : key = some name
    · rw [hkey, update_self, toList_some, if_pos rfl]
    · rw [update_of_ne hkey, if_neg]
      · rfl
      · rw [append_toList_eq]
        rintro (⟨-, heq⟩ | ⟨heq, -⟩)
        · exact hne heq
        · exact hkey heq
  · rw [update_of_ne hpath, if_neg]
    · rfl
    · rw [append_toList_eq]
      rintro (⟨-, heq⟩ | ⟨-, heq⟩)
      · exact hne heq
      · exact hpath heq

theorem Mirrors.isDirectory {listing : Directory} (h : Mirrors listing (view t path)) :
    t.isDirectory path := by
  obtain ⟨a, hfind⟩ := h.directory
  unfold view at hfind
  rw [toList_none, append_nil] at hfind
  exact isDirectory_iff.mpr ⟨a, hfind⟩

/-- A directory or a file is made. -/
theorem Inv.make (h : Inv (view t) c) (slashed : Bool) (node : Node Attributes) (isDirectory : Bool)
    (hparent : t.isDirectory path) (hfile : t.isDirectory (path ++ [name]) = false) :
    Inv (view (t.put path name node hparent hfile)) (c.commitIn (spelled slashed (path ++ [name]))
        fun filename listing => listing.patch { filename, isDirectory } id) := by
  have hpatched : Inv _ (c.commitIn (spelled slashed (path ++ [name]))
      fun filename listing => listing.patch { filename, isDirectory } id) :=
    h.commitIn slashed name fun listing _ hmirrors => hmirrors.patch rfl (fun _ hname => hname) node
  refine hpatched.congr fun other listing _ hmirrors => view_put hparent hfile ?_
  by_cases hother : other = path
  · exact hother ▸ hparent
  · rw [update_of_ne hother] at hmirrors
    exact hmirrors.isDirectory

/-! ## Removals -/

theorem concat_le_append_toList {key : Option FileName} : path ++ [name] <+: other ++ key.toList ↔
      path ++ [name] <+: other ∨ (other = path ∧ key = some name) := by
  cases key with
  | none => simp
  | some child =>
    rw [toList_some, some.injEq]
    constructor
    · exact concat_prefix_concat
    · rintro (hle | ⟨rfl, rfl⟩)
      · exact hle.trans (prefix_append _ _)
      · exact prefix_rfl

/-- What a removal changes in the directories that stay. -/
theorem view_remove (hother : ¬path ++ [name] <+: other) :
    view (t.remove (path ++ [name]) concat_ne_nil) other =
      update (view t) path (update (view t path) (some name) none) other := by
  funext key
  show (t.remove (path ++ [name]) concat_ne_nil).find (other ++ key.toList) = _
  rw [find_remove]
  by_cases hpath : other = path
  · subst hpath
    rw [update_self]
    by_cases hkey : key = some name
    · rw [hkey, update_self, toList_some, if_pos prefix_rfl]
    · rw [update_of_ne hkey, if_neg]
      · rfl
      · rw [concat_le_append_toList]
        rintro (hle | ⟨-, heq⟩)
        · exact hother hle
        · exact hkey heq
  · rw [update_of_ne hpath, if_neg]
    · rfl
    · rw [concat_le_append_toList]
      rintro (hle | ⟨heq, -⟩)
      · exact hother hle
      · exact hpath heq

theorem not_concat_le : ¬path ++ [name] <+: path := by
  intro h
  have hlength := h.length_le
  rw [length_append, length_singleton] at hlength
  omega

theorem Inv.commitUnlink (h : Inv (view t) c) (slashed : Bool) :
    Inv (update (view t) path (update (view t path) (some name) none))
      (c.commitUnlink (spelled slashed (path ++ [name]))) :=
  h.commitIn slashed name fun _ _ hmirrors => (hmirrors.erase name).dirty

theorem Inv.unlink (h : Inv (view t) c) (slashed : Bool)
    (hfile : t.isDirectory (path ++ [name]) = false) :
    Inv (view (t.remove (path ++ [name]) concat_ne_nil))
      (c.commitUnlink (spelled slashed (path ++ [name]))) := by
  refine (h.commitUnlink slashed).congr fun other listing _ hmirrors => view_remove ?_
  by_cases hother : other = path
  · exact hother ▸ not_concat_le
  · rw [update_of_ne hother] at hmirrors
    have hdirectory := hmirrors.isDirectory
    rintro ⟨rest, rfl⟩
    by_cases hrest : rest = []
    · rw [hrest, append_nil, hfile] at hdirectory
      cases hdirectory
    · obtain ⟨a, hfind⟩ := isDirectory_iff.mp hdirectory
      rw [find_below hfile hrest] at hfind
      cases hfind

/-- A path below another has its key below. -/
theorem below_of_le (hle : path <+: other) (hne : other ≠ path) :
    Below path (directoryText other) :=
  ⟨ Path.directoryText_prefix hle, fun heq => hne (Path.directoryText_injective heq)⟩

/-- Patches cache no directory that was not cached. -/
theorem lookup_commitIn_isSome (c : Cache) (atPath key : Bytes)
    (change : Bytes → Directory → Directory) :
    ((c.commitIn atPath change).dirs.lookup key).isSome = (c.dirs.lookup key).isSome := by
  unfold Cache.commitIn
  dsimp only
  split_ifs
  · rfl
  · cases hcached : c.dirs.lookup (deconstructPath atPath).1 with
    | none => rfl
    | some listing =>
      rw [lookup_set]
      split_ifs with hkey
      · rw [hkey, hcached]
        rfl
      · rfl

theorem Inv.removeDirectory (h : Inv (view t) c) (slashed : Bool)
    (hbelow : ∀ key, (c.dirs.lookup key).isSome → ¬Below (path ++ [name]) key) :
    Inv (view (t.remove (path ++ [name]) concat_ne_nil))
      (c.commitRmDir (spelled slashed (path ++ [name]))) := by
  unfold commitRmDir discardListing
  rw [ensureTrailingSlash_spelled]
  refine ((h.commitUnlink slashed).erase _).congr fun other listing hcached _ =>
    view_remove fun hle => ?_
  rw [lookup_erase] at hcached
  by_cases hother : directoryText other = directoryText (path ++ [name])
  · rw [if_pos hother] at hcached
    cases hcached
  · rw [if_neg hother] at hcached
    refine hbelow (directoryText other) ?_ (below_of_le hle fun heq => hother (heq ▸ rfl))
    rw [← lookup_commitIn_isSome c, ← Cache.commitUnlink, hcached]
    rfl

end Requests

/-! ## Moves -/

section Move

variable {t : Server} {c : Cache} {oldPath newPath : List FileName} {oldName newName : FileName}

/-- What is known after a move: the target has what is below the old path, the old parent has no
    such name any more and the new one has it. -/
def moved (t : Server) (oldPath : List FileName) (oldName : FileName) (newPath : List FileName)
    (newName : FileName) : List FileName → Known :=
  let target := Function.update (view t) (newPath ++ [newName]) (view t (oldPath ++ [oldName]))
  let left := Function.update target oldPath (Function.update (view t oldPath) (some oldName) none)
  Function.update left newPath
    (Function.update (left newPath) (some newName) (t.find (oldPath ++ [oldName])))

theorem ne_concat {path : List FileName} {name : FileName} : path ≠ path ++ [name] := by
  intro heq
  have hlength := congrArg List.length heq
  rw [length_append, length_singleton] at hlength
  omega

theorem ne_of_not_concat_le {path other : List FileName} {name name' : FileName}
    (h : ¬path ++ [name] <+: other ++ [name']) : other ≠ path ++ [name] := by
  rintro rfl
  exact h (prefix_append _ _)

/-- What a move changes in the directories that are neither moved nor below its target. -/
theorem view_move (hparent : t.isDirectory newPath)
    (hinside : ¬oldPath ++ [oldName] <+: newPath ++ [newName])
    (habove : ¬newPath ++ [newName] <+: oldPath ++ [oldName]) {other : List FileName}
    (hold : ¬oldPath ++ [oldName] <+: other)
    (hnew : newPath ++ [newName] <+: other → other = newPath ++ [newName]) :
    view (t.move (oldPath ++ [oldName]) newPath newName hparent hinside) other =
      moved t oldPath oldName newPath newName other := by
  funext key
  show (t.move (oldPath ++ [oldName]) newPath newName hparent hinside).find (other ++ key.toList) = _
  rw [find_move hparent hinside habove]
  unfold moved
  by_cases htarget : other = newPath ++ [newName]
  · subst htarget
    rw [if_pos (prefix_append _ _), drop_left, update_of_ne ne_concat.symm,
      update_of_ne (ne_of_not_concat_le habove).symm, update_self]
    rfl
  · have hbelow : newPath ++ [newName] <+: other ++ key.toList ↔
        other = newPath ∧ key = some newName := by
      rw [concat_le_append_toList]
      exact or_iff_right fun hle => htarget (hnew hle)
    have hbelow' : oldPath ++ [oldName] <+: other ++ key.toList ↔
        other = oldPath ∧ key = some oldName := by
      rw [concat_le_append_toList]
      exact or_iff_right hold
    have hleft : update (update (view t) (newPath ++ [newName])
        (view t (oldPath ++ [oldName]))) oldPath
          (update (view t oldPath) (some oldName) none) other key =
        if other = oldPath ∧ key = some oldName then none else t.find (other ++ key.toList) := by
      by_cases hother : other = oldPath
      · subst hother
        rw [update_self]
        by_cases hkey : key = some oldName
        · rw [hkey, update_self, if_pos ⟨rfl, rfl⟩]
        · rw [update_of_ne hkey, if_neg fun h => hkey h.2]
          rfl
      · rw [update_of_ne hother, update_of_ne htarget, if_neg fun h => hother h.1]
        rfl
    by_cases hother : other = newPath
    · subst hother
      rw [update_self]
      by_cases hkey : key = some newName
      · subst hkey
        rw [update_self, toList_some, if_pos prefix_rfl, drop_length, append_nil]
      · rw [update_of_ne hkey, hleft, if_neg fun h => hkey (hbelow.mp h).2]
        exact if_congr hbelow' rfl rfl
    · rw [update_of_ne hother, hleft, if_neg fun h => hother (hbelow.mp h).1]
      exact if_congr hbelow' rfl rfl

theorem lookup_moveListing (c : Cache) (oldPath newPath : List FileName)
    (oldSlashed newSlashed : Bool) (key : Bytes) :
    (c.moveListing (spelled oldSlashed oldPath) (spelled newSlashed newPath)).dirs.lookup key =
      if key = directoryText oldPath then none else if key = directoryText newPath then
        (c.dirs.lookup (directoryText oldPath)).or (c.dirs.lookup key) else c.dirs.lookup key := by
  unfold moveListing
  rw [ensureTrailingSlash_spelled, ensureTrailingSlash_spelled]
  dsimp only
  cases hcached : c.dirs.lookup (directoryText oldPath) with
  | none =>
    by_cases hkey : key = directoryText oldPath
    · rw [if_pos hkey, hkey, hcached]
    · rw [if_neg hkey, none_or, ite_self]
  | some listing =>
    by_cases hkey : key = directoryText oldPath
    · rw [if_pos hkey, hkey, AList.lookup_erase]
    · rw [if_neg hkey, lookup_erase_ne hkey, some_or]
      exact lookup_set c (directoryText newPath) key listing

/-- The listing of a moved directory is that of its target. -/
theorem Inv.moveListing (h : Inv (view t) c) (oldSlashed newSlashed : Bool)
    {source target : List FileName} (htarget : (c.dirs.lookup (directoryText target)).isSome →
      (c.dirs.lookup (directoryText source)).isSome) : Inv (update (view t) target (view t source))
      (c.moveListing (spelled oldSlashed source) (spelled newSlashed target)) := by
  intro key listing hcached
  rw [lookup_moveListing] at hcached
  by_cases hold : key = directoryText source
  · rw [if_pos hold] at hcached
    cases hcached
  · rw [if_neg hold] at hcached
    split_ifs at hcached with hnew
    · rw [hnew] at hcached
      refine ⟨target, hnew, ?_⟩
      rw [update_self]
      cases hsource : c.dirs.lookup (directoryText source) with
      | none =>
        rw [hsource, none_or] at hcached
        rw [hcached, hsource] at htarget
        exact absurd (htarget rfl) Bool.false_ne_true
      | some moved =>
        rw [hsource, some_or] at hcached
        exact some.inj hcached ▸ h.mirrors hsource
    · obtain ⟨other, rfl, hmirrors⟩ := h key listing hcached
      refine ⟨other, rfl, ?_⟩
      rw [update_of_ne]
      · exact hmirrors
      · rintro rfl
        exact hnew rfl

theorem Inv.move (h : Inv (view t) c) (oldSlashed newSlashed : Bool)
    (hparent : t.isDirectory newPath) (hinside : ¬oldPath ++ [oldName] <+: newPath ++ [newName])
    (habove : ¬newPath ++ [newName] <+: oldPath ++ [oldName]) {node : Node Attributes}
    (hnode : t.find (oldPath ++ [oldName]) = some node)
    (hbelow : ∀ key, (c.dirs.lookup key).isSome →
      ¬Below (oldPath ++ [oldName]) key ∧ ¬Below (newPath ++ [newName]) key)
    (htarget : (c.dirs.lookup (directoryText (newPath ++ [newName]))).isSome →
      (c.dirs.lookup (directoryText (oldPath ++ [oldName]))).isSome)
    (hparents : (c.dirs.lookup (directoryText newPath)).isSome →
      (c.dirs.lookup (directoryText oldPath)).isSome) :
    Inv (view (t.move (oldPath ++ [oldName]) newPath newName hparent hinside))
      (c.commitMove (spelled oldSlashed (oldPath ++ [oldName]))
        (spelled newSlashed (newPath ++ [newName]))) := by
  have holdParent : oldPath ≠ newPath ++ [newName] := ne_of_not_concat_le habove
  have hnewParent : newPath ≠ oldPath ++ [oldName] := ne_of_not_concat_le hinside
  have hlookup := lookup_moveListing c (oldPath ++ [oldName]) (newPath ++ [newName]) oldSlashed
    newSlashed
  have hmoved := h.moveListing oldSlashed newSlashed htarget
  revert hlookup hmoved
  unfold commitMove
  generalize c.moveListing (spelled oldSlashed (oldPath ++ [oldName]))
    (spelled newSlashed (newPath ++ [newName])) = c₁
  intro hlookup hmoved
  have hkeep : ∀ other, other ≠ oldPath ++ [oldName] → other ≠ newPath ++ [newName] →
      c₁.dirs.lookup (directoryText other) = c.dirs.lookup (directoryText other) := by
    intro other hold hnew
    rw [hlookup, if_neg (mt Path.directoryText_injective hold),
      if_neg (mt Path.directoryText_injective hnew)]
  -- The directories that are cached after the directory's own listing was moved.
  have hcached : ∀ other, (c₁.dirs.lookup (directoryText other)).isSome →
      ¬oldPath ++ [oldName] <+: other ∧
        (newPath ++ [newName] <+: other → other = newPath ++ [newName]) := by
    intro other hsome
    by_cases hnew : other = newPath ++ [newName]
    · exact ⟨hnew ▸ hinside, fun _ => hnew⟩
    · have hold : other ≠ oldPath ++ [oldName] := by
        rintro rfl
        rw [hlookup, if_pos rfl] at hsome
        cases hsome
      rw [hkeep other hold hnew] at hsome
      obtain ⟨hbelowOld, hbelowNew⟩ := hbelow _ hsome
      exact ⟨fun hle => hbelowOld (below_of_le hle hold),
        fun hle => absurd (below_of_le hle hnew) hbelowNew⟩
  rw [deconstructPath_spelled]
  dsimp only
  rw [if_neg oldName.isName.nonempty]
  cases hparent' : c₁.dirs.lookup (directoryText oldPath) with
  | none =>
    refine hmoved.congr fun other listing hother _ => ?_
    have hsome : (c₁.dirs.lookup (directoryText other)).isSome := by
      rw [hother]
      rfl
    obtain ⟨hold, hnew⟩ := hcached other hsome
    have hneOld : other ≠ oldPath := by
      rintro rfl
      rw [hparent'] at hother
      cases hother
    have hneNew : other ≠ newPath := by
      rintro rfl
      rw [hkeep other hnewParent ne_concat] at hsome
      have hsome' := hparents hsome
      rw [← hkeep oldPath ne_concat holdParent, hparent'] at hsome'
      cases hsome'
    rw [view_move hparent hinside habove hold hnew]
    unfold moved
    rw [update_of_ne hneNew, update_of_ne hneOld]
  | some listing =>
    dsimp only
    have hmirrors := hmoved.mirrors hparent'
    rw [update_of_ne holdParent] at hmirrors
    obtain ⟨entry, hentry⟩ : ∃ entry, listing.find oldName.bytes = some entry := by
      refine Option.ne_none_iff_exists'.mp fun hnone => ?_
      have hmissing := (hmirrors.find_eq_none_iff (some oldName)).mp hnone
      exact nomatch hnode.symm.trans hmissing
    have hleft : Inv _ (c₁.set (directoryText oldPath) (listing.erase oldName.bytes)) :=
      hmoved.set (hmirrors.erase oldName)
    rw [hentry]
    have hreceived : Inv (moved t oldPath oldName newPath newName)
        ((c₁.set (directoryText oldPath) (listing.erase oldName.bytes)).receive
          (spelled newSlashed (newPath ++ [newName])) (some entry)) := by
      unfold moved
      rw [hnode]
      exact hleft.commitIn newSlashed newName fun _ _ hmirrors => hmirrors.patch rfl (fun _ _ => rfl) node
    refine hreceived.congr fun other listing' hother _ => ?_
    have hsome : (c₁.dirs.lookup (directoryText other)).isSome := by
      have hsome' := congrArg Option.isSome hother
      unfold receive at hsome'
      rw [lookup_commitIn_isSome, lookup_set] at hsome'
      by_cases hkey : directoryText other = directoryText oldPath
      · rw [hkey, hparent']
        rfl
      · rw [if_neg hkey] at hsome'
        exact hsome'
    obtain ⟨hold, hnew⟩ := hcached other hsome
    exact view_move hparent hinside habove hold hnew

end Move

/-! ## Answers -/

section Answers

variable {t : Server} {c : Cache} {path : List FileName} {listing : Directory}

/-- A path is looked up in the directory that it is in, the root in itself. -/
theorem deconstructed (slashed : Bool) (path : List FileName) :
    ∃ (parent : List FileName) (key : Option FileName), path = parent ++ key.toList ∧
      deconstructPath (spelled slashed path) = (directoryText parent, keyName key) ∧
        lastName path = keyName key := by
  obtain rfl | ⟨parent, name, rfl⟩ := eq_nil_or_concat path
  · refine ⟨[], none, rfl, ?_, rfl⟩
    cases slashed <;> rfl
  · rw [concat_eq_append]
    refine ⟨parent, some name, rfl, deconstructPath_spelled slashed parent name, ?_⟩
    unfold lastName
    rw [List.getLast?_concat]
    rfl

theorem keyName_ne_nil (key : Option FileName) : keyName key ≠ [] := by
  cases key with
  | none => exact cons_ne_nil _ _
  | some name => exact name.isName.nonempty

theorem Inv.item (h : Inv (view t) c) (now : Int) (slashed : Bool) (path : List FileName) :
    (∃ node, t.find path = some node ∧
      c.item now (spelled slashed path) = (some (response (lastName path) node), .ok)) ∨
    (t.find path = none ∧ c.item now (spelled slashed path) = (none, .nonExist)) ∨
      c.item now (spelled slashed path) = (none, .unknown) := by
  obtain ⟨parent, key, rfl, hpath, hlast⟩ := deconstructed slashed path
  unfold Cache.item
  rw [hpath, hlast]
  dsimp only
  rw [if_neg (keyName_ne_nil key)]
  cases hcached : c.dirs.lookup (directoryText parent) with
  | none => exact .inr (.inr rfl)
  | some listing =>
    have hmirrors := h.mirrors hcached
    dsimp only
    by_cases houtdated : listing.isOutdated now
    · rw [if_pos houtdated]
      exact .inr (.inr rfl)
    · rw [if_neg houtdated]
      cases hfind : listing.find (keyName key) with
      | none => exact .inr (.inl ⟨(hmirrors.find_eq_none_iff key).mp hfind, rfl⟩)
      | some item =>
        obtain ⟨mark, hmark, hmem⟩ :=
          mem_zip_of_find hmirrors.sorted hmirrors.marks hfind
        have hmark' : listing.dirtyMarks[listing.lowerBound (keyName key)]? = some mark := hmark
        rw [List.getD_eq_getElem?_getD, hmark', Option.getD_some]
        cases mark with
        | true => exact .inr (.inr rfl)
        | false =>
          obtain ⟨other, node, hnode, rfl⟩ := hmirrors.current item hmem
          have hsame : other = key :=
            keyName_injective (mem_of_find hfind).2
          subst hsame
          exact .inl ⟨node, hnode, rfl⟩

theorem Mirrors.items_perm (h : Mirrors listing (view t path)) (hclean : listing.hasDirtyItems = false) :
    listing.items.Perm (serverItems t path) := by
  have hcurrent : ∀ item ∈ listing.items,
      ∃ key node, view t path key = some node ∧ item = response (keyName key) node := by
    intro item hitem
    obtain ⟨entry, hentry, rfl⟩ : ∃ entry ∈ listing.items.zip listing.dirtyMarks, entry.1 = item := by
      rw [← map_fst_zip h.marks.ge] at hitem
      exact mem_map.mp hitem
    refine h.current _ ?_
    obtain ⟨item, mark⟩ := entry
    cases mark with
    | true => exact absurd (of_mem_zip hentry).2 (h.clean hclean)
    | false => exact hentry
  have hnodup : listing.items.Nodup := by
    refine Pairwise.imp ?_ h.sorted
    intro a b hlt heq
    exact SortedTable.ne_of_lt hlt (congrArg filename heq)
  refine (perm_ext_iff_of_nodup hnodup (Nodup.of_map _ (serverItems_distinct t path))).mpr ?_
  intro item
  rw [mem_serverItems]
  refine ⟨hcurrent item, ?_⟩
  rintro ⟨key, node, hnode, rfl⟩
  have hname : keyName key ∈ listing.items.map filename := by
    rw [h.mem_names, hnode]
    rfl
  obtain ⟨item, hitem, hsame⟩ := mem_map.mp hname
  obtain ⟨other, node', hnode', rfl⟩ := hcurrent item hitem
  have hkey : other = key := keyName_injective hsame
  subst hkey
  rw [hnode] at hnode'
  rw [some.inj hnode']
  exact hitem

theorem Inv.coherent {s : Client} (h : Inv (view s.server) s.cache) : Coherent s where
  sorted key listing hcached := by
    obtain ⟨path, -, hmirrors⟩ := h key listing hcached
    exact ⟨hmirrors.sorted, hmirrors.marks⟩
  ok now path slashed answer hanswer := by
    obtain ⟨node, hnode, hitem⟩ | ⟨-, hitem⟩ | hitem := h.item now slashed path
    · rw [hitem] at hanswer
      exact ⟨node, hnode, (Prod.mk.inj hanswer).1.symm⟩
    · rw [hitem] at hanswer
      exact nomatch (Prod.mk.inj hanswer).2
    · rw [hitem] at hanswer
      exact nomatch (Prod.mk.inj hanswer).2
  nonExist now path slashed answer hanswer := by
    obtain ⟨node, -, hitem⟩ | ⟨hnone, -⟩ | hitem := h.item now slashed path
    · rw [hitem] at hanswer
      exact nomatch (Prod.mk.inj hanswer).2
    · exact hnone
    · rw [hitem] at hanswer
      exact nomatch (Prod.mk.inj hanswer).2
  listing now path slashed items hitems := by
    unfold listing at hitems
    rw [ensureTrailingSlash_spelled] at hitems
    obtain ⟨listing, hcached, hitems⟩ := Option.bind_eq_some_iff.mp hitems
    have hmirrors := h.mirrors hcached
    by_cases hdirty : listing.hasDirtyItems
    · rw [if_pos hdirty] at hitems
      cases hitems
    · rw [if_neg hdirty, Option.ite_none_left_eq_some] at hitems
      rw [← some.inj hitems.2]
      exact ⟨hmirrors.isDirectory, hmirrors.items_perm (by simpa using hdirty)⟩

end Answers

/-! ## Runs -/

theorem isSome_mem_entries {c : Cache} {P : Bytes → Prop} (h : ∀ cached ∈ c.dirs.entries, P cached.1)
    (key : Bytes) (hsome : (c.dirs.lookup key).isSome) : P key := by
  obtain ⟨listing, hcached⟩ := isSome_iff_exists.mp hsome
  exact h ⟨key, listing⟩ (mem_lookup_iff.mp hcached)

theorem Inv.serve {t t' : Server} {c : Cache} {operation : Operation} (h : Inv (view t) c)
    (hserve : serve t operation = some t') (hundisturbed : Undisturbed ⟨t, c⟩ operation) :
    Inv (view t') (commit c operation) := by
  cases operation with
  | list path slashed items now =>
    simp only [NetWebDAV.serve, Option.ite_none_right_eq_some, some.injEq] at hserve
    obtain ⟨⟨hdirectory, hitems⟩, rfl⟩ := hserve
    exact h.commitListing slashed now hdirectory hitems
  | makeDirectory path name slashed a =>
    simp only [NetWebDAV.serve, Option.dite_none_right_eq_some, some.injEq] at hserve
    obtain ⟨⟨hparent, hfile, -⟩, rfl⟩ := hserve
    exact h.make slashed ⟨true, a⟩ true hparent hfile
  | makeFile path name a =>
    simp only [NetWebDAV.serve, Option.dite_none_right_eq_some, some.injEq] at hserve
    obtain ⟨⟨hparent, hfile⟩, rfl⟩ := hserve
    exact h.make false ⟨false, a⟩ false hparent hfile
  | removeDirectory path name slashed =>
    simp only [NetWebDAV.serve, Option.ite_none_right_eq_some, some.injEq] at hserve
    obtain ⟨-, rfl⟩ := hserve
    exact h.removeDirectory slashed (isSome_mem_entries hundisturbed)
  | unlink path name =>
    simp only [NetWebDAV.serve, Option.ite_none_right_eq_some, some.injEq] at hserve
    obtain ⟨⟨-, hfile⟩, rfl⟩ := hserve
    exact h.unlink false hfile
  | move oldPath oldName oldSlashed newPath newName newSlashed =>
    simp only [NetWebDAV.serve, Option.dite_none_right_eq_some, some.injEq] at hserve
    obtain ⟨⟨hparent, hinside, habove, hsome⟩, rfl⟩ := hserve
    obtain ⟨node, hnode⟩ := isSome_iff_exists.mp hsome
    obtain ⟨hbelow, htarget, hparents⟩ := hundisturbed
    exact h.move oldSlashed newSlashed hparent hinside habove hnode (isSome_mem_entries hbelow)
      htarget hparents

theorem Inv.step {s : Client} (h : Inv (view s.server) s.cache) (operation : Operation)
    (hundisturbed : Undisturbed s operation) :
    Inv (view (step s operation).1.server) (step s operation).1.cache := by
  unfold NetWebDAV.step
  cases hserve : NetWebDAV.serve s.server operation with
  | none => exact h
  | some t' => exact h.serve hserve hundisturbed

/-- After every run of undisturbed requests, the cache answers as the server would. -/
theorem answers_of_undisturbed (t : Server) (operations : List Operation)
    (hundisturbed : Meets step Undisturbed { server := t } operations) :
    Coherent (runAll step { server := t } operations).1 := by
  have hinv := runAll_meets Undisturbed (fun s (_ : List Unit) => Inv (view s.server) s.cache)
    (fun s _ operation hmeets h => h.step operation hmeets) [] operations hundisturbed
    (fun key listing hcached => nomatch hcached)
  exact hinv.coherent

/-! ## Runs of moves -/

instance (s : Client) : ∀ operation, Decidable (Undisturbed s operation)
  | .removeDirectory _ _ _ => inferInstanceAs (Decidable (∀ _ ∈ _, _))
  | .move _ _ _ _ _ _ => inferInstanceAs (Decidable (_ ∧ _))
  | .list _ _ _ _ | .makeDirectory _ _ _ _ | .makeFile _ _ _ | .unlink _ _ =>
    inferInstanceAs (Decidable True)

def nameA : FileName := ⟨ascii "a", ⟨by decide, by decide, by decide, by decide⟩, by decide⟩
def nameD : FileName := ⟨ascii "d", ⟨by decide, by decide, by decide, by decide⟩, by decide⟩
def nameE : FileName := ⟨ascii "e", ⟨by decide, by decide, by decide, by decide⟩, by decide⟩

def dated (size : Int) : Attributes := ⟨size, 10, 20⟩

def self (size : Int) : PropFindResponse := response dotDot ⟨true, dated size⟩

/-- A file, and two directories of which one has the other in it. -/
def requests : List Operation :=
  [.makeFile [] nameA (dated 1), .makeDirectory [] nameD true (dated 2),
    .makeDirectory [nameD] nameE true (dated 3)]

/-- The file is moved from a listed directory to another one, and back. -/
def moveAway : List Operation :=
  requests ++ [.list [] true [response nameD.bytes ⟨true, dated 2⟩, self 0,
      response nameA.bytes ⟨false, dated 1⟩] 5,
    .list [nameD] true [self 2, response nameE.bytes ⟨true, dated 3⟩] 6,
    .move [] nameA false [nameD] nameA false, .move [nameD] nameA false [] nameE false]

/-- A directory is removed when one in it is cached. -/
def removeCached : List Operation :=
  requests ++ [.list [nameD, nameE] true [self 3] 5, .removeDirectory [] nameD true]

/-- A directory is moved when one in it is cached. -/
def moveCached : List Operation :=
  requests ++ [.list [nameD, nameE] true [self 3] 5, .move [] nameD true [] nameE true]

/-- The file replaces a cached directory. -/
def moveOnto : List Operation :=
  requests ++ [.list [nameD, nameE] true [self 3] 5, .move [] nameA false [nameD] nameE false]

/-- The file is moved to a cached directory from one that is not. -/
def moveFromUncached : List Operation :=
  requests ++ [.list [nameD, nameE] true [self 3] 5, .move [] nameA false [nameD, nameE] nameA false]

theorem answers_of_undisturbed_moveAway :
    Coherent (runAll step { server := .empty (dated 0) } moveAway).1 :=
  answers_of_undisturbed (.empty (dated 0)) moveAway (by decide +kernel)

/-- A listing of a directory that is gone is answered, or a file that is there is denied. -/
theorem moves_contradict : ¬Coherent (runAll step { server := .empty (dated 0) } removeCached).1 ∧
      ¬Coherent (runAll step { server := .empty (dated 0) } moveCached).1 ∧
      ¬Coherent (runAll step { server := .empty (dated 0) } moveOnto).1 ∧
      ¬Coherent (runAll step { server := .empty (dated 0) } moveFromUncached).1 := by
  refine ⟨fun h => ?_, fun h => ?_, fun h => ?_, fun h => ?_⟩
  · have hgone := (h.listing 6 [nameD, nameE] true [self 3] (by decide +kernel)).1
    exact absurd hgone (by decide +kernel)
  · have hgone := (h.listing 6 [nameD, nameE] true [self 3] (by decide +kernel)).1
    exact absurd hgone (by decide +kernel)
  · have hgone := (h.listing 6 [nameD, nameE] true [self 3] (by decide +kernel)).1
    exact absurd hgone (by decide +kernel)
  · have hnone := h.nonExist 6 [nameD, nameE, nameA] false none (by decide +kernel)
    exact absurd hnone (by decide +kernel)


end WinCommander.VFS.NetWebDAV
