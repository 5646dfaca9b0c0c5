/-
  When the cache says what the server has.

  The server is a tree, and every request that it meets is mirrored by the cache. Listings,
  creations and removals keep the two coherent. A rename does not move what is cached of the renamed
  directory, does not replace an existing target, and has nothing to put into the new parent when
  the old one is not cached; `Undisturbed` are the renames that meet none of this.
-/
import WinCommander.Library.FileTree
import WinCommander.Library.Run
import WinCommander.VFS.NetFTP.Cache

namespace WinCommander.VFS.NetFTP

open Library List Function FileTree Path Cache AList
open Option (some)
open Library.Path (slash filename parentPath appendPath FileName text directoryText)

/-! ## The server and its client -/

/-- Files and directories, with the sizes that a listing tells. -/
abbrev Server := FileTree FileName UInt64

inductive Operation where
  | list (path : List FileName) (slashed : Bool) (entries : List Entry)
  | createFile (path : List FileName) (name : FileName) (size : UInt64)
  | makeDirectory (path : List FileName) (name : FileName) (size : UInt64)
  | removeDirectory (path : List FileName) (name : FileName)
  | unlink (path : List FileName) (name : FileName)
  | rename (oldPath : List FileName) (oldName : FileName) (newPath : List FileName)
      (newName : FileName) (remember : Entry → Entry)

/-- The entries of a directory, in any order. -/
def Lists (t : Server) (path : List FileName) (entries : List Entry) : Prop :=
  (entries.map fun entry => (entry.name, entry.isDirectory, entry.size)).Perm
    ((t.children path).map fun child => (child.1.bytes, child.2.directory, child.2.attributes))

instance (t : Server) (path : List FileName) (entries : List Entry) :
    Decidable (Lists t path entries) := inferInstanceAs (Decidable (List.Perm _ _))

/-- What a request leaves on the server, if it succeeds. -/
def serve (t : Server) : Operation → Option Server
  | .list path _ entries => if t.isDirectory path ∧ Lists t path entries then some t else none
  | .createFile path name size =>
    if h : t.isDirectory path = true ∧ t.isDirectory (path ++ [name]) = false then
      some (t.put path name ⟨false, size⟩ h.1 h.2)
    else none
  | .makeDirectory path name size =>
    if h : t.isDirectory path = true ∧ t.isDirectory (path ++ [name]) = false ∧
        t.contents path name = none then
      some (t.put path name ⟨true, size⟩ h.1 h.2.1)
    else none
  | .removeDirectory path name =>
    if t.isDirectory (path ++ [name]) ∧ t.children (path ++ [name]) = [] then
      some (t.remove (path ++ [name]) (List.concat_ne_nil _ _))
    else none
  | .unlink path name =>
    if (t.contents path name).isSome ∧ t.isDirectory (path ++ [name]) = false then
      some (t.remove (path ++ [name]) (List.concat_ne_nil _ _))
    else none
  | .rename oldPath oldName newPath newName _ =>
    if ¬(t.contents oldPath oldName).isSome then none
    else if oldPath ++ [oldName] = newPath ++ [newName] then some t
    else if h : t.isDirectory newPath = true ∧ t.isDirectory (newPath ++ [newName]) = false ∧
        ¬oldPath ++ [oldName] <+: newPath ++ [newName] then
      some (t.move (oldPath ++ [oldName]) newPath newName h.1 h.2.2)
    else none

/-- How the host mirrors a request that succeeded. -/
def commit (c : Cache) : Operation → Cache
  | .list path slashed entries =>
    c.insertLISTDirectory (if slashed then directoryText path else text path) { entries }
  | .createFile path name _ => c.commitNewFile (text (path ++ [name]))
  | .makeDirectory path name _ => c.commitMKD (text (path ++ [name]))
  | .removeDirectory path name => c.commitRMD (text (path ++ [name]))
  | .unlink path name => c.commitUnlink (text (path ++ [name]))
  | .rename oldPath oldName newPath newName remember =>
    c.commitRename (text (oldPath ++ [oldName])) (text (newPath ++ [newName])) remember

structure Client where
  server : Server
  cache : Cache := ⟨∅⟩

def step (s : Client) (operation : Operation) : Client × Unit :=
  (match serve s.server operation with
    | none => s
    | some server => ⟨server, commit s.cache operation⟩, ())

/-! ## Coherence -/

/-- The entries have the names of a directory's contents, and what they tell of them. -/
structure Mirrors (entries : List Entry) (contents : FileName → Option (Node UInt64)) : Prop where
  distinct : (entries.map Entry.name).Nodup
  names : ∀ bytes, bytes ∈ entries.map Entry.name ↔
    ∃ name : FileName, name.bytes = bytes ∧ (contents name).isSome = true
  current : ∀ entry ∈ entries, entry.dirty = false →
    ∃ (name : FileName) (node : Node UInt64), name.bytes = entry.name ∧ contents name = some node ∧
      entry.isDirectory = node.directory ∧ entry.size = node.attributes

/-- A cached directory is on the server, and says what is in it. -/
structure Agrees (t : Server) (key : Bytes) (directory : Directory) : Prop where
  stored : directory.path = key
  mirrors : ∃ path, key = directoryText path ∧ t.isDirectory path = true ∧
    Mirrors directory.entries (t.contents path)

/-- No cached directory contradicts the server, unless it is marked. -/
def Coherent (s : Client) : Prop :=
  ∀ key directory, s.cache.directories.lookup key = some directory →
    directory.dirtyStructure = false → Agrees s.server key directory

/-- The requests after which the cache still agrees. -/
def Undisturbed (s : Client) : Operation → Prop
  | .rename oldPath oldName newPath newName remember =>
    oldPath ++ [oldName] = newPath ++ [newName] ∨
      -- Nothing is cached of what is renamed.
      (∀ cached ∈ s.cache.directories.entries, ¬directoryText (oldPath ++ [oldName]) <+: cached.1) ∧
      -- A cached new parent has no such entry yet, and gets it from a cached old one.
      ∀ directory ∈ s.cache.directories.lookup (directoryText newPath),
        directory.entryByName newName.bytes = none ∧ (oldPath = newPath ∨
            ∃ old ∈ s.cache.directories.lookup (directoryText oldPath),
              ∀ entry ∈ old.entries, entry.name = oldName.bytes → remember entry = entry)
  | _ => True

/-! ## Entries -/

variable {entries : List Entry} {contents : FileName → Option (Node UInt64)} {name : FileName}

theorem FileName.bytes_inj {a b : FileName} : a.bytes = b.bytes ↔ a = b := by
  constructor
  · intro h
    cases a
    cases b
    simp_all
  · exact fun h => h ▸ rfl

theorem Mirrors.perm (h : Mirrors entries contents) (hperm : entries.Perm entries')
    : Mirrors entries' contents := by
  refine ⟨(hperm.map _).nodup_iff.mp h.distinct, ?_, ?_⟩
  · intro bytes
    rw [← (hperm.map _).mem_iff]
    exact h.names bytes
  · intro entry hmem
    exact h.current entry (hperm.mem_iff.mpr hmem)

theorem Mirrors.mem_names (h : Mirrors entries contents) :
    name.bytes ∈ entries.map Entry.name ↔ (contents name).isSome := by
  rw [h.names]
  constructor
  · rintro ⟨other, hsame, hsome⟩
    exact FileName.bytes_inj.mp hsame ▸ hsome
  · exact fun hsome => ⟨name, rfl, hsome⟩

variable {node : Node UInt64}

/-- A new entry for a new node. -/
theorem Mirrors.add (h : Mirrors entries contents) (hnew : contents name = none)
    (hname : entry.name = name.bytes)
    (hentry : entry.dirty = false → entry.isDirectory = node.directory ∧ entry.size = node.attributes) :
    Mirrors (entries ++ [entry]) (update contents name (some node)) := by
  have hnot : name.bytes ∉ entries.map Entry.name := by
    rw [h.mem_names, hnew]
    exact Bool.false_ne_true
  refine ⟨?_, ?_, ?_⟩
  · rw [map_append, map_singleton, hname]
    refine nodup_append.mpr ⟨h.distinct, nodup_singleton _, ?_⟩
    intro a ha b hb hab
    exact hnot (mem_singleton.mp hb ▸ hab ▸ ha)
  · intro bytes
    rw [map_append, map_singleton, hname, mem_append, mem_singleton, h.names]
    constructor
    · rintro (⟨other, rfl, hsome⟩ | rfl)
      · refine ⟨other, rfl, ?_⟩
        rw [update_of_ne]
        · exact hsome
        · rintro rfl
          rw [hnew] at hsome
          cases hsome
      · exact ⟨name, rfl, by rw [update_self]; rfl⟩
    · rintro ⟨other, rfl, hsome⟩
      by_cases hother : other = name
      · exact .inr (hother ▸ rfl)
      · rw [update_of_ne hother] at hsome
        exact .inl ⟨other, rfl, hsome⟩
  · intro other hmem hclean
    obtain hold | hlast := mem_append.mp hmem
    · obtain ⟨found, node', hfound, hcontents, hsame⟩ := h.current other hold hclean
      refine ⟨found, node', hfound, ?_, hsame⟩
      rw [update_of_ne]
      · exact hcontents
      · rintro rfl
        rw [hnew] at hcontents
        cases hcontents
    · rw [mem_singleton.mp hlast] at hclean ⊢
      exact ⟨name, node, hname.symm, update_self _ _ _, hentry hclean⟩

/-- The entry of a name goes with its node. -/
theorem Mirrors.erase (h : Mirrors entries contents) (name : FileName) :
    Mirrors (entries.filter fun entry => entry.name ≠ name.bytes) (update contents name none) := by
  refine ⟨h.distinct.sublist (filter_sublist.map _), ?_, ?_⟩
  · intro bytes
    constructor
    · intro hmem
      obtain ⟨entry, hentry, rfl⟩ := mem_map.mp hmem
      obtain ⟨hentry, hne⟩ := mem_filter.mp hentry
      obtain ⟨other, hother, hsome⟩ := (h.names entry.name).mp (mem_map_of_mem hentry)
      refine ⟨other, hother, ?_⟩
      rw [update_of_ne]
      · exact hsome
      · rintro rfl
        exact of_decide_eq_true hne hother.symm
    · rintro ⟨other, rfl, hsome⟩
      by_cases hother : other = name
      · rw [hother, update_self] at hsome
        cases hsome
      · rw [update_of_ne hother] at hsome
        obtain ⟨entry, hentry, hsame⟩ := mem_map.mp (h.mem_names.mpr hsome)
        refine mem_map.mpr ⟨entry, mem_filter.mpr ⟨hentry, decide_eq_true ?_⟩, hsame⟩
        rw [hsame]
        exact fun heq => hother (FileName.bytes_inj.mp heq)
  · intro entry hmem hclean
    obtain ⟨hmem, hne⟩ := mem_filter.mp hmem
    obtain ⟨other, node, hother, hcontents, hsame⟩ := h.current entry hmem hclean
    refine ⟨other, node, hother, ?_, hsame⟩
    rw [update_of_ne]
    · exact hcontents
    · rintro rfl
      exact of_decide_eq_true hne hother.symm

theorem map_name_markDirty (bytes : Bytes) (entries : List Entry) :
    (markDirty bytes entries).map Entry.name = entries.map Entry.name := by
  induction entries with
  | nil => rfl
  | cons entry rest ih =>
    by_cases h : entry.name = bytes
    · rw [markDirty, if_pos h]
      rfl
    · rw [markDirty, if_neg h, map_cons, ih, map_cons]

/-- Where names are distinct, a mark is on every entry of the name. -/
theorem mem_markDirty (hdistinct : (entries.map Entry.name).Nodup)
    (hmem : entry ∈ markDirty bytes entries) :
    entry.dirty ∨ (entry ∈ entries ∧ entry.name ≠ bytes) := by
  induction entries with
  | nil => exact absurd hmem not_mem_nil
  | cons first rest ih =>
    rw [map_cons, nodup_cons] at hdistinct
    by_cases h : first.name = bytes
    · rw [markDirty, if_pos h] at hmem
      obtain rfl | hrest := mem_cons.mp hmem
      · exact .inl rfl
      · refine .inr ⟨mem_cons_of_mem _ hrest, fun hsame => hdistinct.1 ?_⟩
        rw [h, ← hsame]
        exact mem_map_of_mem hrest
    · rw [markDirty, if_neg h] at hmem
      obtain rfl | hrest := mem_cons.mp hmem
      · exact .inr ⟨mem_cons_self, h⟩
      · obtain hdirty | ⟨hold, hne⟩ := ih hdistinct.2 hrest
        · exact .inl hdirty
        · exact .inr ⟨mem_cons_of_mem _ hold, hne⟩

/-- A marked entry tells nothing of its node. -/
theorem Mirrors.mark (h : Mirrors entries contents) (hsome : (contents name).isSome)
    (node : Node UInt64) :
    Mirrors (markDirty name.bytes entries) (update contents name (some node)) := by
  refine ⟨?_, ?_, ?_⟩
  · rw [map_name_markDirty]
    exact h.distinct
  · intro bytes
    rw [map_name_markDirty, h.names]
    refine exists_congr fun other => and_congr_right fun _ => ?_
    by_cases hother : other = name
    · rw [hother, update_self, hsome]
      exact iff_of_true rfl rfl
    · rw [update_of_ne hother]
  · intro entry hmem hclean
    obtain hdirty | ⟨hold, hne⟩ := mem_markDirty h.distinct hmem
    · rw [hdirty] at hclean
      exact absurd hclean.symm Bool.false_ne_true
    · obtain ⟨other, node', hother, hcontents, hsame⟩ := h.current entry hold hclean
      refine ⟨other, node', hother, ?_, hsame⟩
      rw [update_of_ne]
      · exact hcontents
      · rintro rfl
        exact hne hother.symm

theorem renamed_elsewhere (oldName newName : Bytes) (entries : List Entry) :
    renamed oldName newName false entries = entries.filter fun entry => entry.name ≠ oldName := by
  induction entries with
  | nil => rfl
  | cons entry rest ih =>
    by_cases h : entry.name ≠ oldName
    · rw [renamed, if_pos h, ih, filter_cons_of_pos (by simpa using h)]
    · rw [renamed, if_neg h, if_neg Bool.false_ne_true, ih, filter_cons_of_neg (by simpa using h)]

theorem renamed_here (oldName newName : Bytes) (entries : List Entry) :
    (renamed oldName newName true entries).Perm
      ((entries.filter fun entry => entry.name ≠ oldName) ++
        (entries.filter fun entry => entry.name = oldName).map fun entry =>
          { entry with name := newName }) := by
  induction entries with
  | nil => exact .refl _
  | cons entry rest ih =>
    by_cases h : entry.name ≠ oldName
    · rw [renamed, if_pos h, filter_cons_of_pos (by simpa using h),
        filter_cons_of_neg (by simpa using h), cons_append]
      exact ih.cons _
    · rw [renamed, if_neg h, if_pos rfl, filter_cons_of_neg (by simpa using h),
        filter_cons_of_pos (by simpa using h), map_cons]
      exact (ih.cons _).trans perm_middle.symm

theorem renamed_same (bytes : Bytes) (entries : List Entry) :
    renamed bytes bytes true entries = entries := by
  induction entries with
  | nil => rfl
  | cons entry rest ih =>
    by_cases h : entry.name ≠ bytes
    · rw [renamed, if_pos h, ih]
    · rw [renamed, if_neg h, if_pos rfl, ih]
      rw [not_not] at h
      rw [← h]

/-- A node has one entry, which tells of it unless it is marked. -/
theorem Mirrors.entry_of_node (h : Mirrors entries contents) (hnode : contents name = some node) :
    ∃ entry, (entries.filter fun entry => entry.name = name.bytes) = [entry] ∧
      (entry.dirty = false → entry.isDirectory = node.directory ∧ entry.size = node.attributes) := by
  have hmem : name.bytes ∈ entries.map Entry.name := by
    rw [h.mem_names, hnode]
    rfl
  obtain ⟨entry, hentry, hname⟩ := mem_map.mp hmem
  have hnodup : (entries.filter fun entry => entry.name = name.bytes).Nodup :=
    (Nodup.of_map _ h.distinct).filter _
  have hunique : ∀ other ∈ entries.filter fun entry => entry.name = name.bytes, other = entry := by
    intro other hother
    obtain ⟨hother, hsame⟩ := mem_filter.mp hother
    exact inj_on_of_nodup_map h.distinct hother hentry
      ((of_decide_eq_true hsame).trans hname.symm)
  refine ⟨entry, ?_, ?_⟩
  · refine perm_singleton.mp ((perm_ext_iff_of_nodup hnodup (nodup_singleton _)).mpr ?_)
    intro other
    rw [mem_singleton]
    constructor
    · exact hunique other
    · rintro rfl
      exact mem_filter.mpr ⟨hentry, decide_eq_true hname⟩
  · intro hclean
    obtain ⟨other, node', hother, hcontents, hsame⟩ := h.current entry hentry hclean
    rw [← FileName.bytes_inj.mp (hother.trans hname), hcontents] at hnode
    rw [← some.inj hnode]
    exact hsame

/-! ## Cached directories -/

variable {t t' : Server} {c : Cache} {path : List FileName}

/-- Every cached directory agrees with the server. -/
def Inv (t : Server) (c : Cache) : Prop :=
  ∀ key directory, c.directories.lookup key = some directory → Agrees t key directory

variable {directory : Directory} {other : List FileName} {oldPath newPath : List FileName}

theorem Agrees.congr (h : Agrees t (directoryText path) directory)
    (hdirectory : t'.isDirectory path) (hcontents : t'.contents path = t.contents path) :
    Agrees t' (directoryText path) directory := by
  obtain ⟨other, hkey, -, hmirrors⟩ := h.mirrors
  rw [← directoryText_injective hkey] at hmirrors
  exact ⟨h.stored, path, rfl, hdirectory, hcontents ▸ hmirrors⟩

theorem Agrees.mirrors_at (h : Agrees t (directoryText path) directory) :
    t.isDirectory path ∧ Mirrors directory.entries (t.contents path) := by
  obtain ⟨other, hkey, hdirectory, hmirrors⟩ := h.mirrors
  rw [← directoryText_injective hkey] at hdirectory hmirrors
  exact ⟨hdirectory, hmirrors⟩

theorem Inv.mirrors (h : Inv t c)
    (hcached : c.directories.lookup (directoryText path) = some directory) :
    t.isDirectory path ∧ Mirrors directory.entries (t.contents path) :=
  (h _ _ hcached).mirrors_at

/-- The directories that stay as they are. -/
theorem Inv.carry (h : Inv t c) (hcached : c.directories.lookup key = some directory)
    (hsame : ∀ other, key = directoryText other → t.isDirectory other → t'.isDirectory other ∧ t'.contents other = t.contents other) :
    Agrees t' key directory := by
  obtain ⟨other, rfl, hdirectory, -⟩ := (h key directory hcached).mirrors
  obtain ⟨hdirectory', hcontents⟩ := hsame other rfl hdirectory
  exact (h _ _ hcached).congr hdirectory' hcontents

theorem lookup_set (c : Cache) (key other : Bytes) (directory : Directory) :
    (c.set key directory).directories.lookup other =
      if other = key then some directory else c.directories.lookup other := by
  split_ifs with h
  · rw [h]
    exact lookup_insert _
  · exact lookup_insert_ne h

/-- One directory is patched, and the others stay as they are. -/
theorem Inv.patch (h : Inv t c) (hpatched : Agrees t' (directoryText path) directory)
    (hsame : ∀ other, other ≠ path → (∃ cached, c.directories.lookup (directoryText other) = some cached) → t.isDirectory other → t'.isDirectory other ∧ t'.contents other = t.contents other) :
    Inv t' (c.set (directoryText path) directory) := by
  intro key cached hcached
  rw [lookup_set] at hcached
  split_ifs at hcached with hkey
  · rw [hkey, ← some.inj hcached]
    exact hpatched
  · refine h.carry hcached fun other hother hdirectory => ?_
    subst hother
    exact hsame other (fun heq => hkey (heq ▸ rfl)) ⟨cached, hcached⟩ hdirectory

/-- None is patched, as the one that would be is not cached. -/
theorem Inv.unpatched (h : Inv t c) (hnone : c.directories.lookup (directoryText path) = none)
    (hsame : ∀ other, other ≠ path →
      (∃ cached, c.directories.lookup (directoryText other) = some cached) → t.isDirectory other →
      t'.isDirectory other ∧ t'.contents other = t.contents other) : Inv t' c := by
  intro key cached hcached
  refine h.carry hcached fun other hother hdirectory => ?_
  subst hother
  refine hsame other ?_ ⟨cached, hcached⟩ hdirectory
  rintro rfl
  rw [hnone] at hcached
  cases hcached

theorem directoryOf_text (path : List FileName) (name : FileName) :
    directoryOf (text (path ++ [name])) = directoryText path := by
  unfold directoryOf
  rw [parentPath_text]
  by_cases h : path = []
  · subst h
    rfl
  · rw [if_pos (mt text_eq_root.mp h), directoryText_of_ne h]

theorem findDirectoryInt_text (c : Cache) (path : List FileName) :
    c.findDirectoryInt (directoryText path) = c.directories.lookup (directoryText path) := by
  unfold findDirectoryInt
  rw [if_neg]
  rw [not_not]
  unfold directoryText
  split <;> rfl

/-! ## Listings and creations -/

theorem lists_mirrors {listed : List Entry} (h : Lists t path listed) :
    Mirrors listed (t.contents path) := by
  have hchild : ∀ {entry}, entry ∈ listed → ∃ child ∈ t.children path,
      child.1.bytes = entry.name ∧ child.2.directory = entry.isDirectory ∧
        child.2.attributes = entry.size := by
    intro entry hentry
    obtain ⟨child, hchild, heq⟩ := mem_map.mp (h.mem_iff.mp
      (mem_map_of_mem (f := fun entry => (entry.name, entry.isDirectory, entry.size)) hentry))
    simp only [Prod.mk.injEq] at heq
    exact ⟨child, hchild, heq⟩
  have hnames : (listed.map Entry.name).Perm
      (((t.children path).map Prod.fst).map FileName.bytes) := by
    have hfirst := h.map Prod.fst
    rw [map_map, map_map] at hfirst
    rw [map_map]
    exact hfirst
  refine ⟨?_, ?_, ?_⟩
  · refine hnames.nodup_iff.mpr ((t.children_nodup path).map ?_)
    exact fun a b hab => FileName.bytes_inj.mp hab
  · intro bytes
    rw [hnames.mem_iff]
    constructor
    · intro hmem
      obtain ⟨name, hname, rfl⟩ := mem_map.mp hmem
      obtain ⟨child, hchild, rfl⟩ := mem_map.mp hname
      refine ⟨child.1, rfl, ?_⟩
      rw [contents, mem_children.mp hchild]
      rfl
    · rintro ⟨name, rfl, hsome⟩
      obtain ⟨node, hnode⟩ := Option.isSome_iff_exists.mp hsome
      exact mem_map_of_mem (mem_map.mpr ⟨(name, node), mem_children.mpr hnode, rfl⟩)
  · intro entry hentry _
    obtain ⟨child, hmem, hname, hdirectory, hsize⟩ := hchild hentry
    exact ⟨child.1, child.2, hname, mem_children.mp hmem, hdirectory.symm, hsize.symm⟩

theorem insertLISTDirectory_eq (c : Cache) (path : List FileName) (slashed : Bool)
    (directory : Directory) :
    c.insertLISTDirectory (if slashed then directoryText path else text path) directory =
      c.set (directoryText path) { directory with path := directoryText path } := by
  have hhead : (text path).head? = some slash := rfl
  have hhead' : (directoryText path).head? = some slash := by
    unfold directoryText
    split <;> rfl
  have hlast : (directoryText path).getLast? = some slash := by
    obtain ⟨initial, h⟩ := directoryText_eq_concat path
    rw [h, List.getLast?_concat]
  unfold insertLISTDirectory
  cases slashed with
  | true =>
    rw [if_pos rfl, if_neg (not_not.mpr hhead'), if_neg (not_not.mpr hlast)]
  | false =>
    rw [if_neg Bool.false_ne_true, if_neg (not_not.mpr hhead)]
    by_cases h : path = []
    · subst h
      rfl
    · obtain ⟨initial, last, htext, hne⟩ := text_eq_concat h
      have hnot : (text path).getLast? ≠ some slash := by
        rw [htext, List.getLast?_concat]
        exact fun heq => hne (some.inj heq)
      rw [if_pos hnot, directoryText_of_ne h]

theorem Inv.list (h : Inv t c) (slashed : Bool) (hdirectory : t.isDirectory path)
    (hlists : Lists t path listed) :
    Inv t (c.insertLISTDirectory (if slashed then directoryText path else text path)
      { entries := listed }) := by
  rw [insertLISTDirectory_eq]
  exact h.patch ⟨rfl, path, rfl, hdirectory, lists_mirrors hlists⟩
    fun other _ _ hother => ⟨hother, rfl⟩

/-- What is put into a directory leaves the others as they are. -/
theorem put_same (hparent : t.isDirectory path)
    (hfile : t.isDirectory (path ++ [name]) = false) (hne : other ≠ path)
    (hother : t.isDirectory other) : (t.put path name node hparent hfile).isDirectory other ∧
      (t.put path name node hparent hfile).contents other = t.contents other :=
  ⟨isDirectory_put hparent hfile hother, by
    rw [contents_put, if_neg hne]⟩

/-- The entry of a new node is added, whatever it says, if it is marked. -/
theorem Inv.add (h : Inv t c) (hparent : t.isDirectory path)
    (hfile : t.isDirectory (path ++ [name]) = false) (hnew : t.contents path name = none)
    (hcached : c.directories.lookup (directoryText path) = some directory) :
    Inv (t.put path name node hparent hfile) (c.set (directoryText path) { directory with
        entries := directory.entries ++ [{ name := name.bytes, mode, dirty := true }]
        hasDirtyItems := true }) := by
  obtain ⟨hdirectory, hmirrors⟩ := h.mirrors hcached
  refine h.patch ⟨(h _ _ hcached).stored, path, rfl, isDirectory_put hparent hfile hdirectory, ?_⟩
    fun other hne _ hother => put_same hparent hfile hne hother
  rw [contents_put, if_pos rfl]
  exact hmirrors.add hnew rfl fun hclean => absurd hclean.symm Bool.false_ne_true

theorem find?_name_eq_none (entries : List Entry) (bytes : Bytes) :
    (entries.find? fun entry => entry.name = bytes) = none ↔ bytes ∉ entries.map Entry.name := by
  rw [List.find?_eq_none, mem_map, not_exists]
  refine forall_congr' fun entry => ?_
  rw [not_and, decide_eq_true_eq]

theorem Inv.createFile (h : Inv t c) (hparent : t.isDirectory path)
    (hfile : t.isDirectory (path ++ [name]) = false) :
    Inv (t.put path name node hparent hfile) (c.commitNewFile (text (path ++ [name]))) := by
  unfold commitNewFile
  rw [directoryOf_text, filename_text]
  dsimp only
  rw [findDirectoryInt_text]
  cases hcached : c.directories.lookup (directoryText path) with
  | none => exact h.unpatched hcached fun other hne _ hother => put_same hparent hfile hne hother
  | some directory =>
    obtain ⟨hdirectory, hmirrors⟩ := h.mirrors hcached
    dsimp only
    cases hentry : directory.entryByName name.bytes with
    | none =>
      refine h.add hparent hfile ?_ hcached
      have hnot := (find?_name_eq_none _ _).mp hentry
      rw [hmirrors.mem_names] at hnot
      exact Option.not_isSome_iff_eq_none.mp hnot
    | some entry =>
      refine h.patch ⟨(h _ _ hcached).stored, path, rfl,
        isDirectory_put hparent hfile hdirectory, ?_⟩
        fun other hne _ hother => put_same hparent hfile hne hother
      rw [contents_put, if_pos rfl]
      refine hmirrors.mark (hmirrors.mem_names.mp ?_) node
      by_contra hnot
      have hnone : directory.entryByName name.bytes = none := (find?_name_eq_none _ _).mpr hnot
      rw [hentry] at hnone
      cases hnone

theorem Inv.makeDirectory (h : Inv t c) (hparent : t.isDirectory path)
    (hfile : t.isDirectory (path ++ [name]) = false) (hnew : t.contents path name = none) :
    Inv (t.put path name node hparent hfile) (c.commitMKD (text (path ++ [name]))) := by
  unfold commitMKD
  rw [directoryOf_text, filename_text]
  dsimp only
  rw [findDirectoryInt_text]
  cases hcached : c.directories.lookup (directoryText path) with
  | none => exact h.unpatched hcached fun other hne _ hother => put_same hparent hfile hne hother
  | some directory => exact h.add hparent hfile hnew hcached

/-! ## Removals -/

/-- What is removed from a directory leaves the directories elsewhere as they are. -/
theorem remove_same (hne : path ++ [name] ≠ []) (hother : other ≠ path)
    (hnot : ¬path ++ [name] <+: other) (hdirectory : t.isDirectory other) :
    (t.remove (path ++ [name]) hne).isDirectory other ∧
      (t.remove (path ++ [name]) hne).contents other = t.contents other :=
  ⟨(isDirectory_remove hne hnot).trans hdirectory, by
    rw [contents_remove hne hnot, if_neg hother]⟩

theorem not_concat_prefix (path : List FileName) (name : FileName) : ¬path ++ [name] <+: path := by
  intro h
  have hlength := h.length_le
  rw [length_append, length_singleton] at hlength
  omega

/-- The entry goes from its directory, where no directory is cached of what is removed. -/
theorem Inv.erase (h : Inv t c) (hne : path ++ [name] ≠ [])
    (hbelow : ∀ other directory, c.directories.lookup (directoryText other) = some directory →
      t.isDirectory other → ¬path ++ [name] <+: other) :
    Inv (t.remove (path ++ [name]) hne) (c.eraseEntryInt (text (path ++ [name]))) := by
  unfold eraseEntryInt
  rw [directoryOf_text, filename_text]
  dsimp only
  rw [findDirectoryInt_text]
  have hsame : ∀ other, other ≠ path →
      (∃ cached, c.directories.lookup (directoryText other) = some cached) →
      t.isDirectory other → (t.remove (path ++ [name]) hne).isDirectory other ∧
        (t.remove (path ++ [name]) hne).contents other = t.contents other :=
    fun other hother ⟨cached, hcached⟩ hdirectory =>
      remove_same hne hother (hbelow other cached hcached hdirectory) hdirectory
  cases hcached : c.directories.lookup (directoryText path) with
  | none => exact h.unpatched hcached hsame
  | some directory =>
    obtain ⟨hdirectory, hmirrors⟩ := h.mirrors hcached
    have hnot := not_concat_prefix path name
    refine h.patch ⟨(h _ _ hcached).stored, path, rfl,
      (isDirectory_remove hne hnot).trans hdirectory, ?_⟩ hsame
    rw [contents_remove hne hnot, if_pos rfl]
    exact hmirrors.erase name

/-- Nothing is a directory at or below a path that is none. -/
theorem not_prefix_of_file (hfile : t.isDirectory path = false)
    (hother : t.isDirectory other) : ¬path <+: other := by
  rintro ⟨rest, rfl⟩
  by_cases hrest : rest = []
  · rw [hrest, append_nil, hfile] at hother
    cases hother
  · obtain ⟨a, hfind⟩ := isDirectory_iff.mp hother
    rw [find_below hfile hrest] at hfind
    cases hfind

theorem Inv.unlink (h : Inv t c) (hne : path ++ [name] ≠ [])
    (hfile : t.isDirectory (path ++ [name]) = false) :
    Inv (t.remove (path ++ [name]) hne) (c.commitUnlink (text (path ++ [name]))) :=
  h.erase hne fun _ _ _ hdirectory => not_prefix_of_file hfile hdirectory

/-- An empty directory is the only node at or below its path. -/
theorem eq_of_empty (hempty : t.children path = []) (hle : path <+: other)
    (hother : t.isDirectory other) : other = path := by
  obtain ⟨rest, rfl⟩ := hle
  cases rest with
  | nil => exact append_nil path
  | cons name rest =>
    obtain ⟨node, hnode⟩ : ∃ node, t.find (path ++ [name]) = some node := by
      rw [← singleton_append, ← append_assoc] at hother
      by_cases hrest : rest = []
      · rw [hrest, append_nil] at hother
        obtain ⟨a, hfind⟩ := isDirectory_iff.mp hother
        exact ⟨_, hfind⟩
      · obtain ⟨a, hfind⟩ := isDirectory_iff.mp hother
        obtain ⟨a, hfind⟩ := isDirectory_iff.mp
          (isDirectory_of_below hfind hrest)
        exact ⟨_, hfind⟩
    have hmem := mem_children.mpr hnode
    rw [hempty] at hmem
    exact absurd hmem not_mem_nil

theorem Inv.dropped (h : Inv t c) (key : Bytes) : Inv t ⟨c.directories.erase key⟩ := by
  intro other directory hcached
  by_cases hsame : other = key
  · rw [hsame, lookup_erase] at hcached
    cases hcached
  · rw [lookup_erase_ne hsame] at hcached
    exact h other directory hcached

theorem Inv.of_lookup (h : Inv t c)
    (hsame : ∀ key, c'.directories.lookup key = c.directories.lookup key) : Inv t c' := by
  intro key directory hcached
  rw [hsame] at hcached
  exact h key directory hcached

/-- Dropping a directory and patching its parent are independent. -/
theorem lookup_dropped_eraseEntryInt (c : Cache) (path : List FileName) (name : FileName)
    (key : Bytes) : ((c.eraseEntryInt (text (path ++ [name]))).directories.erase
        (directoryText (path ++ [name]))).lookup key =
      ((⟨c.directories.erase (directoryText (path ++ [name]))⟩ : Cache).eraseEntryInt
        (text (path ++ [name]))).directories.lookup key := by
  have hne : directoryText path ≠ directoryText (path ++ [name]) := by
    intro heq
    have hlength := congrArg List.length (directoryText_injective heq)
    rw [length_append, length_singleton] at hlength
    omega
  unfold eraseEntryInt
  rw [directoryOf_text]
  dsimp only
  rw [findDirectoryInt_text, findDirectoryInt_text, lookup_erase_ne hne]
  cases c.directories.lookup (directoryText path) with
  | none => rfl
  | some directory =>
    rw [lookup_set]
    by_cases hself : key = directoryText (path ++ [name])
    · rw [hself, lookup_erase, if_neg hne.symm, lookup_erase]
    · rw [lookup_erase_ne hself, lookup_set, lookup_erase_ne hself]

theorem Inv.removeDirectory (h : Inv t c) (hne : path ++ [name] ≠ [])
    (hempty : t.children (path ++ [name]) = []) :
    Inv (t.remove (path ++ [name]) hne) (c.commitRMD (text (path ++ [name]))) := by
  have hkey : text (path ++ [name]) ++ [slash] = directoryText (path ++ [name]) :=
    (directoryText_of_ne hne).symm
  unfold commitRMD
  rw [hkey]
  refine Inv.of_lookup ((h.dropped (directoryText (path ++ [name]))).erase hne ?_)
    (lookup_dropped_eraseEntryInt c path name)
  intro other directory hcached hdirectory hle
  rw [eq_of_empty hempty hle hdirectory] at hcached
  have hnone : (c.directories.erase (directoryText (path ++ [name]))).lookup
      (directoryText (path ++ [name])) = none := lookup_erase _ _
  rw [hnone] at hcached
  cases hcached

/-! ## Renames -/

/-- The path of a directory to which a slash is appended is that of the root. -/
theorem lookup_renameSelf (c : Cache) (holdPath : oldPath ≠ []) (hnewPath : newPath ≠ [])
    (key : Bytes) : (c.renameSelf (text oldPath) (text newPath)).directories.lookup key =
      c.directories.lookup key := by
  have hroot : ∀ path : Bytes, appendPath path [slash] = [slash] := fun path => if_pos rfl
  unfold renameSelf
  rw [if_pos (mt text_eq_root.mp holdPath), if_pos (mt text_eq_root.mp hnewPath), hroot, hroot]
  dsimp only
  cases hcached : c.directories.lookup [slash] with
  | none => rfl
  | some data =>
    dsimp only
    have hnone : (c.directories.erase [slash]).lookup [slash] = none := lookup_erase _ _
    rw [hnone, Option.isSome_none, if_neg Bool.false_ne_true]
    by_cases hkey : key = [slash]
    · rw [hkey, lookup_insert, hcached]
    · rw [lookup_insert_ne hkey, lookup_erase_ne hkey]

theorem sameDir_iff :
    parentPath (text (oldPath ++ [oldName])) = parentPath (text (newPath ++ [newName])) ↔
      oldPath = newPath := by
  rw [parentPath_text, parentPath_text]
  exact ⟨text_injective, fun h => h ▸ rfl⟩

/-- A name that stays. -/
theorem Inv.renameSame (h : Inv t c) (remember : Entry → Entry) :
    Inv t (c.commitRename (text (path ++ [name])) (text (path ++ [name])) remember) := by
  have hne : path ++ [name] ≠ [] := concat_ne_nil _ _
  unfold commitRename
  dsimp only
  rw [if_pos rfl]
  refine Inv.of_lookup ?_ (lookup_renameSelf _ hne hne)
  unfold renameIn
  rw [directoryOf_text]
  dsimp only
  rw [findDirectoryInt_text, filename_text]
  cases hcached : c.directories.lookup (directoryText path) with
  | none => exact h
  | some directory =>
    dsimp only
    rw [decide_eq_true rfl, renamed_same]
    exact h.patch (h _ _ hcached) fun other _ _ hother => ⟨hother, rfl⟩

section Move

variable {oldPath newPath : List FileName} {oldName newName : FileName} {node : Node UInt64}

theorem not_above (hfile : t.isDirectory (newPath ++ [newName]) = false)
    (hnode : t.contents oldPath oldName = some node)
    (hne : oldPath ++ [oldName] ≠ newPath ++ [newName]) :
    ¬newPath ++ [newName] <+: oldPath ++ [oldName] := by
  rintro ⟨rest, heq⟩
  have hrest : rest ≠ [] := by
    rintro rfl
    rw [append_nil] at heq
    exact hne heq.symm
  have hnone := find_below hfile hrest
  rw [heq] at hnone
  exact nomatch hnode.symm.trans hnone

/-- Where nothing that is moved is cached, the old parent loses an entry and the new one gets it. -/
theorem move_same (hparent : t.isDirectory newPath)
    (hfile : t.isDirectory (newPath ++ [newName]) = false)
    (hinside : ¬oldPath ++ [oldName] <+: newPath ++ [newName])
    (hnode : t.contents oldPath oldName = some node)
    (hne : oldPath ++ [oldName] ≠ newPath ++ [newName]) (hold : ¬oldPath ++ [oldName] <+: other)
    (hdirectory : t.isDirectory other) :
    (t.move (oldPath ++ [oldName]) newPath newName hparent hinside).isDirectory other ∧
      (t.move (oldPath ++ [oldName]) newPath newName hparent hinside).contents other =
        let rest := if other = oldPath then update (t.contents other) oldName none
          else t.contents other
        if other = newPath then update rest newName (some node) else rest := by
  have habove := not_above hfile hnode hne
  have hnew := not_prefix_of_file hfile hdirectory
  refine ⟨(isDirectory_move hparent hinside habove hold hnew).trans hdirectory, ?_⟩
  rw [contents_move hparent hinside habove hold hnew, hnode]

/-- A rename in a directory. -/
theorem Inv.renameHere (h : Inv t c) (hparent : t.isDirectory oldPath)
    (hfile : t.isDirectory (oldPath ++ [newName]) = false)
    (hinside : ¬oldPath ++ [oldName] <+: oldPath ++ [newName])
    (hnode : t.contents oldPath oldName = some node)
    (hne : oldPath ++ [oldName] ≠ oldPath ++ [newName])
    (hbelow : ∀ other directory, c.directories.lookup (directoryText other) = some directory →
      ¬oldPath ++ [oldName] <+: other)
    (hfree : ∀ directory ∈ c.directories.lookup (directoryText oldPath),
      directory.entryByName newName.bytes = none) :
    Inv (t.move (oldPath ++ [oldName]) oldPath newName hparent hinside)
      (c.renameIn (text (oldPath ++ [oldName])) (text (oldPath ++ [newName])) true) := by
  unfold renameIn
  rw [directoryOf_text]
  dsimp only
  rw [findDirectoryInt_text, filename_text, filename_text]
  have hsame : ∀ other, other ≠ oldPath →
      (∃ cached, c.directories.lookup (directoryText other) = some cached) → t.isDirectory other →
      (t.move (oldPath ++ [oldName]) oldPath newName hparent hinside).isDirectory other ∧
        (t.move (oldPath ++ [oldName]) oldPath newName hparent hinside).contents other =
          t.contents other := by
    intro other hother ⟨cached, hcached⟩ hdirectory
    obtain ⟨hdirectory', hcontents⟩ := move_same hparent hfile hinside hnode hne
      (hbelow other cached hcached) hdirectory
    rw [if_neg hother, if_neg hother] at hcontents
    exact ⟨hdirectory', hcontents⟩
  cases hcached : c.directories.lookup (directoryText oldPath) with
  | none => exact h.unpatched hcached hsame
  | some directory =>
    obtain ⟨hdirectory, hmirrors⟩ := h.mirrors hcached
    obtain ⟨hdirectory', hcontents⟩ := move_same hparent hfile hinside hnode hne
      (hbelow oldPath directory hcached) hdirectory
    rw [if_pos rfl, if_pos rfl] at hcontents
    refine h.patch ⟨(h _ _ hcached).stored, oldPath, rfl, hdirectory', ?_⟩ hsame
    rw [hcontents]
    obtain ⟨entry, hentry, htells⟩ := hmirrors.entry_of_node hnode
    refine Mirrors.perm ?_ (renamed_here _ _ _).symm
    rw [hentry, map_singleton]
    refine (hmirrors.erase oldName).add ?_ rfl htells
    -- No other entry has the new name, and so no node has it.
    have hnot := (find?_name_eq_none _ _).mp (hfree directory hcached)
    rw [hmirrors.mem_names] at hnot
    rw [update_of_ne]
    · exact Option.not_isSome_iff_eq_none.mp hnot
    · rintro rfl
      exact hne rfl

theorem renameIn_elsewhere (c : Cache) :
    c.renameIn (text (oldPath ++ [oldName])) (text (newPath ++ [newName])) false =
      c.eraseEntryInt (text (oldPath ++ [oldName])) := by
  unfold renameIn eraseEntryInt
  dsimp only
  cases c.findDirectoryInt (directoryOf (text (oldPath ++ [oldName]))) with
  | none => rfl
  | some directory =>
    dsimp only
    rw [renamed_elsewhere]

theorem lookup_eraseEntryInt (c : Cache) (hne : other ≠ oldPath) :
    (c.eraseEntryInt (text (oldPath ++ [oldName]))).directories.lookup (directoryText other) =
      c.directories.lookup (directoryText other) := by
  unfold eraseEntryInt
  rw [directoryOf_text]
  dsimp only
  rw [findDirectoryInt_text]
  cases c.directories.lookup (directoryText oldPath) with
  | none => rfl
  | some directory =>
    rw [lookup_set, if_neg fun heq => hne (directoryText_injective heq)]

/-- A rename from one directory to another: what is moved is gone from the first, and then is in
    the second. -/
theorem Inv.renameAway (h : Inv t c) (remember : Entry → Entry) (hparent : t.isDirectory newPath)
    (hfile : t.isDirectory (newPath ++ [newName]) = false)
    (hinside : ¬oldPath ++ [oldName] <+: newPath ++ [newName])
    (hnode : t.contents oldPath oldName = some node) (hpath : oldPath ≠ newPath)
    (hbelow : ∀ other directory, c.directories.lookup (directoryText other) = some directory →
      ¬oldPath ++ [oldName] <+: other)
    (hfree : ∀ directory ∈ c.directories.lookup (directoryText newPath),
      directory.entryByName newName.bytes = none ∧
        ∃ old ∈ c.directories.lookup (directoryText oldPath),
          ∀ entry ∈ old.entries, entry.name = oldName.bytes → remember entry = entry) :
    Inv (t.move (oldPath ++ [oldName]) newPath newName hparent hinside)
      (match c.oldEntry (text (oldPath ++ [oldName])) remember with
        | none => c.eraseEntryInt (text (oldPath ++ [oldName]))
        | some entry => (c.eraseEntryInt (text (oldPath ++ [oldName]))).addRenamed
            (text (newPath ++ [newName])) entry) := by
  have hne : oldPath ++ [oldName] ≠ newPath ++ [newName] :=
    fun heq => hpath (append_inj' heq rfl).1
  have hnil : oldPath ++ [oldName] ≠ [] :=
    concat_ne_nil _ _
  have hgone := h.erase hnil fun other directory hcached _ => hbelow other directory hcached
  -- From the tree without the moved node to the one that has it at its new place.
  have hlater : ∀ other, (∃ cached, (c.eraseEntryInt (text (oldPath ++ [oldName]))).directories.lookup
      (directoryText other) = some cached) →
      (t.remove (oldPath ++ [oldName]) hnil).isDirectory other →
      (t.move (oldPath ++ [oldName]) newPath newName hparent hinside).isDirectory other ∧
        (t.move (oldPath ++ [oldName]) newPath newName hparent hinside).contents other =
          if other = newPath then
            update ((t.remove (oldPath ++ [oldName]) hnil).contents other) newName (some node)
          else (t.remove (oldPath ++ [oldName]) hnil).contents other := by
    intro other ⟨cached, hcached⟩ hdirectory
    have hold : ¬oldPath ++ [oldName] <+: other := by
      by_cases hother : other = oldPath
      · rw [hother]
        exact not_concat_prefix oldPath oldName
      · rw [lookup_eraseEntryInt c hother] at hcached
        exact hbelow other cached hcached
    rw [isDirectory_remove hnil hold] at hdirectory
    obtain ⟨hdirectory', hcontents⟩ := move_same hparent hfile hinside hnode hne hold hdirectory
    refine ⟨hdirectory', ?_⟩
    rw [hcontents, contents_remove hnil hold]
    by_cases hother : other = oldPath
    · subst hother
      rfl
    · rw [if_neg hother, if_neg hother]
  have hsame : ∀ other, other ≠ newPath →
      (∃ cached, (c.eraseEntryInt (text (oldPath ++ [oldName]))).directories.lookup
        (directoryText other) = some cached) →
      (t.remove (oldPath ++ [oldName]) hnil).isDirectory other →
      (t.move (oldPath ++ [oldName]) newPath newName hparent hinside).isDirectory other ∧
        (t.move (oldPath ++ [oldName]) newPath newName hparent hinside).contents other =
          (t.remove (oldPath ++ [oldName]) hnil).contents other := by
    intro other hother hcached hdirectory
    have hlater' := hlater other hcached hdirectory
    rw [if_neg hother] at hlater'
    exact hlater'
  have hcachedNew : (c.eraseEntryInt (text (oldPath ++ [oldName]))).directories.lookup
      (directoryText newPath) = c.directories.lookup (directoryText newPath) :=
    lookup_eraseEntryInt c hpath.symm
  cases hcached : c.directories.lookup (directoryText newPath) with
  | none =>
    rw [hcached] at hcachedNew
    cases c.oldEntry (text (oldPath ++ [oldName])) remember with
    | none => exact hgone.unpatched hcachedNew hsame
    | some entry =>
      unfold addRenamed
      rw [directoryOf_text]
      dsimp only
      rw [findDirectoryInt_text, hcachedNew]
      exact hgone.unpatched hcachedNew hsame
  | some directory =>
    rw [hcached] at hcachedNew
    obtain ⟨hfree, old, hold, hremember⟩ := hfree directory hcached
    obtain ⟨-, hmirrorsOld⟩ := h.mirrors hold
    obtain ⟨entry, hentry, htells⟩ := hmirrorsOld.entry_of_node hnode
    have hmem : entry ∈ old.entries.filter fun entry => entry.name = oldName.bytes := by
      rw [hentry]
      exact mem_cons_self
    have hentry' : c.oldEntry (text (oldPath ++ [oldName])) remember = some entry := by
      unfold oldEntry
      rw [directoryOf_text, findDirectoryInt_text, hold, filename_text]
      show ((old.entries.filter fun entry => entry.name = oldName.bytes).getLast?).map remember = _
      rw [hentry]
      show some (remember entry) = some entry
      rw [hremember entry (mem_filter.mp hmem).1 (of_decide_eq_true (mem_filter.mp hmem).2)]
    rw [hentry']
    unfold addRenamed
    rw [directoryOf_text]
    dsimp only
    rw [findDirectoryInt_text, hcachedNew, filename_text]
    obtain ⟨hdirectory, hmirrors⟩ := hgone.mirrors hcachedNew
    obtain ⟨hdirectory', hcontents⟩ := hlater newPath ⟨directory, hcachedNew⟩ hdirectory
    rw [if_pos rfl] at hcontents
    refine hgone.patch ⟨(hgone _ _ hcachedNew).stored, newPath, rfl, hdirectory', ?_⟩ hsame
    rw [hcontents]
    refine hmirrors.add ?_ rfl htells
    have hnot := (find?_name_eq_none _ _).mp hfree
    rw [hmirrors.mem_names] at hnot
    exact Option.not_isSome_iff_eq_none.mp hnot

theorem Inv.rename (h : Inv t c) (remember : Entry → Entry) (hparent : t.isDirectory newPath)
    (hfile : t.isDirectory (newPath ++ [newName]) = false)
    (hinside : ¬oldPath ++ [oldName] <+: newPath ++ [newName])
    (hnode : t.contents oldPath oldName = some node)
    (hne : oldPath ++ [oldName] ≠ newPath ++ [newName])
    (hundisturbed : Undisturbed ⟨t, c⟩ (.rename oldPath oldName newPath newName remember)) :
    Inv (t.move (oldPath ++ [oldName]) newPath newName hparent hinside)
      (c.commitRename (text (oldPath ++ [oldName])) (text (newPath ++ [newName])) remember) := by
  obtain ⟨hmoved, hfree⟩ := hundisturbed.resolve_left hne
  have hbelow : ∀ other directory, c.directories.lookup (directoryText other) = some directory →
      ¬oldPath ++ [oldName] <+: other := by
    intro other directory hcached hle
    exact hmoved ⟨_, directory⟩ (mem_lookup_iff.mp hcached) ( directoryText_prefix hle)
  have hnil : ∀ (path : List FileName) (name : FileName), path ++ [name] ≠ [] :=
    fun path name => concat_ne_nil _ _
  refine Inv.of_lookup ?_ (lookup_renameSelf _ (hnil _ _) (hnil _ _))
  by_cases hpath : oldPath = newPath
  · subst hpath
    have hsameDir : parentPath (text (oldPath ++ [oldName])) =
        parentPath (text (oldPath ++ [newName])) := sameDir_iff.mpr rfl
    rw [if_pos hsameDir, decide_eq_true hsameDir]
    exact h.renameHere hparent hfile hinside hnode hne hbelow
      fun directory hcached => (hfree directory hcached).1
  · have hsameDir : parentPath (text (oldPath ++ [oldName])) ≠
        parentPath (text (newPath ++ [newName])) := mt sameDir_iff.mp hpath
    rw [if_neg hsameDir, decide_eq_false hsameDir, renameIn_elsewhere]
    refine h.renameAway remember hparent hfile hinside hnode hpath hbelow ?_
    intro directory hcached
    obtain ⟨hnone, hsame | hold⟩ := hfree directory hcached
    · exact absurd hsame hpath
    · exact ⟨hnone, hold⟩

end Move

/-! ## Runs -/

/-- What a request that succeeds found, and what it leaves. -/
inductive Served (t : Server) : Operation → Server → Prop
  | listed (path : List FileName) (slashed : Bool) (entries : List Entry)
      (directory : t.isDirectory path = true) (lists : Lists t path entries) :
      Served t (.list path slashed entries) t
  | created (path : List FileName) (name : FileName) (size : UInt64)
      (parent : t.isDirectory path = true) (file : t.isDirectory (path ++ [name]) = false) :
      Served t (.createFile path name size) (t.put path name ⟨false, size⟩ parent file)
  | made (path : List FileName) (name : FileName) (size : UInt64)
      (parent : t.isDirectory path = true) (file : t.isDirectory (path ++ [name]) = false)
      (new : t.contents path name = none) :
      Served t (.makeDirectory path name size) (t.put path name ⟨true, size⟩ parent file)
  | removed (path : List FileName) (name : FileName) (below : path ++ [name] ≠ [])
      (empty : t.children (path ++ [name]) = []) :
      Served t (.removeDirectory path name) (t.remove (path ++ [name]) below)
  | unlinked (path : List FileName) (name : FileName) (below : path ++ [name] ≠ [])
      (file : t.isDirectory (path ++ [name]) = false) :
      Served t (.unlink path name) (t.remove (path ++ [name]) below)
  | kept (path : List FileName) (name : FileName) (remember : Entry → Entry) :
      Served t (.rename path name path name remember) t
  | renamed (oldPath newPath : List FileName) (oldName newName : FileName)
      (remember : Entry → Entry) (node : Node UInt64) (found : t.contents oldPath oldName = some node)
      (moves : oldPath ++ [oldName] ≠ newPath ++ [newName])
      (parent : t.isDirectory newPath = true)
      (file : t.isDirectory (newPath ++ [newName]) = false)
      (inside : ¬oldPath ++ [oldName] <+: newPath ++ [newName]) :
      Served t (.rename oldPath oldName newPath newName remember)
        (t.move (oldPath ++ [oldName]) newPath newName parent inside)

theorem served_rename (h : serve t (.rename oldPath oldName newPath newName remember) = some t') :
    Served t (.rename oldPath oldName newPath newName remember) t' := by
  by_cases hsome : (t.contents oldPath oldName).isSome
  · obtain ⟨node, hnode⟩ := Option.isSome_iff_exists.mp hsome
    by_cases hne : oldPath ++ [oldName] = newPath ++ [newName]
    · simp only [serve, hsome, not_true_eq_false, if_false, if_pos hne, some.injEq] at h
      obtain ⟨rfl, hname⟩ := append_inj' hne rfl
      rw [singleton_inj.mp hname, ← h]
      exact .kept _ _ _
    · simp only [serve, hsome, not_true_eq_false, if_false, if_neg hne,
        Option.dite_none_right_eq_some, some.injEq] at h
      obtain ⟨⟨hparent, hfile, hinside⟩, rfl⟩ := h
      exact .renamed _ _ _ _ _ node hnode hne hparent hfile hinside
  · simp only [serve, if_pos hsome] at h
    cases h

theorem served_of_serve (h : serve t operation = some t') : Served t operation t' := by
  cases operation with
  | list path slashed entries =>
    simp only [serve, Option.ite_none_right_eq_some, some.injEq] at h
    obtain ⟨⟨hdirectory, hlists⟩, rfl⟩ := h
    exact .listed _ _ _ hdirectory hlists
  | createFile path name size =>
    simp only [serve, Option.dite_none_right_eq_some, some.injEq] at h
    obtain ⟨⟨hparent, hfile⟩, rfl⟩ := h
    exact .created _ _ _ hparent hfile
  | makeDirectory path name size =>
    simp only [serve, Option.dite_none_right_eq_some, some.injEq] at h
    obtain ⟨⟨hparent, hfile, hnew⟩, rfl⟩ := h
    exact .made _ _ _ hparent hfile hnew
  | removeDirectory path name =>
    simp only [serve, Option.ite_none_right_eq_some, some.injEq] at h
    obtain ⟨⟨-, hempty⟩, rfl⟩ := h
    exact .removed _ _ _ hempty
  | unlink path name =>
    simp only [serve, Option.ite_none_right_eq_some, some.injEq] at h
    obtain ⟨⟨-, hfile⟩, rfl⟩ := h
    exact .unlinked _ _ _ hfile
  | rename oldPath oldName newPath newName remember => exact served_rename h

theorem Inv.serve (h : Inv t c) (hserved : Served t operation t')
    (hundisturbed : Undisturbed ⟨t, c⟩ operation) : Inv t' (commit c operation) := by
  cases hserved with
  | listed path slashed entries directory lists => exact h.list slashed directory lists
  | created path name size parent file => exact h.createFile parent file
  | made path name size parent file new => exact h.makeDirectory parent file new
  | removed path name below empty => exact h.removeDirectory below empty
  | unlinked path name below file => exact h.unlink below file
  | kept path name remember => exact h.renameSame remember
  | renamed oldPath newPath oldName newName remember node found moves parent file inside =>
    exact h.rename remember parent file inside found moves hundisturbed

theorem Inv.step (h : Inv s.server s.cache) (operation : Operation)
    (hundisturbed : Undisturbed s operation) :
    Inv (step s operation).1.server (step s operation).1.cache := by
  unfold NetFTP.step
  cases hserve : NetFTP.serve s.server operation with
  | none => exact h
  | some t' => exact h.serve (served_of_serve hserve) hundisturbed

/-- Over every run whose renames are undisturbed, the cache does not contradict the server. -/
theorem coherent_of_undisturbed (t : Server) (operations : List Operation)
    (hundisturbed : Meets step Undisturbed { server := t } operations) :
    Coherent (runAll step { server := t } operations).1 := by
  have hinv := runAll_meets Undisturbed (fun s (_ : List Unit) => Inv s.server s.cache)
    (fun s _ operation hmeets h => h.step operation hmeets) [] operations hundisturbed
    (fun key directory hcached => nomatch hcached)
  exact fun key directory hcached _ => hinv key directory hcached

/-! ## Runs of renames -/

instance (s : Client) : ∀ operation, Decidable (Undisturbed s operation)
  | .rename _ _ _ _ _ => inferInstanceAs (Decidable (_ ∨ _))
  | .list _ _ _ | .createFile _ _ _ | .makeDirectory _ _ _ | .removeDirectory _ _ | .unlink _ _ =>
    inferInstanceAs (Decidable True)

def letter (b : UInt8) (h : b ≠ slash ∧ b ≠ 0x2E ∧ b ≠ 0) : FileName where
  bytes := [b]
  isName := by
    obtain ⟨hslash, hdot, -⟩ := h
    refine ⟨cons_ne_nil _ _, ?_, ?_, ?_⟩
    · rw [mem_singleton]
      exact hslash.symm
    · exact fun heq => hdot (singleton_inj.mp heq)
    · exact fun heq => nomatch (List.cons.inj heq).2
  noNul := by
    rw [mem_singleton]
    exact h.2.2.symm

def nameA : FileName := letter 0x61 (by decide)
def nameB : FileName := letter 0x62 (by decide)
def nameD : FileName := letter 0x64 (by decide)

/-- Two files and a directory. -/
def requests : List Operation :=
  [.createFile [] nameA 1, .createFile [] nameB 2, .makeDirectory [] nameD 0]

def fileA : Entry := { name := nameA.bytes, size := 1, mode := regular }
def fileB : Entry := { name := nameB.bytes, size := 2, mode := regular }
def directoryD : Entry := { name := nameD.bytes, mode := directoryMode }

/-- A file is moved to a directory that is cached, too. -/
def moveAway : List Operation :=
  requests ++ [.list [] true [fileA, fileB, directoryD], .list [nameD] true [],
    .rename [] nameA [nameD] nameB id]

/-- A directory that is cached gets another name. -/
def renameCached : List Operation :=
  requests ++ [.list [nameD] true [], .rename [] nameD [] (letter 0x65 (by decide)) id]

/-- A file is renamed to another one. -/
def renameOnto : List Operation :=
  requests ++ [.list [] true [fileA, fileB, directoryD], .rename [] nameA [] nameB id]

/-- A file is moved to a cached directory from one that is not. -/
def moveFromUncached : List Operation :=
  requests ++ [.list [nameD] true [], .rename [] nameA [nameD] nameB id]

theorem coherent_of_undisturbed_moveAway :
    Coherent (runAll step { server := .empty 0 } moveAway).1 :=
  coherent_of_undisturbed (.empty 0) moveAway (by decide +kernel)

/-- The cache keeps a directory that is gone, has two entries of a name, or misses one. -/
theorem rename_contradicts : ¬Coherent (runAll step { server := .empty 0 } renameCached).1 ∧
      ¬Coherent (runAll step { server := .empty 0 } renameOnto).1 ∧
      ¬Coherent (runAll step { server := .empty 0 } moveFromUncached).1 := by
  refine ⟨fun h => ?_, fun h => ?_, fun h => ?_⟩
  · have hagrees := h (directoryText [nameD]) { entries := [], path := directoryText [nameD] }
      (by decide +kernel) rfl
    have hgone : (runAll step { server := .empty 0 } renameCached).1.server.isDirectory [nameD] =
        false := by decide +kernel
    rw [hagrees.mirrors_at.1] at hgone
    exact absurd hgone.symm Bool.false_ne_true
  · have hagrees := h (directoryText [])
      { entries := [{ fileA with name := nameB.bytes }, fileB, directoryD], path := directoryText [] }
      (by decide +kernel) rfl
    exact absurd hagrees.mirrors_at.2.distinct (by decide +kernel)
  · have hagrees := h (directoryText [nameD]) { entries := [], path := directoryText [nameD] }
      (by decide +kernel) rfl
    have hthere : ((runAll step { server := .empty 0 } moveFromUncached).1.server.contents [nameD]
        nameB).isSome := by decide +kernel
    exact absurd (hagrees.mirrors_at.2.mem_names.mpr hthere) not_mem_nil

end WinCommander.VFS.NetFTP
