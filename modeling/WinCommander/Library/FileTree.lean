/-
  Trees of named nodes, and what the requests to a file server do to them.

  A tree lists its nodes with the names on the way to each. A request that cannot be met has no
  tree as its result. `find_put`, `find_remove` and `find_move` say what each request leaves where.
-/
import Mathlib

namespace WinCommander.Library

open List Function

variable {ν α : Type}

structure Node (α : Type) where
  directory : Bool
  attributes : α
deriving DecidableEq

structure FileTree (ν α : Type) where
  nodes : List (List ν × Node α)
  unique : (nodes.map Prod.fst).Nodup
  root : ∃ a, ([], ⟨true, a⟩) ∈ nodes
  closed : ∀ path name node, (path ++ [name], node) ∈ nodes → ∃ a, (path, ⟨true, a⟩) ∈ nodes

namespace FileTree

/-- The root alone. -/
def empty (a : α) : FileTree ν α where
  nodes := [([], ⟨true, a⟩)]
  unique := nodup_singleton _
  root := ⟨a, mem_singleton_self _⟩
  closed path name node h :=
    absurd (Prod.mk.inj (mem_singleton.mp h)).1 (append_ne_nil_of_right_ne_nil _ (by simp))

variable [DecidableEq ν] (t : FileTree ν α)

def find (path : List ν) : Option (Node α) :=
  (t.nodes.find? fun entry => entry.1 = path).map Prod.snd

/-- The names and nodes in a directory. -/
def children (path : List ν) : List (ν × Node α) :=
  t.nodes.filterMap fun entry =>
    if entry.1.dropLast = path then entry.1.getLast?.map fun name => (name, entry.2) else none

def isDirectory (path : List ν) : Bool := (t.find path).any Node.directory

variable {t}

/-! ## Finding -/

variable {node : Node α} {path : List ν} {name : ν}

theorem find_eq_some : t.find path = some node ↔ (path, node) ∈ t.nodes := by
  unfold find
  constructor
  · intro h
    obtain ⟨⟨found, node'⟩, hfind, rfl⟩ := Option.map_eq_some_iff.mp h
    have hsame := List.find?_some hfind
    rw [decide_eq_true_eq] at hsame
    exact hsame ▸ List.mem_of_find?_eq_some hfind
  · intro hmem
    cases hfind : t.nodes.find? fun entry => entry.1 = path with
    | none =>
      have hnot := List.find?_eq_none.mp hfind _ hmem
      simp at hnot
    | some found =>
      have hsame := List.find?_some hfind
      rw [decide_eq_true_eq] at hsame
      have hequal := inj_on_of_nodup_map t.unique (List.mem_of_find?_eq_some hfind) hmem hsame
      rw [hequal]
      rfl

theorem find_parent (h : t.find (path ++ [name]) = some node) :
    ∃ a, t.find path = some ⟨true, a⟩ := by
  obtain ⟨a, h⟩ := t.closed path name node (find_eq_some.mp h)
  exact ⟨a, find_eq_some.mpr h⟩

theorem isDirectory_iff : t.isDirectory path ↔ ∃ a, t.find path = some ⟨true, a⟩ := by
  unfold isDirectory
  rw [Option.any_eq_true]
  constructor
  · rintro ⟨⟨directory, a⟩, hfind, hdirectory⟩
    have hdirectory' : directory := hdirectory
    subst hdirectory'
    exact ⟨a, hfind⟩
  · rintro ⟨a, hfind⟩
    exact ⟨_, hfind, rfl⟩

/-- Everything above a node is a directory. -/
theorem isDirectory_of_below (h : t.find (path ++ rest) = some node) (hne : rest ≠ [])
    : t.isDirectory path := by
  induction rest using reverseRecOn generalizing node with
  | nil => exact absurd rfl hne
  | append_singleton rest name ih =>
    rw [← append_assoc] at h
    obtain ⟨a, hparent⟩ := find_parent h
    by_cases hrest : rest = []
    · subst hrest
      rw [append_nil] at hparent
      exact isDirectory_iff.mpr ⟨a, hparent⟩
    · exact ih hparent hrest

/-- Nothing is below a file or below a path without a node. -/
theorem find_below (h : t.isDirectory path = false) (hne : rest ≠ []) :
    t.find (path ++ rest) = none := by
  cases hfind : t.find (path ++ rest) with
  | none => rfl
  | some node =>
    rw [isDirectory_of_below hfind hne] at h
    exact absurd h.symm Bool.false_ne_true

theorem mem_children : (name, node) ∈ t.children path ↔ t.find (path ++ [name]) = some node := by
  rw [find_eq_some]
  unfold children
  rw [mem_filterMap]
  constructor
  · rintro ⟨⟨found, node'⟩, hmem, heq⟩
    by_cases hparent : found.dropLast = path
    · rw [if_pos hparent] at heq
      obtain ⟨name', hlast, heq⟩ := Option.map_eq_some_iff.mp heq
      obtain ⟨rfl, rfl⟩ := Prod.mk.inj heq
      rw [← hparent, dropLast_append_getLast? _ hlast]
      exact hmem
    · rw [if_neg hparent] at heq
      cases heq
  · intro hmem
    refine ⟨(path ++ [name], node), hmem, ?_⟩
    rw [if_pos dropLast_concat, List.getLast?_concat]
    rfl

theorem children_nodup (t : FileTree ν α) (path : List ν) :
    ((t.children path).map Prod.fst).Nodup := by
  have hsub : ((t.children path).map fun child => path ++ [child.1]).Sublist
      (t.nodes.map Prod.fst) := by
    unfold children
    induction t.nodes with
    | nil => exact Sublist.refl _
    | cons entry nodes ih =>
      by_cases hparent : entry.1.dropLast = path
      · cases hlast : entry.1.getLast? with
        | none =>
          rw [filterMap_cons_none (by rw [if_pos hparent, hlast]; rfl)]
          exact ih.cons _
        | some name =>
          rw [filterMap_cons_some (by rw [if_pos hparent, hlast]; rfl), map_cons, map_cons]
          have hwhole : path ++ [name] = entry.1 := by
            rw [← hparent, dropLast_append_getLast? _ hlast]
          rw [hwhole]
          exact ih.cons_cons _
      · rw [filterMap_cons_none (by rw [if_neg hparent])]
        exact ih.cons _
  have hnodup := t.unique.sublist hsub
  refine Nodup.of_map (fun name => path ++ [name]) ?_
  rw [map_map]
  exact hnodup

/-! ## Requests -/

/-- A node in a directory, in the place of what was there if that is a file. -/
def put (t : FileTree ν α) (path : List ν) (name : ν) (node : Node α)
    (hparent : t.isDirectory path = true) (hfile : t.isDirectory (path ++ [name]) = false) :
    FileTree ν α where
  nodes := t.nodes.filter (fun entry => entry.1 ≠ path ++ [name]) ++ [(path ++ [name], node)]
  unique := by
    rw [map_append]
    refine nodup_append.mpr ⟨t.unique.sublist (filter_sublist.map _), nodup_singleton _, ?_⟩
    intro other hother this hthis hsame
    obtain ⟨entry, hentry, rfl⟩ := mem_map.mp hother
    rw [mem_singleton.mp hthis] at hsame
    exact of_decide_eq_true (mem_filter.mp hentry).2 hsame
  root := by
    obtain ⟨a, h⟩ := t.root
    exact ⟨a, mem_append_left _ (mem_filter.mpr ⟨h, by simp⟩)⟩
  closed other child node' h := by
    have hkept : ∀ {a}, (other, ⟨true, a⟩) ∈ t.nodes → other ≠ path ++ [name] →
        ∃ a, (other, (⟨true, a⟩ : Node α)) ∈
          t.nodes.filter (fun entry => entry.1 ≠ path ++ [name]) ++ [(path ++ [name], node)] :=
      fun hmem hne => ⟨_, mem_append_left _ (mem_filter.mpr ⟨hmem, decide_eq_true hne⟩)⟩
    obtain hold | hnew := mem_append.mp h
    · obtain ⟨a, hother⟩ := t.closed other child node' (mem_filter.mp hold).1
      refine hkept hother ?_
      rintro rfl
      rw [isDirectory_iff.mpr ⟨a, find_eq_some.mpr hother⟩] at hfile
      exact absurd hfile.symm Bool.false_ne_true
    · obtain ⟨hpath, -⟩ := Prod.mk.inj (mem_singleton.mp hnew)
      obtain ⟨rfl, -⟩ := append_inj' hpath rfl
      obtain ⟨a, hother⟩ := isDirectory_iff.mp hparent
      exact hkept (find_eq_some.mp hother) (by simp)

/-- Everything at and below a path goes. -/
def remove (t : FileTree ν α) (path : List ν) (hne : path ≠ []) : FileTree ν α where
  nodes := t.nodes.filter fun entry => ¬path <+: entry.1
  unique := t.unique.sublist (filter_sublist.map _)
  root := by
    obtain ⟨a, h⟩ := t.root
    refine ⟨a, mem_filter.mpr ⟨h, decide_eq_true fun hle => hne ?_⟩⟩
    exact prefix_nil.mp hle
  closed other name node h := by
    obtain ⟨hmem, hnot⟩ := mem_filter.mp h
    obtain ⟨a, hother⟩ := t.closed other name node hmem
    refine ⟨a, mem_filter.mpr ⟨hother, decide_eq_true fun hle => ?_⟩⟩
    exact of_decide_eq_true hnot (hle.trans (prefix_append _ _))

/-- Where an entry is after its tree was moved. -/
def movedPath (old new path : List ν) : List ν :=
  if old <+: path then new ++ path.drop old.length else path

theorem movedPath_below (h : old <+: path) :
    movedPath old new path = new ++ path.drop old.length := if_pos h

theorem movedPath_of_not (h : ¬old <+: path) : movedPath old new path = path := if_neg h

omit [DecidableEq ν] in
theorem append_drop_of_prefix (h : old <+: path) : old ++ path.drop old.length = path := by
  obtain ⟨rest, rfl⟩ := h
  rw [drop_left]

/-- Outside the target, different entries go to different places. -/
theorem movedPath_injOn {old new a b : List ν} (ha : ¬new <+: a) (hb : ¬new <+: b)
    (h : movedPath old new a = movedPath old new b) : a = b := by
  by_cases hold : old <+: a
  · rw [movedPath_below hold] at h
    by_cases hold' : old <+: b
    · rw [movedPath_below hold'] at h
      rw [← append_drop_of_prefix hold, ← append_drop_of_prefix hold', append_cancel_left h]
    · rw [movedPath_of_not hold'] at h
      exact absurd (h ▸ prefix_append _ _) hb
  · rw [movedPath_of_not hold] at h
    by_cases hold' : old <+: b
    · rw [movedPath_below hold'] at h
      exact absurd (h ▸ prefix_append _ _) ha
    · rw [movedPath_of_not hold'] at h
      exact h

/-- A node with everything below it, in the place of everything at the target. -/
def move (t : FileTree ν α) (old path : List ν) (name : ν) (hparent : t.isDirectory path = true)
    (hinside : ¬old <+: path ++ [name]) : FileTree ν α where
  nodes := (t.nodes.filter fun entry => ¬path ++ [name] <+: entry.1).map fun entry =>
    (movedPath old (path ++ [name]) entry.1, entry.2)
  unique := by
    rw [map_map]
    have hnodup : ((t.nodes.filter fun entry => ¬path ++ [name] <+: entry.1).map Prod.fst).Nodup :=
      t.unique.sublist (filter_sublist.map _)
    have hmoved := List.Nodup.map_on (f := movedPath old (path ++ [name]))
      (fun a ha b hb h => by
        obtain ⟨entry, hentry, rfl⟩ := mem_map.mp ha
        obtain ⟨entry', hentry', rfl⟩ := mem_map.mp hb
        exact movedPath_injOn (of_decide_eq_true (mem_filter.mp hentry).2)
          (of_decide_eq_true (mem_filter.mp hentry').2) h) hnodup
    rw [map_map] at hmoved
    exact hmoved
  root := by
    obtain ⟨a, h⟩ := t.root
    refine ⟨a, mem_map.mpr ⟨([], ⟨true, a⟩), mem_filter.mpr ⟨h, by simp⟩, ?_⟩⟩
    rw [movedPath_of_not]
    intro hle
    rw [prefix_nil.mp hle] at hinside
    exact hinside nil_prefix
  closed other child node h := by
    -- A directory that is neither at the target nor below it has its place in the new tree.
    have hkept : ∀ {path' a}, (path', ⟨true, a⟩) ∈ t.nodes → ¬path ++ [name] <+: path' →
        ∃ a, (movedPath old (path ++ [name]) path', (⟨true, a⟩ : Node α)) ∈
          (t.nodes.filter fun entry => ¬path ++ [name] <+: entry.1).map fun entry =>
            (movedPath old (path ++ [name]) entry.1, entry.2) :=
      fun hmem hnot => ⟨_, mem_map.mpr ⟨_, mem_filter.mpr ⟨hmem, decide_eq_true hnot⟩, rfl⟩⟩
    obtain ⟨⟨from_, node'⟩, hmem, heq⟩ := mem_map.mp h
    obtain ⟨hmem, hnot⟩ := mem_filter.mp hmem
    have hnot : ¬path ++ [name] <+: from_ := of_decide_eq_true hnot
    have hpath : movedPath old (path ++ [name]) from_ = other ++ [child] := (Prod.mk.inj heq).1
    by_cases hold : old <+: from_
    · obtain ⟨rest, rfl⟩ := hold
      rw [movedPath_below (prefix_append _ _), drop_left] at hpath
      obtain rfl | ⟨rest, last, rfl⟩ := eq_nil_or_concat rest
      · rw [append_nil] at hpath
        obtain ⟨rfl, -⟩ := append_inj' hpath rfl
        obtain ⟨a, hdirectory⟩ := isDirectory_iff.mp hparent
        have hstay := hkept (find_eq_some.mp hdirectory) (by
          intro hle
          have := hle.length_le
          rw [length_append, length_singleton] at this
          omega)
        rwa [movedPath_of_not fun hle => hinside (hle.trans (prefix_append _ _))] at hstay
      · rw [concat_eq_append, ← append_assoc] at hpath hnot hmem
        obtain ⟨rfl, -⟩ := append_inj' hpath rfl
        obtain ⟨a, hdirectory⟩ := t.closed _ _ _ hmem
        have hstay := hkept hdirectory fun hle => hnot (hle.trans (prefix_append _ _))
        rwa [movedPath_below (prefix_append _ _), drop_left] at hstay
    · rw [movedPath_of_not hold] at hpath
      subst hpath
      obtain ⟨a, hdirectory⟩ := t.closed _ _ _ hmem
      have hstay := hkept hdirectory fun hle => hnot (hle.trans (prefix_append _ _))
      rwa [movedPath_of_not fun hle => hold (hle.trans (prefix_append _ _))] at hstay

/-! ## What a request leaves -/

variable (hparent : t.isDirectory path)

theorem find_put (hfile : t.isDirectory (path ++ [name]) = false) (other : List ν) :
    (t.put path name node hparent hfile).find other =
      if other = path ++ [name] then some node else t.find other := by
  refine Option.ext fun node' => ?_
  have hmem : (other, node') ∈ (t.put path name node hparent hfile).nodes ↔
      ((other, node') ∈ t.nodes ∧ other ≠ path ++ [name]) ∨
        (other = path ++ [name] ∧ node' = node) := by
    show _ ∈ _ ++ [_] ↔ _
    rw [mem_append, mem_filter, mem_singleton, Prod.mk.injEq, decide_eq_true_eq]
  rw [find_eq_some, hmem]
  split_ifs with hsame
  · simp [hsame, eq_comm]
  · rw [find_eq_some]
    simp [hsame]

theorem find_remove (hne : path ≠ []) (other : List ν) :
    (t.remove path hne).find other = if path <+: other then none else t.find other := by
  refine Option.ext fun node => ?_
  have hmem : (other, node) ∈ (t.remove path hne).nodes ↔
      (other, node) ∈ t.nodes ∧ ¬path <+: other := by
    show _ ∈ filter _ _ ↔ _
    rw [mem_filter, decide_eq_true_eq]
  rw [find_eq_some, hmem]
  split_ifs with hle
  · simp [hle]
  · rw [find_eq_some]
    simp [hle]

theorem find_move (hinside : ¬old <+: path ++ [name]) (habove : ¬path ++ [name] <+: old)
    (other : List ν) : (t.move old path name hparent hinside).find other =
      if path ++ [name] <+: other then t.find (old ++ other.drop (path ++ [name]).length)
      else if old <+: other then none else t.find other := by
  refine Option.ext fun node => ?_
  have hmem : (other, node) ∈ (t.move old path name hparent hinside).nodes ↔
      ∃ from_, (from_, node) ∈ t.nodes ∧ ¬path ++ [name] <+: from_ ∧
        movedPath old (path ++ [name]) from_ = other := by
    show _ ∈ List.map _ _ ↔ _
    rw [mem_map]
    constructor
    · rintro ⟨⟨from_, node'⟩, hmem, heq⟩
      obtain ⟨hmem, hnot⟩ := mem_filter.mp hmem
      obtain ⟨hpath, rfl⟩ := Prod.mk.inj heq
      exact ⟨from_, hmem, of_decide_eq_true hnot, hpath⟩
    · rintro ⟨from_, hmem, hnot, rfl⟩
      exact ⟨(from_, node), mem_filter.mpr ⟨hmem, decide_eq_true hnot⟩, rfl⟩
  rw [find_eq_some, hmem]
  by_cases hnew : path ++ [name] <+: other
  · rw [if_pos hnew, find_eq_some]
    obtain ⟨rest, rfl⟩ := hnew
    rw [drop_left]
    constructor
    · rintro ⟨from_, hmem, hnot, hpath⟩
      by_cases hold : old <+: from_
      · obtain ⟨rest', rfl⟩ := hold
        rw [movedPath_below (prefix_append _ _), drop_left] at hpath
        rw [← append_cancel_left hpath]
        exact hmem
      · rw [movedPath_of_not hold] at hpath
        exact absurd (hpath ▸ prefix_append _ _) hnot
    · intro hmem
      refine ⟨old ++ rest, hmem, ?_, ?_⟩
      · -- The target is not inside what is moved, nor above it.
        intro hle
        obtain h | h := prefix_or_prefix_of_prefix hle (prefix_append old rest)
        · exact habove h
        · exact hinside h
      · rw [movedPath_below (prefix_append _ _), drop_left]
  · rw [if_neg hnew]
    split_ifs with hold
    · constructor
      · rintro ⟨from_, hmem, hnot, hpath⟩
        by_cases hfrom : old <+: from_
        · rw [movedPath_below hfrom] at hpath
          exact absurd (hpath ▸ prefix_append _ _) hnew
        · rw [movedPath_of_not hfrom] at hpath
          exact absurd (hpath ▸ hold) hfrom
      · exact fun h => nomatch h
    · rw [find_eq_some]
      constructor
      · rintro ⟨from_, hmem, hnot, hpath⟩
        by_cases hfrom : old <+: from_
        · rw [movedPath_below hfrom] at hpath
          exact absurd (hpath ▸ prefix_append _ _) hnew
        · rw [movedPath_of_not hfrom] at hpath
          exact hpath ▸ hmem
      · intro hmem
        exact ⟨other, hmem, hnew, movedPath_of_not hold⟩

/-! ## The contents of a directory -/

/-- The nodes in a directory by their names. -/
def contents (t : FileTree ν α) (path : List ν) (name : ν) : Option (Node α) :=
  t.find (path ++ [name])

omit [DecidableEq ν] in
theorem concat_prefix_concat (h : path ++ [name] <+: other ++ [name']) :
    path ++ [name] <+: other ∨ (other = path ∧ name' = name) := by
  obtain heq | hle := prefix_concat_iff.mp h
  · obtain ⟨rfl, hname⟩ := append_inj' heq rfl
    exact .inr ⟨rfl, (singleton_inj.mp hname).symm⟩
  · exact .inl hle

omit [DecidableEq ν] in
theorem concat_inj : other ++ [name'] = path ++ [name] ↔ other = path ∧ name' = name := by
  constructor
  · intro h
    obtain ⟨rfl, hname⟩ := append_inj' h rfl
    exact ⟨rfl, singleton_inj.mp hname⟩
  · rintro ⟨rfl, rfl⟩
    rfl

theorem contents_put (hfile : t.isDirectory (path ++ [name]) = false) (other : List ν) :
    (t.put path name node hparent hfile).contents other =
      if other = path then update (t.contents path) name (some node) else t.contents other := by
  funext name'
  unfold contents
  rw [find_put]
  by_cases hsame : other = path
  · subst hsame
    rw [if_pos rfl]
    by_cases hname : name' = name
    · rw [hname, if_pos rfl, update_self]
    · rw [if_neg fun h => hname (concat_inj.mp h).2, update_of_ne hname]
  · rw [if_neg fun h => hsame (concat_inj.mp h).1, if_neg hsame]

theorem isDirectory_put (hfile : t.isDirectory (path ++ [name]) = false) (h : t.isDirectory other) :
    (t.put path name node hparent hfile).isDirectory other := by
  unfold isDirectory
  rw [find_put, if_neg]
  · exact h
  · rintro rfl
    rw [hfile] at h
    cases h

theorem contents_remove (hne : path ++ [name] ≠ []) (hnot : ¬path ++ [name] <+: other) :
    (t.remove (path ++ [name]) hne).contents other =
      if other = path then update (t.contents path) name none else t.contents other := by
  funext name'
  unfold contents
  rw [find_remove]
  by_cases hle : path ++ [name] <+: other ++ [name']
  · obtain ⟨rfl, rfl⟩ := (concat_prefix_concat hle).resolve_left hnot
    rw [if_pos (prefix_refl _), if_pos rfl, update_self]
  · rw [if_neg hle]
    by_cases hsame : other = path
    · subst hsame
      rw [if_pos rfl, update_of_ne]
      rintro rfl
      exact hle (prefix_refl _)
    · rw [if_neg hsame]

theorem isDirectory_remove (hne : path ≠ []) (hnot : ¬path <+: other) :
    (t.remove path hne).isDirectory other = t.isDirectory other := by
  unfold isDirectory
  rw [find_remove, if_neg hnot]

/-- The entry goes from one directory to another, or to another name in the same one. -/
theorem contents_move (hparent : t.isDirectory newPath)
    (hinside : ¬oldPath ++ [oldName] <+: newPath ++ [newName])
    (habove : ¬newPath ++ [newName] <+: oldPath ++ [oldName])
    (hold : ¬oldPath ++ [oldName] <+: other) (hnew : ¬newPath ++ [newName] <+: other) :
    (t.move (oldPath ++ [oldName]) newPath newName hparent hinside).contents other =
      let rest := if other = oldPath then update (t.contents other) oldName none
        else t.contents other
      if other = newPath then update rest newName (t.contents oldPath oldName)
      else rest := by
  funext name
  have hfind := find_move hparent hinside habove (other ++ [name])
  unfold contents
  rw [hfind]
  by_cases hle : newPath ++ [newName] <+: other ++ [name]
  · obtain ⟨rfl, rfl⟩ := (concat_prefix_concat hle).resolve_left hnew
    rw [if_pos (prefix_refl _), if_pos rfl, update_self, drop_length, append_nil]
  · rw [if_neg hle]
    have houter : ∀ f : ν → Option (Node α),
        (if other = newPath then update f newName (t.contents oldPath oldName) else f) name =
          f name := by
      intro f
      split_ifs with hsame
      · rw [update_of_ne]
        rintro rfl
        exact hle (hsame ▸ prefix_refl _)
      · rfl
    unfold contents at houter
    rw [houter]
    by_cases hle' : oldPath ++ [oldName] <+: other ++ [name]
    · obtain ⟨rfl, rfl⟩ := (concat_prefix_concat hle').resolve_left hold
      rw [if_pos (prefix_refl _), if_pos rfl, update_self]
    · rw [if_neg hle']
      split_ifs with hsame
      · rw [update_of_ne]
        rintro rfl
        exact hle' (hsame ▸ prefix_refl _)
      · rfl

theorem isDirectory_move (hinside : ¬old <+: path ++ [name]) (habove : ¬path ++ [name] <+: old)
    (hold : ¬old <+: other) (hnew : ¬path ++ [name] <+: other) :
    (t.move old path name hparent hinside).isDirectory other = t.isDirectory other := by
  unfold isDirectory
  rw [find_move hparent hinside habove, if_neg hnew, if_neg hold]

end FileTree

end WinCommander.Library
