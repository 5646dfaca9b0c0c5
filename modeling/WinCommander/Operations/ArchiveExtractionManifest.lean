/-
  `ArchiveExtractionManifest::Build`: the entries of an archive are put one by one into a trie of
  names, and the first that does not fit is reported.

  Which entries are accepted does not depend on their order (`build_iff`): each entry has to be safe
  by itself, and any two have to be `Compatible`. The step lemma is `addEntry_ok_iff`; what the trie
  knows of the entries added so far is `Represents`.
-/
import WinCommander.Library.Trie
import WinCommander.Library.Path

namespace WinCommander.Operations

open Library List Option Trie
open Library.Path (slash dot dotDot)

namespace ArchiveExtraction

/-- `g_MaximumArchiveExtractionDepth`. -/
def maximumDepth : Nat := 127

inductive EntryKind where
  | regularFile | directory | symlink | special
deriving DecidableEq

structure MaterializedEntry where
  components : List Bytes := []
  kind : EntryKind := .special
deriving DecidableEq

inductive FailureCode where
  | emptyPath | emptyComponent | dotComponent | dotDotComponent | componentContainsPathSeparator
  | componentContainsNull | depthExceeded | specialEntryKind | invalidDestinationName | duplicatePath
  | caseCollision | fileOrSymlinkAncestor | fileDirectoryPrefixConflict
deriving DecidableEq

structure Failure where
  code : FailureCode := .emptyPath
  entryIndex : Nat := 0
  componentIndex : Option Nat := none
  conflictingEntryIndex : Option Nat := none
deriving DecidableEq

structure ArchiveExtractionManifest where
  entries : List MaterializedEntry
  destinationCaseSensitive : Bool
deriving DecidableEq

/-- `none` is what a validator that throws answers. -/
abbrev NameValidator := Bytes → Option Bool

structure NodeData where
  spelling : Bytes := []
  firstEntryIndex : Nat := 0
  explicitKind : Option EntryKind := none
  explicitEntryIndex : Option Nat := none
deriving DecidableEq

/-- The children are found by the identities of their names. -/
abbrev NamespaceNode := Trie Bytes NodeData

def identityComponent (component : Bytes) (caseSensitive : Bool) : Bytes :=
  if caseSensitive then component else Path.fold component

def isSupportedKind : EntryKind → Bool
  | .regularFile | .directory | .symlink => true
  | .special => false

/-- The checks of `ValidateComponents` on one component. -/
def validateComponent (validator : Option NameValidator) (component : Bytes) : Option FailureCode :=
  if component = [] then some .emptyComponent
  else if component = dot then some .dotComponent
  else if component = dotDot then some .dotDotComponent
  else if slash ∈ component then some .componentContainsPathSeparator
  else if 0 ∈ component then some .componentContainsNull
  else
    match validator with
    | none => none
    | some valid => if (valid component).getD false then none else some .invalidDestinationName

def validateFrom (validator : Option NameValidator) (entryIndex : Nat) :
    Nat → List Bytes → Option Failure
  | _, [] => none
  | componentIndex, component :: rest =>
    match validateComponent validator component with
    | some code => some { code, entryIndex, componentIndex := some componentIndex }
    | none => validateFrom validator entryIndex (componentIndex + 1) rest

def validateComponents (entry : MaterializedEntry) (entryIndex : Nat)
    (validator : Option NameValidator) : Option Failure :=
  if entry.components = [] then some { code := .emptyPath, entryIndex }
  else if entry.components.length > maximumDepth then
    some { code := .depthExceeded, entryIndex, componentIndex := some maximumDepth }
  else if !isSupportedKind entry.kind then some { code := .specialEntryKind, entryIndex }
  else validateFrom validator entryIndex 0 entry.components

/-- `FirstDescendantEntry`: that of the first child. -/
def firstDescendantEntry (node : NamespaceNode) : Option Nat :=
  node.children.head?.map fun row => row.2.data.firstEntryIndex

section Building

variable (caseSensitive : Bool) (entry : MaterializedEntry) (entryIndex : Nat)

/-- The child of a component; it is made where there is none. -/
def enterChild (node : NamespaceNode) (component : Bytes) (componentIndex : Nat) :
    Except Failure NamespaceNode :=
  match node.child (identityComponent component caseSensitive) with
  | none => .ok (.leaf { spelling := component, firstEntryIndex := entryIndex })
  | some child =>
    if child.data.spelling ≠ component then
      .error { code := .caseCollision, entryIndex, componentIndex := some componentIndex
               conflictingEntryIndex := some child.data.firstEntryIndex }
    else .ok child

/-- What is done at the end of the path. -/
def claimNode (node : NamespaceNode) : Except Failure NamespaceNode :=
  let failure code conflicting : Failure :=
    { code, entryIndex, componentIndex := some (entry.components.length - 1)
      conflictingEntryIndex := conflicting }
  match node.data.explicitKind with
  | some kind =>
    if kind = entry.kind then .error (failure .duplicatePath node.data.explicitEntryIndex)
    else if kind = .directory ∨ entry.kind = .directory then
      .error (failure .fileDirectoryPrefixConflict node.data.explicitEntryIndex)
    else .error (failure .duplicatePath node.data.explicitEntryIndex)
  | none =>
    if entry.kind ≠ .directory ∧ node.children ≠ [] then
      .error (failure .fileOrSymlinkAncestor (firstDescendantEntry node))
    else .ok { node with data := { node.data with
      explicitKind := some entry.kind, explicitEntryIndex := some entryIndex } }

/-- The walk down the components of the entry, from one of them on. -/
def addEntry : Nat → List Bytes → NamespaceNode → Except Failure NamespaceNode
  | _, [], node => claimNode entry entryIndex node
  | componentIndex, component :: rest, node => do
      let child ← enterChild caseSensitive entryIndex node component componentIndex
      if rest ≠ [] ∧ child.data.explicitKind.any (· ≠ .directory) then
        .error { code := .fileOrSymlinkAncestor, entryIndex, componentIndex := some componentIndex
                 conflictingEntryIndex := child.data.explicitEntryIndex }
      else
        let child ← addEntry (componentIndex + 1) rest child
        return node.setChild (identityComponent component caseSensitive) child

end Building

/-- The loop of `Build` over the entries, from one of them on. -/
def buildFrom (caseSensitive : Bool) (validator : Option NameValidator) :
    Nat → List MaterializedEntry → NamespaceNode → Except Failure NamespaceNode
  | _, [], root => .ok root
  | entryIndex, entry :: rest, root =>
    match validateComponents entry entryIndex validator with
    | some failure => .error failure
    | none => do
        let root ← addEntry caseSensitive entry entryIndex 0 entry.components root
        buildFrom caseSensitive validator (entryIndex + 1) rest root

def build (entries : List MaterializedEntry) (destinationCaseSensitive : Bool)
    (validator : Option NameValidator) : Except Failure ArchiveExtractionManifest := do
  let _ ← buildFrom destinationCaseSensitive validator 0 entries (.leaf {})
  return { entries, destinationCaseSensitive }

/-! ## What is accepted -/

/-- A name that can be made in the destination. -/
structure SafeComponent (validator : Option NameValidator) (component : Bytes) : Prop where
  nonempty : component ≠ []
  ne_dot : component ≠ dot
  ne_dotDot : component ≠ dotDot
  simple : slash ∉ component
  terminated : 0 ∉ component
  valid : ∀ valid, validator = some valid → valid component = some true

structure SafeEntry (validator : Option NameValidator) (entry : MaterializedEntry) : Prop where
  nonempty : entry.components ≠ []
  shallow : entry.components.length ≤ maximumDepth
  supported : entry.kind ≠ .special
  components : ∀ component ∈ entry.components, SafeComponent validator component

/-- The path as the destination tells it from others. -/
def identityPath (caseSensitive : Bool) (path : List Bytes) : List Bytes :=
  path.map (identityComponent · caseSensitive)

/-- The entry is at the path, or below it, and makes a directory there. -/
def DirectoryOf (entry : MaterializedEntry) (path : List Bytes) : Prop :=
  path <+: entry.components ∧ (path = entry.components → entry.kind = .directory)

/-- The entries make one tree in the destination. -/
structure ConsistentTree (caseSensitive : Bool) (entries : List MaterializedEntry) : Prop where
  /-- No two entries have one identity. -/
  distinct : (entries.map fun entry => identityPath caseSensitive entry.components).Nodup
  /-- Nothing is below a file or a symlink. -/
  ancestors : ∀ entry ∈ entries, ∀ other ∈ entries, entry.kind ≠ .directory →
    identityPath caseSensitive entry.components <+: identityPath caseSensitive other.components →
    identityPath caseSensitive entry.components = identityPath caseSensitive other.components
  /-- A directory is spelled in one way. -/
  spelled : ∀ entry ∈ entries, ∀ other ∈ entries, ∀ path path', DirectoryOf entry path →
    DirectoryOf other path' → identityPath caseSensitive path = identityPath caseSensitive path' →
    path = path'

/-! ## One entry by itself -/

section Safety

variable {validator : Option NameValidator}

theorem validateComponent_eq_none :
    validateComponent validator component = none ↔ SafeComponent validator component := by
  constructor
  · intro h
    unfold validateComponent at h
    by_cases hempty : component = []
    · rw [if_pos hempty] at h
      cases h
    rw [if_neg hempty] at h
    by_cases hdot : component = dot
    · rw [if_pos hdot] at h
      cases h
    rw [if_neg hdot] at h
    by_cases hdotDot : component = dotDot
    · rw [if_pos hdotDot] at h
      cases h
    rw [if_neg hdotDot] at h
    by_cases hslash : slash ∈ component
    · rw [if_pos hslash] at h
      cases h
    rw [if_neg hslash] at h
    by_cases hnull : 0 ∈ component
    · rw [if_pos hnull] at h
      cases h
    rw [if_neg hnull] at h
    refine ⟨hempty, hdot, hdotDot, hslash, hnull, ?_⟩
    rintro valid rfl
    dsimp only at h
    by_cases hvalid : (valid component).getD false
    · cases hanswer : valid component with
      | none =>
        rw [hanswer] at hvalid
        cases hvalid
      | some answer =>
        rw [hanswer] at hvalid
        exact congrArg some hvalid
    · rw [if_neg hvalid] at h
      cases h
  · rintro ⟨hempty, hdot, hdotDot, hslash, hnull, hvalid⟩
    unfold validateComponent
    rw [if_neg hempty, if_neg hdot, if_neg hdotDot, if_neg hslash, if_neg hnull]
    cases validator with
    | none => rfl
    | some valid =>
      dsimp only
      rw [hvalid valid rfl]
      rfl

theorem validateFrom_eq_none : validateFrom validator entryIndex componentIndex components = none ↔
      ∀ component ∈ components, SafeComponent validator component := by
  induction components generalizing componentIndex with
  | nil => exact iff_of_true rfl fun _ => nofun
  | cons component rest ih =>
    rw [validateFrom, forall_mem_cons, ← validateComponent_eq_none, ← @ih (componentIndex + 1)]
    cases validateComponent validator component with
    | none => exact (and_iff_right rfl).symm
    | some code => exact iff_of_false nofun fun h => nomatch h.1

theorem validateComponents_eq_none :
    validateComponents entry entryIndex validator = none ↔ SafeEntry validator entry := by
  constructor
  · intro h
    unfold validateComponents at h
    by_cases hempty : entry.components = []
    · rw [if_pos hempty] at h
      cases h
    rw [if_neg hempty] at h
    by_cases hdeep : entry.components.length > maximumDepth
    · rw [if_pos hdeep] at h
      cases h
    rw [if_neg hdeep] at h
    by_cases hkind : (!isSupportedKind entry.kind)
    · rw [if_pos hkind] at h
      cases h
    rw [if_neg hkind] at h
    refine ⟨hempty, Nat.le_of_not_lt hdeep, ?_, validateFrom_eq_none.mp h⟩
    rintro hspecial
    rw [hspecial] at hkind
    exact hkind rfl
  · rintro ⟨hempty, hshallow, hkind, hcomponents⟩
    unfold validateComponents
    rw [if_neg hempty, if_neg (Nat.not_lt.mpr hshallow), if_neg ?_]
    · exact validateFrom_eq_none.mpr hcomponents
    · cases hentry : entry.kind with
      | special => exact absurd hentry hkind
      | regularFile => decide
      | directory => decide
      | symlink => decide

end Safety

/-! ## One entry in a trie -/

/-- How the node at the path is spelled. -/
def spellingAt (node : NamespaceNode) (path : List Bytes) : Option Bytes :=
  (node.find path).map (·.data.spelling)

def kindAt (node : NamespaceNode) (path : List Bytes) : Option EntryKind :=
  (node.find path).bind (·.data.explicitKind)

/-- The components can be added below the node, and end in an entry of that kind. -/
structure Fits (caseSensitive : Bool) (kind : EntryKind) (components : List Bytes)
    (node : NamespaceNode) : Prop where
  spelled : ∀ above component below spelling, components = above ++ component :: below →
    spellingAt node (identityPath caseSensitive (above ++ [component])) = some spelling →
    spelling = component
  ancestors : ∀ above component below other, components = above ++ component :: below →
    below ≠ [] → kindAt node (identityPath caseSensitive (above ++ [component])) = some other →
    other = .directory
  free : kindAt node (identityPath caseSensitive components) = none
  childless : kind ≠ .directory →
    ∀ key, spellingAt node (identityPath caseSensitive components ++ [key]) = none

section Adding

variable {caseSensitive : Bool} {entry : MaterializedEntry} {entryIndex componentIndex : Nat}
  {component : Bytes} {components rest : List Bytes} {node child : NamespaceNode} {kind : EntryKind}

theorem identityPath_append (first second : List Bytes) :
    identityPath caseSensitive (first ++ second) =
      identityPath caseSensitive first ++ identityPath caseSensitive second :=
  map_append

/-- The child is a part of the node, or is new. -/
structure ChildOf (caseSensitive : Bool) (node : NamespaceNode) (component : Bytes)
    (child : NamespaceNode) : Prop where
  spelling : child.data.spelling = component
  kinds : ∀ path, kindAt child path = kindAt node (identityComponent component caseSensitive :: path)
  spellings : ∀ path, path ≠ [] →
    spellingAt child path = spellingAt node (identityComponent component caseSensitive :: path)

theorem ChildOf.spellings_concat (h : ChildOf caseSensitive node component child)
    (above : List Bytes) (next : Bytes) :
    spellingAt child (identityPath caseSensitive (above ++ [next])) =
      spellingAt node (identityPath caseSensitive (component :: above ++ [next])) := by
  refine h.spellings _ ?_
  rw [identityPath_append]
  exact concat_ne_nil _ _

theorem isOther_iff {found : Option EntryKind} :
    found.any (· ≠ .directory) ↔ ∃ other, found = some other ∧ other ≠ .directory := by
  cases found with
  | none => exact iff_of_false nofun nofun
  | some other =>
    rw [any_some, decide_eq_true_eq]
    exact ⟨fun h => ⟨other, rfl, h⟩, fun ⟨_, heq, h⟩ => some.inj heq ▸ h⟩

theorem enterChild_childOf
    (h : enterChild caseSensitive entryIndex node component componentIndex = .ok child) :
    ChildOf caseSensitive node component child := by
  unfold enterChild at h
  cases hfound : node.child (identityComponent component caseSensitive) with
  | none =>
    rw [hfound] at h
    cases h
    have hnone : ∀ path, node.find (identityComponent component caseSensitive :: path) = none := by
      intro path
      rw [find_cons, hfound, bind_none]
    refine ⟨rfl, fun path => ?_, fun path hpath => ?_⟩
    · unfold kindAt
      rw [hnone]
      cases path <;> rfl
    · obtain ⟨key, path, rfl⟩ := exists_cons_of_ne_nil hpath
      unfold spellingAt
      rw [hnone]
      rfl
  | some found =>
    rw [hfound] at h
    dsimp only at h
    by_cases hspelling : found.data.spelling ≠ component
    · rw [if_pos hspelling] at h
      cases h
    · rw [if_neg hspelling] at h
      cases h
      have hsome : ∀ path, node.find (identityComponent component caseSensitive :: path) =
          child.find path := by
        intro path
        rw [find_cons, hfound, bind_some]
      refine ⟨not_not.mp hspelling, fun path => ?_, fun path _ => ?_⟩
      · unfold kindAt
        rw [hsome]
      · unfold spellingAt
        rw [hsome]

theorem enterChild_ok_iff :
    (∃ child, enterChild caseSensitive entryIndex node component componentIndex = .ok child) ↔
      ∀ spelling, spellingAt node [identityComponent component caseSensitive] = some spelling →
        spelling = component := by
  unfold enterChild spellingAt
  rw [find_cons]
  cases node.child (identityComponent component caseSensitive) with
  | none => exact iff_of_true ⟨_, rfl⟩ fun _ => nofun
  | some found =>
    by_cases hspelling : found.data.spelling = component
    · refine iff_of_true ⟨found, if_neg (not_not.mpr hspelling)⟩ fun spelling h => ?_
      exact (some.inj h).symm.trans hspelling
    · refine iff_of_false ?_ fun h => hspelling (h found.data.spelling rfl)
      rintro ⟨child, h⟩
      dsimp only at h
      rw [if_pos hspelling] at h
      cases h

/-- What is asked of a node is asked of its data and of its child. -/
theorem fits_cons (h : ChildOf caseSensitive node component child) :
    Fits caseSensitive kind (component :: rest) node ↔
      (∀ spelling, spellingAt node [identityComponent component caseSensitive] = some spelling →
        spelling = component) ∧
      (rest ≠ [] → ∀ other, child.data.explicitKind = some other → other = .directory) ∧
      Fits caseSensitive kind rest child := by
  have hkind : kindAt node [identityComponent component caseSensitive] = child.data.explicitKind :=
    (h.kinds []).symm
  constructor
  · rintro ⟨hspelled, hancestors, hfree, hchildless⟩
    refine ⟨fun spelling hspelling => hspelled [] component rest spelling rfl hspelling,
      fun hrest other hother => hancestors [] component rest other rfl hrest (hkind.trans hother),
      ?_, ?_, ?_, ?_⟩
    · intro above next below spelling heq hspelling
      refine hspelled (component :: above) next below spelling (congrArg _ heq) ?_
      rw [h.spellings_concat] at hspelling
      exact hspelling
    · intro above next below other heq hbelow hother
      refine hancestors (component :: above) next below other (congrArg _ heq) hbelow ?_
      rw [h.kinds] at hother
      exact hother
    · rw [h.kinds]
      exact hfree
    · intro hkind key
      rw [h.spellings _ (concat_ne_nil _ _)]
      exact hchildless hkind key
  · rintro ⟨hspelling, hdirectory, hspelled, hancestors, hfree, hchildless⟩
    refine ⟨?_, ?_, ?_, ?_⟩
    · intro above next below spelling heq hat
      obtain ⟨rfl, hsame⟩ | ⟨above, rfl, hrest⟩ := cons_eq_append_iff.mp heq
      · obtain ⟨rfl, rfl⟩ := cons.inj hsame
        exact hspelling spelling hat
      · refine hspelled above next below spelling hrest ?_
        rw [h.spellings_concat]
        exact hat
    · intro above next below other heq hbelow hat
      obtain ⟨rfl, hsame⟩ | ⟨above, rfl, hrest⟩ := cons_eq_append_iff.mp heq
      · obtain ⟨rfl, rfl⟩ := cons.inj hsame
        exact hdirectory hbelow other (hkind.symm.trans hat)
      · refine hancestors above next below other hrest hbelow ?_
        rw [h.kinds]
        exact hat
    · rw [h.kinds] at hfree
      exact hfree
    · intro hkind key
      have hnone := hchildless hkind key
      rw [h.spellings _ (concat_ne_nil _ _)] at hnone
      exact hnone

theorem claimNode_ok_iff : (∃ claimed, claimNode entry entryIndex node = .ok claimed) ↔
    Fits caseSensitive entry.kind [] node := by
  have hfits : Fits caseSensitive entry.kind [] node ↔
      node.data.explicitKind = none ∧ (entry.kind ≠ .directory → node.children = []) := by
    rw [children_eq_nil]
    constructor
    · intro h
      refine ⟨h.free, fun hkind key => ?_⟩
      have hnone := h.childless hkind key
      unfold spellingAt at hnone
      rw [map_eq_none_iff] at hnone
      change (node.child key).bind _ = none at hnone
      cases hchild : node.child key with
      | none => rfl
      | some found =>
        rw [hchild] at hnone
        cases hnone
    · rintro ⟨hfree, hchildless⟩
      refine ⟨fun above component below _ heq => ?_, fun above component below _ heq => ?_, hfree, ?_⟩
      · exact absurd heq.symm (append_ne_nil_of_right_ne_nil _ (cons_ne_nil _ _))
      · exact absurd heq.symm (append_ne_nil_of_right_ne_nil _ (cons_ne_nil _ _))
      · intro hkind key
        change ((node.child key).bind _).map _ = none
        rw [hchildless hkind key]
        rfl
  rw [hfits]
  unfold claimNode
  cases node.data.explicitKind with
  | some other =>
    refine iff_of_false ?_ fun h => nomatch h.1
    rintro ⟨claimed, h⟩
    dsimp only at h
    split_ifs at h
  | none =>
    dsimp only
    split_ifs with hblocked
    · refine iff_of_false (fun h => nomatch h) fun h => hblocked.2 (h.2 hblocked.1)
    · refine iff_of_true ⟨_, rfl⟩ ⟨rfl, fun hkind => ?_⟩
      by_contra hchildren
      exact hblocked ⟨hkind, hchildren⟩

/-- An entry is added exactly where it fits. -/
theorem addEntry_ok_iff :
    (∃ added, addEntry caseSensitive entry entryIndex componentIndex components node = .ok added) ↔
      Fits caseSensitive entry.kind components node := by
  induction components generalizing componentIndex node with
  | nil => exact claimNode_ok_iff
  | cons component rest ih =>
    unfold addEntry
    cases henter : enterChild caseSensitive entryIndex node component componentIndex with
    | error failure =>
      refine iff_of_false (fun h => nomatch h) fun h => ?_
      obtain ⟨child, hchild⟩ := (@enterChild_ok_iff caseSensitive entryIndex componentIndex component
        node).mpr fun spelling hspelling => h.spelled [] component rest spelling rfl hspelling
      rw [henter] at hchild
      cases hchild
    | ok child =>
      rw [fits_cons (enterChild_childOf henter)]
      have hspelling := enterChild_ok_iff.mp ⟨child, henter⟩
      change (∃ added, (if rest ≠ [] ∧ child.data.explicitKind.any (· ≠ .directory) then _ else _) =
        Except.ok added) ↔ _
      split_ifs with hblocked
      · refine iff_of_false (fun h => nomatch h) fun h => ?_
        obtain ⟨other, hother, hne⟩ := isOther_iff.mp hblocked.2
        exact hne (h.2.1 hblocked.1 other hother)
      · have hdirectory : rest ≠ [] → ∀ other, child.data.explicitKind = some other →
            other = .directory := by
          intro hrest other hother
          by_contra hne
          exact hblocked ⟨hrest, isOther_iff.mpr ⟨other, hother, hne⟩⟩
        rw [and_iff_right hspelling, and_iff_right hdirectory, ← @ih (componentIndex + 1)]
        cases addEntry caseSensitive entry entryIndex (componentIndex + 1) rest child with
        | error failure => exact iff_of_false (fun h => nomatch h) fun h => nomatch h
        | ok added => exact iff_of_true ⟨_, rfl⟩ ⟨_, rfl⟩

theorem addEntry_cons
    (h : addEntry caseSensitive entry entryIndex componentIndex (component :: rest) node = .ok added) :
    ∃ child grown, enterChild caseSensitive entryIndex node component componentIndex = .ok child ∧
      addEntry caseSensitive entry entryIndex (componentIndex + 1) rest child = .ok grown ∧
      added = node.setChild (identityComponent component caseSensitive) grown := by
  unfold addEntry at h
  cases henter : enterChild caseSensitive entryIndex node component componentIndex with
  | error failure =>
    rw [henter] at h
    cases h
  | ok child =>
    rw [henter] at h
    change (if rest ≠ [] ∧ child.data.explicitKind.any (· ≠ .directory) then _ else _) = _ at h
    by_cases hblocked : rest ≠ [] ∧ child.data.explicitKind.any (· ≠ .directory)
    · rw [if_pos hblocked] at h
      cases h
    · rw [if_neg hblocked] at h
      cases hgrown : addEntry caseSensitive entry entryIndex (componentIndex + 1) rest child with
      | error failure =>
        rw [hgrown] at h
        cases h
      | ok grown =>
        rw [hgrown] at h
        exact ⟨child, grown, rfl, hgrown, (Except.ok.inj h).symm⟩

theorem claimNode_eq (h : claimNode entry entryIndex node = .ok claimed) :
    claimed = { node with data := { node.data with
      explicitKind := some entry.kind, explicitEntryIndex := some entryIndex } } := by
  unfold claimNode at h
  cases hkind : node.data.explicitKind with
  | some other =>
    rw [hkind] at h
    dsimp only at h
    split_ifs at h
  | none =>
    rw [hkind] at h
    split_ifs at h
    exact (Except.ok.inj h).symm

theorem addEntry_spelling
    (h : addEntry caseSensitive entry entryIndex componentIndex components node = .ok added) :
    added.data.spelling = node.data.spelling := by
  cases components with
  | nil => rw [claimNode_eq h]
  | cons component rest =>
    obtain ⟨child, grown, _, _, rfl⟩ := addEntry_cons h
    rfl

/-- Only the node at the end of the path gets the kind of the entry. -/
theorem addEntry_kindAt (path : List Bytes)
    (h : addEntry caseSensitive entry entryIndex componentIndex components node = .ok added) :
    kindAt added path =
      if path = identityPath caseSensitive components then some entry.kind else kindAt node path := by
  induction components generalizing componentIndex node added path with
  | nil =>
    rw [claimNode_eq h]
    cases path with
    | nil => rfl
    | cons key path => rfl
  | cons component rest ih =>
    obtain ⟨child, grown, henter, hgrown, rfl⟩ := addEntry_cons h
    cases path with
    | nil => rfl
    | cons key path =>
      unfold kindAt
      rw [find_setChild]
      by_cases hkey : key = identityComponent component caseSensitive
      · rw [if_pos hkey]
        refine (ih path hgrown).trans ?_
        rw [(enterChild_childOf henter).kinds path, hkey]
        exact if_congr ⟨fun hpath => congrArg _ hpath, fun hpath => (cons.inj hpath).2⟩ rfl rfl
      · rw [if_neg hkey]
        exact (if_neg fun hpath => hkey (cons.inj hpath).1).symm

/-- The path below the entry is spelled as the entry spells it. -/
theorem addEntry_spellingAt (hpath : path ≠ []) (spelling : Bytes)
    (h : addEntry caseSensitive entry entryIndex componentIndex components node = .ok added) :
    spellingAt added path = some spelling ↔ spellingAt node path = some spelling ∨
      ∃ above below, components = above ++ spelling :: below ∧
        path = identityPath caseSensitive (above ++ [spelling]) := by
  induction components generalizing componentIndex node added path with
  | nil =>
    rw [claimNode_eq h]
    obtain ⟨key, path, rfl⟩ := exists_cons_of_ne_nil hpath
    refine (or_iff_left ?_).symm
    rintro ⟨above, below, heq, _⟩
    exact absurd heq.symm (append_ne_nil_of_right_ne_nil _ (cons_ne_nil _ _))
  | cons component rest ih =>
    obtain ⟨child, grown, henter, hgrown, rfl⟩ := addEntry_cons h
    obtain ⟨key, path, rfl⟩ := exists_cons_of_ne_nil hpath
    have hchild := enterChild_childOf henter
    unfold spellingAt
    rw [find_setChild]
    by_cases hkey : key = identityComponent component caseSensitive
    · subst hkey
      rw [if_pos rfl]
      by_cases hend : path = []
      · subst hend
        rw [find_nil, map_some, addEntry_spelling hgrown, hchild.spelling]
        constructor
        · intro hsame
          obtain rfl := some.inj hsame
          exact .inr ⟨[], rest, rfl, rfl⟩
        · rintro (hold | ⟨above, below, heq, hlength⟩)
          · rw [enterChild_ok_iff.mp ⟨child, henter⟩ spelling hold]
          · obtain rfl : above = [] := by
              have hlengths := congrArg List.length hlength
              unfold identityPath at hlengths
              rw [length_map, length_append, length_singleton, length_singleton] at hlengths
              exact eq_nil_of_length_eq_zero (by omega)
            rw [(cons.inj heq).1]
      · refine (ih hend hgrown).trans (or_congr ?_ ?_)
        · rw [hchild.spellings path hend]
          rfl
        · constructor
          · rintro ⟨above, below, rfl, hpath⟩
            exact ⟨component :: above, below, rfl, congrArg _ hpath⟩
          · rintro ⟨above, below, heq, hpath⟩
            obtain ⟨rfl, _⟩ | ⟨above, rfl, hrest⟩ := cons_eq_append_iff.mp heq
            · exact absurd (cons.inj hpath).2 hend
            · exact ⟨above, below, hrest, (cons.inj hpath).2⟩
    · rw [if_neg hkey]
      refine (or_iff_left ?_).symm
      rintro ⟨above, below, heq, hpath⟩
      refine hkey ?_
      obtain ⟨rfl, hsame⟩ | ⟨above, rfl, _⟩ := cons_eq_append_iff.mp heq
      · rw [(cons.inj hpath).1, (cons.inj hsame).1]
      · exact (cons.inj hpath).1

end Adding

/-! ## Two entries -/

/-- Two entries do not get in each other's way. -/
structure Compatible (caseSensitive : Bool) (first second : MaterializedEntry) : Prop where
  spelled : ∀ above component below above' component' below',
    first.components = above ++ component :: below →
    second.components = above' ++ component' :: below' →
    identityPath caseSensitive (above ++ [component]) =
      identityPath caseSensitive (above' ++ [component']) → component = component'
  apart : identityPath caseSensitive first.components ≠ identityPath caseSensitive second.components
  overlies : first.kind ≠ .directory →
    ¬identityPath caseSensitive first.components <+: identityPath caseSensitive second.components
  underlies : second.kind ≠ .directory →
    ¬identityPath caseSensitive second.components <+: identityPath caseSensitive first.components

/-- What the trie knows of the entries that were added to it. -/
structure Represents (caseSensitive : Bool) (entries : List MaterializedEntry) (node : NamespaceNode) :
    Prop where
  spellings : ∀ path spelling, path ≠ [] → (spellingAt node path = some spelling ↔
    ∃ entry ∈ entries, ∃ above below, entry.components = above ++ spelling :: below ∧
      path = identityPath caseSensitive (above ++ [spelling]))
  kinds : ∀ path kind, kindAt node path = some kind ↔
    ∃ entry ∈ entries, path = identityPath caseSensitive entry.components ∧ kind = entry.kind

section Order

variable {caseSensitive : Bool} {entry : MaterializedEntry} {entries : List MaterializedEntry}
  {entryIndex : Nat} {node : NamespaceNode} {validator : Option NameValidator}

theorem Compatible.symm (h : Compatible caseSensitive first second) :
    Compatible caseSensitive second first where
  spelled := fun above component below above' component' below' hfirst hsecond heq =>
    (h.spelled above' component' below' above component below hsecond hfirst heq.symm).symm
  apart := h.apart.symm
  overlies := h.underlies
  underlies := h.overlies

instance : Std.Symm (Compatible caseSensitive) where
  symm _ _ h := h.symm

/-- A path that starts another, and is not all of it, ends before one of its components. -/
theorem exists_component_of_prefix (hpath : path <+: identityPath caseSensitive components)
    (hne : path ≠ identityPath caseSensitive components) :
    ∃ above component below, components = above ++ component :: below ∧
      path = identityPath caseSensitive above := by
  obtain ⟨rest, hrest⟩ := hpath
  obtain ⟨above, below, rfl, rfl, hbelow⟩ := map_eq_append_iff.mp hrest.symm
  cases below with
  | nil =>
    rw [append_nil] at hne
    exact absurd rfl hne
  | cons component below => exact ⟨above, component, below, rfl, rfl⟩

/-- An entry fits exactly when it is compatible with those before it. -/
theorem fits_iff_compatible (h : Represents caseSensitive entries node)
    (hentries : ∀ other ∈ entries, other.components ≠ []) :
    Fits caseSensitive entry.kind entry.components node ↔
      ∀ other ∈ entries, Compatible caseSensitive other entry := by
  have hconcat : ∀ above component, identityPath caseSensitive (above ++ [component]) ≠ [] := by
    intro above component
    rw [identityPath_append]
    exact concat_ne_nil _ _
  constructor
  · intro hfits other hother
    have hapart : identityPath caseSensitive other.components ≠
        identityPath caseSensitive entry.components := by
      intro heq
      have hkind := (h.kinds _ other.kind).mpr ⟨other, hother, rfl, rfl⟩
      rw [heq, hfits.free] at hkind
      cases hkind
    refine ⟨?_, hapart, ?_, ?_⟩
    · intro above component below above' component' below' hfirst hsecond heq
      refine hfits.spelled above' component' below' component hsecond ?_
      exact (h.spellings _ component (hconcat above' component')).mpr
        ⟨other, hother, above, below, hfirst, heq.symm⟩
    · intro hkind hover
      obtain ⟨above, component, below, hcomponents, hpath⟩ := exists_component_of_prefix hover hapart
      obtain rfl | ⟨above, last, rfl⟩ := eq_nil_or_concat above
      · exact hentries other hother (map_eq_nil_iff.mp hpath)
      · rw [concat_eq_append] at hcomponents hpath
        rw [append_assoc] at hcomponents
        refine hkind (hfits.ancestors above last (component :: below) other.kind hcomponents
          (cons_ne_nil _ _) ?_)
        exact (h.kinds _ _).mpr ⟨other, hother, hpath.symm, rfl⟩
    · intro hkind hunder
      obtain ⟨above, component, below, hcomponents, hpath⟩ :=
        exists_component_of_prefix hunder hapart.symm
      have hnone := hfits.childless hkind (identityComponent component caseSensitive)
      have hsome := (h.spellings (identityPath caseSensitive (above ++ [component])) component
        (hconcat above component)).mpr ⟨other, hother, above, below, hcomponents, rfl⟩
      rw [identityPath_append, ← hpath] at hsome
      exact nomatch hnone.symm.trans hsome
  · intro hcompatible
    refine ⟨?_, ?_, ?_, ?_⟩
    · intro above component below spelling hcomponents hspelling
      obtain ⟨other, hother, above', below', hfirst, heq⟩ :=
        (h.spellings _ spelling (hconcat above component)).mp hspelling
      exact (hcompatible other hother).spelled above' spelling below' above component below hfirst
        hcomponents heq.symm
    · intro above component below kind hcomponents hbelow hkind
      obtain ⟨other, hother, hpath, rfl⟩ := (h.kinds _ kind).mp hkind
      by_contra hne
      refine (hcompatible other hother).overlies hne ⟨identityPath caseSensitive below, ?_⟩
      rw [← hpath, hcomponents, ← identityPath_append, append_assoc, singleton_append]
    · by_contra hsome
      obtain ⟨kind, hkind⟩ := ne_none_iff_exists'.mp hsome
      obtain ⟨other, hother, hpath, _⟩ := (h.kinds _ kind).mp hkind
      exact (hcompatible other hother).apart hpath.symm
    · intro hkind key
      by_contra hsome
      obtain ⟨spelling, hspelling⟩ := ne_none_iff_exists'.mp hsome
      obtain ⟨other, hother, above, below, hcomponents, hpath⟩ := (h.spellings _ spelling
        (concat_ne_nil _ _)).mp hspelling
      refine (hcompatible other hother).underlies hkind ⟨key :: identityPath caseSensitive below, ?_⟩
      rw [hcomponents, append_cons above spelling below, identityPath_append, ← hpath,
        append_assoc, singleton_append]

theorem represents_empty : Represents caseSensitive [] (.leaf {}) where
  spellings := by
    intro path spelling hpath
    obtain ⟨key, path, rfl⟩ := exists_cons_of_ne_nil hpath
    exact iff_of_false nofun fun ⟨_, hmem, _⟩ => absurd hmem not_mem_nil
  kinds := by
    intro path kind
    refine iff_of_false ?_ fun ⟨_, hmem, _⟩ => absurd hmem not_mem_nil
    cases path with
    | nil => exact nofun
    | cons key path => exact nofun

theorem represents_concat (h : Represents caseSensitive entries node)
    (hadded : addEntry caseSensitive entry entryIndex 0 entry.components node = .ok added) :
    Represents caseSensitive (entries ++ [entry]) added := by
  have hfree := (addEntry_ok_iff.mp ⟨added, hadded⟩).free
  have hmem : ∀ {P : MaterializedEntry → Prop},
      (∃ other ∈ entries ++ [entry], P other) ↔ (∃ other ∈ entries, P other) ∨ P entry := by
    intro P
    constructor
    · rintro ⟨other, hother, hP⟩
      obtain hold | hnew := mem_append.mp hother
      · exact .inl ⟨other, hold, hP⟩
      · exact .inr (mem_singleton.mp hnew ▸ hP)
    · rintro (⟨other, hold, hP⟩ | hP)
      · exact ⟨other, mem_append_left _ hold, hP⟩
      · exact ⟨entry, mem_append_right _ mem_cons_self, hP⟩
  constructor
  · intro path spelling hpath
    rw [hmem, ← h.spellings path spelling hpath]
    exact addEntry_spellingAt hpath spelling hadded
  · intro path kind
    rw [hmem, ← h.kinds path kind, addEntry_kindAt path hadded]
    split_ifs with hpath
    · rw [hpath, hfree]
      refine ⟨fun hkind => .inr ⟨rfl, (some.inj hkind).symm⟩, ?_⟩
      rintro (hnone | ⟨_, rfl⟩)
      · cases hnone
      · rfl
    · exact (or_iff_left fun h => hpath h.1).symm

/-- The loop ends well exactly when each entry is safe and compatible with those before it. -/
theorem buildFrom_ok_iff (rest : List MaterializedEntry) (h : Represents caseSensitive entries node)
    (hentries : ∀ other ∈ entries, SafeEntry validator other) :
    (∃ root, buildFrom caseSensitive validator entryIndex rest node = .ok root) ↔
      (∀ entry ∈ rest, SafeEntry validator entry ∧
        ∀ other ∈ entries, Compatible caseSensitive other entry) ∧
      rest.Pairwise (Compatible caseSensitive) := by
  induction rest generalizing entries entryIndex node with
  | nil => exact iff_of_true ⟨node, rfl⟩ ⟨fun _ => nofun, .nil⟩
  | cons entry rest ih =>
    rw [forall_mem_cons, pairwise_cons]
    unfold buildFrom
    cases hvalid : validateComponents entry entryIndex validator with
    | some failure =>
      refine iff_of_false (fun h => nomatch h) fun h => ?_
      rw [validateComponents_eq_none.mpr h.1.1.1] at hvalid
      cases hvalid
    | none =>
      have hsafe : SafeEntry validator entry := validateComponents_eq_none.mp hvalid
      have hfits := @fits_iff_compatible caseSensitive entry entries node h
        fun other hother => (hentries other hother).nonempty
      cases hadded : addEntry caseSensitive entry entryIndex 0 entry.components node with
      | error failure =>
        refine iff_of_false (fun h => nomatch h) fun h => ?_
        obtain ⟨added, hok⟩ := (@addEntry_ok_iff caseSensitive entry entryIndex 0 entry.components
          node).mpr (hfits.mpr h.1.1.2)
        rw [hadded] at hok
        cases hok
      | ok added =>
        have hcompatible := hfits.mp (addEntry_ok_iff.mp ⟨added, hadded⟩)
        have hsafes : ∀ other ∈ entries ++ [entry], SafeEntry validator other := by
          intro other hother
          obtain hold | hnew := mem_append.mp hother
          · exact hentries other hold
          · exact mem_singleton.mp hnew ▸ hsafe
        refine (ih (represents_concat h hadded) hsafes).trans ?_
        constructor
        · rintro ⟨hrest, hpairs⟩
          refine ⟨⟨⟨hsafe, hcompatible⟩, fun next hnext => ⟨(hrest next hnext).1, ?_⟩⟩, ?_, hpairs⟩
          · exact fun other hother =>
              (hrest next hnext).2 other (mem_append_left _ hother)
          · exact fun next hnext =>
              (hrest next hnext).2 entry (mem_append_right _ mem_cons_self)
        · rintro ⟨⟨_, hrest⟩, hfirst, hpairs⟩
          refine ⟨fun next hnext => ⟨(hrest next hnext).1, fun other hother => ?_⟩, hpairs⟩
          obtain hold | hnew := mem_append.mp hother
          · exact (hrest next hnext).2 other hold
          · exact mem_singleton.mp hnew ▸ hfirst next hnext

theorem eq_of_identityPath (hspelled : first = second ∨ Compatible caseSensitive first second)
    (hpath : path <+: first.components) (hpath' : path' <+: second.components)
    (heq : identityPath caseSensitive path = identityPath caseSensitive path') : path = path' := by
  have hlength : path.length = path'.length := by
    have hlengths := congrArg List.length heq
    unfold identityPath at hlengths
    rw [length_map, length_map] at hlengths
    exact hlengths
  obtain rfl | hcompatible := hspelled
  · exact (prefix_of_prefix_length_le hpath hpath' hlength.le).eq_of_length hlength
  · induction path using reverseRecOn generalizing path' with
    | nil => exact (eq_nil_of_length_eq_zero hlength.symm).symm
    | append_singleton above component ih =>
      obtain rfl | ⟨above', component', rfl⟩ := eq_nil_or_concat path'
      · rw [length_append] at hlength
        cases hlength
      · rw [concat_eq_append] at hpath' heq hlength ⊢
        obtain ⟨below, hfirst⟩ := hpath
        obtain ⟨below', hsecond⟩ := hpath'
        rw [append_assoc, singleton_append] at hfirst hsecond
        have hlast := hcompatible.spelled above component below above' component' below' hfirst.symm
          hsecond.symm heq
        have hlengths : above.length = above'.length := by
          rw [length_append, length_append] at hlength
          exact Nat.add_right_cancel hlength
        rw [identityPath_append, identityPath_append] at heq
        have habove := ih ⟨component :: below, hfirst⟩ ⟨component' :: below', hsecond⟩
          (append_inj' heq rfl).1 hlengths
        rw [habove, hlast]

/-- The pairs are compatible exactly when the entries make one tree. -/
theorem pairwise_iff_consistentTree :
    entries.Pairwise (Compatible caseSensitive) ↔ ConsistentTree caseSensitive entries := by
  constructor
  · intro h
    have hpair : ∀ first ∈ entries, ∀ second ∈ entries,
        first = second ∨ Compatible caseSensitive first second := by
      intro first hfirst second hsecond
      by_cases heq : first = second
      · exact .inl heq
      · exact .inr (h.forall hfirst hsecond heq)
    refine ⟨?_, ?_, ?_⟩
    · exact pairwise_map.mpr (h.imp fun hcompatible => hcompatible.apart)
    · intro entry hentry other hother hkind hover
      obtain rfl | hcompatible := hpair entry hentry other hother
      · rfl
      · exact absurd hover (hcompatible.overlies hkind)
    · intro entry hentry other hother path path' hpath hpath' heq
      exact eq_of_identityPath (hpair entry hentry other hother) hpath.1 hpath'.1 heq
  · rintro ⟨hdistinct, hancestors, hspelled⟩
    refine (pairwise_map.mp hdistinct).imp_of_mem fun {first second} hfirst hsecond hapart => ?_
    have hover : first.kind ≠ .directory → ¬identityPath caseSensitive first.components <+:
        identityPath caseSensitive second.components :=
      fun hkind hover => hapart (hancestors first hfirst second hsecond hkind hover)
    have hunder : second.kind ≠ .directory → ¬identityPath caseSensitive second.components <+:
        identityPath caseSensitive first.components :=
      fun hkind hunder => hapart (hancestors second hsecond first hfirst hkind hunder).symm
    refine ⟨?_, hapart, hover, hunder⟩
    intro above component below above' component' below' hcomponents hcomponents' heq
    have hpath : above ++ [component] <+: first.components :=
      ⟨below, by rw [hcomponents, append_assoc, singleton_append]⟩
    have hpath' : above' ++ [component'] <+: second.components :=
      ⟨below', by rw [hcomponents', append_assoc, singleton_append]⟩
    -- What ends in the shared path is no file, or the other entry would be below it.
    have hdirectory : DirectoryOf first (above ++ [component]) := by
      refine ⟨hpath, fun hend => ?_⟩
      by_contra hkind
      refine hover hkind ?_
      rw [← hend, heq]
      exact hpath'.map _
    have hdirectory' : DirectoryOf second (above' ++ [component']) := by
      refine ⟨hpath', fun hend => ?_⟩
      by_contra hkind
      refine hunder hkind ?_
      rw [← hend, ← heq]
      exact hpath.map _
    have hsame := hspelled first hfirst second hsecond _ _ hdirectory hdirectory' heq
    exact singleton_inj.mp (append_inj' hsame rfl).2

theorem build_isOk : (build entries caseSensitive validator).isOk ↔
    ∃ root, buildFrom caseSensitive validator 0 entries (.leaf {}) = .ok root := by
  unfold build
  cases buildFrom caseSensitive validator 0 entries (.leaf {}) with
  | error failure => exact iff_of_false (fun h => nomatch h) fun h => nomatch h
  | ok root => exact iff_of_true rfl ⟨root, rfl⟩

theorem build_isOk_iff : (build entries caseSensitive validator).isOk ↔
    (∀ entry ∈ entries, SafeEntry validator entry) ∧ entries.Pairwise (Compatible caseSensitive) := by
  rw [build_isOk, buildFrom_ok_iff entries represents_empty fun _ hother => absurd hother not_mem_nil]
  refine and_congr_left fun _ => forall₂_congr fun entry _ => and_iff_left ?_
  exact fun _ hother => absurd hother not_mem_nil

end Order

/-- An archive is accepted exactly when its entries are safe and make one tree, in whatever order
    they come. -/
theorem build_accepts_iff (entries : List MaterializedEntry) (caseSensitive : Bool)
    (validator : Option NameValidator) : ((build entries caseSensitive validator).isOk = true ↔
      (∀ entry ∈ entries, SafeEntry validator entry) ∧ ConsistentTree caseSensitive entries) ∧
    ∀ other : List MaterializedEntry, other.Perm entries →
      (build other caseSensitive validator).isOk = (build entries caseSensitive validator).isOk := by
  refine ⟨?_, fun other hperm => ?_⟩
  · rw [build_isOk_iff, pairwise_iff_consistentTree]
  · rw [Bool.eq_iff_iff, build_isOk_iff, build_isOk_iff,
      hperm.pairwise_iff fun hcompatible => hcompatible.symm]
    exact and_congr_left fun _ => forall_congr' fun entry => imp_congr_left hperm.mem_iff

end ArchiveExtraction

end WinCommander.Operations
