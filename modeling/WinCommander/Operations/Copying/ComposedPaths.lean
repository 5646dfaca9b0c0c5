/-
  Paths that are composed on the way up from an item to its root: `SourceItems` of a copying, and
  the nodes of `chained_strings`.

  Both collect the way into an array of 128 places. A write behind its end, or an assertion that
  does not hold, is absence; so a path is composed exactly when the way fits (`composed_iff`).
-/
import WinCommander.Utility.PathManip

namespace WinCommander.Operations.Copying

open Library List

variable {α : Type}

/-- The loop that goes up and stores where it has been, with so much room for it. -/
def climb (up : α → Option α) : Nat → Option α → Option (List α)
  | _, none => some []
  | 0, some _ => none
  | room + 1, some a => (climb up room (up a)).map (a :: ·)

/-- The way up to a root. -/
inductive Climbs (up : α → Option α) : Option α → List α → Prop where
  | done : Climbs up none []
  | step {a : α} {rest : List α} (h : Climbs up (up a) rest) : Climbs up (some a) (a :: rest)

theorem climb_eq (h : Climbs up start way) (room : Nat)
    : climb up room start = if way.length ≤ room then some way else none := by
  induction h generalizing room with
  | done => cases room <;> rfl
  | step h ih =>
    cases room with
    | zero => rfl
    | succ room =>
      rw [climb, ih, length_cons]
      simp only [Nat.add_le_add_iff_right]
      split <;> rfl

/-! ## `SourceItems` -/

structure SourceItem where
  itemName : Bytes
  parentIndex : Int
  baseDirIndex : Nat
  hostIndex : Nat
  mode : Nat
  itemSize : Nat

/-- The items of a copying; each one stands behind its parent. -/
structure SourceItems where
  items : List SourceItem
  hosts : Nat
  baseDirectories : List Bytes
  totalRegBytes : Nat
  parents : ∀ (i : Nat) item, items[i]? = some item → item.parentIndex < i
  bases : ∀ item ∈ items, item.baseDirIndex < baseDirectories.length

/-- `S_IFMT` of a mode is that of a regular file, or of a directory. -/
def isReg (mode : Nat) : Bool := mode &&& 0o170000 == 0o100000

def isDir (mode : Nat) : Bool := mode &&& 0o170000 == 0o040000

/-- `EnsureTrailingSlash`. -/
def ensureTrailingSlash (s : Bytes) : Bytes :=
  if s ≠ [] ∧ s.getLast? ≠ some Path.slash then s ++ [Path.slash] else s

namespace SourceItems

/-- `InsertItem`; it throws when an index is not there yet. -/
def insertItem (s : SourceItems) (hostIndex baseDirIndex : Nat) (parentIndex : Int)
    (itemName : Bytes) (mode size : Nat) : Option SourceItems :=
  if h : hostIndex < s.hosts ∧ baseDirIndex < s.baseDirectories.length ∧
      parentIndex < s.items.length then
    some
      { s with
        items := s.items ++ [⟨if isDir mode then ensureTrailingSlash itemName else itemName,
          parentIndex, baseDirIndex, hostIndex, mode, size⟩]
        totalRegBytes := if isReg mode then s.totalRegBytes + size else s.totalRegBytes
        parents := fun i item hitem => by
          have hlt := h.2.2
          rw [List.getElem?_append] at hitem
          split at hitem
          · exact s.parents i item hitem
          · have hnew := mem_singleton.mp (mem_of_getElem? hitem)
            rw [hnew]
            dsimp only
            omega
        bases := fun item hitem => by
          rcases mem_append.mp hitem with hold | hnew
          · exact s.bases item hold
          · rw [mem_singleton.mp hnew]
            exact h.2.1 }
  else none

/-- The index of an item's parent, unless it has none. -/
def parent (s : SourceItems) (i : Nat) : Option Nat :=
  match s.items[i]? with
  | some item => if item.parentIndex < 0 then none else some item.parentIndex.toNat
  | none => none

def name (s : SourceItems) (i : Nat) : Bytes := (s.items[i]?.map (·.itemName)).getD []

/-- A path loses one slash at its end. -/
def popSlash (path : Bytes) : Bytes :=
  if path.getLast? = some Path.slash then path.dropLast else path

def composeRelativePath (s : SourceItems) (i : Nat) : Option Bytes :=
  (climb s.parent 128 (s.parent i)).map fun parents =>
    popSlash ((parents.reverse.map s.name).flatten ++ s.name i)

def baseDir (s : SourceItems) (i : Nat) : Bytes :=
  ((s.items[i]?.bind fun item => s.baseDirectories[item.baseDirIndex]?)).getD []

def composeFullPath (s : SourceItems) (i : Nat) : Option Bytes :=
  (s.composeRelativePath i).map (s.baseDir i ++ ·)

/-- The items above an item, the nearest first. -/
def ancestors (s : SourceItems) (i : Nat) : List Nat :=
  (climb s.parent s.items.length (s.parent i)).getD []

/-- The names from the root to the item, without the slash at the end. -/
def relativePath (s : SourceItems) (i : Nat) : Bytes :=
  popSlash ((i :: s.ancestors i).reverse.map s.name).flatten

theorem parent_lt {s : SourceItems} (h : s.parent i = some j) : j < i ∧ i < s.items.length := by
  unfold parent at h
  cases hitem : s.items[i]? with
  | none => simp [hitem] at h
  | some item =>
    have hlt := s.parents i item hitem
    have hin := (List.getElem?_eq_some_iff.mp hitem).1
    rw [hitem] at h
    dsimp only at h
    split at h
    · cases h
    · cases h
      omega

theorem exists_climbs (s : SourceItems) (i : Nat) :
    ∃ way, Climbs s.parent (s.parent i) way ∧ way.length ≤ i := by
  induction i using Nat.strong_induction_on with
  | _ i ih =>
    cases hparent : s.parent i with
    | none => exact ⟨[], .done, Nat.zero_le i⟩
    | some j =>
      have hlt := (parent_lt hparent).1
      obtain ⟨way, hway, hlength⟩ := ih j hlt
      exact ⟨j :: way, .step hway, by simp; omega⟩

theorem climbs_ancestors {s : SourceItems} (hi : i < s.items.length) :
    Climbs s.parent (s.parent i) (s.ancestors i) := by
  obtain ⟨way, hway, hlength⟩ := s.exists_climbs i
  unfold ancestors
  rwa [climb_eq hway, if_pos (by omega)]

end SourceItems

/-! ## `chained_strings` -/

/-- The characters of a node, in the node or behind a pointer. -/
inductive Storage where
  | buf (chars : Bytes)
  | bufPtr (chars : Bytes)

inductive Node where
  | mk (len : Nat) (storage : Storage) (above : Option Node)

namespace Node

def bufferLength : Nat := 14

def len : Node → Nat
  | .mk len _ _ => len

def above : Node → Option Node
  | .mk _ _ above => above

/-- `insert_into` of a string with its terminator. -/
def insertInto (str : Bytes) (above : Option Node) : Node :=
  .mk (str.length % 65536)
    (if str.length < bufferLength then .buf (str ++ [0]) else .bufPtr (str ++ [0])) above

/-- `c_str`: which member of the union is read depends on the length. -/
def cStr : Node → Option Bytes
  | .mk len (.buf chars) _ => if len < bufferLength then some chars else none
  | .mk len (.bufPtr chars) _ => if len < bufferLength then none else some chars

/-- The node and those above it, collected in `max_depth` places. The assertion behind each one
    asks for another free place. -/
def collect (debug : Bool) (n : Node) : Option (List Node) :=
  climb above (if debug then 127 else 128) (some n)

/-- The characters of the collected nodes, the topmost first. -/
def join (nodes : List Node) : Option Bytes :=
  (nodes.reverse.mapM fun n : Node => n.cStr.map (·.take n.len)).map List.flatten

def toStrWithPref (debug : Bool) (n : Node) : Option Bytes := (n.collect debug).bind join

/-- What the buffer has behind the call. -/
def strWithPref (debug : Bool) (n : Node) : Option Bytes :=
  ((n.collect debug).bind join).map (· ++ [0])

/-- The node of a string, with those of the following ones above it. -/
def chain : List Bytes → Option Node
  | [] => none
  | str :: rest => some (insertInto str (chain rest))

/-- The nodes that such a chain is made of. -/
def nodes : List Bytes → List Node
  | [] => []
  | str :: rest => insertInto str (chain rest) :: nodes rest

theorem climbs_chain (strings : List Bytes) : Climbs above (chain strings) (nodes strings) := by
  induction strings with
  | nil => exact .done
  | cons str rest ih => exact .step ih

theorem length_nodes (strings : List Bytes) : (nodes strings).length = strings.length := by
  induction strings with
  | nil => rfl
  | cons str rest ih => rw [nodes, length_cons, ih, length_cons]

theorem chars_insertInto (h : str.length < 65536) (above : Option Node) :
    ((insertInto str above).cStr.map (·.take (insertInto str above).len)) = some str := by
  have hlen : str.length % 65536 = str.length := Nat.mod_eq_of_lt h
  unfold insertInto
  by_cases hsmall : str.length < bufferLength <;> simp [cStr, len, hlen, hsmall]

theorem join_nodes (h : ∀ str ∈ strings, str.length < 65536) :
    join (nodes strings) = some strings.reverse.flatten := by
  have hmap : (nodes strings).reverse.mapM (fun n : Node => n.cStr.map (·.take n.len)) =
      some strings.reverse := by
    induction strings with
    | nil => rfl
    | cons str rest ih =>
      rw [forall_mem_cons] at h
      rw [nodes, reverse_cons, mapM_append, ih h.2, reverse_cons]
      simp [chars_insertInto h.1]
  rw [join, hmap]
  rfl

end Node

/-! ## Composed paths -/

/-- Items and nodes are spelled out from their root on exactly when the way to it fits into the
    array: 128 ancestors of an item, and 128 nodes, or one less where assertions are checked. -/
theorem composed_iff (s : SourceItems) {i : Nat} (hi : i < s.items.length) (debug : Bool)
    (str : Bytes) (rest : List Bytes) (hshort : ∀ string ∈ str :: rest, string.length < 65536) :
    (s.composeRelativePath i = some (s.relativePath i) ∧
        s.composeFullPath i = some (s.baseDir i ++ s.relativePath i) ↔
      (s.ancestors i).length ≤ 128) ∧ ((Node.insertInto str (Node.chain rest)).strWithPref debug =
          some ((str :: rest).reverse.flatten ++ [0]) ∧
        (Node.insertInto str (Node.chain rest)).toStrWithPref debug =
          some (str :: rest).reverse.flatten ↔
      (str :: rest).length ≤ if debug then 127 else 128) := by
  constructor
  · unfold SourceItems.composeFullPath SourceItems.composeRelativePath
    rw [climb_eq (SourceItems.climbs_ancestors hi)]
    by_cases hfits : (s.ancestors i).length ≤ 128
    · simp [hfits, SourceItems.relativePath]
    · simp [hfits]
  · have hway := Node.climbs_chain (str :: rest)
    have hcollect : (Node.insertInto str (Node.chain rest)).collect debug =
        if (str :: rest).length ≤ (if debug then 127 else 128) then some (Node.nodes (str :: rest))
        else none := by
      rw [Node.collect, ← Node.length_nodes]
      exact climb_eq hway _
    unfold Node.strWithPref Node.toStrWithPref
    rw [hcollect]
    by_cases hfits : (str :: rest).length ≤ if debug then 127 else 128
    · rw [if_pos hfits, Option.bind_some, Node.join_nodes hshort]
      exact iff_of_true ⟨rfl, rfl⟩ hfits
    · rw [if_neg hfits]
      refine iff_of_false ?_ hfits
      rintro ⟨-, h⟩
      cases h

/-- Directories `a`, each in the one before. -/
def nested (count : Nat) : SourceItems where
  items := (List.range count).map fun i : Nat =>
    ⟨[0x61, Path.slash], (i : Int) - 1, 0, 0, 0o040755, 0⟩
  hosts := 1
  baseDirectories := [[Path.slash]]
  totalRegBytes := 0
  parents := fun i item hitem => by
    obtain ⟨j, hj, rfl⟩ := Option.map_eq_some_iff.mp ((List.getElem?_map ..).symm.trans hitem)
    have heq := (List.getElem?_eq_some_iff.mp hj).2
    rw [getElem_range] at heq
    dsimp only
    omega
  bases := fun item hitem => by
    obtain ⟨_, -, rfl⟩ := mem_map.mp hitem
    exact Nat.one_pos

theorem composed_nested : ((nested 3).composeRelativePath 2 = some ((nested 3).relativePath 2) ∧
        (nested 3).composeFullPath 2 = some ((nested 3).baseDir 2 ++ (nested 3).relativePath 2) ↔
      ((nested 3).ancestors 2).length ≤ 128) ∧
    ((Node.insertInto [0x61] (Node.chain [])).strWithPref true = some [0x61, 0] ∧
        (Node.insertInto [0x61] (Node.chain [])).toStrWithPref true = some [0x61] ↔
      [[(0x61 : UInt8)]].length ≤ if true then 127 else 128) :=
  composed_iff (nested 3) (by decide) true [0x61] [] (by decide)

/-- A path of 260 bytes has 130 directories, the last of which cannot be composed; nor can a chain
    of as many strings. -/
theorem not_composed_deep : (nested 130).composeRelativePath 129 = none ∧
    ∀ debug, (Node.insertInto [0x61] (Node.chain (List.replicate 129 [0x61]))).toStrWithPref debug =
      none := by
  decide +kernel

end WinCommander.Operations.Copying
