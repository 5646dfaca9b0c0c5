/-
  Finite maps from strings, built from a list of members and told apart from every other map.

  `ofMembers` sets one member after another. A map that has exactly the listed fields, and at
  each the listed value, is the one that is built from the list.
-/
import Mathlib

namespace WinCommander.Library

open List Finmap

variable {α : Type}

abbrev TypedMap (α : Type) := Finmap fun _ : String => α

namespace TypedMap

def ofMembers (members : List (String × α)) : TypedMap α :=
  members.foldl (fun map member => map.insert member.1 member.2) ∅

/-- As many keys as fields, and no other key. -/
def hasExactFields (map : TypedMap α) (fields : List String) : Bool :=
  map.keys.card = fields.length ∧ ∀ key ∈ map.keys, key ∈ fields

variable {key : String} {map : TypedMap α}

theorem lookup_foldl_of_notMem (members : List (String × α)) (map : TypedMap α)
    (h : key ∉ members.map Prod.fst) :
    (members.foldl (fun map member => map.insert member.1 member.2) map).lookup key =
      map.lookup key := by
  induction members generalizing map with
  | nil => rfl
  | cons member rest ih =>
    rw [map_cons, mem_cons, not_or] at h
    rw [foldl_cons, ih _ h.2, lookup_insert_of_ne _ h.1]

theorem lookup_foldl_of_mem (members : List (String × α)) (map : TypedMap α)
    (hnodup : (members.map Prod.fst).Nodup) (h : (key, value) ∈ members) :
    (members.foldl (fun map member => map.insert member.1 member.2) map).lookup key =
      some value := by
  induction members generalizing map with
  | nil => exact absurd h not_mem_nil
  | cons member rest ih =>
    rw [map_cons, nodup_cons] at hnodup
    rw [foldl_cons]
    rcases mem_cons.mp h with rfl | hrest
    · rw [lookup_foldl_of_notMem _ _ hnodup.1, lookup_insert]
    · exact ih _ hnodup.2 hrest

variable {members : List (String × α)}

/-- What is read back from a map that was built. -/
theorem lookup_ofMembers (hnodup : (members.map Prod.fst).Nodup) (h : (key, value) ∈ members)
    : (ofMembers members).lookup key = some value :=
  lookup_foldl_of_mem members ∅ hnodup h

theorem lookup_ofMembers_of_notMem (h : key ∉ members.map Prod.fst) :
    (ofMembers members).lookup key = none := by
  rw [ofMembers, lookup_foldl_of_notMem members ∅ h, lookup_empty]

theorem mem_keys_iff : key ∈ map.keys ↔ (map.lookup key).isSome := by
  rw [Finmap.mem_keys, Finmap.lookup_isSome]

theorem keys_ofMembers (hnodup : (members.map Prod.fst).Nodup) :
    (ofMembers members).keys = (members.map Prod.fst).toFinset := by
  ext key
  rw [mem_keys_iff, mem_toFinset]
  by_cases h : key ∈ members.map Prod.fst
  · obtain ⟨⟨key', value⟩, hmem, rfl⟩ := mem_map.mp h
    rw [lookup_ofMembers hnodup hmem]
    exact iff_of_true rfl h
  · rw [lookup_ofMembers_of_notMem h]
    exact iff_of_false Bool.false_ne_true h

theorem hasExactFields_ofMembers (hnodup : (members.map Prod.fst).Nodup) :
    hasExactFields (ofMembers members) (members.map Prod.fst) := by
  unfold hasExactFields
  rw [decide_eq_true_eq, keys_ofMembers hnodup, toFinset_card_of_nodup hnodup]
  exact ⟨rfl, fun key hkey => mem_toFinset.mp hkey⟩

theorem keys_of_hasExactFields (hnodup : fields.Nodup) (h : hasExactFields map fields)
    : map.keys = fields.toFinset := by
  unfold hasExactFields at h
  rw [decide_eq_true_eq] at h
  refine Finset.eq_of_subset_of_card_le (fun key hkey => mem_toFinset.mpr (h.2 key hkey)) ?_
  rw [toFinset_card_of_nodup hnodup, h.1]

/-- The one map with these members. -/
theorem eq_ofMembers (hnodup : (members.map Prod.fst).Nodup)
    (hexact : hasExactFields map (members.map Prod.fst))
    (hlookup : ∀ member ∈ members, map.lookup member.1 = some member.2) :
    map = ofMembers members := by
  refine ext_lookup fun key => ?_
  by_cases h : key ∈ members.map Prod.fst
  · obtain ⟨member, hmem, rfl⟩ := mem_map.mp h
    rw [hlookup member hmem, lookup_ofMembers hnodup hmem]
  · rw [lookup_ofMembers_of_notMem h, Finmap.lookup_eq_none, ← Finmap.mem_keys,
      keys_of_hasExactFields hnodup hexact, mem_toFinset]
    exact h

theorem eq_ofMembers_iff (fields : List String) (hfields : members.map Prod.fst = fields)
    (hnodup : fields.Nodup) : map = ofMembers members ↔ hasExactFields map fields ∧
      ∀ member ∈ members, map.lookup member.1 = some member.2 := by
  subst hfields
  constructor
  · rintro rfl
    exact ⟨hasExactFields_ofMembers hnodup, fun member hmem => lookup_ofMembers hnodup hmem⟩
  · rintro ⟨hexact, hlookup⟩
    exact eq_ofMembers hnodup hexact hlookup

end TypedMap

end WinCommander.Library
