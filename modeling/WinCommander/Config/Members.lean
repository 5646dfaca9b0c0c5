/-
  Documents under the names of their members: what a name finds, which names an object has, and
  when `==` of RapidJSON takes two objects for one.
-/
import WinCommander.Config.Document

namespace WinCommander.Config

open Library List RapidJson

variable {ν : Type} {name : Bytes} {members others : Members ν} {value : Value ν}

def names (members : Members ν) : List Bytes := members.map (·.1)

@[simp] theorem names_cons (member : Bytes × Value ν) :
    names (member :: members) = member.1 :: names members := rfl

@[simp] theorem names_append : names (members ++ others) = names members ++ names others :=
  map_append

theorem mem_names (h : (name, value) ∈ members) : name ∈ names members :=
  mem_map.mpr ⟨_, h, rfl⟩

/-- An induction with one case for each type of value. -/
theorem Value.induction {P : Value ν → Prop} (null : P .null) (bool : ∀ b, P (.bool b))
    (number : ∀ n, P (.number n)) (string : ∀ s, P (.string s))
    (array : ∀ elements, (∀ v ∈ elements, P v) → P (.array elements))
    (object : ∀ members, (∀ m ∈ members, P m.2) → P (.object members)) (value : Value ν) :
    P value :=
  @Value.rec ν P (fun elements => ∀ v ∈ elements, P v) (fun members => ∀ m ∈ members, P m.2)
    (fun m => P m.2) null bool number string array object (by simp)
    (fun _ _ hhead htail => forall_mem_cons.mpr ⟨hhead, htail⟩) (by simp)
    (fun _ _ hhead htail => forall_mem_cons.mpr ⟨hhead, htail⟩) (fun _ _ h => h) value

/-! ## Names -/

@[simp] theorem findMember_nil : findMember name ([] : Members ν) = none := rfl

theorem findMember_cons (other : Bytes) (value : Value ν) (rest : Members ν) :
    findMember name ((other, value) :: rest) =
      if other = name then some value else findMember name rest := by
  by_cases h : other = name <;> simp [findMember, h]

@[simp] theorem findMember_append : findMember name (members ++ others) =
      (findMember name members).or (findMember name others) := by
  simp [findMember, List.find?_append, Option.map_or]

theorem findMember_eq_none : findMember name members = none ↔ name ∉ names members := by
  simp only [findMember, names, Option.map_eq_none_iff, List.find?_eq_none, beq_iff_eq,
    mem_map, not_exists, not_and]

theorem mem_of_findMember (h : findMember name members = some value) : (name, value) ∈ members := by
  simp only [findMember, Option.map_eq_some_iff] at h
  obtain ⟨⟨other, _⟩, hfind, rfl⟩ := h
  have heq : other = name := by simpa using List.find?_some hfind
  exact heq ▸ List.mem_of_find?_eq_some hfind

theorem findMember_of_mem (hnames : (names members).Nodup) (h : (name, value) ∈ members) :
    findMember name members = some value := by
  induction members with
  | nil => simp at h
  | cons member rest ih =>
    obtain ⟨other, old⟩ := member
    rw [names_cons, nodup_cons] at hnames
    rw [findMember_cons]
    rcases mem_cons.mp h with heq | hrest
    · cases heq
      simp
    · have hne : other ≠ name := fun heq => hnames.1 (heq ▸ mem_names hrest)
      rw [if_neg hne]
      exact ih hnames.2 hrest

theorem findMember_filter (p : Bytes → Bool) (members : Members ν) :
    findMember name (members.filter fun m => p m.1) =
      if p name = true then findMember name members else none := by
  induction members with
  | nil => simp
  | cons member rest ih =>
    obtain ⟨other, old⟩ := member
    by_cases hp : p other
    · rw [filter_cons_of_pos (by exact hp), findMember_cons, findMember_cons, ih]
      by_cases heq : other = name
      · simp [heq, heq ▸ hp]
      · simp [heq]
    · rw [filter_cons_of_neg (by exact hp), findMember_cons, ih]
      by_cases heq : other = name
      · simp [heq ▸ hp]
      · simp [heq]

/-! ## Every object of a value -/

mutual
/-- The names of every object in a value are as asked for. -/
def everyObject (ok : List Bytes → Bool) : Value ν → Bool
  | .array elements => everyElement ok elements
  | .object members => ok (members.map (·.1)) && everyMember ok members
  | _ => true
def everyElement (ok : List Bytes → Bool) : List (Value ν) → Bool
  | [] => true
  | value :: rest => everyObject ok value && everyElement ok rest
def everyMember (ok : List Bytes → Bool) : Members ν → Bool
  | [] => true
  | (_, value) :: rest => everyObject ok value && everyMember ok rest
end

variable {ok : List Bytes → Bool}

theorem everyElement_iff : everyElement ok elements ↔ ∀ v ∈ elements, everyObject ok v := by
  induction elements with
  | nil => simp [everyElement]
  | cons v rest ih => simp [everyElement, ih]

theorem everyMember_iff : everyMember ok members ↔ ∀ m ∈ members, everyObject ok m.2 := by
  induction members with
  | nil => simp [everyMember]
  | cons m rest ih => simp [everyMember, ih]

theorem everyObject_object : everyObject ok (.object members) ↔
      ok (names members) ∧ ∀ m ∈ members, everyObject ok m.2 := by
  rw [everyObject, Bool.and_eq_true, everyMember_iff]
  rfl

theorem everyObject_find (h : everyObject ok (.object members))
    (hfind : findMember name members = some value) : everyObject ok value :=
  (everyObject_object.mp h).2 _ (mem_of_findMember hfind)

/-- No object has two members of one name. -/
abbrev Unique (value : Value ν) : Prop := everyObject (fun list => decide list.Nodup) value = true

theorem Unique.names (h : Unique (.object members)) : (names members).Nodup := by
  simpa using (everyObject_object.mp h).1

/-! ## Equal values -/

variable {json : RapidJson ν}

theorem equalMembers_iff : json.equalMembers members others ↔
      ∀ m ∈ members, ∃ w, findMember m.1 others = some w ∧ json.equal m.2 w := by
  induction members with
  | nil => simp [equalMembers]
  | cons m rest ih =>
    cases hfind : findMember m.1 others with
    | none => simp [equalMembers, hfind]
    | some w => simp [equalMembers, hfind, ih]

theorem equalElements_self (h : ∀ v ∈ elements, json.equal v v)
    : json.equalElements elements elements := by
  induction elements with
  | nil => rfl
  | cons v rest ih =>
    rw [forall_mem_cons] at h
    simp [equalElements, h.1, ih h.2]

theorem equal_self (hself : ∀ n, json.sameNumber n n) (h : Unique value) :
    json.equal value value := by
  induction value using Value.induction with
  | null => rfl
  | bool b => simp [equal]
  | number n => exact hself n
  | string s => simp [equal]
  | array elements ih =>
    rw [Unique, everyObject, everyElement_iff] at h
    exact equalElements_self fun v hv => ih v hv (h v hv)
  | object members ih =>
    simp only [equal, beq_self_eq_true, Bool.true_and]
    exact equalMembers_iff.mpr fun m hm =>
      ⟨m.2, findMember_of_mem h.names hm, ih m hm ((everyObject_object.mp h).2 m hm)⟩

/-- Objects are equal when each name finds equal values, or nothing in both. -/
theorem equal_object_iff (hmembers : (names members).Nodup) (hothers : (names others).Nodup) :
    json.equal (.object members) (.object others) ↔
      ∀ name, Option.Rel (json.equal · ·) (findMember name members) (findMember name others) := by
  rw [equal, Bool.and_eq_true, beq_iff_eq, equalMembers_iff]
  constructor
  · rintro ⟨hlength, h⟩ name
    have hsub : names members ⊆ names others := by
      intro other hother
      obtain ⟨m, hm, rfl⟩ := mem_map.mp hother
      obtain ⟨w, hw, -⟩ := h m hm
      exact mem_names (mem_of_findMember hw)
    have hperm := (hmembers.subperm hsub).perm_of_length_le (by simp [names, hlength])
    cases hfind : findMember name members with
    | none =>
      rw [findMember_eq_none, hperm.mem_iff, ← findMember_eq_none] at hfind
      rw [hfind]
      exact .none
    | some v =>
      obtain ⟨w, hw, hequal⟩ := h _ (mem_of_findMember hfind)
      rw [hw]
      exact .some hequal
  · intro h
    have hnames : ∀ name, name ∈ names members ↔ name ∈ names others := by
      intro name
      rw [← not_iff_not, ← findMember_eq_none, ← findMember_eq_none]
      have hrel := h name
      revert hrel
      cases findMember name members <;> cases findMember name others <;> intro hrel <;> cases hrel
        <;> simp
    have hle := (hmembers.subperm fun name => (hnames name).mp).length_le
    have hge := (hothers.subperm fun name => (hnames name).mpr).length_le
    simp only [names, length_map] at hle hge
    refine ⟨Nat.le_antisymm hle hge, fun m hm => ?_⟩
    have hrel := h m.1
    rw [findMember_of_mem hmembers hm] at hrel
    cases hfind : findMember m.1 others with
    | none => rw [hfind] at hrel; cases hrel
    | some w =>
      rw [hfind] at hrel
      cases hrel with
      | some hequal => exact ⟨w, rfl, hequal⟩

end WinCommander.Config
