/-
  What a restart makes of the settings: the document that is read back is the merge of the
  defaults with the overwrites built from the document that was left.

  An overwrite cannot say that a member is gone. So a document comes back as it was exactly when,
  wherever it and the defaults both have an object, it has every member that the defaults have
  there (`covers`). `Set` breaks that only with an object of its own.
-/
import WinCommander.Config.ConfigImpl
import WinCommander.Config.Members

namespace WinCommander.Config

open Library List Option RapidJson Value

variable {ν : Type} {json : RapidJson ν}

/-- The node under a list of names, through objects. -/
def nodeAt : List Bytes → Value ν → Option (Value ν)
  | [], value => some value
  | name :: path, .object members => (findMember name members).bind (nodeAt path)
  | _, _ => none

mutual
/-- No member of the defaults' objects is missing in the value. -/
def coversMembers (members : Members ν) : Members ν → Bool
  | [] => true
  | (name, standard) :: rest =>
    (match findMember name members with
      | none => false
      | some value => covers value standard) && coversMembers members rest
def covers (value : Value ν) : Value ν → Bool
  | .object standards =>
    match value with
    | .object members => coversMembers members standards
    | _ => true
  | _ => true
end

/-- A restart with a document keeps it, and its overwrites. -/
def Restarts (json : RapidJson ν) (defaults document : Value ν) : Prop :=
  json.equal (mergeDocuments defaults (json.buildOverwrites defaults document)) document = true ∧
    json.equal (json.buildOverwrites defaults
        (mergeDocuments defaults (json.buildOverwrites defaults document)))
      (json.buildOverwrites defaults document) = true

instance (defaults document : Value ν) : Decidable (Restarts json defaults document) :=
  inferInstanceAs (Decidable (_ ∧ _))

/-- A sequence of calls of `Set`. -/
def setAll (json : RapidJson ν) (s : ConfigImpl ν) (sets : List (Bytes × Value ν)) : ConfigImpl ν :=
  sets.foldl (fun s set => (ConfigImpl.setInternal json s set.1 set.2).1) s

/-! ## Covering -/

section Covering

variable {members standards overwrites : Members ν} {value standard overwrite : Value ν}
  {name : Bytes}

theorem coversMembers_iff : coversMembers members standards ↔
      ∀ m ∈ standards, ∃ v, findMember m.1 members = some v ∧ covers v m.2 := by
  induction standards with
  | nil => simp [coversMembers]
  | cons m rest ih =>
    cases hfind : findMember m.1 members with
    | none => simp [coversMembers, hfind]
    | some v => simp [coversMembers, hfind, ih]

theorem covers_self (h : Unique value) : covers value value := by
  induction value using induction with
  | object members ih =>
    rw [covers, coversMembers_iff]
    exact fun m hm => ⟨m.2, findMember_of_mem h.names hm,
      ih m hm ((everyObject_object.mp h).2 m hm)⟩
  | _ => rfl

/-- What a name finds in merged objects. -/
theorem findMember_merged (overwrites members : Members ν) (name : Bytes) :
    findMember name (mergeMembers overwrites members ++
        overwrites.filter fun member => (findMember member.1 members).isNone) =
      match findMember name members with
      | none => findMember name overwrites
      | some value => some (((findMember name overwrites).map (mergeValue · value)).getD value) := by
  have hmerge : findMember name (mergeMembers overwrites members) = (findMember name members).map
      fun value => ((findMember name overwrites).map (mergeValue · value)).getD value := by
    induction members with
    | nil => rfl
    | cons m rest ih =>
      rw [mergeMembers, findMember_cons, findMember_cons, ih]
      by_cases heq : m.1 = name
      · rw [if_pos heq, if_pos heq, heq]
        cases findMember name overwrites <;> rfl
      · rw [if_neg heq, if_neg heq]
  rw [findMember_append, hmerge,
    findMember_filter (fun other => (findMember other members).isNone) overwrites]
  cases findMember name members <;> simp

@[simp] theorem names_mergeMembers : names (mergeMembers overwrites members) = names members := by
  induction members with
  | nil => rfl
  | cons m rest ih =>
    exact congrArg (m.1 :: ·) ih

theorem nodup_merged (hoverwrites : (names overwrites).Nodup) (hmembers : (names members).Nodup) :
    (names (mergeMembers overwrites members ++
      overwrites.filter fun member => (findMember member.1 members).isNone)).Nodup := by
  rw [names_append, nodup_append]
  refine ⟨by rwa [names_mergeMembers], hoverwrites.sublist (filter_sublist.map _), ?_⟩
  intro other hother _ hadded heq
  obtain ⟨m, hm, rfl⟩ := mem_map.mp hadded
  have hnone := (mem_filter.mp hm).2
  rw [isNone_iff_eq_none, findMember_eq_none, ← heq] at hnone
  exact hnone (names_mergeMembers ▸ hother)

theorem unique_mergeValue (hoverwrite : Unique overwrite) (hvalue : Unique value) :
    Unique (mergeValue overwrite value) := by
  induction value using induction generalizing overwrite with
  | object members ih =>
    cases overwrite with
    | object overwrites =>
      rw [mergeValue, Unique, everyObject_object]
      have hnodup := nodup_merged hoverwrite.names hvalue.names
      refine ⟨by simpa using hnodup, fun m hm => ?_⟩
      have hfind := findMember_of_mem hnodup hm
      rw [findMember_merged] at hfind
      cases hmember : findMember m.1 members with
      | none =>
        rw [hmember] at hfind
        exact everyObject_find hoverwrite hfind
      | some v =>
        rw [hmember] at hfind
        have hv := everyObject_find hvalue hmember
        cases hover : findMember m.1 overwrites with
        | none =>
          rw [hover] at hfind
          cases hfind
          exact hv
        | some o =>
          rw [hover] at hfind
          rw [← Option.some.inj hfind]
          exact ih _ (mem_of_findMember hmember) (everyObject_find hoverwrite hover) hv
    | _ => exact hoverwrite
  | _ => exact hoverwrite

theorem covers_mergeValue (h : Unique value) : covers (mergeValue overwrite value) value := by
  induction value using induction generalizing overwrite with
  | object members ih =>
    cases overwrite with
    | object overwrites =>
      rw [mergeValue, covers, coversMembers_iff]
      intro m hm
      have hv := (everyObject_object.mp h).2 m hm
      rw [findMember_merged, findMember_of_mem h.names hm]
      cases findMember m.1 overwrites with
      | none => exact ⟨m.2, rfl, covers_self hv⟩
      | some o => exact ⟨mergeValue o m.2, rfl, ih m hm hv⟩
    | _ => rfl
  | _ => rfl

end Covering

/-! ## Back from the overwrites -/

section Back

variable {members standards : Members ν} {value standard : Value ν} {name : Bytes}

/-- Both are objects, of which only the differences are kept. -/
def Nested : Value ν → Value ν → Prop
  | .object _, .object _ => True
  | _, _ => False

section
variable (h : ¬Nested standard value)
include h

theorem buildMember_of_not : json.buildMember name standard value =
      if json.equal standard value = true then [] else [(name, value)] := by
  cases value with
  | object members =>
    cases standard with
    | object standards => exact (h trivial).elim
    | _ => rfl
  | _ => rfl

theorem mergeValue_of_not : mergeValue value standard = value := by
  cases standard with
  | object standards =>
    cases value with
    | object members => exact (h trivial).elim
    | _ => rfl
  | _ => rfl

theorem covers_of_not : covers value standard := by
  cases standard with
  | object standards =>
    cases value with
    | object members => exact (h trivial).elim
    | _ => rfl
  | _ => rfl

end

theorem names_buildMember : (names (json.buildMember name standard value)).Sublist [name] := by
  by_cases h : Nested standard value
  · cases standard with
    | object standards =>
      cases value with
      | object members => exact Sublist.refl _
      | _ => exact h.elim
    | _ => cases value <;> exact h.elim
  · rw [buildMember_of_not h]
    split
    · exact nil_sublist _
    · exact Sublist.refl _

theorem names_buildMembers :
    (names (json.buildMembers standards members)).Sublist (names members) := by
  induction members with
  | nil => exact Sublist.refl _
  | cons m rest ih =>
    rw [buildMembers, names_append]
    show List.Sublist _ ([m.1] ++ names rest)
    refine Sublist.append ?_ ih
    cases findMember m.1 standards with
    | none => exact Sublist.refl _
    | some standard => exact names_buildMember

theorem findMember_build (h : (names members).Nodup) :
    findMember name (json.buildMembers standards members) =
      (findMember name members).bind fun value =>
        match findMember name standards with
        | none => some value
        | some standard => findMember name (json.buildMember name standard value) := by
  induction members with
  | nil => rfl
  | cons m rest ih =>
    obtain ⟨other, value⟩ := m
    rw [names_cons, nodup_cons] at h
    rw [buildMembers, findMember_append, ih h.2, findMember_cons]
    by_cases heq : other = name
    · subst heq
      rw [if_pos rfl, findMember_eq_none.mpr h.1]
      cases findMember other standards with
      | none => simp [findMember_cons]
      | some standard => simp
    · rw [if_neg heq]
      cases findMember other standards with
      | none => simp [findMember_cons, heq]
      | some standard =>
        have hnone : findMember name (json.buildMember other standard value) = none :=
          findMember_eq_none.mpr fun hname =>
            heq (mem_singleton.mp (names_buildMember.subset hname)).symm
        simp [hnone]

/-- What comes back of a value where the defaults have another. -/
def comeBack (json : RapidJson ν) (standard value : Value ν) : Value ν :=
  ((findMember [] (json.buildMember [] standard value)).map (mergeValue · standard)).getD standard

theorem comeBack_of_not (h : ¬Nested standard value) : comeBack json standard value =
      if json.equal standard value = true then standard else value := by
  rw [comeBack, buildMember_of_not h]
  split
  · rfl
  · simp [findMember_cons, mergeValue_of_not h]

theorem findMember_buildMember (name : Bytes) :
    findMember name (json.buildMember name standard value) =
      findMember [] (json.buildMember [] standard value) := by
  by_cases h : Nested standard value
  · cases standard with
    | object standards =>
      cases value with
      | object members => simp [buildMember, findMember_cons]
      | _ => exact h.elim
    | _ => cases value <;> exact h.elim
  · rw [buildMember_of_not h, buildMember_of_not h]
    split
    · rfl
    · simp [findMember_cons]

theorem comeBack_object (standards members : Members ν) :
    comeBack json (.object standards) (.object members) = mergeDocuments (.object standards)
        (json.buildOverwrites (.object standards) (.object members)) := by
  simp [comeBack, buildMember, findMember_cons, mergeDocuments, buildOverwrites]

/-- What a name finds in an object that came back. -/
theorem findMember_comeBack (h : (names members).Nodup) (name : Bytes) :
    findMember name (mergeMembers (json.buildMembers standards members) standards ++
        (json.buildMembers standards members).filter fun member =>
          (findMember member.1 standards).isNone) =
      match findMember name standards with
      | none => findMember name members
      | some standard => some (((findMember name members).map (comeBack json standard)).getD
          standard) := by
  rw [findMember_merged, findMember_build h]
  cases findMember name standards with
  | none => cases findMember name members <;> rfl
  | some standard =>
    cases findMember name members with
    | none => rfl
    | some value => simp only [bind_some, map_some, getD_some, comeBack,
        findMember_buildMember name]

theorem nodup_comeBack (hstandards : (names standards).Nodup) (hmembers : (names members).Nodup) :
    (names (mergeMembers (json.buildMembers standards members) standards ++
      (json.buildMembers standards members).filter fun member =>
        (findMember member.1 standards).isNone)).Nodup :=
  nodup_merged (hmembers.sublist names_buildMembers) hstandards

section
variable (hself : ∀ n, json.sameNumber n n = true)
include hself

theorem equal_comeBack_of_not (hvalue : Unique value) (h : ¬Nested standard value) :
    json.equal (comeBack json standard value) value := by
  rw [comeBack_of_not h]
  by_cases hequal : json.equal standard value
  · rwa [if_pos hequal]
  · rw [if_neg hequal]
    exact equal_self hself hvalue

/-- A value comes back as it was exactly when it covers the one of the defaults. -/
theorem equal_comeBack_iff (hstandard : Unique standard) (hvalue : Unique value) :
    json.equal (comeBack json standard value) value ↔ covers value standard := by
  induction value using induction generalizing standard with
  | object members ih =>
    cases standard with
    | object standards =>
      rw [comeBack_object, mergeDocuments, buildOverwrites, mergeValue,
        equal_object_iff (nodup_comeBack hstandard.names hvalue.names) hvalue.names, covers,
        coversMembers_iff]
      constructor
      · intro h m hm
        have hrel := h m.1
        rw [findMember_comeBack hvalue.names, findMember_of_mem hstandard.names hm] at hrel
        cases hfind : findMember m.1 members with
        | none => rw [hfind] at hrel; cases hrel
        | some v =>
          rw [hfind] at hrel
          cases hrel with
          | some hequal => exact ⟨v, rfl, (ih _ (mem_of_findMember hfind)
              ((everyObject_object.mp hstandard).2 m hm) (everyObject_find hvalue hfind)).mp hequal⟩
      · intro h name
        rw [findMember_comeBack hvalue.names]
        cases hs : findMember name standards with
        | none =>
          cases hfind : findMember name members with
          | none => exact .none
          | some v => exact .some (equal_self hself (everyObject_find hvalue hfind))
        | some standard =>
          obtain ⟨v, hv, hcovers⟩ := h _ (mem_of_findMember hs)
          have hback := (ih _ (mem_of_findMember hv) (everyObject_find hstandard hs)
            (everyObject_find hvalue hv)).mpr hcovers
          rw [hv]
          exact .some hback
    | _ => exact iff_of_true (equal_comeBack_of_not hself hvalue id) (covers_of_not id)
  | _ =>
    refine iff_of_true (equal_comeBack_of_not hself hvalue ?_) (covers_of_not ?_) <;>
      cases standard <;> exact id

/-- Of a value that came back the same overwrite is built. -/
theorem rebuild_rel (hstandard : Unique standard) (hvalue : Unique value)
    (hcovers : covers value standard) : Option.Rel (json.equal · ·)
      (findMember [] (json.buildMember [] standard (comeBack json standard value)))
      (findMember [] (json.buildMember [] standard value)) := by
  have hsame : ∀ (o : Option (Value ν)), (∀ v, o = some v → Unique v) →
      Option.Rel (json.equal · ·) o o := by
    intro o h
    cases o with
    | none => exact .none
    | some v => exact .some (equal_self hself (h v rfl))
  have hnested : ∀ standard value : Value ν, Unique standard → Unique value →
      ¬Nested standard value → Option.Rel (json.equal · ·)
        (findMember [] (json.buildMember [] standard (comeBack json standard value)))
        (findMember [] (json.buildMember [] standard value)) := by
    intro standard value hstandard hvalue h
    rw [comeBack_of_not h]
    by_cases hequal : json.equal standard value
    · have hleaf : ¬Nested standard standard := by
        cases standard with
        | object standards =>
          cases value with
          | object members => exact (h trivial).elim
          | _ => cases hequal
        | _ => exact id
      rw [if_pos hequal, buildMember_of_not h, buildMember_of_not hleaf, if_pos hequal,
        if_pos (equal_self hself hstandard)]
      exact .none
    · rw [if_neg hequal, buildMember_of_not h, if_neg hequal]
      exact .some (equal_self hself hvalue)
  induction value using induction generalizing standard with
  | object members ih =>
    cases standard with
    | object standards =>
      have hback := @nodup_comeBack _ json _ _ hstandard.names hvalue.names
      rw [comeBack_object, mergeDocuments, buildOverwrites, mergeValue, buildMember, buildMember]
      refine .some ((equal_object_iff (hback.sublist names_buildMembers)
        (hvalue.names.sublist names_buildMembers)).mpr fun name => ?_)
      rw [findMember_build hback, findMember_build hvalue.names, findMember_comeBack hvalue.names]
      cases hs : findMember name standards with
      | none =>
        rw [bind_fun_some]
        exact hsame _ fun v hv => everyObject_find hvalue hv
      | some standard =>
        rw [covers, coversMembers_iff] at hcovers
        obtain ⟨v, hv, hcovered⟩ := hcovers _ (mem_of_findMember hs)
        rw [hv]
        simp only [map_some, getD_some, bind_some, findMember_buildMember name]
        exact ih _ (mem_of_findMember hv) (everyObject_find hstandard hs)
          (everyObject_find hvalue hv) hcovered
    | _ => exact hnested _ _ hstandard hvalue id
  | _ => exact hnested _ _ hstandard hvalue (by cases standard <;> exact id)

theorem restarts_iff (hstandards : Unique (.object standards)) (hmembers : Unique (.object members)) :
    Restarts json (.object standards) (.object members) ↔
      covers (.object members) (.object standards) := by
  rw [Restarts, ← comeBack_object, ← equal_comeBack_iff hself hstandards hmembers]
  refine and_iff_left_of_imp fun hequal => ?_
  have hrel := rebuild_rel hself hstandards hmembers
    ((equal_comeBack_iff hself hstandards hmembers).mp hequal)
  cases hrel with
  | some h => rwa [comeBack_object]

end

end Back

/-! ## `Set` -/

section Set

variable {members : Members ν} {value document document' standard : Value ν} {name part : Bytes}
  {parts : List Bytes}

@[simp] theorem names_setMember : names (setMember part value members) = names members := by
  induction members with
  | nil => rfl
  | cons m rest ih =>
    rw [setMember]
    split
    · rfl
    · exact congrArg (m.1 :: ·) ih

theorem findMember_setMember (h : findMember part members = some old) :
    findMember name (setMember part value members) =
      if name = part then some value else findMember name members := by
  induction members with
  | nil => simp at h
  | cons m rest ih =>
    obtain ⟨other, old'⟩ := m
    rw [setMember]
    by_cases heq : other = part
    · rw [if_pos heq, findMember_cons, findMember_cons, heq]
      by_cases hname : part = name
      · simp [hname]
      · simp [hname, Ne.symm hname]
    · rw [findMember_cons, if_neg heq] at h
      rw [if_neg heq, findMember_cons, findMember_cons, ih h]
      by_cases hname : other = name
      · simp [hname, hname ▸ heq]
      · simp [hname]

/-- What setting a value changes of an object: one member, which has the value or was changed
    in turn. -/
theorem replaceOrInsertAt_cases (hnames : (names members).Nodup)
    (h : json.replaceOrInsertAt value parts (.object members) = some document') :
    ∃ part rest inner members', parts = part :: rest ∧ document' = .object members' ∧
      (names members').Nodup ∧
      (∀ name, findMember name members' = if name = part then some inner else findMember name members) ∧
      (rest = [] ∧ inner = value ∨ ∃ old, findMember part members = some old ∧
        json.replaceOrInsertAt value rest old = some inner) := by
  match parts with
  | [] => simp [replaceOrInsertAt] at h
  | [leaf] =>
    rw [replaceOrInsertAt] at h
    by_cases hleaf : leaf = []
    · simp [hleaf] at h
    rw [if_neg hleaf] at h
    cases hfind : findMember leaf members with
    | none =>
      rw [hfind] at h
      cases h
      refine ⟨leaf, [], value, _, rfl, rfl, ?_, fun name => ?_, .inl ⟨rfl, rfl⟩⟩
      · rw [names_append, nodup_append]
        refine ⟨hnames, nodup_singleton _, fun other hother _ hnew heq => ?_⟩
        have hleaf : other = leaf := heq.trans (mem_singleton.mp hnew)
        exact findMember_eq_none.mp hfind (hleaf ▸ hother)
      · rw [findMember_append, findMember_cons, findMember_nil]
        by_cases hname : name = leaf
        · rw [if_pos hname.symm, if_pos hname, hname, hfind, none_or]
        · rw [if_neg (Ne.symm hname), if_neg hname, or_none]
    | some old =>
      rw [hfind] at h
      dsimp only at h
      split at h
      · cases h
      · cases h
        exact ⟨leaf, [], value, _, rfl, rfl, by rwa [names_setMember],
          fun _ => findMember_setMember hfind, .inl ⟨rfl, rfl⟩⟩
  | part :: next :: rest =>
    rw [replaceOrInsertAt] at h
    · cases hfind : findMember part members with
      | none => simp [hfind] at h
      | some old =>
        rw [hfind] at h
        obtain ⟨inner, hinner, rfl⟩ := map_eq_some_iff.mp h
        exact ⟨part, next :: rest, inner, _, rfl, rfl, by rwa [names_setMember],
          fun _ => findMember_setMember hfind, .inr ⟨old, hfind, hinner⟩⟩
    · simp

theorem covers_replace (hvalue : Unique value) (hdocument : Unique document)
    (hstandard : Unique standard) (hcovers : covers document standard)
    (hexpressible : (nodeAt parts standard).all (covers value))
    (h : json.replaceOrInsertAt value parts document = some document') :
    covers document' standard ∧ Unique document' := by
  induction parts generalizing document document' standard with
  | nil => cases document <;> simp [replaceOrInsertAt] at h
  | cons part parts ih =>
    cases document with
    | object members =>
      obtain ⟨_, _, inner, members', hparts, rfl, hnames, hfind, hinner⟩ :=
        replaceOrInsertAt_cases hdocument.names h
      cases hparts
      have hchanged : ∀ s : Value ν, Unique s → (nodeAt parts s).all (covers value) →
          (∀ old, findMember part members = some old → covers old s) →
          covers inner s ∧ Unique inner := by
        intro s hs hexp hold
        rcases hinner with ⟨rfl, rfl⟩ | ⟨old, hfound, hset⟩
        · exact ⟨by simpa [nodeAt] using hexp, hvalue⟩
        · exact ih (everyObject_find hdocument hfound) hs (hold old hfound) hexp hset
      constructor
      · cases standard with
        | object standards =>
          rw [covers, coversMembers_iff] at hcovers ⊢
          intro m hm
          obtain ⟨v, hv, hcovered⟩ := hcovers m hm
          rw [hfind]
          by_cases hname : m.1 = part
          · refine ⟨inner, if_pos hname, (hchanged m.2 ((everyObject_object.mp hstandard).2 m hm)
              ?_ fun old hold => ?_).1⟩
            · rwa [nodeAt, ← hname, findMember_of_mem hstandard.names hm] at hexpressible
            · rw [hname, hold] at hv
              cases hv
              exact hcovered
          · exact ⟨v, (if_neg hname).trans hv, hcovered⟩
        | _ => rfl
      · rw [Unique, everyObject_object]
        refine ⟨by simpa using hnames, fun m hm => ?_⟩
        have hmember := findMember_of_mem hnames hm
        rw [hfind] at hmember
        split at hmember
        · cases hmember
          -- no default is in the way of a value of which nothing is asked
          have hnone : (nodeAt parts (.null : Value ν)).all (covers value) := by
            cases parts <;> simp [nodeAt, covers]
          exact (hchanged .null rfl hnone fun _ _ => rfl).2
        · exact everyObject_find hdocument hmember
    | _ => cases parts <;> simp [replaceOrInsertAt] at h

/-- The document is covered, and is an object of single names. -/
structure Steady (defaults : Value ν) (s : ConfigImpl ν) : Prop where
  covered : covers s.document defaults = true
  unique : Unique s.document
  object : ∃ members, s.document = .object members

/-- Documents of natural numbers. -/
def plainJson : RapidJson Nat where
  sameNumber a b := a == b
  write _ := []
  parse _ := none

/-- `{"a": {"b": 1}}` -/
def nestedDefaults : Members Nat := [([0x61], .object [([0x62], .number 1)])]

/-- The configuration at its start, with the defaults alone. -/
def atDefaults : ConfigImpl Nat where
  document := .object nestedDefaults
  content := none

end Set

/-! ## Restarting again -/

section Again

variable {value : Value ν} {name : Bytes} {standards members : Members ν}

theorem unique_build_of_not {standard built : Value ν} (hvalue : Unique value)
    (h : ¬Nested standard value)
    (hbuilt : findMember name (json.buildMember name standard value) = some built) : Unique built := by
  rw [buildMember_of_not h] at hbuilt
  split at hbuilt
  · cases hbuilt
  · rw [findMember_cons, if_pos rfl] at hbuilt
    cases hbuilt
    exact hvalue

theorem unique_build {standard built : Value ν} (hvalue : Unique value)
    (hbuilt : findMember name (json.buildMember name standard value) = some built) : Unique built := by
  induction value using Value.induction generalizing name standard built with
  | object members ih =>
    cases standard with
    | object standards =>
      rw [buildMember, findMember_cons, if_pos rfl] at hbuilt
      cases hbuilt
      have hnodup := hvalue.names.sublist (@names_buildMembers _ json members standards)
      refine everyObject_object.mpr ⟨by simpa using hnodup, fun m hm => ?_⟩
      have hfind := findMember_of_mem hnodup hm
      rw [findMember_build hvalue.names] at hfind
      obtain ⟨v, hv, hmember⟩ := Option.bind_eq_some_iff.mp hfind
      have hunique := everyObject_find hvalue hv
      split at hmember
      · cases hmember
        exact hunique
      · exact ih _ (mem_of_findMember hv) hunique hmember
    | _ => exact unique_build_of_not hvalue id hbuilt
  | _ => exact unique_build_of_not hvalue (by cases standard <;> exact id) hbuilt

/-- Whatever a restart has made of a document, the next ones keep. -/
theorem restarts_again (json : RapidJson ν) (hself : ∀ n, json.sameNumber n n = true)
    (hstandards : Unique (.object standards)) (hmembers : Unique (.object members)) :
    Restarts json (.object standards) (mergeDocuments (.object standards)
      (json.buildOverwrites (.object standards) (.object members))) := by
  have hbuilt : Unique (json.buildOverwrites (.object standards) (.object members)) :=
    @unique_build _ json _ [] (.object standards) _ hmembers rfl
  have hcovers : covers (mergeValue (json.buildOverwrites (.object standards) (.object members))
      (.object standards)) (.object standards) := covers_mergeValue hstandards
  exact (restarts_iff hself hstandards (unique_mergeValue hbuilt hstandards)).mpr hcovers

/-- `b` is back after the first restart, and stays. -/
theorem restarts_again_empty : Restarts plainJson (.object nestedDefaults)
    (mergeDocuments (.object nestedDefaults)
      (plainJson.buildOverwrites (.object nestedDefaults) (.object [([0x61], .object [])]))) :=
  restarts_again plainJson (fun n => beq_self_eq_true n) (by decide) (by decide)

end Again

end WinCommander.Config
