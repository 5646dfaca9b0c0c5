/-
  Every stored info counts its references: the promises, the infos below it, and the decrements that
  are still waiting.

  `Kept` is the invariant, with a list of references that are counted but held by nobody at the
  moment (`owing`). An increment adds one to the list and a decrement takes one off; who holds a
  reference is a matter of moving it between the list and the promises, the waiting decrements or the
  infos.
-/
import WinCommander.VFS.VFSInstanceManager

namespace WinCommander.VFS

open List Nat

variable {κ : Type}

open Library

/-! ## The invariant -/

/-- The number of stored infos below an id. -/
def State.children (state : State κ) (id : Nat) : Nat :=
  (state.memory.map (·.parentVFSID)).count id

/-- The references to an id that somebody holds. -/
def State.references (state : State κ) (id : Nat) : Nat :=
  state.promises.count id + state.pending.count id + state.children id

def State.Stored (state : State κ) (id : Nat) : Prop := id ∈ state.memory.map (·.id)

structure Kept (state : State κ) (owing : List Nat) : Prop where
  next : 0 < state.memoryNextID
  distinct : (state.memory.map (·.id)).Nodup
  numbered : ∀ info ∈ state.memory, info.parentVFSID < info.id ∧ info.id < state.memoryNextID
  counted : ∀ info ∈ state.memory, info.promisesCount = state.references info.id + owing.count info.id
  owned : ∀ id, id ∈ state.promises ∨ id ∈ state.pending ∨ id ∈ owing → id ≠ 0 → state.Stored id
  linked : ∀ info ∈ state.memory, info.parentVFSID ≠ 0 → state.Stored info.parentVFSID
  wanted : ∀ info ∈ state.memory, state.expired info.weakHost = true → 0 < info.promisesCount
  enrolled : ∀ info ∈ state.memory, ∀ host, info.weakHost = some host → host ∉ state.dead →
    host ∈ state.aliveHosts

/-! ## Changing one info -/

variable {f : Info κ → Info κ} {id : Nat} {info : Info κ} {state : State κ} {owing : List Nat}

theorem updateInfo_map (hg : ∀ info, g (f info) = g info) (id : Nat) (memory : List (Info κ)) :
    (updateInfo id f memory).map g = memory.map g := by
  induction memory with
  | nil => rfl
  | cons info rest ih =>
    unfold updateInfo
    split
    · rw [map_cons, map_cons, hg]
    · rw [map_cons, map_cons, ih]

theorem mem_updateInfo (hdistinct : (memory.map (·.id)).Nodup) (h : info ∈ updateInfo id f memory) :
    (∃ old ∈ memory, old.id = id ∧ info = f old) ∨ info ∈ memory ∧ info.id ≠ id := by
  induction memory with
  | nil => exact absurd h not_mem_nil
  | cons first rest ih =>
    rw [map_cons, nodup_cons] at hdistinct
    unfold updateInfo at h
    split_ifs at h with hid
    · obtain rfl | h := mem_cons.mp h
      · exact .inl ⟨first, mem_cons_self, hid, rfl⟩
      · refine .inr ⟨mem_cons_of_mem _ h, fun heq => hdistinct.1 ?_⟩
        rw [hid, ← heq]
        exact mem_map_of_mem h
    · obtain rfl | h := mem_cons.mp h
      · exact .inr ⟨mem_cons_self, hid⟩
      · obtain ⟨old, hold, hfound⟩ | ⟨hmem, hne⟩ := ih hdistinct.2 h
        · exact .inl ⟨old, mem_cons_of_mem _ hold, hfound⟩
        · exact .inr ⟨mem_cons_of_mem _ hmem, hne⟩

/-- A change of one info that leaves its id and its parent alone. -/
theorem Kept.update (h : Kept state owing) (hid : ∀ info, (f info).id = info.id)
    (hparent : ∀ info, (f info).parentVFSID = info.parentVFSID)
    (hothers : ∀ other, other ≠ id → owing'.count other = owing.count other)
    (howned : ∀ other ∈ owing', other ≠ 0 → state.Stored other)
    (hcount : ∀ info ∈ state.memory, info.id = id → (f info).promisesCount = state.references id + owing'.count id)
    (hwanted : ∀ info ∈ state.memory, info.id = id → state.expired (f info).weakHost → 0 < (f info).promisesCount)
    (henrolled : ∀ info ∈ state.memory, info.id = id → ∀ host, (f info).weakHost = some host → host ∉ state.dead → host ∈ state.aliveHosts) :
    Kept { state with memory := updateInfo id f state.memory } owing' := by
  have hids : (updateInfo id f state.memory).map (·.id) = state.memory.map (·.id) :=
    updateInfo_map hid id state.memory
  have hparents : (updateInfo id f state.memory).map (·.parentVFSID) =
      state.memory.map (·.parentVFSID) := updateInfo_map hparent id state.memory
  have hstored : ∀ other, State.Stored { state with memory := updateInfo id f state.memory } other ↔
      state.Stored other := by
    intro other
    unfold State.Stored
    rw [hids]
  have hreferences : ∀ other,
      State.references { state with memory := updateInfo id f state.memory } other =
        state.references other := by
    intro other
    unfold State.references State.children
    rw [hparents]
  constructor
  · exact h.next
  · rw [hids]
    exact h.distinct
  · intro info hinfo
    obtain ⟨old, hold, -, rfl⟩ | ⟨hold, -⟩ := mem_updateInfo h.distinct hinfo
    · rw [hid, hparent]
      exact h.numbered old hold
    · exact h.numbered info hold
  · intro info hinfo
    rw [hreferences]
    obtain ⟨old, hold, heq, rfl⟩ | ⟨hold, hne⟩ := mem_updateInfo h.distinct hinfo
    · rw [hid, heq]
      exact hcount old hold heq
    · rw [hothers info.id hne]
      exact h.counted info hold
  · intro other hother hne
    rw [hstored]
    obtain hother | hother | hother := hother
    · exact h.owned other (.inl hother) hne
    · exact h.owned other (.inr (.inl hother)) hne
    · exact howned other hother hne
  · intro info hinfo hne
    rw [hstored]
    obtain ⟨old, hold, -, rfl⟩ | ⟨hold, -⟩ := mem_updateInfo h.distinct hinfo
    · rw [hparent] at hne ⊢
      exact h.linked old hold hne
    · exact h.linked info hold hne
  · intro info hinfo hexpired
    obtain ⟨old, hold, heq, rfl⟩ | ⟨hold, -⟩ := mem_updateInfo h.distinct hinfo
    · exact hwanted old hold heq hexpired
    · exact h.wanted info hold hexpired
  · intro info hinfo host hhost
    obtain ⟨old, hold, heq, rfl⟩ | ⟨hold, -⟩ := mem_updateInfo h.distinct hinfo
    · exact henrolled old hold heq host hhost
    · exact h.enrolled info hold host hhost

/-! ## Counting references -/

section
variable (h : Kept state owing)
include h

theorem Kept.stored_ne_zero (hstored : state.Stored id) : id ≠ 0 := by
  obtain ⟨info, hinfo, rfl⟩ := mem_map.mp hstored
  exact Nat.ne_of_gt (Nat.lt_of_le_of_lt (Nat.zero_le _) (h.numbered info hinfo).1)

theorem Kept.increment (hstored : id ≠ 0 → state.Stored id) :
    Kept { state with memory := updateInfo id Info.incremented state.memory } (id :: owing) := by
  refine h.update (fun _ => rfl) (fun _ => rfl) (fun other hne => ?_) (fun other hother hne => ?_)
    (fun info hinfo heq => ?_) (fun info _ _ _ => succ_pos _) (fun info hinfo _ => h.enrolled info hinfo)
  · exact count_cons_of_ne hne.symm
  · obtain rfl | hother := mem_cons.mp hother
    · exact hstored hne
    · exact h.owned other (.inr (.inr hother)) hne
  · have hcount := h.counted info hinfo
    rw [heq] at hcount
    rw [count_cons_self]
    unfold Info.incremented
    dsimp only
    omega

/-- References that change hands. -/
theorem Kept.transfer
    (hcounts : ∀ id, id ≠ 0 → promises.count id + pending.count id + owing'.count id = state.promises.count id + state.pending.count id + owing.count id) :
    Kept { state with promises, pending } owing' := by
  constructor
  · exact h.next
  · exact h.distinct
  · exact h.numbered
  · intro info hinfo
    have hne : info.id ≠ 0 := Nat.ne_of_gt (Nat.lt_of_le_of_lt (Nat.zero_le _) (h.numbered info hinfo).1)
    have hcount := h.counted info hinfo
    have hsame := hcounts info.id hne
    have hchildren : State.children { state with promises, pending } info.id = state.children info.id := rfl
    unfold State.references at hcount ⊢
    rw [hchildren]
    dsimp only
    omega
  · intro id hid hne
    have hpositive : 0 < promises.count id + pending.count id + owing'.count id := by
      rcases hid with hid | hid | hid <;> have := count_pos_iff.mpr hid
      · exact Nat.add_pos_left (Nat.add_pos_left this _) _
      · exact Nat.add_pos_left (Nat.add_pos_right _ this) _
      · exact Nat.add_pos_right _ this
    rw [hcounts id hne] at hpositive
    refine h.owned id ?_ hne
    by_contra hnone
    rw [not_or, not_or] at hnone
    rw [count_eq_zero_of_not_mem hnone.1, count_eq_zero_of_not_mem hnone.2.1,
      count_eq_zero_of_not_mem hnone.2.2] at hpositive
    exact absurd hpositive (Nat.lt_irrefl 0)
  · exact h.linked
  · exact h.wanted
  · exact h.enrolled

/-- The references of empty promises are not counted. -/
theorem Kept.zero_cons : Kept state (0 :: owing) :=
  h.transfer fun id hne => by rw [count_cons_of_ne hne.symm]

end

theorem Kept.zero_uncons (h : Kept state (0 :: owing)) : Kept state owing :=
  h.transfer fun id hne => by rw [count_cons_of_ne hne.symm]

theorem Kept.incPromiseCount (h : Kept state owing) (hstored : id ≠ 0 → state.Stored id) :
    Kept (state.incPromiseCount id) (id :: owing) := by
  unfold State.incPromiseCount
  split_ifs with hid
  · rw [hid]
    exact h.zero_cons
  · exact h.increment hstored

theorem infoFromID_eq_some (h : state.infoFromID id = some info) :
    info ∈ state.memory ∧ info.id = id :=
  ⟨List.mem_of_find?_eq_some h, by simpa using List.find?_some h⟩

theorem exists_infoFromID (h : state.Stored id) : ∃ info, state.infoFromID id = some info := by
  obtain ⟨info, hinfo, rfl⟩ := mem_map.mp h
  refine Option.isSome_iff_exists.mp (List.find?_isSome.mpr ⟨info, hinfo, ?_⟩)
  simp

/-- The source asserts this before it decrements. -/
theorem Kept.decPromiseCount_positive (h : Kept state (id :: owing))
    (hinfo : state.infoFromID id = some info) : 0 < info.promisesCount := by
  obtain ⟨hmem, rfl⟩ := infoFromID_eq_some hinfo
  rw [h.counted info hmem, count_cons_self]
  exact succ_pos _

/-- An info that nobody refers to goes, and the reference to its parent waits for the background. -/
theorem Kept.erase {before after : List (Info κ)} (h : Kept state (info.id :: owing))
    (hmemory : state.memory = before ++ info :: after)
    (hnone : state.references info.id + owing.count info.id = 0) : Kept { state with
      memory := before ++ after
      pending :=
        if info.parentVFSID > 0 then state.pending ++ [info.parentVFSID] else state.pending } owing := by
  have hsubset : ∀ other ∈ before ++ after, other ∈ state.memory := by
    intro other hother
    rw [hmemory]
    obtain hother | hother := mem_append.mp hother
    · exact mem_append_left _ hother
    · exact mem_append_right _ (mem_cons_of_mem _ hother)
  have hinfo : info ∈ state.memory := by
    rw [hmemory]
    exact mem_append_right _ mem_cons_self
  have hdistinct : (info.id :: (before ++ after).map (·.id)).Nodup := by
    have hall := h.distinct
    rw [hmemory, map_append, map_cons] at hall
    rw [map_append]
    exact nodup_middle.mp hall
  obtain ⟨hfresh, hdistinct⟩ := nodup_cons.mp hdistinct
  have hstored : ∀ id, id ≠ info.id → state.Stored id → id ∈ (before ++ after).map (·.id) := by
    intro id hne hid
    unfold State.Stored at hid
    rw [hmemory, map_append, map_cons] at hid
    rw [map_append]
    simp only [mem_append, mem_cons] at hid ⊢
    tauto
  have hunowned : ∀ id, id ∈ state.promises ∨ id ∈ state.pending ∨ id ∈ owing → id ≠ info.id := by
    unfold State.references at hnone
    rintro id hid rfl
    rcases hid with hid | hid | hid <;> have := count_pos_iff.mpr hid <;> omega
  have hchildren : ∀ id, state.children id =
      ((before ++ after).map (·.parentVFSID)).count id + if info.parentVFSID = id then 1 else 0 := by
    intro id
    unfold State.children
    rw [hmemory, map_append, map_cons, count_append, count_cons, map_append, count_append]
    simp only [beq_iff_eq]
    omega
  constructor
  · exact h.next
  · exact hdistinct
  · exact fun other hother => h.numbered other (hsubset other hother)
  · intro other hother
    have hpositive := (h.numbered other (hsubset other hother)).1
    have hother' : info.id ≠ other.id := fun heq => hfresh (heq ▸ mem_map_of_mem hother)
    rw [h.counted other (hsubset other hother), count_cons_of_ne hother']
    unfold State.references
    rw [hchildren]
    unfold State.children
    by_cases hparent : info.parentVFSID > 0
    · rw [if_pos hparent, count_append, count_singleton]
      simp only [beq_iff_eq]
      omega
    · have hne : ¬info.parentVFSID = other.id := by omega
      rw [if_neg hparent, if_neg hne, Nat.add_zero]
  · intro id hid hne
    have hparent : info.parentVFSID ≠ info.id := Nat.ne_of_lt (h.numbered info hinfo).1
    obtain hid | hid | hid := hid
    · exact hstored id (hunowned id (.inl hid)) (h.owned id (.inl hid) hne)
    · by_cases hmem : id ∈ state.pending
      · exact hstored id (hunowned id (.inr (.inl hmem))) (h.owned id (.inr (.inl hmem)) hne)
      · have heq : id = info.parentVFSID := by
          split at hid
          · obtain hid | hid := mem_append.mp hid
            · exact absurd hid hmem
            · exact mem_singleton.mp hid
          · exact absurd hid hmem
        rw [heq] at hne ⊢
        exact hstored _ hparent (h.linked info hinfo hne)
    · exact hstored id (hunowned id (.inr (.inr hid)))
        (h.owned id (.inr (.inr (mem_cons_of_mem _ hid))) hne)
  · intro other hother hne
    refine hstored _ (fun heq => ?_) (h.linked other (hsubset other hother) hne)
    have hpositive : 0 < state.children info.id := by
      refine count_pos_iff.mpr ?_
      rw [← heq]
      exact mem_map_of_mem (hsubset other hother)
    unfold State.references at hnone
    omega
  · exact fun other hother => h.wanted other (hsubset other hother)
  · exact fun other hother => h.enrolled other (hsubset other hother)

theorem Kept.decPromiseCount (h : Kept state (id :: owing)) :
    Kept (state.decPromiseCount id) owing := by
  unfold State.decPromiseCount
  by_cases hid : id = 0
  · rw [if_pos hid]
    rw [hid] at h
    exact h.zero_uncons
  rw [if_neg hid]
  obtain ⟨info, hinfo⟩ := exists_infoFromID (h.owned id (.inr (.inr mem_cons_self)) hid)
  obtain ⟨hmem, rfl⟩ := infoFromID_eq_some hinfo
  have hcount := h.counted info hmem
  rw [count_cons_self] at hcount
  rw [hinfo]
  dsimp only
  by_cases hlast : info.promisesCount - 1 = 0 ∧ state.expired info.weakHost
  · rw [if_pos hlast]
    -- The first info of the id is the one that was found.
    obtain ⟨-, before, after, hmemory, hbefore⟩ := List.find?_eq_some_iff_append.mp hinfo
    have herase : state.memory.eraseP (·.id = info.id) = before ++ after := by
      rw [hmemory, eraseP_append_right _ fun other hother => by simpa using hbefore other hother,
        eraseP_cons_of_pos (by simp)]
    rw [herase]
    exact h.erase hmemory (by omega)
  · rw [if_neg hlast]
    refine h.update (fun _ => rfl) (fun _ => rfl) (fun other hne => ?_) (fun other hother => ?_)
      (fun other hother heq => ?_) (fun other hother heq hexpired => ?_)
      (fun other hother _ => h.enrolled other hother)
    · exact (count_cons_of_ne hne.symm).symm
    · exact h.owned other (.inr (.inr (mem_cons_of_mem _ hother)))
    · have hsame := h.counted other hother
      rw [heq, count_cons_self] at hsame
      unfold Info.decremented
      dsimp only
      omega
    · cases inj_on_of_nodup_map h.distinct hother hmem heq
      have hnot : info.promisesCount - 1 ≠ 0 := fun hzero => hlast ⟨hzero, hexpired⟩
      exact Nat.pos_of_ne_zero hnot

/-! ## Promises -/

/-- Taking one out of a list takes one off its count. -/
theorem count_eraseIdx_add (values : List Nat) (position id : Nat) (hid : id ≠ 0) :
    (values.eraseIdx position).count id + (if values.getD position 0 = id then 1 else 0) =
      values.count id := by
  induction values generalizing position with
  | nil => simp [hid.symm]
  | cons value values ih =>
    cases position with
    | zero =>
      rw [eraseIdx_cons_zero, getD_cons_zero, count_cons]
      simp
    | succ position =>
      have hrest := ih position
      rw [eraseIdx_cons_succ, getD_cons_succ, count_cons, count_cons]
      omega

/-- Replacing one in a list takes it off its count and adds the new one. -/
theorem count_set_add (values : List Nat) (h : position < values.length) (value id : Nat) :
    (values.set position value).count id + (if values.getD position 0 = id then 1 else 0) =
      values.count id + if value = id then 1 else 0 := by
  induction values generalizing position with
  | nil => exact absurd h (Nat.not_lt_zero _)
  | cons first values ih =>
    cases position with
    | zero =>
      rw [set_cons_zero, getD_cons_zero, count_cons, count_cons]
      simp only [beq_iff_eq]
      omega
    | succ position =>
      have hrest := ih (lt_of_succ_lt_succ h)
      rw [set_cons_succ, getD_cons_succ, count_cons, count_cons]
      omega

theorem count_append_singleton (values : List Nat) (value id : Nat) :
    (values ++ [value]).count id = values.count id + if value = id then 1 else 0 := by
  rw [count_append, count_singleton]
  simp

theorem count_cons_ite (value id : Nat) (values : List Nat) :
    (value :: values).count id = values.count id + if value = id then 1 else 0 := by
  rw [count_cons]
  simp

theorem Kept.spawnPromise (h : Kept state owing) (hstored : state.Stored id) :
    Kept (state.spawnPromise id) owing := by
  refine (h.increment fun _ => hstored).transfer fun other _ => ?_
  dsimp only
  rw [count_append_singleton, count_cons_ite]
  omega

theorem Kept.spawnPromiseOf (h : Kept state []) {info : Option (Info κ)}
    (hstored : ∀ found, info = some found → found ∈ state.memory) :
    Kept (state.spawnPromiseOf info) [] := by
  cases info with
  | none =>
    refine h.transfer fun other hne => ?_
    rw [count_append_singleton, if_neg hne.symm, Nat.add_zero]
  | some info => exact h.spawnPromise (mem_map_of_mem (hstored info rfl))

theorem Kept.destroyPromise (h : Kept state owing) (promise : Nat) :
    Kept (state.destroyPromise promise) owing := by
  refine Kept.decPromiseCount (h.transfer fun id hne => ?_)
  have hcount := count_eraseIdx_add state.promises promise id hne
  rw [count_cons_ite]
  omega

theorem Kept.runBackground (h : Kept state []) (position : Nat) :
    Kept (state.runBackground position) [] := by
  refine Kept.decPromiseCount (h.transfer fun id hne => ?_)
  have hcount := count_eraseIdx_add state.pending position id hne
  rw [count_cons_ite]
  omega

/-- The counts do not depend on who holds the promises. -/
theorem incPromiseCount_withPromises (state : State κ) (promises : List Nat) (id : Nat) :
    State.incPromiseCount { state with promises } id =
      { state.incPromiseCount id with promises } := by
  unfold State.incPromiseCount
  split <;> rfl

@[simp] theorem incPromiseCount_promises (state : State κ) (id : Nat) :
    (state.incPromiseCount id).promises = state.promises := by
  unfold State.incPromiseCount
  split <;> rfl

theorem decPromiseCount_withPromises (state : State κ) (promises : List Nat) (id : Nat) :
    State.decPromiseCount { state with promises } id =
      { state.decPromiseCount id with promises } := by
  have hfound : State.infoFromID { state with promises } id = state.infoFromID id := rfl
  have hexpired : ∀ weakHost, State.expired { state with promises } weakHost = state.expired weakHost :=
    fun _ => rfl
  unfold State.decPromiseCount
  simp only [hfound, hexpired]
  split
  · rfl
  · split
    · rfl
    · split <;> rfl

theorem idOf_mem (h : state.idOf promise ≠ 0) : state.idOf promise ∈ state.promises := by
  unfold State.idOf at h ⊢
  rw [List.getD_eq_getElem?_getD] at h ⊢
  cases hget : state.promises[promise]? with
  | none =>
    rw [hget] at h
    exact absurd rfl h
  | some id => exact mem_of_getElem? hget

theorem Kept.copyPromise (h : Kept state []) (promise : Nat) :
    Kept (state.copyPromise promise) [] := by
  have hstored : state.idOf promise ≠ 0 → state.Stored (state.idOf promise) :=
    fun hne => h.owned _ (.inl (idOf_mem hne)) hne
  unfold State.copyPromise
  rw [incPromiseCount_withPromises]
  refine (h.incPromiseCount hstored).transfer fun id _ => ?_
  rw [count_append_singleton, count_cons_ite, incPromiseCount_promises]
  omega

theorem Kept.movePromise (h : Kept state []) (hlt : promise < state.promises.length) :
    Kept (state.movePromise promise) [] := by
  refine h.transfer fun id hne => ?_
  have hset := count_set_add state.promises hlt 0 id
  unfold State.idOf
  rw [if_neg hne.symm] at hset
  rw [count_append_singleton]
  omega

/-- An id stays stored unless the count of it has come to an end. -/
theorem stored_decPromiseCount (hstored : state.Stored other)
    (hkept : other = id → ∀ info ∈ state.memory, info.id = id → info.promisesCount = 1 → ¬state.expired info.weakHost)
    (hpositive : ∀ info ∈ state.memory, info.id = id → 0 < info.promisesCount) :
    (state.decPromiseCount id).Stored other := by
  unfold State.decPromiseCount
  split
  · exact hstored
  split
  · exact hstored
  next info hinfo =>
  obtain ⟨hmem, heq⟩ := infoFromID_eq_some hinfo
  split
  next hlast =>
    have hne : other ≠ id := by
      intro hother
      refine hkept hother info hmem heq ?_ hlast.2
      have := hpositive info hmem heq
      omega
    obtain ⟨found, hfound, rfl⟩ := mem_map.mp hstored
    exact mem_map_of_mem ((mem_eraseP_of_neg (by simpa using hne)).mpr hfound)
  next =>
    have hids : (updateInfo id Info.decremented state.memory).map (·.id) = state.memory.map (·.id) :=
      updateInfo_map (fun _ => by rfl) id state.memory
    unfold State.Stored
    rw [hids]
    exact hstored

/-- After the old id was given back the target holds nothing. -/
theorem Kept.released (h : Kept state []) (hlt : target < state.promises.length) :
    Kept { state.decPromiseCount (state.idOf target) with promises := state.promises.set target 0 } [] := by
  have hdropped : Kept { state with promises := state.promises.set target 0 } [state.idOf target] := by
    refine h.transfer fun id hne => ?_
    have hset := count_set_add state.promises hlt 0 id
    rw [if_neg hne.symm] at hset
    rw [count_cons_ite]
    unfold State.idOf
    omega
  have hkept := hdropped.decPromiseCount
  rw [decPromiseCount_withPromises] at hkept
  exact hkept

/-- An info that is not the one of a last promise assigned to itself survives the assignment. -/
def AssignSound (state : State κ) (target source : Nat) : Prop :=
  target = source → ∀ info ∈ state.memory, info.id = state.idOf target → info.promisesCount = 1 →
    ¬state.expired info.weakHost = true

theorem Kept.assignPromise (h : Kept state []) (hlt : target < state.promises.length)
    (hsound : AssignSound state target source) : Kept (state.assignPromise target source) [] := by
  have hreleased := h.released hlt
  have hstored : state.idOf source ≠ 0 →
      State.Stored { state.decPromiseCount (state.idOf target) with
        promises := state.promises.set target 0 } (state.idOf source) := by
    intro hne
    have hmem := idOf_mem hne
    by_cases hself : target = source
    · refine stored_decPromiseCount (h.owned _ (.inl hmem) hne) (fun _ => ?_) fun info hinfo heq => ?_
      · exact hsound hself
      · rw [h.counted info hinfo, heq, hself]
        have := count_pos_iff.mpr hmem
        unfold State.references
        omega
    · refine hreleased.owned _ (.inl ?_) hne
      have hget : (state.promises.set target 0).getD source 0 = state.idOf source := by
        unfold State.idOf
        rw [List.getD_eq_getElem?_getD, List.getElem?_set_ne hself, ← List.getD_eq_getElem?_getD]
      have hheld : State.idOf { state with promises := state.promises.set target 0 } source ≠ 0 →
          State.idOf { state with promises := state.promises.set target 0 } source ∈
            state.promises.set target 0 := idOf_mem
      unfold State.idOf at hheld hne ⊢
      rw [hget] at hheld
      exact hheld hne
  unfold State.assignPromise
  rw [incPromiseCount_withPromises]
  have hcounted := hreleased.incPromiseCount hstored
  rw [incPromiseCount_withPromises] at hcounted
  refine hcounted.transfer fun id hne => ?_
  have hset := count_set_add state.promises hlt (state.idOf source) id
  have hset' := count_set_add state.promises hlt 0 id
  rw [if_neg hne.symm] at hset'
  rw [count_cons_ite]
  dsimp only
  omega

theorem Kept.moveAssignPromise (h : Kept state []) (hlt : target < state.promises.length)
    (hlt' : source < state.promises.length) : Kept (state.moveAssignPromise target source) [] := by
  refine (h.released hlt).transfer fun id hne => ?_
  have hget : (state.promises.set target (state.idOf source)).getD source 0 = state.idOf source := by
    rw [List.getD_eq_getElem?_getD, List.getElem?_set]
    unfold State.idOf
    split
    next => simp [hlt']
    next => rw [← List.getD_eq_getElem?_getD]
  have hset := count_set_add state.promises hlt (state.idOf source) id
  have hset' := count_set_add state.promises hlt 0 id
  have hset'' := count_set_add (state.promises.set target (state.idOf source))
    (by rw [length_set]; exact hlt') 0 id
  rw [hget, if_neg hne.symm] at hset''
  rw [if_neg hne.symm] at hset'
  dsimp only
  omega

/-! ## Hosts -/

theorem Kept.enrollAliveHost (h : Kept state owing) (host : Nat) :
    Kept (state.enrollAliveHost host) owing := by
  unfold State.enrollAliveHost
  split
  · exact h
  · exact ⟨h.next, h.distinct, h.numbered, h.counted, h.owned, h.linked, h.wanted,
      fun info hinfo host' hhost hdead => mem_append_left _ (h.enrolled info hinfo host' hhost hdead)⟩

theorem mem_enrollAliveHost (state : State κ) (host : Nat) :
    host ∈ (state.enrollAliveHost host).aliveHosts := by
  unfold State.enrollAliveHost
  split
  next h => exact h
  next => exact mem_append_right _ (mem_singleton_self _)

@[simp] theorem enrollAliveHost_dead (state : State κ) (host : Nat) :
    (state.enrollAliveHost host).dead = state.dead := by
  unfold State.enrollAliveHost
  split <;> rfl

@[simp] theorem enrollAliveHost_memory (state : State κ) (host : Nat) :
    (state.enrollAliveHost host).memory = state.memory := by
  unfold State.enrollAliveHost
  split <;> rfl

@[simp] theorem enrollAliveHost_memoryNextID (state : State κ) (host : Nat) :
    (state.enrollAliveHost host).memoryNextID = state.memoryNextID := by
  unfold State.enrollAliveHost
  split <;> rfl

theorem enrollAliveHost_withMemory (state : State κ) (memory : List (Info κ)) (host : Nat) :
    State.enrollAliveHost { state with memory } host = { state.enrollAliveHost host with memory } := by
  unfold State.enrollAliveHost
  split <;> rfl

variable {host : Nat}

/-- A host that is not gone is set. -/
theorem Kept.setHost (h : Kept state owing) (id : Nat) (hhost : host ∉ state.dead) :
    Kept (state.setHost id host) owing := by
  unfold State.setHost
  rw [enrollAliveHost_withMemory]
  have henrolled := h.enrollAliveHost host
  have hmemory := enrollAliveHost_memory state host
  rw [← hmemory]
  refine henrolled.update (fun _ => rfl) (fun _ => rfl) (fun _ _ => rfl)
    (fun other hother => henrolled.owned other (.inr (.inr hother))) (fun info hinfo heq => ?_)
    (fun info hinfo heq hexpired => ?_) (fun info hinfo heq host' hset hdead => ?_)
  · rw [← heq]
    exact henrolled.counted info hinfo
  · have hexpired : (state.enrollAliveHost host).expired (some host) := hexpired
    unfold State.expired at hexpired
    exact absurd (by simpa using hexpired) hhost
  · cases hset
    exact mem_enrollAliveHost state host

@[simp] theorem setHost_dead (state : State κ) (id host : Nat) :
    (state.setHost id host).dead = state.dead := enrollAliveHost_dead _ _

theorem setHost_stored (state : State κ) (id host other : Nat) :
    (state.setHost id host).Stored other ↔ state.Stored other := by
  have hids : (updateInfo id (Info.withHost host) state.memory).map (·.id) = state.memory.map (·.id) :=
    updateInfo_map (fun _ => by rfl) id state.memory
  unfold State.setHost State.Stored
  rw [enrollAliveHost_memory, hids]

theorem Kept.refreshHost (h : Kept state owing) (id : Nat) (hhost : host ∉ state.dead) :
    Kept (state.refreshHost id host) owing ∧ (state.refreshHost id host).dead = state.dead ∧
      ∀ other, (state.refreshHost id host).Stored other ↔ state.Stored other := by
  unfold State.refreshHost
  split
  · split
    · exact ⟨h.setHost id hhost, setHost_dead state id host, setHost_stored state id host⟩
    · exact ⟨h, rfl, fun _ => Iff.rfl⟩
  · exact ⟨h, rfl, fun _ => Iff.rfl⟩

theorem Kept.refreshHosts (h : Kept state owing) (ids : List Nat)
    (hhosts : ∀ host ∈ hosts, host ∉ state.dead) :
    Kept (state.refreshHosts ids hosts) owing ∧ (state.refreshHosts ids hosts).dead = state.dead ∧
      ∀ other, (state.refreshHosts ids hosts).Stored other ↔ state.Stored other := by
  induction ids generalizing state hosts with
  | nil => exact ⟨h, rfl, fun _ => Iff.rfl⟩
  | cons id ids ih =>
    cases hosts with
    | nil => exact ⟨h, rfl, fun _ => Iff.rfl⟩
    | cons host hosts =>
      obtain ⟨hhost, hrest⟩ := forall_mem_cons.mp hhosts
      obtain ⟨hkept, hdead, hstored⟩ := h.refreshHost id hhost
      rw [← hdead] at hrest
      obtain ⟨hkept', hdead', hstored'⟩ := ih hkept hrest
      exact ⟨hkept', hdead'.trans hdead, fun other => (hstored' other).trans (hstored other)⟩

/-- The front of a matching chain is a stored info. -/
theorem existingMatch_stored [BEq κ] {host : VFSHost κ}
    (h : state.existingMatch host infoIdRequest = some ids) : state.Stored (ids.headD 0) := by
  have hfound : ∀ {configuration hasParent info},
      state.findMatch configuration hasParent infoIdRequest = some info → state.Stored info.id :=
    fun hfind => mem_map_of_mem (List.mem_of_find?_eq_some hfind)
  cases host with
  | root identity configuration =>
    obtain ⟨info, hfind, rfl⟩ := Option.map_eq_some_iff.mp h
    exact hfound hfind
  | child identity configuration parent =>
    unfold State.existingMatch at h
    split at h
    · cases h
    next info hfind =>
      obtain ⟨rest, -, rfl⟩ := Option.map_eq_some_iff.mp h
      exact hfound hfind

/-- A new info, below one that is stored or none. -/
theorem Kept.emplaceInfo (h : Kept state []) (configuration : κ) (hhost : host ∉ state.dead)
    (henrolled : host ∈ state.aliveHosts) (hparent : parentId ≠ 0 → state.Stored parentId) :
    Kept (state.emplaceInfo host configuration parentId) [] := by
  have hcounted := h.increment hparent
  have hbelow : ∀ id, state.Stored id → id < state.memoryNextID := by
    intro id hid
    obtain ⟨info, hinfo, rfl⟩ := mem_map.mp hid
    exact (h.numbered info hinfo).2
  have hparentBelow : parentId < state.memoryNextID := by
    by_cases hzero : parentId = 0
    · rw [hzero]
      exact h.next
    · exact hbelow parentId (hparent hzero)
  generalize hmemory : updateInfo parentId Info.incremented state.memory = memory at hcounted
  have hids : memory.map (·.id) = state.memory.map (·.id) := by
    rw [← hmemory]
    exact updateInfo_map (fun _ => by rfl) parentId state.memory
  have hnew : state.memoryNextID ∉ memory.map (·.id) := by
    rw [hids]
    exact fun hmem => Nat.lt_irrefl _ (hbelow _ hmem)
  have hunowned : ∀ values : List Nat, (∀ id ∈ values, id ≠ 0 → state.Stored id) →
      values.count state.memoryNextID = 0 := by
    intro values hvalues
    refine count_eq_zero_of_not_mem fun hmem => ?_
    exact Nat.lt_irrefl _ (hbelow _ (hvalues _ hmem (Nat.ne_of_gt h.next)))
  unfold State.emplaceInfo
  rw [hmemory]
  constructor
  · exact succ_pos _
  · rw [map_append, map_cons, map_nil]
    exact hcounted.distinct.append (nodup_singleton _) (disjoint_singleton.mpr hnew)
  · intro info hinfo
    obtain hinfo | hinfo := mem_append.mp hinfo
    · have := hcounted.numbered info hinfo
      exact ⟨this.1, lt_succ_of_lt this.2⟩
    · rw [mem_singleton.mp hinfo]
      exact ⟨hparentBelow, lt_succ_self _⟩
  · intro info hinfo
    unfold State.references State.children
    rw [map_append, map_cons, map_nil, count_append_singleton]
    obtain hinfo | hinfo := mem_append.mp hinfo
    · rw [hcounted.counted info hinfo, count_cons_ite]
      unfold State.references State.children
      dsimp only
      omega
    · rw [mem_singleton.mp hinfo]
      have hchildren : (memory.map (·.parentVFSID)).count state.memoryNextID = 0 := by
        refine count_eq_zero_of_not_mem fun hmem => ?_
        obtain ⟨other, hother, heq⟩ := mem_map.mp hmem
        have := hcounted.numbered other hother
        dsimp only at this
        omega
      rw [hunowned state.promises fun id hid => h.owned id (.inl hid),
        hunowned state.pending fun id hid => h.owned id (.inr (.inl hid)), hchildren,
        if_neg (Nat.ne_of_lt hparentBelow)]
      rfl
  · intro id hid hne
    have hstored : state.Stored id := by
      obtain hid | hid | hid := hid
      · exact h.owned id (.inl hid) hne
      · exact h.owned id (.inr (.inl hid)) hne
      · exact absurd hid not_mem_nil
    unfold State.Stored at hstored ⊢
    rw [map_append, hids]
    exact mem_append_left _ hstored
  · intro info hinfo hne
    have hstored : state.Stored info.parentVFSID := by
      obtain hinfo | hinfo := mem_append.mp hinfo
      · have hlinked := hcounted.linked info hinfo hne
        unfold State.Stored at hlinked ⊢
        rw [hids] at hlinked
        exact hlinked
      · rw [mem_singleton.mp hinfo] at hne ⊢
        exact hparent hne
    unfold State.Stored at hstored ⊢
    rw [map_append, hids]
    exact mem_append_left _ hstored
  · intro info hinfo hexpired
    obtain hinfo | hinfo := mem_append.mp hinfo
    · exact hcounted.wanted info hinfo hexpired
    · rw [mem_singleton.mp hinfo] at hexpired
      unfold State.expired at hexpired
      exact absurd (by simpa using hexpired) hhost
  · intro info hinfo other hother
    obtain hinfo | hinfo := mem_append.mp hinfo
    · exact hcounted.enrolled info hinfo other hother
    · rw [mem_singleton.mp hinfo] at hother
      cases hother
      exact fun _ => henrolled

@[simp] theorem decPromiseCount_dead (state : State κ) (id : Nat) :
    (state.decPromiseCount id).dead = state.dead := by
  unfold State.decPromiseCount
  split
  · rfl
  split
  · rfl
  split <;> rfl

theorem emplaceInfo_stored (state : State κ) (host parentId : Nat) (configuration : κ) :
    (state.emplaceInfo host configuration parentId).Stored state.memoryNextID := by
  unfold State.Stored State.emplaceInfo
  rw [map_append]
  exact mem_append_right _ mem_cons_self

theorem infoFromVFSWeakPtr_mem (h : state.infoFromVFSWeakPtr weakHost = some info) :
    info ∈ state.memory :=
  List.mem_of_find?_eq_some h

section
variable (h : Kept state [])
include h

/-- The promise of an info that the host has already. -/
theorem Kept.spawnMatched [BEq κ] {host : VFSHost κ}
    (hmatch : state.existingMatch host 0 = some ids) (hhosts : ∀ host ∈ hosts, host ∉ state.dead) :
    Kept ((state.refreshHosts ids hosts).spawnPromise (ids.headD 0)) [] ∧
      ((state.refreshHosts ids hosts).spawnPromise (ids.headD 0)).dead = state.dead := by
  obtain ⟨hkept, hdead, hstored⟩ := h.refreshHosts ids hhosts
  exact ⟨hkept.spawnPromise ((hstored _).mpr (existingMatch_stored hmatch)), hdead⟩

/-- The promise of a new info. -/
theorem Kept.spawnNew (configuration : κ) (hhost : host ∉ state.dead)
    (hparent : parentId ≠ 0 → state.Stored parentId) :
    Kept (((state.enrollAliveHost host).emplaceInfo host configuration parentId).spawnPromise
      state.memoryNextID) [] := by
  have hdead : host ∉ (state.enrollAliveHost host).dead := by
    rw [enrollAliveHost_dead]
    exact hhost
  have hstored : parentId ≠ 0 → (state.enrollAliveHost host).Stored parentId := by
    unfold State.Stored
    rw [enrollAliveHost_memory]
    exact hparent
  have hemplaced := (h.enrollAliveHost host).emplaceInfo configuration hdead
    (mem_enrollAliveHost state host) hstored
  have hnew := emplaceInfo_stored (state.enrollAliveHost host) host parentId configuration
  rw [enrollAliveHost_memoryNextID] at hnew
  exact hemplaced.spawnPromise hnew

theorem Kept.tameVFS [BEq κ] (host : VFSHost κ)
    (hhosts : ∀ identity ∈ host.chain, identity ∉ state.dead) :
    Kept (state.tameVFS host) [] ∧ (state.tameVFS host).dead = state.dead := by
  induction host with
  | root identity configuration =>
    unfold State.tameVFS
    split
    next info hinfo =>
      exact ⟨h.spawnPromise (mem_map_of_mem (infoFromVFSWeakPtr_mem hinfo)), rfl⟩
    next =>
      split
      next ids hmatch => exact h.spawnMatched hmatch hhosts
      next =>
        refine ⟨h.spawnNew configuration (hhosts identity mem_cons_self) fun hne => absurd rfl hne, ?_⟩
        exact enrollAliveHost_dead state identity
  | child identity configuration parent ih =>
    unfold State.tameVFS
    split
    next info hinfo =>
      exact ⟨h.spawnPromise (mem_map_of_mem (infoFromVFSWeakPtr_mem hinfo)), rfl⟩
    next =>
      split
      next ids hmatch => exact h.spawnMatched hmatch hhosts
      next =>
        obtain ⟨hidentity, hparents⟩ := forall_mem_cons.mp hhosts
        obtain ⟨htamed, hdead⟩ := ih hparents
        -- The promise of the parent's call goes before the info is stored.
        have hreleased := htamed.destroyPromise ((state.tameVFS parent).promises.length - 1)
        have hreleasedDead : ((state.tameVFS parent).destroyPromise
            ((state.tameVFS parent).promises.length - 1)).dead = state.dead := by
          unfold State.destroyPromise
          rw [decPromiseCount_dead]
          exact hdead
        dsimp only
        generalize (state.tameVFS parent).destroyPromise
          ((state.tameVFS parent).promises.length - 1) = released at hreleased hreleasedDead ⊢
        rw [enrollAliveHost_memoryNextID]
        refine ⟨hreleased.spawnNew configuration (hreleasedDead ▸ hidentity) fun hne => ?_, ?_⟩
        · unfold State.infoFromVFSWeakPtr at hne ⊢
          rw [enrollAliveHost_memory] at hne ⊢
          cases hfind : released.memory.find? (·.weakHost = some parent.identity) with
          | none =>
            rw [hfind] at hne
            exact absurd rfl hne
          | some info => exact mem_map_of_mem (List.mem_of_find?_eq_some hfind)
        · exact (enrollAliveHost_dead released identity).trans hreleasedDead

theorem Kept.getOrRestoreVFS (hspawn : ∀ info ∈ state.memory, state.SpawnsAlive (spawn info.id))
    (levels id : Nat) : Kept (state.getOrRestoreVFS spawn levels id).1 [] ∧
      (state.getOrRestoreVFS spawn levels id).1.dead = state.dead := by
  induction levels generalizing id with
  | zero => exact ⟨h, rfl⟩
  | succ levels ih =>
    unfold State.getOrRestoreVFS
    split
    · exact ⟨h, rfl⟩
    next info hinfo =>
    split
    next =>
      have habove : Kept (if info.parentVFSID > 0 then
            state.getOrRestoreVFS spawn levels info.parentVFSID else (state, .ok none)).1 [] ∧
          (if info.parentVFSID > 0 then
            state.getOrRestoreVFS spawn levels info.parentVFSID else (state, .ok none)).1.dead =
              state.dead := by
        split
        · exact ih info.parentVFSID
        · exact ⟨h, rfl⟩
      dsimp only
      generalize (if info.parentVFSID > 0 then
        state.getOrRestoreVFS spawn levels info.parentVFSID else (state, .ok none)) = above at habove ⊢
      split
      next host _ hhost =>
        obtain ⟨hmem, rfl⟩ := infoFromID_eq_some hinfo
        have hfresh := hspawn info hmem
        rw [hhost] at hfresh
        have hfresh : host ∉ above.1.dead := habove.2 ▸ hfresh
        exact ⟨habove.1.setHost info.id hfresh, (setHost_dead _ _ _).trans habove.2⟩
      next => exact habove
      next => exact habove
    next => exact ⟨h, rfl⟩

end

/-! ## Destroyed hosts -/

/-- No info of the host that has lost its promises has a parent, whose count the sweep would leave as
    it is. -/
def SweepSound (state : State κ) (host : Nat) : Prop :=
  ∀ info ∈ state.memory, info.weakHost = some host → info.promisesCount = 0 → info.parentVFSID = 0

theorem expired_destroyed (h : State.expired { state with dead := host :: state.dead } weakHost) :
    state.expired weakHost ∨ weakHost = some host := by
  unfold State.expired at h ⊢
  cases weakHost with
  | none => exact .inl rfl
  | some other =>
    simp only [Option.all_some, mem_cons, decide_eq_true_eq, Option.some.injEq] at h ⊢
    exact h.symm

theorem count_filter_of_not {values : List (Info κ)}
    (h : ∀ info ∈ values, p info = false → info.parentVFSID ≠ id) :
    ((values.filter p).map (·.parentVFSID)).count id = (values.map (·.parentVFSID)).count id := by
  induction values with
  | nil => rfl
  | cons info values ih =>
    obtain ⟨hinfo, hvalues⟩ := forall_mem_cons.mp h
    rw [filter_cons]
    split
    · rw [map_cons, map_cons, count_cons, count_cons, ih hvalues]
    next hp => rw [ih hvalues, map_cons, count_cons_of_ne (hinfo (eq_false_of_ne_true hp))]

/-- The infos that nobody wants any longer after the death of a host are dropped. -/
theorem Kept.dropUnwanted {state gone : State κ} (h : Kept state [])
    (hsound : SweepSound state host) (hgone : gone = { state with dead := host :: state.dead }) :
    Kept { gone with memory :=
      state.memory.filter fun info => !(gone.expired info.weakHost && info.promisesCount = 0) } [] := by
  generalize hkeep : (fun info : Info κ => !(gone.expired info.weakHost && info.promisesCount = 0)) = keep
  have hkept : ∀ info, keep info ↔ ¬(gone.expired info.weakHost ∧ info.promisesCount = 0) := by
    intro info
    rw [← hkeep]
    simp [Classical.or_iff_not_imp_left]
  have hexpired : ∀ {weakHost}, gone.expired weakHost →
      state.expired weakHost ∨ weakHost = some host := by
    rw [hgone]
    exact expired_destroyed
  -- What is dropped has neither references nor a parent.
  have hdropped : ∀ info ∈ state.memory, keep info = false →
      info.promisesCount = 0 ∧ info.parentVFSID = 0 := by
    intro info hinfo hfalse
    have hunwanted := not_not.mp fun hnot => Bool.noConfusion (hfalse.symm.trans ((hkept info).mpr hnot))
    refine ⟨hunwanted.2, ?_⟩
    obtain hexpired | hhost := hexpired hunwanted.1
    · exact absurd hunwanted.2 (Nat.ne_of_gt (h.wanted info hinfo hexpired))
    · exact hsound info hinfo hhost hunwanted.2
  have hreferences : ∀ id, id ≠ 0 →
      State.references { gone with memory := state.memory.filter keep } id = state.references id := by
    intro id hne
    have hparents : ∀ info ∈ state.memory, keep info = false → info.parentVFSID ≠ id := by
      intro info hinfo hfalse heq
      rw [← heq] at hne
      exact hne (hdropped info hinfo hfalse).2
    unfold State.references State.children
    rw [count_filter_of_not hparents, hgone]
  have hstored : ∀ id, state.Stored id → 0 < state.references id →
      State.Stored { gone with memory := state.memory.filter keep } id := by
    intro id hid hpositive
    obtain ⟨info, hinfo, rfl⟩ := mem_map.mp hid
    have hcount := h.counted info hinfo
    refine mem_map_of_mem (mem_filter.mpr ⟨hinfo, (hkept info).mpr fun hunwanted => ?_⟩)
    omega
  have hsubset : ∀ info ∈ state.memory.filter keep, info ∈ state.memory :=
    fun info hinfo => mem_of_mem_filter hinfo
  constructor
  · rw [hgone]
    exact h.next
  · exact h.distinct.sublist (filter_sublist.map _)
  · rw [hgone]
    exact fun info hinfo => h.numbered info (hsubset info hinfo)
  · intro info hinfo
    have hinfo := hsubset info hinfo
    rw [hreferences info.id (h.stored_ne_zero (mem_map_of_mem hinfo))]
    exact h.counted info hinfo
  · intro id hid hne
    rw [hgone] at hid
    refine hstored id (h.owned id hid hne) ?_
    obtain hid | hid | hid := hid
    · exact Nat.add_pos_left (Nat.add_pos_left (count_pos_iff.mpr hid) _) _
    · exact Nat.add_pos_left (Nat.add_pos_right _ (count_pos_iff.mpr hid)) _
    · exact absurd hid not_mem_nil
  · intro info hinfo hne
    have hinfo := hsubset info hinfo
    refine hstored _ (h.linked info hinfo hne) (Nat.add_pos_right _ ?_)
    exact count_pos_iff.mpr (mem_map_of_mem hinfo)
  · intro info hinfo hexpired
    exact Nat.pos_of_ne_zero fun hzero =>
      (hkept info).mp (mem_filter.mp hinfo).2 ⟨hexpired, hzero⟩
  · rw [hgone]
    exact fun info hinfo other hother hdead =>
      h.enrolled info (hsubset info hinfo) other hother fun hmem => hdead (mem_cons_of_mem _ hmem)

theorem Kept.sweepDeadReferences (h : Kept state owing) : Kept state.sweepDeadReferences owing := by
  refine ⟨h.next, h.distinct, h.numbered, h.counted, h.owned, h.linked, h.wanted,
    fun info hinfo host hhost hdead => ?_⟩
  exact mem_filter.mpr ⟨h.enrolled info hinfo host hhost hdead, decide_eq_true hdead⟩

/-- The weak pointers that have expired are reset. -/
theorem Kept.forgetHosts (h : Kept state owing) :
    Kept { state with memory := state.memory.map fun info =>
      if state.expired info.weakHost then { info with weakHost := none } else info } owing := by
  generalize hreset : (fun info : Info κ =>
    if state.expired info.weakHost then { info with weakHost := none } else info) = reset
  have hfields : ∀ info, (reset info).id = info.id ∧ (reset info).parentVFSID = info.parentVFSID ∧
      (reset info).promisesCount = info.promisesCount ∧
        ((reset info).weakHost = info.weakHost ∨ state.expired info.weakHost ∧ (reset info).weakHost = none) := by
    intro info
    rw [← hreset]
    dsimp only
    split
    next hexpired => exact ⟨rfl, rfl, rfl, .inr ⟨hexpired, rfl⟩⟩
    next => exact ⟨rfl, rfl, rfl, .inl rfl⟩
  have hids : (state.memory.map reset).map (·.id) = state.memory.map (·.id) := by
    rw [map_map]
    exact map_congr_left fun info _ => (hfields info).1
  have hparents : (state.memory.map reset).map (·.parentVFSID) = state.memory.map (·.parentVFSID) := by
    rw [map_map]
    exact map_congr_left fun info _ => (hfields info).2.1
  have hstored : ∀ id, State.Stored { state with memory := state.memory.map reset } id ↔
      state.Stored id := by
    intro id
    unfold State.Stored
    rw [hids]
  constructor
  · exact h.next
  · rw [hids]
    exact h.distinct
  · intro info hinfo
    obtain ⟨old, hold, rfl⟩ := mem_map.mp hinfo
    rw [(hfields old).1, (hfields old).2.1]
    exact h.numbered old hold
  · intro info hinfo
    obtain ⟨old, hold, rfl⟩ := mem_map.mp hinfo
    unfold State.references State.children
    rw [hparents, (hfields old).1, (hfields old).2.2.1]
    exact h.counted old hold
  · exact fun id hid hne => (hstored id).mpr (h.owned id hid hne)
  · intro info hinfo hne
    obtain ⟨old, hold, rfl⟩ := mem_map.mp hinfo
    rw [(hfields old).2.1] at hne ⊢
    exact (hstored _).mpr (h.linked old hold hne)
  · intro info hinfo hexpired
    obtain ⟨old, hold, rfl⟩ := mem_map.mp hinfo
    rw [(hfields old).2.2.1]
    obtain hsame | ⟨hgone, -⟩ := (hfields old).2.2.2
    · rw [hsame] at hexpired
      exact h.wanted old hold hexpired
    · exact h.wanted old hold hgone
  · intro info hinfo host hhost
    obtain ⟨old, hold, rfl⟩ := mem_map.mp hinfo
    obtain hsame | ⟨-, hnone⟩ := (hfields old).2.2.2
    · rw [hsame] at hhost
      exact h.enrolled old hold host hhost
    · rw [hnone] at hhost
      cases hhost

theorem Kept.destroyHost (h : Kept state []) (hhost : host ∉ state.dead)
    (hsound : SweepSound state host) : Kept (state.destroyHost host) [] := by
  unfold State.destroyHost
  split
  · exact (h.dropUnwanted hsound rfl).sweepDeadReferences.forgetHosts
  next hnone =>
    refine ⟨h.next, h.distinct, h.numbered, h.counted, h.owned, h.linked, fun info hinfo hexpired => ?_,
      fun info hinfo other hother hdead => ?_⟩
    · obtain hexpired | hset := expired_destroyed hexpired
      · exact h.wanted info hinfo hexpired
      · exact absurd (h.enrolled info hinfo host hset hhost) hnone
    · exact h.enrolled info hinfo other hother fun hmem => hdead (mem_cons_of_mem _ hmem)

/-! ## Runs -/

/-- The events after which the counts are right: no info with a parent is swept, and no last promise
    of an info whose host is gone is assigned to itself. -/
def Sound (state : State κ) : Event κ → Prop
  | .destroyHost host => SweepSound state host
  | .assign target source => AssignSound state target source
  | _ => True

theorem Kept.step [BEq κ] (h : Kept state []) (hpossible : Possible state event)
    (hsound : Sound state event) : Kept (state.step event) [] := by
  cases event with
  | tameVFS host =>
    cases host with
    | none =>
      have hnone : ∀ info, (none : Option (Info κ)) = some info → info ∈ state.memory := nofun
      exact h.spawnPromiseOf hnone
    | some host => exact (h.tameVFS host hpossible).1
  | preserveVFS weakHost => exact h.spawnPromiseOf fun info hinfo => infoFromVFSWeakPtr_mem hinfo
  | retrieveVFS promise spawn => exact (h.getOrRestoreVFS hpossible.2 _ _).1
  | promiseByPosition position => exact h.spawnPromiseOf fun info hinfo => mem_of_getElem? hinfo
  | parentPromise promise =>
    refine h.spawnPromiseOf fun info hinfo => ?_
    obtain ⟨child, -, hparent⟩ := Option.bind_eq_some_iff.mp hinfo
    split at hparent
    · cases hparent
    · exact (infoFromID_eq_some hparent).1
  | copy promise => exact h.copyPromise promise
  | move promise => exact h.movePromise hpossible
  | assign target source => exact h.assignPromise hpossible.1 hsound
  | moveAssign target source => exact h.moveAssignPromise hpossible.1 hpossible.2
  | destroy promise => exact h.destroyPromise promise
  | destroyHost host => exact h.destroyHost hpossible hsound
  | background position => exact h.runBackground position

theorem kept_run [BEq κ]
    (h : Meets (fun (state : State κ) event => (state.step event, ())) (fun state event => Possible state event ∧ Sound state event) {} events) :
    Kept (run events) [] := by
  have hstart : Kept ({} : State κ) [] := by
    refine ⟨Nat.zero_lt_one, nodup_nil, nofun, nofun, ?_, nofun, nofun, nofun⟩
    rintro id (hid | hid | hid) <;> exact absurd hid not_mem_nil
  exact runAll_meets _ (fun state _ => Kept state [])
    (fun state _ event hevent hkept => hkept.step hevent.1 hevent.2) [] events h hstart

/-- At rest the count of an info is the number of its promises and of the infos below it, and an info
    without either whose host is gone is not stored. -/
structure Accounted (state : State κ) : Prop where
  counted : ∀ info ∈ state.memory,
    info.promisesCount = state.promises.count info.id + state.children info.id
  removed : ∀ info ∈ state.memory, state.expired info.weakHost = true →
    0 < state.promises.count info.id + state.children info.id

/-- In a run whose events are sound no info that a promise or an info below refers to is removed, and
    the counts are right whenever no decrement is waiting. -/
theorem references_accounted [BEq κ] {events : List (Event κ)}
    (h : Meets (fun (state : State κ) event => (state.step event, ()))
      (fun state event => Possible state event ∧ Sound state event) {} events) :
    (∀ id ∈ (run events).promises, id ≠ 0 → (run events).Stored id) ∧
      (∀ info ∈ (run events).memory, info.parentVFSID ≠ 0 → (run events).Stored info.parentVFSID) ∧
        ((run events).pending = [] → Accounted (run events)) := by
  have hkept := kept_run h
  refine ⟨fun id hid => hkept.owned id (.inl hid), hkept.linked, fun hrest => ?_⟩
  have hcounted : ∀ info ∈ (run events).memory, info.promisesCount =
      (run events).promises.count info.id + (run events).children info.id := by
    intro info hinfo
    have hcount := hkept.counted info hinfo
    unfold State.references at hcount
    rw [hrest, count_nil, Nat.add_zero, Nat.add_zero] at hcount
    exact hcount
  refine ⟨hcounted, fun info hinfo hexpired => ?_⟩
  rw [← hcounted info hinfo]
  exact hkept.wanted info hinfo hexpired

instance (state : State κ) : ∀ event, Decidable (Sound state event)
  | .destroyHost host =>
    inferInstanceAs (Decidable (∀ info ∈ state.memory, info.weakHost = some host →
      info.promisesCount = 0 → info.parentVFSID = 0))
  | .assign target source =>
    inferInstanceAs (Decidable (target = source → ∀ info ∈ state.memory,
      info.id = state.idOf target → info.promisesCount = 1 → ¬state.expired info.weakHost = true))
  | .tameVFS _ | .preserveVFS _ | .retrieveVFS _ _ | .promiseByPosition _ | .parentPromise _ | .copy _
  | .move _ | .moveAssign _ _ | .destroy _ | .background _ => isTrue trivial

/-- The child's host dies before its promise. -/
theorem references_accounted_removed :
    let events : List (Event Nat) :=
      [.tameVFS (some (.child 2 7 (.root 1 5))), .copy 0, .destroyHost 2, .destroy 0, .destroy 0,
        .background 0]
    (run events).memory.map (·.id) = [1] ∧ Accounted (run events) := by
  refine ⟨by decide +kernel, ?_⟩
  exact (references_accounted (by decide +kernel)).2.2 (by decide +kernel)

/-- The child's promise dies before its host: the sweep takes the child, and the parent keeps the
    count of it. -/
theorem references_unaccounted_swept :
    let events : List (Event Nat) :=
      [.tameVFS (some (.child 2 7 (.root 1 5))), .destroy 0, .destroyHost 2]
    Meets (fun (state : State Nat) event => (state.step event, ())) Possible {} events ∧
      (run events).pending = [] ∧ ¬Accounted (run events) := by
  refine ⟨by decide +kernel, by decide +kernel, fun h => ?_⟩
  have hcounted := h.counted
  revert hcounted
  decide +kernel

end WinCommander.VFS
