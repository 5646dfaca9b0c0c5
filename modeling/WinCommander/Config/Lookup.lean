/-
  What `Get` finds after calls of `Set`.

  A `Set` changes the nodes on its path and below it; a node elsewhere is the one it was.
-/
import WinCommander.Config.Restart

namespace WinCommander.Config

open Library List RapidJson

variable {ν : Type} {json : RapidJson ν} {value document document' : Value ν} {path : Bytes}
  {s : ConfigImpl ν}

/-- `Get`, by `FindNode`; with nothing at the path it is null. -/
def ConfigImpl.get (s : ConfigImpl ν) (path : Bytes) : Option (Value ν) :=
  nodeAt (splitPath path) s.document

/-- Neither path is the other one or leads to it. -/
abbrev Elsewhere (path other : Bytes) : Prop :=
  ¬splitPath path <+: splitPath other ∧ ¬splitPath other <+: splitPath path

theorem nodeAt_replace {parts : List Bytes} (hdocument : Unique document)
    (h : json.replaceOrInsertAt value parts document = some document') :
    nodeAt parts document' = some value ∧ ∀ other, ¬parts <+: other → ¬other <+: parts →
      nodeAt other document' = nodeAt other document := by
  induction parts generalizing document document' with
  | nil => cases document <;> simp [replaceOrInsertAt] at h
  | cons part parts ih =>
    cases document with
    | object members =>
      obtain ⟨_, _, inner, members', hparts, rfl, -, hfind, hinner⟩ :=
        replaceOrInsertAt_cases hdocument.names h
      cases hparts
      constructor
      · simp only [nodeAt, hfind, if_true, Option.bind_some]
        obtain ⟨rfl, rfl⟩ | ⟨old, hold, hset⟩ := hinner
        · rfl
        · exact (ih (everyObject_find hdocument hold) hset).1
      · intro other hafter hbefore
        cases other with
        | nil => exact absurd nil_prefix hbefore
        | cons name rest =>
          simp only [nodeAt, hfind]
          by_cases hname : name = part
          · simp only [hname, prefix_cons_inj] at hafter hbefore
            obtain ⟨rfl, -⟩ | ⟨old, hold, hset⟩ := hinner
            · exact absurd nil_prefix hafter
            · simp only [hname, if_true, hold, Option.bind_some]
              exact (ih (everyObject_find hdocument hold) hset).2 rest hafter hbefore
          · rw [if_neg hname]
    | _ => cases parts <;> simp [replaceOrInsertAt] at h

theorem unique_replace {parts : List Bytes} (hvalue : Unique value) (hdocument : Unique document)
    (h : json.replaceOrInsertAt value parts document = some document') : Unique document' := by
  have hnone : (nodeAt parts (.null : Value ν)).all (covers value) := by
    cases parts <;> simp [nodeAt, covers]
  exact (covers_replace hvalue hdocument (rfl : Unique (.null : Value ν)) rfl hnone h).2

theorem get_elsewhere {sets : List (Bytes × Value ν)} (hdocument : Unique s.document)
    (hsets : ∀ set ∈ sets, Unique set.2 ∧ Elsewhere set.1 path) :
    (setAll json s sets).get path = s.get path := by
  induction sets generalizing s with
  | nil => rfl
  | cons set rest ih =>
    obtain ⟨⟨hvalue, hafter, hbefore⟩, hrest⟩ := forall_mem_cons.mp hsets
    rw [setAll, foldl_cons, ← setAll, ConfigImpl.setInternal]
    split_ifs
    · exact ih hdocument hrest
    · cases hset : json.replaceOrInsert set.1 set.2 s.document with
      | none => exact ih hdocument hrest
      | some document' =>
        have hunique := unique_replace hvalue hdocument hset
        exact (ih hunique hrest).trans ((nodeAt_replace hdocument hset).2 _ hafter hbefore)

/-- What a `Set` has stored is what `Get` returns until a `Set` on the way there, there or below. -/
theorem get_set (json : RapidJson ν) (s : ConfigImpl ν) (hdocument : Unique s.document)
    (hvalue : Unique value) (hstored : (json.replaceOrInsert path value s.document).isSome = true)
    (later : List (Bytes × Value ν)) (hlater : ∀ set ∈ later, Unique set.2 ∧ Elsewhere set.1 path) :
    (setAll json s ((path, value) :: later)).get path = some value := by
  obtain ⟨document', hset⟩ := Option.isSome_iff_exists.mp hstored
  have hpath : path ≠ [] := by
    rintro rfl
    cases hobject : s.document <;> simp [hobject, replaceOrInsert, splitPath, replaceOrInsertAt] at hset
  rw [setAll, foldl_cons, ← setAll, ConfigImpl.setInternal, if_neg hpath, hset]
  have hunique := unique_replace hvalue hdocument hset
  exact (get_elsewhere hunique hlater).trans (nodeAt_replace hdocument hset).1

theorem get_set_number : (setAll plainJson atDefaults
      [([0x61, 0x2E, 0x62], .number 2), ([0x62], .null)]).get [0x61, 0x2E, 0x62] = some (.number 2) :=
  get_set plainJson atDefaults (by decide) rfl (by decide) _ (by decide)

end WinCommander.Config
