/-
  The pool of an archive's readers (`ClosestState`, `CommitState`, `ArchiveStateForItem`).

  Every reader is where its uid says and nothing of that entry was read unless it is consumed, through
  any calls (`Host.Sound`). So an item is found exactly if it has a header. The directories that the
  index made up have none.
-/
import WinCommander.Library.Run
import WinCommander.VFS.ArcLA.LinkedListing

namespace WinCommander.VFS.ArcLA

open Library List Option Index
open Utility.PathManip (parent)

/-! ## States -/

/-- A reader: what the host keeps of it, how many headers libarchive has read and whether data came
    after the last. The number tells readers apart. -/
structure State where
  number : Nat
  uid : UInt32 := 0
  consumed : Bool := false
  position : Nat := 0
  dataRead : Bool := false

namespace State

/-- `archive_read_next_header`, of so many headers. -/
def nextHeader (count : Nat) (s : State) : Option State :=
  if s.position < count then some { s with position := s.position + 1, dataRead := false } else none

def setEntry (s : State) (uid : UInt32) : State := { s with uid, consumed := false }

/-- `File::Read`. -/
def read (s : State) : State := { s with consumed := true, dataRead := true }

/-- The search for a header; each round reads one. -/
def searchWithin (count : Nat) (requested : UInt32) : Nat → UInt32 → State → Option State
  | 0, _, _ => none
  | fuel + 1, entryUid, s =>
    match s.nextHeader count with
    | none => none
    | some s =>
      if entryUid + 1 = requested then some (s.setEntry requested)
      else searchWithin count requested fuel (entryUid + 1) s

def search (count : Nat) (requested : UInt32) (s : State) : Option State :=
  s.searchWithin count requested (count + 1) s.uid

end State

/-! ## The pool -/

/-- The loop of `ClosestState`, with the best one so far. -/
def closestIndex (requested : UInt32) : List State → Nat → Option Nat → UInt32 → Option Nat
  | [], _, best, _ => best
  | s :: rest, i, best, bestDelta =>
    if (s.uid < requested ∨ (s.uid = requested ∧ s.consumed = false)) ∧
        requested - s.uid < bestDelta then
      if requested - s.uid ≤ 1 then some i
      else closestIndex requested rest (i + 1) (some i) (requested - s.uid)
    else closestIndex requested rest (i + 1) best bestDelta

/-- The state is taken out of the pool. -/
def closestState (requested : UInt32) (states : List State) : Option State × List State :=
  match closestIndex requested states 0 none 0xFFFFFFFF with
  | none => (none, states)
  | some i => (states[i]?, states.eraseIdx i)

def uidAt (states : List State) (i : Nat) : UInt32 := (states[i]?.map State.uid).getD 0

/-- The first with the greatest uid. -/
def latestIndex (states : List State) : Nat :=
  (List.range states.length).foldl (fun last i =>
    if uidAt states last < uidAt states i then i else last) 0

/-- States at the last item are thrown away. -/
def commitState (lastItemUID : UInt32) (states : List State) (s : State) : List State :=
  if s.uid < lastItemUID then
    if 32 < (states ++ [s]).length then (states ++ [s]).eraseIdx (latestIndex (states ++ [s]))
    else states ++ [s]
  else states

/-- The pool, the readers of files that are open in no order, and the number of the next reader. -/
structure Host where
  states : List State := []
  readers : List State := []
  next : Nat := 0

inductive Call where
  | archiveStateForItem (path : Bytes)
  | read (i : Nat)
  | close (i : Nat)

namespace Host

section Calls

/- The index, and how many headers it was read from. -/
variable (index : Index) (count : Nat)

/-- A file that is opened anew is where no header was read. -/
def archiveStateForItem (h : Host) (path : Bytes) : Host × Option State :=
  let requested := index.itemUID path
  if requested = 0 then (h, none)
  else
    let (found, states) := closestState requested h.states
    let (s, next) :=
      match found with
      | some s => (s, h.next)
      | none => ({ number := h.next }, h.next + 1)
    let answer :=
      if s.uid = requested ∧ s.consumed = false then some s else s.search count requested
    ({ states, readers := answer.toList ++ h.readers, next }, answer)

def step (h : Host) : Call → Host × Option State
  | .archiveStateForItem path => h.archiveStateForItem index count path
  | .read i =>
    match h.readers[i]? with
    | none => (h, none)
    | some s => ({ h with readers := s.read :: h.readers.eraseIdx i }, none)
  | .close i =>
    match h.readers[i]? with
    | none => (h, none)
    | some s =>
      ({ h with
          states := commitState (UInt32.ofNat count - 1) h.states s
          readers := h.readers.eraseIdx i }, none)

end Calls

end Host

/-! ## Searching -/

/-- The reader is where its uid says. -/
structure State.Sound (count : Nat) (s : State) : Prop where
  place : s.uid.toNat = s.position
  inside : s.position ≤ count
  fresh : s.consumed = false → s.dataRead = false

section Searching

variable {count : Nat} {requested entryUid : UInt32} {s : State} {states : List State}

theorem searchWithin_eq (hcount : count < maxHeaders) (fuel : Nat)
    (hplace : entryUid.toNat = s.position) (hinside : s.position ≤ count)
    (hbefore : s.position < requested.toNat) (hfuel : count < s.position + fuel) :
    s.searchWithin count requested fuel entryUid = if requested.toNat ≤ count then
        some { number := s.number, uid := requested, position := requested.toNat }
      else none := by
  unfold maxHeaders at hcount
  induction fuel generalizing s entryUid with
  | zero => omega
  | succ fuel ih =>
    unfold State.searchWithin State.nextHeader
    by_cases hlt : s.position < count
    · have hnext : (entryUid + 1).toNat = s.position + 1 := by
        rw [UInt32.toNat_add, hplace, show (1 : UInt32).toNat = 1 from rfl]
        exact Nat.mod_eq_of_lt (by omega)
      rw [if_pos hlt]
      dsimp only
      by_cases hfound : entryUid + 1 = requested
      · rw [if_pos hfound, if_pos (by rw [← hfound]; omega), ← hfound, hnext]
        rfl
      · have hne : s.position + 1 ≠ requested.toNat := by
          rw [← hnext]
          exact mt UInt32.toNat_inj.mp hfound
        rw [if_neg hfound]
        exact ih hnext hlt (by dsimp only; omega) (by dsimp only; omega)
    · rw [if_neg hlt, if_neg (by omega)]

theorem closestIndex_cases (h : closestIndex requested rest i best bestDelta = some j) :
    best = some j ∨ ∃ k s, j = i + k ∧ rest[k]? = some s ∧
      (s.uid < requested ∨ (s.uid = requested ∧ s.consumed = false)) := by
  induction rest generalizing i best bestDelta with
  | nil => exact .inl h
  | cons s rest ih =>
    have hlater {best : Option Nat} {bestDelta : UInt32}
        (h : closestIndex requested rest (i + 1) best bestDelta = some j) : best = some j ∨
          ∃ k s', j = i + k ∧ (s :: rest)[k]? = some s' ∧
            (s'.uid < requested ∨ (s'.uid = requested ∧ s'.consumed = false)) := by
      obtain hbest | ⟨k, s', hk, hrest⟩ := ih h
      · exact .inl hbest
      · exact .inr ⟨k + 1, s', by omega, hrest⟩
    unfold closestIndex at h
    split at h
    · rename_i hgood
      have hthis : some i = some j → ∃ k s', j = i + k ∧ (s :: rest)[k]? = some s' ∧
          (s'.uid < requested ∨ (s'.uid = requested ∧ s'.consumed = false)) :=
        fun heq => ⟨0, s, (some.inj heq).symm, rfl, hgood.1⟩
      split at h
      · exact .inr (hthis h)
      · exact .inr ((hlater h).elim hthis id)
    · exact hlater h

theorem closestState_cases (requested : UInt32) (states : List State) :
    closestState requested states = (none, states) ∨
      ∃ s rest, closestState requested states = (some s, rest) ∧ (s :: rest).Perm states ∧
        (s.uid < requested ∨ (s.uid = requested ∧ s.consumed = false)) := by
  unfold closestState
  cases hindex : closestIndex requested states 0 none 0xFFFFFFFF with
  | none => exact .inl rfl
  | some i =>
    obtain hnone | ⟨k, s, hk, hs, hgood⟩ := closestIndex_cases hindex
    · cases hnone
    · obtain rfl : i = k := by omega
      obtain ⟨hlt, rfl⟩ := List.getElem?_eq_some_iff.mp hs
      dsimp only
      exact .inr ⟨_, _, by rw [hs], getElem_cons_eraseIdx_perm hlt, hgood⟩

theorem latestIndex_lt (h : states ≠ []) : latestIndex states < states.length := by
  refine foldlRecOn (motive := (· < states.length)) _ _ (length_pos_iff.mpr h) ?_
  intro last hlast i hi
  split
  · exact mem_range.mp hi
  · exact hlast

theorem commitState_spec (lastItemUID : UInt32) (states : List State) (s : State)
    (hbound : states.length ≤ 32) : (commitState lastItemUID states s).length ≤ 32 ∧
      (commitState lastItemUID states s).Sublist (states ++ [s]) := by
  unfold commitState
  split
  · split
    · have hlt := latestIndex_lt (concat_ne_nil s states)
      refine ⟨?_, eraseIdx_sublist _ _⟩
      rw [length_eraseIdx_of_lt hlt, length_append, length_singleton]
      omega
    · exact ⟨by omega, Sublist.refl _⟩
  · exact ⟨hbound, sublist_append_left states [s]⟩

end Searching

/-! ## The invariant -/

/-- Every reader is in one place, as its uid says. -/
structure Host.Sound (count : Nat) (h : Host) : Prop where
  sound : ∀ s ∈ h.states ++ h.readers, s.Sound count
  numbers : ((h.states ++ h.readers).map State.number).Subperm (List.range h.next)
  bound : h.states.length ≤ 32

/-- A state for a uid that a header has. -/
def stateAt (count : Nat) (requested : UInt32) (number : Nat) : Option State :=
  if requested.toNat ≤ count then some { number, uid := requested, position := requested.toNat }
  else none

section Invariant

variable {index : Index} {count : Nat} {host : Host} {requested : UInt32} {number : Nat} {s : State}

theorem stateAt_sound (h : stateAt count requested number = some s) : s.Sound count ∧
    s.number = number ∧ s.uid = requested ∧ s.position = s.uid.toNat ∧ s.dataRead = false ∧
      s.consumed = false := by
  obtain ⟨hinside, heq⟩ := ite_none_right_eq_some.mp h
  obtain rfl := some.inj heq
  exact ⟨⟨rfl, hinside, fun _ => rfl⟩, rfl, rfl, rfl, rfl, rfl⟩

theorem answer_eq (hs : s.Sound count) (hcount : count < maxHeaders)
    (hgood : s.uid < requested ∨ (s.uid = requested ∧ s.consumed = false)) :
    (if s.uid = requested ∧ s.consumed = false then some s else s.search count requested) =
      stateAt count requested s.number := by
  unfold stateAt
  by_cases hsame : s.uid = requested ∧ s.consumed = false
  · obtain ⟨number, uid, consumed, position, dataRead⟩ := s
    have hfresh := hs.fresh hsame.2
    have hplace := hs.place
    have hinside := hs.inside
    dsimp only at hsame hfresh hplace hinside
    obtain ⟨rfl, rfl⟩ := hsame
    rw [if_pos ⟨rfl, rfl⟩, hplace, if_pos hinside, hfresh]
  · have hlt := UInt32.lt_iff_toNat_lt.mp (hgood.resolve_right hsame)
    rw [if_neg hsame]
    exact searchWithin_eq hcount _ hs.place hs.inside (hs.place ▸ hlt) (by omega)

/-- The readers after a call of `ArchiveStateForItem`, but for the one that it answers. -/
theorem archiveStateForItem_cases (h : host.Sound count) (hcount : count < maxHeaders)
    (path : Bytes) :
    (index.itemUID path = 0 ∧ host.archiveStateForItem index count path = (host, none)) ∨
      ∃ (s : State) (states : List State) (next : Nat), states.length ≤ 32 ∧ (∀ other ∈ states ++ host.readers, other.Sound count) ∧
        (s.number :: (states ++ host.readers).map State.number).Subperm (range next) ∧
        host.archiveStateForItem index count path = ({
            states, next, readers := (stateAt count (index.itemUID path) s.number).toList ++ host.readers },
            stateAt count (index.itemUID path) s.number) := by
  unfold Host.archiveStateForItem
  by_cases hzero : index.itemUID path = 0
  · exact .inl ⟨hzero, if_pos hzero⟩
  · refine .inr ?_
    rw [if_neg hzero]
    obtain hnone | ⟨s, rest, hs, hperm, hgood⟩ := closestState_cases (index.itemUID path) host.states
    · rw [hnone]
      have hlt : (0 : UInt32) < index.itemUID path := UInt32.pos_iff_ne_zero.mpr hzero
      refine ⟨{ number := host.next }, host.states, host.next + 1, h.bound, h.sound, ?_, ?_⟩
      · rw [range_succ]
        exact ((subperm_cons _).mpr h.numbers).trans (perm_append_singleton _ _).symm.subperm
      · rw [← @answer_eq _ _ { number := host.next } ⟨rfl, Nat.zero_le _, fun _ => rfl⟩ hcount (.inl hlt)]
    · rw [hs]
      have hall := hperm.append_right host.readers
      have hsound : ∀ other ∈ s :: (rest ++ host.readers), other.Sound count :=
        fun other hother => h.sound other (hall.subset hother)
      have hlength := hperm.length_eq
      have hbound := h.bound
      rw [length_cons] at hlength
      refine ⟨s, rest, host.next, by omega,
        fun other hother => hsound other (mem_cons_of_mem _ hother),
        (hall.map State.number).subperm.trans h.numbers, ?_⟩
      rw [← answer_eq (hsound s mem_cons_self) hcount hgood]

theorem Host.Sound.step (h : host.Sound count) (hcount : count < maxHeaders) (call : Call) :
    (host.step index count call).1.Sound count := by
  cases call with
  | archiveStateForItem path =>
    unfold Host.step
    dsimp only
    rcases archiveStateForItem_cases h hcount path with ⟨-, hsame⟩ |
      ⟨s, states, next, hbound, hsound, hnumbers, heq⟩
    · rw [hsame]
      exact h
    · rw [heq]
      cases hanswer : stateAt count (index.itemUID path) s.number with
      | none => exact ⟨hsound, (sublist_cons_self _ _).subperm.trans hnumbers, hbound⟩
      | some s' =>
        obtain ⟨hsound', hnumber, -⟩ := stateAt_sound hanswer
        have hmiddle : (states ++ s' :: host.readers).Perm (s' :: (states ++ host.readers)) :=
          perm_middle
        refine ⟨fun other hother => ?_, (hmiddle.map State.number).subperm.trans ?_, hbound⟩
        · obtain rfl | hother := mem_cons.mp (hmiddle.subset hother)
          · exact hsound'
          · exact hsound other hother
        · rwa [map_cons, hnumber]
  | read i =>
    unfold Host.step
    dsimp only
    cases hs : host.readers[i]? with
    | none => exact h
    | some s =>
      obtain ⟨hlt, rfl⟩ := List.getElem?_eq_some_iff.mp hs
      have hall := (getElem_cons_eraseIdx_perm hlt).append_left host.states
      refine ⟨fun other hother => ?_, ?_, h.bound⟩
      · obtain rfl | hother := mem_cons.mp (perm_middle.subset hother)
        · have hsound := h.sound _ (mem_append_right _ (getElem_mem hlt))
          exact ⟨hsound.place, hsound.inside, fun hfalse => Bool.noConfusion hfalse⟩
        · exact h.sound other (hall.subset (perm_middle.symm.subset (mem_cons_of_mem _ hother)))
      · have hnumbers := (hall.map State.number).subperm.trans h.numbers
        rw [map_append, map_cons] at hnumbers ⊢
        exact hnumbers
  | close i =>
    unfold Host.step
    dsimp only
    cases hs : host.readers[i]? with
    | none => exact h
    | some s =>
      obtain ⟨hlt, rfl⟩ := List.getElem?_eq_some_iff.mp hs
      obtain ⟨hbound, hsub⟩ :=
        commitState_spec (UInt32.ofNat count - 1) host.states host.readers[i] h.bound
      have hkept := hsub.append_right (host.readers.eraseIdx i)
      rw [append_assoc, singleton_append] at hkept
      have hall := (getElem_cons_eraseIdx_perm hlt).append_left host.states
      exact ⟨fun other hother => h.sound other (hall.subset (hkept.subset hother)),
        ((hkept.map State.number).subperm.trans (hall.map State.number).subperm).trans h.numbers, hbound⟩

/-! ## Runs -/

/-- The uids of a listing are those of headers and the one of what was made up. -/
theorem uid_of_found (hcount : headers.length < maxHeaders)
    (h : (readArchiveListing src headers).findEntry path = some e) :
    e.aruid = syntheticArUID ∨ (0 < e.aruid.toNat ∧ e.aruid.toNat ≤ headers.length) := by
  obtain ⟨key, hkey⟩ : ∃ key, e ∈ entriesOf (readArchiveListing src headers).pathToDir key := by
    unfold findEntry at h
    generalize path.length + 1 = fuel at h
    induction fuel generalizing path with
    | zero => cases h
    | succ fuel ih =>
      unfold findEntryWithin at h
      split_ifs at h
      · exact ih h
      · obtain ⟨dir, hdir, hfind⟩ := bind_eq_some_iff.mp h
        refine ⟨parent path, ?_⟩
        rw [entriesOf_of_lookup hdir]
        exact List.mem_of_find?_eq_some hfind
  obtain ⟨hmade, -⟩ | ⟨k, hk, huid, -⟩ := named_listing src hcount key e hkey
  · exact .inl hmade
  · rw [huid]
    exact .inr (uid_of_kept hcount hk)

/-- After any calls, what is answered is at the item's header with nothing read, and every item but
    the directories that were made up is found. -/
theorem states_of_run (src : Stat) {headers : List Header} (hcount : headers.length < maxHeaders)
    (calls : List Call) :
    let index := readArchiveListing src headers
    let host := (runAll (Host.step index headers.length) {} calls).1
    host.states.length ≤ 32 ∧ ((host.states ++ host.readers).map State.number).Nodup ∧ ∀ path,
      (∀ s, (host.archiveStateForItem index headers.length path).2 = some s →
        s.uid = index.itemUID path ∧ s.position = s.uid.toNat ∧ s.dataRead = false ∧
          s.consumed = false) ∧ ∀ e, index.findEntry path = some e →
        ((host.archiveStateForItem index headers.length path).2.isSome ↔
          e.aruid ≠ syntheticArUID) := by
  intro index host
  have hsound : host.Sound headers.length :=
    runAll_invariant _ (fun _ call h => h.step hcount call) calls
      ⟨by simp, nil_subperm, Nat.zero_le _⟩
  refine ⟨hsound.bound, Multiset.coe_nodup.mp (Multiset.nodup_of_le (Multiset.coe_le.mpr hsound.numbers)
    (Multiset.coe_nodup.mpr nodup_range)), ?_⟩
  intro path
  rcases @archiveStateForItem_cases index _ _ hsound hcount path with ⟨hzero, heq⟩ |
    ⟨s, states, next, -, -, -, heq⟩
  · rw [heq]
    refine ⟨by simp, fun e he => ?_⟩
    unfold itemUID at hzero
    rw [he] at hzero
    obtain hmade | ⟨hpos, -⟩ := uid_of_found hcount he
    · simp [hmade]
    · exact absurd (congrArg UInt32.toNat hzero) (Nat.ne_of_gt hpos)
  · rw [heq]
    refine ⟨fun s hs => (stateAt_sound hs).2.2, fun e he => ?_⟩
    have huid : index.itemUID path = e.aruid := by
      unfold itemUID
      rw [he]
    dsimp only
    rw [huid, stateAt, isSome_ite]
    unfold maxHeaders at hcount
    obtain hmade | ⟨-, hle⟩ := uid_of_found hcount he
    · rw [hmade]
      have hlast : syntheticArUID.toNat = 2 ^ 32 - 1 := rfl
      exact iff_of_false (by omega) (fun hne => hne rfl)
    · refine iff_of_true hle ?_
      rintro hmade
      rw [hmade] at hle
      have hlast : syntheticArUID.toNat = 2 ^ 32 - 1 := rfl
      omega

/-- The file of an archive with one header. -/
theorem states_of_run_file : ∃ e,
    (readArchiveListing { type := .regular } [fileHeader (ascii "a/b")]).findEntry (ascii "/a/b") =
      some e ∧ ((({} : Host).archiveStateForItem
        (readArchiveListing { type := .regular } [fileHeader (ascii "a/b")]) 1 (ascii "/a/b")).2.isSome =
      true ↔ e.aruid ≠ syntheticArUID) := by
  have hfound : ((readArchiveListing { type := .regular } [fileHeader (ascii "a/b")]).findEntry
      (ascii "/a/b")).isSome := by decide
  obtain ⟨e, he⟩ := isSome_iff_exists.mp hfound
  exact ⟨e, he, ((@states_of_run { type := .regular } [fileHeader (ascii "a/b")] (by decide) []).2.2
    (ascii "/a/b")).2 e he⟩

/-- The directory of that file was made up. -/
theorem madeUp_not_found :
    let index := readArchiveListing { type := .regular } [fileHeader (ascii "a/b")]
    (index.findEntry (ascii "/a")).isSome ∧
      (({} : Host).archiveStateForItem index 1 (ascii "/a")).2.isSome = false := by
  decide +kernel

end Invariant

end WinCommander.VFS.ArcLA
