/-
  Transfers of whole files: `ReadFile`, `WriteFile`, `Skip` and the loop of `VerifyCopiedFile`.

  Each is a loop over calls of the file that goes on while bytes are left. All but that of `Skip` go
  on when a call moves nothing, so they end exactly if the calls come to enough bytes or one fails.
-/
import Mathlib

namespace WinCommander.VFS

open List

abbrev FileBytes := List UInt8

inductive Outcome where
  | failed
  | done (bytes : FileBytes)

/-- A file of any implementation: what its calls of `Read` and `Write` answer one after another, cut
    to the size they were asked for, or `none` for an error. -/
structure VFSFile where
  isOpened : Bool := true
  canSeek : Bool := true
  pos : Option Nat := some 0
  seek : Bool := true
  size : Option Nat
  read : Nat → Option FileBytes := fun _ => none
  write : Nat → Option Nat := fun _ => none

/-- The loops: the call with a number moves some of the bytes that it is asked for, behind those that
    were moved. Not one of them looks at the calls before. -/
def transferLoop (call : Nat → FileBytes → Nat → Option FileBytes) (limit : Nat) (zeroFails : Bool) :
    Nat → Nat → Nat → FileBytes → Option Outcome
  | _, _, 0, moved => some (.done moved)
  | 0, _, _ + 1, _ => none
  | fuel + 1, i, left + 1, moved =>
    match call i moved (min (left + 1) limit) with
    | none => some .failed
    | some bytes =>
      if zeroFails = true ∧ bytes = [] then some .failed
      else transferLoop call limit zeroFails fuel (i + 1) (left + 1 - bytes.length) (moved ++ bytes)

namespace VFSFile

variable (f : VFSFile)

def readCall (i : Nat) (_ : FileBytes) (size : Nat) : Option FileBytes :=
  (f.read i).map (List.take size)

def writeCall (data : FileBytes) (i : Nat) (moved : FileBytes) (size : Nat) : Option FileBytes :=
  (f.write i).map fun n => (data.drop moved.length).take (min n size)

/-- The checks of `ReadFile`; a position that is an error is not zero. -/
def sizeToRead : Option Nat :=
  if f.isOpened = false then none
  else if f.canSeek = false ∧ f.pos ≠ some 0 then none
  else if f.pos ≠ some 0 ∧ f.seek = false then none
  else f.size

def readFile (fuel : Nat) : Option Outcome :=
  match f.sizeToRead with
  | none => some .failed
  | some size => transferLoop f.readCall size false fuel 0 size []

def writeFile (data : FileBytes) (fuel : Nat) : Option Outcome :=
  if f.isOpened = false then some .failed
  else transferLoop (f.writeCall data) data.length false fuel 0 data.length []

def skip (size fuel : Nat) : Option Outcome := transferLoop f.readCall 32768 true fuel 0 size []

/-- The loop is left when the job is stopped, too. A size that is an error is zero. -/
def verifyCopiedFile (bufferSize : Nat) (stopped : Nat → Bool) (fuel : Nat) : Option Outcome :=
  if f.isOpened = false then some .failed
  else
    transferLoop (fun i moved size => if stopped i then none else f.readCall i moved size) bufferSize
      false fuel 0 (f.size.getD 0) []

end VFSFile

/-- The loop is left after finitely many calls. -/
def Ends (run : Nat → Option Outcome) : Prop := ∃ fuel outcome, run fuel = some outcome

/-- One of the calls fails, or they come to so many bytes, of which each moves as many as the limit
    allows at most. -/
def SuppliesIn (n : Nat) (amount : Nat → Option Nat) (limit size : Nat) : Prop :=
  amount n = none ∨ size ≤ ((List.range n).map fun i => min ((amount i).getD 0) limit).sum

def Supplies (amount : Nat → Option Nat) (limit size : Nat) : Prop :=
  ∃ n, SuppliesIn n amount limit size

/-! ## The loops -/

section Loops

variable {call : Nat → FileBytes → Nat → Option FileBytes} {limit left i : Nat} {moved : FileBytes}
  {amount : Nat → Option Nat} {zeroFails : Bool}

/-- The bytes of a call are as many as it answers. -/
def Moves (call : Nat → FileBytes → Nat → Option FileBytes) (amount : Nat → Option Nat)
    (size : Nat) : Prop :=
  ∀ i moved n, moved.length + n ≤ size →
    (call i moved n).map List.length = (amount i).map fun k => min k n

theorem suppliesIn_succ (h : amount i = some k) :
    SuppliesIn (n + 1) (fun j => amount (i + j)) limit (left + 1) ↔
      SuppliesIn n (fun j => amount (i + 1 + j)) limit
        (left + 1 - min k (min (left + 1) limit)) := by
  have hshift : ∀ j, amount (i + 1 + j) = amount (i + (j + 1)) :=
    fun j => congrArg amount (by omega)
  have hsum : ((range (n + 1)).map fun j => min ((amount (i + j)).getD 0) limit).sum =
      min k limit + ((range n).map fun j => min ((amount (i + 1 + j)).getD 0) limit).sum := by
    rw [range_succ_eq_map, map_cons, sum_cons, map_map, Nat.add_zero, h]
    simp only [hshift]
    rfl
  unfold SuppliesIn
  rw [hsum]
  dsimp only
  rw [hshift n]
  exact or_congr_right (by omega)

/-- A loop that goes on when nothing is moved ends exactly if its calls supply what is left. -/
theorem ends_iff {size : Nat} (hmoves : Moves call amount size) (hleft : moved.length + left = size) :
    (∃ fuel outcome, transferLoop call limit false fuel i left moved = some outcome) ↔
      Supplies (fun j => amount (i + j)) limit left := by
  have hcall {left : Nat} {moved : FileBytes} (hleft : moved.length + (left + 1) = size) (i : Nat) :
      (call i moved (min (left + 1) limit)).map List.length =
        (amount i).map fun k => min k (min (left + 1) limit) :=
    hmoves i moved _ (by omega)
  constructor
  · rintro ⟨fuel, outcome, h⟩
    induction fuel generalizing i left moved with
    | zero =>
      cases left with
      | zero => exact ⟨0, .inr (Nat.zero_le _)⟩
      | succ left => cases h
    | succ fuel ih =>
      cases left with
      | zero => exact ⟨0, .inr (Nat.zero_le _)⟩
      | succ left =>
        cases hamount : amount i with
        | none => exact ⟨0, .inl hamount⟩
        | some k =>
          obtain ⟨bytes, hbytes, hlength⟩ :=
            Option.map_eq_some_iff.mp ((hcall hleft i).trans (congrArg (Option.map _) hamount))
          dsimp only at hlength
          unfold transferLoop at h
          rw [hbytes] at h
          have hrest : (moved ++ bytes).length + (left + 1 - bytes.length) = size := by
            rw [length_append]
            omega
          obtain ⟨n, hn⟩ := ih (i := i + 1) hrest h
          rw [hlength] at hn
          exact ⟨n + 1, (suppliesIn_succ hamount).mpr hn⟩
  · rintro ⟨n, hn⟩
    induction n generalizing i left moved with
    | zero =>
      cases left with
      | zero => exact ⟨0, _, rfl⟩
      | succ left =>
        have hnone := Option.map_eq_none_iff.mp ((hcall hleft i).trans
          (congrArg _ (hn.resolve_right (Nat.not_succ_le_zero left))))
        exact ⟨1, .failed, by rw [transferLoop, hnone]⟩
    | succ n ih =>
      cases left with
      | zero => exact ⟨0, _, rfl⟩
      | succ left =>
        cases hamount : amount i with
        | none =>
          have hnone := Option.map_eq_none_iff.mp ((hcall hleft i).trans (congrArg _ hamount))
          exact ⟨1, .failed, by rw [transferLoop, hnone]⟩
        | some k =>
          obtain ⟨bytes, hbytes, hlength⟩ :=
            Option.map_eq_some_iff.mp ((hcall hleft i).trans (congrArg (Option.map _) hamount))
          dsimp only at hlength
          rw [suppliesIn_succ hamount, ← hlength] at hn
          have hrest : (moved ++ bytes).length + (left + 1 - bytes.length) = size := by
            rw [length_append]
            omega
          obtain ⟨fuel, outcome, h⟩ := ih (i := i + 1) hrest hn
          refine ⟨fuel + 1, outcome, ?_⟩
          unfold transferLoop
          rw [hbytes]
          exact h

/-- The loop of `Skip` takes a byte at least with each call. -/
theorem ends_of_zeroFails (hfuel : left ≤ fuel) :
    ∃ outcome, transferLoop call limit true fuel i left moved = some outcome := by
  induction fuel generalizing i left moved with
  | zero =>
    obtain rfl := Nat.le_zero.mp hfuel
    exact ⟨_, rfl⟩
  | succ fuel ih =>
    cases left with
    | zero => exact ⟨_, rfl⟩
    | succ left =>
      unfold transferLoop
      cases call i moved (min (left + 1) limit) with
      | none => exact ⟨_, rfl⟩
      | some bytes =>
        dsimp only
        by_cases hnothing : bytes = []
        · exact ⟨_, if_pos ⟨rfl, hnothing⟩⟩
        · have hpos := length_pos_iff.mpr hnothing
          rw [if_neg fun hboth => hnothing hboth.2]
          exact ih (by omega)

/-- What was read is what the calls delivered, from the first on. -/
theorem read_done {f : VFSFile} (hlimit : left ≤ limit)
    (h : transferLoop f.readCall limit false fuel i left moved = some (.done bytes)) :
    bytes.length = moved.length + left ∧ ∃ n, bytes =
      moved ++ ((range n).flatMap fun j => (f.read (i + j)).getD []).take left := by
  induction fuel generalizing i left moved with
  | zero =>
    cases left with
    | zero => cases h; exact ⟨rfl, 0, (append_nil _).symm⟩
    | succ left => cases h
  | succ fuel ih =>
    cases left with
    | zero => cases h; exact ⟨rfl, 0, (append_nil _).symm⟩
    | succ left =>
      unfold transferLoop VFSFile.readCall at h
      rw [Nat.min_eq_left hlimit] at h
      cases hread : f.read i with
      | none =>
        rw [hread] at h
        cases h
      | some data =>
        rw [hread] at h
        obtain ⟨hlength, n, hn⟩ := ih (by omega) h
        rw [length_append, length_take] at hlength
        refine ⟨by rw [hlength]; omega, n + 1, ?_⟩
        have hrest : left + 1 - (data.take (left + 1)).length = left + 1 - data.length := by
          rw [length_take]
          omega
        have hshift (j : Nat) : f.read (i + 1 + j) = f.read (i + (j + 1)) :=
          congrArg f.read (by omega)
        rw [hn, hrest, append_assoc, range_succ_eq_map, flatMap_cons, flatMap_map]
        simp [hread, hshift, take_append, Nat.succ_eq_add_one]

/-- What was handed over is the data. -/
theorem write_done {f : VFSFile} (hleft : moved.length + left = data.length)
    (hmoved : moved <+: data)
    (h : transferLoop (f.writeCall data) limit false fuel i left moved = some (.done bytes)) :
    bytes = data := by
  induction fuel generalizing i left moved with
  | zero =>
    cases left with
    | zero => cases h; exact hmoved.eq_of_length hleft
    | succ left => cases h
  | succ fuel ih =>
    cases left with
    | zero => cases h; exact hmoved.eq_of_length hleft
    | succ left =>
      unfold transferLoop VFSFile.writeCall at h
      cases hwrite : f.write i with
      | none =>
        rw [hwrite] at h
        cases h
      | some k =>
        rw [hwrite] at h
        refine ih ?_ ?_ h
        · rw [length_append, length_take, length_drop]
          omega
        · refine ⟨(data.drop moved.length).drop (min k (min (left + 1) limit)), ?_⟩
          rw [append_assoc, take_append_drop]
          exact (prefix_append_drop hmoved).symm

end Loops

/-! ## The transfers -/

theorem moves_read (f : VFSFile) (size : Nat) :
    Moves f.readCall (fun i => (f.read i).map List.length) size := by
  intro i moved n _
  unfold VFSFile.readCall
  rw [Option.map_map, Option.map_map]
  refine congrArg (Option.map · (f.read i)) (funext fun data => ?_)
  exact length_take.trans (Nat.min_comm _ _)

/-- `Skip` ends always; the others do exactly if their calls fail or come to all the bytes. What they
    moved then is the file's first bytes in order, or the data. -/
theorem transfers_end (f : VFSFile) : (Ends f.readFile ↔ ∀ size, f.sizeToRead = some size →
      Supplies (fun i => (f.read i).map List.length) size size) ∧
    (∀ fuel bytes, f.readFile fuel = some (.done bytes) → f.sizeToRead = some bytes.length ∧
      ∃ n, bytes = ((range n).flatMap fun i => (f.read i).getD []).take bytes.length) ∧
    (∀ data, (Ends (f.writeFile data) ↔
        f.isOpened = false ∨ Supplies f.write data.length data.length) ∧
      ∀ fuel bytes, f.writeFile data fuel = some (.done bytes) → bytes = data) ∧
    (∀ size, Ends (f.skip size)) ∧
    ∀ bufferSize stopped, Ends (f.verifyCopiedFile bufferSize stopped) ↔ f.isOpened = false ∨
      Supplies (fun i => if stopped i then none else (f.read i).map List.length) bufferSize
        (f.size.getD 0) := by
  have hzero (amount : Nat → Option Nat) : (fun j => amount (0 + j)) = amount :=
    funext fun j => congrArg amount (Nat.zero_add j)
  refine ⟨?_, ?_, fun data => ⟨?_, ?_⟩, ?_, fun bufferSize stopped => ?_⟩
  · unfold VFSFile.readFile
    cases f.sizeToRead with
    | none => exact iff_of_true ⟨0, _, rfl⟩ (by simp)
    | some size =>
      rw [← hzero fun i => (f.read i).map List.length]
      simp only [Option.some.injEq, forall_eq']
      exact ends_iff (moves_read f size) (Nat.zero_add size)
  · intro fuel bytes h
    unfold VFSFile.readFile at h
    cases hsize : f.sizeToRead with
    | none =>
      rw [hsize] at h
      cases h
    | some size =>
      rw [hsize] at h
      obtain ⟨hlength, n, hn⟩ := read_done (Nat.le_refl _) h
      rw [length_nil, Nat.zero_add] at hlength
      simp only [nil_append, Nat.zero_add] at hn
      exact ⟨congrArg some hlength.symm, n, hlength.symm ▸ hn⟩
  · unfold VFSFile.writeFile
    cases f.isOpened with
    | false => exact iff_of_true ⟨0, _, rfl⟩ (.inl rfl)
    | true =>
      rw [or_iff_right (by decide), ← hzero f.write]
      change (∃ fuel outcome, transferLoop (f.writeCall data) _ false fuel 0 data.length [] = some outcome) ↔ _
      refine @ends_iff _ _ _ 0 [] _ data.length (fun i moved n hn => ?_) (Nat.zero_add _)
      unfold VFSFile.writeCall
      rw [Option.map_map]
      refine congrArg (Option.map · (f.write i)) (funext fun k => ?_)
      rw [Function.comp_apply, length_take, length_drop]
      omega
  · intro fuel bytes h
    unfold VFSFile.writeFile at h
    split at h
    · cases h
    · exact write_done (Nat.zero_add _) nil_prefix h
  · intro size
    exact ⟨size, ends_of_zeroFails (Nat.le_refl _)⟩
  · unfold VFSFile.verifyCopiedFile
    cases f.isOpened with
    | false => exact iff_of_true ⟨0, _, rfl⟩ (.inl rfl)
    | true =>
      have hmoves : Moves (fun i moved size => if stopped i then none else f.readCall i moved size)
          (fun i => if stopped i then none else (f.read i).map List.length) (f.size.getD 0) := by
        intro i moved n hn
        dsimp only
        split
        · rfl
        · exact moves_read f _ i moved n hn
      rw [or_iff_right (by decide), ← hzero fun i => if stopped i then none else _]
      exact ends_iff hmoves (Nat.zero_add (f.size.getD 0))

/-- A file whose reads answer nothing for ever. -/
theorem readFile_stalls : ¬∀ f : VFSFile, Ends f.readFile := by
  intro h
  have hstalls (fuel i : Nat) : transferLoop (VFSFile.readCall { size := some 1, read := fun _ => some [] })
      1 false fuel i 1 [] = none := by
    induction fuel generalizing i with
    | zero => rfl
    | succ fuel ih => exact ih (i + 1)
  obtain ⟨fuel, outcome, hends⟩ := h { size := some 1, read := fun _ => some [] }
  exact Option.some_ne_none outcome (hends.symm.trans (hstalls fuel 0))

end WinCommander.VFS
