/-
  The wrapper that makes a sequential file a random one (`VFSSeqToRandomROWrapperFile`).

  A small file is kept in memory. A larger one goes to a temporary file by `write`, each call of which
  starts at the beginning of the buffer, also behind a short one. So the temporary file is the source
  exactly if what follows a short write is what the buffer begins with (`reads_iff`).
-/
import Mathlib

namespace WinCommander.VFS.SeqToRandom

open List Option

abbrev Bytes := List UInt8

def maxCachedInMem : Nat := 16 * 1024 * 1024

def maxIO : Nat := 256 * 1024

/-- The loop for a file in memory, by what the reads answer. A read of nothing is an error. -/
def cacheLoop : Bytes → Nat → List Nat → Bytes → Option Bytes
  | _, 0, [], data => some data
  | rest, left + 1, n :: reads, data =>
    if 0 < n ∧ n ≤ min (left + 1) maxIO ∧ n ≤ rest.length then
      cacheLoop (rest.drop n) (left + 1 - n) reads (data ++ rest.take n)
    else none
  | _, _, _, _ => none

/-- The writes of a buffer, by what they answer, with the bytes that are left. -/
def writeLoop (buf : Bytes) : Nat → List Nat → Bytes → Option Bytes
  | 0, [], file => some file
  | left + 1, n :: writes, file =>
    if n ≤ left + 1 then writeLoop buf (left + 1 - n) writes (file ++ buf.take n) else none
  | _, _, _ => none

/-- The loop for a temporary file, by what the reads answer and the writes of each. It ends with a
    read of nothing. -/
def copyLoop (size : Nat) : Bytes → List (Nat × List Nat) → Bytes → Option Bytes
  | _, [], file => if file.length = size then some file else none
  | rest, (n, writes) :: more, file =>
    if 0 < n ∧ n ≤ min maxIO size ∧ n ≤ rest.length then
      (writeLoop (rest.take n) n writes file).bind (copyLoop size (rest.drop n) more)
    else none

/-- The data of the backend. Its size is that of the source. -/
def openBackend (source : Bytes) (pattern : List (Nat × List Nat)) : Option Bytes :=
  if source.length ≤ maxCachedInMem then
    cacheLoop source source.length (pattern.map Prod.fst) []
  else copyLoop source.length source pattern []

/-- `ReadAt`, where `pread` reads all that is there. -/
def readAt (data : Bytes) (size : Nat) (pos : Int) (n : Nat) : Option Bytes :=
  if pos < 0 ∨ (size : Int) < pos then none
  else some ((data.drop pos.toNat).take (min n (size - pos.toNat)))

/-- The backend reads as the source. -/
def Reads (source data : Bytes) : Prop :=
  ∀ pos ≤ source.length, ∀ n, readAt data source.length pos n =
    some ((source.drop pos).take (min n (source.length - pos)))

/-- From a place in a buffer on, each write finds there what the buffer begins with. -/
def Repeats (buf : Bytes) : Nat → List Nat → Prop
  | _, [] => True
  | place, n :: writes => buf.take n = (buf.drop place).take n ∧ Repeats buf (place + n) writes

/-- It is so for every buffer. -/
def AllRepeat : Bytes → List (Nat × List Nat) → Prop
  | _, [] => True
  | rest, (n, writes) :: more => Repeats (rest.take n) 0 writes ∧ AllRepeat (rest.drop n) more

section Copying

variable {source rest buf data file : Bytes} {pattern : List (Nat × List Nat)}

theorem reads_iff_eq (hlength : data.length = source.length) : Reads source data ↔ data = source := by
  constructor
  · intro h
    have hall := h 0 (Nat.zero_le _) source.length
    unfold readAt at hall
    rw [if_neg (by omega)] at hall
    simpa [take_of_length_le hlength.le] using hall
  · rintro rfl pos hpos n
    unfold readAt
    rw [if_neg (by omega), Int.toNat_natCast]

theorem cacheLoop_eq (hleft : left = rest.length) (h : cacheLoop rest left reads file = some data)
    : data = file ++ rest := by
  induction reads generalizing rest left file with
  | nil =>
    cases left with
    | zero => rw [length_eq_zero_iff.mp hleft.symm, append_nil]; cases h; rfl
    | succ left => cases h
  | cons n reads ih =>
    cases left with
    | zero => cases h
    | succ left =>
      obtain ⟨-, h⟩ := ite_none_right_eq_some.mp h
      rw [ih (by rw [length_drop, hleft]) h, append_assoc, take_append_drop]

/-- The writes of a buffer are as long as it, and the same where they repeat it. -/
theorem writeLoop_spec (hleft : left ≤ buf.length) (h : writeLoop buf left writes file = some data) :
    ∃ tail, data = file ++ tail ∧ tail.length = left ∧
      (tail = buf.drop (buf.length - left) ↔ Repeats buf (buf.length - left) writes) := by
  induction writes generalizing left file with
  | nil =>
    cases left with
    | zero =>
      cases h
      exact ⟨[], (append_nil _).symm, rfl, by simp [Repeats]⟩
    | succ left => cases h
  | cons n writes ih =>
    cases left with
    | zero => cases h
    | succ left =>
      obtain ⟨hn, h⟩ := ite_none_right_eq_some.mp h
      obtain ⟨tail, rfl, hlength, hsame⟩ := ih (by omega) h
      have hplace : buf.length - (left + 1 - n) = buf.length - (left + 1) + n := by omega
      have htake : (buf.take n).length = ((buf.drop (buf.length - (left + 1))).take n).length := by
        rw [length_take, length_take, length_drop]
        omega
      refine ⟨buf.take n ++ tail, append_assoc _ _ _, ?_, ?_⟩
      · rw [length_append, length_take]
        omega
      · rw [hplace] at hsame
        unfold Repeats
        rw [← hsame, ← drop_drop, ← append_eq_append_iff_of_size_eq_left htake, take_append_drop]

theorem copyLoop_spec (h : copyLoop size rest pattern file = some data)
    (hsize : size = file.length + rest.length) :
    ∃ tail, data = file ++ tail ∧ tail.length = rest.length ∧ (tail = rest ↔ AllRepeat rest pattern) := by
  induction pattern generalizing rest file with
  | nil =>
    obtain ⟨hlength, heq⟩ := ite_none_right_eq_some.mp h
    obtain rfl := some.inj heq
    have hnil : rest = [] := length_eq_zero_iff.mp (by omega)
    exact ⟨[], (append_nil _).symm, by rw [hnil], by simp [hnil, AllRepeat]⟩
  | cons read more ih =>
    obtain ⟨n, writes⟩ := read
    obtain ⟨⟨-, -, hn⟩, h⟩ := ite_none_right_eq_some.mp h
    obtain ⟨file', hwrite, h⟩ := bind_eq_some_iff.mp h
    have hbuf : (rest.take n).length = n := length_take_of_le hn
    obtain ⟨part, rfl, hpart, hsame⟩ := writeLoop_spec hbuf.ge hwrite
    obtain ⟨tail, rfl, htail, hrest⟩ := ih h (by rw [length_append, length_drop]; omega)
    rw [hbuf, Nat.sub_self, drop_zero] at hsame
    refine ⟨part ++ tail, append_assoc _ _ _, ?_, ?_⟩
    · rw [length_append, htail, length_drop]
      omega
    · unfold AllRepeat
      rw [← hsame, ← hrest, ← append_eq_append_iff_of_size_eq_left (hpart.trans hbuf.symm),
        take_append_drop]

/-- A backend that was opened reads as the source exactly if it is in memory or every write behind a
    short one finds in its place what the buffer begins with. -/
theorem reads_iff (source : Bytes) (pattern : List (Nat × List Nat)) {data : Bytes}
    (h : openBackend source pattern = some data) :
    Reads source data ↔ source.length ≤ maxCachedInMem ∨ AllRepeat source pattern := by
  unfold openBackend at h
  split at h
  · rename_i hsmall
    obtain rfl := cacheLoop_eq rfl h
    exact iff_of_true ((reads_iff_eq rfl).mpr rfl) (.inl hsmall)
  · rename_i hlarge
    obtain ⟨tail, rfl, hlength, hsame⟩ := copyLoop_spec h (Nat.zero_add _).symm
    rw [or_iff_right hlarge, ← hsame]
    exact reads_iff_eq hlength

theorem reads_iff_small : Reads [1, 2] [1, 2] ↔
    ([1, 2] : Bytes).length ≤ maxCachedInMem ∨ AllRepeat [1, 2] [(1, []), (1, [])] :=
  reads_iff [1, 2] [(1, []), (1, [])] rfl

/-- Bytes that are read and written one by one. -/
theorem copyLoop_single {size : Nat} (hsize : size = file.length + rest.length) (hpos : 0 < size) :
    copyLoop size rest (replicate rest.length (1, [1])) file = some (file ++ rest) := by
  induction rest generalizing file with
  | nil => simp [copyLoop, hsize]
  | cons byte rest ih =>
    have hone : 0 < 1 ∧ 1 ≤ min maxIO size ∧ 1 ≤ (byte :: rest).length :=
      ⟨one_pos, le_min (by decide) hpos, by simp⟩
    rw [length_cons, replicate_succ, copyLoop, if_pos hone, take_succ_cons, take_zero]
    show copyLoop size rest (replicate rest.length (1, [1])) (file ++ [byte]) = _
    rw [ih (by rw [hsize, length_append, length_singleton, length_cons]; omega),
      append_assoc, singleton_append]

end Copying

/-- The first buffer of two bytes is written in two parts. -/
theorem not_reads_short : ¬∀ source pattern data, openBackend source pattern = some data →
    Reads source data := by
  intro h
  obtain ⟨count, hlarge⟩ : ∃ count, ¬count + 2 ≤ maxCachedInMem := ⟨maxCachedInMem, by omega⟩
  have hopen : openBackend (0 :: 1 :: replicate count 2)
      ((2, [1, 1]) :: replicate count (1, [1])) = some ([0, 0] ++ replicate count 2) := by
    have hsize : (0 :: 1 :: replicate count (2 : UInt8)).length = count + 2 := by
      rw [length_cons, length_cons, length_replicate]
    have hfits : 0 < 2 ∧ 2 ≤ min maxIO (count + 2) ∧ 2 ≤ count + 2 :=
      ⟨two_pos, le_min (by decide) (by omega), by omega⟩
    have hrest := @copyLoop_single (replicate count 2) [0, 0] (count + 2)
      (by rw [length_replicate]; exact Nat.add_comm _ _) (by omega)
    rw [length_replicate] at hrest
    rw [openBackend, hsize, if_neg hlarge, copyLoop, hsize, if_pos hfits]
    exact hrest
  have hread := h _ _ _ hopen 0 (Nat.zero_le _) 2
  unfold readAt at hread
  rw [if_neg (by omega)] at hread
  have hbytes := congrArg (fun bytes => bytes[1]?) (some.inj hread)
  simp at hbytes

end WinCommander.VFS.SeqToRandom
