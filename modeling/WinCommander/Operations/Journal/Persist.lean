/-
  `OperationJournalPersist` and `OperationJournalRead`, over a disk that any system call
  can fail and a process that can stop at each of them.

  The disk is the journal file; the temporary file that `persist` writes is a value of its
  run, since nothing ever reads one again. A reply is what one injected call does. A rename
  that reports failure, or throws, may have changed the name all the same (`Reply.applied`).

  Proved: `persist_spec`. On success the file is the complete candidate; on a failure
  before the rename it is untouched; on a failure from the rename on, and wherever the
  process stops, it is the previous file or the complete candidate.
-/
import WinCommander.Operations.Journal.RoundTrip
import WinCommander.Library.Syscall

namespace WinCommander.Operations.Journal

open Library Library.Prog List Triple

/-! ## The environment -/

/-- The fields of `struct stat` that the journal reads; `owned` is `st_uid == geteuid()`. -/
structure Stat where
  directory : Bool
  regular : Bool
  links : Nat
  owned : Bool
  mode : Nat
deriving DecidableEq

/-- What one injected call does: its result, `errno`, whether it throws, and for a rename
    whether the name changed although the call did not report success. -/
structure Reply where
  result : Int
  errno : Int
  throws : Bool
  applied : Bool
  stat : Stat
deriving DecidableEq

def eperm : Int := 1
def enoent : Int := 2
def eintr : Int := 4
def eio : Int := 5
def eexist : Int := 17

/-- `operation-journal-v1.json`, when it exists. -/
abbrev Disk := Option Bytes

/-- An operation of the journal: it asks for replies and shares the disk. -/
abbrev Io (α : Type) := Prog Reply Disk α

/-! ## Persist -/

/-- The loop that creates the temporary file, `attempts` more times. -/
def openTemporary : Nat → Io (Except OperationJournalError Unit)
  | 0 => return .error (systemFailure .temporaryCreateFailed eexist)
  | attempts + 1 => do
      let random ← ask
      if random.throws then return .error (systemFailure .temporaryCreateFailed eio)
      else
        let opened ← ask
        if 0 ≤ opened.result then return .ok ()
        else if opened.errno ≠ eexist then
          return .error (systemFailure .temporaryCreateFailed opened.errno)
        else openTemporary attempts

/-- One pass of the write loop: it ends, or the temporary file has grown. -/
def writeStep (text : Bytes) (reply : Reply) (written : Bytes) :
    Bytes ⊕ Except OperationJournalError Bytes :=
  if reply.result < 0 then
    if reply.errno = eintr then .inl written
    else .inr (.error (systemFailure .writeFailed reply.errno))
  else if reply.result = 0 then .inr (.error (systemFailure .writeFailed eio))
  else
    let written := written ++ (text.drop written.length).take reply.result.toNat
    if written.length < text.length then .inl written else .inr (.ok written)

/-- Writes `text`; the value is what the temporary file then holds. -/
def writeAll (text : Bytes) : Io (Except OperationJournalError Bytes) :=
  if 0 < text.length then loop (writeStep text) [] else return .ok []

def syncFile : Io (Except OperationJournalError Unit) :=
  loop (fun reply _ =>
    if reply.result = 0 then .inr (.ok ())
    else if reply.errno = eintr then .inl ()
    else .inr (.error (systemFailure .fileSyncFailed reply.errno))) ()

def closeFile (code : OperationJournalErrorCode) : Io (Except OperationJournalError Unit) := do
  let reply ← ask
  if reply.result ≠ 0 then return .error (systemFailure code reply.errno)
  else return .ok ()

/-- `rename_at`: the temporary file replaces the journal in one step, or does not. -/
def renameTemporary (temporary : Bytes) : Io (Except OperationJournalError Unit) := do
  let reply ← ask
  let succeeded := !reply.throws && reply.result == 0
  modify fun disk => if succeeded || reply.applied then some temporary else disk
  if reply.throws then return .error (systemFailure .durabilityUncertain eio)
  else if reply.result ≠ 0 then return .error (systemFailure .durabilityUncertain reply.errno)
  else return .ok ()

def syncParent : Io (Except OperationJournalError Unit) :=
  loop (fun reply _ =>
    if reply.throws then .inr (.error (systemFailure .durabilityUncertain eio))
    else if reply.result = 0 then .inr (.ok ())
    else if reply.errno = eintr then .inl ()
    else .inr (.error (systemFailure .durabilityUncertain reply.errno))) ()

/-- `OperationJournalPersist`, with `_rename_committed`. -/
def persist (readers : Readers) (entries : List OperationJournalEntry) (nextSequence : UInt64) :
    Io (Except OperationJournalError Unit × Bool) :=
  match encode readers entries nextSequence with
  | .error e => return (.error e, false)
  | .ok text =>
    let before := fun e => (.error e, false)
    let after := fun e => (.error e, true)
    attempt (openTemporary 8) before fun _ =>
    attempt (writeAll text) before fun temporary =>
    attempt syncFile before fun _ =>
    attempt (closeFile .closeFailed) before fun _ =>
    attempt (renameTemporary temporary) after fun _ =>
    attempt syncParent after fun _ =>
    return (.ok (), true)

/-! ## Read -/

/-- `O_RDONLY` on the journal file. `ENOENT` is the answer exactly when there is none. -/
def openForRead : Io (Except OperationJournalError (Option Bytes)) := do
  let reply ← ask
  let disk ← get
  if reply.result < 0 ∧ reply.errno ≠ enoent then
    return .error (systemFailure .journalOpenFailed reply.errno)
  else return .ok disk

/-- The checks on the opened file; its size is the one of `contents`. -/
def checkForRead (contents : Bytes) : Io (Except OperationJournalError Unit) := do
  let reply ← ask
  if reply.result ≠ 0 then return .error (systemFailure .journalReadFailed reply.errno)
  else if !reply.stat.regular || reply.stat.links != 1 || !reply.stat.owned ||
      reply.stat.mode &&& 0o77 != 0 then
    return .error (systemFailure .journalReadFailed eperm)
  else if contents.length > maxJournalBytes then return .error (failure .journalTooLarge)
  else return .ok ()

/-- One pass of the read loop. A call that does not fail takes at least one of the bytes
    that remain and at most a buffer; it takes none at the end. -/
def readStep (contents : Bytes) (reply : Reply) (read : Bytes) :
    Bytes ⊕ Except OperationJournalError Bytes :=
  if reply.result < 0 then
    if reply.errno = eintr then .inl read
    else .inr (.error (systemFailure .journalReadFailed reply.errno))
  else
    let count := min (max 1 (min reply.result.toNat (16 * 1024))) (contents.length - read.length)
    if count = 0 then .inr (.ok read)
    else if count > maxJournalBytes - read.length then .inr (.error (failure .journalTooLarge))
    else .inl (read ++ (contents.drop read.length).take count)

/-- `OperationJournalRead`. -/
def readJournal : Io (Except OperationJournalError (Option Bytes)) :=
  attempt openForRead Except.error fun
    | none => return .ok none
    | some contents =>
      attempt (checkForRead contents) Except.error fun _ =>
      attempt (loop (readStep contents) []) Except.error fun read =>
      attempt (closeFile .journalReadFailed) Except.error fun _ =>
      return .ok (some read)

/-! ## What persist does to the file -/

variable {readers : Readers} {entries : List OperationJournalEntry} {nextSequence : UInt64}

/-- The complete candidate snapshot. -/
def IsSnapshot (readers : Readers) (entries : List OperationJournalEntry) (nextSequence : UInt64)
    (disk : Disk) : Prop :=
  ∃ text, encode readers entries nextSequence = .ok text ∧ disk = some text

/-- The three ways `persist` returns. -/
def Persisted (readers : Readers) (entries : List OperationJournalEntry) (nextSequence : UInt64)
    (previous : Disk) (outcome : Except OperationJournalError Unit × Bool) (disk : Disk) : Prop :=
  match outcome with
  | (.ok _, committed) => committed = true ∧ IsSnapshot readers entries nextSequence disk
  | (.error _, false) => disk = previous
  | (.error _, true) => disk = previous ∨ IsSnapshot readers entries nextSequence disk

variable (P : Disk → Prop) {reply : Reply}

theorem openTemporary_spec (attempts : Nat) :
    Triple P (openTemporary attempts) (fun _ disk => P disk) P := by
  induction attempts with
  | zero => exact ret fun _ h => h
  | succ attempts ih =>
    refine bind (ask (fun _ h _ => h) fun _ h => h) fun random => ?_
    split
    · exact ret fun _ h => h
    · refine bind (ask (fun _ h _ => h) fun _ h => h) fun opened => ?_
      split
      · exact ret fun _ h => h
      · split
        · exact ret fun _ h => h
        · exact ih

/-- A pass of the write loop lengthens a prefix of the text. -/
theorem writeStep_inl {text written longer : Bytes} (hpre : written <+: text)
    (h : writeStep text reply written = .inl longer) : longer <+: text := by
  unfold writeStep at h
  dsimp only at h
  split_ifs at h with hneg heintr hzero hlen
  · cases h
    exact hpre
  · cases h
    rw [prefix_iff_eq_take.mp hpre, length_take_of_le hpre.length_le, ← take_add]
    exact take_prefix _ text

/-- It ends well only when the file holds all of the text. -/
theorem writeStep_inr {text written temporary : Bytes} (hpre : written <+: text)
    (h : writeStep text reply written = .inr (.ok temporary)) : temporary = text := by
  unfold writeStep at h
  dsimp only at h
  split_ifs at h with hneg heintr hzero hlen
  · cases h
  · cases h
  · cases h
    have hwritten : written ++ (text.drop written.length).take reply.result.toNat
        = text.take (written.length + reply.result.toNat) := by
      rw [take_add, ← prefix_iff_eq_take.mp hpre]
    rw [hwritten] at hlen ⊢
    refine take_of_length_le ?_
    rw [length_take] at hlen
    omega

theorem writeAll_spec (text : Bytes) : Triple P (writeAll text)
      (fun result disk => P disk ∧ ∀ temporary, result = .ok temporary → temporary = text) P := by
  unfold writeAll
  split_ifs
  · refine pre (loop (fun written disk => P disk ∧ written <+: text) ?_ ?_
      (fun _ _ h => h.1) []) fun disk h => ⟨h, nil_prefix⟩
    · intro reply written longer disk h hstep
      exact ⟨h.1, writeStep_inl h.2 hstep⟩
    · rintro reply written result disk h hstep
      exact ⟨h.1, fun temporary hok => writeStep_inr h.2 (hok ▸ hstep)⟩
  · refine ret fun disk h => ⟨h, fun temporary hok => ?_⟩
    cases hok
    exact (length_eq_zero_iff.mp (by omega)).symm

theorem syncFile_spec : Triple P syncFile (fun _ disk => P disk) P :=
  loop (fun _ disk => P disk) (fun _ _ _ _ h _ => h) (fun _ _ _ _ h _ => h)
    (fun _ _ h => h) ()

theorem syncParent_spec : Triple P syncParent (fun _ disk => P disk) P :=
  loop (fun _ disk => P disk) (fun _ _ _ _ h _ => h) (fun _ _ _ _ h _ => h)
    (fun _ _ h => h) ()

theorem closeFile_spec (code : OperationJournalErrorCode) :
    Triple P (closeFile code) (fun _ disk => P disk) P := by
  refine bind (ask (fun _ h _ => h) fun _ h => h) fun reply => ?_
  split
  · exact ret fun _ h => h
  · exact ret fun _ h => h

theorem renameTemporary_spec (previous : Disk) (text : Bytes) :
    Triple (fun disk : Disk => disk = previous) (renameTemporary text)
      (fun result disk => (disk = previous ∨ disk = some text) ∧
        ∀ u, result = .ok u → disk = some text)
      (fun disk => disk = previous ∨ disk = some text) := by
  refine bind (ask (fun _ h _ => h) fun _ h => Or.inl h) fun reply => ?_
  refine bind (Q := fun _ disk => (disk = previous ∨ disk = some text) ∧
    (reply.throws = false → reply.result = 0 → disk = some text)) ?_ fun _ => ?_
  · refine Triple.modify fun disk h => ?_
    split
    · exact ⟨Or.inr rfl, fun _ _ => rfl⟩
    · next hnot =>
        refine ⟨Or.inl h, fun hthrows hresult => ?_⟩
        simp [hthrows, hresult] at hnot
  · split
    · exact ret fun _ h => ⟨h.1, by simp⟩
    · next hthrows =>
        split
        · exact ret fun _ h => ⟨h.1, by simp⟩
        · next hresult =>
            exact ret fun _ h => ⟨h.1, fun _ _ => h.2 (by simpa using hthrows)
              (by simpa using hresult)⟩

/-- The spec of `OperationJournalPersist`: all the other proofs know of it. -/
theorem persist_spec (readers : Readers) (entries : List OperationJournalEntry)
    (nextSequence : UInt64) (previous : Disk) :
    Triple (fun disk : Disk => disk = previous) (persist readers entries nextSequence)
      (Persisted readers entries nextSequence previous)
      (fun disk => disk = previous ∨ IsSnapshot readers entries nextSequence disk) := by
  unfold persist
  cases hencode : encode readers entries nextSequence with
  | error e => exact ret fun _ h => h
  | ok text =>
    have snapshot : ∀ disk, disk = some text → IsSnapshot readers entries nextSequence disk :=
      fun _ h => ⟨text, hencode, h⟩
    let before := fun disk : Disk => disk = previous
    refine attempt ((openTemporary_spec before 8).stops fun _ h => Or.inl h)
      (fun _ _ h => h) fun _ => ?_
    refine attempt ((writeAll_spec before text).stops fun _ h => Or.inl h)
      (fun _ _ h => h.1) fun temporary => ?_
    refine attempt ((syncFile_spec fun disk => before disk ∧ temporary = text).consequence
      (fun _ h => ⟨h.1, h.2 _ rfl⟩) (fun _ _ h => h) fun _ h => Or.inl h.1)
      (fun _ _ h => h.1) fun _ => ?_
    refine attempt ((closeFile_spec (fun disk => before disk ∧ temporary = text)
      .closeFailed).stops fun _ h => Or.inl h.1) (fun _ _ h => h.1) fun _ => ?_
    refine pre (intro fun htext : temporary = text => ?_) fun _ h => h.symm
    subst htext
    refine attempt ((renameTemporary_spec previous temporary).stops
      fun _ h => h.imp id (snapshot _)) (fun _ _ h => h.1.imp id (snapshot _)) fun _ => ?_
    refine attempt ((syncParent_spec fun disk => disk = some temporary).consequence
      (fun _ h => h.2 _ rfl) (fun _ _ h => h) fun _ h => Or.inr (snapshot _ h))
      (fun _ _ h => Or.inr (snapshot _ h)) fun _ => ?_
    exact ret fun _ h => ⟨rfl, snapshot _ h⟩

/-! ## What read returns -/

theorem readStep_inl {contents read more : Bytes} (hpre : read <+: contents)
    (h : readStep contents reply read = .inl more) : more <+: contents := by
  unfold readStep at h
  dsimp only at h
  split_ifs at h with hneg heintr hzero hlarge
  · cases h
    exact hpre
  · cases h
    rw [prefix_iff_eq_take.mp hpre, length_take_of_le hpre.length_le, ← take_add]
    exact take_prefix _ contents

theorem readStep_inr {contents read whole : Bytes} (hpre : read <+: contents)
    (h : readStep contents reply read = .inr (.ok whole)) : whole = contents := by
  unfold readStep at h
  dsimp only at h
  split_ifs at h with hneg heintr hzero hlarge
  · cases h
  · cases h
    refine hpre.eq_of_length_le ?_
    omega
  · cases h

/-- Whatever the calls do, a read that succeeds returns the file, and the file stays. -/
theorem readJournal_spec (previous : Disk) : Triple (fun disk : Disk => disk = previous) readJournal
      (fun result disk => disk = previous ∧ ∀ contents, result = .ok contents → contents = previous)
      (fun disk => disk = previous) := by
  let before := fun disk : Disk => disk = previous
  have hopen : Triple before openForRead (fun result disk => before disk ∧
      ∀ contents, result = .ok contents → contents = previous) before := by
    refine bind (ask (fun _ h _ => h) fun _ h => h) fun reply => ?_
    refine bind (Q := fun seen disk => seen = previous ∧ before disk)
      (Triple.get fun _ h => ⟨h, h⟩) fun seen => ?_
    split
    · exact ret fun _ h => ⟨h.2, by simp⟩
    · refine ret fun _ h => ⟨h.2, fun contents hok => ?_⟩
      cases hok
      exact h.1
  refine attempt hopen (fun _ _ h => ⟨h.1, by simp⟩) fun contents => ?_
  cases contents with
  | none =>
    refine ret fun _ h => ⟨h.1, fun contents hok => ?_⟩
    cases hok
    exact h.2 _ rfl
  | some contents =>
    let opened := fun disk : Disk => before disk ∧ some contents = previous
    have hcheck : Triple opened (checkForRead contents) (fun _ disk => opened disk) opened := by
      refine bind (ask (fun _ h _ => h) fun _ h => h) fun reply => ?_
      split_ifs <;> exact ret fun _ h => h
    have hread : Triple opened (loop (readStep contents) []) (fun result disk => opened disk ∧
        ∀ whole, result = .ok whole → whole = contents) opened := by
      refine pre (loop (fun read disk => opened disk ∧ read <+: contents) ?_ ?_
        (fun _ _ h => h.1) []) fun _ h => ⟨h, nil_prefix⟩
      · exact fun reply read more disk h hstep => ⟨h.1, readStep_inl h.2 hstep⟩
      · exact fun reply read result disk h hstep =>
          ⟨h.1, fun whole hok => readStep_inr h.2 (hok ▸ hstep)⟩
    refine attempt (hcheck.consequence (fun _ h => ⟨h.1, h.2 _ rfl⟩) (fun _ _ h => h)
      fun _ h => h.1) (fun _ _ h => ⟨h.1, by simp⟩) fun _ => ?_
    refine attempt (hread.stops fun _ h => h.1) (fun _ _ h => ⟨h.1.1, by simp⟩)
      fun whole => ?_
    refine attempt ((closeFile_spec (fun disk => opened disk ∧ whole = contents)
      .journalReadFailed).consequence (fun _ h => ⟨h.1, h.2 _ rfl⟩) (fun _ _ h => h)
      fun _ h => h.1.1) (fun _ _ h => ⟨h.1.1, by simp⟩) fun _ => ?_
    refine ret fun _ h => ⟨h.1.1, fun contents hok => ?_⟩
    cases hok
    rw [h.2]
    exact h.1.2

end WinCommander.Operations.Journal
