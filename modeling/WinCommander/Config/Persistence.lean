/-
  When no setting is lost between the memory and the storage.

  `Covered` is the invariant: the storage has what the document says, or a write that brings it is
  still to come. Each of the two flags is lowered after the text or the storage that it stands for
  was taken, so that a request in between is dropped. `Orderly` names these steps and those of two
  writes, or of a write and a reload, that overtake each other; runs without them keep `Covered`.
-/
import WinCommander.Config.ConfigImpl

namespace WinCommander.Config

open Library List Nat

variable {ν : Type}

/-! ## What is stored and what is to come -/

namespace Frame

/-- The text that a write of this frame will store is that of the document. -/
def willWrite (text : Bytes) : Frame ν → Bool
  | .executeDump | .writeOverwrites _ => true
  | .write other _ => other == text
  | _ => false

/-- A change of the document that is not marked yet. -/
def marking : Frame ν → Bool
  | .fireAndMark | .markDirty => true
  | _ => false

def willRead : Frame ν → Bool
  | .executeReload | .reloadOverwrites => true
  | _ => false

/-- A task that runs, or a call between its change and what it schedules. -/
def busy : Frame ν → Bool
  | .set _ _ | .fire | .resetToDefaults | .commit | .change _ | .overwritesDidChange | .runDump
  | .runReload => false
  | _ => true

end Frame

namespace ConfigImpl

variable (json : RapidJson ν) (defaults : Value ν)

/-- No change waits to be saved, and the last text written is that of the document unless others
    changed the storage after it. -/
def Settled (s : ConfigImpl ν) : Prop :=
  s.unsaved = false ∧
    (s.external = true ∨ s.content = some (overwritesText json defaults s.document))

/-- A write of what the document says is queued or running. -/
def WriteToCome (s : ConfigImpl ν) (frames : List (Frame ν)) : Prop :=
  0 < s.dumps ∨ ∃ f ∈ frames, f.willWrite (overwritesText json defaults s.document) = true

def Marking (frames : List (Frame ν)) : Prop := ∃ f ∈ frames, f.marking = true

def Covered (s : ConfigImpl ν) (frames : List (Frame ν)) : Prop :=
  Settled json defaults s ∨ WriteToCome json defaults s frames ∨ Marking frames

/-- A read of the storage is queued or running. -/
def ReadToCome (s : ConfigImpl ν) (frames : List (Frame ν)) : Prop :=
  0 < s.reloads ∨ ∃ f ∈ frames, f.willRead = true

structure Inv (s : ConfigImpl ν) (frames : List (Frame ν)) : Prop where
  covered : Covered json defaults s frames
  reread : s.notified ≤ s.read ∨ ReadToCome s frames
  told : s.notified ≤ s.changes

/-- The steps of a frame that lose nothing. -/
def Orderly (s : ConfigImpl ν) (frames : List (Frame ν)) : Frame ν → Prop
  -- A raised flag stands for a write that is still to look at the document, or looked at it as it
  -- is now.
  | .markDirty => s.writeScheduled = true →
      Settled json defaults s ∨ WriteToCome json defaults s frames
  -- A text that has become stale is not the last one.
  | .write text _ => text = overwritesText json defaults s.document ∨
      WriteToCome json defaults s frames ∨ Marking frames
  -- What a reload read is not overwritten before the document has it.
  | .replace document => Covered json defaults { s with document := document } frames
  -- A raised flag stands for a read that is still to come.
  | .overwritesDidChange => s.readScheduled = true → s.changes ≤ s.read ∨ ReadToCome s frames
  -- A reset that finds no difference does not change what would be written.
  | .resetToDefaults => json.listDifferences s.document defaults = [] →
      overwritesText json defaults defaults = overwritesText json defaults s.document
  | _ => True

/-- No task is queued or running, and no call is on its way to one. -/
structure Quiet (s : ConfigImpl ν) (frames : List (Frame ν)) : Prop where
  dumps : s.dumps = 0
  reloads : s.reloads = 0
  frames : ∀ f ∈ frames, f.busy = false

/-- Memory and storage agree. -/
structure Persisted (s : ConfigImpl ν) : Prop where
  saved : s.unsaved = false
  stored : s.external = false → s.content = some (overwritesText json defaults s.document)
  reread : s.notified ≤ s.read

/-! ## Quiet states -/

variable {json defaults} {s : ConfigImpl ν} {frames frames' others : List (Frame ν)} {f : Frame ν}

theorem busy_of_willWrite (h : f.willWrite text) : f.busy := by
  cases f <;> first | rfl | cases h

theorem busy_of_marking (h : f.marking) : f.busy := by
  cases f <;> first | rfl | cases h

theorem busy_of_willRead (h : f.willRead) : f.busy := by
  cases f <;> first | rfl | cases h

theorem Quiet.not_busy (h : Quiet s frames) (hmem : f ∈ frames) : f.busy ≠ true := by
  rw [h.frames f hmem]
  exact Bool.false_ne_true

theorem Inv.persisted (h : Inv json defaults s frames) (hquiet : Quiet s frames) :
    Persisted json defaults s := by
  have hsettled : Settled json defaults s := by
    obtain hsettled | hcome | ⟨f, hmem, hmarking⟩ := h.covered
    · exact hsettled
    · obtain hdumps | ⟨f, hmem, hwrite⟩ := hcome
      · exact absurd hquiet.dumps (Nat.ne_of_gt hdumps)
      · exact absurd (busy_of_willWrite hwrite) (hquiet.not_busy hmem)
    · exact absurd (busy_of_marking hmarking) (hquiet.not_busy hmem)
  refine ⟨hsettled.1, ?_, ?_⟩
  · intro hexternal
    obtain hother | hstored := hsettled.2
    · rw [hexternal] at hother
      cases hother
    · exact hstored
  · obtain hread | hreloads | ⟨f, hmem, hread⟩ := h.reread
    · exact hread
    · exact absurd hquiet.reloads (Nat.ne_of_gt hreloads)
    · exact absurd (busy_of_willRead hread) (hquiet.not_busy hmem)

/-! ## One step -/

section
variable (hperm : frames.Perm frames')
include hperm

/-- Some frame of a list, whatever their order. -/
theorem exists_of_perm {P : Frame ν → Prop} (h : ∃ f ∈ frames, P f) : ∃ f ∈ frames', P f := by
  obtain ⟨f, hmem, hf⟩ := h
  exact ⟨f, hperm.mem_iff.mp hmem, hf⟩

theorem Covered.perm (h : Covered json defaults s frames) : Covered json defaults s frames' :=
  h.imp_right (Or.imp (Or.imp_right (exists_of_perm hperm)) (exists_of_perm hperm))

theorem Inv.perm (h : Inv json defaults s frames) : Inv json defaults s frames' :=
  ⟨h.covered.perm hperm, h.reread.imp_right (Or.imp_right (exists_of_perm hperm)), h.told⟩

end

/-- A frame of no account may leave. -/
theorem exists_of_leaving {P : Frame ν → Prop} (hf : ¬ P f) (next : List (Frame ν))
    (h : ∃ g ∈ f :: others, P g) : ∃ g ∈ next ++ others, P g := by
  obtain ⟨g, hmem, hg⟩ := h
  obtain rfl | hmem := mem_cons.mp hmem
  · exact absurd hg hf
  · exact ⟨g, mem_append_right _ hmem, hg⟩

section
variable (hf : f.willWrite (overwritesText json defaults s.document) = false)
include hf

theorem WriteToCome.leaving (next : List (Frame ν)) (h : WriteToCome json defaults s (f :: others)) :
    WriteToCome json defaults s (next ++ others) :=
  h.imp_right (exists_of_leaving (by simp [hf]) next)

theorem Covered.leaving (hmarking : f.marking = false) (next : List (Frame ν))
    (h : Covered json defaults s (f :: others)) : Covered json defaults s (next ++ others) :=
  h.imp_right (Or.imp (WriteToCome.leaving hf next) (exists_of_leaving (by simp [hmarking]) next))

end

theorem reread_leaving (hf : f.willRead = false) (next : List (Frame ν))
    (h : s.notified ≤ s.read ∨ ReadToCome s (f :: others)) :
    s.notified ≤ s.read ∨ ReadToCome s (next ++ others) :=
  h.imp_right (Or.imp_right (exists_of_leaving (by simp [hf]) next))

/-- The frame at the front, which is of a kind, counts. -/
theorem come_of_head (s : ConfigImpl ν) (others : List (Frame ν))
    (h : f.willWrite (overwritesText json defaults s.document)) :
    Covered json defaults s (f :: others) :=
  .inr (.inl (.inr ⟨f, mem_cons_self, h⟩))

theorem Inv.setInternal (h : Inv json defaults s (.set path value :: others)) :
    Inv json defaults (setInternal json s path value).1
      ((setInternal json s path value).2.toList ++ others) := by
  have hstays : Inv json defaults s ([] ++ others) :=
    ⟨h.covered.leaving rfl rfl [], reread_leaving rfl [] h.reread, h.told⟩
  unfold ConfigImpl.setInternal
  split
  · exact hstays
  · cases json.replaceOrInsert path value s.document with
    | none => exact hstays
    | some document =>
      refine ⟨.inr (.inr ⟨.fireAndMark, mem_cons_self, rfl⟩), ?_, h.told⟩
      exact reread_leaving rfl [.fireAndMark] h.reread

theorem Inv.markDirty (h : Inv json defaults s (.markDirty :: others))
    (horderly : Orderly json defaults s (.markDirty :: others) .markDirty) :
    Inv json defaults (ConfigImpl.markDirty s).1 ((ConfigImpl.markDirty s).2.toList ++ others) := by
  unfold ConfigImpl.markDirty
  split_ifs with hscheduled
  · refine ⟨?_, reread_leaving rfl [] h.reread, h.told⟩
    obtain hsettled | hcome := horderly hscheduled
    · exact .inl hsettled
    · exact .inr (.inl (hcome.leaving rfl []))
  · refine ⟨?_, ?_, h.told⟩
    · exact come_of_head _ others rfl
    · exact reread_leaving rfl [.executeDump] h.reread

theorem Inv.runDump (h : Inv json defaults s (.runDump :: others)) :
    Inv json defaults (ConfigImpl.runDump s).1 ((ConfigImpl.runDump s).2.toList ++ others) := by
  unfold ConfigImpl.runDump
  split
  · exact ⟨h.covered.leaving rfl rfl [], reread_leaving rfl [] h.reread, h.told⟩
  · refine ⟨?_, reread_leaving rfl [.writeOverwrites false] h.reread, h.told⟩
    exact come_of_head _ others rfl

theorem Inv.storeText (h : Inv json defaults s (.write text fires :: others))
    (horderly : Orderly json defaults s (.write text fires :: others) (.write text fires)) :
    Inv json defaults (storeText json defaults s text) (.clearWriteFlag fires :: others) := by
  refine ⟨?_, reread_leaving rfl [.clearWriteFlag fires] h.reread, h.told⟩
  by_cases hcurrent : text = overwritesText json defaults s.document
  · refine .inl ⟨?_, .inr ?_⟩
    · simp [ConfigImpl.storeText, hcurrent]
    · exact congrArg some hcurrent
  · have hstale : (Frame.write text fires : Frame ν).willWrite
        (overwritesText json defaults s.document) = false := by
      simpa [Frame.willWrite] using hcurrent
    obtain hcome | hmarking := horderly.resolve_left hcurrent
    · exact .inr (.inl (hcome.leaving hstale [.clearWriteFlag fires]))
    · exact .inr (.inr (exists_of_leaving Bool.false_ne_true [.clearWriteFlag fires] hmarking))

theorem Inv.resetToDefaults (h : Inv json defaults s (.resetToDefaults :: others))
    (horderly : Orderly json defaults s (.resetToDefaults :: others) .resetToDefaults) :
    Inv json defaults (ConfigImpl.resetToDefaults json defaults s).1
      ((ConfigImpl.resetToDefaults json defaults s).2.toList ++ others) := by
  unfold ConfigImpl.resetToDefaults
  split_ifs with hsame
  · have htext := horderly hsame
    have hcovered := h.covered.leaving rfl rfl []
    refine ⟨?_, reread_leaving rfl [] h.reread, h.told⟩
    unfold Covered Settled WriteToCome at hcovered ⊢
    rw [htext]
    exact hcovered
  · refine ⟨?_, reread_leaving rfl [.writeOverwrites true] h.reread, h.told⟩
    exact come_of_head _ others rfl

theorem Inv.commit (h : Inv json defaults s (.commit :: others)) :
    Inv json defaults (ConfigImpl.commit s).1 ((ConfigImpl.commit s).2.toList ++ others) := by
  exact ⟨h.covered.leaving rfl rfl _, reread_leaving rfl _ h.reread, h.told⟩

theorem Inv.changeStorage {content : Option Bytes}
    (h : Inv json defaults s (.change content :: others)) :
    Inv json defaults (ConfigImpl.changeStorage s content) others := by
  refine ⟨?_, reread_leaving rfl [] h.reread, le_succ_of_le h.told⟩
  obtain hsettled | hcome := h.covered.leaving rfl rfl []
  · exact .inl ⟨hsettled.1, .inl rfl⟩
  · exact .inr hcome

theorem Inv.overwritesDidChange (h : Inv json defaults s (.overwritesDidChange :: others))
    (horderly : Orderly json defaults s (.overwritesDidChange :: others) .overwritesDidChange) :
    Inv json defaults (ConfigImpl.overwritesDidChange s).1
      ((ConfigImpl.overwritesDidChange s).2.toList ++ others) := by
  have hcovered := fun next => h.covered.leaving rfl rfl next
  unfold ConfigImpl.overwritesDidChange
  split_ifs with hscheduled
  · refine ⟨hcovered [], ?_, Nat.le_refl _⟩
    obtain hread | hcome := horderly hscheduled
    · exact .inl hread
    · exact .inr (hcome.imp_right (exists_of_leaving Bool.false_ne_true []))
  · exact ⟨hcovered [.executeReload], .inr (.inr ⟨.executeReload, mem_cons_self, rfl⟩),
      Nat.le_refl _⟩

theorem Inv.runReload (h : Inv json defaults s (.runReload :: others)) :
    Inv json defaults (ConfigImpl.runReload s).1 ((ConfigImpl.runReload s).2.toList ++ others) := by
  unfold ConfigImpl.runReload
  split
  · exact ⟨h.covered.leaving rfl rfl [], reread_leaving rfl [] h.reread, h.told⟩
  · exact ⟨h.covered.leaving rfl rfl [.reloadOverwrites],
      .inr (.inr ⟨.reloadOverwrites, mem_cons_self, rfl⟩), h.told⟩

theorem Inv.reloadOverwrites (h : Inv json defaults s (.reloadOverwrites :: others)) :
    Inv json defaults (ConfigImpl.reloadOverwrites json defaults s).1
      ((ConfigImpl.reloadOverwrites json defaults s).2.toList ++ others) := by
  exact ⟨h.covered.leaving rfl rfl _, .inl h.told, h.told⟩

/-- What one step keeps, the frame that makes it being the first. -/
theorem Inv.advance (h : Inv json defaults s (f :: others))
    (horderly : Orderly json defaults s (f :: others) f) :
    Inv json defaults (advance json defaults s f).1
      ((advance json defaults s f).2.toList ++ others) := by
  cases f with
  | set path value => exact h.setInternal
  | fireAndMark =>
    exact ⟨.inr (.inr ⟨.markDirty, mem_cons_self, rfl⟩),
      reread_leaving rfl [.markDirty] h.reread, h.told⟩
  | markDirty => exact h.markDirty horderly
  | executeDump =>
    exact ⟨.inr (.inl (.inl (succ_pos _))), reread_leaving rfl [] h.reread, h.told⟩
  | runDump => exact h.runDump
  | writeOverwrites fires =>
    exact ⟨come_of_head s others (beq_self_eq_true _), reread_leaving rfl [_] h.reread, h.told⟩
  | write text fires => exact h.storeText horderly
  | clearWriteFlag fires =>
    exact ⟨h.covered.leaving rfl rfl _, reread_leaving rfl _ h.reread, h.told⟩
  | resetToDefaults => exact h.resetToDefaults horderly
  | fire => exact ⟨h.covered.leaving rfl rfl [], reread_leaving rfl [] h.reread, h.told⟩
  | commit => exact h.commit
  | change content => exact h.changeStorage
  | overwritesDidChange => exact h.overwritesDidChange horderly
  | executeReload => exact ⟨h.covered.leaving rfl rfl [], .inr (.inl (succ_pos _)), h.told⟩
  | runReload => exact h.runReload
  | reloadOverwrites => exact h.reloadOverwrites
  | replace document =>
    have hcovered : Covered json defaults { s with document := document }
        (.replace document :: others) := horderly
    exact ⟨hcovered.leaving rfl rfl [.fireAndClear],
      reread_leaving rfl [.fireAndClear] h.reread, h.told⟩
  | fireAndClear =>
    exact ⟨h.covered.leaving rfl rfl [.clearReadFlag],
      reread_leaving rfl [.clearReadFlag] h.reread, h.told⟩
  | clearReadFlag =>
    exact ⟨h.covered.leaving rfl rfl [], reread_leaving rfl [] h.reread, h.told⟩

theorem Inv.call (h : Inv json defaults s frames) (call : Call ν) :
    Inv json defaults s (call.entry :: frames) := by
  have hmore : ∀ {P : Frame ν → Prop}, (∃ f ∈ frames, P f) → ∃ f ∈ call.entry :: frames, P f := by
    rintro P ⟨f, hmem, hf⟩
    exact ⟨f, mem_cons_of_mem _ hmem, hf⟩
  exact ⟨h.covered.imp_right (Or.imp (Or.imp_right hmore) hmore),
    h.reread.imp_right (Or.imp_right hmore), h.told⟩

/-! ## Runs -/

/-- The frame that is to advance loses nothing. -/
def OrderlyEvent (json : RapidJson ν) (defaults : Value ν)
    (sys : Threads (ConfigImpl ν) (Frame ν)) : ThreadEvent (Call ν) Unit → Prop
  | .call _ _ => True
  | .advance thread _ => ∀ f ∈ sys.top thread, Orderly json defaults sys.shared sys.frames f

theorem Orderly.perm (hperm : frames.Perm frames') (h : Orderly json defaults s frames f) :
    Orderly json defaults s frames' f := by
  cases f with
  | markDirty =>
    exact fun hscheduled => (h hscheduled).imp_right (Or.imp_right (exists_of_perm hperm))
  | write text fires =>
    exact h.imp_right (Or.imp (Or.imp_right (exists_of_perm hperm)) (exists_of_perm hperm))
  | replace document => exact Covered.perm hperm h
  | overwritesDidChange =>
    exact fun hscheduled => (h hscheduled).imp_right (Or.imp_right (exists_of_perm hperm))
  | _ => exact h

theorem Inv.step (h : Inv json defaults sys.shared sys.frames)
    (horderly : OrderlyEvent json defaults sys event) :
    Inv json defaults ((program json defaults).step sys event).1.shared
      ((program json defaults).step sys event).1.frames := by
  have hmoves := (program json defaults).step_moves sys event
  generalize (program json defaults).step sys event = result at hmoves
  cases hmoves with
  | stays => exact h
  | calls thread call stack rest callStacks before awaited after =>
    exact ((h.perm before.flatten).call call).perm after.flatten.symm
  | advances thread answers f below rest callStacks top before free after =>
    have hbefore : Inv json defaults sys.shared (f :: (below ++ rest.flatten)) :=
      h.perm before.flatten
    have hf : Orderly json defaults sys.shared (f :: (below ++ rest.flatten)) f :=
      (horderly f top).perm before.flatten
    have hafter := hbefore.advance hf
    rw [← append_assoc] at hafter
    exact hafter.perm after.flatten.symm

theorem inv_started (content : Option Bytes) (threads : Nat) :
    Inv json defaults (started json defaults content threads).shared
      (started json defaults content threads).frames :=
  ⟨.inl ⟨rfl, .inl rfl⟩, .inl (Nat.le_refl _), Nat.le_refl _⟩

/-- Over every interleaving whose steps lose nothing, memory and storage agree in every quiet
    state. -/
theorem persisted_of_quiet (json : RapidJson ν) (defaults : Value ν) (content : Option Bytes)
    (threads : Nat) (events : List (ThreadEvent (Call ν) Unit))
    (horderly : Meets (program json defaults).step (OrderlyEvent json defaults)
      (started json defaults content threads) events) :
    let sys := (runAll (program json defaults).step (started json defaults content threads) events).1
    Quiet sys.shared sys.frames → Persisted json defaults sys.shared := by
  have hinv := runAll_meets (OrderlyEvent json defaults)
    (fun sys (_ : List (Option Unit)) => Inv json defaults sys.shared sys.frames)
    (fun sys _ event horderly h => h.step horderly) [] events horderly
    (inv_started content threads)
  intro sys hquiet
  exact hinv.persisted hquiet

/-! ## Runs of two callers -/

/-- The indented texts of objects with numbers in them. -/
def flatMember (member : Bytes × Value Nat) : Bytes :=
  ascii "\n    \"" ++ member.1 ++ ascii "\": " ++ match member.2 with
    | .number n => decimal n
    | _ => []

def flatText : Value Nat → Bytes
  | .object [] => ascii "\x7b\x7d"
  | .object members =>
    ascii "\x7b" ++ ((members.map flatMember).intersperse (ascii ",")).flatten ++ ascii "\n\x7d"
  | _ => []

def flatJson : RapidJson Nat where
  sameNumber a b := a == b
  write := flatText
  parse _ := none

/-- A call of a thread, and its next steps. -/
def callAndAdvance (thread : Nat) (call : Call Nat) (steps : Nat) :
    List (ThreadEvent (Call Nat) Unit) :=
  .call thread call :: List.replicate steps (.advance thread ())

/-- Two threads that start with an empty document. -/
def afterEvents (events : List (ThreadEvent (Call Nat) Unit)) :
    Threads (ConfigImpl Nat) (Frame Nat) :=
  (runAll (program flatJson (.object [])).step (started flatJson (.object []) none 2) events).1

/-- A setting is set, and written by the task that this queued. -/
def setAndDump : List (ThreadEvent (Call Nat) Unit) :=
  callAndAdvance 0 (.set (ascii "a") (.number 1)) 4 ++ callAndAdvance 1 .runDump 4

/-- Another one is set while the task has its text and still holds the flag up. -/
def setDuringDump : List (ThreadEvent (Call Nat) Unit) :=
  callAndAdvance 0 (.set (ascii "a") (.number 1)) 4 ++ callAndAdvance 1 .runDump 2 ++
    callAndAdvance 0 (.set (ascii "b") (.number 2)) 3 ++ List.replicate 2 (.advance 1 ())

/-- `Commit` with nothing to write, then a setting is set. -/
def setAfterCommit : List (ThreadEvent (Call Nat) Unit) :=
  callAndAdvance 0 .commit 1 ++ callAndAdvance 0 (.set (ascii "a") (.number 1)) 3

instance (s : ConfigImpl ν) (frames : List (Frame ν)) : Decidable (WriteToCome json defaults s frames) :=
  inferInstanceAs (Decidable (_ ∨ _))

instance (s : ConfigImpl ν) : Decidable (Settled json defaults s) :=
  inferInstanceAs (Decidable (_ ∧ _))

instance (frames : List (Frame ν)) : Decidable (Marking frames) :=
  inferInstanceAs (Decidable (∃ f ∈ frames, f.marking = true))

instance (s : ConfigImpl ν) (frames : List (Frame ν)) : Decidable (Covered json defaults s frames) :=
  inferInstanceAs (Decidable (_ ∨ _))

instance (s : ConfigImpl ν) (frames : List (Frame ν)) : Decidable (ReadToCome s frames) :=
  inferInstanceAs (Decidable (_ ∨ _))

instance (s : ConfigImpl ν) (frames : List (Frame ν)) :
    ∀ f : Frame ν, Decidable (Orderly json defaults s frames f)
  | .markDirty => inferInstanceAs (Decidable (_ → _))
  | .write _ _ => inferInstanceAs (Decidable (_ ∨ _))
  | .replace _ => inferInstanceAs (Decidable (Covered _ _ _ _))
  | .overwritesDidChange => inferInstanceAs (Decidable (_ → _))
  | .resetToDefaults => inferInstanceAs (Decidable (_ → _))
  | .set _ _ | .fireAndMark | .executeDump | .runDump | .writeOverwrites _ | .clearWriteFlag _
  | .fire | .commit | .change _ | .executeReload | .runReload | .reloadOverwrites
  | .fireAndClear | .clearReadFlag => inferInstanceAs (Decidable True)

instance (sys : Threads (ConfigImpl ν) (Frame ν)) :
    ∀ event : ThreadEvent (Call ν) Unit, Decidable (OrderlyEvent json defaults sys event)
  | .call _ _ => inferInstanceAs (Decidable True)
  | .advance thread _ => inferInstanceAs (Decidable (∀ f ∈ sys.top thread, _))

theorem persisted_of_quiet_setAndDump :
    Persisted flatJson (.object []) (afterEvents setAndDump).shared :=
  persisted_of_quiet flatJson (.object []) none 2 setAndDump (by decide +kernel)
    ⟨by decide +kernel, by decide +kernel, by decide +kernel⟩

/-- Both runs end in a quiet state with a setting that no write will bring to the storage. -/
theorem setting_lost : (∀ events ∈ [setDuringDump, setAfterCommit],
      Quiet (afterEvents events).shared (afterEvents events).frames ∧
        (afterEvents events).shared.unsaved = true) ∧
      (afterEvents setDuringDump).shared.content = some (ascii "\x7b\n    \"a\": 1\n\x7d") ∧
      (afterEvents setDuringDump).shared.external = false ∧
      overwritesText flatJson (.object []) (afterEvents setDuringDump).shared.document =
        ascii "\x7b\n    \"a\": 1,\n    \"b\": 2\n\x7d" := by
  refine ⟨?_, by decide +kernel, by decide +kernel, by decide +kernel⟩
  intro events hmem
  obtain rfl | hmem := mem_cons.mp hmem
  · exact ⟨⟨by decide +kernel, by decide +kernel, by decide +kernel⟩, by decide +kernel⟩
  · rw [mem_singleton] at hmem
    subst hmem
    exact ⟨⟨by decide +kernel, by decide +kernel, by decide +kernel⟩, by decide +kernel⟩

end ConfigImpl

end WinCommander.Config
