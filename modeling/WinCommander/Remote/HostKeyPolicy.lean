/-
  Host keys of SFTP servers: what is pinned for a host, and who changes it.

  The checks of several connections stand between their steps (the pin is read, the user answers,
  the pin is read again, the pin is stored), with replaced and forgotten pins in between, in any
  order. A pin that cannot be read is taken for none, and between the second read and the store
  another first use may have pinned another key; a run without either is sound (`sound_of_run`).
-/
import WinCommander.Library.Numeral
import WinCommander.Library.Run

namespace WinCommander.Remote.HostKeys

open Library List

def isSeparator (c : UInt8) : Bool := c = 0x3A ∨ c = 0x20 ∨ c = 0x2D

def hexDigit (c : UInt8) : Option UInt8 :=
  if c ≥ 0x30 ∧ c ≤ 0x39 then some c
  else if c ≥ 0x61 ∧ c ≤ 0x66 then some c
  else if c ≥ 0x41 ∧ c ≤ 0x46 then some (c - 0x41 + 0x61)
  else none

def normalizeHostFingerprint (fingerprint : Bytes) : Option Bytes :=
  match (fingerprint.filter fun c => !isSeparator c).mapM hexDigit with
  | none => none
  | some normalized =>
    if normalized.isEmpty ∨ normalized.length % 2 ≠ 0 then none else some normalized

inductive RemoteHostTrustVerdict where
  | trustedPinned | unknownFirstUse | mismatch | unusable
deriving DecidableEq

def classifyRemoteHost (pinned : Option Bytes) (presented : Bytes) : RemoteHostTrustVerdict :=
  match normalizeHostFingerprint presented, pinned with
  | none, _ => .unusable
  | some _, none => .unknownFirstUse
  | some presented, some pinned =>
    match normalizeHostFingerprint pinned with
    | none => .mismatch
    | some pinned => if pinned = presented then .trustedPinned else .mismatch

/-! ## The keychain -/

/-- A service and an account. -/
abbrev Item := Bytes × Bytes

abbrev Pins := Item → Option Bytes

def hostPinItem (provider host : Bytes) : Item := (ascii "wincommander.hostpin." ++ provider, host)

/-- `GetPassword` may fail though there is an item. -/
def loadPin (pins : Pins) (provider host : Bytes) (readable : Bool) : Option Bytes :=
  if provider = [] ∨ host = [] ∨ readable = false then none else pins (hostPinItem provider host)

def storePin (pins : Pins) (provider host fingerprint : Bytes) (durable : Bool) : Pins × Bool :=
  if provider = [] ∨ host = [] ∨ fingerprint = [] ∨ durable = false then (pins, false)
  else (Function.update pins (hostPinItem provider host) (some fingerprint), true)

def erasePin (pins : Pins) (provider host : Bytes) (erased : Bool) : Pins × Bool :=
  if provider = [] ∨ host = [] ∨ erased = false then (pins, false)
  else (Function.update pins (hostPinItem provider host) none, true)

/-! ## A check and its steps -/

def sftpPinProvider : Bytes := ascii "sftp"

def remoteHostPinKey (host : Bytes) (port : Int) : Bytes :=
  ascii "[" ++ host ++ ascii "]:" ++ (if port < 0 then ascii "-" else []) ++ decimal port.natAbs

inductive Stage where
  | verify | prompt | trust | store
deriving DecidableEq

/-- A `VerifyHostKey` under way; what was pinned at its last read, and whether the user accepted,
    are kept for what is said about it. -/
structure Check where
  serverUrl : Bytes
  port : Int
  fingerprint : Bytes
  stage : Stage := .verify
  pinned : Option Bytes := none
  accepted : Bool := false

def Check.key (c : Check) : Bytes := remoteHostPinKey c.serverUrl c.port

def Check.item (c : Check) : Item := hostPinItem sftpPinProvider c.key

structure Answers where
  readable : Bool := true
  /-- No answer without a prompt. -/
  prompt : Option Bool := none
  durable : Bool := true

/-- The pins, the check, and what it returns. -/
def Check.advance (pins : Pins) (c : Check) (answers : Answers) : Pins × Check × Option Bool :=
  let read := { c with pinned := pins c.item }
  let verdict :=
    classifyRemoteHost (loadPin pins sftpPinProvider c.key answers.readable) c.fingerprint
  match c.stage with
  | .verify =>
    if verdict = .trustedPinned then (pins, read, some true)
    else if verdict ≠ .unknownFirstUse then (pins, read, some false)
    else (pins, { read with stage := .prompt }, none)
  | .prompt =>
    if answers.prompt = some true then (pins, { c with stage := .trust, accepted := true }, none)
    else (pins, c, some false)
  | .trust =>
    if verdict ≠ .unknownFirstUse then (pins, read, some false)
    else (pins, { read with stage := .store }, none)
  | .store =>
    match normalizeHostFingerprint c.fingerprint with
    | none => (pins, c, some false)
    | some normalized =>
      let (pins, stored) := storePin pins sftpPinProvider c.key normalized answers.durable
      (pins, c, some stored)

inductive Event where
  | verifyHostKey (serverUrl : Bytes) (port : Int) (fingerprint : Bytes)
  | advance (check : Nat) (answers : Answers)
  | replacePin (provider host fingerprint : Bytes) (durable : Bool)
  | forget (provider host : Bytes) (erased : Bool)

structure System where
  pins : Pins
  checks : List Check := []

/-- The report is a check that returned, with its result. -/
def step (s : System) : Event → System × Option (Check × Bool)
  | .verifyHostKey serverUrl port fingerprint =>
    ({ s with checks := s.checks ++ [{ serverUrl, port, fingerprint }] }, none)
  | .advance check answers =>
    match s.checks[check]? with
    | none => (s, none)
    | some c =>
      match c.advance s.pins answers with
      | (pins, c, none) => (⟨pins, s.checks.set check c⟩, none)
      | (pins, c, some result) => (⟨pins, s.checks.eraseIdx check⟩, some (c, result))
  | .replacePin provider host fingerprint durable =>
    match normalizeHostFingerprint fingerprint with
    | none => (s, none)
    | some normalized => ({ s with pins := (storePin s.pins provider host normalized durable).1 }, none)
  | .forget provider host erased =>
    ({ s with pins := (erasePin s.pins provider host erased).1 }, none)

/-! ## What should hold of a step -/

/-- The event is there to change the pin. -/
def Event.Changes (item : Item) : Event → Prop
  | .replacePin provider host _ _ | .forget provider host _ => item = hostPinItem provider host
  | _ => False

/-- True was returned for the pinned key, or for a first one that the user accepted and that is
    pinned now. -/
def Verified (pins : Pins) (c : Check) : Prop :=
  ∃ normalized, normalizeHostFingerprint c.fingerprint = some normalized ∧ match c.pinned with
    | some pin => normalizeHostFingerprint pin = some normalized
    | none => c.accepted = true ∧ pins c.item = some normalized

structure Sound (s : System) (e : Event) : Prop where
  verified : ∀ c, (step s e).2 = some (c, true) → Verified (step s e).1.pins c
  kept : ∀ item pin, s.pins item = some pin → (step s e).1.pins item = some pin ∨ e.Changes item
  firstUse : ∀ c ∈ (step s e).1.checks, c.stage ≠ .verify → c.pinned = none

/-- A pin that is read can be read, and at the store no other key is pinned. -/
def Met (s : System) : Event → Prop
  | .advance check answers => ∀ c, s.checks[check]? = some c → match c.stage with
    | .verify | .trust => answers.readable = true ∨ s.pins c.item = none
    | .prompt => True
    | .store => answers.durable = true → ∀ pin, s.pins c.item = some pin →
        normalizeHostFingerprint c.fingerprint = some pin
  | _ => True

/-! ## The steps -/

/-- What is known of a check between its steps. -/
structure Check.Kept (c : Check) : Prop where
  firstUse : c.stage ≠ .verify → c.pinned = none
  accepted : c.stage = .trust ∨ c.stage = .store → c.accepted = true

variable {pins : Pins} {c : Check} {answers : Answers}

theorem loadPin_eq (h : answers.readable = true ∨ pins c.item = none) :
    loadPin pins sftpPinProvider c.key answers.readable = pins c.item := by
  have hkey : c.key ≠ [] := by simp [Check.key, remoteHostPinKey, ascii]
  unfold loadPin
  split
  · rename_i hcase
    rcases hcase with hcase | hcase | hcase
    · exact absurd hcase (by decide)
    · exact absurd hcase hkey
    · exact (h.resolve_left (by simp [hcase])).symm
  · rfl

theorem classify_trusted {pinned : Option Bytes} {presented : Bytes}
    (h : classifyRemoteHost pinned presented = .trustedPinned) :
    ∃ pin normalized, pinned = some pin ∧ normalizeHostFingerprint pin = some normalized ∧
      normalizeHostFingerprint presented = some normalized := by
  unfold classifyRemoteHost at h
  split at h <;> grind

theorem classify_first {pinned : Option Bytes} {presented : Bytes}
    (h : classifyRemoteHost pinned presented = .unknownFirstUse) : pinned = none := by
  unfold classifyRemoteHost at h
  split at h <;> grind

theorem storePin_other {provider host fingerprint : Bytes} {durable : Bool} {item : Item}
    (hne : item ≠ hostPinItem provider host) :
    (storePin pins provider host fingerprint durable).1 item = pins item := by
  unfold storePin
  split
  · rfl
  · exact Function.update_of_ne hne ..

theorem erasePin_other {provider host : Bytes} {erased : Bool} {item : Item}
    (hne : item ≠ hostPinItem provider host) :
    (erasePin pins provider host erased).1 item = pins item := by
  unfold erasePin
  split
  · rfl
  · exact Function.update_of_ne hne ..

theorem storePin_stored {provider host fingerprint : Bytes} {durable : Bool}
    (h : (storePin pins provider host fingerprint durable).2 = true) :
    (storePin pins provider host fingerprint durable).1 (hostPinItem provider host) =
      some fingerprint := by
  unfold storePin at h ⊢
  split_ifs at h ⊢
  exact Function.update_self ..

/-- Where the step leaves the check, or what it returns. -/
def Fine (pins : Pins) (c : Check) : Option Bool → Prop
  | none => c.Kept
  | some result => result = true → Verified pins c

theorem Check.advance_fine (pins : Pins) (answers : Answers) (h : c.Kept)
    (hmet : c.stage = .verify ∨ c.stage = .trust → answers.readable = true ∨ pins c.item = none) :
    Fine (c.advance pins answers).1 (c.advance pins answers).2.1 (c.advance pins answers).2.2 := by
  have hfirst (hne : c.stage ≠ .verify) := h.firstUse hne
  unfold Check.advance
  cases hstage : c.stage with
  | verify =>
    dsimp only
    rw [loadPin_eq (hmet (.inl hstage))]
    split_ifs with htrusted hunknown
    · obtain ⟨pin, normalized, hpin, hnormal, hpresented⟩ := classify_trusted htrusted
      refine fun _ => ⟨normalized, hpresented, ?_⟩
      rw [hpin]
      exact hnormal
    · exact nofun
    · exact ⟨fun _ => classify_first (not_not.mp hunknown), by simp⟩
  | prompt =>
    dsimp only
    split
    · exact ⟨fun _ => hfirst (by simp [hstage]), fun _ => rfl⟩
    · exact nofun
  | trust =>
    dsimp only
    rw [loadPin_eq (hmet (.inr hstage))]
    split_ifs with hunknown
    · exact nofun
    · exact ⟨fun _ => classify_first (not_not.mp hunknown), fun _ => h.accepted (.inl hstage)⟩
  | store =>
    dsimp only
    split
    · exact nofun
    · rename_i normalized hnormal
      refine fun hstored => ⟨normalized, hnormal, ?_⟩
      rw [hfirst (by simp [hstage])]
      exact ⟨h.accepted (.inr hstage), storePin_stored hstored⟩

/-- A pin stays, unless another one is stored. -/
theorem Check.advance_kept (answers : Answers) {item : Item} {pin : Bytes} (hpin : pins item = some pin)
    (hmet : c.stage = .store → answers.durable = true → ∀ pin, pins c.item = some pin →
      normalizeHostFingerprint c.fingerprint = some pin) :
    (c.advance pins answers).1 item = some pin := by
  unfold Check.advance
  cases hstage : c.stage with
  | verify | prompt | trust =>
    dsimp only
    split_ifs <;> exact hpin
  | store =>
    dsimp only
    split
    · exact hpin
    · rename_i normalized hnormal
      by_cases hitem : item = c.item
      · subst hitem
        cases hdurable : answers.durable with
        | false =>
          rw [storePin, if_pos (by simp)]
          exact hpin
        | true =>
          have hsame := hmet hstage hdurable pin hpin
          rw [hnormal] at hsame
          unfold storePin
          split
          · exact hpin
          · exact (Function.update_self ..).trans hsame
      · exact (storePin_other hitem).trans hpin

def System.Kept (s : System) : Prop := ∀ c ∈ s.checks, c.Kept

theorem sound_silent {s : System} {e : Event} (hnone : (step s e).2 = none) (h : (step s e).1.Kept)
    (hpins : ∀ item pin, s.pins item = some pin →
      (step s e).1.pins item = some pin ∨ e.Changes item) : (step s e).1.Kept ∧ Sound s e := by
  refine ⟨h, fun _ heq => ?_, hpins, fun c hc => (h c hc).firstUse⟩
  rw [hnone] at heq
  cases heq

/-- A pin stays that is not the one of a host. -/
theorem kept_elsewhere {pins' : Pins} {provider host : Bytes} {item : Item} {pin : Bytes}
    (hothers : item ≠ hostPinItem provider host → pins' item = pins item) (hpin : pins item = some pin) :
    pins' item = some pin ∨ item = hostPinItem provider host := by
  by_cases hitem : item = hostPinItem provider host
  · exact .inr hitem
  · exact .inl ((hothers hitem).trans hpin)

theorem System.Kept.step {s : System} (h : s.Kept) (e : Event) (hmet : Met s e) :
    (step s e).1.Kept ∧ Sound s e := by
  cases e with
  | verifyHostKey serverUrl port fingerprint =>
    refine sound_silent rfl (fun c hc => ?_) fun _ _ => .inl
    obtain hc | hc := mem_append.mp hc
    · exact h c hc
    · rw [mem_singleton.mp hc]
      exact ⟨fun hne => absurd rfl hne, by simp⟩
  | advance check answers =>
    cases hcheck : s.checks[check]? with
    | none =>
      refine sound_silent ?_ ?_ ?_ <;> simp only [HostKeys.step, hcheck]
      · exact h
      · exact fun _ _ => .inl
    | some c =>
      have hmet := hmet c hcheck
      have hfine := Check.advance_fine s.pins answers
        (h c (mem_of_getElem? hcheck)) (by rintro (hstage | hstage) <;> rwa [hstage] at hmet)
      have hpins (item : Item) (pin : Bytes) (hpin : s.pins item = some pin) :=
        Check.advance_kept answers hpin (fun hstage => by rwa [hstage] at hmet)
      rcases hadvance : c.advance s.pins answers with ⟨pins, c', - | result⟩
      · rw [hadvance] at hfine hpins
        refine sound_silent ?_ ?_ ?_ <;> simp only [HostKeys.step, hcheck, hadvance]
        · intro other hother
          obtain hother | rfl := mem_or_eq_of_mem_set hother
          · exact h other hother
          · exact hfine
        · exact fun item pin hpin => .inl (hpins item pin hpin)
      · rw [hadvance] at hfine hpins
        have hkept : System.Kept ⟨pins, s.checks.eraseIdx check⟩ :=
          fun other hother => h other (mem_of_mem_eraseIdx hother)
        refine ⟨?_, ?_, ?_, ?_⟩ <;> simp only [HostKeys.step, hcheck, hadvance]
        · exact hkept
        · rintro _ ⟨⟩
          exact hfine rfl
        · exact fun item pin hpin => .inl (hpins item pin hpin)
        · exact fun other hother => (hkept other hother).firstUse
  | replacePin provider host fingerprint durable =>
    cases hnormal : normalizeHostFingerprint fingerprint with
    | none =>
      refine sound_silent ?_ ?_ ?_ <;> simp only [HostKeys.step, hnormal]
      · exact h
      · exact fun _ _ => .inl
    | some normalized =>
      refine sound_silent ?_ ?_ ?_ <;> simp only [HostKeys.step, hnormal]
      · exact h
      · exact fun item pin => kept_elsewhere storePin_other
  | forget => exact sound_silent rfl h fun item pin => kept_elsewhere erasePin_other

/-- In every run that meets the condition, every step is sound. -/
theorem sound_of_run (pins : Pins) (before : List Event) (e : Event)
    (hmet : Meets step Met ⟨pins, []⟩ (before ++ [e])) :
    Sound (runAll step ⟨pins, []⟩ before).1 e := by
  obtain ⟨hbefore, hlast, -⟩ := (meets_append Met _ before [e]).mp hmet
  have hkept := runAll_meets Met (fun s (_ : List _) => s.Kept) (fun s _ e hmet h => (h.step e hmet).1)
    [] before hbefore (fun _ hc => absurd hc not_mem_nil)
  exact (hkept.step e hlast).2

/-- A host is checked, and accepted. -/
def accepted : List Event :=
  [.verifyHostKey (ascii "h") 22 (ascii "BB"), .advance 0 {}, .advance 0 { prompt := some true },
    .advance 0 {}]

theorem sound_of_run_accepted :
    Sound (runAll step ⟨fun _ => none, []⟩ accepted).1 (.advance 0 {}) := by
  refine sound_of_run _ accepted _ ⟨trivial, ?_, ?_, ?_, ?_, trivial⟩
  · rintro _ ⟨⟩
    exact .inl rfl
  · rintro _ ⟨⟩
    trivial
  · rintro _ ⟨⟩
    exact .inl rfl
  · rintro _ ⟨⟩ _ _ heq
    cases heq

/-- The keychain cannot be read while a pinned host is checked, and then it can be written. -/
def unread : List Event :=
  [.verifyHostKey (ascii "h") 22 (ascii "bb"), .advance 0 { readable := false },
    .advance 0 { prompt := some true }, .advance 0 { readable := false }]

/-- The pin is replaced by a first use. -/
theorem not_sound_unread : ¬∀ pins before e, Sound (runAll step ⟨pins, []⟩ before).1 e := by
  intro h
  have hkept := (h (fun _ => some (ascii "aa")) unread (.advance 0 {})).kept
    (hostPinItem sftpPinProvider (remoteHostPinKey (ascii "h") 22)) (ascii "aa")
    (by decide +kernel)
  rcases hkept with hsame | hchanges
  · exact absurd hsame (by decide +kernel)
  · exact hchanges

end WinCommander.Remote.HostKeys
