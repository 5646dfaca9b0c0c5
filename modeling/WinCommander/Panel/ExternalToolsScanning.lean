/-
  What the scanner knows after a part of a string.

  A character changes the parameters in one of three ways (`eat_cases`). From it follow, by induction
  on the characters read so far, which parameters are complete (`partial_iff`) and which limits were
  set (`limits_of_run`).
-/
import WinCommander.Panel.ExternalTools

namespace WinCommander.Panel.ExternalTools

open Library List Option Scanner ExternalTools
open Bool (noConfusion not_eq_true)

/-! ## Runs -/

/-- The scanner after some characters. -/
def run (s : Scanner) (cs : List Character) : Option Scanner := cs.foldlM Scanner.eat s

theorem run_nil (s : Scanner) : run s [] = some s := rfl

theorem run_cons (s : Scanner) (c : Character) (cs : List Character) :
    run s (c :: cs) = (s.eat c).bind fun s => run s cs := foldlM_cons

theorem run_append (s : Scanner) (cs cs' : List Character) :
    run s (cs ++ cs') = (run s cs).bind fun s => run s cs' := foldlM_append

theorem run_concat (s : Scanner) (cs : List Character) (c : Character) :
    run s (cs ++ [c]) = (run s cs).bind fun s => s.eat c := by
  rw [run_append]
  congr 1
  funext s
  rw [run_cons]
  cases s.eat c <;> rfl

theorem scan_eq_run (cs : List Character) (prev position : Nat) (s s' : Scanner) :
    (∃ last, scan prev position s cs = .ok (last, s')) ↔ run s cs = some s' := by
  induction cs generalizing prev position s with
  | nil =>
    constructor
    · rintro ⟨last, h⟩
      rw [run_nil, (Prod.mk.inj (Except.ok.inj h)).2]
    · intro h
      exact ⟨prev, by rw [← some.inj h]; rfl⟩
  | cons c cs ih =>
    rw [run_cons]
    unfold scan
    cases hnext : s.eat c with
    | none => exact iff_of_false (fun ⟨_, h⟩ => nomatch h) (fun h => nomatch h)
    | some next => exact ih position (position + c.size) next

/-- A string that is accepted, with the scanner at its end. -/
theorem eatSource_eq_ok_iff (source : Bytes) (entries : List Entry) :
    eatSource source = .ok entries ↔ ∃ s, run {} (characters source) = some s ∧
      s.placeholder = false ∧ entries = s.finish := by
  unfold eatSource
  constructor
  · intro h
    cases hscan : scan 0 0 {} (characters source) with
    | error position =>
      rw [hscan] at h
      cases h
    | ok result =>
      obtain ⟨prev, s⟩ := result
      rw [hscan] at h
      dsimp only at h
      by_cases hplaceholder : s.placeholder
      · rw [if_pos hplaceholder] at h
        cases h
      · rw [if_neg hplaceholder] at h
        exact ⟨s, (scan_eq_run _ _ _ _ _).mp ⟨prev, hscan⟩, Bool.eq_false_of_not_eq_true hplaceholder,
          (Except.ok.inj h).symm⟩
  · rintro ⟨s, hrun, hplaceholder, rfl⟩
    obtain ⟨last, hscan⟩ := (scan_eq_run (characters source) 0 0 {} s).mpr hrun
    rw [hscan]
    dsimp only
    rw [hplaceholder, if_neg Bool.false_ne_true]

/-! ## One character -/

def Entry.isLimit (entry : Entry) : Bool :=
  match entry.param with
  | .setMaximumFiles _ => true
  | _ => false

/-- The parameters that become steps. -/
def stepsOf (entries : List Entry) : List Entry := entries.filter fun entry => !entry.isLimit

/-- A space that is neither in a prompt nor part of a switch. -/
def Plain (s : Scanner) (c : Character) : Prop :=
  c = space ∧ s.inPrompt = false ∧ s.placeholder = false

/-- Nothing is left of an earlier placeholder. -/
structure Scanner.Idle (s : Scanner) : Prop where
  number : s.number = none
  prompt : s.prompt = none
  minus : s.minus = false
  list : s.list = false

/-- What is known between two characters. -/
structure Scanner.Sound (s : Scanner) : Prop where
  text : s.userDefined ≠ none → s.placeholder = false
  prompt : s.inPrompt = true → s.placeholder = true ∧ s.prompt ≠ none
  idle : s.placeholder = false → s.Idle

theorem Scanner.Sound.start : ({} : Scanner).Sound :=
  ⟨fun h => absurd rfl h, fun h => noConfusion h, fun _ => ⟨rfl, rfl, rfl, rfl⟩⟩

theorem closeLast_concat (entries : List Entry) (entry : Entry) :
    closeLast (entries ++ [entry]) = entries ++ [{ entry with isPartial := false }] := by
  induction entries with
  | nil => rfl
  | cons first entries ih =>
    cases entries with
    | nil => rfl
    | cons second entries => exact congrArg (first :: ·) ih

namespace Scanner

variable {s s' : Scanner} {c : Character}

theorem flush_cases (s : Scanner) (c : Character) :
    (s.flush c = s ∧ (s.userDefined ≠ none → ¬((c.char = 0x25 ∨ c.char = 0x20) ∧ c.escaped = false))) ∨
      ∃ text, s.userDefined = some text ∧ ((c.char = 0x25 ∨ c.char = 0x20) ∧ c.escaped = false) ∧
        s.flush c = { s.push (.userDefined text) true with userDefined := none } := by
  unfold flush
  cases htext : s.userDefined with
  | none => exact .inl ⟨rfl, fun h => absurd rfl h⟩
  | some text =>
    split_ifs with hend
    · exact .inr ⟨text, rfl, hend, rfl⟩
    · exact .inl ⟨rfl, fun _ => hend⟩

/-- What a character inside a placeholder does. -/
inductive InPlaceholder (s : Scanner) : UInt8 → Scanner → Prop where
  | digit {char : UInt8} : isDigit char = true →
      InPlaceholder s char { s with number := some (s.number.getD 0 * 10 + char.toUInt32 - 0x30) }
  | minus : InPlaceholder s 0x2D { s with minus := true }
  | list : InPlaceholder s 0x4C { s with list := true }
  | prompt : InPlaceholder s 0x22 { s with prompt := some [], inPrompt := true }
  | step {char : UInt8} {param : ParametersVariant} : isDigit char = false → char ≠ 0x54 →
      (Entry.mk param true).isLimit = false → InPlaceholder s char (s.terminal param true)
  | limit {number : UInt32} : s.number = some number → s.prompt = none → s.minus = false →
      s.list = false → InPlaceholder s 0x54 (s.terminal (.setMaximumFiles number) false)
  | switch : s.minus = true →
      InPlaceholder s 0x20 { s with leftRight := !s.leftRight }.resetPlaceholder

theorem eatCurrentItem_cases (hdigit : isDigit char = false) (hchar : char ≠ 0x54)
    (h : s.eatCurrentItem what = some s') : InPlaceholder s char s' := by
  unfold eatCurrentItem at h
  split at h
  · cases h
  · rw [← some.inj h]
    exact .step hdigit hchar rfl

theorem eatSelectedItems_cases (hdigit : isDigit char = false) (hchar : char ≠ 0x54)
    (h : s.eatSelectedItems what = some s') : InPlaceholder s char s' := by
  unfold eatSelectedItems at h
  split at h
  · cases h
  · rw [← some.inj h]
    exact .step hdigit hchar rfl

theorem eatPlaceholder_cases (h : s.eatPlaceholder char = some s') : InPlaceholder s char s' := by
  unfold eatPlaceholder at h
  by_cases hdigit : isDigit char
  · rw [if_pos hdigit] at h
    rw [← some.inj h]
    exact .digit hdigit
  rw [if_neg hdigit] at h
  rw [not_eq_true] at hdigit
  by_cases hminus : char = 0x2D
  · rw [if_pos hminus] at h
    split at h
    · cases h
    · rw [← some.inj h, hminus]
      exact .minus
  rw [if_neg hminus] at h
  by_cases hlist : char = 0x4C
  · rw [if_pos hlist] at h
    split at h
    · cases h
    · rw [← some.inj h, hlist]
      exact .list
  rw [if_neg hlist] at h
  by_cases hprompt : char = 0x22
  · rw [if_pos hprompt] at h
    split at h
    · cases h
    · rw [← some.inj h, hprompt]
      exact .prompt
  rw [if_neg hprompt] at h
  by_cases hlimit : char = 0x54
  · subst hlimit
    rw [if_pos rfl] at h
    cases hnumber : s.number with
    | none =>
      rw [hnumber] at h
      cases h
    | some number =>
      rw [hnumber] at h
      dsimp only at h
      by_cases hbad : s.prompt.isSome ∨ s.minus ∨ s.list
      · rw [if_pos hbad] at h
        cases h
      · rw [if_neg hbad] at h
        rw [not_or, not_or, not_isSome_iff_eq_none, not_eq_true, not_eq_true] at hbad
        rw [← some.inj h]
        exact .limit hnumber hbad.1 hbad.2.1 hbad.2.2
  split at h
  · split at h
    · cases h
    · rw [← some.inj h]
      exact .step hdigit hlimit rfl
  iterate 5
    split at h
    · exact eatCurrentItem_cases hdigit hlimit h
  iterate 2
    split at h
    · exact eatSelectedItems_cases hdigit hlimit h
  split at h
  · rename_i hswitch
    rw [← some.inj h, hswitch.1]
    exact .switch hswitch.2.1
  · cases h

/-- What a character does once an argument that it ends was flushed. -/
inductive Eaten (s : Scanner) (c : Character) : Scanner → Prop where
  | text {text : Bytes} : s.userDefined = some text →
      Eaten s c { s with userDefined := some (text ++ [c.char]) }
  | endPrompt : s.userDefined = none → s.inPrompt = true → Eaten s c { s with inPrompt := false }
  | prompt : s.userDefined = none → s.inPrompt = true →
      Eaten s c { s with prompt := s.prompt.map (· ++ [c.char]) }
  | start : s.userDefined = none → s.inPrompt = false → s.placeholder = false → c = percent →
      Eaten s c { s with placeholder := true }
  | placeholder {s' : Scanner} : s.userDefined = none → s.inPrompt = false → s.placeholder = true →
      InPlaceholder s c.char s' → Eaten s c s'
  | close : s.userDefined = none → s.inPrompt = false → s.placeholder = false → c = space →
      Eaten s c { s with result := closeLast s.result }
  | first : s.userDefined = none → s.inPrompt = false → s.placeholder = false → c ≠ space →
      c ≠ percent → Eaten s c { s with userDefined := some [c.char] }

theorem eatFlushed_cases (h : s.eatFlushed c = some s') : Eaten s c s' := by
  obtain ⟨userDefined, result, leftRight, number, prompt, placeholder, minus, list, inPrompt⟩ := s
  unfold eatFlushed at h
  cases userDefined with
  | some text =>
    rw [← some.inj h]
    exact .text rfl
  | none =>
    dsimp only at h
    by_cases hprompt : inPrompt
    · rw [if_pos hprompt] at h
      split at h
      · rw [← some.inj h]
        exact .endPrompt rfl hprompt
      · rw [← some.inj h]
        exact .prompt rfl hprompt
    · rw [if_neg hprompt] at h
      have hprompt' := Bool.eq_false_of_not_eq_true hprompt
      by_cases hstart : c.char = 0x25 ∧ placeholder = false ∧ c.escaped = false
      · rw [if_pos hstart] at h
        rw [← some.inj h]
        refine .start rfl hprompt' hstart.2.1 ?_
        cases c
        exact congrArg₂ Character.mk hstart.1 hstart.2.2
      · rw [if_neg hstart] at h
        by_cases hbad : c.char = 0x25 ∧ placeholder
        · rw [if_pos hbad] at h
          cases h
        · rw [if_neg hbad] at h
          by_cases hplaceholder : placeholder
          · rw [if_pos hplaceholder] at h
            exact .placeholder rfl hprompt' hplaceholder (eatPlaceholder_cases h)
          · have hplaceholder' := Bool.eq_false_of_not_eq_true hplaceholder
            have hspace : c = space ↔ c.char = 0x20 ∧ c.escaped = false := by
              cases c
              exact Character.mk.injEq .. ▸ Iff.rfl
            split_ifs at h with hclose
            · rw [← some.inj h]
              exact .close rfl hprompt' hplaceholder' (hspace.mpr hclose)
            · rw [← some.inj h]
              refine .first rfl hprompt' hplaceholder' (mt hspace.mp hclose) fun hpercent => hstart ?_
              rw [hpercent]
              exact ⟨rfl, hplaceholder', rfl⟩

theorem Idle.of_eq {f : Scanner} (h : f.Idle) (hnumber : s.number = f.number)
    (hprompt : s.prompt = f.prompt) (hminus : s.minus = f.minus) (hlist : s.list = f.list) : s.Idle :=
  ⟨hnumber.trans h.number, hprompt.trans h.prompt, hminus.trans h.minus, hlist.trans h.list⟩

theorem Eaten.sound {f : Scanner} (h : Eaten f c s') (hsound : f.Sound) : s'.Sound := by
  cases h with
  | text htext =>
    have hplaceholder := hsound.text (by rw [htext]; exact some_ne_none _)
    exact ⟨fun _ => hplaceholder, hsound.prompt, fun h => (hsound.idle h).of_eq rfl rfl rfl rfl⟩
  | endPrompt htext hprompt =>
    have hplaceholder := (hsound.prompt hprompt).1
    exact ⟨hsound.text, fun h => noConfusion h, fun h => noConfusion (hplaceholder.symm.trans h)⟩
  | prompt htext hprompt =>
    obtain ⟨hplaceholder, hsome⟩ := hsound.prompt hprompt
    refine ⟨hsound.text, fun _ => ⟨hplaceholder, ?_⟩,
      fun h => noConfusion (hplaceholder.symm.trans h)⟩
    exact mt map_eq_none_iff.mp hsome
  | start htext hprompt =>
    exact ⟨fun h => absurd htext h, fun h => noConfusion (hprompt.symm.trans h),
      fun h => noConfusion h⟩
  | close htext =>
    exact ⟨hsound.text, hsound.prompt, fun h => (hsound.idle h).of_eq rfl rfl rfl rfl⟩
  | first htext hprompt hplaceholder =>
    exact ⟨fun _ => hplaceholder, hsound.prompt, fun h => (hsound.idle h).of_eq rfl rfl rfl rfl⟩
  | placeholder htext hprompt hplaceholder hstep =>
    generalize c.char = char at hstep
    cases hstep with
    | digit | minus | list =>
      exact ⟨hsound.text, hsound.prompt, fun h => noConfusion (hplaceholder.symm.trans h)⟩
    | prompt =>
      exact ⟨fun h => absurd htext h, fun _ => ⟨hplaceholder, some_ne_none _⟩,
        fun h => noConfusion (hplaceholder.symm.trans h)⟩
    | step | limit | switch =>
      exact ⟨fun _ => rfl, fun h => noConfusion h, fun _ => ⟨rfl, rfl, rfl, rfl⟩⟩

theorem flush_sound (h : s.Sound) (c : Character) : (s.flush c).Sound := by
  obtain ⟨hsame, -⟩ | ⟨text, -, -, hflushed⟩ := flush_cases s c
  · rw [hsame]
    exact h
  · rw [hflushed]
    exact ⟨fun hne => absurd rfl hne, h.prompt, fun hidle => (h.idle hidle).of_eq rfl rfl rfl rfl⟩

theorem eat_sound (h : s.Sound) (heat : s.eat c = some s') : s'.Sound :=
  (eatFlushed_cases heat).sound (flush_sound h c)

end Scanner

variable {cs : List Character} {s : Scanner}

theorem run_sound (h : run {} cs = some s) : s.Sound := by
  induction cs using reverseRecOn generalizing s with
  | nil =>
    rw [← some.inj h]
    exact .start
  | append_singleton cs c ih =>
    rw [run_concat] at h
    obtain ⟨before, hbefore, heat⟩ := bind_eq_some_iff.mp h
    exact eat_sound (ih hbefore) heat

/-! ## Complete parameters -/

/-- A parameter is open when it is added, and a limit never is. -/
def Grows (entries entries' : List Entry) : Prop :=
  entries' = entries ∨ ∃ entry, entries' = entries ++ [entry] ∧ entry.isPartial = !entry.isLimit

namespace Scanner

variable {s s' : Scanner} {c : Character}

theorem flush_grows (s : Scanner) (c : Character) : Grows s.result (s.flush c).result := by
  obtain ⟨hsame, -⟩ | ⟨text, -, -, hflushed⟩ := flush_cases s c
  · exact .inl (congrArg result hsame)
  · exact .inr ⟨⟨.userDefined text, true⟩, by rw [hflushed]; rfl, rfl⟩

theorem plain_flush (s : Scanner) (c : Character) : Plain (s.flush c) c ↔ Plain s c := by
  obtain ⟨hsame, -⟩ | ⟨text, -, -, hflushed⟩ := flush_cases s c
  · rw [hsame]
  · rw [hflushed]
    exact Iff.rfl

theorem flush_space (s : Scanner) : (s.flush space).userDefined = none := by
  obtain ⟨hsame, hopen⟩ | ⟨text, -, -, hflushed⟩ := flush_cases s space
  · rw [hsame]
    by_contra htext
    exact hopen htext ⟨.inr rfl, rfl⟩
  · rw [hflushed]

theorem InPlaceholder.grows (h : InPlaceholder s char s') : Grows s.result s'.result := by
  cases h with
  | digit | minus | list | prompt | switch => exact .inl rfl
  | step _ _ hstep => exact .inr ⟨_, rfl, by rw [hstep]; rfl⟩
  | limit => exact .inr ⟨_, rfl, rfl⟩

/-- A plain space completes the last parameter; other characters add one at most. -/
theorem eat_cases (heat : s.eat c = some s') :
    (Plain s c ∧ s'.result = closeLast (s.flush c).result) ∨
      (¬Plain s c ∧ Grows (s.flush c).result s'.result) := by
  rw [← plain_flush s c]
  cases eatFlushed_cases heat with
  | text htext =>
    refine .inr ⟨fun hplain => ?_, .inl rfl⟩
    rw [hplain.1, flush_space] at htext
    cases htext
  | endPrompt _ hprompt =>
    exact .inr ⟨fun hplain => noConfusion (hprompt.symm.trans hplain.2.1), .inl rfl⟩
  | prompt _ hprompt => exact .inr ⟨fun hplain => noConfusion (hprompt.symm.trans hplain.2.1), .inl rfl⟩
  | start _ _ _ hstart => exact .inr ⟨fun hplain => absurd (hstart.symm.trans hplain.1) (by decide), .inl rfl⟩
  | placeholder _ _ hplaceholder hstep =>
    exact .inr ⟨fun hplain => noConfusion (hplaceholder.symm.trans hplain.2.2), hstep.grows⟩
  | close _ hprompt hplaceholder hspace => exact .inl ⟨⟨hspace, hprompt, hplaceholder⟩, rfl⟩
  | first _ _ _ hspace _ => exact .inr ⟨fun hplain => hspace hplain.1, .inl rfl⟩

end Scanner

/-- The last parameter is a step, with this number counted from one. -/
def Ends (entries : List Entry) (k : Nat) : Prop :=
  (stepsOf entries).length = k ∧ ∃ entry, entries.getLast? = some entry ∧ entry.isLimit = false

/-- A space right behind a step, which is not part of a switch; the step is the last before it. -/
def ClosesIn (cs : List Character) (k : Nat) : Prop :=
  ∃ before after s s', cs = before ++ space :: after ∧ run {} before = some s ∧ s.inPrompt = false ∧
    s.placeholder = false ∧ s.eat space = some s' ∧ Ends s'.result k

theorem closesIn_nil (k : Nat) : ¬ClosesIn [] k := by
  rintro ⟨before, after, _, _, hcs, -⟩
  exact append_ne_nil_of_right_ne_nil before (cons_ne_nil _ _) hcs.symm

theorem closesIn_concat (hrun : run {} cs = some s) (heat : s.eat c = some s') (k : Nat) :
    ClosesIn (cs ++ [c]) k ↔ ClosesIn cs k ∨ Plain s c ∧ Ends s'.result k := by
  constructor
  · rintro ⟨before, after, s₁, s₁', hcs, hbefore, hprompt, hplaceholder, heat₁, hends⟩
    obtain rfl | ⟨rest, last, rfl⟩ := eq_nil_or_concat after
    · obtain ⟨rfl, hlast⟩ := append_inj' hcs rfl
      obtain rfl := singleton_inj.mp hlast
      obtain rfl := some.inj (hrun.symm.trans hbefore)
      obtain rfl := some.inj (heat.symm.trans heat₁)
      exact .inr ⟨⟨rfl, hprompt, hplaceholder⟩, hends⟩
    · rw [concat_eq_append, ← cons_append, ← append_assoc] at hcs
      obtain ⟨hcs', -⟩ := append_inj' hcs rfl
      exact .inl ⟨before, rest, s₁, s₁', hcs', hbefore, hprompt, hplaceholder, heat₁, hends⟩
  · rintro (⟨before, after, s₁, s₁', rfl, hbefore, hprompt, hplaceholder, heat₁, hends⟩ |
      ⟨⟨rfl, hprompt, hplaceholder⟩, hends⟩)
    · refine ⟨before, after ++ [c], s₁, s₁', ?_, hbefore, hprompt, hplaceholder, heat₁, hends⟩
      rw [append_assoc]
      rfl
    · exact ⟨cs, [], s, s', rfl, hrun, hprompt, hplaceholder, heat, hends⟩

/-- A step is complete exactly if it was closed. -/
structure Complete (closed : Nat → Prop) (entries : List Entry) : Prop where
  bound : ∀ k, closed k → k ≤ (stepsOf entries).length
  complete : ∀ j entry, (stepsOf entries)[j]? = some entry → (entry.isPartial = false ↔ closed (j + 1))

theorem stepsOf_concat (entries : List Entry) (entry : Entry) : stepsOf (entries ++ [entry]) =
      stepsOf entries ++ (if entry.isLimit then [] else [entry]) := by
  unfold stepsOf
  rw [filter_append, filter_cons, filter_nil]
  cases entry.isLimit <;> rfl

theorem Complete.grows (h : Complete closed entries) (hgrows : Grows entries entries')
    : Complete closed entries' := by
  obtain rfl | ⟨entry, rfl, hlast⟩ := hgrows
  · exact h
  · cases hlimit : entry.isLimit with
    | true =>
      have hsteps : stepsOf (entries ++ [entry]) = stepsOf entries := by
        rw [stepsOf_concat, hlimit, if_pos rfl, append_nil]
      exact ⟨fun k hk => hsteps ▸ h.bound k hk, fun j other hj => h.complete j other (hsteps ▸ hj)⟩
    | false =>
      have hsteps : stepsOf (entries ++ [entry]) = stepsOf entries ++ [entry] := by
        rw [stepsOf_concat, hlimit, if_neg Bool.false_ne_true]
      rw [hlimit] at hlast
      refine ⟨fun k hk => ?_, fun j other hj => ?_⟩
      · rw [hsteps, length_append]
        exact Nat.le_add_right_of_le (h.bound k hk)
      · rw [hsteps] at hj
        by_cases hold : j < (stepsOf entries).length
        · rw [List.getElem?_append_left hold] at hj
          exact h.complete j other hj
        · rw [List.getElem?_append_right (Nat.not_lt.mp hold)] at hj
          obtain ⟨hzero, rfl⟩ : j - (stepsOf entries).length = 0 ∧ entry = other := by
            cases hindex : j - (stepsOf entries).length with
            | zero =>
              rw [hindex] at hj
              exact ⟨rfl, some.inj hj⟩
            | succ n =>
              rw [hindex] at hj
              cases hj
          rw [hlast]
          refine iff_of_false (fun h => nomatch h) fun hclosed => ?_
          exact hold (h.bound (j + 1) hclosed)

variable {entries : List Entry}

/-- The last step of a list with that step at its end. -/
theorem Complete.closeLast (h : Complete closed entries)
    (hclosed : ∀ k, closed' k ↔ closed k ∨ Ends (closeLast entries) k) :
    Complete closed' (closeLast entries) := by
  obtain rfl | ⟨init, entry, rfl⟩ := eq_nil_or_concat entries
  · refine ⟨fun k hk => ?_, fun j other hj => nomatch hj⟩
    obtain hold | ⟨-, last, hlast, -⟩ := (hclosed k).mp hk
    · exact h.bound k hold
    · cases hlast
  · rw [concat_eq_append] at h hclosed ⊢
    rw [closeLast_concat] at hclosed ⊢
    have hkind : ({ entry with isPartial := false } : Entry).isLimit = entry.isLimit := rfl
    cases hlimit : entry.isLimit with
    | true =>
      have hsteps : stepsOf (init ++ [{ entry with isPartial := false }]) = stepsOf (init ++ [entry]) := by
        rw [stepsOf_concat, stepsOf_concat, hkind, hlimit, if_pos rfl, if_pos rfl]
      have hsame : ∀ k, closed' k ↔ closed k := by
        intro k
        rw [hclosed k, or_iff_left]
        rintro ⟨-, last, hlast, hstep⟩
        rw [List.getLast?_concat] at hlast
        obtain rfl := some.inj hlast
        rw [hkind, hlimit] at hstep
        cases hstep
      refine ⟨fun k hk => ?_, fun j other hj => ?_⟩
      · rw [hsteps]
        exact h.bound k ((hsame k).mp hk)
      · rw [hsteps] at hj
        rw [hsame]
        exact h.complete j other hj
    | false =>
      have hsteps : stepsOf (init ++ [{ entry with isPartial := false }]) =
          stepsOf init ++ [{ entry with isPartial := false }] := by
        rw [stepsOf_concat, hkind, hlimit, if_neg Bool.false_ne_true]
      have hsteps' : stepsOf (init ++ [entry]) = stepsOf init ++ [entry] := by
        rw [stepsOf_concat, hlimit, if_neg Bool.false_ne_true]
      have hends : ∀ k, Ends (init ++ [{ entry with isPartial := false }]) k ↔
          k = (stepsOf init).length + 1 := by
        intro k
        unfold Ends
        rw [hsteps, length_append, length_singleton]
        constructor
        · exact fun hk => hk.1.symm
        · exact fun hk => ⟨hk.symm, _, List.getLast?_concat, hkind.trans hlimit⟩
      refine ⟨fun k hk => ?_, fun j other hj => ?_⟩
      · rw [hsteps, length_append, length_singleton]
        obtain hold | hnew := (hclosed k).mp hk
        · have hbound := h.bound k hold
          rw [hsteps', length_append, length_singleton] at hbound
          exact hbound
        · exact Nat.le_of_eq ((hends k).mp hnew)
      · rw [hclosed, hends]
        rw [hsteps] at hj
        by_cases hold : j < (stepsOf init).length
        · rw [List.getElem?_append_left hold] at hj
          rw [or_iff_left (by omega)]
          refine h.complete j other ?_
          rw [hsteps', List.getElem?_append_left hold]
          exact hj
        · rw [List.getElem?_append_right (Nat.not_lt.mp hold)] at hj
          cases hindex : j - (stepsOf init).length with
          | succ n =>
            rw [hindex] at hj
            cases hj
          | zero =>
            rw [hindex] at hj
            rw [← some.inj hj]
            exact iff_of_true rfl (.inr (by omega))

theorem complete_of_run (hrun : run {} cs = some s) : Complete (ClosesIn cs) s.result := by
  induction cs using reverseRecOn generalizing s with
  | nil =>
    rw [← some.inj hrun]
    exact ⟨fun k hk => absurd hk (closesIn_nil k), fun j entry hj => nomatch hj⟩
  | append_singleton cs c ih =>
    rw [run_concat] at hrun
    obtain ⟨before, hbefore, heat⟩ := bind_eq_some_iff.mp hrun
    have hflushed := (ih hbefore).grows (before.flush_grows c)
    obtain ⟨hplain, hresult⟩ | ⟨hplain, hgrows⟩ := eat_cases heat
    · rw [hresult]
      refine hflushed.closeLast fun k => ?_
      rw [closesIn_concat hbefore heat, and_iff_right hplain, hresult]
    · have hsame : ClosesIn (cs ++ [c]) = ClosesIn cs := by
        funext k
        rw [closesIn_concat hbefore heat, or_iff_left fun h => hplain h.1]
      rw [hsame]
      exact hflushed.grows hgrows

/-- The end of the string changes nothing but the last step. -/
theorem stepsOf_closeLast (entries : List Entry) (hj : j + 1 < (stepsOf (closeLast entries)).length) :
    (stepsOf (closeLast entries))[j]? = (stepsOf entries)[j]? := by
  obtain rfl | ⟨init, entry, rfl⟩ := eq_nil_or_concat entries
  · rfl
  · rw [concat_eq_append, closeLast_concat] at hj ⊢
    rw [stepsOf_concat] at hj ⊢
    rw [stepsOf_concat]
    have hkind : ({ entry with isPartial := false } : Entry).isLimit = entry.isLimit := rfl
    rw [hkind] at hj ⊢
    cases hlimit : entry.isLimit with
    | true => rfl
    | false =>
      rw [hlimit, if_neg Bool.false_ne_true, length_append, length_singleton] at hj
      rw [if_neg Bool.false_ne_true, if_neg Bool.false_ne_true,
        List.getElem?_append_left (by omega), List.getElem?_append_left (by omega)]

/-- What comes after a step is appended to it unless a space is right behind the step. -/
theorem partial_iff (h : eatSource source = .ok entries) (hj : (stepsOf entries)[j]? = some entry)
    (hnext : j + 1 < (stepsOf entries).length) :
    entry.isPartial = false ↔ ClosesIn (characters source) (j + 1) := by
  obtain ⟨s, hrun, -, rfl⟩ := (eatSource_eq_ok_iff source entries).mp h
  have hcomplete := complete_of_run hrun
  unfold finish at hj hnext
  rw [stepsOf_closeLast _ hnext] at hj
  cases htext : s.userDefined with
  | none =>
    rw [htext] at hj
    refine hcomplete.complete j entry ?_
    rw [map_none, toList_none, append_nil] at hj
    exact hj
  | some text =>
    rw [htext, map_some, toList_some] at hj hnext
    rw [closeLast_concat, stepsOf_concat] at hnext
    rw [stepsOf_concat] at hj
    have hlength : j + 1 < (stepsOf s.result).length + 1 := by
      rw [length_append] at hnext
      exact hnext
    rw [List.getElem?_append_left (Nat.lt_of_succ_lt_succ hlength)] at hj
    exact hcomplete.complete j entry hj

/-! ## Limits -/

/-- The limits that were set. -/
def limitsOf (entries : List Entry) : List UInt32 :=
  entries.filterMap fun entry =>
    match entry.param with
    | .setMaximumFiles maximum => some maximum
    | _ => none

theorem limitsOf_append (entries entries' : List Entry) :
    limitsOf (entries ++ entries') = limitsOf entries ++ limitsOf entries' := filterMap_append

theorem limitsOf_step (h : entry.isLimit = false) : limitsOf [entry] = [] := by
  obtain ⟨param, isPartial⟩ := entry
  cases param with
  | setMaximumFiles => cases h
  | userDefined | enterValue | currentItem | selectedItems => rfl

theorem limitsOf_closeLast (entries : List Entry) : limitsOf (closeLast entries) = limitsOf entries := by
  obtain rfl | ⟨init, entry, rfl⟩ := eq_nil_or_concat entries
  · rfl
  · rw [concat_eq_append, closeLast_concat, limitsOf_append, limitsOf_append]
    rfl

/-- The number that digits spell. -/
def digitsValue (digits : List Character) : Nat :=
  digits.foldl (fun value digit => value * 10 + (digit.char.toNat - 0x30)) 0

/-- What is kept of it. -/
def numberOf (digits : List Character) : Option UInt32 :=
  if digits = [] then none else some (UInt32.ofNat (digitsValue digits))

theorem digitsValue_concat (digits : List Character) (digit : Character) :
    digitsValue (digits ++ [digit]) = digitsValue digits * 10 + (digit.char.toNat - 0x30) :=
  foldl_concat ..

theorem numberOf_concat (digits : List Character) (h : isDigit digit.char) :
    some ((numberOf digits).getD 0 * 10 + digit.char.toUInt32 - 0x30) = numberOf (digits ++ [digit]) := by
  have hlow : 0x30 ≤ digit.char.toNat := by
    unfold isDigit at h
    rw [Bool.and_eq_true, decide_eq_true_eq, UInt8.le_iff_toNat_le] at h
    exact h.1
  have hstart : (numberOf digits).getD 0 = UInt32.ofNat (digitsValue digits) := by
    unfold numberOf
    split_ifs with hempty
    · rw [hempty]
      rfl
    · rfl
  have hchar : digit.char.toUInt32 = UInt32.ofNat (digit.char.toNat - 0x30) + 0x30 := by
    rw [← UInt32.toNat_inj, UInt32.toNat_add, UInt8.toNat_toUInt32, UInt32.toNat_ofNat']
    have hlt := digit.char.toNat_lt
    show digit.char.toNat = ((digit.char.toNat - 0x30) % 2 ^ 32 + 0x30) % 2 ^ 32
    omega
  unfold numberOf at hstart ⊢
  rw [if_neg (concat_ne_nil digit digits), hstart, hchar,
    digitsValue_concat, UInt32.ofNat_add, UInt32.ofNat_mul, ← UInt32.add_assoc, UInt32.add_sub_cancel]
  rfl

/-- Digits right behind the start of a placeholder. -/
def Opened (before digits : List Character) : Prop :=
  (∀ digit ∈ digits, isDigit digit.char = true) ∧
    ∃ s, run {} before = some s ∧ s.inPrompt = false ∧ s.placeholder = false

/-- `%nT`, where it starts and what the digits spell. -/
def SetsLimitAt (cs : List Character) (p n : Nat) : Prop :=
  ∃ before digits escaped after, cs = before ++ percent :: (digits ++ ⟨0x54, escaped⟩ :: after) ∧
    digits ≠ [] ∧ Opened before digits ∧ p = before.length ∧ n = digitsValue digits

/-- A placeholder that has digits only. -/
structure Scanner.InDigits (s : Scanner) (number : Option UInt32) : Prop where
  text : s.userDefined = none
  inPrompt : s.inPrompt = false
  placeholder : s.placeholder = true
  number : s.number = number
  prompt : s.prompt = none
  minus : s.minus = false
  list : s.list = false

theorem Scanner.flush_none (h : s.userDefined = none) (c : Character) : s.flush c = s := by
  unfold flush
  rw [h]

theorem opened_run (h : Opened before digits) (hrun : run {} (before ++ percent :: digits) = some s)
    : s.InDigits (numberOf digits) := by
  induction digits using reverseRecOn generalizing s with
  | nil =>
    obtain ⟨-, s₀, hbefore, hprompt, hplaceholder⟩ := h
    rw [run_concat, hbefore] at hrun
    have hsound := run_sound hbefore
    have hflushed := flush_sound hsound percent
    have hkept : (s₀.flush percent).inPrompt = false ∧ (s₀.flush percent).placeholder = false := by
      obtain ⟨hsame, -⟩ | ⟨text, -, -, hpushed⟩ := flush_cases s₀ percent
      · rw [hsame]
        exact ⟨hprompt, hplaceholder⟩
      · rw [hpushed]
        exact ⟨hprompt, hplaceholder⟩
    have hidle := hflushed.idle hkept.2
    cases eatFlushed_cases hrun with
    | text htext =>
      obtain ⟨hsame, hopen⟩ | ⟨text, -, -, hpushed⟩ := flush_cases s₀ percent
      · rw [hsame] at htext
        exact absurd ⟨.inl rfl, rfl⟩ (hopen (by rw [htext]; exact some_ne_none _))
      · rw [hpushed] at htext
        cases htext
    | endPrompt _ hbad => exact nomatch hbad.symm.trans hkept.1
    | prompt _ hbad => exact nomatch hbad.symm.trans hkept.1
    | placeholder _ _ hbad => exact nomatch hbad.symm.trans hkept.2
    | close _ _ _ hbad => cases hbad
    | first _ _ _ _ hbad => exact absurd rfl hbad
    | start htext =>
      exact ⟨htext, hkept.1, rfl, hidle.number, hidle.prompt, hidle.minus, hidle.list⟩
  | append_singleton digits digit ih =>
    obtain ⟨hdigits, hstart⟩ := h
    rw [forall_mem_append, forall_mem_singleton] at hdigits
    rw [← cons_append, ← append_assoc, run_concat] at hrun
    obtain ⟨s₁, hrun₁, heat⟩ := bind_eq_some_iff.mp hrun
    have hs₁ := ih ⟨hdigits.1, hstart⟩ hrun₁
    have hflush := flush_none hs₁.text digit
    have heaten := eatFlushed_cases heat
    rw [hflush] at heaten
    cases heaten with
    | text htext => exact nomatch htext.symm.trans hs₁.text
    | endPrompt _ hbad => exact nomatch hbad.symm.trans hs₁.inPrompt
    | prompt _ hbad => exact nomatch hbad.symm.trans hs₁.inPrompt
    | start _ _ hbad => exact nomatch hbad.symm.trans hs₁.placeholder
    | close _ _ hbad => exact nomatch hbad.symm.trans hs₁.placeholder
    | first _ _ hbad => exact nomatch hbad.symm.trans hs₁.placeholder
    | placeholder _ _ _ hstep =>
      have hdigit := hdigits.2
      have hnumber := numberOf_concat digits hdigit
      generalize digit.char = char at hstep hdigit hnumber
      cases hstep with
      | digit =>
        rw [hs₁.number]
        exact ⟨hs₁.text, hs₁.inPrompt, hs₁.placeholder, hnumber, hs₁.prompt, hs₁.minus, hs₁.list⟩
      | step hbad => exact nomatch hbad.symm.trans hdigit
      | minus | list | prompt | limit | switch => cases hdigit

/-- A placeholder without flags and a prompt has digits only. -/
theorem opened_of_run (hrun : run {} cs = some s) (hplaceholder : s.placeholder)
    (hinPrompt : s.inPrompt = false) (hprompt : s.prompt = none) (hminus : s.minus = false)
    (hlist : s.list = false) :
    ∃ before digits, cs = before ++ percent :: digits ∧ Opened before digits := by
  induction cs using reverseRecOn generalizing s with
  | nil =>
    rw [← some.inj hrun] at hplaceholder
    cases hplaceholder
  | append_singleton cs c ih =>
    rw [run_concat] at hrun
    obtain ⟨s₁, hrun₁, heat⟩ := bind_eq_some_iff.mp hrun
    have hsound := run_sound hrun₁
    have hflushed := flush_sound hsound c
    cases eatFlushed_cases heat with
    | text htext =>
      have hidle := hflushed.text (by rw [htext]; exact some_ne_none _)
      exact nomatch hidle.symm.trans hplaceholder
    | endPrompt _ hbad => exact absurd hprompt (hflushed.prompt hbad).2
    | prompt _ hbad => exact nomatch hbad.symm.trans hinPrompt
    | close _ _ hbad => exact nomatch hbad.symm.trans hplaceholder
    | first _ _ hbad => exact nomatch hbad.symm.trans hplaceholder
    | start htext _ hidle hpercent =>
      refine ⟨cs, [], ?_, fun _ h => absurd h not_mem_nil, s₁, hrun₁, ?_, ?_⟩
      · rw [hpercent]
      · obtain ⟨hsame, -⟩ | ⟨text, -, -, hpushed⟩ := flush_cases s₁ c
        · rw [hsame] at hinPrompt
          exact hinPrompt
        · rw [hpushed] at hinPrompt
          exact hinPrompt
      · obtain ⟨hsame, -⟩ | ⟨text, -, -, hpushed⟩ := flush_cases s₁ c
        · rw [hsame] at hidle
          exact hidle
        · rw [hpushed] at hidle
          exact hidle
    | placeholder _ _ hopen hstep =>
      have hflush : s₁.flush c = s₁ := by
        obtain ⟨hsame, -⟩ | ⟨text, htext, -, hpushed⟩ := flush_cases s₁ c
        · exact hsame
        · have hidle := hsound.text (by rw [htext]; exact some_ne_none _)
          rw [hpushed] at hopen
          exact nomatch hidle.symm.trans hopen
      rw [hflush] at hstep hopen
      obtain ⟨char, escaped⟩ := c
      cases hstep with
      | digit hdigit =>
        obtain ⟨before, digits, rfl, hdigits, hstart⟩ := ih hrun₁ hopen hinPrompt hprompt hminus hlist
        refine ⟨before, digits ++ [⟨char, escaped⟩], ?_, ?_, hstart⟩
        · rw [append_assoc]
          rfl
        · rw [forall_mem_append, forall_mem_singleton]
          exact ⟨hdigits, hdigit⟩
      | minus => cases hminus
      | list => cases hlist
      | prompt => cases hinPrompt
      | step | limit | switch => cases hplaceholder

/-- The character that ends `%nT`. -/
structure AtLimit (s : Scanner) (c : Character) (maximum : UInt32) : Prop where
  char : c.char = 0x54
  digits : s.InDigits (some maximum)

theorem limitsOf_flush (s : Scanner) (c : Character) : limitsOf (s.flush c).result = limitsOf s.result := by
  obtain ⟨hsame, -⟩ | ⟨text, -, -, hpushed⟩ := flush_cases s c
  · rw [hsame]
  · rw [hpushed]
    show limitsOf (s.result ++ [_]) = _
    rw [limitsOf_append]
    exact append_nil _

/-- Only there a limit is set. -/
theorem limits_cases (heat : s.eat c = some s') :
    (∃ maximum, AtLimit s c maximum ∧ limitsOf s'.result = limitsOf s.result ++ [maximum]) ∨
      ((∀ maximum, ¬AtLimit s c maximum) ∧ limitsOf s'.result = limitsOf s.result) := by
  rw [← limitsOf_flush s c]
  have hkept : ∀ maximum, AtLimit s c maximum → s.flush c = s := fun maximum h =>
    flush_none h.digits.text c
  cases eatFlushed_cases heat with
  | text htext =>
    refine .inr ⟨fun maximum h => ?_, rfl⟩
    rw [hkept maximum h] at htext
    exact nomatch htext.symm.trans h.digits.text
  | endPrompt _ hbad =>
    refine .inr ⟨fun maximum h => ?_, rfl⟩
    rw [hkept maximum h] at hbad
    exact nomatch hbad.symm.trans h.digits.inPrompt
  | prompt _ hbad =>
    refine .inr ⟨fun maximum h => ?_, rfl⟩
    rw [hkept maximum h] at hbad
    exact nomatch hbad.symm.trans h.digits.inPrompt
  | start _ _ _ hbad =>
    refine .inr ⟨fun maximum h => ?_, rfl⟩
    rw [hbad] at h
    exact absurd h.char (by decide)
  | close _ _ _ hbad =>
    refine .inr ⟨fun maximum h => ?_, limitsOf_closeLast _⟩
    rw [hbad] at h
    exact absurd h.char (by decide)
  | first _ _ hbad =>
    refine .inr ⟨fun maximum h => ?_, rfl⟩
    rw [hkept maximum h] at hbad
    exact nomatch hbad.symm.trans h.digits.placeholder
  | placeholder htext hprompt hplaceholder hstep =>
    generalize hchar : c.char = char at hstep
    cases hstep with
    | digit hdigit =>
      refine .inr ⟨fun maximum h => ?_, rfl⟩
      rw [← hchar, h.char] at hdigit
      exact absurd hdigit (by decide)
    | minus | list | prompt | switch =>
      exact .inr ⟨fun maximum h => absurd (hchar.symm.trans h.char) (by decide), rfl⟩
    | step _ hother hlimit =>
      refine .inr ⟨fun maximum h => hother (hchar.symm.trans h.char), ?_⟩
      show limitsOf (_ ++ [_]) = _
      rw [limitsOf_append, limitsOf_step hlimit, append_nil]
    | limit hnumber hnoPrompt hminus hlist =>
      rename_i maximum
      refine .inl ⟨maximum, ⟨hchar, ?_⟩, limitsOf_append _ _⟩
      obtain ⟨hsame, -⟩ | ⟨text, -, ⟨hbad, -⟩, -⟩ := flush_cases s c
      · rw [hsame] at htext hprompt hplaceholder hnumber hnoPrompt hminus hlist
        exact ⟨htext, hprompt, hplaceholder, hnumber, hnoPrompt, hminus, hlist⟩
      · rw [hchar] at hbad
        exact absurd hbad (by decide)

theorem setsLimitAt_concat (hrun : run {} cs = some s) (p n : Nat) :
    SetsLimitAt (cs ++ [c]) p n ↔ SetsLimitAt cs p n ∨ c.char = 0x54 ∧ ∃ before digits,
      cs = before ++ percent :: digits ∧ digits ≠ [] ∧ Opened before digits ∧ p = before.length ∧
        n = digitsValue digits := by
  constructor
  · rintro ⟨before, digits, escaped, after, hcs, hne, hopened, hp, hn⟩
    obtain rfl | ⟨rest, last, rfl⟩ := eq_nil_or_concat after
    · rw [← cons_append, ← append_assoc] at hcs
      obtain ⟨hcs', hlast⟩ := append_inj' hcs rfl
      rw [singleton_inj.mp hlast]
      exact .inr ⟨rfl, before, digits, hcs', hne, hopened, hp, hn⟩
    · have hsplit : before ++ percent :: (digits ++ ⟨0x54, escaped⟩ :: rest.concat last) =
          (before ++ percent :: (digits ++ ⟨0x54, escaped⟩ :: rest)) ++ [last] := by
        simp [concat_eq_append]
      rw [hsplit] at hcs
      obtain ⟨hcs', -⟩ := append_inj' hcs rfl
      exact .inl ⟨before, digits, escaped, rest, hcs', hne, hopened, hp, hn⟩
  · rintro (⟨before, digits, escaped, after, rfl, hne, hopened, hp, hn⟩ |
      ⟨hchar, before, digits, rfl, hne, hopened, hp, hn⟩)
    · refine ⟨before, digits, escaped, after ++ [c], ?_, hne, hopened, hp, hn⟩
      simp
    · obtain ⟨char, escaped⟩ := c
      obtain rfl : char = 0x54 := hchar
      refine ⟨before, digits, escaped, [], ?_, hne, hopened, hp, hn⟩
      simp

/-- No limit starts inside the digits of another one. -/
theorem start_le (h : before ++ percent :: digits = before' ++ percent :: rest)
    (hdigits : ∀ digit ∈ digits, isDigit digit.char) : before'.length ≤ before.length := by
  by_contra hlt
  have hthis : (before ++ percent :: digits)[before'.length]? = some percent := by
    rw [h, List.getElem?_append_right (Nat.le_refl _), Nat.sub_self]
    rfl
  obtain ⟨d, hd⟩ := Nat.exists_eq_add_of_lt (Nat.not_le.mp hlt)
  rw [hd, List.getElem?_append_right (by omega),
    show before.length + d + 1 - before.length = d + 1 by omega, List.getElem?_cons_succ] at hthis
  exact absurd (hdigits percent (mem_of_getElem? hthis)) (by decide)

/-- The limit that counts is the last one of the string. -/
def LastLimit (cs : List Character) (n : Nat) : Prop :=
  ∃ p, SetsLimitAt cs p n ∧ ∀ p' n', SetsLimitAt cs p' n' → p' ≤ p

theorem limits_of_run (hrun : run {} cs = some s) :
    (limitsOf s.result = [] ∧ ∀ p n, ¬SetsLimitAt cs p n) ∨
      ∃ n, LastLimit cs n ∧ (limitsOf s.result).getLast? = some (UInt32.ofNat n) := by
  induction cs using reverseRecOn generalizing s with
  | nil =>
    rw [← some.inj hrun]
    refine .inl ⟨rfl, ?_⟩
    rintro p n ⟨before, digits, escaped, after, hcs, -⟩
    exact append_ne_nil_of_right_ne_nil before (cons_ne_nil _ _) hcs.symm
  | append_singleton cs c ih =>
    rw [run_concat] at hrun
    obtain ⟨s₁, hrun₁, heat⟩ := bind_eq_some_iff.mp hrun
    obtain ⟨maximum, hat, hlimits⟩ | ⟨hnot, hlimits⟩ := limits_cases heat
    · obtain ⟨before, digits, hcs, hopened⟩ := opened_of_run hrun₁ hat.digits.placeholder
        hat.digits.inPrompt hat.digits.prompt hat.digits.minus hat.digits.list
      have hnumber := (opened_run hopened (hcs ▸ hrun₁)).number.symm.trans hat.digits.number
      unfold numberOf at hnumber
      by_cases hempty : digits = []
      · rw [if_pos hempty] at hnumber
        cases hnumber
      · rw [if_neg hempty] at hnumber
        refine .inr ⟨digitsValue digits, ⟨before.length, ?_, fun p' n' h' => ?_⟩, ?_⟩
        · exact (setsLimitAt_concat hrun₁ _ _).mpr
            (.inr ⟨hat.char, before, digits, hcs, hempty, hopened, rfl, rfl⟩)
        · rcases (setsLimitAt_concat hrun₁ _ _).mp h' with
            ⟨before', digits', escaped', after', hcs', -, -, rfl, -⟩ |
              ⟨-, before', digits', hcs', -, -, rfl, -⟩
          · exact start_le (hcs.symm.trans hcs') hopened.1
          · exact start_le (hcs.symm.trans hcs') hopened.1
        · rw [hlimits, List.getLast?_concat, hnumber]
    · have hsame : SetsLimitAt (cs ++ [c]) = SetsLimitAt cs := by
        funext p n
        rw [setsLimitAt_concat hrun₁, eq_iff_iff, or_iff_left]
        rintro ⟨hchar, before, digits, hcs, hempty, hopened, -⟩
        have hdigits := opened_run hopened (hcs ▸ hrun₁)
        unfold numberOf at hdigits
        rw [if_neg hempty] at hdigits
        exact hnot _ ⟨hchar, hdigits⟩
      unfold LastLimit
      rw [hlimits, hsame]
      exact ih hrun₁

/-- So it is for the whole string. -/
theorem limits_of_eat (h : eatSource source = .ok entries) :
    (limitsOf entries = [] ∧ ∀ p n, ¬SetsLimitAt (characters source) p n) ∨
      ∃ n, LastLimit (characters source) n ∧
        (limitsOf entries).getLast? = some (UInt32.ofNat n) := by
  obtain ⟨s, hrun, -, rfl⟩ := (eatSource_eq_ok_iff source entries).mp h
  have hlimits : limitsOf s.finish = limitsOf s.result := by
    unfold finish
    rw [limitsOf_closeLast, limitsOf_append]
    cases s.userDefined <;> exact append_nil _
  rw [hlimits]
  exact limits_of_run hrun

end WinCommander.Panel.ExternalTools
