/-
  Which arguments a command line of an external tool gives.

  Texts that were escaped come back (`roundTrips_iff`), texts on different sides of a space are kept
  apart where a space closes what is before them (`neverJoined_iff`), and a limit is kept unless what
  is stored of it is zero (`filesLimited_iff`). In each case the condition is exact.
-/
import WinCommander.Panel.ExternalToolsScanning

namespace WinCommander.Panel.ExternalTools

open Library List Parameters Scanner Nat Step

/-! ## What is asked for -/

/-- A backslash before each space, percent sign and backslash. -/
def escape (argument : Bytes) : Bytes :=
  argument.flatMap fun c => if c = 0x20 ∨ c = 0x25 ∨ c = 0x5C then [0x5C, c] else [c]

def commandLine (arguments : List Bytes) : Bytes := [0x20].intercalate (arguments.map escape)

/-- The command line is accepted, and gives its arguments. -/
def RoundTrips (context : Context) (arguments : List Bytes) : Prop :=
  ∃ e : Execution, e.context = context ∧ parse (commandLine arguments) = .ok e.params ∧
    e.buildArguments = arguments

/-- An index of a step has 16 bits. -/
def Repeats (arguments : List Bytes) : Prop :=
  ∀ i < arguments.length, arguments[i]? = arguments[i % 2 ^ 16]?

/-- The arguments as texts with the numbers of their steps. -/
def Execution.tracedArguments (e : Execution) : List (List (Nat × Bytes)) :=
  (e.build fun i text => [(i, text)]).result

/-- An unescaped space outside a prompt, with the number of steps before it. -/
def SpaceIn (cs : List Character) (k : Nat) : Prop :=
  ∃ before after s s', cs = before ++ space :: after ∧ run {} before = some s ∧ s.inPrompt = false ∧
    s.eat space = some s' ∧ (stepsOf s'.result).length = k

/-- No argument has texts from both sides of a space. -/
def NeverJoined (source : Bytes) (e : Execution) : Prop :=
  ∀ k, SpaceIn (characters source) k → ¬Straddles e.tracedArguments k

/-- What the steps give. -/
def Execution.partsFrom (e : Execution) : Nat → Nat → List Step → List (Library.Part Bytes)
  | _, _, [] => []
  | i, numFiles, step :: steps =>
    { texts := (e.output numFiles i step).arguments
      detached := step.type = .selectedItems
      continues := step.isPartial } :: e.partsFrom (i + 1) (e.output numFiles i step).numFiles steps

def Execution.parts (e : Execution) : List (Library.Part Bytes) := e.partsFrom 0 0 e.params.steps

/-- After a space, the first step that gives something is `%F` or `%P`, or has a space right behind
the step before it. -/
def Separated (source : Bytes) (e : Execution) : Prop :=
  ∀ k j, SpaceIn (characters source) k → (∃ i < k, textsAt e.parts i ≠ []) → FirstFrom e.parts k j →
    e.params.steps[j]?.map Step.type = some .selectedItems ∨ ClosesIn (characters source) j

/-- At most as many files as each limit of the string says. -/
def FilesLimited (source : Bytes) (e : Execution) : Prop :=
  ∀ p n, SetsLimitAt (characters source) p n → (e.build fun _ text => text).files.length ≤ n

/-- How many files a step asks for. -/
def Execution.wanted (e : Execution) (step : Step) : Nat :=
  match step.type with
  | .currentItem =>
    (e.currentItemInfo ((e.params.currentItems[step.index.toNat]?).getD default)).toList.length
  | .selectedItems =>
    (e.selectedItemsInfo ((e.params.selectedItems[step.index.toNat]?).getD default)).length
  | _ => 0

def Execution.demand (e : Execution) : Nat := (e.params.steps.map e.wanted).sum

/-- What counts of a limit; none is stored as zero. -/
def storedMaximum (n : Nat) : Nat := if 0 < n % 2 ^ 32 then n % 2 ^ 32 else 2 ^ 64 - 1

/-- The last limit is stored as no more than what each of them says, or there are not more files. -/
def LimitStored (source : Bytes) (e : Execution) : Prop :=
  ∀ p n, SetsLimitAt (characters source) p n →
    (∃ m, LastLimit (characters source) m ∧ storedMaximum m ≤ n) ∨ e.demand ≤ n

/-! ## Parameters -/

variable (entries : List Entry)

theorem foldl_insert_concat (entry : Entry) : (entries ++ [entry]).foldl insert {} =
      (entries.foldl insert {}).insert entry := foldl_concat ..

/-- Every parameter but a limit becomes a step. -/
theorem steps_foldl : (entries.foldl insert {}).steps.map isPartial =
      (stepsOf entries).map Entry.isPartial := by
  induction entries using reverseRecOn with
  | nil => rfl
  | append_singleton entries entry ih =>
    rw [foldl_insert_concat, stepsOf_concat, map_append, ← ih]
    obtain ⟨param, isPartial⟩ := entry
    cases param with
    | setMaximumFiles => exact (append_nil _).symm
    | userDefined | enterValue | currentItem | selectedItems => exact map_append

theorem maximum_foldl :
    (entries.foldl insert {}).maximumTotalFiles = (limitsOf entries).getLast?.getD 0 := by
  induction entries using reverseRecOn with
  | nil => rfl
  | append_singleton entries entry ih =>
    rw [foldl_insert_concat, limitsOf_append]
    obtain ⟨param, isPartial⟩ := entry
    cases param with
    | setMaximumFiles maximum =>
      show maximum = ((limitsOf entries) ++ [maximum]).getLast?.getD 0
      rw [List.getLast?_concat]
      rfl
    | userDefined | enterValue | currentItem | selectedItems =>
      rw [limitsOf_step rfl, append_nil]
      exact ih

theorem parse_eq_ok_iff (source : Bytes) (params : Parameters) : parse source = .ok params ↔
    ∃ entries, eatSource source = .ok entries ∧ entries.foldl insert {} = params := by
  unfold parse
  cases eatSource source with
  | error message => exact iff_of_false (fun h => nomatch h) fun ⟨_, h, _⟩ => nomatch h
  | ok entries =>
    constructor
    · exact fun h => ⟨entries, rfl, Except.ok.inj h⟩
    · rintro ⟨entries', h, rfl⟩
      rw [Except.ok.inj h]
      rfl

/-! ## Texts on different sides of a space -/

section Joining

variable (e : Execution)

theorem foldl_buildStep_traced (steps : List Step) (i : Nat) (s : Building (Nat × Bytes)) :
    ((steps.zipIdx i).foldl (e.buildStep fun i text => [(i, text)]) s).result =
      joinFrom i s.append s.result (e.partsFrom i s.numFiles steps) := by
  induction steps generalizing i s with
  | nil => rfl
  | cons step steps ih =>
    have hdetached : (!decide (step.type = .selectedItems)) = decide (step.type ≠ .selectedItems) :=
      (decide_not).symm
    have hpart : joinFrom i s.append s.result (e.partsFrom i s.numFiles (step :: steps)) =
        joinFrom (i + 1) step.isPartial
          ((e.output s.numFiles i step).arguments.foldl (fun args text =>
            commit (s.append && !decide (step.type = .selectedItems)) args [(i, text)]) s.result)
          (e.partsFrom (i + 1) (e.output s.numFiles i step).numFiles steps) := rfl
    rw [zipIdx_cons, foldl_cons, ih, hpart, hdetached]
    rfl

theorem tracedArguments_eq : e.tracedArguments = joinFrom 0 false [] e.parts :=
  foldl_buildStep_traced e e.params.steps 0 {}

/-- The texts of the traced arguments are the arguments. -/
theorem tracedArguments_text : e.tracedArguments.map (·.flatMap Prod.snd) = e.buildArguments := by
  have hstep : ∀ (steps : List (Step × Nat)) (s : Building (Nat × Bytes)) (t : Building UInt8),
      s.result.map (·.flatMap Prod.snd) = t.result → s.append = t.append → s.numFiles = t.numFiles →
      (steps.foldl (e.buildStep fun i text => [(i, text)]) s).result.map (·.flatMap Prod.snd) =
        (steps.foldl (e.buildStep fun _ text => text) t).result := by
    intro steps
    induction steps with
    | nil => exact fun s t hresult _ _ => hresult
    | cons step steps ih =>
      intro s t hresult happend hnumFiles
      rw [foldl_cons, foldl_cons]
      refine ih _ _ ?_ rfl (by unfold Execution.buildStep; rw [hnumFiles])
      unfold Execution.buildStep
      dsimp only
      rw [hnumFiles, happend, ← hresult]
      generalize (e.output t.numFiles step.2 step.1).arguments = texts
      generalize s.result = args
      induction texts generalizing args with
      | nil => rfl
      | cons text texts ih =>
        rw [foldl_cons, foldl_cons, ih, commit_flatMap]
        congr 2
        exact append_nil text
  exact hstep e.params.steps.zipIdx {} {} rfl rfl rfl

theorem partsFrom_getElem? (steps : List Step) (i numFiles j : Nat) :
    (e.partsFrom i numFiles steps)[j]?.map (fun part => (part.detached, part.continues)) =
      steps[j]?.map fun step => (decide (step.type = .selectedItems), step.isPartial) := by
  induction steps generalizing i numFiles j with
  | nil => rfl
  | cons step steps ih =>
    cases j with
    | zero => rfl
    | succ j => exact ih _ _ j

variable {source : Bytes}

/-- A step that is not the last is appended to unless a space is right behind it. -/
theorem step_partial_iff (h : parse source = .ok params) (hj : params.steps[j]? = some step)
    (hnext : j + 1 < params.steps.length) :
    step.isPartial = false ↔ ClosesIn (characters source) (j + 1) := by
  obtain ⟨entries, heat, rfl⟩ := (parse_eq_ok_iff source params).mp h
  have hsteps := steps_foldl entries
  have hlength : (entries.foldl insert {}).steps.length = (stepsOf entries).length := by
    rw [← length_map isPartial, hsteps, length_map]
  have hthis : ((stepsOf entries)[j]?).map Entry.isPartial = some step.isPartial := by
    rw [← List.getElem?_map, ← hsteps, List.getElem?_map, hj]
    rfl
  obtain ⟨entry, hentry, hlast⟩ := Option.map_eq_some_iff.mp hthis
  rw [← hlast]
  exact partial_iff heat hentry (hlength ▸ hnext)

/-- A part knows of its step whether it is appended, and whether the next one may be. -/
theorem part_of_step {j : Nat} (h : e.parts[j]? = some part) :
    ∃ step, e.params.steps[j]? = some step ∧ part.detached = decide (step.type = .selectedItems) ∧
      part.continues = step.isPartial := by
  have hpart := partsFrom_getElem? e e.params.steps 0 0 j
  change (e.parts[j]?).map _ = _ at hpart
  rw [h] at hpart
  obtain ⟨step, hstep, hsame⟩ := Option.map_eq_some_iff.mp hpart.symm
  exact ⟨step, hstep, (Prod.mk.inj hsame).1.symm, (Prod.mk.inj hsame).2.symm⟩

theorem attachedAt_iff (h : parse source = .ok e.params) {k j : Nat} (hpos : 0 < j)
    (hfirst : FirstFrom e.parts k j) : AttachedAt e.parts false j ↔
      ¬(e.params.steps[j]?.map type = some .selectedItems ∨ ClosesIn (characters source) j) := by
  obtain ⟨part, hpart⟩ : ∃ part, e.parts[j]? = some part := by
    cases hpart : e.parts[j]? with
    | some part => exact ⟨part, rfl⟩
    | none =>
      refine absurd ?_ hfirst.texts
      unfold textsAt
      rw [hpart]
      rfl
  obtain ⟨step, hstep, hdetached, -⟩ := part_of_step e hpart
  have hlength : j - 1 < e.parts.length := by
    have hinside := (List.getElem?_eq_some_iff.mp hpart).1
    omega
  obtain ⟨previous, hprevious⟩ : ∃ previous, e.parts[j - 1]? = some previous :=
    ⟨_, List.getElem?_eq_getElem hlength⟩
  obtain ⟨before, hbefore, -, hcontinues⟩ := part_of_step e hprevious
  have hclosed := step_partial_iff h hbefore (by
    rw [Nat.sub_add_cancel hpos]
    exact (List.getElem?_eq_some_iff.mp hstep).1)
  rw [Nat.sub_add_cancel hpos] at hclosed
  unfold AttachedAt
  rw [hpart, hstep, hprevious, if_neg (Nat.ne_of_gt hpos), Option.map_some, Option.map_some,
    Option.map_some, hdetached, hcontinues, Option.getD_some, Option.some.injEq, Option.some.injEq,
    decide_eq_false_iff_not, ← hclosed, not_or, Bool.not_eq_false]

/-- Nothing is joined over a space exactly if what follows it is closed off. -/
theorem neverJoined_iff (h : parse source = .ok e.params) :
    NeverJoined source e ↔ Separated source e := by
  have hcut : ∀ k, ¬Straddles e.tracedArguments k ↔ ∀ j, (∃ i < k, textsAt e.parts i ≠ []) →
      FirstFrom e.parts k j → e.params.steps[j]?.map type = some .selectedItems ∨
        ClosesIn (characters source) j := by
    intro k
    rw [tracedArguments_eq, straddles_iff]
    constructor
    · intro hnot j hbefore hfirst
      have ⟨i, hi, _⟩ := hbefore
      have hpos : 0 < j := Nat.lt_of_lt_of_le (zero_lt_of_lt hi) hfirst.after
      by_contra hopen
      exact hnot ⟨hbefore, j, hfirst, (attachedAt_iff e h hpos hfirst).mpr hopen⟩
    · rintro hseparated ⟨hbefore, j, hfirst, hattached⟩
      have ⟨i, hi, _⟩ := hbefore
      have hpos : 0 < j := Nat.lt_of_lt_of_le (zero_lt_of_lt hi) hfirst.after
      exact (attachedAt_iff e h hpos hfirst).mp hattached (hseparated j hbefore hfirst)
  refine forall_congr' fun k => ?_
  constructor
  · exact fun hnot j hspace hbefore hfirst => (hcut k).mp (hnot hspace) j hbefore hfirst
  · exact fun hseparated hspace => (hcut k).mpr fun j hbefore hfirst =>
      hseparated j hspace hbefore hfirst

end Joining

/-! ## Limits -/

section Limits

variable (e : Execution)

/-- Files are taken until there are as many as there may be. -/
theorem takeFiles_spec (maxFiles : Nat) (infos : List Bytes) (numFiles : Nat) :
    (takeFiles maxFiles numFiles infos).1.length = min infos.length (maxFiles - numFiles) ∧
      (numFiles + infos.length ≤ maxFiles →
        (takeFiles maxFiles numFiles infos).2 = numFiles + infos.length) ∧
      (maxFiles < numFiles + infos.length → maxFiles ≤ (takeFiles maxFiles numFiles infos).2) := by
  induction infos generalizing numFiles with
  | nil => exact ⟨(Nat.zero_min _).symm, fun _ => rfl, fun h => Nat.le_of_lt h⟩
  | cons info infos ih =>
    unfold takeFiles
    rw [length_cons]
    split_ifs with hfull
    · refine ⟨?_, fun h => by omega, fun _ => le_succ_of_le hfull⟩
      rw [Nat.sub_eq_zero_of_le hfull, Nat.min_zero]
      rfl
    · obtain ⟨hlength, hall, hmore⟩ := ih (numFiles + 1)
      refine ⟨?_, fun h => ?_, fun h => hmore (by omega)⟩
      · show (takeFiles maxFiles (numFiles + 1) infos).1.length + 1 = _
        omega
      · rw [hall (by omega)]
        omega

/-- How many files were put, of those that were asked for so far. -/
structure Counted (maxFiles wanted put numFiles : Nat) : Prop where
  put : put = min wanted maxFiles
  few : wanted ≤ maxFiles → numFiles = wanted
  many : maxFiles < wanted → maxFiles ≤ numFiles

theorem output_counted (h : Counted e.maxFiles wanted put numFiles) (i : Nat) (step : Step)
    : Counted e.maxFiles (wanted + e.wanted step)
      (put + (e.output numFiles i step).files.length) (e.output numFiles i step).numFiles := by
  have hput := h.put
  have hfew := h.few
  have hmany := h.many
  unfold Execution.output Execution.wanted
  cases step.type with
  | userDefined | enterValue => exact ⟨h.put, h.few, h.many⟩
  | currentItem =>
    dsimp only
    cases e.currentItemInfo ((e.params.currentItems[step.index.toNat]?).getD default) with
    | none => split <;> exact ⟨h.put, h.few, h.many⟩
    | some info =>
      split_ifs
      · refine ⟨?_, fun hle => ?_, fun hlt => ?_⟩
        · show put + 1 = min (wanted + 1) e.maxFiles
          omega
        · show numFiles + 1 = wanted + 1
          omega
        · change e.maxFiles < wanted + 1 at hlt
          show e.maxFiles ≤ numFiles + 1
          omega
      · refine ⟨?_, fun hle => ?_, fun hlt => ?_⟩
        · show put + 0 = min (wanted + 1) e.maxFiles
          omega
        · change wanted + 1 ≤ e.maxFiles at hle
          omega
        · show e.maxFiles ≤ numFiles
          omega
  | selectedItems =>
    dsimp only
    generalize (e.params.selectedItems[step.index.toNat]?).getD default = v
    obtain ⟨hlength, hall, hmore⟩ := takeFiles_spec e.maxFiles (e.selectedItemsInfo v) numFiles
    generalize takeFiles e.maxFiles numFiles (e.selectedItemsInfo v) = taken at hlength hall hmore
    have hcounted : Counted e.maxFiles (wanted + (e.selectedItemsInfo v).length)
        (put + taken.1.length) taken.2 := by
      refine ⟨?_, fun hle => ?_, fun hlt => ?_⟩
      · omega
      · omega
      · by_cases hold : wanted ≤ e.maxFiles
        · exact hmore (by omega)
        · by_cases hsome : e.maxFiles < numFiles + (e.selectedItemsInfo v).length
          · exact hmore hsome
          · have hexact := hall (Nat.not_lt.mp hsome)
            omega
    split <;> exact hcounted

/-- As many files are put as are asked for, up to the limit. -/
theorem files_length : (e.build fun _ text => text).files.length = min e.demand e.maxFiles := by
  have hrun : ∀ (steps : List (Step × Nat)) (s : Building UInt8) (wanted : Nat),
      Counted e.maxFiles wanted s.files.length s.numFiles →
      Counted e.maxFiles (wanted + (steps.map fun step => e.wanted step.1).sum)
        (steps.foldl (e.buildStep fun _ text => text) s).files.length
        (steps.foldl (e.buildStep fun _ text => text) s).numFiles := by
    intro steps
    induction steps with
    | nil => exact fun s wanted h => h
    | cons step steps ih =>
      intro s wanted h
      rw [foldl_cons, map_cons, sum_cons, ← Nat.add_assoc]
      refine ih _ _ ?_
      have hcounted := output_counted e h step.2 step.1
      rw [← length_append] at hcounted
      exact hcounted
  have hstart : Counted e.maxFiles 0 0 0 :=
    ⟨(Nat.zero_min _).symm, fun _ => rfl, fun h => absurd h (Nat.not_lt_zero _)⟩
  have hall := (hrun e.params.steps.zipIdx {} 0 hstart).put
  have hdemand : (e.params.steps.zipIdx.map fun step => e.wanted step.1).sum = e.demand := by
    have hzip : (e.params.steps.zipIdx.map fun step => e.wanted step.1) =
        (e.params.steps.zipIdx.map Prod.fst).map e.wanted := by
      rw [map_map]
      rfl
    rw [hzip, zipIdx_map_fst]
    rfl
  rw [hdemand, Nat.zero_add] at hall
  exact hall

/-- The last limit of the string is the one that is stored. -/
theorem maxFiles_eq (h : parse source = .ok e.params) (hlimit : SetsLimitAt (characters source) p n) :
    ∃ m, LastLimit (characters source) m ∧ e.maxFiles = storedMaximum m := by
  obtain ⟨entries, heat, hparams⟩ := (parse_eq_ok_iff source e.params).mp h
  rcases limits_of_eat heat with ⟨-, hnone⟩ | ⟨m, hlast, hstored⟩
  · exact absurd hlimit (hnone p n)
  · refine ⟨m, hlast, ?_⟩
    have hmaximum := maximum_foldl entries
    rw [hparams, hstored, Option.getD_some] at hmaximum
    have hvalue : (UInt32.ofNat m).toNat = m % 2 ^ 32 := UInt32.toNat_ofNat'
    have hzero : 0 < UInt32.ofNat m ↔ 0 < m % 2 ^ 32 := by
      exact Iff.rfl
    unfold Execution.maxFiles storedMaximum
    rw [hmaximum, hvalue]
    exact if_congr hzero rfl rfl

theorem takeWhile_digits {digits after : List Character} {escaped : Bool}
    (h : ∀ digit ∈ digits, isDigit digit.char) :
    (digits ++ ⟨0x54, escaped⟩ :: after).takeWhile (isDigit ·.char) = digits := by
  rw [takeWhile_append_of_pos h, takeWhile_cons_of_neg Bool.false_ne_true, append_nil]

theorem lastLimit_unique {cs : List Character} (h : LastLimit cs m) (h' : LastLimit cs m') :
    m = m' := by
  obtain ⟨p, hp, hlast⟩ := h
  obtain ⟨p', hp', hlast'⟩ := h'
  have hsame : p = p' := Nat.le_antisymm (hlast' p m hp) (hlast p' m' hp')
  obtain ⟨before, digits, escaped, after, rfl, -, hopened, hlength, rfl⟩ := hp
  obtain ⟨before', digits', escaped', after', hcs, -, hopened', hlength', rfl⟩ := hp'
  obtain ⟨-, hrest⟩ := append_inj hcs (by omega)
  have hdigits := congrArg (takeWhile (isDigit ·.char)) (cons.inj hrest).2
  rw [takeWhile_digits hopened.1, takeWhile_digits hopened'.1] at hdigits
  rw [hdigits]

/-- A limit is kept exactly if it is stored as no more than it says, or is not needed. -/
theorem filesLimited_iff (h : parse source = .ok e.params) :
    FilesLimited source e ↔ LimitStored source e := by
  refine forall_congr' fun p => forall_congr' fun n => forall_congr' fun hlimit => ?_
  obtain ⟨m, hlast, hmax⟩ := maxFiles_eq e h hlimit
  have hmin : min e.demand (storedMaximum m) ≤ n ↔ storedMaximum m ≤ n ∨ e.demand ≤ n := by omega
  rw [files_length, hmax, hmin]
  refine or_congr_left ?_
  constructor
  · exact fun hle => ⟨m, hlast, hle⟩
  · rintro ⟨m', hlast', hle⟩
    rw [lastLimit_unique hlast hlast']
    exact hle

end Limits

/-! ## Escaped texts -/

def isSpecial (c : UInt8) : Bool := c = 0x20 || c = 0x25 || c = 0x5C

/-- The characters of an escaped text. -/
def escaped (argument : Bytes) : List Character := argument.map fun c => ⟨c, isSpecial c⟩

theorem characters_plain (hbackslash : c ≠ 0x5C) (hpercent : c ≠ 0x25) (rest : Bytes) :
    characters (c :: rest) = ⟨c, false⟩ :: characters rest := by
  rw [characters.eq_def]
  split
  · rename_i heq
    exact absurd (cons.inj heq).1 hbackslash
  · rename_i heq
    exact absurd (cons.inj heq).1 hpercent
  · rename_i heq
    obtain ⟨rfl, rfl⟩ := cons.inj heq
    rfl
  · rename_i heq
    cases heq

theorem characters_escape (argument rest : Bytes) :
    characters (escape argument ++ rest) = escaped argument ++ characters rest := by
  induction argument with
  | nil => rfl
  | cons c argument ih =>
    unfold escape escaped at ih ⊢
    rw [flatMap_cons, append_assoc, map_cons, cons_append, ← ih]
    by_cases hspecial : c = 0x20 ∨ c = 0x25 ∨ c = 0x5C
    · have hflag : isSpecial c := by
        rcases hspecial with rfl | rfl | rfl <;> rfl
      rw [if_pos hspecial, hflag]
      rfl
    · have hnot := hspecial
      rw [not_or, not_or] at hnot
      have hflag : isSpecial c = false := by
        unfold isSpecial
        rw [decide_eq_false hnot.1, decide_eq_false hnot.2.1, decide_eq_false hnot.2.2]
        rfl
      rw [if_neg hspecial, hflag]
      exact characters_plain hnot.2.2 hnot.2.1 _

/-- A special character is escaped, so that it ends nothing. -/
theorem not_ends (c : UInt8) :
    ¬(((⟨c, isSpecial c⟩ : Character).char = 0x25 ∨ (⟨c, isSpecial c⟩ : Character).char = 0x20) ∧
      (⟨c, isSpecial c⟩ : Character).escaped = false) := by
  rintro ⟨hchar | hchar, hescaped⟩
  · change c = 0x25 at hchar
    rw [hchar] at hescaped
    cases hescaped
  · change c = 0x20 at hchar
    rw [hchar] at hescaped
    cases hescaped

theorem run_text (entries : List Entry) (text argument : Bytes) :
    run { result := entries, userDefined := some text } (escaped argument) =
      some { result := entries, userDefined := some (text ++ argument) } := by
  induction argument generalizing text with
  | nil => rw [append_nil]; rfl
  | cons c argument ih =>
    have heat : ({ result := entries, userDefined := some text } : Scanner).eat ⟨c, isSpecial c⟩ =
        some { result := entries, userDefined := some (text ++ [c]) } := by
      unfold eat flush
      dsimp only
      rw [if_neg (not_ends c)]
      rfl
    unfold escaped
    rw [map_cons, run_cons, heat]
    show run { result := entries, userDefined := some (text ++ [c]) } (escaped argument) = _
    rw [ih, append_assoc]
    rfl

/-- An escaped text is one argument. -/
theorem run_escaped (entries : List Entry) (hne : argument ≠ []) :
    run { result := entries } (escaped argument) =
      some { result := entries, userDefined := some argument } := by
  obtain ⟨c, rest, rfl⟩ := exists_cons_of_ne_nil hne
  have heat : ({ result := entries } : Scanner).eat ⟨c, isSpecial c⟩ =
      some { result := entries, userDefined := some [c] } := by
    have hends := not_ends c
    have hpercent : ¬((⟨c, isSpecial c⟩ : Character).char = 0x25 ∧ false = false ∧
        (⟨c, isSpecial c⟩ : Character).escaped = false) := fun h => hends ⟨.inl h.1, h.2.2⟩
    have hspace : ¬((⟨c, isSpecial c⟩ : Character).char = 0x20 ∧
        (⟨c, isSpecial c⟩ : Character).escaped = false) := fun h => hends ⟨.inr h.1, h.2⟩
    unfold eat eatFlushed flush
    rw [if_neg Bool.false_ne_true, if_neg hpercent, if_neg fun h => Bool.false_ne_true h.2,
      if_neg Bool.false_ne_true, if_neg hspace]
  unfold escaped
  rw [map_cons, run_cons, heat]
  exact run_text entries [c] rest

/-- Arguments that are complete. -/
def textEntries (arguments : List Bytes) : List Entry :=
  arguments.map fun argument => ⟨.userDefined argument, false⟩

/-- A space completes an argument. -/
theorem eat_space (entries : List Entry) (text : Bytes) :
    ({ result := entries, userDefined := some text } : Scanner).eat space =
      some { result := entries ++ [⟨.userDefined text, false⟩] } := by
  show some ({ result := closeLast (entries ++ [⟨.userDefined text, true⟩]) } : Scanner) = _
  rw [closeLast_concat]

theorem commandLine_cons (argument next : Bytes) (rest : List Bytes) :
    commandLine (argument :: next :: rest) = escape argument ++ 0x20 :: commandLine (next :: rest) := by
  unfold commandLine
  rfl

variable {arguments : List Bytes}

theorem run_commandLine (hne : arguments ≠ []) (harguments : ∀ argument ∈ arguments, argument ≠ [])
    (entries : List Entry) :
    ∃ s, run { result := entries } (characters (commandLine arguments)) = some s ∧
      s.placeholder = false ∧ s.finish = entries ++ textEntries arguments := by
  induction arguments generalizing entries with
  | nil => exact absurd rfl hne
  | cons argument rest ih =>
    obtain ⟨hthis, hrest⟩ := forall_mem_cons.mp harguments
    cases rest with
    | nil =>
      have hline : commandLine [argument] = escape argument ++ [] := by
        rw [append_nil]
        exact intercalate_singleton
      refine ⟨{ result := entries, userDefined := some argument }, ?_, rfl, ?_⟩
      · rw [hline, characters_escape, characters, append_nil]
        exact run_escaped entries hthis
      · exact closeLast_concat entries ⟨.userDefined argument, false⟩
    | cons next rest =>
      obtain ⟨s, hrun, hplaceholder, hfinish⟩ := ih (cons_ne_nil next rest) hrest
        (entries ++ [⟨.userDefined argument, false⟩])
      refine ⟨s, ?_, hplaceholder, ?_⟩
      · rw [commandLine_cons, characters_escape, run_append, run_escaped entries hthis,
          Option.bind_some, characters_plain (by decide) (by decide), run_cons]
        show (eat _ space).bind _ = _
        rw [eat_space]
        exact hrun
      · rw [hfinish, append_assoc]
        rfl

theorem eatSource_commandLine (harguments : ∀ argument ∈ arguments, argument ≠ []) :
    eatSource (commandLine arguments) = .ok (textEntries arguments) := by
  rw [eatSource_eq_ok_iff]
  by_cases hne : arguments = []
  · rw [hne]
    exact ⟨{}, rfl, rfl, rfl⟩
  · obtain ⟨s, hrun, hplaceholder, hfinish⟩ := run_commandLine hne harguments []
    exact ⟨s, hrun, hplaceholder, hfinish.symm⟩

/-- A step for each of the texts, with the index that it is given. -/
def textParameters (arguments : List Bytes) : Parameters :=
  { steps := (List.range arguments.length).map fun i => ⟨.userDefined, UInt16.ofNat i, false⟩
    userDefined := arguments }

theorem foldl_textEntries (arguments : List Bytes) :
    (textEntries arguments).foldl insert {} = textParameters arguments := by
  induction arguments using reverseRecOn with
  | nil => rfl
  | append_singleton arguments argument ih =>
    have hentries : textEntries (arguments ++ [argument]) =
        textEntries arguments ++ [⟨.userDefined argument, false⟩] := map_append
    rw [hentries, foldl_insert_concat, ih]
    unfold textParameters
    rw [length_append, length_singleton, range_succ, map_append]
    rfl

/-- The texts that are found at the indices are arguments of their own. -/
theorem buildArguments_texts {e : Execution} (hparams : e.params = textParameters arguments) :
    e.buildArguments = (range arguments.length).map fun i =>
      (arguments[i % 2 ^ 16]?).getD [] := by
  have hrun : ∀ (indices : List Nat) (i : Nat) (s : Building UInt8), s.append = false →
      (((indices.map fun i => (⟨.userDefined, UInt16.ofNat i, false⟩ : Step)).zipIdx i).foldl
        (e.buildStep fun _ text => text) s).result =
          s.result ++ indices.map fun i => (arguments[i % 2 ^ 16]?).getD [] := by
    intro indices
    induction indices with
    | nil => exact fun i s _ => (append_nil _).symm
    | cons index indices ih =>
      intro i s happend
      rw [map_cons, zipIdx_cons, foldl_cons, ih _ _ rfl, map_cons]
      have hindex : (UInt16.ofNat index).toNat = index % 2 ^ 16 := UInt16.toNat_ofNat'
      have hresult : (e.buildStep (fun _ text => text) s
          (⟨.userDefined, UInt16.ofNat index, false⟩, i)).result =
            s.result ++ [(arguments[index % 2 ^ 16]?).getD []] := by
        unfold Execution.buildStep Execution.output
        rw [hparams, hindex, happend]
        rfl
      rw [hresult, append_assoc]
      rfl
  unfold Execution.buildArguments Execution.build
  rw [hparams]
  exact hrun (range arguments.length) 0 {} rfl

/-- Escaped texts come back exactly if those from 65536 on repeat the ones before. -/
theorem roundTrips_iff (context : Context) (harguments : ∀ argument ∈ arguments, argument ≠ []) :
    RoundTrips context arguments ↔ Repeats arguments := by
  have hparse : parse (commandLine arguments) = .ok (textParameters arguments) :=
    (parse_eq_ok_iff _ _).mpr ⟨_, eatSource_commandLine harguments, foldl_textEntries arguments⟩
  have hsame : ((range arguments.length).map fun i => (arguments[i % 2 ^ 16]?).getD []) =
      arguments ↔ Repeats arguments := by
    have hinside : ∀ i < arguments.length, arguments[i % 2 ^ 16]? =
        some ((arguments[i % 2 ^ 16]?).getD []) := fun i hi => by
      rw [List.getElem?_eq_getElem (Nat.lt_of_le_of_lt (mod_le i _) hi)]
      rfl
    constructor
    · intro h i hi
      have hthis := congrArg (fun texts : List Bytes => texts[i]?) h
      rw [List.getElem?_map, List.getElem?_range hi] at hthis
      rw [← hthis, hinside i hi]
      rfl
    · intro h
      refine ext_getElem? fun i => ?_
      by_cases hi : i < arguments.length
      · rw [List.getElem?_map, List.getElem?_range hi, h i hi, hinside i hi]
        rfl
      · rw [List.getElem?_eq_none, List.getElem?_eq_none (Nat.not_lt.mp hi)]
        rw [length_map, length_range]
        exact Nat.not_lt.mp hi
  constructor
  · rintro ⟨e, -, haccepted, hbuilt⟩
    rw [hparse] at haccepted
    rw [buildArguments_texts (Except.ok.inj haccepted).symm] at hbuilt
    exact hsame.mp hbuilt
  · intro hrepeats
    refine ⟨⟨context, textParameters arguments, [], rfl⟩, rfl, hparse, ?_⟩
    rw [buildArguments_texts rfl]
    exact hsame.mpr hrepeats

/-! ## Command lines -/

/-- What is asked of command lines, and exactly when it holds: texts come back, nothing is joined
over a space, and limits are kept. -/
theorem commandLines_iff (context : Context) :
    (∀ arguments, (∀ argument ∈ arguments, argument ≠ []) →
      (RoundTrips context arguments ↔ Repeats arguments)) ∧
    (∀ source, ∀ e : Execution, parse source = .ok e.params →
      (NeverJoined source e ↔ Separated source e)) ∧
    (∀ source, ∀ e : Execution, parse source = .ok e.params →
      (FilesLimited source e ↔ LimitStored source e)) :=
  ⟨fun _ harguments => roundTrips_iff context harguments,
    fun _ e h => neverJoined_iff e h, fun _ e h => filesLimited_iff e h⟩

/-- Two empty panels. -/
def emptyContext : Context where
  leftData := ⟨{}, [0x2F], fun _ _ h => absurd h not_mem_nil⟩
  rightData := ⟨{}, [0x2F], fun _ _ h => absurd h not_mem_nil⟩
  leftCursorPos := -1
  rightCursorPos := -1
  focus := .left
  makeFileFromMemory _ _ := none

/-- `a%- b` -/
def switchSource : Bytes := [0x61, 0x25, 0x2D, 0x20, 0x62]

def switchExecution : Execution where
  context := emptyContext
  params := { steps := [⟨.userDefined, 0, true⟩, ⟨.userDefined, 1, false⟩], userDefined := [[0x61], [0x62]] }
  userInput := []
  committed := rfl

theorem commandLines_switch : (RoundTrips emptyContext [[0x61, 0x20]] ↔ Repeats [[0x61, 0x20]]) ∧
    (NeverJoined switchSource switchExecution ↔ Separated switchSource switchExecution) ∧
    (FilesLimited switchSource switchExecution ↔ LimitStored switchSource switchExecution) :=
  ⟨(commandLines_iff emptyContext).1 [[0x61, 0x20]] (by decide),
    (commandLines_iff emptyContext).2.1 switchSource switchExecution rfl,
    (commandLines_iff emptyContext).2.2 switchSource switchExecution rfl⟩

/-- `a` and `b` become one argument. -/
theorem joined_over_switch : parse switchSource = .ok switchExecution.params ∧
    ¬NeverJoined switchSource switchExecution := by
  refine ⟨rfl, fun h => h 1 ?_ ?_⟩
  · exact ⟨[⟨0x61, false⟩, percent, ⟨0x2D, false⟩], [⟨0x62, false⟩], _, _, rfl, rfl, rfl, rfl, rfl⟩
  · exact ⟨[(0, [0x61]), (1, [0x62])], mem_singleton.mpr rfl,
      ⟨(0, [0x61]), mem_cons_self, Nat.one_pos⟩,
      ⟨(1, [0x62]), mem_cons_of_mem _ mem_cons_self, Nat.le_refl 1⟩⟩

end WinCommander.Panel.ExternalTools
