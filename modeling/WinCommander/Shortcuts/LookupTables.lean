/-
  The two ways of asking for shortcuts agree in a run exactly when every step of it lets them.

  Setting shortcuts keeps the table of usages in step. Reverting to the defaults leaves the table
  alone, and the constructor fills it for the actions that have a default; a shortcut without a key
  is listed for its action but never used.
-/
import WinCommander.Library.Run
import WinCommander.Shortcuts.ActionsShortcutsManager

namespace WinCommander.Shortcuts

open Library List ActionsShortcutsManager Multimap AList

/-! ## Runs -/

inductive Call where
  | setShortcutsOverride (action : Bytes) (shortcuts : List Shortcut)
  | setShortcutOverride (action : Bytes) (shortcut : Shortcut)
  | revertToDefaults

/-- The manager after the call, and what it returned. -/
def answer (characters : Characters) (manager : ActionsShortcutsManager) :
    Call → ActionsShortcutsManager × Bool
  | .setShortcutsOverride action shortcuts =>
    manager.setShortcutsOverride characters action shortcuts
  | .setShortcutOverride action shortcut => manager.setShortcutOverride characters action shortcut
  | .revertToDefaults => (manager.revertToDefaults characters, true)

/-- The two answers agree for every action and every shortcut. -/
def InStep (manager : ActionsShortcutsManager) : Prop :=
  ∀ tag shortcut, tag ∈ (manager.actionTagsFromShortcut shortcut []).getD [] ↔
    shortcut ∈ (manager.shortcutsFromTag tag).getD []

/-- What is in force for an action has a key, and a default. -/
def Registrable (defaults overrides : AList fun _ : ActionTag => List Shortcut) : Prop :=
  ∀ tag, ∀ shortcut ∈ ((overrides.lookup tag).or (defaults.lookup tag)).getD [],
    shortcut.isValid = true ∧ (defaults.lookup tag).isSome = true

/-- The shortcuts that an action with a default is set to are empty or have a key. -/
def SetSound (manager : ActionsShortcutsManager) (action : Bytes) (shortcuts : List Shortcut) : Prop :=
  ∀ tag, manager.tagFromAction action = some tag →
    (manager.shortcutsDefaults.lookup tag).isSome = true →
      ∀ shortcut ∈ shortcuts, shortcut = {} ∨ shortcut.isValid = true

/-- A call that keeps the answers in step. Before a revert every override has to have the shortcuts of
    the default. -/
def Sound (manager : ActionsShortcutsManager) : Call → Prop
  | .setShortcutsOverride action shortcuts => SetSound manager action shortcuts
  | .setShortcutOverride action shortcut => SetSound manager action [shortcut]
  | .revertToDefaults => ∀ tag custom, manager.shortcutsOverrides.lookup tag = some custom →
      ∀ shortcut, shortcut ∈ custom ↔ shortcut ∈ (manager.shortcutsDefaults.lookup tag).getD []

/-! ## The table -/

variable {manager : ActionsShortcutsManager} {shortcut : Shortcut} {tag : ActionTag}
  {shortcuts : List Shortcut}

theorem mem_actionTagsFromShortcut : tag ∈ (manager.actionTagsFromShortcut shortcut []).getD [] ↔
      tag ∈ manager.shortcutsUsage.valuesOf shortcut := by
  unfold actionTagsFromShortcut valuesOf
  cases manager.shortcutsUsage.lookup shortcut with
  | none => rfl
  | some tags =>
    dsimp only
    rw [if_pos rfl]
    split
    next hnil =>
      rw [hnil]
      rfl
    next => rfl

theorem mem_removeDuplicates : shortcut ∈ removeDuplicates shortcuts ↔ shortcut ∈ shortcuts := by
  induction shortcuts with
  | nil => rfl
  | cons first rest ih =>
    unfold removeDuplicates
    rw [mem_cons, mem_cons, mem_filter, ih]
    by_cases h : shortcut = first <;> simp [h]

theorem mem_sanitizedShortcuts :
    shortcut ∈ sanitizedShortcuts shortcuts ↔ shortcut ∈ shortcuts ∧ shortcut ≠ {} := by
  unfold sanitizedShortcuts
  rw [mem_removeDuplicates, mem_filter, decide_eq_true_iff]

theorem mem_registerAll : tag' ∈ (registerAll usage shortcuts tag).valuesOf shortcut ↔
      tag' ∈ usage.valuesOf shortcut ∨ shortcut ∈ shortcuts ∧ shortcut.isValid ∧ tag' = tag := by
  unfold registerAll
  induction shortcuts generalizing usage with
  | nil => simp
  | cons first rest ih =>
    rw [foldl_cons, ih, mem_cons]
    unfold registerShortcutUsage
    split_ifs
    · rw [mem_add]
      grind
    · grind

theorem mem_unregisterAll : tag' ∈ (unregisterAll usage shortcuts tag).valuesOf shortcut ↔
      tag' ∈ usage.valuesOf shortcut ∧ ¬(shortcut ∈ shortcuts ∧ tag' = tag) :=
  mem_foldl_remove

theorem mem_buildShortcutUsageMap :
    tag ∈ (buildShortcutUsageMap defaults overrides).valuesOf shortcut ↔
      ∃ defaultShortcuts, defaults.lookup tag = some defaultShortcuts ∧
        shortcut ∈ (overrides.lookup tag).getD defaultShortcuts ∧ shortcut.isValid := by
  have hentries : ∀ (entries : List (Sigma fun _ : ActionTag => List Shortcut))
      (usage : Multimap Shortcut ActionTag), tag ∈ valuesOf (entries.foldl (fun usage entry =>
        registerAll usage ((overrides.lookup entry.1).getD entry.2) entry.1) usage) shortcut ↔
      tag ∈ usage.valuesOf shortcut ∨ ∃ defaultShortcuts, ⟨tag, defaultShortcuts⟩ ∈ entries ∧
        shortcut ∈ (overrides.lookup tag).getD defaultShortcuts ∧ shortcut.isValid := by
    intro entries
    induction entries with
    | nil => simp
    | cons entry rest ih =>
      intro usage
      rw [foldl_cons, ih, mem_registerAll]
      obtain ⟨tag', defaultShortcuts⟩ := entry
      grind
  unfold buildShortcutUsageMap AList.foldl
  rw [hentries]
  have hnone : tag ∉ valuesOf (∅ : Multimap Shortcut ActionTag) shortcut := by
    unfold valuesOf
    exact not_mem_nil
  simp [hnone, false_or, ← mem_lookup_iff, Option.mem_def]

/-! ## One call -/

/-- The shortcuts of an action. -/
def inForce (manager : ActionsShortcutsManager) (tag : ActionTag) : List Shortcut :=
  (manager.shortcutsFromTag tag).getD []

theorem inStep_iff : InStep manager ↔ ∀ tag shortcut,
      tag ∈ manager.shortcutsUsage.valuesOf shortcut ↔ shortcut ∈ inForce manager tag := by
  unfold InStep inForce
  simp [mem_actionTagsFromShortcut]

/-- A shortcut without a key is not used. -/
def Pressable (manager : ActionsShortcutsManager) : Prop :=
  ∀ tag shortcut, tag ∈ manager.shortcutsUsage.valuesOf shortcut → shortcut.isValid = true

/-- The action of the tag was set to the shortcuts. -/
structure SetTo (manager next : ActionsShortcutsManager) (tag : ActionTag) (shortcuts : List Shortcut) :
    Prop where
  usage : next.shortcutsUsage =
    registerAll (unregisterAll manager.shortcutsUsage (inForce manager tag) tag) shortcuts tag
  forces : ∀ tag', inForce next tag' = if tag' = tag then shortcuts else inForce manager tag'

/-- Shortcuts are set for an action with a default; or nothing changes, for there is none or the
    shortcuts are those in force. -/
theorem setShortcutsOverride_cases (characters : Characters) (manager : ActionsShortcutsManager)
    (action : Bytes) (shortcuts : List Shortcut) :
    let next := (manager.setShortcutsOverride characters action shortcuts).1
    (∃ tag, manager.tagFromAction action = some tag ∧
        (manager.shortcutsDefaults.lookup tag).isSome ∧
        (next = manager ∧ inForce manager tag = sanitizedShortcuts shortcuts ∨
          SetTo manager next tag (sanitizedShortcuts shortcuts))) ∨
      next = manager ∧ ∀ tag, manager.tagFromAction action = some tag →
        manager.shortcutsDefaults.lookup tag = none := by
  unfold setShortcutsOverride
  cases haction : manager.tagFromAction action with
  | none => exact .inr ⟨rfl, nofun⟩
  | some tag =>
    dsimp only
    cases hdefault : manager.shortcutsDefaults.lookup tag with
    | none => exact .inr ⟨rfl, fun tag' h => by cases h; exact hdefault⟩
    | some defaultShortcuts =>
      refine .inl ⟨tag, rfl, by rw [hdefault]; rfl, ?_⟩
      dsimp only
      have hforce : inForce manager tag =
          (manager.shortcutsOverrides.lookup tag).getD defaultShortcuts := by
        unfold inForce shortcutsFromTag
        rw [hdefault]
        cases manager.shortcutsOverrides.lookup tag <;> rfl
      by_cases hequal : defaultShortcuts = sanitizedShortcuts shortcuts
      · rw [if_pos hequal]
        cases hcustom : manager.shortcutsOverrides.lookup tag with
        | none =>
          refine .inl ⟨rfl, ?_⟩
          rw [hforce, hcustom]
          exact hequal
        | some custom =>
          refine .inr ⟨?_, fun tag' => ?_⟩
          · rw [hforce, hcustom, ← hequal]
            rfl
          · unfold inForce shortcutsFromTag
            split_ifs with h
            · rw [h, ← hequal]
              dsimp only [writeOverridesToConfig]
              rw [lookup_erase, hdefault]
              rfl
            · dsimp only [writeOverridesToConfig]
              rw [lookup_erase_ne h]
      · rw [if_neg hequal]
        split_ifs with hsame
        · refine .inl ⟨rfl, ?_⟩
          rw [hforce, hsame]
          rfl
        · refine .inr ⟨?_, fun tag' => ?_⟩
          · rw [hforce]
            rfl
          · unfold inForce shortcutsFromTag
            split_ifs with h
            · rw [h]
              dsimp only [writeOverridesToConfig]
              rw [lookup_insert]
              rfl
            · dsimp only [writeOverridesToConfig]
              rw [lookup_insert_ne h]

/-- After a set the usages of the action are the shortcuts that have a key. -/
theorem SetTo.mem_usage {manager next : ActionsShortcutsManager}
    (h : SetTo manager next tag shortcuts) (hstep : InStep manager) (tag' : ActionTag)
    (shortcut : Shortcut) : tag' ∈ next.shortcutsUsage.valuesOf shortcut ↔
      if tag' = tag then shortcut ∈ shortcuts ∧ shortcut.isValid
      else shortcut ∈ inForce manager tag' := by
  rw [h.usage, mem_registerAll, mem_unregisterAll, inStep_iff.mp hstep]
  split_ifs with htag
  · rw [htag]
    tauto
  · tauto

theorem SetTo.inStep_iff {manager next : ActionsShortcutsManager}
    (h : SetTo manager next tag shortcuts) (hstep : InStep manager) :
    InStep next ↔ ∀ shortcut ∈ shortcuts, shortcut.isValid := by
  rw [Shortcuts.inStep_iff]
  constructor
  · intro hnext shortcut hmem
    have hforce : shortcut ∈ inForce next tag := by
      rw [h.forces, if_pos rfl]
      exact hmem
    have husage := (hnext tag shortcut).mpr hforce
    rw [h.mem_usage hstep, if_pos rfl] at husage
    exact husage.2
  · intro hvalid tag' shortcut
    rw [h.mem_usage hstep, h.forces]
    by_cases htag : tag' = tag
    · rw [if_pos htag, if_pos htag]
      exact ⟨And.left, fun hmem => ⟨hmem, hvalid shortcut hmem⟩⟩
    · rw [if_neg htag, if_neg htag]

variable {characters : Characters}

/-- From in step, a set leaves the answers in step exactly when what is set is sound. -/
theorem inStep_setShortcutsOverride_iff (hpress : Pressable manager) (hstep : InStep manager)
    (action : Bytes) (shortcuts : List Shortcut) :
    InStep (manager.setShortcutsOverride characters action shortcuts).1 ↔
      SetSound manager action shortcuts := by
  have hsanitized : (∀ shortcut ∈ sanitizedShortcuts shortcuts, shortcut.isValid) ↔
      ∀ shortcut ∈ shortcuts, shortcut = {} ∨ shortcut.isValid := by
    simp only [mem_sanitizedShortcuts]
    grind
  rcases setShortcutsOverride_cases characters manager action shortcuts with
    ⟨tag, haction, hdefault, h⟩ | ⟨hsame, hnone⟩
  · have hsound : SetSound manager action shortcuts ↔
        ∀ shortcut ∈ sanitizedShortcuts shortcuts, shortcut.isValid := by
      rw [hsanitized]
      constructor
      · exact fun h => h tag haction hdefault
      · intro h tag' haction' _
        exact h
    rw [hsound]
    rcases h with ⟨hsame, hforce⟩ | hset
    · -- What is in force already has keys, since it is used.
      rw [hsame, ← hforce]
      refine iff_of_true hstep fun shortcut hmem => hpress tag shortcut ?_
      exact (inStep_iff.mp hstep tag shortcut).mpr hmem
    · exact hset.inStep_iff hstep
  · rw [hsame]
    refine iff_of_true hstep fun tag haction hdefault => ?_
    rw [hnone tag haction] at hdefault
    cases hdefault

theorem inStep_revertToDefaults_iff (hstep : InStep manager) :
    InStep (manager.revertToDefaults characters) ↔ Sound manager .revertToDefaults := by
  have hforce : ∀ tag, inForce (manager.revertToDefaults characters) tag =
      (manager.shortcutsDefaults.lookup tag).getD [] := fun tag => rfl
  have husage : (manager.revertToDefaults characters).shortcutsUsage = manager.shortcutsUsage := rfl
  rw [inStep_iff, husage]
  simp only [hforce, inStep_iff.mp hstep]
  unfold Sound inForce shortcutsFromTag
  constructor
  · intro h tag custom hcustom shortcut
    rw [← h tag shortcut, hcustom]
    rfl
  · intro h tag shortcut
    cases hcustom : manager.shortcutsOverrides.lookup tag with
    | none => rfl
    | some custom => exact h tag custom hcustom shortcut

theorem inStep_answer_iff (hpress : Pressable manager) (hstep : InStep manager) (call : Call) :
    InStep (answer characters manager call).1 ↔ Sound manager call := by
  cases call with
  | setShortcutsOverride action shortcuts =>
    exact inStep_setShortcutsOverride_iff hpress hstep action shortcuts
  | setShortcutOverride action shortcut =>
    exact inStep_setShortcutsOverride_iff hpress hstep action [shortcut]
  | revertToDefaults => exact inStep_revertToDefaults_iff hstep

theorem pressable_set (hpress : Pressable manager) (action : Bytes) (shortcuts : List Shortcut) :
    Pressable (manager.setShortcutsOverride characters action shortcuts).1 := by
  rcases setShortcutsOverride_cases characters manager action shortcuts with
    ⟨tag, -, -, ⟨hsame, -⟩ | hset⟩ | ⟨hsame, -⟩
  · rw [hsame]
    exact hpress
  · intro tag' shortcut hmem
    rw [hset.usage, mem_registerAll, mem_unregisterAll] at hmem
    rcases hmem with hmem | hmem
    · exact hpress tag' shortcut hmem.1
    · exact hmem.2.1
  · rw [hsame]
    exact hpress

theorem pressable_answer (characters : Characters) (hpress : Pressable manager) (call : Call) :
    Pressable (answer characters manager call).1 := by
  cases call with
  | setShortcutsOverride action shortcuts => exact pressable_set hpress action shortcuts
  | setShortcutOverride action shortcut => exact pressable_set hpress action [shortcut]
  | revertToDefaults => exact hpress

/-! ## Construction and runs -/

theorem pressable_construct (setup : Setup) : Pressable setup.construct := by
  intro tag shortcut hmem
  obtain ⟨_, -, -, hvalid⟩ := mem_buildShortcutUsageMap.mp hmem
  exact hvalid

theorem inStep_construct_iff (setup : Setup) :
    InStep setup.construct ↔ Registrable setup.shortcutsDefaults setup.shortcutsOverrides := by
  have husage : ∀ tag shortcut, tag ∈ setup.construct.shortcutsUsage.valuesOf shortcut ↔
      ∃ defaultShortcuts, setup.shortcutsDefaults.lookup tag = some defaultShortcuts ∧
        shortcut ∈ (setup.shortcutsOverrides.lookup tag).getD defaultShortcuts ∧
          shortcut.isValid := fun tag shortcut => mem_buildShortcutUsageMap
  have hforce : ∀ tag, inForce setup.construct tag =
      ((setup.shortcutsOverrides.lookup tag).or (setup.shortcutsDefaults.lookup tag)).getD [] :=
    fun tag => rfl
  rw [inStep_iff]
  simp only [husage, hforce]
  refine forall_congr' fun tag => forall_congr' fun shortcut => ?_
  cases setup.shortcutsDefaults.lookup tag with
  | none => simp
  | some defaultShortcuts =>
    cases setup.shortcutsOverrides.lookup tag with
    | none => simp
    | some custom => simp

/-- Every manager of the run is in step exactly when the first one is and every call is sound. -/
theorem inStep_run_iff (hpress : Pressable manager) (calls : List Call) :
    (∀ before after, calls = before ++ after →
        InStep (runAll (answer characters) manager before).1) ↔
      InStep manager ∧ Meets (answer characters) Sound manager calls := by
  induction calls generalizing manager with
  | nil =>
    constructor
    · exact fun h => ⟨h [] [] rfl, trivial⟩
    · rintro ⟨hstep, -⟩ before after hsplit
      obtain ⟨rfl, -⟩ := append_eq_nil_iff.mp hsplit.symm
      exact hstep
  | cons call rest ih =>
    have hnext := ih (pressable_answer characters hpress call)
    constructor
    · intro h
      have hstep := h [] (call :: rest) rfl
      have hrest := hnext.mp fun before after hsplit => h (call :: before) after (by rw [hsplit]; rfl)
      exact ⟨hstep, (inStep_answer_iff hpress hstep call).mp hrest.1, hrest.2⟩
    · rintro ⟨hstep, hsound, hmeets⟩ before after hsplit
      cases before with
      | nil => exact hstep
      | cons first before =>
        obtain ⟨rfl, hrest⟩ := cons_eq_cons.mp hsplit
        exact hnext.mpr ⟨(inStep_answer_iff hpress hstep call).mpr hsound, hmeets⟩ before after hrest

/-- The answers agree after the construction and after every call of a run exactly when the tables
    that the constructor read are registrable and every call of the run is sound. -/
theorem tables_agree_iff (setup : Setup) (calls : List Call) :
    (∀ before after, calls = before ++ after →
        InStep (runAll (answer setup.characters) setup.construct before).1) ↔
      Registrable setup.shortcutsDefaults setup.shortcutsOverrides ∧
        Meets (answer setup.characters) Sound setup.construct calls := by
  rw [inStep_run_iff (pressable_construct setup), inStep_construct_iff]

/-- The shortcut that an action was set to before a revert is still in the table. -/
theorem tables_disagree_reverted :
    let setup : Setup :=
      { characters := ⟨fun bytes => bytes.map (·.toUInt16), fun units => units.map (·.toUInt8), id⟩
        actionTags := [([97], 1)], defaultShortcuts := [([97], [120])], config := .null }
    ¬InStep (runAll (answer setup.characters) setup.construct
      [.setShortcutOverride [97] ⟨121, 0⟩, .revertToDefaults]).1 := by
  intro setup h
  have hagree := h 1 ⟨121, 0⟩
  revert hagree
  decide +kernel

end WinCommander.Shortcuts
