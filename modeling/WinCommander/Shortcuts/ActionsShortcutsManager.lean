/-
  `ActionsShortcutsManager`: the shortcuts of each action, by default and as the user has set them,
  and the table that tells which actions a shortcut is used by.

  The order of the tags of a shortcut is that of the iteration over a hash map in the source and has
  no meaning there. What the C++ library does with characters is a parameter.
-/
import WinCommander.Library.Json
import WinCommander.Library.Multimap

namespace WinCommander.Shortcuts

open Library

/-! ## Shortcuts -/

structure ActionShortcut where
  unicode : UInt16 := 0
  modifiers : UInt8 := 0
deriving DecidableEq

/-- `operator bool`. -/
def ActionShortcut.isValid (shortcut : ActionShortcut) : Bool := shortcut.unicode ≠ 0

/-- The conversions of `std::wstring_convert`, and `std::towlower`. -/
structure Characters where
  fromBytes : Bytes → List UInt16
  toBytes : List UInt16 → Bytes
  towlower : UInt16 → UInt16

/-- The flag of a modifier's character: shift, control, option, command. -/
def modifierFlag (unit : UInt16) : Option UInt8 :=
  if unit = 0x21E7 then some 2
  else if unit = 0x5E then some 4
  else if unit = 0x2325 then some 8
  else if unit = 0x2318 then some 16
  else none

/-- The loop over the characters; `\r` and `\t` are spelled out. -/
def parseUnits (characters : Characters) : List UInt16 → UInt8 → ActionShortcut
  | [], flags => { modifiers := flags }
  | unit :: rest, flags =>
    match modifierFlag unit with
    | some flag => parseUnits characters rest (flags ||| flag)
    | none =>
      { unicode :=
          if unit :: rest = [0x5C, 0x72] then 13
          else if unit :: rest = [0x5C, 0x74] then 9
          else characters.towlower unit
        modifiers := flags }

/-- A `char *` ends at the first zero. -/
def cString (text : Bytes) : Bytes := text.takeWhile (· ≠ 0)

def ActionShortcut.ofPersString (characters : Characters) (text : Bytes) : ActionShortcut :=
  parseUnits characters (characters.fromBytes (cString text)) 0

def ActionShortcut.toPersString (characters : Characters) (shortcut : ActionShortcut) : Bytes :=
  (if shortcut.modifiers &&& 2 ≠ 0 then [0xE2, 0x87, 0xA7] else []) ++
    (if shortcut.modifiers &&& 4 ≠ 0 then [0x5E] else []) ++
    (if shortcut.modifiers &&& 8 ≠ 0 then [0xE2, 0x8C, 0xA5] else []) ++
    (if shortcut.modifiers &&& 16 ≠ 0 then [0xE2, 0x8C, 0x98] else []) ++
    (if shortcut.unicode = 13 then [0x5C, 0x72] else if shortcut.unicode = 9 then [0x5C, 0x74]
     else characters.toBytes [shortcut.unicode])

/-! ## The manager -/

abbrev Shortcut := ActionShortcut

abbrev ActionTag := Int

structure ActionsShortcutsManager where
  tagToAction : AList fun _ : ActionTag => Bytes
  actionToTag : AList fun _ : Bytes => ActionTag
  shortcutsDefaults : AList fun _ : ActionTag => List Shortcut
  shortcutsOverrides : AList fun _ : ActionTag => List Shortcut
  shortcutsUsage : Multimap Shortcut ActionTag
  originalOrderedActions : List (Bytes × ActionTag)
  /-- The value under `hotkeyOverrides_v1`. -/
  config : Json

/-- The first of equal shortcuts stays. -/
def removeDuplicates : List Shortcut → List Shortcut
  | [] => []
  | shortcut :: rest => shortcut :: (removeDuplicates rest).filter (· ≠ shortcut)

/-- Without empty shortcuts and without duplicates. -/
def sanitizedShortcuts (shortcuts : List Shortcut) : List Shortcut :=
  removeDuplicates (shortcuts.filter (· ≠ {}))

/-- `emplace` keeps what is there. -/
def emplace {κ τ : Type} [DecidableEq κ] (map : AList fun _ : κ => τ) (key : κ) (value : τ) :
    AList fun _ : κ => τ :=
  if key ∈ map then map else map.insert key value

/-- Without a key there is nothing to press. -/
def registerShortcutUsage (usage : Multimap Shortcut ActionTag) (shortcut : Shortcut)
    (tag : ActionTag) : Multimap Shortcut ActionTag :=
  if shortcut.isValid then usage.add shortcut tag else usage

def registerAll (usage : Multimap Shortcut ActionTag) (shortcuts : List Shortcut)
    (tag : ActionTag) : Multimap Shortcut ActionTag :=
  shortcuts.foldl (fun usage shortcut => registerShortcutUsage usage shortcut tag) usage

def unregisterAll (usage : Multimap Shortcut ActionTag) (shortcuts : List Shortcut)
    (tag : ActionTag) : Multimap Shortcut ActionTag :=
  shortcuts.foldl (fun usage shortcut => usage.remove shortcut tag) usage

/-- The shortcuts of one member of the overrides. -/
def readOverride (characters : Characters) : Json → Option (List Shortcut)
  | .str text => some (sanitizedShortcuts [.ofPersString characters text])
  | .arr items =>
    some (sanitizedShortcuts (items.filterMap fun item =>
      match item with
      | .str text => some (.ofPersString characters text)
      | _ => none))
  | _ => none

def readOverrideFromConfig (characters : Characters) (actionToTag : AList fun _ : Bytes => ActionTag) :
    Json → AList fun _ : ActionTag => List Shortcut
  | .obj members =>
    members.foldl
      (fun overrides member =>
        match actionToTag.lookup (cString member.1), readOverride characters member.2 with
        | some tag, some shortcuts => overrides.insert tag shortcuts
        | _, _ => overrides) ∅
  | _ => ∅

def buildShortcutUsageMap (defaults overrides : AList fun _ : ActionTag => List Shortcut) :
    Multimap Shortcut ActionTag :=
  defaults.foldl
    (fun usage tag defaultShortcuts =>
      registerAll usage ((overrides.lookup tag).getD defaultShortcuts) tag) ∅

/-- What the constructor is given. -/
structure Setup where
  characters : Characters
  actionTags : List (Bytes × ActionTag)
  defaultShortcuts : List (Bytes × Bytes)
  config : Json

namespace Setup

def actionToTag (setup : Setup) : AList fun _ : Bytes => ActionTag :=
  setup.actionTags.foldl (fun map (action, tag) => emplace map action tag) ∅

def tagToAction (setup : Setup) : AList fun _ : ActionTag => Bytes :=
  setup.actionTags.foldl (fun map (action, tag) => emplace map tag action) ∅

def shortcutsDefaults (setup : Setup) : AList fun _ : ActionTag => List Shortcut :=
  setup.defaultShortcuts.foldl
    (fun defaults (action, text) =>
      match setup.actionToTag.lookup action with
      | some tag => defaults.insert tag (sanitizedShortcuts [.ofPersString setup.characters text])
      | none => defaults) ∅

def shortcutsOverrides (setup : Setup) : AList fun _ : ActionTag => List Shortcut :=
  readOverrideFromConfig setup.characters setup.actionToTag setup.config

/-- The constructor. -/
def construct (setup : Setup) : ActionsShortcutsManager where
  tagToAction := setup.tagToAction
  actionToTag := setup.actionToTag
  shortcutsDefaults := setup.shortcutsDefaults
  shortcutsOverrides := setup.shortcutsOverrides
  shortcutsUsage := buildShortcutUsageMap setup.shortcutsDefaults setup.shortcutsOverrides
  originalOrderedActions := setup.actionTags
  config := setup.config

end Setup

namespace ActionsShortcutsManager

def tagFromAction (manager : ActionsShortcutsManager) (action : Bytes) : Option ActionTag :=
  manager.actionToTag.lookup action

def actionFromTag (manager : ActionsShortcutsManager) (tag : ActionTag) : Option Bytes :=
  manager.tagToAction.lookup tag

def shortcutsFromTag (manager : ActionsShortcutsManager) (tag : ActionTag) : Option (List Shortcut) :=
  (manager.shortcutsOverrides.lookup tag).or (manager.shortcutsDefaults.lookup tag)

def actionTagsFromShortcut (manager : ActionsShortcutsManager) (shortcut : Shortcut) (domain : Bytes) :
    Option (List ActionTag) :=
  match manager.shortcutsUsage.lookup shortcut with
  | none => none
  | some tags =>
    let tags :=
      if domain = [] then tags
      else tags.filter fun tag => domain.isPrefixOf ((manager.actionFromTag tag).getD [])
    if tags = [] then none else some tags

/-- One shortcut as a string, several as an array. -/
def overrideValue (characters : Characters) : List Shortcut → Json
  | [] => .str []
  | [shortcut] => .str (shortcut.toPersString characters)
  | shortcuts => .arr (shortcuts.map fun shortcut => .str (shortcut.toPersString characters))

def writeOverridesToConfig (characters : Characters) (manager : ActionsShortcutsManager) :
    ActionsShortcutsManager :=
  { manager with
    config := .obj (manager.originalOrderedActions.filterMap fun (action, tag) =>
      (manager.shortcutsOverrides.lookup tag).map fun shortcuts =>
        (action, overrideValue characters shortcuts)) }

/-- What the action is set to becomes what it is used by. -/
def setShortcutsOverride (characters : Characters) (manager : ActionsShortcutsManager) (action : Bytes)
    (shortcuts : List Shortcut) : ActionsShortcutsManager × Bool :=
  match manager.tagFromAction action with
  | none => (manager, false)
  | some tag =>
    match manager.shortcutsDefaults.lookup tag with
    | none => (manager, false)
    | some defaultShortcuts =>
      let newShortcuts := sanitizedShortcuts shortcuts
      let custom := manager.shortcutsOverrides.lookup tag
      if defaultShortcuts = newShortcuts then
        match custom with
        | none => (manager, false)
        | some custom =>
          let usage := unregisterAll manager.shortcutsUsage custom tag
          (writeOverridesToConfig characters { manager with
              shortcutsUsage := registerAll usage defaultShortcuts tag
              shortcutsOverrides := manager.shortcutsOverrides.erase tag }, true)
      else if custom = some newShortcuts then (manager, false)
      else
        let usage := unregisterAll manager.shortcutsUsage (custom.getD defaultShortcuts) tag
        (writeOverridesToConfig characters { manager with
            shortcutsUsage := registerAll usage newShortcuts tag
            shortcutsOverrides := manager.shortcutsOverrides.insert tag newShortcuts }, true)

def setShortcutOverride (characters : Characters) (manager : ActionsShortcutsManager) (action : Bytes)
    (shortcut : Shortcut) : ActionsShortcutsManager × Bool :=
  manager.setShortcutsOverride characters action [shortcut]

/-- The overrides go; the usage map stays as it is. -/
def revertToDefaults (characters : Characters) (manager : ActionsShortcutsManager) :
    ActionsShortcutsManager :=
  writeOverridesToConfig characters { manager with shortcutsOverrides := ∅ }

end ActionsShortcutsManager

end WinCommander.Shortcuts
