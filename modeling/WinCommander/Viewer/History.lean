/-
  The history of viewed files (`History`), from the list in the state to the list in the state.

  The loop of `AddEntry` evicts as long as the list is not shorter than the limit, so that one entry
  fewer is kept than there may be, and with a limit of nothing it does not end. The history is what
  it should be exactly if fewer paths than the limit are known (`bounded_iff`).
-/
import WinCommander.Operations.JsonFields

namespace WinCommander.Viewer.History

open List Library

/-- A string that a C string can be: it ends at the first zero. -/
structure CString where
  bytes : Bytes
  ends : 0 ∉ bytes
  deriving DecidableEq

/-- What `GetString` makes of a value's string. -/
def CString.of (bytes : Bytes) : CString where
  bytes := bytes.takeWhile (· ≠ 0)
  ends := fun hmem => by simpa using mem_takeWhile_imp hmem

inductive Encoding where
  | invalid
  | iso8859_1 | iso8859_2 | iso8859_3 | iso8859_4 | iso8859_5 | iso8859_6 | iso8859_7 | iso8859_8
  | iso8859_9 | iso8859_10 | iso8859_11 | iso8859_13 | iso8859_14 | iso8859_15 | iso8859_16
  | oem437 | oem737 | oem775 | oem850 | oem851 | oem852 | oem855 | oem857 | oem860 | oem861
  | oem862 | oem863 | oem864 | oem865 | oem866 | oem869
  | win1250 | win1251 | win1252 | win1253 | win1254 | win1255 | win1256 | win1257 | win1258
  | macosRomanWestern | utf8 | utf16le | utf16be
  deriving DecidableEq

/-- `g_Names`, each behind `ENCODING_`. -/
def names : List (String × Encoding) :=
  [("INVALID", .invalid), ("OEM437", .oem437), ("OEM737", .oem737), ("OEM775", .oem775),
    ("OEM850", .oem850), ("OEM851", .oem851), ("OEM852", .oem852), ("OEM855", .oem855),
    ("OEM857", .oem857), ("OEM860", .oem860), ("OEM861", .oem861), ("OEM862", .oem862),
    ("OEM863", .oem863), ("OEM864", .oem864), ("OEM865", .oem865), ("OEM866", .oem866),
    ("OEM869", .oem869), ("WIN1250", .win1250), ("WIN1251", .win1251), ("WIN1252", .win1252),
    ("WIN1253", .win1253), ("WIN1254", .win1254), ("WIN1255", .win1255), ("WIN1256", .win1256),
    ("WIN1257", .win1257), ("WIN1258", .win1258), ("MACOS_ROMAN_WESTERN", .macosRomanWestern),
    ("ISO_8859_1", .iso8859_1), ("ISO_8859_2", .iso8859_2), ("ISO_8859_3", .iso8859_3),
    ("ISO_8859_4", .iso8859_4), ("ISO_8859_5", .iso8859_5), ("ISO_8859_6", .iso8859_6),
    ("ISO_8859_7", .iso8859_7), ("ISO_8859_8", .iso8859_8), ("ISO_8859_9", .iso8859_9),
    ("ISO_8859_10", .iso8859_10), ("ISO_8859_11", .iso8859_11), ("ISO_8859_13", .iso8859_13),
    ("ISO_8859_14", .iso8859_14), ("ISO_8859_15", .iso8859_15), ("ISO_8859_16", .iso8859_16),
    ("UTF8", .utf8), ("UTF16LE", .utf16le), ("UTF16BE", .utf16be)]

def nameFromEncoding (encoding : Encoding) : Bytes :=
  match names.find? fun i => i.2 = encoding with
  | some i => ascii ("ENCODING_" ++ i.1)
  | none => ascii "ENCODING_INVALID"

def encodingFromName (name : Bytes) : Encoding :=
  match names.find? fun i => ascii ("ENCODING_" ++ i.1) = name with
  | some i => i.2
  | none => .invalid

/-- `ViewMode` of 8 bits: 0 text, 1 hex, 2 preview. -/
structure Entry where
  path : CString
  position : UInt64 := 0
  wrapping : Bool := false
  viewMode : UInt8 := 0
  encoding : Encoding := .invalid
  selection : Int64 × Int64 := (-1, 0)
  language : Option CString := none
  deriving DecidableEq

def historyEntryToJSONObject (entry : Entry) : Json :=
  .obj ([(ascii "path", .str entry.path.bytes), (ascii "position", .int entry.position.toNat),
      (ascii "wrapping", .bool entry.wrapping), (ascii "mode", .int entry.viewMode.toNat),
      (ascii "encoding", .str (nameFromEncoding entry.encoding)),
      (ascii "selection_loc", .int entry.selection.1.toInt),
      (ascii "selection_len", .int entry.selection.2.toInt)] ++
    (entry.language.map fun language => (ascii "language", Json.str language.bytes)).toList)

/- `doubleBits` is what a reader of an integer finds where a number is stored as a double. -/
variable (doubleBits : Bytes → Int)

def string? : Json → Option Bytes
  | .str s => some s
  | _ => none

def number? : Json → Option Int
  | .int i => some i
  | .double text => some (doubleBits text)
  | _ => none

def bool? : Json → Option Bool
  | .bool b => some b
  | _ => none

def jsonObjectToHistoryEntry : Json → Option Entry
  | .obj members =>
    let string (key : String) := (members.lookup (ascii key)).bind string?
    let number (key : String) := (members.lookup (ascii key)).bind (number? doubleBits)
    let bool (key : String) := (members.lookup (ascii key)).bind bool?
    (string "path").map fun path =>
      { path := .of path
        position := ((number "position").map UInt64.ofInt).getD 0
        wrapping := (bool "wrapping").getD false
        viewMode := ((number "mode").map UInt8.ofInt).getD 0
        encoding := ((string "encoding").map encodingFromName).getD .invalid
        selection := match number "selection_loc", number "selection_len" with
          | some location, some length => (.ofInt location, .ofInt length)
          | _, _ => (-1, 0)
        language := (string "language").map CString.of }
  | _ => none

/-- The value that `SaveToStateConfig` sets. -/
def saveToStateConfig (history : List Entry) : Json := .arr (history.map historyEntryToJSONObject)

/-- `LoadFromStateConfig` of a history that was just created. -/
def loadFromStateConfig : Json → List Entry
  | .arr entries => entries.filterMap (jsonObjectToHistoryEntry doubleBits)
  | _ => []

/-- The loop of `AddEntry`; `none` if it takes an entry from an empty deque. -/
def evict (limit : Nat) : (fuel : Nat) → List Entry → Option (List Entry)
  | 0, _ => none
  | fuel + 1, history =>
    if history.length ≥ limit then
      if history = [] then none else evict limit fuel history.dropLast
    else some history

def addEntry (limit : Nat) (entry : Entry) (history : List Entry) : Option (List Entry) :=
  let history := entry :: history.eraseP fun i => i.path = entry.path
  evict limit (history.length + 1) history

def entryByPath (history : List Entry) (path : CString) : Option Entry :=
  history.find? fun i => i.path = path

/-- Entries added one after the other. -/
def addEntries (limit : Nat) (loaded added : List Entry) : Option (List Entry) :=
  added.foldlM (fun history entry => addEntry limit entry history) loaded

/-! ## What the history should be -/

/-- Of entries from the newest on, the newest one of each path. -/
def mostRecent : List Entry → List Entry
  | [] => []
  | entry :: older => entry :: (mostRecent older).filter fun i => i.path ≠ entry.path

/-- The history after entries were added to those that were loaded. -/
structure Bounded (limit : Nat) (loaded added history : List Entry) : Prop where
  size : history.length ≤ limit
  distinct : (history.map Entry.path).Nodup
  recent : history = (mostRecent (added.reverse ++ loaded)).take limit
  found : 1 ≤ limit → ∀ entry, added.getLast? = some entry →
    entryByPath history entry.path = some entry
  saved : loadFromStateConfig doubleBits (saveToStateConfig history) = history

variable {doubleBits} {limit : Nat} {entry : Entry} {history loaded added : List Entry}

/-! ## Saving and loading -/

theorem encodingFromName_nameFromEncoding (encoding : Encoding) :
    encodingFromName (nameFromEncoding encoding) = encoding := by
  cases encoding <;> decide

theorem of_bytes (s : CString) : CString.of s.bytes = s := by
  obtain ⟨bytes, hends⟩ := s
  have hall : bytes.takeWhile (· ≠ 0) = bytes := by
    rw [takeWhile_eq_self_iff]
    exact fun byte hbyte => decide_eq_true fun hzero => hends (hzero ▸ hbyte)
  exact CString.mk.injEq .. ▸ hall

theorem ofInt_position (position : UInt64) : UInt64.ofInt position.toNat = position := by
  have hlt := position.toNat_lt
  unfold UInt64.ofInt
  rw [Int.emod_eq_of_lt (by omega) (by omega), Int.toNat_natCast, UInt64.ofNat_toNat]

theorem ofInt_mode (mode : UInt8) : UInt8.ofInt mode.toNat = mode := by
  have hlt := mode.toNat_lt
  unfold UInt8.ofInt
  rw [Int.emod_eq_of_lt (by omega) (by omega), Int.toNat_natCast, UInt8.ofNat_toNat]

theorem load_historyEntryToJSONObject (entry : Entry) :
    jsonObjectToHistoryEntry doubleBits (historyEntryToJSONObject entry) = some entry := by
  obtain ⟨path, position, wrapping, mode, encoding, selection, language⟩ := entry
  trans some ⟨.of path.bytes, .ofInt position.toNat, wrapping, .ofInt mode.toNat,
    encodingFromName (nameFromEncoding encoding),
    (.ofInt selection.1.toInt, .ofInt selection.2.toInt), language.map fun s => .of s.bytes⟩
  · cases language <;> rfl
  · simp [of_bytes, encodingFromName_nameFromEncoding, ofInt_position, ofInt_mode]

theorem load_saveToStateConfig (history : List Entry) :
    loadFromStateConfig doubleBits (saveToStateConfig history) = history := by
  unfold loadFromStateConfig saveToStateConfig
  dsimp only
  have hload : jsonObjectToHistoryEntry doubleBits ∘ historyEntryToJSONObject = some :=
    funext load_historyEntryToJSONObject
  rw [filterMap_map, hload, filterMap_some]

/-! ## Evicting -/

theorem evict_eq (hlimit : 0 < limit) (fuel : Nat) (hfuel : history.length < fuel) :
    evict limit fuel history = some (history.take (limit - 1)) := by
  induction fuel generalizing history with
  | zero => omega
  | succ fuel ih =>
    unfold evict
    split
    · next hlong =>
      have hne : history ≠ [] := length_pos_iff.mp (by omega)
      have hlength : history.dropLast.length = history.length - 1 := length_dropLast
      rw [if_neg hne, ih (by omega), dropLast_eq_take, take_take, Nat.min_eq_left (by omega)]
    · rw [take_of_length_le (by omega)]

theorem evict_zero (fuel : Nat) (history : List Entry) : evict 0 fuel history = none := by
  induction fuel generalizing history with
  | zero => rfl
  | succ fuel ih =>
    unfold evict
    rw [if_pos (Nat.zero_le _), ih, ite_self]

/-! ## Adding -/

theorem nodup_mostRecent (entries : List Entry) : ((mostRecent entries).map Entry.path).Nodup := by
  induction entries with
  | nil => exact nodup_nil
  | cons entry older ih =>
    refine nodup_cons.mpr ⟨fun hmem => ?_, ih.sublist (filter_sublist.map _)⟩
    obtain ⟨other, hother, hpath⟩ := mem_map.mp hmem
    exact of_decide_eq_true (mem_filter.mp hother).2 hpath

theorem mostRecent_of_nodup (h : (history.map Entry.path).Nodup) : mostRecent history = history := by
  induction history with
  | nil => rfl
  | cons entry older ih =>
    obtain ⟨hnot, holder⟩ := nodup_cons.mp h
    unfold mostRecent
    rw [ih holder, filter_eq_self.mpr]
    exact fun other hother => decide_eq_true fun hpath => hnot (mem_map.mpr ⟨other, hother, hpath⟩)

/-- Erasing the entry of a path from a list that is cut leaves what erasing it from the whole list
    leaves, up to there. -/
theorem take_eraseP_take (history : List Entry) (path : CString) {n m : Nat} (h : n + 1 ≤ m) :
    ((history.take m).eraseP fun i => i.path = path).take n =
      (history.eraseP fun i => i.path = path).take n := by
  induction history generalizing n m with
  | nil => rw [take_nil]
  | cons entry older ih =>
    obtain ⟨m, rfl⟩ := Nat.exists_eq_add_of_le' (Nat.le_trans (Nat.le_add_left 1 n) h)
    rw [take_succ_cons, eraseP_cons, eraseP_cons]
    cases decide (entry.path = path) with
    | true => exact (take_take ..).trans (by rw [Nat.min_eq_left (by omega)]; rfl)
    | false =>
      cases n with
      | zero => rfl
      | succ n => exact congrArg (entry :: ·) (ih (by omega))

theorem eraseP_of_nodup (h : (history.map Entry.path).Nodup) (path : CString) :
    (history.eraseP fun i => i.path = path) = history.filter fun i => i.path ≠ path := by
  induction history with
  | nil => rfl
  | cons entry older ih =>
    obtain ⟨hnot, holder⟩ := nodup_cons.mp h
    rw [eraseP_cons, filter_cons]
    by_cases hpath : entry.path = path
    · subst hpath
      rw [decide_eq_true rfl, decide_eq_false (not_not_intro rfl), filter_eq_self.mpr]
      · rfl
      · exact fun other hother =>
          decide_eq_true fun hsame => hnot (mem_map.mpr ⟨other, hother, hsame⟩)
    · rw [decide_eq_false hpath, decide_eq_true hpath, ih holder]
      rfl

/-- What is added to a history that was cut behind the limit's last entry but one, or later. -/
theorem addEntry_eq (hlimit : 0 < limit) (older : List Entry) {m : Nat} (hm : limit - 1 ≤ m) :
    addEntry limit entry ((mostRecent older).take m) =
      some ((mostRecent (entry :: older)).take (limit - 1)) := by
  unfold addEntry
  rw [evict_eq hlimit _ (Nat.lt_succ_self _)]
  change _ = some ((entry :: (mostRecent older).filter fun i => i.path ≠ entry.path).take _)
  cases hrest : limit - 1 with
  | zero => rfl
  | succ n =>
    rw [take_succ_cons, take_succ_cons, take_eraseP_take _ _ (by omega),
      eraseP_of_nodup (nodup_mostRecent older)]

theorem addEntries_eq (hlimit : 0 < limit) (older added : List Entry) {m : Nat}
    (hm : limit - 1 ≤ m) : addEntries limit ((mostRecent older).take m) (entry :: added) =
      some ((mostRecent ((entry :: added).reverse ++ older)).take (limit - 1)) := by
  induction added generalizing entry older m with
  | nil =>
    unfold addEntries
    rw [foldlM_cons, addEntry_eq hlimit older hm]
    rfl
  | cons next added ih =>
    have hrest := @ih next (entry :: older) _ (Nat.le_refl (limit - 1))
    rw [reverse_cons, append_assoc]
    unfold addEntries at hrest ⊢
    rw [foldlM_cons, addEntry_eq hlimit older hm]
    exact hrest

theorem addEntries_zero (added : List Entry) : addEntries 0 loaded (entry :: added) = none := by
  unfold addEntries addEntry
  rw [foldlM_cons, evict_zero]
  rfl

theorem bounded_of_lt (h : (mostRecent (added.reverse ++ loaded)).length < limit) :
    Bounded doubleBits limit loaded added (mostRecent (added.reverse ++ loaded)) := by
  refine ⟨Nat.le_of_lt h, nodup_mostRecent _, (take_of_length_le (Nat.le_of_lt h)).symm,
    fun _ entry hlast => ?_, load_saveToStateConfig _⟩
  obtain ⟨before, rfl⟩ := getLast?_eq_some_iff.mp hlast
  rw [reverse_append]
  exact find?_cons_of_pos (decide_eq_true rfl)

/-- From a list without a path twice, the history is what it should be exactly if there are fewer
    paths than it may have entries. -/
theorem bounded_iff (hloaded : (loaded.map Entry.path).Nodup) (hadded : added ≠ []) :
    (∃ history, addEntries limit loaded added = some history ∧
        Bounded doubleBits limit loaded added history) ↔
      (mostRecent (added.reverse ++ loaded)).length < limit := by
  obtain ⟨entry, rest, rfl⟩ := exists_cons_of_ne_nil hadded
  rcases Nat.eq_zero_or_pos limit with rfl | hlimit
  · rw [addEntries_zero]
    exact iff_of_false (fun ⟨_, h, _⟩ => by cases h) (Nat.not_lt_zero _)
  · have hrun := @addEntries_eq limit entry hlimit loaded rest (loaded.length + limit) (by omega)
    rw [mostRecent_of_nodup hloaded, take_of_length_le (Nat.le_add_right _ _)] at hrun
    rw [hrun]
    refine ⟨?_, fun hlt => ⟨_, rfl, ?_⟩⟩
    · rintro ⟨history, hsome, hbounded⟩
      obtain rfl := Option.some.inj hsome
      have hlength := congrArg length hbounded.recent
      rw [length_take, length_take] at hlength
      omega
    · rw [take_of_length_le (by omega)]
      exact bounded_of_lt hlt

/-- Two files viewed, of three that may be kept. -/
theorem bounded_iff_two :
    ∃ history, addEntries 3 [] [{ path := .of [1] }, { path := .of [2] }] = some history ∧
      Bounded (fun _ => 0) 3 [] [{ path := .of [1] }, { path := .of [2] }] history :=
  (bounded_iff (by decide) (by decide)).mpr (by decide)

/-- Of one entry that may be kept none is. -/
theorem not_bounded_one : ¬∃ history, addEntries 1 [] [{ path := .of [1] }] = some history ∧
      Bounded (fun _ => 0) 1 [] [{ path := .of [1] }] history := by
  rintro ⟨history, hsome, hbounded⟩
  have hnone : addEntries 1 [] [{ path := .of [1] }] = some [] := rfl
  rw [hnone] at hsome
  obtain rfl := Option.some.inj hsome
  exact absurd (hbounded.found (Nat.le_refl 1) _ rfl) (by decide)

/-- Over sessions that each save what they leave to the next, with room for one entry more than are
    kept. -/
theorem sessions_recent (n : Nat) (sessions : List (List Entry)) :
    sessions.foldlM (fun saved added =>
        (addEntries (n + 1) (loadFromStateConfig doubleBits saved) added).map saveToStateConfig)
      (saveToStateConfig []) =
    some (saveToStateConfig ((mostRecent sessions.flatten.reverse).take n)) := by
  have hrun : ∀ older, sessions.foldlM (fun saved added =>
        (addEntries (n + 1) (loadFromStateConfig doubleBits saved) added).map saveToStateConfig)
      (saveToStateConfig ((mostRecent older).take n)) =
      some (saveToStateConfig ((mostRecent (sessions.flatten.reverse ++ older)).take n)) := by
    induction sessions with
    | nil => exact fun older => rfl
    | cons added rest ih =>
      intro older
      have hadded : addEntries (n + 1) ((mostRecent older).take n) added =
          some ((mostRecent (added.reverse ++ older)).take n) := by
        cases added with
        | nil => rfl
        | cons entry added => exact addEntries_eq n.succ_pos older added le_rfl
      simp only [foldlM_cons, load_saveToStateConfig, hadded]
      simpa using ih (added.reverse ++ older)
  simpa [mostRecent] using hrun []

end WinCommander.Viewer.History
