/-
  Absolute paths of slash-separated components, and what they resolve to.

  `resolve` reads a path as a walk from the root: empty components and "." stay, ".." goes
  up, and any other name goes down. `render` writes a list of names as a path again; it is
  injective on names, and one rendering followed by a slash starts another exactly when its
  names are a proper prefix. ASCII case folding commutes with both.
-/
import WinCommander.Library.Numeral

namespace WinCommander.Library.Path

open List

/-- `'/'`. -/
abbrev slash : UInt8 := 0x2F

abbrev dot : Bytes := [0x2E]

abbrev dotDot : Bytes := [0x2E, 0x2E]

/-- One component of the walk. -/
def descend (names : List Bytes) (component : Bytes) : List Bytes :=
  if component = [] ∨ component = dot then names
  else if component = dotDot then names.dropLast
  else names ++ [component]

/-- The names from the root to where the path leads. -/
def resolve (path : Bytes) : List Bytes := (path.splitOn slash).foldl descend []

/-- The path through these names. -/
def render (names : List Bytes) : Bytes := slash :: [slash].intercalate names

/-- A component that goes down. -/
structure IsName (component : Bytes) : Prop where
  nonempty : component ≠ []
  simple : slash ∉ component
  ne_dot : component ≠ dot
  ne_dotDot : component ≠ dotDot

/-! ## Resolving -/

theorem descend_name (h : IsName component) (names : List Bytes) :
    descend names component = names ++ [component] := by
  unfold descend
  rw [if_neg (not_or.mpr ⟨h.nonempty, h.ne_dot⟩), if_neg h.ne_dotDot]

theorem resolve_append (directory rest : Bytes) :
    resolve (directory ++ slash :: rest) = (rest.splitOn slash).foldl descend (resolve directory) := by
  unfold resolve
  rw [splitOn_append_cons_self, foldl_append]

/-- A path that ends in one more component. -/
theorem resolve_child (directory : Bytes) (h : slash ∉ component) :
    resolve (directory ++ slash :: component) = descend (resolve directory) component := by
  rw [resolve_append, splitOn_eq_singleton h]
  rfl

theorem resolve_slash (directory : Bytes) : resolve (directory ++ [slash]) = resolve directory := by
  rw [resolve_child directory not_mem_nil]
  exact if_pos (.inl rfl)

/-- Everything on the walk is a name. -/
theorem descend_names (hnames : ∀ n ∈ names, IsName n) (h : slash ∉ component)
    : ∀ n ∈ descend names component, IsName n := by
  unfold descend
  split
  · exact hnames
  · next hstay =>
      rw [not_or] at hstay
      split
      · exact fun n hn => hnames n (mem_of_mem_dropLast hn)
      · next hup =>
          intro n hn
          rcases mem_append.mp hn with hn | hn
          · exact hnames n hn
          · rw [mem_singleton.mp hn]
            exact ⟨hstay.1, h, hstay.2, hup⟩

theorem not_mem_splitOn {path component : Bytes} (h : component ∈ path.splitOn slash) :
    slash ∉ component := by
  induction path generalizing component with
  | nil =>
    rw [mem_singleton.mp h]
    exact not_mem_nil
  | cons b rest ih =>
    rw [splitOn_cons_eq_if_modifyHead] at h
    split at h
    · rcases mem_cons.mp h with rfl | h
      · exact not_mem_nil
      · exact ih h
    · next hb =>
        obtain ⟨head, tail, hsplit⟩ := exists_cons_of_ne_nil (splitOn_ne_nil slash rest)
        rw [hsplit, modifyHead_cons] at h
        rcases mem_cons.mp h with rfl | h
        · rw [mem_cons, not_or]
          exact ⟨fun heq => hb (by simp [heq]), ih (hsplit ▸ mem_cons_self)⟩
        · exact ih (hsplit ▸ mem_cons_of_mem _ h)

theorem foldl_descend_names {components names : List Bytes} (hnames : ∀ n ∈ names, IsName n)
    (hsimple : ∀ c ∈ components, slash ∉ c) : ∀ n ∈ components.foldl descend names, IsName n := by
  induction components generalizing names with
  | nil => exact hnames
  | cons component rest ih =>
    obtain ⟨hc, hrest⟩ := forall_mem_cons.mp hsimple
    exact ih (descend_names hnames hc) hrest

theorem resolve_names (path : Bytes) : ∀ n ∈ resolve path, IsName n :=
  foldl_descend_names (by simp) fun _ h => not_mem_splitOn h

/-! ## Rendering -/

theorem render_injective (ha : ∀ n ∈ a, IsName n) (hb : ∀ n ∈ b, IsName n) (h : render a = render b)
    : a = b := by
  have hbody : [slash].intercalate a = [slash].intercalate b := (cons.inj h).2
  -- The root alone has an empty body; the body of any name is not empty.
  have empty : ∀ {l : List Bytes}, (∀ n ∈ l, IsName n) → [slash].intercalate l = [] → l = [] := by
    intro l hl hempty
    cases l with
    | nil => rfl
    | cons n rest =>
      have hsplit := splitOn_intercalate slash (fun m hm => (hl m hm).simple)
        (cons_ne_nil n rest)
      rw [hempty] at hsplit
      have hn : n = [] := (cons.inj hsplit).1.symm
      exact absurd hn (hl n mem_cons_self).nonempty
  by_cases hnil : a = []
  · subst hnil
    exact (empty hb hbody.symm).symm
  · by_cases hnil' : b = []
    · subst hnil'
      exact empty ha hbody
    · rw [← splitOn_intercalate slash (fun n hn => (ha n hn).simple) hnil, hbody,
        splitOn_intercalate slash (fun n hn => (hb n hn).simple) hnil']

theorem intercalate_append (ha : a ≠ []) (hb : b ≠ []) : [separator].intercalate (a ++ b) =
      [separator].intercalate a ++ separator :: [separator].intercalate b := by
  induction a with
  | nil => exact absurd rfl ha
  | cons n rest ih =>
    cases rest with
    | nil => rw [singleton_append, intercalate_cons_of_ne_nil hb,
        intercalate_singleton, append_assoc, singleton_append]
    | cons m more =>
      rw [cons_append, intercalate_cons_of_ne_nil (append_ne_nil_of_right_ne_nil _ hb),
        ih (cons_ne_nil m more), intercalate_cons_of_ne_nil (cons_ne_nil m more),
        append_assoc, append_assoc, append_assoc]

/-- Below the root, a path continues another with a slash exactly when it lies inside it. -/
theorem render_inside (ha : ∀ n ∈ a, IsName n) (hb : ∀ n ∈ b, IsName n) (hne : a ≠ [])
    : (∃ rest, render b = render a ++ slash :: rest) ↔ a <+: b ∧ a ≠ b := by
  constructor
  · rintro ⟨rest, h⟩
    have hbody : [slash].intercalate b = [slash].intercalate a ++ slash :: rest := (cons.inj h).2
    have hb' : b ≠ [] := by
      rintro rfl
      exact absurd hbody.symm (by simp)
    have hsplit := congrArg (splitOn slash) hbody
    rw [splitOn_intercalate slash (fun n hn => (hb n hn).simple) hb', splitOn_append_cons_self,
      splitOn_intercalate slash (fun n hn => (ha n hn).simple) hne] at hsplit
    refine ⟨⟨_, hsplit.symm⟩, fun heq => ?_⟩
    rw [heq] at hsplit
    exact splitOn_ne_nil slash rest (self_eq_append_right.mp hsplit)
  · rintro ⟨⟨c, rfl⟩, hproper⟩
    have hc : c ≠ [] := by
      rintro rfl
      exact hproper (append_nil a).symm
    refine ⟨[slash].intercalate c, ?_⟩
    unfold render
    rw [intercalate_append hne hc]
    rfl

theorem render_eq_root (ha : ∀ n ∈ a, IsName n) : render a = [slash] ↔ a = [] := by
  constructor
  · intro h
    exact render_injective ha (by simp) h
  · rintro rfl
    rfl

/-! ## Case -/

/-- `tolower` of the C locale. -/
def toLower (b : UInt8) : UInt8 := if 0x41 ≤ b ∧ b ≤ 0x5A then b + 0x20 else b

def fold (bytes : Bytes) : Bytes := bytes.map toLower

/-- Folding neither makes nor removes a slash or a dot. -/
theorem toLower_eq_iff (b : UInt8) :
    (toLower b = slash ↔ b = slash) ∧ (toLower b = 0x2E ↔ b = 0x2E) := by
  have all : ∀ n < 256, (toLower (UInt8.ofNat n) = slash ↔ UInt8.ofNat n = slash) ∧
      (toLower (UInt8.ofNat n) = 0x2E ↔ UInt8.ofNat n = 0x2E) := by decide +kernel
  have h := all b.toNat b.toNat_lt
  rwa [UInt8.ofNat_toNat] at h

theorem fold_intercalate (names : List Bytes) :
    fold ([slash].intercalate names) = [slash].intercalate (names.map fold) := by
  induction names with
  | nil => rfl
  | cons n rest ih =>
    cases rest with
    | nil => rw [intercalate_singleton, map_singleton, intercalate_singleton]
    | cons m more =>
      have hsplit : fold (n ++ [slash] ++ [slash].intercalate (m :: more)) =
          fold n ++ [slash] ++ fold ([slash].intercalate (m :: more)) := by
        unfold fold
        rw [map_append, map_append]
        rfl
      have hmap : (n :: m :: more).map fold = fold n :: (m :: more).map fold := rfl
      rw [intercalate_cons_cons, hsplit, ih, hmap, intercalate_cons_of_ne_nil (by simp)]

theorem fold_render (names : List Bytes) : fold (render names) = render (names.map fold) := by
  show toLower slash :: fold ([slash].intercalate names) = _
  rw [fold_intercalate]
  rfl

theorem fold_isName (h : IsName name) : IsName (fold name) := by
  refine ⟨?_, ?_, ?_, ?_⟩
  · exact fun hnil => h.nonempty (map_eq_nil_iff.mp hnil)
  · intro hmem
    obtain ⟨b, hb, heq⟩ := mem_map.mp hmem
    exact h.simple ((toLower_eq_iff b).1.mp heq ▸ hb)
  · intro hdot
    obtain ⟨b, rfl, heq⟩ := map_eq_singleton_iff.mp hdot
    exact h.ne_dot (congrArg (fun c => [c]) ((toLower_eq_iff b).2.mp heq))
  · intro hdots
    obtain ⟨b, rest, rfl, hb, hrest⟩ := map_eq_cons_iff.mp hdots
    obtain ⟨c, rfl, hc⟩ := map_eq_singleton_iff.mp hrest
    refine h.ne_dotDot ?_
    rw [(toLower_eq_iff b).2.mp hb, (toLower_eq_iff c).2.mp hc]

theorem map_fold_names {names : List Bytes} (h : ∀ n ∈ names, IsName n) :
    ∀ n ∈ names.map fold, IsName n := by
  intro n hn
  obtain ⟨m, hm, rfl⟩ := mem_map.mp hn
  exact fold_isName (h m hm)

end WinCommander.Library.Path
