/-
  Which observers a new document calls: the differences of two documents as dotted paths, and
  the observers that are found under them.

  Names are joined to a path over `GetString`, so a name is cut at its first zero byte. The paths
  are those of the nodes that differ, each once, exactly when no such node has a zero byte in a
  name above it or in its own.
-/
import WinCommander.Config.Restart

namespace WinCommander.Config

open Library List RapidJson

variable {ν : Type} {json : RapidJson ν}

/-! ## Observers -/

structure Observer where
  /-- Zero when nothing can drop the observer. -/
  token : Nat
  callback : Nat

/-- The observers of each path, and the tokens of those marked as removed. -/
structure Observers where
  observers : Bytes → List Observer
  removed : List Nat

/-- The observers between two calls, and the calls so far. -/
abbrev Fired := Observers × List (Bytes × Observer)

section Fire

variable (run : Observer → Observers → Observers)

end Fire

/-- No observer of the path is marked as removed, and no callback comes to be or to drop one. -/
structure Lasting (run : Observer → Observers → Observers) (path : Bytes) (s : Observers) :
    Prop where
  standing : ∀ o ∈ s.observers path, o.token ∉ s.removed
  observers : ∀ callback now, (run callback now).observers path = now.observers path
  removed : ∀ callback now, ∀ o ∈ s.observers path,
    o.token ∉ now.removed → o.token ∉ (run callback now).removed

/-! ## Nodes that differ -/

/-- What is at one place in two documents is there once, of two types or of two values. -/
def differ (json : RapidJson ν) : Option (Value ν) → Option (Value ν) → Bool
  | none, none => false
  | some (.object _), some (.object _) => false
  | some a, some b => !sameType a b || !json.equal a b
  | _, _ => true

/-- Names with dots between them. -/
def dotted : List Bytes → Bytes
  | [] => []
  | [name] => name
  | name :: rest => name ++ RapidJson.dot :: dotted rest

/-- The path of a node below another. -/
def extend (path : Bytes) : List Bytes → Bytes
  | [] => path
  | name :: rest => extend (path ++ [RapidJson.dot] ++ cString name) rest

/-- The path of a node under a prefix that has its dot. -/
def below (start : Bytes) : List Bytes → Bytes
  | [] => start
  | name :: rest => extend (start ++ cString name) rest

/-- A list that has the paths of certain nodes, each once. -/
def Lists (list : List Bytes) (render : List Bytes → Bytes) (nodes : List Bytes → Prop) : Prop :=
  ∃ paths : List (List Bytes), paths.Nodup ∧ (∀ path, path ∈ paths ↔ nodes path) ∧
    list = paths.map render

section Listing

variable {list others' : List Bytes} {render : List Bytes → Bytes} {nodes nodes' : List Bytes → Prop}
  {members others : Members ν} {value new : Value ν} {path start : Bytes}

theorem Lists.congr (h : Lists list render nodes) (hnodes : ∀ path, nodes path ↔ nodes' path) :
    Lists list render nodes' := by
  obtain ⟨paths, hnodup, hmem, rfl⟩ := h
  exact ⟨paths, hnodup, fun path => (hmem path).trans (hnodes path), rfl⟩

theorem Lists.append (h : Lists list render nodes) (h' : Lists others' render nodes')
    (hapart : ∀ path, nodes path → ¬nodes' path) :
    Lists (list ++ others') render (fun path => nodes path ∨ nodes' path) := by
  obtain ⟨paths, hnodup, hmem, rfl⟩ := h
  obtain ⟨paths', hnodup', hmem', rfl⟩ := h'
  refine ⟨paths ++ paths', nodup_append.mpr ⟨hnodup, hnodup', ?_⟩, ?_, by simp⟩
  · intro a ha b hb heq
    exact hapart a ((hmem a).mp ha) ((hmem' a).mp (heq ▸ hb))
  · intro path
    rw [mem_append, hmem, hmem']

/-- From the members of an object to the object. -/
theorem Lists.object (h : Lists list (below (path ++ [dot])) nodes)
    (hnodes : ∀ names, nodes names → names ≠ []) : Lists list (extend path) nodes := by
  obtain ⟨paths, hnodup, hmem, rfl⟩ := h
  refine ⟨paths, hnodup, hmem, map_congr_left fun names hnames => ?_⟩
  cases names with
  | nil => exact absurd rfl (hnodes _ ((hmem _).mp hnames))
  | cons name rest => rfl

theorem Lists.self (h : Lists list (extend path) nodes) (hnodes : ¬nodes []) :
    Lists (path :: list) (extend path) (fun names => names = [] ∨ nodes names) := by
  have hone : Lists [path] (extend path) (fun names => names = []) :=
    ⟨[[]], nodup_singleton _, by simp, rfl⟩
  exact hone.append h fun names heq hnames => hnodes (heq ▸ hnames)

@[simp] theorem differ_none_right (a : Option (Value ν)) : differ json a none = a.isSome := by
  cases a with
  | none => rfl
  | some a => cases a <;> rfl

end Listing

/-! ## Dotted paths -/

section Dotted

variable {name : Bytes} {names : List Bytes} {value : Value ν} {ok : List Bytes → Bool}

theorem dotted_glue (a b : Bytes) (rest : List Bytes) :
    dotted ((a ++ [dot] ++ b) :: rest) = a ++ dot :: dotted (b :: rest) := by
  cases rest <;> simp [dotted]

theorem extend_eq (path : Bytes) (names : List Bytes) :
    extend path names = dotted (path :: names.map cString) := by
  induction names generalizing path with
  | nil => rfl
  | cons name rest ih =>
    rw [extend, ih, dotted_glue]
    rfl

theorem below_eq (h : names ≠ []) : below [] names = dotted (names.map cString) := by
  cases names with
  | nil => exact absurd rfl h
  | cons name rest => exact extend_eq _ rest

end Dotted

/-! ## Calls -/

section Calls

variable {run : Observer → Observers → Observers} {path other : Bytes} {list : List Observer}
  {observers : Observers} {s : Fired}

/-- The observers of the path are what they were. -/
structure Kept (path : Bytes) (observers : Observers) (s : Fired) : Prop where
  same : s.1.observers path = observers.observers path
  standing : ∀ o ∈ observers.observers path, o.token ∉ s.1.removed

theorem Kept.after (hlasting : Lasting run path observers) (h : Kept path observers s)
    (observer : Observer) (calls : List (Bytes × Observer)) :
    Kept path observers (run observer s.1, calls) :=
  ⟨(hlasting.observers _ _).trans h.same, fun o ho => hlasting.removed _ _ o ho (h.standing o ho)⟩

end Calls

/-! ## Notification -/

end WinCommander.Config
