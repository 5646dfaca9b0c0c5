/-
  Reviews: computations over a state that collects objections.

  A review may return early and may object, but it carries the proof that it never takes an
  objection back: a state that is clean at its end was clean at its start, hence all along.
  `Ensures` is what a review has established when nothing was objected to. There is one rule
  for each way of composing reviews; `Ensures.forEach` is the loop rule.
-/
import Mathlib

namespace WinCommander.Library

/-- A review over states `σ`; an early return has no value. -/
structure Review (σ : Type) (clean : σ → Prop) (α : Type) where
  run : σ → σ × Option α
  keeps : ∀ s, clean (run s).1 → clean s

namespace Review

variable {σ α β : Type} {clean : σ → Prop}

def ret (a : α) : Review σ clean α := ⟨fun s => (s, some a), fun _ h => h⟩

def andThen (m : Review σ clean α) (f : α → Review σ clean β) : Review σ clean β where
  run s :=
    match m.run s with
    | (s', some a) => (f a).run s'
    | (s', none) => (s', none)
  keeps s h := by
    refine m.keeps s ?_
    split at h
    · next s' a hrun =>
        rw [hrun]
        exact (f a).keeps s' h
    · next s' hrun =>
        rw [hrun]
        exact h

instance : Monad (Review σ clean) where
  pure := ret
  bind := andThen

/-- A change of the state that takes no objection back. -/
def act (f : σ → σ × α) (h : ∀ s, clean (f s).1 → clean s) : Review σ clean α :=
  ⟨fun s => ((f s).1, some (f s).2), h⟩

def read (f : σ → α) : Review σ clean α := act (fun s => (s, f s)) fun _ h => h

def modify (f : σ → σ) (h : ∀ s, clean (f s) → clean s) : Review σ clean Unit :=
  act (fun s => (f s, ())) h

/-- Return early. -/
def leave : Review σ clean α := ⟨fun s => (s, none), fun _ h => h⟩

/-- The value that the review finds, or an early return. -/
def orLeave (m : Review σ clean (Option α)) : Review σ clean α :=
  andThen m fun
    | some a => ret a
    | none => leave

def doIf (c : Prop) [Decidable c] (m : Review σ clean Unit) : Review σ clean Unit :=
  if c then m else ret ()

def leaveIf (c : Prop) [Decidable c] : Review σ clean Unit := doIf c leave

/-- The call of a function: an early return ends the call only. -/
def call (m : Review σ clean Unit) : Review σ clean Unit :=
  ⟨fun s => ((m.run s).1, some ()), m.keeps⟩

/-- A loop that breaks once `stop` holds. -/
def forEach (stop : σ → Bool) (body : β → Review σ clean Unit) : List β → Review σ clean Unit
  | [] => ret ()
  | b :: rest => do
      if ← read stop then return ()
      else
        call (body b)
        forEach stop body rest

/-! ## What clean runs establish -/

/-- Without objection, the review ends in `P`, or returns early in `Q`. -/
def Ensures (m : Review σ clean α) (s : σ) (P : α → σ → Prop) (Q : σ → Prop) : Prop :=
  clean (m.run s).1 → match (m.run s).2 with
    | some a => P a (m.run s).1
    | none => Q (m.run s).1

namespace Ensures

variable {m : Review σ clean α} {s : σ} {a : α} {P P' : α → σ → Prop} {Q Q' : σ → Prop}

theorem weaken (h : m.Ensures s P Q) (hP : ∀ a t, P a t → P' a t) (hQ : ∀ t, Q t → Q' t) :
    m.Ensures s P' Q' := by
  intro hclean
  have hmatch := h hclean
  cases hvalue : (m.run s).2 with
  | none =>
    rw [hvalue] at hmatch
    exact hQ _ hmatch
  | some a =>
    rw [hvalue] at hmatch
    exact hP a _ hmatch

theorem pure (h : P a s) : (Pure.pure a : Review σ clean α).Ensures s P Q := fun _ => h

theorem bind {f : α → Review σ clean β} {P : β → σ → Prop} {R : α → σ → Prop}
    (hm : m.Ensures s R Q) (hf : ∀ a t, R a t → (f a).Ensures t P Q) : (m >>= f).Ensures s P Q := by
  intro hclean
  have hrun : (m >>= f).run s = (andThen m f).run s := rfl
  rw [hrun] at hclean ⊢
  unfold andThen at hclean ⊢
  dsimp only at hclean ⊢
  cases hms : m.run s with
  | mk t value =>
    rw [hms] at hclean
    unfold Ensures at hm
    rw [hms] at hm
    cases value with
    | none => exact hm hclean
    | some a => exact hf a t (hm ((f a).keeps t hclean)) hclean

theorem act {f : σ → σ × α} {hf : ∀ s, clean (f s).1 → clean s}
    (h : clean (f s).1 → P (f s).2 (f s).1) : (act f hf).Ensures s P Q := h

theorem read {f : σ → α} (h : P (f s) s) : (read f : Review σ clean α).Ensures s P Q := fun _ => h

theorem modify {f : σ → σ} {hf : ∀ s, clean (f s) → clean s} {P : Unit → σ → Prop}
    (h : clean (f s) → P () (f s)) : (modify f hf).Ensures s P Q := h

theorem leave (h : Q s) : (leave : Review σ clean α).Ensures s P Q := fun _ => h

theorem orLeave {m : Review σ clean (Option α)}
    (h : m.Ensures s (fun o t => match o with | some a => P a t | none => Q t) Q) :
    (orLeave m).Ensures s P Q := by
  refine bind h ?_
  intro o t ho
  cases o with
  | none => exact leave ho
  | some a => exact pure ho

theorem doIf {c : Prop} [Decidable c] {m : Review σ clean Unit} {P : Unit → σ → Prop}
    (hdo : c → m.Ensures s P Q) (hskip : ¬c → P () s) : (doIf c m).Ensures s P Q := by
  unfold Review.doIf
  split_ifs with hc
  · exact hdo hc
  · exact pure (hskip hc)

theorem leaveIf {c : Prop} [Decidable c] {P : Unit → σ → Prop} (hleave : c → Q s)
    (hstay : ¬c → P () s) : (leaveIf c : Review σ clean Unit).Ensures s P Q :=
  doIf (fun hc => leave (hleave hc)) hstay

theorem call {m : Review σ clean Unit} {P : Unit → σ → Prop}
    (h : m.Ensures s (fun _ => P ()) (P ())) : (call m).Ensures s P Q := by
  intro hclean
  have hmatch := h hclean
  cases hvalue : (m.run s).2 with
  | none =>
    rw [hvalue] at hmatch
    exact hmatch
  | some a =>
    rw [hvalue] at hmatch
    exact hmatch

/-- The loop rule: `I done` holds when the loop has done `done`, and keeps it from breaking. -/
theorem forEach {stop : σ → Bool} {body : β → Review σ clean Unit} (I : List β → σ → Prop)
    (hstop : ∀ done s, I done s → stop s = false) (done items : List β)
    (hstep : ∀ before b after s, before ++ b :: after = done ++ items → I before s →
      (body b).Ensures s (fun _ => I (before ++ [b])) (I (before ++ [b])))
    (hs : I done s) : (forEach stop body items).Ensures s (fun _ => I (done ++ items)) Q := by
  induction items generalizing done s with
  | nil =>
    rw [List.append_nil]
    exact pure hs
  | cons b rest ih =>
    refine bind (R := fun stopped t => stopped = stop t ∧ I done t) (read ⟨rfl, hs⟩) ?_
    rintro stopped t ⟨rfl, ht⟩
    rw [if_neg (by rw [hstop done t ht]; exact Bool.false_ne_true)]
    refine bind (call (P := fun _ => I (done ++ [b])) (hstep done b rest t rfl ht)) ?_
    intro _ u hu
    have hall : (done ++ [b]) ++ rest = done ++ b :: rest := by
      rw [List.append_assoc, List.singleton_append]
    rw [← hall] at hstep ⊢
    exact ih (done ++ [b]) hstep hu

end Ensures

end Review

end WinCommander.Library
