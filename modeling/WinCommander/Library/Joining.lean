/-
  Parts that are put together to arguments.

  A text is appended to the last argument if the part before says so, and starts a new one
  otherwise. Where an argument reaches over a cut depends on the first part after the cut that has
  a text, and on the part right before that one (`straddles_iff`).
-/
import WinCommander.Library.Numeral

namespace WinCommander.Library

open List Nat

variable {α β : Type}

/-- The last argument is continued, if there is one. -/
def commit (append : Bool) (args : List (List β)) (arg : List β) : List (List β) :=
  match append, args.getLast? with
  | true, some last => args.dropLast ++ [last ++ arg]
  | _, _ => args ++ [arg]

theorem commit_continued (args : List (List β)) (last arg : List β) :
    commit true (args ++ [last]) arg = args ++ [last ++ arg] := by
  unfold commit
  rw [List.getLast?_append, dropLast_concat]
  rfl

theorem commit_first (append : Bool) (arg : List β) : commit append [] arg = [arg] := by
  cases append <;> rfl

theorem commit_new (args : List (List β)) (arg : List β) : commit false args arg = args ++ [arg] := rfl

/-- What is put in place of pieces goes through. -/
theorem commit_flatMap (f : β → List γ) (append : Bool) (args : List (List β)) (arg : List β)
    : (commit append args arg).map (·.flatMap f) =
      commit append (args.map (·.flatMap f)) (arg.flatMap f) := by
  obtain rfl | ⟨init, last, rfl⟩ := eq_nil_or_concat args
  · rw [commit_first, map_nil, commit_first]
    rfl
  · rw [concat_eq_append, map_append]
    cases append with
    | false =>
      rw [commit_new, commit_new, map_append, map_append]
      rfl
    | true =>
      rw [map_singleton, commit_continued, commit_continued, map_append,
        map_singleton, flatMap_append]

structure Part (α : Type) where
  texts : List α
  /-- Not appended to what is before. -/
  detached : Bool
  /-- What is next may be appended. -/
  continues : Bool

/-- Parts with their numbers; a piece of an argument knows its part. -/
def joinFrom : Nat → Bool → List (List (Nat × α)) → List (Part α) → List (List (Nat × α))
  | _, _, args, [] => args
  | i, append, args, part :: parts =>
    joinFrom (i + 1) part.continues
      (part.texts.foldl (fun args text => commit (append && !part.detached) args [(i, text)]) args)
      parts

/-- The next text is appended. -/
def Attaches : Bool → List (Part α) → Prop
  | _, [] => False
  | append, part :: parts =>
    if part.texts = [] then Attaches part.continues parts
    else append = true ∧ part.detached = false

theorem foldl_commit_continued (i : Nat) (args : List (List (Nat × α))) (last : List (Nat × α))
    (texts : List α) :
    texts.foldl (fun args text => commit true args [(i, text)]) (args ++ [last]) =
      args ++ [last ++ texts.map fun text => (i, text)] := by
  induction texts generalizing last with
  | nil => rw [map_nil, append_nil, foldl_nil]
  | cons text texts ih =>
    rw [foldl_cons, commit_continued, ih, append_assoc, map_cons]
    rfl

theorem foldl_commit_new (i : Nat) (args : List (List (Nat × α))) (texts : List α) :
    texts.foldl (fun args text => commit false args [(i, text)]) args =
      args ++ texts.map fun text => [(i, text)] := by
  induction texts generalizing args with
  | nil => rw [map_nil, append_nil, foldl_nil]
  | cons text texts ih =>
    rw [foldl_cons, commit_new, ih, append_assoc, map_cons]
    rfl

/-- From an argument on, the parts continue it or not, and all others are new. -/
theorem joinFrom_continued (parts : List (Part α)) (i : Nat) (append : Bool)
    (init : List (List (Nat × α))) (last : List (Nat × α)) :
    ∃ ext new, joinFrom i append (init ++ [last]) parts = init ++ (last ++ ext) :: new ∧
      (∀ piece ∈ ext, i ≤ piece.1) ∧ (∀ arg ∈ new, ∀ piece ∈ arg, i ≤ piece.1) ∧
      (ext ≠ [] ↔ Attaches append parts) := by
  induction parts generalizing i append init last with
  | nil =>
    refine ⟨[], [], ?_, fun _ h => absurd h not_mem_nil, fun _ h => absurd h not_mem_nil,
      iff_of_false (fun h => h rfl) id⟩
    rw [append_nil]
    rfl
  | cons part parts ih =>
    unfold joinFrom Attaches
    by_cases hnone : part.texts = []
    · rw [hnone, foldl_nil, if_pos rfl]
      obtain ⟨ext, new, hargs, hext, hnew, hiff⟩ := ih (i + 1) part.continues init last
      exact ⟨ext, new, hargs, fun piece hpiece => le_of_succ_le (hext piece hpiece),
        fun arg harg piece hpiece => le_of_succ_le (hnew arg harg piece hpiece), hiff⟩
    · rw [if_neg hnone]
      cases happend : append && !part.detached with
      | true =>
        rw [Bool.and_eq_true, Bool.not_eq_true'] at happend
        rw [foldl_commit_continued]
        obtain ⟨ext, new, hargs, hext, hnew, -⟩ := ih (i + 1) part.continues init
          (last ++ part.texts.map fun text => (i, text))
        refine ⟨(part.texts.map fun text => (i, text)) ++ ext, new, ?_, ?_,
          fun arg harg piece hpiece => le_of_succ_le (hnew arg harg piece hpiece),
          iff_of_true ?_ happend⟩
        · rw [hargs, append_assoc]
        · intro piece hpiece
          obtain hthis | hlater := mem_append.mp hpiece
          · obtain ⟨text, -, rfl⟩ := mem_map.mp hthis
            exact Nat.le_refl i
          · exact le_of_succ_le (hext piece hlater)
        · exact append_ne_nil_of_left_ne_nil (map_eq_nil_iff.not.mpr hnone) ext
      | false =>
        have hnot : ¬(append = true ∧ part.detached = false) := by
          rw [← Bool.not_eq_true', ← Bool.and_eq_true, happend]
          exact Bool.false_ne_true
        rw [foldl_commit_new]
        -- the last text is what the rest may continue
        obtain ⟨texts, text, htexts⟩ := (eq_nil_or_concat part.texts).resolve_left hnone
        obtain ⟨ext, new, hargs, hext, hnew, -⟩ := ih (i + 1) part.continues
          (init ++ [last] ++ texts.map fun text => [(i, text)]) [(i, text)]
        refine ⟨[], (texts.map fun text => [(i, text)]) ++ ([(i, text)] ++ ext) :: new, ?_,
          fun _ h => absurd h not_mem_nil, ?_, iff_of_false (fun h => h rfl) hnot⟩
        · rw [htexts, concat_eq_append, map_append, map_singleton,
            ← append_assoc, hargs, append_nil]
          simp
        · intro arg harg piece hpiece
          obtain hthis | hlater := mem_append.mp harg
          · obtain ⟨text', -, rfl⟩ := mem_map.mp hthis
            obtain rfl := mem_singleton.mp hpiece
            exact Nat.le_refl i
          · obtain rfl | hmem := mem_cons.mp hlater
            · obtain hfirst | hmore := mem_append.mp hpiece
              · obtain rfl := mem_singleton.mp hfirst
                exact Nat.le_refl i
              · exact le_of_succ_le (hext piece hmore)
            · exact le_of_succ_le (hnew arg hmem piece hpiece)

theorem forall_commit {P : List β → Prop} {append : Bool} (hargs : ∀ other ∈ args, P other)
    (harg : P arg) (hjoin : ∀ other ∈ args, P other → P (other ++ arg)) :
    ∀ other ∈ commit append args arg, P other := by
  intro other hother
  obtain rfl | ⟨init, last, rfl⟩ := eq_nil_or_concat args
  · rw [commit_first] at hother
    obtain rfl := mem_singleton.mp hother
    exact harg
  · rw [concat_eq_append] at hother hargs hjoin
    have hlast : last ∈ init ++ [last] := mem_append_right init mem_cons_self
    cases append with
    | false =>
      rw [commit_new] at hother
      obtain hold | hnew := mem_append.mp hother
      · exact hargs other hold
      · obtain rfl := mem_singleton.mp hnew
        exact harg
    | true =>
      rw [commit_continued] at hother
      obtain hold | hnew := mem_append.mp hother
      · exact hargs other (mem_append_left _ hold)
      · obtain rfl := mem_singleton.mp hnew
        exact hjoin last hlast (hargs last hlast)

/-- Arguments are not empty, and their pieces come from the parts. -/
theorem joinFrom_bounds {low : Nat} (parts : List (Part α)) (i : Nat) (hlow : low ≤ i) (append : Bool)
    {args : List (List (Nat × α))}
    (hargs : ∀ arg ∈ args, arg ≠ [] ∧ ∀ piece ∈ arg, low ≤ piece.1 ∧ piece.1 < i) :
    ∀ arg ∈ joinFrom i append args parts, arg ≠ [] ∧
      ∀ piece ∈ arg, low ≤ piece.1 ∧ piece.1 < i + parts.length := by
  induction parts generalizing i append args with
  | nil => exact hargs
  | cons part parts ih =>
    have hcommitted : ∀ arg ∈ part.texts.foldl
        (fun args text => commit (append && !part.detached) args [(i, text)]) args,
        arg ≠ [] ∧ ∀ piece ∈ arg, low ≤ piece.1 ∧ piece.1 < i + 1 := by
      have hstart : ∀ arg ∈ args, arg ≠ [] ∧ ∀ piece ∈ arg, low ≤ piece.1 ∧ piece.1 < i + 1 :=
        fun arg harg => ⟨(hargs arg harg).1, fun piece hpiece =>
          ⟨((hargs arg harg).2 piece hpiece).1, lt_succ_of_lt ((hargs arg harg).2 piece hpiece).2⟩⟩
      generalize part.texts = texts
      clear hargs ih
      induction texts generalizing args with
      | nil => exact hstart
      | cons text texts ih =>
        rw [foldl_cons]
        have hpiece : ∀ piece ∈ [(i, text)], low ≤ piece.1 ∧ piece.1 < i + 1 := fun piece h => by
          obtain rfl := mem_singleton.mp h
          exact ⟨hlow, lt_succ_self i⟩
        refine ih (forall_commit hstart ⟨cons_ne_nil _ _, hpiece⟩ fun other _ hother => ⟨?_, ?_⟩)
        · exact append_ne_nil_of_left_ne_nil hother.1 _
        · exact fun piece h => (mem_append.mp h).elim (hother.2 piece) (hpiece piece)
    have hrest := ih (i + 1) (le_succ_of_le hlow) part.continues hcommitted
    rw [length_cons]
    intro arg harg
    refine ⟨(hrest arg harg).1, fun piece hpiece => ?_⟩
    have hbounds := (hrest arg harg).2 piece hpiece
    omega

theorem joinFrom_append (left right : List (Part α)) (i : Nat) (append : Bool)
    (args : List (List (Nat × α))) : joinFrom i append args (left ++ right) =
      joinFrom (i + left.length) ((left.getLast?.map (·.continues)).getD append)
        (joinFrom i append args left) right := by
  induction left generalizing i append args with
  | nil => rfl
  | cons part left ih =>
    have hlast : ((part :: left).getLast?.map (·.continues)).getD append =
        (left.getLast?.map (·.continues)).getD part.continues := by
      cases left with
      | nil => rfl
      | cons next left =>
        rfl
    rw [cons_append, hlast, length_cons, ← Nat.add_assoc, Nat.add_right_comm]
    exact ih _ _ _

theorem commit_ne_nil (append : Bool) (args : List (List β)) (arg : List β) :
    commit append args arg ≠ [] := by
  unfold commit
  split
  · exact concat_ne_nil _ _
  · exact concat_ne_nil _ _

/-- Nothing is there exactly if no part had a text. -/
theorem joinFrom_eq_nil_iff (parts : List (Part α)) (i : Nat) (append : Bool)
    (args : List (List (Nat × α))) :
    joinFrom i append args parts = [] ↔ args = [] ∧ ∀ part ∈ parts, part.texts = [] := by
  induction parts generalizing i append args with
  | nil => exact (and_iff_left fun _ h => absurd h not_mem_nil).symm
  | cons part parts ih =>
    unfold joinFrom
    rw [ih, forall_mem_cons, ← and_assoc]
    refine and_congr_left fun _ => ?_
    cases htexts : part.texts with
    | nil => exact (and_iff_left rfl).symm
    | cons text texts =>
      refine iff_of_false ?_ fun h => cons_ne_nil _ _ h.2
      rw [foldl_cons]
      generalize hstart : commit (append && !part.detached) args [(i, text)] = start
      have hne : start ≠ [] := hstart ▸ commit_ne_nil _ _ _
      clear hstart htexts
      induction texts generalizing start with
      | nil => exact hne
      | cons text texts ih => exact ih _ (commit_ne_nil _ _ _)

section Cuts

/-- The texts of a part, by its number. -/
def textsAt (parts : List (Part α)) (i : Nat) : List α := (parts[i]?.map (·.texts)).getD []

/-- The first part from a cut on that has a text. -/
structure FirstFrom (parts : List (Part α)) (k j : Nat) : Prop where
  after : k ≤ j
  texts : textsAt parts j ≠ []
  first : ∀ m, k ≤ m → m < j → textsAt parts m = []

/-- A part is appended to the one before. -/
def AttachedAt (parts : List (Part α)) (append : Bool) (j : Nat) : Prop :=
  (parts[j]?.map (·.detached)) = some false ∧
    (if j = 0 then append else (parts[j - 1]?.map (·.continues)).getD false) = true

theorem attaches_iff (parts : List (Part α)) (append : Bool) :
    Attaches append parts ↔ ∃ j, FirstFrom parts 0 j ∧ AttachedAt parts append j := by
  induction parts generalizing append with
  | nil => exact iff_of_false id fun ⟨j, hfirst, _⟩ => hfirst.texts rfl
  | cons part parts ih =>
    unfold Attaches
    split_ifs with hnone
    · rw [ih]
      constructor
      · rintro ⟨j, hfirst, hattached⟩
        refine ⟨j + 1, ⟨Nat.zero_le _, hfirst.texts, fun m _ hm => ?_⟩, hattached.1, ?_⟩
        · cases m with
          | zero => exact hnone
          | succ m => exact hfirst.first m (Nat.zero_le m) (lt_of_succ_lt_succ hm)
        · rw [if_neg (succ_ne_zero j), Nat.add_sub_cancel]
          cases j with
          | zero => exact hattached.2
          | succ j => exact hattached.2
      · rintro ⟨j, hfirst, hattached⟩
        cases j with
        | zero => exact absurd hnone hfirst.texts
        | succ j =>
          refine ⟨j, ⟨Nat.zero_le _, hfirst.texts, fun m _ hm =>
            hfirst.first (m + 1) (Nat.zero_le _) (succ_lt_succ hm)⟩, hattached.1, ?_⟩
          have hcontinues := hattached.2
          cases j with
          | zero => exact hcontinues
          | succ j => exact hcontinues
    · constructor
      · rintro ⟨happend, hdetached⟩
        exact ⟨0, ⟨Nat.le_refl 0, hnone, fun m _ hm => absurd hm (Nat.not_lt_zero m)⟩,
          congrArg some hdetached, happend⟩
      · rintro ⟨j, hfirst, hattached⟩
        cases j with
        | zero => exact ⟨hattached.2, Option.some.inj hattached.1⟩
        | succ j => exact absurd (hfirst.first 0 (Nat.le_refl 0) (succ_pos j)) hnone

theorem textsAt_drop (parts : List (Part α)) (k j : Nat) :
    textsAt (parts.drop k) j = textsAt parts (k + j) := by
  unfold textsAt
  rw [List.getElem?_drop]

/-- An argument has texts from both sides of a cut. -/
def Straddles (args : List (List (Nat × α))) (k : Nat) : Prop :=
  ∃ arg ∈ args, (∃ piece ∈ arg, piece.1 < k) ∧ ∃ piece ∈ arg, k ≤ piece.1

theorem exists_textsAt_iff (parts : List (Part α)) (k : Nat) :
    (∃ i < k, textsAt parts i ≠ []) ↔ ¬∀ part ∈ parts.take k, part.texts = [] := by
  constructor
  · rintro ⟨i, hi, htexts⟩ hnone
    unfold textsAt at htexts
    cases hpart : parts[i]? with
    | none =>
      rw [hpart] at htexts
      exact htexts rfl
    | some part =>
      rw [hpart] at htexts
      refine htexts (hnone part (mem_of_getElem? (i := i) ?_))
      rw [List.getElem?_take_of_lt hi, hpart]
  · intro hsome
    by_contra hnone
    refine hsome fun part hpart => ?_
    obtain ⟨i, hi⟩ := mem_iff_getElem?.mp hpart
    have hlt : i < k := by
      by_contra hge
      rw [List.getElem?_eq_none (by rw [length_take]; omega)] at hi
      cases hi
    rw [List.getElem?_take_of_lt hlt] at hi
    by_contra htexts
    refine hnone ⟨i, hlt, ?_⟩
    unfold textsAt
    rw [hi]
    exact htexts

/-- The first part after a cut, counted from the start. -/
theorem attaches_drop_iff {parts : List (Part α)} (hpos : 0 < k) (hk : k ≤ parts.length) :
    Attaches (((parts.take k).getLast?.map (·.continues)).getD false) (parts.drop k) ↔
      ∃ j, FirstFrom parts k j ∧ AttachedAt parts false j := by
  have hlast : (parts.take k).getLast? = parts[k - 1]? := by
    rw [List.getLast?_eq_getElem?, length_take, Nat.min_eq_left hk,
      List.getElem?_take_of_lt (sub_lt hpos Nat.one_pos)]
  have hattached : ∀ j, AttachedAt (parts.drop k)
      (((parts.take k).getLast?.map (·.continues)).getD false) j ↔ AttachedAt parts false (k + j) := by
    intro j
    unfold AttachedAt
    rw [List.getElem?_drop, if_neg (show ¬k + j = 0 by omega)]
    refine and_congr_right fun _ => ?_
    split_ifs with hzero
    · rw [hlast, hzero, Nat.add_zero]
    · rw [List.getElem?_drop, Nat.add_sub_assoc (one_le_iff_ne_zero.mpr hzero)]
  rw [attaches_iff]
  constructor
  · rintro ⟨j, hfirst, hj⟩
    refine ⟨k + j, ⟨Nat.le_add_right k j, ?_, fun m hm hlt => ?_⟩, (hattached j).mp hj⟩
    · rw [← textsAt_drop]
      exact hfirst.texts
    · have hnone := hfirst.first (m - k) (Nat.zero_le _) (by omega)
      rw [textsAt_drop, Nat.add_sub_cancel' hm] at hnone
      exact hnone
  · rintro ⟨j, hfirst, hj⟩
    obtain ⟨d, rfl⟩ := Nat.exists_eq_add_of_le hfirst.after
    refine ⟨d, ⟨Nat.zero_le d, ?_, fun m _ hm => ?_⟩, (hattached d).mpr hj⟩
    · rw [textsAt_drop]
      exact hfirst.texts
    · rw [textsAt_drop]
      exact hfirst.first (k + m) (Nat.le_add_right k m) (by omega)

theorem straddles_iff (parts : List (Part α)) (k : Nat) :
    Straddles (joinFrom 0 false [] parts) k ↔ (∃ i < k, textsAt parts i ≠ []) ∧
      ∃ j, FirstFrom parts k j ∧ AttachedAt parts false j := by
  by_cases hk : k ≤ parts.length
  · have hlength : (parts.take k).length = k := by
      rw [length_take, Nat.min_eq_left hk]
    have hbefore := @joinFrom_bounds α 0 (parts.take k) 0 (Nat.le_refl 0) false []
      fun _ h => absurd h not_mem_nil
    have hnil := joinFrom_eq_nil_iff (parts.take k) 0 false []
    have hsplit := joinFrom_append (parts.take k) (parts.drop k) 0 false []
    rw [take_append_drop, hlength, Nat.zero_add] at hsplit
    rw [hlength, Nat.zero_add] at hbefore
    rw [exists_textsAt_iff, hsplit]
    rcases eq_nil_or_concat (joinFrom 0 false [] (parts.take k)) with
      hempty | ⟨init, last, hargs⟩
    · have hnone := (hnil.mp hempty).2
      have hafter := @joinFrom_bounds α k (parts.drop k) k (Nat.le_refl k)
        (((parts.take k).getLast?.map (·.continues)).getD false) []
        fun _ h => absurd h not_mem_nil
      rw [hempty]
      refine iff_of_false ?_ fun h => h.1 hnone
      rintro ⟨arg, harg, ⟨piece, hpiece, hlt⟩, -⟩
      exact absurd ((hafter arg harg).2 piece hpiece).1 (Nat.not_le.mpr hlt)
    · rw [concat_eq_append] at hargs
      have hsome : ¬∀ part ∈ parts.take k, part.texts = [] := by
        intro hnone
        rw [hnil.mpr ⟨rfl, hnone⟩] at hargs
        exact concat_ne_nil last init hargs.symm
      have hpos : 0 < k := by
        refine Nat.pos_of_ne_zero fun hzero => hsome ?_
        rw [hzero, take_zero]
        exact fun _ h => absurd h not_mem_nil
      obtain ⟨ext, new, hall, hext, hnew, hiff⟩ := joinFrom_continued (parts.drop k) k
        (((parts.take k).getLast?.map (·.continues)).getD false) init last
      rw [hargs] at hbefore
      have hlast := hbefore last (mem_append_right init mem_cons_self)
      rw [and_iff_right hsome, ← attaches_drop_iff hpos hk, hargs, hall, ← hiff]
      constructor
      · rintro ⟨arg, harg, ⟨low, hlow, hlt⟩, ⟨high, hhigh, hge⟩⟩ hnoExt
        obtain hold | hrest := mem_append.mp harg
        · have hbound := (hbefore arg (mem_append_left _ hold)).2 high hhigh
          exact absurd hge (Nat.not_le.mpr hbound.2)
        · obtain rfl | hmem := mem_cons.mp hrest
          · rw [hnoExt, append_nil] at hhigh
            exact absurd hge (Nat.not_le.mpr (hlast.2 high hhigh).2)
          · exact absurd (hnew arg hmem low hlow) (Nat.not_le.mpr hlt)
      · intro hsomeExt
        obtain ⟨low, hlow⟩ := exists_mem_of_ne_nil last hlast.1
        obtain ⟨high, hhigh⟩ := exists_mem_of_ne_nil ext hsomeExt
        exact ⟨last ++ ext, mem_append_right init mem_cons_self,
          ⟨low, mem_append_left ext hlow, (hlast.2 low hlow).2⟩,
          ⟨high, mem_append_right last hhigh, hext high hhigh⟩⟩
  · have hbounds := @joinFrom_bounds α 0 parts 0 (Nat.le_refl 0) false []
      fun _ h => absurd h not_mem_nil
    constructor
    · rintro ⟨arg, harg, -, piece, hpiece, hge⟩
      have hlt := ((hbounds arg harg).2 piece hpiece).2
      omega
    · rintro ⟨-, j, hfirst, -⟩
      refine absurd ?_ hfirst.texts
      have hafter := hfirst.after
      unfold textsAt
      rw [List.getElem?_eq_none (by omega)]
      rfl

end Cuts

end WinCommander.Library
