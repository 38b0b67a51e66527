import Mathlib.Data.List.Induction
import TableGraph.Proofs.Dump.Grammar

/-! Where reading fails: at the first token that no accepted sequence goes on with, or at the end of
tokens that more of them would complete. -/

namespace TableGraph.Dump

def Accepted (ts : List Token) : Prop := .eof ∉ ts ∧ ∃ t, read (ts ++ [.eof]) = .ok t

def Viable (ts : List Token) : Prop := ∃ us, Accepted (ts ++ us)

inductive SpellsItems : List Token → Prop
  | one : Spells ts t → SpellsItems ts
  | next : SpellsItems ts → Spells us t → SpellsItems (ts ++ .comma :: us)

def EndsItem (ts : List Token) : Prop :=
  ∃ before items, ts = before ++ .openBracket :: items ∧ SpellsItems items

inductive Opens : List Token → Nat → Prop
  | start : Opens [] 0
  | array : Opens ts n → Opens (ts ++ [.openBracket]) (n + 1)
  | item : Opens ts n → SpellsItems us → Opens (ts ++ .openBracket :: (us ++ [.comma])) (n + 1)

theorem SpellsItems.array {ts us : List Token} {items : List Tree} (h : SpellsItems ts)
    (hr : SpellsRest us items) : ∃ t, Spells (.openBracket :: (ts ++ us)) t := by
  induction h generalizing us items with
  | one ht => exact ⟨_, ht.array hr⟩
  | next _ ht ih =>
    rw [List.append_assoc, List.cons_append]
    exact ih (.next ht hr)

namespace Progress

inductive Follows : List Token → Progress → Prop
  | before : Opens ts frames.length → Follows ts (.before frames)
  | after : Opens ts frames.length → SpellsItems us →
      Follows (ts ++ .openBracket :: us) (.after frame frames)
  | complete : Follows ts (.complete value)

theorem follows_place {ts us : List Token} {frames : List (List Tree)}
    (h : Opens ts frames.length) {t : Tree} (hu : Spells us t) (value : Tree) :
    Follows (ts ++ us) (place value frames) := by
  cases frames with
  | nil => exact .complete
  | cons frame frames =>
    rw [List.length_cons] at h
    cases h with
    | array h =>
      rw [List.append_assoc]
      exact .after h (.one hu)
    | item h hi =>
      rw [List.append_assoc, List.cons_append, List.append_assoc]
      exact .after h (.next hi hu)

theorem follows_close {ts : List Token} {frame : List Tree} {frames : List (List Tree)}
    (h : Opens ts (frame :: frames).length) :
    Follows (ts ++ [.closeBracket]) (close frame frames) := by
  rw [List.length_cons] at h
  cases h with
  | array h =>
    rw [List.append_assoc]
    exact follows_place h .empty _
  | item h hi =>
    obtain ⟨t, ht⟩ := hi.array .trailing
    rw [List.append_assoc, List.cons_append, List.append_assoc]
    exact follows_place h ht _

theorem Follows.step {ts : List Token} {p p' : Progress} (h : Follows ts p) {t : Token}
    (hs : p.step t = .ok p') : Follows (ts ++ [t]) p' := by
  cases h with
  | complete => cases hs
  | after h hi =>
    rw [List.append_assoc, List.cons_append]
    cases t with
    | comma =>
      cases hs
      exact .before (.item h hi)
    | closeBracket =>
      cases hs
      obtain ⟨t, ht⟩ := hi.array .close
      exact follows_place h ht _
    | _ => cases hs
  | before h =>
    rename_i frames
    cases t with
    | openBracket =>
      cases hs
      exact .before (.array h)
    | closeBracket =>
      cases frames with
      | nil => cases hs
      | cons frame frames =>
        cases hs
        exact follows_close h
    | symbol => cases hs; exact follows_place h .symbol _
    | str => cases hs; exact follows_place h .str _
    | int => cases hs; exact follows_place h .int _
    | float => cases hs; exact follows_place h .float _
    | bool => cases hs; exact follows_place h .bool _
    | nil => cases hs; exact follows_place h .nil _
    | comma => cases hs
    | eof => cases hs

theorem follows_of_steps {ts : List Token} {p : Progress} (h : (before []).steps ts = .ok p) :
    Follows ts p := by
  induction ts using List.reverseRecOn generalizing p with
  | nil =>
    cases h
    exact .before .start
  | append_singleton ts t ih =>
    rw [steps, List.foldlM_append, bind_eq_ok] at h
    obtain ⟨q, hq, h⟩ := h
    rw [List.foldlM_cons, bind_eq_ok] at h
    obtain ⟨_, hs, h⟩ := h
    cases h
    exact (ih hq).step hs

def wanted : Progress → Wanted
  | before _ => .value
  | after _ _ => .separator
  | complete _ => .endOfInput

theorem step_eq_error {p : Progress} {t : Token} (ht : t ≠ .eof) {e : Error}
    (h : p.step t = .error e) : e = .unexpected t p.wanted := by
  cases p with
  | before frames =>
    cases t with
    | eof => exact absurd rfl ht
    | closeBracket =>
      cases frames with
      | nil => cases h; rfl
      | cons frame frames => cases h
    | comma => cases h; rfl
    | _ => cases h
  | after frame frames =>
    cases t with
    | eof => exact absurd rfl ht
    | comma => cases h
    | closeBracket => cases h
    | _ => cases h; rfl
  | complete value => cases h; rfl

theorem finish_of_step_error {p : Progress} {t : Token} (ht : t ≠ .eof) {e : Error}
    (h : p.step t = .error e) (ts : List Token) : p.finish (t :: ts) = .error e := by
  cases p with
  | complete value =>
    cases t with
    | eof => exact absurd rfl ht
    | _ => simp only [finish, h]
  | before | after => simp only [finish, h]

theorem finish_eof {p : Progress} :
    p.finish [.eof] = match p with
      | complete value => .ok value
      | _ => .error .unexpectedEnd := by
  cases p with
  | before frames => cases frames <;> rfl
  | after frame frames => rfl
  | complete value => rfl

theorem exists_step_error {p : Progress} {ts : List Token} {e : Error}
    (h : p.steps ts = .error e) :
    ∃ us t vs q, ts = us ++ t :: vs ∧ p.steps us = .ok q ∧ q.step t = .error e := by
  induction ts generalizing p with
  | nil => cases h
  | cons t ts ih =>
    rw [steps, List.foldlM_cons] at h
    cases hs : p.step t with
    | error e' =>
      rw [hs] at h
      cases h
      exact ⟨[], t, ts, p, rfl, rfl, hs⟩
    | ok next =>
      rw [hs, ok_bind] at h
      obtain ⟨us, u, vs, q, rfl, hq, he⟩ := ih h
      refine ⟨t :: us, u, vs, q, rfl, ?_, he⟩
      rw [steps, List.foldlM_cons, hs, ok_bind]
      exact hq

theorem exists_finish_place (value : Tree) (frames : List (List Tree)) :
    ∃ us t, .eof ∉ us ∧ (place value frames).finish (us ++ [.eof]) = .ok t := by
  induction frames generalizing value with
  | nil => exact ⟨[], value, List.not_mem_nil, rfl⟩
  | cons frame frames ih =>
    obtain ⟨us, t, hus, h⟩ := ih (.ofItems (value :: frame).reverse)
    exact ⟨.closeBracket :: us, t, by simp [hus], h⟩

theorem exists_finish (p : Progress) :
    ∃ us t, .eof ∉ us ∧ p.finish (us ++ [.eof]) = .ok t := by
  cases p with
  | before frames =>
    obtain ⟨us, t, hus, h⟩ := exists_finish_place .nil frames
    exact ⟨.nil :: us, t, by simp [hus], h⟩
  | after frame frames =>
    obtain ⟨us, t, hus, h⟩ := exists_finish_place (.ofItems frame.reverse) frames
    exact ⟨.closeBracket :: us, t, by simp [hus], h⟩
  | complete value => exact ⟨[], value, List.not_mem_nil, rfl⟩

theorem steps_items {ts : List Token} (h : SpellsItems ts) (frame : List Tree)
    (frames : List (List Tree)) :
    ∃ frame', (before (frame :: frames)).steps ts = .ok (after frame' frames) := by
  induction h with
  | one ht => exact ⟨_, ht.steps _⟩
  | next _ ht ih =>
    obtain ⟨frame', h⟩ := ih
    rw [steps_append h]
    exact ⟨_, ht.steps (frame' :: frames)⟩

end Progress

open Progress

section

variable {ts : List Token} (hts : .eof ∉ ts) {p : Progress} (h : (before []).steps ts = .ok p)

include hts h

theorem viable_of_steps : Viable ts := by
  obtain ⟨us, t, hus, hu⟩ := exists_finish p
  refine ⟨us, by simp [hts, hus], t, ?_⟩
  rw [List.append_assoc, read, finish_of_steps h]
  exact hu

theorem accepted_iff : Accepted ts ↔ p.wanted = .endOfInput := by
  rw [Accepted, read, finish_of_steps h, finish_eof]
  cases p with
  | complete value => simp [hts, wanted]
  | _ => simp [wanted]

theorem endsItem_iff : EndsItem ts ↔ p.wanted = .separator := by
  constructor
  · rintro ⟨us, items, rfl, hi⟩
    rw [steps, List.foldlM_append, bind_eq_ok] at h
    obtain ⟨q, _, h⟩ := h
    rw [List.foldlM_cons, bind_eq_ok] at h
    obtain ⟨q', hq, h⟩ := h
    -- An array begins where a value is to come.
    cases q with
    | before frames =>
      cases hq
      obtain ⟨frame', hf⟩ := steps_items hi [] frames
      cases hf.symm.trans h
      rfl
    | after => cases hq
    | complete => cases hq
  · intro hw
    cases follows_of_steps h with
    | after _ hi => exact ⟨_, _, rfl, hi⟩
    | before | complete => cases hw

theorem read_of_steps : read (ts ++ [.eof]) = .error .unexpectedEnd ↔ ¬Accepted ts := by
  rw [accepted_iff hts h, read, finish_of_steps h, finish_eof]
  cases p <;> simp [wanted]

end

theorem read_of_step_error {us : List Token} {p : Progress} (h : (before []).steps us = .ok p)
    {t : Token} (ht : t ≠ .eof) {e : Error} (hs : p.step t = .error e) (vs : List Token) :
    read (us ++ t :: vs) = .error e := by
  rw [read, finish_of_steps h, finish_of_step_error ht hs]

theorem not_viable_of_step_error {us : List Token} {p : Progress}
    (h : (before []).steps us = .ok p) {t : Token} (ht : t ≠ .eof) {e : Error}
    (hs : p.step t = .error e) (vs : List Token) : ¬Viable (us ++ t :: vs) := by
  rintro ⟨ws, _, value, hr⟩
  rw [List.append_assoc, List.append_assoc, List.cons_append, read_of_step_error h ht hs] at hr
  cases hr

theorem steps_or_step_error {ts : List Token} (hts : .eof ∉ ts) :
    (∃ p, (before []).steps ts = .ok p) ∨
    ∃ us t vs p, ts = us ++ t :: vs ∧ t ≠ .eof ∧ (before []).steps us = .ok p ∧
      p.step t = .error (.unexpected t p.wanted) := by
  cases hs : (before []).steps ts with
  | ok p => exact .inl ⟨p, rfl⟩
  | error e =>
    obtain ⟨us, t, vs, p, rfl, hp, he⟩ := exists_step_error hs
    have ht : t ≠ .eof := by
      rintro rfl
      exact hts (by simp)
    rw [step_eq_error ht he] at he
    exact .inr ⟨us, t, vs, p, rfl, ht, hp, he⟩

/-- An unexpected token is the first that no accepted sequence goes on with, and the message names
what could stand there. The end is unexpected where only more tokens are missing. -/
theorem read_error_at_first_not_viable {ts : List Token} (hts : .eof ∉ ts) :
    (∀ e, read (ts ++ [.eof]) = .error e →
      e = .unexpectedEnd ∨ ∃ t wanted, e = .unexpected t wanted) ∧
    (∀ t wanted, read (ts ++ [.eof]) = .error (.unexpected t wanted) →
      ∃ k : Nat, ts[k]? = some t ∧ Viable (ts.take k) ∧ ¬Viable (ts.take (k + 1)) ∧
        (wanted.text = "end of input" ↔ Accepted (ts.take k)) ∧
        (wanted.text = "',' or ']'" ↔ EndsItem (ts.take k)) ∧
        (wanted.text = "value" ↔ ¬Accepted (ts.take k) ∧ ¬EndsItem (ts.take k))) ∧
    (read (ts ++ [.eof]) = .error .unexpectedEnd ↔ ¬Accepted ts ∧ Viable ts) := by
  obtain ⟨p, hp⟩ | ⟨us, t, vs, p, rfl, ht, hp, hs⟩ := steps_or_step_error hts
  -- Every token has a place, so that only the end can be unexpected.
  · have hv : Viable ts := viable_of_steps hts hp
    have hr := read_of_steps hts hp
    have he : ∀ e, read (ts ++ [.eof]) = .error e → e = .unexpectedEnd := by
      intro e he
      have ha : ¬Accepted ts := by
        rintro ⟨-, t, ht⟩
        cases he.symm.trans ht
      exact Except.error.inj (he.symm.trans (hr.mpr ha))
    refine ⟨fun e h => .inl (he e h), fun t wanted h => ?_, ?_⟩
    · cases he _ h
    · rw [hr]
      exact ⟨fun ha => ⟨ha, hv⟩, And.left⟩
  -- The tokens before `t` have one each, and are viable therefore.
  · have hus : .eof ∉ us := fun h => hts (List.mem_append_left _ h)
    have hr : read (us ++ t :: vs ++ [.eof]) = .error (.unexpected t p.wanted) := by
      rw [List.append_assoc, List.cons_append]
      exact read_of_step_error hp ht hs _
    have hv : ¬Viable (us ++ t :: vs) := not_viable_of_step_error hp ht hs vs
    rw [hr]
    refine ⟨?_, ?_, nofun, fun h => absurd h.2 hv⟩
    · intro e he
      exact .inr ⟨t, p.wanted, (Except.error.inj he).symm⟩
    · intro t' wanted he
      cases he
      have hk : (us ++ t :: vs).take us.length = us := List.take_left
      have hk' : (us ++ t :: vs).take (us.length + 1) = us ++ [t] := List.take_length_add_append 1
      refine ⟨us.length, by simp, ?_⟩
      rw [hk, hk', accepted_iff hus hp, endsItem_iff hus hp]
      refine ⟨viable_of_steps hus hp, not_viable_of_step_error hp ht hs [], ?_⟩
      cases p.wanted <;> decide

theorem read_error_missing_comma :
    let ts : List Token := [.openBracket, .openBracket, .symbol "a", .comma, .closeBracket,
      .str "b", .comma]
    .eof ∉ ts ∧ read (ts ++ [.eof]) = .error (.unexpected (.str "b") .separator) ∧
      Viable (ts.take 5) ∧ ¬Viable (ts.take 6) ∧ EndsItem (ts.take 5) := by
  intro ts
  have hts : .eof ∉ ts := by simp [ts]
  have hr : read (ts ++ [.eof]) = .error (.unexpected (.str "b") .separator) := rfl
  obtain ⟨k, hk, hv, hn, -, hi, -⟩ := (read_error_at_first_not_viable hts).2.1 _ _ hr
  have hl : k < 7 := (List.getElem?_eq_some_iff.mp hk).1
  have h5 : ∀ k < 7, ts[k]? = some (.str "b") → k = 5 := by
    simp only [ts]
    decide
  obtain rfl := h5 k hl hk
  exact ⟨hts, hr, hv, hn, hi.mp rfl⟩

end TableGraph.Dump
