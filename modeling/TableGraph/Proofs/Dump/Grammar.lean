import Mathlib.Data.List.Basic
import TableGraph.Dump.Progress
import TableGraph.Proofs.Rel
import TableGraph.Proofs.Tree.Occurs

namespace TableGraph.Dump

mutual

/-- An atom, or an array with commas between its items and at most one after the last. -/
inductive Spells : List Token → Tree → Prop
  | symbol : Spells [.symbol text] (.symbol text)
  | str : Spells [.str text] (.str text)
  | int : Spells [.int value] (.int value)
  | float : Spells [.float value] (.float value)
  | bool : Spells [.bool value] (.bool value)
  | nil : Spells [.nil] .nil
  | empty : Spells [.openBracket, .closeBracket] (.list [])
  | tagged : SpellsRest ts children →
      Spells (.openBracket :: .symbol tag :: ts) (.tagged tag children)
  | list : Spells ts t → (∀ text, ts ≠ [.symbol text]) → SpellsRest us items →
      Spells (.openBracket :: (ts ++ us)) (.list (t :: items))

inductive SpellsRest : List Token → List Tree → Prop
  | close : SpellsRest [.closeBracket] []
  | trailing : SpellsRest [.comma, .closeBracket] []
  | next : Spells ts t → SpellsRest us items → SpellsRest (.comma :: (ts ++ us)) (t :: items)

end

namespace Progress

theorem finish_of_step {p p' : Progress} {t : Token} (h : p.step t = .ok p') (ts : List Token) :
    p.finish (t :: ts) = p'.finish ts := by
  cases p with
  | before frames => simp [finish, h]
  | after frame frames => simp [finish, h]
  | complete value => cases h

def steps (p : Progress) (ts : List Token) : Except Error Progress := ts.foldlM step p

theorem steps_append {p p' : Progress} {ts : List Token} (h : p.steps ts = .ok p')
    (us : List Token) : p.steps (ts ++ us) = p'.steps us := by
  rw [steps, List.foldlM_append]
  rw [steps] at h
  rw [h]
  rfl

theorem finish_of_steps {p p' : Progress} {ts : List Token} (h : p.steps ts = .ok p')
    (us : List Token) : p.finish (ts ++ us) = p'.finish us := by
  induction ts generalizing p with
  | nil =>
    cases h
    rfl
  | cons t ts ih =>
    obtain ⟨next, hs, h⟩ := bind_eq_ok.mp h
    rw [List.cons_append, finish_of_step hs, ih h]

theorem step_before_atom {t : Token} {value : Tree} (h : t.atom? = some value)
    (frames : List (List Tree)) : (before frames).step t = .ok (place value frames) := by
  cases t <;> cases h <;> rfl

theorem step_of_finish {p : Progress} {t : Token} {ts : List Token} {value : Tree}
    (h : p.finish (t :: ts) = .ok value) (hp : ∀ v, p ≠ .complete v) :
    ∃ p', p.step t = .ok p' ∧ p'.finish ts = .ok value := by
  cases p with
  | complete v => exact absurd rfl (hp v)
  | before | after =>
    simp only [finish] at h
    split at h
    · cases h
    · next p' hs => exact ⟨p', hs, h⟩

def BeforeSound (ts : List Token) : Prop :=
  ∀ frames value, (before frames).finish ts = .ok value →
    (∃ us vs t, ts = us ++ vs ∧ Spells us t ∧ (place t frames).finish vs = .ok value) ∨
    ∃ frame rest vs, frames = frame :: rest ∧ ts = .closeBracket :: vs ∧
      (close frame rest).finish vs = .ok value

def AfterSound (ts : List Token) : Prop :=
  ∀ frame frames value, (after frame frames).finish ts = .ok value →
    ∃ us vs items, ts = us ++ vs ∧ SpellsRest us items ∧
      (place (.ofItems (frame.reverse ++ items)) frames).finish vs = .ok value

end Progress

theorem Spells.eq_symbol {ts : List Token} {text : String} (h : Spells ts (.symbol text)) :
    ts = [.symbol text] := by
  cases h
  rfl

theorem Spells.not_isSymbol {ts : List Token} {t : Tree} (h : Spells ts t)
    (hts : ∀ text, ts ≠ [.symbol text]) : ¬t.IsSymbol := by
  cases t with
  | symbol text => exact absurd h.eq_symbol (hts text)
  | _ => exact id

mutual

theorem Spells.steps {ts : List Token} {t : Tree} (h : Spells ts t) (frames : List (List Tree)) :
    (Progress.before frames).steps ts = .ok (Progress.place t frames) := by
  cases h with
  | symbol => rfl
  | str => rfl
  | int => rfl
  | float => rfl
  | bool => rfl
  | nil => rfl
  | empty => rfl
  | tagged hr => exact hr.steps _ frames
  | list ht hs hr =>
    rename_i ts t us items
    calc (Progress.before frames).steps (.openBracket :: (ts ++ us))
        = (Progress.before ([] :: frames)).steps (ts ++ us) := rfl
      _ = (Progress.after [t] frames).steps us := Progress.steps_append (ht.steps _) us
      _ = .ok (Progress.place (.ofItems (t :: items)) frames) := hr.steps [t] frames
      _ = .ok (Progress.place (.list (t :: items)) frames) := by
          rw [Tree.ofItems_cons (ht.not_isSymbol hs)]

theorem SpellsRest.steps {ts : List Token} {items : List Tree} (h : SpellsRest ts items)
    (frame : List Tree) (frames : List (List Tree)) :
    (Progress.after frame frames).steps ts =
      .ok (Progress.place (.ofItems (frame.reverse ++ items)) frames) := by
  cases h with
  | close => rw [List.append_nil]; rfl
  | trailing => rw [List.append_nil]; rfl
  | next ht hr =>
    rename_i ts t us items
    calc (Progress.after frame frames).steps (.comma :: (ts ++ us))
        = (Progress.before (frame :: frames)).steps (ts ++ us) := rfl
      _ = (Progress.after (t :: frame) frames).steps us := Progress.steps_append (ht.steps _) us
      _ = .ok (Progress.place (.ofItems ((t :: frame).reverse ++ items)) frames) :=
          hr.steps (t :: frame) frames
      _ = .ok (Progress.place (.ofItems (frame.reverse ++ t :: items)) frames) := by simp

end

theorem Spells.array {ts us : List Token} {t : Tree} {items : List Tree} (ht : Spells ts t)
    (hr : SpellsRest us items) :
    Spells (.openBracket :: (ts ++ us)) (Tree.ofItems (t :: items)) := by
  by_cases hs : ∃ text, ts = [.symbol text]
  · obtain ⟨text, rfl⟩ := hs
    cases ht
    exact .tagged hr
  · have hts : ∀ text, ts ≠ [.symbol text] := fun text he => hs ⟨text, he⟩
    rw [Tree.ofItems_cons (ht.not_isSymbol hts)]
    exact .list ht hts hr

namespace Progress

theorem beforeSound_cons {t : Token} {ts : List Token} (hb : BeforeSound ts)
    (ha : ∀ us vs, ts = us ++ vs → AfterSound vs) : BeforeSound (t :: ts) := by
  intro frames value h
  obtain ⟨p, hs, h⟩ := step_of_finish h nofun
  cases t with
  | openBracket =>
    cases hs
    left
    cases hb ([] :: frames) value h with
    | inl h =>
      obtain ⟨us, vs, t, rfl, ht, h⟩ := h
      -- The first item ends before `vs`, and the array goes on from there.
      obtain ⟨us', vs', items, rfl, hr, h⟩ := ha us vs rfl [t] frames value h
      exact ⟨.openBracket :: (us ++ us'), vs', _, by simp, ht.array hr, h⟩
    | inr h =>
      obtain ⟨frame, rest, vs, hf, rfl, h⟩ := h
      cases hf
      exact ⟨[.openBracket, .closeBracket], vs, _, rfl, .empty, h⟩
  | closeBracket =>
    cases frames with
    | nil => cases hs
    | cons frame rest =>
      cases hs
      exact .inr ⟨frame, rest, ts, rfl, rfl, h⟩
  | symbol text => cases hs; exact .inl ⟨[.symbol text], ts, _, rfl, .symbol, h⟩
  | str text => cases hs; exact .inl ⟨[.str text], ts, _, rfl, .str, h⟩
  | int n => cases hs; exact .inl ⟨[.int n], ts, _, rfl, .int, h⟩
  | float x => cases hs; exact .inl ⟨[.float x], ts, _, rfl, .float, h⟩
  | bool b => cases hs; exact .inl ⟨[.bool b], ts, _, rfl, .bool, h⟩
  | nil => cases hs; exact .inl ⟨[.nil], ts, _, rfl, .nil, h⟩
  | comma => cases hs
  | eof => cases hs

theorem afterSound_cons {t : Token} {ts : List Token} (hb : BeforeSound ts)
    (ha : ∀ us vs, ts = us ++ vs → AfterSound vs) : AfterSound (t :: ts) := by
  intro frame frames value h
  obtain ⟨p, hs, h⟩ := step_of_finish h nofun
  cases t with
  | comma =>
    cases hs
    cases hb (frame :: frames) value h with
    | inl h =>
      obtain ⟨us, vs, t, rfl, ht, h⟩ := h
      obtain ⟨us', vs', items, rfl, hr, h⟩ := ha us vs rfl (t :: frame) frames value h
      exact ⟨.comma :: (us ++ us'), vs', t :: items, by simp, .next ht hr, by simpa using h⟩
    | inr h =>
      obtain ⟨frame', rest, vs, hf, rfl, h⟩ := h
      cases hf
      exact ⟨[.comma, .closeBracket], vs, [], rfl, .trailing, by rwa [List.append_nil]⟩
  | closeBracket =>
    cases hs
    exact ⟨[.closeBracket], ts, [], rfl, .close, by rwa [List.append_nil]⟩
  | _ => cases hs

theorem sound (ts : List Token) : BeforeSound ts ∧ AfterSound ts := by
  -- An item of any length may stand between two tokens of an array, so the induction is on length.
  induction hn : ts.length using Nat.strongRecOn generalizing ts with
  | ind n ih =>
    cases ts with
    | nil => exact ⟨nofun, nofun⟩
    | cons t ts =>
      have hb : BeforeSound ts := (ih ts.length (by simp [← hn]) ts rfl).1
      have ha : ∀ us vs, ts = us ++ vs → AfterSound vs := by
        intro us vs he
        have hl : vs.length < n := by
          simp only [← hn, he, List.length_cons, List.length_append]
          omega
        exact (ih vs.length hl vs rfl).2
      exact ⟨beforeSound_cons hb ha, afterSound_cons hb ha⟩

end Progress

theorem read_of_spells {ts : List Token} {t : Tree} (h : Spells ts t) :
    read (ts ++ [.eof]) = .ok t :=
  Progress.finish_of_steps (h.steps []) [.eof]

theorem spells_of_read {ts : List Token} (hts : .eof ∉ ts) {t : Tree}
    (h : read (ts ++ [.eof]) = .ok t) : Spells ts t := by
  cases (Progress.sound _).1 [] t h with
  | inl h =>
    obtain ⟨us, vs, u, he, hu, h⟩ := h
    cases vs with
    | nil => cases h
    | cons v vs =>
      cases v with
      | eof =>
        obtain ⟨rfl, _⟩ := (List.append_cons_inj_of_notMem hts List.not_mem_nil).mp he
        cases h
        exact hu
      | _ => cases h
  | inr h =>
    obtain ⟨_, _, _, hf, _⟩ := h
    cases hf

mutual

theorem Spells.not_looksTagged {ts : List Token} {t : Tree} (h : Spells ts t) :
    t.Everywhere (¬·.LooksTagged) := by
  rw [Tree.everywhere_iff]
  cases h with
  | tagged hr => exact ⟨id, hr.not_looksTagged⟩
  | list ht hs hr =>
    refine ⟨ht.not_isSymbol hs, ?_⟩
    intro c hc
    cases hc with
    | head => exact ht.not_looksTagged
    | tail _ hc => exact hr.not_looksTagged c hc
  | _ => exact ⟨id, nofun⟩

theorem SpellsRest.not_looksTagged {ts : List Token} {items : List Tree}
    (h : SpellsRest ts items) : ∀ t ∈ items, t.Everywhere (¬·.LooksTagged) := by
  cases h with
  | next ht hr =>
    intro t hm
    cases hm with
    | head => exact ht.not_looksTagged
    | tail _ hm => exact hr.not_looksTagged t hm
  | _ => nofun

end

/-- Reading accepts what the grammar derives and nothing else, and gives the tree of the derivation,
in which an array with a symbol in front is always tagged. -/
theorem read_eq_ok_iff {ts : List Token} (hts : .eof ∉ ts) :
    (∀ t, read (ts ++ [.eof]) = .ok t ↔ Spells ts t) ∧
    (∀ t u, Spells ts t → Spells ts u → t = u) ∧
    ∀ t, Spells ts t → t.Everywhere (¬·.LooksTagged) := by
  refine ⟨fun t => ⟨spells_of_read hts, read_of_spells⟩, ?_, fun t => Spells.not_looksTagged⟩
  intro t u ht hu
  exact Except.ok.inj ((read_of_spells ht).symm.trans (read_of_spells hu))

theorem read_trailing_comma :
    let ts : List Token := [.openBracket, .symbol "a", .comma, .openBracket, .str "b", .comma,
      .closeBracket, .comma, .closeBracket]
    .eof ∉ ts ∧ read (ts ++ [.eof]) = .ok (.tagged "a" [.list [.str "b"]]) := by
  intro ts
  have hts : .eof ∉ ts := by simp [ts]
  have hb : Spells [.openBracket, .str "b", .comma, .closeBracket] (.list [.str "b"]) :=
    .list .str nofun .trailing
  exact ⟨hts, ((read_eq_ok_iff hts).1 _).mpr (.tagged (.next hb .trailing))⟩

end TableGraph.Dump
