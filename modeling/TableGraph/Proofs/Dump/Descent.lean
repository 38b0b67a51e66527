import TableGraph.Proofs.Dump.ReadOn
import TableGraph.Proofs.Dump.Viable

namespace TableGraph.Dump

namespace Token

theorem ofNumber_ne_eof {word : List Char} {t : Token} (h : ofNumber word = .ok t) : t ≠ .eof := by
  rw [ofNumber] at h
  split at h
  · next hn =>
    cases h
    split at hn
    · obtain ⟨x, _, rfl⟩ := Option.map_eq_some_iff.mp hn
      rintro ⟨⟩
    · obtain ⟨n, _, rfl⟩ := Option.map_eq_some_iff.mp hn
      rintro ⟨⟩
  · cases h

theorem ofWord_ne_eof {word : List Char} {t : Token} (h : ofWord word = .ok t) : t ≠ .eof := by
  rw [ofWord] at h
  split at h
  · cases h
    rintro ⟨⟩
  split at h
  · cases h
    rintro ⟨⟩
  split at h
  · cases h
    rintro ⟨⟩
  · cases h

theorem takeFrom_ne_eof {c : Char} {cs rest : List Char} {t : Token}
    (h : takeFrom c cs = .ok (t, rest)) : t ≠ .eof := by
  rw [takeFrom] at h
  split at h
  · cases h
    rintro ⟨⟩
  split at h
  · cases h
    rintro ⟨⟩
  split at h
  · cases h
    rintro ⟨⟩
  split at h
  · obtain ⟨p, _, he⟩ := map_eq_ok.mp h
    cases he
    rintro ⟨⟩
  split at h
  · obtain ⟨p, _, he⟩ := map_eq_ok.mp h
    cases he
    rintro ⟨⟩
  split at h
  · obtain ⟨u, hu, he⟩ := map_eq_ok.mp h
    cases he
    exact ofNumber_ne_eof hu
  split at h
  · obtain ⟨u, hu, he⟩ := map_eq_ok.mp h
    cases he
    exact ofWord_ne_eof hu
  · cases h

theorem take_ne_eof {cs rest : List Char} {t : Token} (h : take cs = .ok (some (t, rest))) :
    t ≠ .eof := by
  rw [take] at h
  split at h
  · cases h
  · obtain ⟨⟨u, r⟩, hf, he⟩ := map_eq_ok.mp h
    cases he
    exact takeFrom_ne_eof hf

end Token

theorem tokens_ended {cs : List Char} {ts : List Token} (h : tokens cs = .ok ts) :
    ∃ us, ts = us ++ [.eof] ∧ .eof ∉ us ∧ us.length ≤ cs.length := by
  fun_induction tokens cs generalizing ts with
  | case1 => cases h
  | case2 =>
    cases h
    exact ⟨[], rfl, List.not_mem_nil, Nat.zero_le _⟩
  | case3 => cases h
  | case4 cs t rest ht ts' hr ih =>
    cases h
    obtain ⟨us, rfl, hus, hl⟩ := ih hr
    have hlt := Token.take_length ht
    refine ⟨t :: us, rfl, ?_, ?_⟩
    · rw [List.mem_cons, not_or]
      exact ⟨(Token.take_ne_eof ht).symm, hus⟩
    · rw [List.length_cons]
      omega

structure Cursor where
  position : Nat
  looks : List Nat

/-- A computation that moves a cursor. It can fail, or break off without a result. -/
abbrev Descent := ExceptT Error (StateT Cursor Option)

namespace Descent

variable {α β : Type}

section

variable (ts : List Token)

def peek : Descent Token := do
  let c ← get
  set { c with looks := c.position :: c.looks }
  return ts.getD c.position .eof

def advance : Descent Token := do
  let t ← peek ts
  modify fun c => { c with position := c.position + 1 }
  return t

mutual

/-- A value, unless more calls than this have to be within each other. -/
def value : Nat → Descent Tree
  | 0 => liftM (none : Option Tree)
  | n + 1 => do
    match ← advance ts with
    | .openBracket => array n []
    | .eof => throw .unexpectedEnd
    | t => t.atom?.elim (throw (.unexpected t .value)) pure

/-- The rest of an array behind its opening bracket and the items in `front`, the last first. -/
def array : Nat → List Tree → Descent Tree
  | 0, _ => liftM (none : Option Tree)
  | n + 1, front => do
    if (← peek ts) = .closeBracket then
      let _ ← advance ts
      return .ofItems front.reverse
    else
      if (← peek ts) = .eof then
        throw .unexpectedEnd
      else
        let item ← value n
        match ← peek ts with
        | .comma =>
          let _ ← advance ts
          array n (item :: front)
        | .closeBracket => array n (item :: front)
        | .eof => throw .unexpectedEnd
        | t => throw (.unexpected t .separator)

end

def whole (n : Nat) : Descent Tree := do
  let tree ← value ts n
  match ← advance ts with
  | .eof => return tree
  | t => throw (.unexpected t .endOfInput)

end

/-- Started at `i`, a descent ends as `post` tells by its result and its last place, and it looks at
none but the tokens that there are. -/
def Ends (ts : List Token) (x : Descent α) (i : Nat) (post : Except Error α → Nat → Prop) : Prop :=
  ∀ looks, (∀ k ∈ looks, k < ts.length) →
    ∃ r c, x.run.run ⟨i, looks⟩ = some (r, c) ∧ (∀ k ∈ c.looks, k < ts.length) ∧ post r c.position

section

variable {ts : List Token} {i : Nat} {post : Except Error α → Nat → Prop}

theorem ends_pure {a : α} (h : post (.ok a) i) : Ends ts (pure a) i post := by
  intro looks hl
  exact ⟨.ok a, ⟨i, looks⟩, rfl, hl, h⟩

theorem ends_throw {e : Error} (h : post (.error e) i) : Ends ts (throw e) i post := by
  intro looks hl
  exact ⟨.error e, ⟨i, looks⟩, rfl, hl, h⟩

theorem ends_bind {x : Descent β} {f : β → Descent α} {mid : Except Error β → Nat → Prop}
    (h : Ends ts x i mid) (hok : ∀ b j, mid (.ok b) j → Ends ts (f b) j post)
    (herror : ∀ e j, mid (.error e) j → post (.error e) j) : Ends ts (x >>= f) i post := by
  intro looks hl
  obtain ⟨r, c, hr, hc, hm⟩ := h looks hl
  cases r with
  | ok b =>
    obtain ⟨r, d, hd, hlooks, hp⟩ := hok b c.position hm c.looks hc
    refine ⟨r, d, ?_, hlooks, hp⟩
    rw [ExceptT.run_bind, StateT.run_bind, hr]
    exact hd
  | error e =>
    refine ⟨.error e, c, ?_, hc, herror e c.position hm⟩
    rw [ExceptT.run_bind, StateT.run_bind, hr]
    rfl

theorem Ends.weaken {x : Descent α} {post' : Except Error α → Nat → Prop} (h : Ends ts x i post)
    (hp : ∀ r j, post r j → post' r j) : Ends ts x i post' := by
  intro looks hl
  obtain ⟨r, c, hr, hc, hpost⟩ := h looks hl
  exact ⟨r, c, hr, hc, hp r c.position hpost⟩

variable {t : Token} (ht : ts[i]? = some t)

include ht

theorem ends_peek {f : Token → Descent α} (h : Ends ts (f t) i post) :
    Ends ts (peek ts >>= f) i post := by
  have hp : Ends ts (peek ts) i fun r j => r = .ok t ∧ j = i := by
    intro looks hl
    obtain ⟨hi, _⟩ := List.getElem?_eq_some_iff.mp ht
    refine ⟨.ok t, ⟨i, i :: looks⟩, ?_, List.forall_mem_cons.mpr ⟨hi, hl⟩, rfl, rfl⟩
    change some (Except.ok (ts.getD i .eof), _) = _
    rw [List.getD_eq_getElem?_getD, ht]
    rfl
  refine ends_bind hp ?_ nofun
  rintro _ _ ⟨⟨⟩, rfl⟩
  exact h

theorem ends_advance {f : Token → Descent α} (h : Ends ts (f t) (i + 1) post) :
    Ends ts (advance ts >>= f) i post := by
  have hp : Ends ts (advance ts) i fun r j => r = .ok t ∧ j = i + 1 := by
    refine ends_peek ht fun looks hl => ?_
    exact ⟨.ok t, ⟨i + 1, looks⟩, rfl, hl, rfl, rfl⟩
  refine ends_bind hp ?_ nofun
  rintro _ _ ⟨⟨⟩, rfl⟩
  exact h

end

/-- From `i` on, reading comes to the failure, or it goes on from `j` as what `placed` makes of the
tree. -/
def Continues (ts : List Token) (p : Progress) (i : Nat) (placed : Tree → Progress) :
    Except Error Tree → Nat → Prop
  | .ok tree, j => i < j ∧ j < ts.length ∧
      p.finish (ts.drop i) = (placed tree).finish (ts.drop j)
  | .error e, _ => p.finish (ts.drop i) = .error e

theorem Continues.of_step {ts : List Token} {p q : Progress} {i k : Nat}
    {placed : Tree → Progress} (hk : i ≤ k)
    (h : p.finish (ts.drop i) = q.finish (ts.drop k)) {r : Except Error Tree} {j : Nat}
    (hc : Continues ts q k placed r j) : Continues ts p i placed r j := by
  cases r with
  | ok tree =>
    obtain ⟨hj, hl, hf⟩ := hc
    exact ⟨Nat.lt_of_le_of_lt hk hj, hl, h.trans hf⟩
  | error e => exact h.trans hc

section

variable {ts : List Token} {i : Nat} {t : Token} (ht : ts[i]? = some t)

include ht

theorem drop_eq_cons : ts.drop i = t :: ts.drop (i + 1) := by
  obtain ⟨hi, rfl⟩ := List.getElem?_eq_some_iff.mp ht
  exact List.drop_eq_getElem_cons hi

theorem finish_drop_of_step {p q : Progress} (h : p.step t = .ok q) :
    p.finish (ts.drop i) = q.finish (ts.drop (i + 1)) := by
  rw [drop_eq_cons ht, Progress.finish_of_step h]

end

section

variable {ts : List Token} (hend : ∀ i t, ts[i]? = some t → t ≠ .eof → i + 1 < ts.length)

include hend

theorem ends_value {n i : Nat} (hi : i < ts.length) {frames : List (List Tree)}
    (hc : frames = [] ∨ ts[i]? ≠ some .closeBracket)
    (harray : i + 1 < ts.length → Ends ts (array ts n []) (i + 1)
      (Continues ts (.before ([] :: frames)) (i + 1) (Progress.place · frames))) :
    Ends ts (value ts (n + 1)) i (Continues ts (.before frames) i (Progress.place · frames)) := by
  obtain ⟨t, ht⟩ : ∃ t, ts[i]? = some t := ⟨_, List.getElem?_eq_getElem hi⟩
  have hd := drop_eq_cons ht
  rw [value]
  refine ends_advance ht ?_
  cases t with
  | openBracket =>
    refine (harray (hend i _ ht nofun)).weaken fun r j h => h.of_step (Nat.le_succ i) ?_
    exact finish_drop_of_step ht rfl
  | eof =>
    refine ends_throw ?_
    rw [Continues, hd]
    cases frames <;> rfl
  | closeBracket =>
    refine ends_throw ?_
    obtain rfl | hc := hc
    · rw [Continues, hd]
      rfl
    · exact absurd ht hc
  | comma =>
    refine ends_throw ?_
    rw [Continues, hd]
    rfl
  | _ => exact ends_pure ⟨Nat.lt_succ_self i, hend i _ ht nofun, finish_drop_of_step ht rfl⟩

theorem ends_array {n i : Nat} (hi : i < ts.length) {front : List Tree} {frames : List (List Tree)}
    (hvalue : ts[i]? ≠ some .closeBracket → Ends ts (value ts n) i
      (Continues ts (.before (front :: frames)) i (Progress.place · (front :: frames))))
    (harray : ∀ j front, i < j → j < ts.length → Ends ts (array ts n front) j
      (Continues ts (.before (front :: frames)) j (Progress.place · frames))) :
    Ends ts (array ts (n + 1) front) i
      (Continues ts (.before (front :: frames)) i (Progress.place · frames)) := by
  obtain ⟨t, ht⟩ : ∃ t, ts[i]? = some t := ⟨_, List.getElem?_eq_getElem hi⟩
  rw [array]
  refine ends_peek ht ?_
  split
  · next hc =>
    subst hc
    refine ends_advance ht (ends_pure ⟨Nat.lt_succ_self i, hend i _ ht nofun, ?_⟩)
    exact finish_drop_of_step ht rfl
  · next hc =>
    refine ends_peek ht ?_
    split
    · next he =>
      subst he
      refine ends_throw ?_
      rw [Continues, drop_eq_cons ht]
      rfl
    · refine ends_bind (hvalue fun h => hc (Option.some.inj (ht.symm.trans h))) ?_ ?_
      · rintro item j ⟨hj, hl, hf⟩
        obtain ⟨u, hu⟩ : ∃ u, ts[j]? = some u := ⟨_, List.getElem?_eq_getElem hl⟩
        have hd := drop_eq_cons hu
        refine ends_peek hu ?_
        cases u with
        | comma =>
          refine ends_advance hu ?_
          have hl' := hend j _ hu nofun
          refine (harray (j + 1) _ (Nat.lt_succ_of_lt hj) hl').weaken fun r k h => ?_
          exact h.of_step (Nat.le_succ_of_le hj.le) (hf.trans (finish_drop_of_step hu rfl))
        -- The bracket is left to the call behind, which looks for it first.
        | closeBracket =>
          refine (harray j _ hj hl).weaken fun r k h => h.of_step hj.le (hf.trans ?_)
          rw [hd]
          rfl
        | _ =>
          refine ends_throw (hf.trans ?_)
          rw [hd]
          rfl
      · intro e j h
        exact h

theorem ends_value_and_array {n i : Nat} (hi : i < ts.length) :
    (∀ frames : List (List Tree), 2 * (ts.length - i) ≤ n + 1 →
      frames = [] ∨ ts[i]? ≠ some .closeBracket →
      Ends ts (value ts n) i (Continues ts (.before frames) i (Progress.place · frames))) ∧
    ∀ front frames, 2 * (ts.length - i) ≤ n → Ends ts (array ts n front) i
      (Continues ts (.before (front :: frames)) i (Progress.place · frames)) := by
  -- On the depth of calls. Each token takes two: for a value, and for the array behind it.
  induction n generalizing i with
  | zero =>
    constructor
    · intro frames hn
      omega
    · intro front frames hn
      omega
  | succ n ih =>
    have harray : ∀ j front frames, i < j → j < ts.length → 2 * (ts.length - i) ≤ n + 2 →
        Ends ts (array ts n front) j
          (Continues ts (.before (front :: frames)) j (Progress.place · frames)) := by
      intro j front frames hj hl hn
      exact (ih hl).2 front frames (by omega)
    constructor
    · intro frames hn hc
      exact ends_value hend hi hc fun hl => harray _ _ _ (Nat.lt_succ_self i) hl hn
    · intro front frames hn
      refine ends_array hend hi (fun hc => (ih hi).1 _ hn (.inr hc)) fun j front hj hl => ?_
      exact harray j front frames hj hl (Nat.le_succ_of_le hn)

theorem ends_whole {n : Nat} (h : 0 < ts.length) (hn : 2 * ts.length ≤ n) :
    Ends ts (whole ts n) 0 fun r _ => r = read ts := by
  rw [whole]
  refine ends_bind ((ends_value_and_array hend h).1 [] (Nat.le_succ_of_le hn) (.inl rfl)) ?_ ?_
  · rintro tree j ⟨_, hj, hf⟩
    obtain ⟨t, ht⟩ : ∃ t, ts[j]? = some t := ⟨_, List.getElem?_eq_getElem hj⟩
    refine ends_advance ht ?_
    rw [drop_eq_cons ht, List.drop_zero] at hf
    rw [read, hf]
    cases t with
    | eof => exact ends_pure rfl
    | _ => exact ends_throw rfl
  · intro e j he
    exact he.symm

end

end Descent

theorem lt_length_of_ne_eof {us : List Token} {i : Nat} {t : Token}
    (h : (us ++ [.eof])[i]? = some t) (ht : t ≠ .eof) : i + 1 < (us ++ [Token.eof]).length := by
  obtain hi | hi := Nat.lt_or_ge i us.length
  · simpa using hi
  · rw [List.getElem?_append_right hi, List.getElem?_singleton] at h
    split at h
    · exact absurd (Option.some.inj h).symm ht
    · cases h

theorem read_ne_exhausted {us : List Token} (hus : .eof ∉ us) :
    read (us ++ [.eof]) ≠ .error .exhausted := by
  obtain ⟨p, hp⟩ | ⟨vs, t, ws, p, rfl, ht, hp, hs⟩ := steps_or_step_error hus
  · rw [read, Progress.finish_of_steps hp, Progress.finish_eof]
    cases p <;> rintro ⟨⟩
  · rw [List.append_assoc, List.cons_append, read_of_step_error hp ht hs]
    rintro ⟨⟩

/-- The tokens of a text end with the mark of its end, which is nowhere else, and each of the others
takes up some of the text. Reading them by descent ends as reading them one by one does, and looks
at none but them. -/
theorem read_within_tokens (cs : List Char) :
    (∀ t rest, Token.take cs = .ok (some (t, rest)) → t ≠ .eof ∧ rest.length < cs.length) ∧
    ∀ ts, tokens cs = .ok ts →
      (∃ us, ts = us ++ [.eof] ∧ .eof ∉ us) ∧ ts.length ≤ cs.length + 1 ∧
        read ts ≠ .error .exhausted ∧
        ∀ n, 2 * ts.length ≤ n → ∃ c, (Descent.whole ts n).run.run ⟨0, []⟩ = some (read ts, c) ∧
          ∀ i ∈ c.looks, i < ts.length := by
  refine ⟨fun t rest h => ⟨Token.take_ne_eof h, Token.take_length h⟩, fun ts h => ?_⟩
  obtain ⟨us, rfl, hus, hl⟩ := tokens_ended h
  have hlength : (us ++ [Token.eof]).length = us.length + 1 := List.length_append
  refine ⟨⟨us, rfl, hus⟩, ?_, read_ne_exhausted hus, fun n hn => ?_⟩
  · rw [hlength]
    exact Nat.succ_le_succ hl
  · have hpos : 0 < (us ++ [Token.eof]).length := hlength ▸ Nat.succ_pos us.length
    obtain ⟨r, c, hr, hc, rfl⟩ :=
      Descent.ends_whole (fun _ _ => lt_length_of_ne_eof) hpos hn [] nofun
    exact ⟨c, hr, hc⟩

theorem read_within_unclosed :
    let rest := [':', 'a', ',', ' ', '[', '1', ',']
    let ts : List Token := [.openBracket, .symbol "a", .comma, .openBracket, .int 1, .comma, .eof]
    Token.take ('[' :: rest) = .ok (some (.openBracket, rest)) ∧ rest.length < 8 ∧
      tokens ('[' :: rest) = .ok ts ∧ 2 * ts.length ≤ 14 ∧
      ∃ c, (Descent.whole ts 14).run.run ⟨0, []⟩ = some (.error .unexpectedEnd, c) ∧
        ∀ i ∈ c.looks, i < 7 := by
  intro rest ts
  have ht : Token.take ('[' :: rest) = .ok (some (.openBracket, rest)) := by cbv
  have hts : tokens ('[' :: rest) = .ok ts := by cbv
  have hn : 2 * ts.length ≤ 14 := by decide
  obtain ⟨h, hread⟩ := read_within_tokens ('[' :: rest)
  obtain ⟨-, -, -, hc⟩ := hread ts hts
  exact ⟨ht, (h _ _ ht).2, hts, hn, hc 14 hn⟩

end TableGraph.Dump
