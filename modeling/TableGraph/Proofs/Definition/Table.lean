import TableGraph.Definition.Table
import TableGraph.Proofs.Definition.Argument
import TableGraph.Proofs.Schema.Options

namespace TableGraph.Definition

inductive IsBody : Tree → List Tree → Prop
  | bare : IsBody (.list statements) statements
  | clauses : IsBody (.tagged "bodystmt" (.list statements :: clauses)) statements

inductive HasBlock : Option Tree → List Tree → Prop
  | mk : tag = "do_block" ∨ tag = "brace_block" → IsBody body statements →
      HasBlock (some (.tagged tag (params :: body :: rest))) statements

theorem HasBlock.unique {slot : Option Tree} {statements statements' : List Tree}
    (h : HasBlock slot statements) (h' : HasBlock slot statements') : statements = statements' := by
  obtain ⟨-, hs⟩ := h
  obtain ⟨-, hs'⟩ := h'
  cases hs <;> cases hs' <;> rfl

inductive Heads (command : Tree) : Table → Prop
  | mk : HasArguments (command.child? 1) items →
      items.find? (!Arguments.isHash ·) = some argument → Tree.Names argument name →
      HasPairs items pairs → List.Forall₂ IsPair pairs options →
      comment = ((options.reverse.lookup "comment").map OptionValue.text).getD "" →
      Heads command { name, comment }

theorem Heads.comment_eq {command : Tree} {t : Table} (h : Heads command t)
    {items pairs : List Tree} (ha : HasArguments (command.child? 1) items)
    (hp : HasPairs items pairs) :
    ∃ options, List.Forall₂ IsPair pairs options ∧
      t.comment = ((options.reverse.lookup "comment").map OptionValue.text).getD "" := by
  obtain ⟨ha', _, _, hp', ho, hc⟩ := h
  rw [ha.unique ha'] at hp
  rw [hp.unique hp']
  exact ⟨_, ho, hc⟩

theorem lookup_reverse (pairs : List (String × OptionValue)) (key : String) :
    pairs.reverse.lookup key = ((pairs.filter (·.1 = key)).getLast?).map Prod.snd := by
  induction pairs using List.reverseRecOn with
  | nil => rfl
  | append_singleton pairs p ih =>
    rw [List.reverse_concat, Column.lookup_cons, List.filter_append, ih]
    by_cases h : p.1 = key
    · simp [h]
    · simp [h, Ne.symm h]

theorem commentOf_eq (options : List (String × OptionValue)) :
    commentOf options = ((options.reverse.lookup "comment").map OptionValue.text).getD "" := by
  rw [commentOf, lookup_reverse]
  split
  · next h => rw [h]; rfl
  · next h => rw [h]; rfl

theorem readHeader_eq_ok {command : Tree} {t : Table} :
    readHeader command = .ok t ↔ Heads command t := by
  simp only [readHeader, bind_eq_ok, pure_eq_ok, Except.ok.injEq, require_eq_ok, Tree.name?_eq_some]
  constructor
  · rintro ⟨args, ha, argument, hf, name, hn, options, ho, rfl⟩
    obtain ⟨items, hi, rfl⟩ := Arguments.ofTree_eq_ok.mp ha
    obtain ⟨pairs, hp, ho⟩ := Arguments.readKeywords_eq_ok.mp ho
    exact .mk hi (Arguments.first_eq_ok.mp hf) hn hp ho (commentOf_eq options)
  · rintro ⟨hi, hf, hn, hp, ho, rfl⟩
    refine ⟨_, Arguments.ofTree_eq_ok.mpr ⟨_, hi, rfl⟩, _, Arguments.first_eq_ok.mpr hf, _, hn, _,
      Arguments.readKeywords_eq_ok.mpr ⟨_, hp, ho⟩, ?_⟩
    rw [commentOf_eq]

inductive ForeignKey (command : Tree) : String → String → Prop
  | mk : HasArguments (command.child? 1) items →
      items.filter (!Arguments.isHash ·) = first :: second :: rest →
      Tree.Names first source → Tree.Names second target → ForeignKey command source target

theorem readForeignKey_eq_ok {command : Tree} {source target : String} :
    readForeignKey command = .ok (source, target) ↔ ForeignKey command source target := by
  simp only [readForeignKey, bind_eq_ok, pure_eq_ok, Except.ok.injEq, Prod.mk.injEq,
    Arguments.first, Arguments.second, require_eq_ok, Tree.name?_eq_some]
  constructor
  · rintro ⟨args, ha, first, hf, _, hs, second, hsecond, _, ht, rfl, rfl⟩
    obtain ⟨items, hi, rfl⟩ := Arguments.ofTree_eq_ok.mp ha
    cases hp : (Arguments.ofItems items).positional with
    | nil =>
      rw [hp] at hf
      cases hf
    | cons a rest =>
      rw [hp] at hf hsecond
      cases rest with
      | nil => cases hsecond
      | cons b rest =>
        cases hf
        cases hsecond
        exact .mk hi hp hs ht
  · rintro ⟨hi, hp, hs, ht⟩
    have hp : (Arguments.ofItems _).positional = _ := hp
    refine ⟨_, Arguments.ofTree_eq_ok.mpr ⟨_, hi, rfl⟩, _, ?_, _, hs, _, ?_, _, ht, rfl, rfl⟩
    · rw [hp]
      rfl
    · rw [hp]
      rfl

theorem isBody_iff {body : Tree} {statements : List Tree} : IsBody body statements ↔
    (if body.isTagged "bodystmt" then body.child? 0 else some body).bind Tree.items? =
      some statements := by
  constructor
  · rintro (_ | _) <;> rfl
  · intro h
    split at h
    · next ht =>
      obtain ⟨children, rfl⟩ := Tree.eq_tagged ht
      obtain ⟨_, clauses, rfl, hi⟩ := (Tree.bind_child?_zero rfl).mp h
      rw [Tree.items?_eq_some.mp hi]
      exact .clauses
    · rw [Option.bind_some, Tree.items?_eq_some] at h
      rw [h]
      exact .bare

theorem blockStatements_eq_ok {context : Context} {t : Tree} {statements : List Tree} :
    blockStatements context t = .ok statements ↔ HasBlock (t.child? 1) statements := by
  simp only [blockStatements, bind_eq_ok, require_eq_ok, Option.filter_eq_some_iff, ← isBody_iff,
    Bool.or_eq_true]
  constructor
  · rintro ⟨block, ⟨hb, ht⟩, body, hc, hs⟩
    have htag : ∃ tag children, block = .tagged tag children ∧
        (tag = "do_block" ∨ tag = "brace_block") := by
      obtain ht | ht := ht
      · obtain ⟨children, rfl⟩ := Tree.eq_tagged ht
        exact ⟨_, children, rfl, .inl rfl⟩
      · obtain ⟨children, rfl⟩ := Tree.eq_tagged ht
        exact ⟨_, children, rfl, .inr rfl⟩
    obtain ⟨tag, children, rfl, htag⟩ := htag
    rw [hb]
    match children, (Tree.child?_eq_some.mp hc).1 with
    | params :: _ :: rest, rfl => exact .mk htag hs
  · intro h
    generalize t.child? 1 = slot at h ⊢
    obtain ⟨ht, hs⟩ := h
    refine ⟨_, ⟨rfl, ?_⟩, _, Tree.child?_eq_some.mpr ⟨rfl, ?_⟩, hs⟩
    · simpa [Tree.isTagged, Tree.tag?] using ht
    · rintro rfl
      cases hs

end TableGraph.Definition
