import TableGraph.Definition.Table
import TableGraph.Proofs.Definition.Argument
import TableGraph.Proofs.Schema.Options

namespace TableGraph.Definition

open TableGraph.Tree (IsToken Names)

inductive Calls : Tree → String → List Tree → Prop
  | bare : IsToken method type → HasArguments (some block) items →
      Calls (.tagged "command_call" (receiver :: operator :: method :: block :: rest)) type items
  | parenthesized : IsToken method type → HasArguments (some block) items →
      Calls (.tagged "method_add_arg" (.tagged "call" (receiver :: operator :: method :: more) ::
        .tagged "arg_paren" (block :: others) :: rest)) type items

inductive IndexOn : Tree → List String → Prop
  | expression : t.isTagged "string_literal" → Names t text → IndexOn t [text]
  | columns : List.Forall₂ Names items keys →
      IndexOn (.tagged "array" (.list items :: rest)) keys
  | absent : IndexOn (.tagged "array" []) []
  | empty : IndexOn (.tagged "array" (.nil :: rest)) []

inductive KindOf : String → Tree → ColumnKind → Prop
  | regular : type ≠ "index" → Names argument name → KindOf type argument (.regular name)
  | index : IndexOn argument keys → KindOf "index" argument (.index keys)

/-- A whole column: its type is the method of a call, and the first argument that is no hash tells
its name or its keys. -/
inductive Declares (statement : Tree) (c : Column) : Prop
  | mk : Calls statement c.type items → items.find? (!Arguments.isHash ·) = some argument →
      KindOf c.type argument c.kind → HasPairs items pairs → List.Forall₂ IsPair pairs options →
      c.Collects options → Declares statement c

theorem HasArguments.eq_some {slot : Option Tree} {items : List Tree}
    (h : HasArguments slot items) :
    ∃ block, slot = some block ∧ HasArguments (some block) items := by
  obtain ⟨⟩ := h
  exact ⟨_, rfl, .mk⟩

theorem calls_of_bare {children items : List Tree} {type : String}
    (hm : ((Tree.tagged "command_call" children).child? 2).bind Tree.tokenText? = some type)
    (ha : HasArguments ((Tree.tagged "command_call" children).child? 3) items) :
    Calls (.tagged "command_call" children) type items := by
  obtain ⟨method, hc, ht⟩ := Option.bind_eq_some_iff.mp hm
  obtain ⟨block, hb, hi⟩ := ha.eq_some
  match children, (Tree.child?_eq_some.mp hc).1, (Tree.child?_eq_some.mp hb).1 with
  | receiver :: operator :: _ :: _ :: rest, rfl, rfl =>
    exact .bare (Tree.tokenText?_eq_some.mp ht) hi

theorem calls_of_parenthesized {children items : List Tree} {call : Tree} {type : String}
    (hc : ((Tree.tagged "method_add_arg" children).child? 0).filter (·.isTagged "call") = some call)
    (hm : (call.child? 2).bind Tree.tokenText? = some type)
    (ha : HasArguments ((((Tree.tagged "method_add_arg" children).child? 1).filter
      (·.isTagged "arg_paren")).bind (·.child? 0)) items) :
    Calls (.tagged "method_add_arg" children) type items := by
  obtain ⟨hc, htag⟩ := Option.filter_eq_some_iff.mp hc
  obtain ⟨parts, rfl⟩ := Tree.eq_tagged htag
  obtain ⟨method, hmethod, ht⟩ := Option.bind_eq_some_iff.mp hm
  obtain ⟨block, hblock, hi⟩ := ha.eq_some
  obtain ⟨paren, hp, hb⟩ := Option.bind_eq_some_iff.mp hblock
  obtain ⟨hp, htag⟩ := Option.filter_eq_some_iff.mp hp
  obtain ⟨inner, rfl⟩ := Tree.eq_tagged htag
  obtain ⟨others, rfl⟩ := Tree.child?_zero hb
  match children, parts, (Tree.child?_eq_some.mp hc).1, (Tree.child?_eq_some.mp hp).1,
    (Tree.child?_eq_some.mp hmethod).1 with
  | _ :: _ :: rest, receiver :: operator :: _ :: more, rfl, rfl, rfl =>
    exact .parenthesized (Tree.tokenText?_eq_some.mp ht) hi

theorem columnCall_of_calls (context : Context) {statement : Tree} {type : String}
    {items : List Tree} (h : Calls statement type items) :
    ∃ call, columnCall context statement = .ok call ∧ call.1.bind Tree.tokenText? = some type ∧
      HasArguments call.2 items := by
  cases h with
  | bare hm ha | parenthesized hm ha =>
    obtain ⟨hs⟩ := hm
    obtain ⟨⟩ := ha
    exact ⟨_, rfl, if_pos hs, .mk⟩

theorem calls_iff {context : Context} {statement : Tree} {type : String} {items : List Tree} :
    Calls statement type items ↔ ∃ call, columnCall context statement = .ok call ∧
      call.1.bind Tree.tokenText? = some type ∧ HasArguments call.2 items := by
  refine ⟨columnCall_of_calls context, ?_⟩
  rintro ⟨call, h, hm, ha⟩
  rw [columnCall] at h
  split at h
  · next ht =>
    obtain ⟨children, rfl⟩ := Tree.eq_tagged (Tree.isTagged_iff.mpr ht)
    cases h
    exact calls_of_bare hm ha
  · next ht =>
    obtain ⟨children, rfl⟩ := Tree.eq_tagged (Tree.isTagged_iff.mpr ht)
    obtain ⟨_, hc, h⟩ := bind_eq_ok.mp h
    cases h
    exact calls_of_parenthesized (require_eq_ok.mp hc) hm ha
  · cases h

theorem Calls.unique {statement : Tree} {type type' : String} {items items' : List Tree}
    (h : Calls statement type items) (h' : Calls statement type' items') :
    type = type' ∧ items = items' := by
  obtain ⟨call, hc, ht, ha⟩ := columnCall_of_calls .program h
  obtain ⟨call', hc', ht', ha'⟩ := columnCall_of_calls .program h'
  cases hc.symm.trans hc'
  cases ht.symm.trans ht'
  exact ⟨rfl, ha.unique ha'⟩

theorem indexKeys_array {context : Context} {children : List Tree} {keys : List String} :
    indexKeys context (.tagged "array" children) = .ok keys ↔
      IndexOn (.tagged "array" children) keys := by
  have hs : (Tree.tagged "array" children).isTagged "string_literal" = false := rfl
  have ha : (Tree.tagged "array" children).isTagged "array" := rfl
  rw [indexKeys, hs, if_neg Bool.false_ne_true, if_pos ha]
  constructor
  · intro h
    split at h
    · next hc =>
      cases h
      obtain rfl | ⟨rest, rfl⟩ := Tree.child?_zero_eq_none hc
      · exact .absent
      · exact .empty
    · next list hc =>
      obtain ⟨rest, rfl⟩ := Tree.child?_zero hc
      obtain ⟨items, hi, hk⟩ := bind_eq_ok.mp h
      cases Tree.items?_eq_some.mp (require_eq_ok.mp hi)
      simp only [mapM_eq_ok, require_eq_ok, Tree.name?_eq_some] at hk
      exact .columns hk
  · intro h
    cases h with
    | expression ht => cases hs.symm.trans ht
    | columns h =>
      refine bind_eq_ok.mpr ⟨_, rfl, ?_⟩
      simpa only [mapM_eq_ok, require_eq_ok, Tree.name?_eq_some] using h
    | absent => rfl
    | empty => rfl

theorem indexKeys_eq_ok {context : Context} {t : Tree} {keys : List String} :
    indexKeys context t = .ok keys ↔ IndexOn t keys := by
  by_cases ha : t.isTagged "array"
  · obtain ⟨children, rfl⟩ := Tree.eq_tagged ha
    exact indexKeys_array
  rw [indexKeys, if_neg ha]
  constructor
  · intro h
    split at h
    · next hs =>
      obtain ⟨text, ht, rfl⟩ := map_eq_ok.mp h
      obtain ⟨children, rfl⟩ := Tree.eq_tagged hs
      exact .expression hs (Tree.names_of_stringText? (require_eq_ok.mp ht))
    · cases h
  · intro h
    cases h with
    | expression hs hn =>
      obtain ⟨children, rfl⟩ := Tree.eq_tagged hs
      exact map_eq_ok.mpr ⟨_, require_eq_ok.mpr (Tree.name?_of_names hn), rfl⟩
    | _ => exact absurd rfl ha

theorem bareColumn_eq_ok {context : Context} {type : String} {items : List Tree} {c : Column} :
    bareColumn context type (.ofItems items) = .ok c ↔
      ∃ argument kind, items.find? (!Arguments.isHash ·) = some argument ∧
        KindOf type argument kind ∧ { type, kind } = c := by
  rw [bareColumn]
  split
  · next ht =>
    subst ht
    simp only [bind_eq_ok, pure_eq_ok, Except.ok.injEq, Arguments.first_eq_ok, indexKeys_eq_ok]
    constructor
    · rintro ⟨argument, ha, keys, hk, rfl⟩
      exact ⟨argument, _, ha, .index hk, rfl⟩
    · rintro ⟨argument, _, ha, hk | hk, rfl⟩
      · exact absurd rfl hk
      · exact ⟨argument, ha, _, hk, rfl⟩
  · next ht =>
    simp only [bind_eq_ok, pure_eq_ok, Except.ok.injEq, Arguments.first_eq_ok, require_eq_ok,
      Tree.name?_eq_some]
    constructor
    · rintro ⟨argument, ha, name, hn, rfl⟩
      exact ⟨argument, _, ha, .regular ht hn, rfl⟩
    · rintro ⟨argument, _, ha, hk | hk, rfl⟩
      · exact ⟨argument, ha, _, ‹_›, rfl⟩
      · exact absurd rfl ht

theorem readColumn_eq_ok {context : Context} {statement : Tree} {c : Column} :
    readColumn context statement = .ok c ↔ Declares statement c := by
  simp only [readColumn, bind_eq_ok, pure_eq_ok, Except.ok.injEq, require_eq_ok]
  constructor
  · rintro ⟨call, hcall, type, ht, args, ha, bare, hb, options, ho, hc⟩
    obtain ⟨items, hi, rfl⟩ := Arguments.ofTree_eq_ok.mp ha
    obtain ⟨argument, kind, hf, hk, rfl⟩ := bareColumn_eq_ok.mp hb
    obtain ⟨pairs, hp, ho⟩ := Arguments.readKeywords_eq_ok.mp ho
    obtain ⟨rfl, rfl, hcollects⟩ := Column.setOptions_eq_iff.mp hc
    exact .mk (calls_iff.mpr ⟨call, hcall, ht, hi⟩) hf hk hp ho hcollects
  · rintro ⟨hs, hf, hk, hp, ho, hc⟩
    obtain ⟨call, hcall, ht, hi⟩ := columnCall_of_calls context hs
    refine ⟨call, hcall, c.type, ht, _, Arguments.ofTree_eq_ok.mpr ⟨_, hi, rfl⟩,
      { type := c.type, kind := c.kind }, bareColumn_eq_ok.mpr ⟨_, _, hf, hk, rfl⟩, _,
      Arguments.readKeywords_eq_ok.mpr ⟨_, hp, ho⟩, ?_⟩
    exact Column.setOptions_eq_iff.mpr ⟨rfl, rfl, hc⟩

theorem readColumns_eq_ok {context : Context} {statements : List Tree} {columns : List Column} :
    readColumns context statements = (columns, none) ↔
      List.Forall₂ Declares (statements.filter (!·.isTagged "void_stmt")) columns := by
  fun_induction readColumns context statements generalizing columns with
  | case1 => cases columns <;> simp
  | case2 s rest hv ih => rw [ih, List.filter_cons_of_neg (by simpa using hv)]
  | case3 s rest hv m hm =>
    rw [List.filter_cons_of_pos (by simpa using hv)]
    refine ⟨nofun, fun h => ?_⟩
    obtain ⟨c, _, hc, _, rfl⟩ := List.forall₂_cons_left_iff.mp h
    cases hm.symm.trans (readColumn_eq_ok.mpr hc)
  | case4 s rest hv column hs later fault hr ih =>
    rw [hr] at ih
    rw [List.filter_cons_of_pos (by simpa using hv)]
    cases columns with
    | nil => simp
    | cons c cs =>
      rw [List.forall₂_cons, ← readColumn_eq_ok, hs, ← ih]
      simp [and_assoc]

end TableGraph.Definition
