import TableGraph.Proofs.Definition.Indistinct
import TableGraph.Proofs.Extraction.Indistinct
import TableGraph.Proofs.Tree.Alike

namespace TableGraph.Definition

theorem find?_first {before after : List Tree} {t : Tree} {tag : String}
    (h : ∀ s ∈ before, ¬s.isTagged tag) (ht : t.isTagged tag) :
    (before ++ t :: after).find? (·.isTagged tag) = some t := by
  have hn : before.find? (·.isTagged tag) = none := List.find?_eq_none.mpr h
  rw [List.find?_append, hn, List.find?_cons, ht]
  rfl

theorem rel_programStatements {t u : Tree} (h : Tree.Alike t u) (ht : t.isTagged "program") :
    Option.Rel (SameDefinition Tree.Alike) ((t.child? 0).bind Tree.items?)
      ((u.child? 0).bind Tree.items?) := by
  have hs : ∀ {ts us}, List.Forall₂ Tree.Alike ts us → SameDefinition Tree.Alike ts us :=
    sameDefinition_of_forall₂ Tree.Alike.indistinct
  cases h with
  | refl => exact rel_refl (fun ts => hs (Tree.Alike.forall₂_refl ts)) _
  | tagged h =>
    rw [Tree.isTagged_iff] at ht
    cases ht
    have hc : Option.Rel Tree.Alike ((Tree.tagged "program" _).child? 0)
        ((Tree.tagged "program" _).child? 0) :=
      Tree.Alike.indistinct.rel_child? (h 0 (by decide))
    exact rel_imp (rel_bind hc Tree.Alike.items?) hs
  | list => cases ht
  | program _ _ hb hb' h =>
    refine .some ?_
    rw [SameDefinition, find?_first hb rfl, find?_first hb' rfl]
    exact .some (Tree.Alike.indistinct.rel_child? (h 1 Nat.one_ne_zero))

theorem indistinct_alike : Indistinct Tree.Alike where
  toIndistinct := Tree.Alike.indistinct
  arguments h ht := by
    refine rel_imp (rel_bind (h.child? ht (by decide)) Tree.Alike.items?) ?_
    exact Arguments.related_ofItems Tree.Alike.indistinct
  columnCall context h := by
    refine agreeOnCall_of_tag? Tree.Alike.indistinct h.tag?_eq (fun ht i hi => ?_)
      (fun ht i hi => h.child? ht ⟨by decide, by simp +decide [Tree.matters]⟩)
      (fun h ht => h.child? ht (by decide)) (fun h ht => h.child? ht (by decide)) context
    refine h.child? ht ⟨by decide, ?_⟩
    simp only [List.mem_cons, List.not_mem_nil, or_false] at hi
    obtain rfl | rfl := hi <;> decide
  isBlock_eq h := by rw [isBlock, isBlock, h.isTagged_eq, h.isTagged_eq]
  bodyStatements context h hb := by
    refine agree_bodyStatements Tree.Alike.indistinct (fun h ht => h.child? ht (by decide))
      context ?_
    cases Bool.or_eq_true_iff.mp hb with
    | inl ht => exact h.child? ht (by decide)
    | inr ht => exact h.child? ht (by decide)
  programStatements := rel_programStatements

end TableGraph.Definition

namespace TableGraph.Extraction

open Definition

theorem Run.ofStatements_eq {ts us : List Tree} (h : List.Forall₂ Tree.Alike ts us) (s : Schema) :
    ofStatements s ts = ofStatements s us := by
  induction h generalizing s with
  | nil => rfl
  | cons h _ ih =>
    rw [ofStatements, ofStatements, Reading.ofStatement_eq indistinct_alike h h.tag?_eq]
    simp only [ih]

theorem Run.ofTree_eq {t u : Tree} (h : Tree.Alike t u) : ofTree t = ofTree u := by
  rw [ofTree, ofTree]
  obtain ⟨m, ha, hb⟩ | ⟨ss, ss', ha, hb, hs⟩ :=
    agree_iff.mp (indistinct_alike.agree_schemaStatements h)
  · rw [ha, hb]
  · simp only [ha, hb, ofStatements_eq hs]

end TableGraph.Extraction

namespace TableGraph.Schema

/-- The schema of a program, or what is wrong with it, does not depend on its layout. -/
theorem ofTree_eq_of_alike {t u : Tree} (h : Tree.Alike t u) : ofTree t = ofTree u := by
  rw [ofTree, ofTree, Extraction.Run.ofTree_eq h]

theorem ofTree_moved :
    let token (tag text : String) (line : Int64) : Tree := .tagged tag [.str text, .int line]
    let name (text : String) (line : Int64) : Tree :=
      .tagged "string_literal" [.tagged "string_content" [token "@tstring_content" text line]]
    let arguments (text : String) (line : Int64) (rest : List Tree) : Tree :=
      .tagged "args_add_block" (.list [name text line] :: rest)
    let column (operator : Tree) (line : Int64) (rest : List Tree) : Tree :=
      .tagged "command_call" (.nil :: operator :: token "@ident" "string" line ::
        arguments "b" line [] :: rest)
    let parenthesized (receiver : Tree) (line : Int64) : Tree :=
      .tagged "method_add_arg" [.tagged "call" [receiver, .nil, token "@ident" "date" line],
        .tagged "arg_paren" [arguments "c" line []]]
    let block (params : Tree) (statements : List Tree) : Tree :=
      .tagged "do_block" [params, .tagged "bodystmt" [.list statements, .nil]]
    let table (line : Int64) (params : Tree) (columns : List Tree) : Tree :=
      .tagged "method_add_block" [.tagged "command" [token "@ident" "create_table" line,
        arguments "a" line [.bool false]], block params columns]
    let t : Tree := .tagged "program" [.list [.tagged "method_add_block" [.nil, block .nil
      [table 2 .nil [column (.symbol ".") 3 [], parenthesized .nil 4]]]]]
    let u : Tree := .tagged "program" [.list [.tagged "void_stmt" [], .tagged "method_add_block"
      [.symbol "define", block .nil
        [table 5 (.str "t") [column .nil 8 [.bool true], parenthesized (.str "t") 9]]]], .nil]
    Tree.Alike t u ∧ ofTree t = ofTree u ∧ ofTree u =
      .ok ⟨[{ name := "a", columns := [.regular "string" "b", .regular "date" "c"] }]⟩ := by
  intro token name arguments column parenthesized block table t u
  have hl : ∀ {a b}, Tree.Alike a b → Tree.Alike (.list [a]) (.list [b]) :=
    fun h => .list (.cons h .nil)
  have ha : ∀ text line line' rest,
      Tree.Alike (arguments text line rest) (arguments text line' rest) := by
    intro text line line' rest
    refine .argumentList (hl (.node _ (.cons (.node _ (.cons ?_ .nil)) .nil))) _ _
    exact .token rfl _ _ _
  have hc : Tree.Alike (column (.symbol ".") 3 []) (column .nil 8 [.bool true]) :=
    .commandCall _ _ _ _ (.token rfl _ _ _) (ha _ _ _ _) _ _
  have hp : Tree.Alike (parenthesized .nil 4) (parenthesized (.str "t") 9) := by
    refine .node _ (.cons (.call _ _ _ _ (.cons (.token rfl _ _ _) .nil)) (.cons ?_ .nil))
    exact .node _ (.cons (ha _ _ _ _) .nil)
  have hb : ∀ {cs ds}, List.Forall₂ Tree.Alike cs ds → ∀ p q,
      Tree.Alike (block p cs) (block q ds) :=
    fun h p q => .block (.inl rfl) p q (.cons (.body (.list h) _ _) .nil)
  have ht : Tree.Alike (table 2 .nil [column (.symbol ".") 3 [], parenthesized .nil 4])
      (table 5 (.str "t") [column .nil 8 [.bool true], parenthesized (.str "t") 9]) := by
    refine .node _ (.cons (.node _ (.cons (.token rfl _ _ _) (.cons (ha _ _ _ _) .nil))) ?_)
    exact .cons (hb (.cons hc (.cons hp .nil)) _ _) .nil
  have h : Tree.Alike t u := by
    refine .program [] [.tagged "void_stmt" []] nofun ?_ ?_
    · simp [Tree.isTagged, Tree.tag?]
    · intro i hi
      obtain _ | _ | i := i
      · exact absurd rfl hi
      · exact .some (hb (.cons ht .nil) _ _)
      · exact .none
  exact ⟨h, ofTree_eq_of_alike h, rfl⟩

end TableGraph.Schema
