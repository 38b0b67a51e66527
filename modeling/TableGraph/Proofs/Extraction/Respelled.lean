import Mathlib.Logic.Relation
import TableGraph.Proofs.Definition.Indistinct
import TableGraph.Proofs.Extraction.Indistinct
import TableGraph.Proofs.Tree.Respelled

namespace TableGraph.Definition

open TableGraph.Tree (Respelled Synonym)

theorem Arguments.filter_of_forall_not {ts : List Tree} (h : ∀ t ∈ ts, ¬isHash t) :
    ts.filter isHash = [] ∧ ts.filter (!isHash ·) = ts := by
  simpa using h

theorem Arguments.ofItems_append {before after : List Tree} {options : Tree}
    (ho : isHash options) (h : ∀ t ∈ before ++ after, ¬isHash t) :
    ofItems (before ++ options :: after) = ⟨before ++ after, some options⟩ := by
  obtain ⟨hb, hb'⟩ := filter_of_forall_not fun t ht => h t (List.mem_append_left _ ht)
  obtain ⟨ha, ha'⟩ := filter_of_forall_not fun t ht => h t (List.mem_append_right _ ht)
  simp [ofItems, ho, hb, hb', ha, ha']

theorem Arguments.related_refl (args : Arguments) (h : ∀ t ∈ args.keywords?, isHash t) :
    Related Respelled args args where
  positional := Tree.Respelled.forall₂_refl _
  keywords? := by
    obtain ⟨positional, keywords?⟩ := args
    cases keywords? with
    | none => exact .none
    | some t => exact .some ⟨.refl t, h t rfl⟩

theorem related_arguments {t u : Tree} (h : Respelled t u) (ht : t.isTagged "args_add_block") :
    Option.Rel (fun ts us => Arguments.Related Respelled (.ofItems ts) (.ofItems us))
      ((t.child? 0).bind Tree.items?) ((u.child? 0).bind Tree.items?) := by
  have hof : ∀ {ts us}, List.Forall₂ Respelled ts us →
      Arguments.Related Respelled (.ofItems ts) (.ofItems us) :=
    Arguments.related_ofItems Tree.Respelled.indistinct
  rw [Tree.isTagged_iff] at ht
  cases h with
  | refl => exact rel_refl (fun ts => hof (Tree.Respelled.forall₂_refl ts)) _
  | synonym h =>
    cases h with
    | keywords ho hn hm =>
      refine .some ?_
      rw [Arguments.ofItems_append ho hn, Arguments.ofItems_append ho (hm ▸ hn), hm]
      refine Arguments.related_refl _ ?_
      rintro _ ⟨⟩
      exact ho
    | body hb => obtain rfl | rfl := hb <;> simp [Tree.tag?] at ht
    | _ => simp [Tree.tag?] at ht
  | tagged tag h =>
    exact rel_imp (rel_bind (Tree.Respelled.child?_tagged h tag 0) Tree.Respelled.items?) hof
  | list => cases ht

theorem agreeOnCall_respelled (context : Context) {t u : Tree} (h : Respelled t u) :
    AgreeOnCall Respelled context t u := by
  have hrefl : ∀ {t u}, columnCall context t = columnCall context u →
      AgreeOnCall Respelled context t u := by
    intro t u h
    rw [AgreeOnCall, h]
    exact .refl (fun p => ⟨rel_refl .refl p.1, rel_refl .refl p.2⟩) _
  cases h with
  | refl => exact hrefl rfl
  | synonym h =>
    cases h with
    | body hb => exact hrefl (by obtain rfl | rfl := hb <;> rfl)
    | _ => exact hrefl rfl
  | tagged tag h =>
    rename_i cs ds
    have hc := Tree.Respelled.child?_tagged h tag
    exact agreeOnCall_of_tag? Tree.Respelled.indistinct (t := .tagged tag cs) (u := .tagged tag ds)
      rfl (fun _ i _ => hc i) (fun _ i _ => hc i) (fun h ht => h.child? (by decide) ht 2)
      (fun h ht => h.child? (by decide) ht 0) context
  | list => exact hrefl rfl

theorem agree_bodyStatements_respelled (context : Context) {t u : Tree} (h : Respelled t u)
    (hb : isBlock t) : Agree (List.Forall₂ Respelled) (bodyStatements context t)
      (bodyStatements context u) := by
  have hrefl : ∀ {t u}, bodyStatements context t = bodyStatements context u →
      Agree (List.Forall₂ Respelled) (bodyStatements context t) (bodyStatements context u) := by
    intro t u h
    rw [h]
    exact .refl Tree.Respelled.forall₂_refl _
  cases h with
  | refl => exact hrefl rfl
  | synonym h =>
    cases h with
    | braces | body => exact hrefl rfl
    | _ => simp [isBlock, Tree.isTagged, Tree.tag?] at hb
  | tagged tag h =>
    exact agree_bodyStatements Tree.Respelled.indistinct
      (fun h ht => h.child? (by decide) ht 0) context (Tree.Respelled.child?_tagged h tag 1)
  | list => simp [isBlock, Tree.isTagged, Tree.tag?] at hb

theorem isBlock_eq_respelled {t u : Tree} (h : Respelled t u) : isBlock t = isBlock u := by
  cases h with
  | synonym h =>
    cases h with
    | body => rfl
    | _ => simp [isBlock, Tree.isTagged, Tree.tag?]
  | _ => rfl

theorem indistinct_respelled : Indistinct Respelled where
  toIndistinct := Tree.Respelled.indistinct
  arguments := related_arguments
  columnCall context h := agreeOnCall_respelled context h
  isBlock_eq := isBlock_eq_respelled
  bodyStatements context h hb := agree_bodyStatements_respelled context h hb
  programStatements h ht := by
    have hi := rel_bind (h.child? (by decide) ht 0) Tree.Respelled.items?
    exact rel_imp hi (sameDefinition_of_forall₂ Tree.Respelled.indistinct)

end TableGraph.Definition

namespace TableGraph.Schema

/-- The schema of a program, or what is wrong with it, stays the same under any number of changes
from one spelling of a construct to another and back. -/
theorem ofTree_eq_of_respelled {t u : Tree} (h : Relation.EqvGen Tree.Respelled t u) :
    ofTree t = ofTree u := by
  induction h with
  | rel t u h => exact Extraction.result_ofTree_eq Definition.indistinct_respelled h
  | refl => rfl
  | symm _ _ _ ih => exact ih.symm
  | trans _ _ _ _ _ ih ih' => exact ih.trans ih'

theorem ofTree_respelled :
    let token (tag text : String) : Tree := .tagged tag [.str text]
    let name (parts : List String) : Tree := .tagged "string_literal"
      [.tagged "string_content" (parts.map (token "@tstring_content"))]
    let options : Tree := .tagged "bare_assoc_hash"
      [.list [.tagged "assoc_new" [token "@label" "null:", .tagged "var_ref" [token "@kw" "true"]]]]
    let arguments (items : List Tree) : Tree := .tagged "args_add_block" [.list items, .bool false]
    let column (args : Tree) : Tree :=
      .tagged "command_call" [.nil, .symbol ".", token "@ident" "string", args, .nil]
    let parenthesized (args : Tree) : Tree := .tagged "method_add_arg"
      [.tagged "call" [.nil, .symbol ".", token "@ident" "string"], .tagged "arg_paren" [args]]
    let root (block : Tree) : Tree :=
      let create : Tree := .tagged "command" [token "@ident" "create_table", arguments [name ["a"]]]
      .tagged "program" [.list [.tagged "method_add_block" [.nil, .tagged "do_block"
        [.nil, .list [.tagged "method_add_block" [create, block]]]]]]
    let t : Tree := root (.tagged "do_block" [.nil, .tagged "bodystmt"
      [.list [column (arguments [name ["b", "c"], options])], .nil]])
    let u : Tree := root (.tagged "brace_block"
      [.nil, .list [parenthesized (arguments [options, name ["bc"]])]])
    Relation.EqvGen Tree.Respelled t u ∧ ofTree t = ofTree u ∧ ofTree u = .ok ⟨[{
      name := "a"
      columns := [⟨"string", .regular "bc", [("null", .ident "true")]⟩] }]⟩ := by
  intro token name options arguments column parenthesized root t u
  have hroot : ∀ {a b}, Tree.Respelled a b → Tree.Respelled (root a) (root b) := fun h =>
    .at_child (.at_item (.at_child (.at_child (.at_item (.at_child h _ [_] []) [] []) _ [_] [])
      _ [_] []) [] []) _ [] []
  have hstatement : ∀ {a b}, Tree.Respelled a b → Tree.Respelled
      (root (.tagged "do_block" [.nil, .tagged "bodystmt" [.list [a], .nil]]))
      (root (.tagged "do_block" [.nil, .tagged "bodystmt" [.list [b], .nil]])) := fun h =>
    hroot (.at_child (.at_child (.at_item h [] []) _ [] [_]) _ [_] [])
  have hparts : Tree.Respelled (column (arguments [name ["b", "c"], options]))
      (column (arguments [name ["bc"], options])) :=
    .at_child (.at_child (.at_item (.at_child (.synonym (.parts []
      (.cons ⟨[], rfl⟩ (.cons ⟨[], rfl⟩ .nil)))) _ [] []) [] [_]) _ [] [_]) _ [_, _, _] [_]
  have hswap : Tree.Synonym
      (.tagged "args_add_block" [.list ([name ["bc"]] ++ options :: []), .bool false])
      (.tagged "args_add_block" [.list ([] ++ options :: [name ["bc"]]), .bool false]) :=
    .keywords rfl (by simp [name, Tree.isTagged, Tree.tag?]) rfl
  have hkeywords : Tree.Respelled (column (arguments [name ["bc"], options]))
      (column (arguments [options, name ["bc"]])) :=
    .at_child (.synonym hswap) _ [_, _, _] [_]
  have h : Relation.EqvGen Tree.Respelled t u :=
    .trans _ _ _ (.rel _ _ (hstatement hparts)) (.trans _ _ _ (.rel _ _ (hstatement hkeywords))
      (.trans _ _ _ (.rel _ _ (hstatement (.synonym (.parentheses _ _ _ _ _))))
        (.trans _ _ _ (.rel _ _ (hroot (.synonym (.body (.inl rfl)))))
          (.rel _ _ (hroot (.synonym (.braces _)))))))
  exact ⟨h, ofTree_eq_of_respelled h, rfl⟩

end TableGraph.Schema
