import TableGraph.Proofs.Tree.Indistinct
import TableGraph.Proofs.Tree.Name

namespace TableGraph.Tree

inductive Synonym : Tree → Tree → Prop
  | braces (children : List Tree) :
      Synonym (.tagged "do_block" children) (.tagged "brace_block" children)
  | body : tag = "do_block" ∨ tag = "brace_block" →
      Synonym (.tagged tag (params :: .tagged "bodystmt" (.list statements :: clauses) :: rest))
        (.tagged tag (params :: .list statements :: rest))
  | parentheses (receiver operator method arguments : Tree) (rest : List Tree) :
      Synonym (.tagged "command_call" (receiver :: operator :: method :: arguments :: rest))
        (.tagged "method_add_arg"
          [.tagged "call" [receiver, operator, method], .tagged "arg_paren" [arguments]])
  | parts (position : List Tree) : List.Forall₂ IsText parts texts →
      Synonym (.tagged "string_content" parts)
        (.tagged "string_content"
          [.tagged "@tstring_content" (.str (String.join texts) :: position)])
  | keywords : options.isTagged "bare_assoc_hash" →
      (∀ t ∈ before ++ after, ¬t.isTagged "bare_assoc_hash") →
      before ++ after = before' ++ after' →
      Synonym (.tagged "args_add_block" (.list (before ++ options :: after) :: rest))
        (.tagged "args_add_block" (.list (before' ++ options :: after') :: rest))

inductive Respelled : Tree → Tree → Prop
  | refl (t : Tree) : Respelled t t
  | synonym : Synonym t u → Respelled t u
  | tagged (tag : String) : List.Forall₂ Respelled cs ds →
      Respelled (.tagged tag cs) (.tagged tag ds)
  | list : List.Forall₂ Respelled ts us → Respelled (.list ts) (.list us)

namespace Respelled

variable {t u : Tree}

theorem forall₂_refl (ts : List Tree) : List.Forall₂ Respelled ts ts :=
  List.forall₂_same.mpr fun t _ => .refl t

theorem at_child {a b : Tree} (h : Respelled a b) (tag : String) (before after : List Tree) :
    Respelled (.tagged tag (before ++ a :: after)) (.tagged tag (before ++ b :: after)) :=
  .tagged tag (List.rel_append (forall₂_refl before) (.cons h (forall₂_refl after)))

theorem at_item {a b : Tree} (h : Respelled a b) (before after : List Tree) :
    Respelled (.list (before ++ a :: after)) (.list (before ++ b :: after)) :=
  .list (List.rel_append (forall₂_refl before) (.cons h (forall₂_refl after)))

theorem tag? (h : Respelled t u) : t.tag? = u.tag? ∨ t.IsCallOrBlock ∧ u.IsCallOrBlock := by
  cases h with
  | refl => exact .inl rfl
  | synonym h =>
    cases h with
    | braces => exact .inr ⟨⟨"do_block", by decide, rfl⟩, ⟨"brace_block", by decide, rfl⟩⟩
    | parentheses =>
      exact .inr ⟨⟨"command_call", by decide, rfl⟩, ⟨"method_add_arg", by decide, rfl⟩⟩
    | _ => exact .inl rfl
  | tagged => exact .inl rfl
  | list => exact .inl rfl

theorem items? (h : Respelled t u) : Option.Rel (List.Forall₂ Respelled) t.items? u.items? := by
  cases h with
  | refl => exact rel_refl forall₂_refl _
  | synonym h => cases h <;> exact .none
  | tagged => exact .none
  | list h => exact .some h

theorem str?_eq (h : Respelled t u) : t.str? = u.str? := by
  cases h with
  | synonym h => cases h <;> rfl
  | _ => rfl

theorem tokenText?_eq (h : Respelled t u) : t.tokenText? = u.tokenText? := by
  cases h with
  | refl => rfl
  | synonym h =>
    cases h with
    | body ht => obtain rfl | rfl := ht <;> simp +decide [tokenText?_tagged]
    | _ => simp +decide [tokenText?_tagged]
  | tagged tag h =>
    rw [tokenText?_tagged, tokenText?_tagged, bind_eq_of_rel (rel_getElem? h 0) str?_eq]
  | list => rfl

theorem stringPart?_eq (h : Respelled t u) : t.stringPart? = u.stringPart? := by
  rw [stringPart?, stringPart?, isTagged_eq_of_tag? h.tag? (by decide), h.tokenText?_eq]

theorem contentText?_eq (h : Respelled t u) (ht : t.isTagged "string_content") :
    (t.children.mapM stringPart?).map String.join =
      (u.children.mapM stringPart?).map String.join := by
  rw [isTagged_iff] at ht
  cases h with
  | refl => rfl
  | synonym h =>
    cases h with
    | parts position h =>
      rename_i texts
      have hj : List.Forall₂ IsText
          [.tagged "@tstring_content" (.str (String.join texts) :: position)]
          [String.join texts] := .cons ⟨position, rfl⟩ .nil
      rw [children, children, mapM_stringPart?.mpr h, mapM_stringPart?.mpr hj]
      simp
    | body hb => obtain rfl | rfl := hb <;> simp [Tree.tag?] at ht
    | _ => simp [Tree.tag?] at ht
  | tagged tag h => rw [children, children, mapM_eq_of_forall₂ h stringPart?_eq]
  | list => cases ht

def synonymTags : List String :=
  ["do_block", "brace_block", "command_call", "string_content", "args_add_block"]

theorem getElem?_children (h : Respelled t u) {tag : String} (hm : tag ∉ synonymTags)
    (ht : t.isTagged tag) (i : Nat) : Option.Rel Respelled t.children[i]? u.children[i]? := by
  rw [isTagged_iff] at ht
  cases h with
  | refl => exact rel_refl refl _
  | synonym h =>
    cases h with
    | body hb =>
      cases ht
      exact absurd (by obtain rfl | rfl := hb <;> decide) hm
    | _ =>
      cases ht
      exact absurd (by decide) hm
  | tagged tag h => exact rel_getElem? h i
  | list h => exact rel_getElem? h i

theorem indistinct : Indistinct Respelled where
  tag? := tag?
  eq_nil_iff h := by
    cases h with
    | synonym h => cases h <;> simp
    | _ => simp
  eq_symbol_iff h := by
    cases h with
    | synonym h => cases h <;> simp
    | _ => simp
  items? := items?
  tokenText?_eq := tokenText?_eq
  contentText?_eq := contentText?_eq
  getElem?_children h hm ht := by
    have hd : ∀ tag ∈ childwiseTags, tag ∉ synonymTags := by decide
    exact h.getElem?_children (hd _ hm) ht

theorem child? (h : Respelled t u) {tag : String} (hm : tag ∉ synonymTags)
    (ht : t.isTagged tag) (i : Nat) : Option.Rel Respelled (t.child? i) (u.child? i) :=
  indistinct.rel_child? (h.getElem?_children hm ht i)

theorem child?_tagged {cs ds : List Tree} (h : List.Forall₂ Respelled cs ds) (tag : String)
    (i : Nat) :
    Option.Rel Respelled ((Tree.tagged tag cs).child? i) ((Tree.tagged tag ds).child? i) :=
  indistinct.rel_child? (rel_getElem? h i)

end Respelled

end TableGraph.Tree
