import TableGraph.Proofs.Tree.Indistinct

namespace TableGraph.Tree

/-- Whether it matters what stands at an index in a tree with this tag. Of a token the position does
not matter, of a call its receiver and operator, of a block its parameters, of an argument list and
of a body what comes after the items. -/
def matters (tag : String) (i : Nat) : Bool :=
  if isScannerTag tag || tag == "args_add_block" || tag == "bodystmt" then i == 0
  else if tag == "command_call" then i == 2 || i == 3
  else if tag == "call" then 2 ≤ i
  else if tag == "do_block" || tag == "brace_block" then i != 0
  else true

inductive Alike : Tree → Tree → Prop
  | refl (t : Tree) : Alike t t
  | tagged : (∀ i, matters tag i → Option.Rel Alike cs[i]? ds[i]?) →
      Alike (.tagged tag cs) (.tagged tag ds)
  | list : List.Forall₂ Alike ts us → Alike (.list ts) (.list us)
  /-- A program is known by the block of its first statement with one. -/
  | program (before before' : List Tree) : (∀ t ∈ before, ¬t.isTagged "method_add_block") →
      (∀ t ∈ before', ¬t.isTagged "method_add_block") →
      (∀ i : Nat, i ≠ 0 → Option.Rel Alike cs[i]? ds[i]?) →
      Alike (.tagged "program" (.list (before ++ .tagged "method_add_block" cs :: after) :: rest))
        (.tagged "program" (.list (before' ++ .tagged "method_add_block" ds :: after') :: rest'))

namespace Alike

variable {t u : Tree}

theorem tag?_eq (h : Alike t u) : t.tag? = u.tag? := by
  cases h <;> rfl

theorem isTagged_eq (h : Alike t u) (tag : String) : t.isTagged tag = u.isTagged tag := by
  rw [isTagged, isTagged, h.tag?_eq]

theorem forall₂_refl (ts : List Tree) : List.Forall₂ Alike ts ts :=
  List.forall₂_same.mpr fun t _ => .refl t

theorem node {cs ds : List Tree} (tag : String) (h : List.Forall₂ Alike cs ds) :
    Alike (.tagged tag cs) (.tagged tag ds) :=
  .tagged fun i _ => rel_getElem? h i

theorem leading {tag : String} (ht : ∀ i, matters tag (i + 1) = false) {c d : Tree}
    (h : Alike c d) (cs ds : List Tree) :
    Alike (.tagged tag (c :: cs)) (.tagged tag (d :: ds)) := by
  refine .tagged fun i hi => ?_
  cases i with
  | zero => exact .some h
  | succ i => rw [ht] at hi; cases hi

theorem token {tag : String} (ht : isScannerTag tag) (c : Tree) (cs ds : List Tree) :
    Alike (.tagged tag (c :: cs)) (.tagged tag (c :: ds)) :=
  leading (by simp [matters, ht]) (.refl c) cs ds

theorem argumentList {c d : Tree} (h : Alike c d) (cs ds : List Tree) :
    Alike (.tagged "args_add_block" (c :: cs)) (.tagged "args_add_block" (d :: ds)) :=
  leading (by simp [matters]) h cs ds

theorem body {c d : Tree} (h : Alike c d) (cs ds : List Tree) :
    Alike (.tagged "bodystmt" (c :: cs)) (.tagged "bodystmt" (d :: ds)) :=
  leading (by simp [matters]) h cs ds

theorem block {tag : String} (ht : tag = "do_block" ∨ tag = "brace_block") (p q : Tree)
    {cs ds : List Tree} (h : List.Forall₂ Alike cs ds) :
    Alike (.tagged tag (p :: cs)) (.tagged tag (q :: ds)) := by
  refine .tagged fun i hi => ?_
  cases i with
  | zero => obtain rfl | rfl := ht <;> cases hi
  | succ i => exact rel_getElem? h i

theorem call (r o r' o' : Tree) {cs ds : List Tree} (h : List.Forall₂ Alike cs ds) :
    Alike (.tagged "call" (r :: o :: cs)) (.tagged "call" (r' :: o' :: ds)) := by
  refine .tagged fun i hi => ?_
  obtain _ | _ | i := i
  · cases hi
  · cases hi
  · exact rel_getElem? h i

theorem commandCall (r o r' o' : Tree) {m n a b : Tree} (hm : Alike m n) (ha : Alike a b)
    (cs ds : List Tree) : Alike (.tagged "command_call" (r :: o :: m :: a :: cs))
      (.tagged "command_call" (r' :: o' :: n :: b :: ds)) := by
  refine .tagged fun i hi => ?_
  obtain _ | _ | _ | _ | i := i
  · cases hi
  · cases hi
  · exact .some hm
  · exact .some ha
  · have hf : matters "command_call" (i + 4) = false := by simp [matters, isScannerTag]
    rw [hf] at hi
    cases hi

theorem getElem?_children (h : Alike t u) {tag : String} (ht : t.isTagged tag) {i : Nat}
    (hi : tag ≠ "program" ∧ matters tag i) : Option.Rel Alike t.children[i]? u.children[i]? := by
  rw [isTagged_iff] at ht
  cases h with
  | refl => exact rel_refl refl _
  | tagged h =>
    cases ht
    exact h i hi.2
  | list h => exact rel_getElem? h i
  | program =>
    cases ht
    exact absurd rfl hi.1

theorem items? (h : Alike t u) : Option.Rel (List.Forall₂ Alike) t.items? u.items? := by
  cases h with
  | refl => exact rel_refl forall₂_refl _
  | list h => exact .some h
  | _ => exact .none

theorem str?_eq (h : Alike t u) : t.str? = u.str? := by
  cases h <;> rfl

theorem tokenText?_eq (h : Alike t u) : t.tokenText? = u.tokenText? := by
  cases h with
  | refl => rfl
  | tagged h =>
    rename_i tag cs ds
    rw [tokenText?_tagged, tokenText?_tagged]
    split
    · next hs =>
      have hm : matters tag 0 := by simp [matters, hs]
      exact bind_eq_of_rel (h 0 hm) str?_eq
    · rfl
  | list => rfl
  | program => rfl

theorem stringPart?_eq (h : Alike t u) : t.stringPart? = u.stringPart? := by
  rw [stringPart?, stringPart?, h.isTagged_eq, h.tokenText?_eq]

theorem children (h : Alike t u) {tag : String} (ht : t.isTagged tag)
    (hi : ∀ i, tag ≠ "program" ∧ matters tag i) : List.Forall₂ Alike t.children u.children :=
  forall₂_of_getElem? fun i => h.getElem?_children ht (hi i)

theorem matters_of_mem_childwiseTags {tag : String} (h : tag ∈ childwiseTags) (i : Nat) :
    tag ≠ "program" ∧ matters tag i := by
  simp only [childwiseTags, List.mem_cons, List.not_mem_nil, or_false] at h
  obtain rfl | rfl | rfl | rfl | rfl | rfl | rfl | rfl | rfl | rfl | rfl | rfl | rfl := h <;>
    exact ⟨by decide, by simp +decide [matters]⟩

theorem indistinct : Indistinct Alike where
  tag? h := .inl h.tag?_eq
  eq_nil_iff h := by cases h <;> simp
  eq_symbol_iff h := by cases h <;> simp
  items? := items?
  tokenText?_eq := tokenText?_eq
  contentText?_eq h ht := by
    have hm : ∀ i, "string_content" ≠ "program" ∧ matters "string_content" i := by
      simp +decide [matters]
    rw [mapM_eq_of_forall₂ (h.children ht hm) stringPart?_eq]
  getElem?_children h hm ht i := h.getElem?_children ht (matters_of_mem_childwiseTags hm i)

theorem child? (h : Alike t u) {tag : String} (ht : t.isTagged tag) {i : Nat}
    (hi : tag ≠ "program" ∧ matters tag i) : Option.Rel Alike (t.child? i) (u.child? i) :=
  indistinct.rel_child? (h.getElem?_children ht hi)

end Alike

end TableGraph.Tree
