import TableGraph.Proofs.Rel
import TableGraph.Proofs.Tree.Tagged

/-! Relations on trees under which related trees are read as the same names, strings and values. -/

namespace TableGraph.Tree

def IsCallOrBlock (t : Tree) : Prop :=
  ∃ tag ∈ ["command_call", "method_add_arg", "do_block", "brace_block"], t.isTagged tag

def childwiseTags : List String :=
  ["assoc_new", "bare_assoc_hash", "array", "method_add_block", "command", "var_ref", "vcall",
    "top_const_ref", "const_path_ref", "symbol_literal", "symbol", "string_literal", "unary"]

/-- What a relation has to keep for related trees to be read alike. -/
structure Indistinct (R : Tree → Tree → Prop) : Prop where
  tag? : R t u → t.tag? = u.tag? ∨ t.IsCallOrBlock ∧ u.IsCallOrBlock
  eq_nil_iff : R t u → (t = .nil ↔ u = .nil)
  eq_symbol_iff : R t u → ∀ text, t = .symbol text ↔ u = .symbol text
  items? : R t u → Option.Rel (List.Forall₂ R) t.items? u.items?
  tokenText?_eq : R t u → t.tokenText? = u.tokenText?
  contentText?_eq : R t u → t.isTagged "string_content" →
    (t.children.mapM stringPart?).map String.join = (u.children.mapM stringPart?).map String.join
  getElem?_children : R t u → tag ∈ childwiseTags → t.isTagged tag → ∀ i : Nat,
    Option.Rel R t.children[i]? u.children[i]?

theorem IsCallOrBlock.isTagged_eq_false {t : Tree} (h : t.IsCallOrBlock) {tag : String}
    (ht : tag ∉ ["command_call", "method_add_arg", "do_block", "brace_block"]) :
    t.isTagged tag = false := by
  obtain ⟨tag', hm, h⟩ := h
  rw [isTagged_iff] at h
  rw [isTagged, h, beq_eq_false_iff_ne]
  rintro ⟨⟩
  exact ht hm

theorem isTagged_eq_of_tag? {t u : Tree}
    (h : t.tag? = u.tag? ∨ t.IsCallOrBlock ∧ u.IsCallOrBlock) {tag : String}
    (ht : tag ∉ ["command_call", "method_add_arg", "do_block", "brace_block"]) :
    t.isTagged tag = u.isTagged tag := by
  obtain h | ⟨h, h'⟩ := h
  · rw [isTagged, isTagged, h]
  · rw [h.isTagged_eq_false ht, h'.isTagged_eq_false ht]

theorem IsCallOrBlock.unnamed {t : Tree} (h : t.IsCallOrBlock) :
    t.name? = none ∧ t.keyword? = none ∧ t.ident? = none := by
  obtain ⟨tag, hm, h⟩ := h
  rw [isTagged_iff] at h
  rw [name?, keyword?, ident?, h]
  simp only [List.mem_cons, List.not_mem_nil, or_false] at hm
  obtain rfl | rfl | rfl | rfl := hm <;> exact ⟨rfl, rfl, rfl⟩

namespace Indistinct

variable {R : Tree → Tree → Prop} (hR : Indistinct R) {t u : Tree}

include hR

theorem isTagged_eq (h : R t u) (tag : String)
    (ht : tag ∉ ["command_call", "method_add_arg", "do_block", "brace_block"]) :
    t.isTagged tag = u.isTagged tag := isTagged_eq_of_tag? (hR.tag? h) ht

theorem rel_child? {i : Nat} (h : Option.Rel R t.children[i]? u.children[i]?) :
    Option.Rel R (t.child? i) (u.child? i) := by
  rw [Tree.child?, Tree.child?]
  generalize t.children[i]? = c at h ⊢
  generalize u.children[i]? = d at h ⊢
  cases h with
  | none => exact .none
  | some h =>
    rename_i c d
    by_cases hc : c = .nil
    · rw [hc, (hR.eq_nil_iff h).mp hc]
      exact .none
    · have hd : d ≠ .nil := mt (hR.eq_nil_iff h).mpr hc
      split
      · next he => exact absurd (Option.some.inj he) hc
      · split
        · next he => exact absurd (Option.some.inj he) hd
        · exact .some h

theorem child? (h : R t u) {tag : String} (hm : tag ∈ childwiseTags) (ht : t.isTagged tag)
    (i : Nat) : Option.Rel R (t.child? i) (u.child? i) :=
  hR.rel_child? (hR.getElem?_children h hm ht i)

theorem stringText?_eq (h : R t u) (ht : t.isTagged "string_literal") :
    t.stringText? = u.stringText? := by
  rw [stringText?, stringText?]
  obtain ⟨hc, hd⟩ | ⟨c, d, hc, hd, hcd⟩ := rel_iff.mp (hR.child? h (by decide) ht 0)
  · rw [hc, hd]
  · simp only [hc, hd, ← hR.isTagged_eq hcd "string_content" (by decide)]
    split
    · next hs => exact hR.contentText?_eq hcd hs
    · rfl

theorem symbolName?_eq (h : R t u) (ht : t.isTagged "symbol_literal") :
    t.symbolName? = u.symbolName? := by
  rw [symbolName?, symbolName?]
  obtain ⟨hc, hd⟩ | ⟨c, d, hc, hd, hcd⟩ := rel_iff.mp (hR.child? h (by decide) ht 0)
  · rw [hc, hd]
  · simp only [hc, hd, ← hR.isTagged_eq hcd "symbol" (by decide), hR.tokenText?_eq hcd]
    split
    · next hs => exact bind_eq_of_rel (hR.child? hcd (by decide) hs 0) hR.tokenText?_eq
    · rfl

theorem referenceName?_eq (h : R t u) {tag : String} (hm : tag ∈ childwiseTags)
    (ht : t.isTagged tag) : t.referenceName? = u.referenceName? :=
  bind_eq_of_rel (hR.child? h hm ht 0) hR.tokenText?_eq

theorem name?_eq (h : R t u) : t.name? = u.name? := by
  obtain ht | ⟨ht, hu⟩ := hR.tag? h
  · rw [name?, name?, ← ht]
    split
    · next ht => exact hR.stringText?_eq h (isTagged_iff.mpr ht)
    · next ht => exact hR.symbolName?_eq h (isTagged_iff.mpr ht)
    · next ht => exact hR.referenceName?_eq h (by decide) (isTagged_iff.mpr ht)
    · next ht => exact hR.referenceName?_eq h (by decide) (isTagged_iff.mpr ht)
    · rfl
  · rw [ht.unnamed.1, hu.unnamed.1]

theorem keyword?_eq (h : R t u) : t.keyword? = u.keyword? := by
  obtain ht | ⟨ht, hu⟩ := hR.tag? h
  · rw [keyword?, keyword?, ht, hR.tokenText?_eq h, hR.name?_eq h]
  · rw [ht.unnamed.2.1, hu.unnamed.2.1]

theorem constantPath?_eq {t u : Tree} (h : R t u) : t.constantPath? = u.constantPath? := by
  have hr := hR.isTagged_eq h "const_path_ref" (by decide)
  have hv := hR.isTagged_eq h "var_ref" (by decide)
  have hw := hR.isTagged_eq h "top_const_ref" (by decide)
  by_cases ht : t.isTagged "const_path_ref"
  · have hc := hR.getElem?_children h (by decide) ht
    have hh : t.children[0]?.bind constantPath? = u.children[0]?.bind constantPath? := by
      obtain ⟨hc, hd⟩ | ⟨c, d, hc, hd, hcd⟩ := rel_iff.mp (hc 0)
      · rw [hc, hd]
      · have hm : c ∈ t.children := List.mem_of_getElem? hc
        rw [hc, hd]
        exact constantPath?_eq hcd
    have hn : t.children[1]?.bind tokenText? = u.children[1]?.bind tokenText? :=
      bind_eq_of_rel (hc 1) hR.tokenText?_eq
    rw [constantPath?_ref ht, constantPath?_ref (hr ▸ ht), hh, hn]
  by_cases hh : t.isTagged "var_ref" ∨ t.isTagged "top_const_ref"
  · have hc : Option.Rel R t.children[0]? u.children[0]? := by
      cases hh with
      | inl ht => exact hR.getElem?_children h (by decide) ht 0
      | inr ht => exact hR.getElem?_children h (by decide) ht 0
    rw [constantPath?_head hh, constantPath?_head (by rwa [← hv, ← hw])]
    exact bind_eq_of_rel hc hR.tokenText?_eq
  · rw [constantPath?_eq_none ht hh, constantPath?_eq_none (by rwa [← hr]) (by rwa [← hv, ← hw])]
  termination_by t
  decreasing_by exact sizeOf_lt_of_mem_children hm

theorem negativeNumber?_eq (h : R t u) (ht : t.isTagged "unary") :
    t.negativeNumber? = u.negativeNumber? := by
  have hs : t.child? 0 = some (.symbol "-@") ↔ u.child? 0 = some (.symbol "-@") := by
    obtain ⟨hc, hd⟩ | ⟨c, d, hc, hd, hcd⟩ := rel_iff.mp (hR.child? h (by decide) ht 0)
    · rw [hc, hd]
    · rw [hc, hd, Option.some.injEq, Option.some.injEq]
      exact hR.eq_symbol_iff hcd "-@"
  by_cases hc : t.child? 0 = some (.symbol "-@")
  · rw [negativeNumber?_minus hc, negativeNumber?_minus (hs.mp hc)]
    refine bind_eq_of_rel (hR.child? h (by decide) ht 1) fun hmn => ?_
    rw [hR.isTagged_eq hmn "@int" (by decide),
      hR.isTagged_eq hmn "@float" (by decide), hR.tokenText?_eq hmn]
  · rw [negativeNumber?_eq_none hc, negativeNumber?_eq_none (mt hs.mpr hc)]

theorem ident?_eq (h : R t u) : t.ident? = u.ident? := by
  obtain ht | ⟨ht, hu⟩ := hR.tag? h
  · rw [ident?, ident?, ← ht]
    split
    · next ht => exact hR.referenceName?_eq h (by decide) (isTagged_iff.mpr ht)
    · next ht => exact hR.referenceName?_eq h (by decide) (isTagged_iff.mpr ht)
    · exact hR.constantPath?_eq h
    · next ht => exact hR.symbolName?_eq h (isTagged_iff.mpr ht)
    · exact hR.tokenText?_eq h
    · exact hR.tokenText?_eq h
    · exact hR.tokenText?_eq h
    · exact hR.tokenText?_eq h
    · next ht => exact hR.negativeNumber?_eq h (isTagged_iff.mpr ht)
    · rfl
  · rw [ht.unnamed.2.2, hu.unnamed.2.2]

end Indistinct

end TableGraph.Tree

namespace TableGraph.OptionValue

variable {R : Tree → Tree → Prop} (hR : Tree.Indistinct R)

include hR

theorem ofTree_eq {t u : Tree} (h : R t u) : ofTree t = ofTree u := by
  rw [ofTree, ofTree, ← hR.isTagged_eq h _ (by decide), hR.ident?_eq h]
  split
  · next ht => rw [hR.stringText?_eq h ht]
  · rfl

theorem ofTree?_eq {t u : Option Tree} (h : Option.Rel R t u) : ofTree? t = ofTree? u := by
  cases h with
  | none => rfl
  | some h => exact ofTree_eq hR h

end TableGraph.OptionValue
