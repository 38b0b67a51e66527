import TableGraph.Definition.Value

namespace TableGraph.Tree

theorem isTagged_iff {t : Tree} {tag : String} : t.isTagged tag ↔ t.tag? = some tag := by
  rw [isTagged, beq_iff_eq]

theorem tokenText?_tagged (tag : String) (children : List Tree) :
    (tagged tag children).tokenText? =
      if isScannerTag tag then children[0]?.bind str? else none := by
  cases children with
  | nil => simp [tokenText?]
  | cons c cs => cases c <;> simp [tokenText?, str?]

theorem sizeOf_lt_of_mem_children {c t : Tree} (h : c ∈ t.children) : sizeOf c < sizeOf t := by
  cases t with
  | tagged tag children =>
    have hc : sizeOf c < sizeOf children := List.sizeOf_lt_of_mem h
    simp only [tagged.sizeOf_spec]
    omega
  | list items =>
    have hc : sizeOf c < sizeOf items := List.sizeOf_lt_of_mem h
    simp only [list.sizeOf_spec]
    omega
  | _ => cases h

theorem constantPath?_ref {t : Tree} (h : t.isTagged "const_path_ref") :
    t.constantPath? = (t.children[0]?.bind constantPath?).bind fun path =>
      (t.children[1]?.bind tokenText?).map fun name => path ++ "::" ++ name := by
  cases t with
  | tagged tag children =>
    cases isTagged_iff.mp h
    cases children with
    | nil => rfl
    | cons head rest =>
      rw [constantPath?, if_pos rfl, List.head?_eq_getElem?]
      change _ = head.constantPath?.bind fun path => (rest[0]?.bind tokenText?).map _
      cases head.constantPath? <;> cases rest[0]?.bind tokenText? <;> rfl
  | _ => cases h

theorem constantPath?_head {t : Tree} (h : t.isTagged "var_ref" ∨ t.isTagged "top_const_ref") :
    t.constantPath? = t.children[0]?.bind tokenText? := by
  cases t with
  | tagged tag children =>
    simp only [isTagged_iff, tag?, Option.some.injEq] at h
    have hr : tag ≠ "const_path_ref" := by
      obtain rfl | rfl := h <;> decide
    cases children with
    | nil => rfl
    | cons head rest => rw [constantPath?, if_neg hr, if_pos h]; rfl
  | _ => obtain h | h := h <;> cases h

theorem constantPath?_eq_none {t : Tree} (hr : ¬t.isTagged "const_path_ref")
    (hv : ¬(t.isTagged "var_ref" ∨ t.isTagged "top_const_ref")) : t.constantPath? = none := by
  cases t with
  | tagged tag children =>
    simp only [isTagged_iff, tag?, Option.some.injEq] at hr hv
    cases children with
    | nil => rfl
    | cons head rest => rw [constantPath?, if_neg hr, if_neg hv]
  | _ => rfl

theorem negativeNumber?_minus {t : Tree} (h : t.child? 0 = some (.symbol "-@")) :
    t.negativeNumber? = (t.child? 1).bind fun number =>
      if number.isTagged "@int" || number.isTagged "@float" then number.tokenText?.map ("-" ++ ·)
      else none := by
  rw [negativeNumber?, h]
  cases t.child? 1 <;> rfl

theorem negativeNumber?_eq_none {t : Tree} (h : t.child? 0 ≠ some (.symbol "-@")) :
    t.negativeNumber? = none := by
  rw [negativeNumber?]
  split
  · next hs _ => exact absurd hs h
  · rfl

end TableGraph.Tree
