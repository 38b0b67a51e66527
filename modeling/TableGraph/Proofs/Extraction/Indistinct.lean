import TableGraph.Proofs.Definition.Indistinct
import TableGraph.Proofs.Extraction.Description

namespace TableGraph.Extraction

open Definition

variable {R : Tree → Tree → Prop} (hR : Indistinct R)

include hR

theorem Reading.ofCommand_eq {t u : Tree} (h : R t u) (ht : t.isTagged "command") :
    ofCommand t = ofCommand u := by
  have hn : (t.child? 0).bind Tree.tokenText? = (u.child? 0).bind Tree.tokenText? :=
    bind_eq_of_rel (hR.child? h (by decide) ht 0) hR.tokenText?_eq
  rw [ofCommand, ofCommand, hn, hR.readForeignKey_eq h ht, hR.readHeader_eq h ht]

theorem Reading.ofTable_eq {call call' t u : Tree} (hc : R call call')
    (ht : call.isTagged "command")
    (h : Option.Rel R (t.child? 1) (u.child? 1)) : ofTable call t = ofTable call' u := by
  rw [ofTable, ofTable, hR.readHeader_eq hc ht]
  split
  · rfl
  · next table _ =>
    obtain ⟨m, ha, hb⟩ | ⟨ss, ss', ha, hb, hs⟩ :=
      agree_iff.mp (hR.agree_blockStatements (.columnOf table.name) h)
    · rw [ha, hb]
    · simp only [ha, hb, hR.readColumns_eq _ hs]

theorem Reading.ofBlock_eq {t u : Tree} (h : R t u) (ht : t.isTagged "method_add_block") :
    ofBlock t = ofBlock u := by
  have hc := rel_filter (hR.child? h (by decide) ht 0) fun hab =>
    hR.isTagged_eq hab "command" (by decide)
  rw [ofBlock, ofBlock]
  obtain ⟨ha, hb⟩ | ⟨a, b, ha, hb, hab, hta⟩ := rel_iff.mp hc
  · rw [ha, hb]
  · have hn : (a.child? 0).bind Tree.tokenText? = (b.child? 0).bind Tree.tokenText? :=
      bind_eq_of_rel (hR.child? hab (by decide) hta 0) hR.tokenText?_eq
    have ht := ofTable_eq hR hab hta (hR.child? h (by decide) ht 1)
    simp only [ha, hb, hn, ht]

theorem Reading.ofStatement_eq {t u : Tree} (h : R t u) (ht : t.tag? = u.tag?) :
    ofStatement t = ofStatement u := by
  rw [ofStatement, ofStatement, ← ht]
  split
  · next ht => exact ofCommand_eq hR h (Tree.isTagged_iff.mpr ht)
  · next ht => exact ofBlock_eq hR h (Tree.isTagged_iff.mpr ht)
  · rfl
  · rfl

omit hR in
theorem outcome_of_isCallOrBlock {t : Tree} (h : t.IsCallOrBlock) :
    (Reading.ofStatement t).outcome = .ok .other := by
  obtain ⟨tag, hm, ht⟩ := h
  rw [Tree.isTagged_iff] at ht
  rw [Reading.ofStatement, ht]
  simp only [List.mem_cons, List.not_mem_nil, or_false] at hm
  obtain rfl | rfl | rfl | rfl := hm <;> rfl

theorem outcome_ofStatement_eq {t u : Tree} (h : R t u) :
    (Reading.ofStatement t).outcome = (Reading.ofStatement u).outcome := by
  obtain ht | ⟨ht, hu⟩ := hR.tag? h
  · rw [Reading.ofStatement_eq hR h ht]
  · rw [outcome_of_isCallOrBlock ht, outcome_of_isCallOrBlock hu]

theorem outcomes_eq {ts us : List Tree} (h : List.Forall₂ R ts us) : outcomes ts = outcomes us := by
  induction h with
  | nil => rfl
  | cons h _ ih =>
    rw [outcomes, outcomes, List.map_cons, List.map_cons, outcome_ofStatement_eq hR h]
    exact congrArg _ ih

theorem result_ofTree_eq {t u : Tree} (h : R t u) :
    (Run.ofTree t).result = (Run.ofTree u).result := by
  rw [Run.ofTree, Run.ofTree]
  obtain ⟨m, ha, hb⟩ | ⟨ss, ss', ha, hb, hs⟩ := agree_iff.mp (hR.agree_schemaStatements h)
  · rw [ha, hb]
  · simp only [ha, hb, Run.result_ofStatements, outcomes_eq hR hs]

end TableGraph.Extraction
