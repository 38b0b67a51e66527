import TableGraph.Definition.Table
import TableGraph.Proofs.Tree.Indistinct

namespace TableGraph.Definition

variable {R : Tree → Tree → Prop}

theorem agree_require {R : α → β → Prop} {o : Option α} {p : Option β} (h : Option.Rel R o p)
    (context : Context) (expected : Expected) :
    Agree R (require o context expected) (require p context expected) := by
  cases h with
  | none => exact .error
  | some h => exact .ok h

structure Arguments.Related (R : Tree → Tree → Prop) (a b : Arguments) : Prop where
  positional : List.Forall₂ R a.positional b.positional
  keywords? : Option.Rel (fun t u => R t u ∧ isHash t) a.keywords? b.keywords?

def SameDefinition (R : Tree → Tree → Prop) (ts us : List Tree) : Prop :=
  Option.Rel (fun a b => Option.Rel R (a.child? 1) (b.child? 1))
    (ts.find? (·.isTagged "method_add_block")) (us.find? (·.isTagged "method_add_block"))

def isBlock (t : Tree) : Bool := t.isTagged "do_block" || t.isTagged "brace_block"

def bodyStatements (context : Context) (block : Tree) : Except Malformed (List Tree) := do
  let body ← require (block.child? 1) context .blockBody
  let statements := if body.isTagged "bodystmt" then body.child? 0 else some body
  require (statements.bind Tree.items?) context .bodyStatements

theorem blockStatements_eq (context : Context) (t : Tree) :
    blockStatements context t =
      require ((t.child? 1).filter isBlock) context .block >>= bodyStatements context := rfl

def AgreeOnCall (R : Tree → Tree → Prop) (context : Context) (t u : Tree) : Prop :=
  Agree (fun p q => Option.Rel R p.1 q.1 ∧ Option.Rel R p.2 q.2)
    (columnCall context t) (columnCall context u)

/-- What a relation has to keep, beside what names and values are read from, for related trees to be
read as the same definitions. -/
structure Indistinct (R : Tree → Tree → Prop) : Prop extends Tree.Indistinct R where
  arguments : R t u → t.isTagged "args_add_block" →
    Option.Rel (fun ts us => Arguments.Related R (.ofItems ts) (.ofItems us))
      ((t.child? 0).bind Tree.items?) ((u.child? 0).bind Tree.items?)
  columnCall (context : Context) : R t u → AgreeOnCall R context t u
  isBlock_eq : R t u → isBlock t = isBlock u
  bodyStatements (context : Context) : R t u → isBlock t →
    Agree (List.Forall₂ R) (bodyStatements context t) (bodyStatements context u)
  programStatements : R t u → t.isTagged "program" →
    Option.Rel (SameDefinition R) ((t.child? 0).bind Tree.items?) ((u.child? 0).bind Tree.items?)

theorem Arguments.related_ofItems (hR : Tree.Indistinct R) {ts us : List Tree}
    (h : List.Forall₂ R ts us) : Related R (ofItems ts) (ofItems us) := by
  have hh : ∀ {t u}, R t u → isHash t = isHash u := fun h => hR.isTagged_eq h _ (by decide)
  exact {
    positional := (forall₂_filter h fun h => by rw [hh h]).imp fun _ _ => And.left
    keywords? := rel_getLast? (forall₂_filter h hh) }

theorem Arguments.Related.first {a b : Arguments} (h : Related R a b) (context : Context)
    (expected : Expected) : Agree R (a.first context expected) (b.first context expected) :=
  agree_require (rel_getElem? h.positional 0) context expected

theorem Arguments.Related.second {a b : Arguments} (h : Related R a b) (context : Context)
    (expected : Expected) : Agree R (a.second context expected) (b.second context expected) :=
  agree_require (rel_getElem? h.positional 1) context expected

theorem sameDefinition_of_forall₂ (hR : Tree.Indistinct R) {ts us : List Tree}
    (h : List.Forall₂ R ts us) : SameDefinition R ts us :=
  rel_imp (rel_find? h fun hab => hR.isTagged_eq hab _ (by decide)) fun hab =>
    hR.child? hab.1 (by decide) hab.2 1

theorem agreeOnCall_of_tag? (hR : Tree.Indistinct R) {t u : Tree} (ht : t.tag? = u.tag?)
    (hcommand : t.isTagged "command_call" → ∀ i ∈ [2, 3], Option.Rel R (t.child? i) (u.child? i))
    (happly : t.isTagged "method_add_arg" → ∀ i ∈ [0, 1], Option.Rel R (t.child? i) (u.child? i))
    (hcall : ∀ {c d}, R c d → c.isTagged "call" → Option.Rel R (c.child? 2) (d.child? 2))
    (hparen : ∀ {c d}, R c d → c.isTagged "arg_paren" → Option.Rel R (c.child? 0) (d.child? 0))
    (context : Context) : AgreeOnCall R context t u := by
  rw [AgreeOnCall, Definition.columnCall, Definition.columnCall, ← ht]
  split
  · next ht =>
    have h := hcommand (Tree.isTagged_iff.mpr ht)
    exact .ok ⟨h 2 (by decide), h 3 (by decide)⟩
  · next ht =>
    have h := happly (Tree.isTagged_iff.mpr ht)
    have hc := rel_filter (h 0 (by decide)) fun h => hR.isTagged_eq h "call" (by decide)
    have hp := rel_filter (h 1 (by decide)) fun h =>
      hR.isTagged_eq h "arg_paren" (by decide)
    refine (agree_require hc context .methodCall).bind fun hab => .ok ⟨hcall hab.1 hab.2, ?_⟩
    exact rel_bind hp fun hab => hparen hab.1 hab.2
  · exact .error

theorem agree_bodyStatements (hR : Tree.Indistinct R)
    (hbody : ∀ {t u}, R t u → t.isTagged "bodystmt" → Option.Rel R (t.child? 0) (u.child? 0))
    (context : Context) {t u : Tree} (h : Option.Rel R (t.child? 1) (u.child? 1)) :
    Agree (List.Forall₂ R) (bodyStatements context t) (bodyStatements context u) := by
  refine (agree_require h _ _).bind fun {body body'} h => agree_require ?_ _ _
  rw [← hR.isTagged_eq h _ (by decide)]
  split
  · next ht => exact rel_bind (hbody h ht) hR.items?
  · exact hR.items? h

namespace Indistinct

variable (hR : Indistinct R) {t u : Tree} {a b : Arguments}

include hR

theorem agree_arguments (context : Context) {t u : Option Tree} (h : Option.Rel R t u) :
    Agree (Arguments.Related R) (Arguments.ofTree context t) (Arguments.ofTree context u) := by
  refine (agree_require (rel_bind h fun {a b} hab => ?_) _ _).map id
  rw [← hR.isTagged_eq hab _ (by decide)]
  split
  · next ht => exact hR.arguments hab ht
  · exact .none

theorem agree_blockStatements (context : Context)
    (h : Option.Rel R (t.child? 1) (u.child? 1)) :
    Agree (List.Forall₂ R) (blockStatements context t) (blockStatements context u) := by
  rw [blockStatements_eq, blockStatements_eq]
  exact (agree_require (rel_filter h hR.isBlock_eq) _ _).bind fun hb =>
    hR.bodyStatements context hb.1 hb.2

theorem readPair_eq (context : Context) (h : R t u) :
    readPair context t = readPair context u := by
  rw [readPair, readPair, ← hR.isTagged_eq h _ (by decide)]
  split
  · next ht =>
    have hk : (t.child? 0).bind Tree.keyword? = (u.child? 0).bind Tree.keyword? :=
      bind_eq_of_rel (hR.child? h (by decide) ht 0) hR.keyword?_eq
    rw [hk, OptionValue.ofTree?_eq hR.toIndistinct (hR.child? h (by decide) ht 1)]
  · rfl

theorem readPairs_eq (context : Context) (h : R t u) (ht : Arguments.isHash t) :
    readPairs context t = readPairs context u := by
  rw [readPairs, readPairs]
  have hi := rel_bind (hR.child? h (by decide) ht 0) hR.items?
  obtain ⟨hp, hq⟩ | ⟨ps, qs, hp, hq, hpq⟩ := rel_iff.mp hi
  · rw [hp, hq]
  · rw [hp, hq]
    exact mapM_eq_of_forall₂ hpq (hR.readPair_eq context)

theorem readKeywords_eq (context : Context) (h : Arguments.Related R a b) :
    a.readKeywords context = b.readKeywords context := by
  rw [Arguments.readKeywords, Arguments.readKeywords]
  obtain ⟨ha, hb⟩ | ⟨t, u, ha, hb, h, ht⟩ := rel_iff.mp h.keywords?
  · rw [ha, hb]
  · simp only [ha, hb, hR.readPairs_eq context h ht]

theorem indexKeys_eq (context : Context) (h : R t u) :
    indexKeys context t = indexKeys context u := by
  rw [indexKeys, indexKeys, ← hR.isTagged_eq h "string_literal" (by decide),
    ← hR.isTagged_eq h "array" (by decide)]
  split
  · next ht => rw [hR.stringText?_eq h ht]
  split
  · next ht =>
    obtain ⟨hc, hd⟩ | ⟨c, d, hc, hd, hcd⟩ := rel_iff.mp (hR.child? h (by decide) ht 0)
    · rw [hc, hd]
    · simp only [hc, hd]
      refine (agree_require (hR.items? hcd) _ _).bind_eq fun hi => ?_
      exact mapM_eq_of_forall₂ hi fun hab => by rw [hR.name?_eq hab]
  · rfl

theorem bareColumn_eq (context : Context) (type : String) (h : Arguments.Related R a b) :
    bareColumn context type a = bareColumn context type b := by
  rw [bareColumn, bareColumn]
  split
  · refine (h.first _ _).bind_eq fun hab => ?_
    rw [hR.indexKeys_eq context hab]
  · refine (h.first _ _).bind_eq fun hab => ?_
    rw [hR.name?_eq hab]

theorem readColumn_eq (context : Context) (h : R t u) :
    readColumn context t = readColumn context u := by
  refine (hR.columnCall context h).bind_eq fun {p q} hpq => ?_
  have hm : p.1.bind Tree.tokenText? = q.1.bind Tree.tokenText? :=
    bind_eq_of_rel hpq.1 hR.tokenText?_eq
  simp only [hm]
  congr 1
  funext type
  refine (hR.agree_arguments context hpq.2).bind_eq fun hab => ?_
  rw [hR.bareColumn_eq context type hab, hR.readKeywords_eq context hab]

theorem readColumns_eq (context : Context) {ts us : List Tree} (h : List.Forall₂ R ts us) :
    readColumns context ts = readColumns context us := by
  induction h with
  | nil => rfl
  | cons h _ ih =>
    rw [readColumns, readColumns, ← hR.isTagged_eq h _ (by decide), hR.readColumn_eq context h, ih]

theorem agree_schemaStatements (h : R t u) :
    Agree (List.Forall₂ R) (schemaStatements t) (schemaStatements u) := by
  rw [schemaStatements, schemaStatements, ← hR.isTagged_eq h _ (by decide)]
  by_cases ht : t.isTagged "program"
  · simp only [ht]
    refine (agree_require (hR.programStatements h ht) _ _).bind fun hs => ?_
    exact (agree_require hs _ _).bind (hR.agree_blockStatements _)
  · simp only [ht]
    exact .error

theorem readHeader_eq (h : R t u) (ht : t.isTagged "command") : readHeader t = readHeader u := by
  refine (hR.agree_arguments _ (hR.child? h (by decide) ht 1)).bind_eq fun hab => ?_
  refine (hab.first _ _).bind_eq fun hn => ?_
  rw [hR.name?_eq hn, hR.readKeywords_eq _ hab]

theorem readForeignKey_eq (h : R t u) (ht : t.isTagged "command") :
    readForeignKey t = readForeignKey u := by
  refine (hR.agree_arguments _ (hR.child? h (by decide) ht 1)).bind_eq fun hab => ?_
  refine (hab.first _ _).bind_eq fun hs => ?_
  rw [hR.name?_eq hs]
  congr 1
  funext source
  refine (hab.second _ _).bind_eq fun hn => ?_
  rw [hR.name?_eq hn]

end Indistinct

end TableGraph.Definition
