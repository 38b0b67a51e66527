import TableGraph.Extraction.Run
import TableGraph.Proofs.Extraction.Statement
import TableGraph.Proofs.Schema.Tables
import TableGraph.Proofs.Source.Tree

/-! The schema that statements describe, told from the whole sequence at once: which names are
created, by which creation each table stands, and which statement is the first fault. -/

namespace TableGraph.Extraction

inductive Faulty (earlier : List Outcome) : Outcome → Error → Prop
  | malformed : Faulty earlier (.error m) (.malformed m)
  | unknownTable : (∀ t, .ok (.create t) ∈ earlier → t.name ≠ source) →
      Faulty earlier (.ok (.reference source target)) (.unknownTable source target)

def FaultAt (os : List Outcome) (i : Nat) (e : Error) : Prop :=
  ∃ o, os[i]? = some o ∧ Faulty (os.take i) o e

def FaultFree (os : List Outcome) : Prop := ∀ i e, ¬FaultAt os i e

def FirstFault (os : List Outcome) (e : Error) : Prop :=
  ∃ i, FaultAt os i e ∧ ∀ j < i, ∀ e', ¬FaultAt os j e'

def Directive.created? : Directive → Option String
  | .create t => some t.name
  | _ => none

def Directive.target? (source : String) : Directive → Option String
  | .reference s t => if s = source then some t else none
  | _ => none

def referencesTo : List String → Option (List String)
  | [] => none
  | targets => some targets

/-- A table is the last creation of its name with the references after it. -/
def Stands (ds : List Directive) (t : Table) : Prop :=
  ∃ earlier u later, ds = earlier ++ .create u :: later ∧ u.name = t.name ∧
    (∀ d ∈ later, d.created? ≠ some t.name) ∧ t.comment = u.comment ∧ t.columns = u.columns ∧
    t.references = referencesTo (later.filterMap (·.target? t.name))

structure Describes (ds : List Directive) (s : Schema) : Prop where
  names : s.names = (ds.filterMap Directive.created?).eraseDups
  tables : ∀ t ∈ s.tables, Stands ds t

theorem referencesTo_concat (targets : List String) (target : String) :
    referencesTo (targets ++ [target]) = some ((referencesTo targets).getD [] ++ [target]) := by
  cases targets <;> rfl

theorem Stands.concat {ds : List Directive} {t : Table} (h : Stands ds t) {d : Directive}
    (hc : d.created? ≠ some t.name) (ht : d.target? t.name = none) : Stands (ds ++ [d]) t := by
  obtain ⟨earlier, u, later, rfl, hn, hl, hcomment, hcolumns, hr⟩ := h
  refine ⟨earlier, u, later ++ [d], by simp, hn, ?_, hcomment, hcolumns, ?_⟩
  · intro d' hd
    cases List.mem_append.mp hd with
    | inl hd => exact hl d' hd
    | inr hd => rw [List.mem_singleton.mp hd]; exact hc
  · simp [ht, hr]

theorem Stands.reference {ds : List Directive} {t : Table} (h : Stands ds t) (target : String) :
    Stands (ds ++ [.reference t.name target]) (t.addReference target) := by
  obtain ⟨earlier, u, later, rfl, hn, hl, hcomment, hcolumns, hr⟩ := h
  refine ⟨earlier, u, later ++ [.reference t.name target], by simp, hn, ?_, hcomment, hcolumns, ?_⟩
  · intro d hd
    cases List.mem_append.mp hd with
    | inl hd => exact hl d hd
    | inr hd => rw [List.mem_singleton.mp hd]; nofun
  · simp only [Table.addReference, hr, List.filterMap_append, List.filterMap_cons,
      Directive.target?, ↓reduceIte, List.filterMap_nil, referencesTo_concat]

theorem Describes.nodup {ds : List Directive} {s : Schema} (h : Describes ds s) :
    s.names.Nodup := by
  rw [h.names]
  exact nodup_eraseDups _

theorem Describes.mem_names {ds : List Directive} {s : Schema} (h : Describes ds s)
    (name : String) : name ∈ s.names ↔ ∃ t, .create t ∈ ds ∧ t.name = name := by
  rw [h.names, List.mem_eraseDups, List.mem_filterMap]
  constructor
  · intro ⟨d, hd, hn⟩
    cases d with
    | create t => exact ⟨t, hd, Option.some.inj hn⟩
    | reference => cases hn
    | other => cases hn
  · intro ⟨t, ht, hn⟩
    exact ⟨.create t, ht, congrArg some hn⟩

theorem Describes.insert {ds : List Directive} {s : Schema} (h : Describes ds s) {t : Table}
    (ht : t.references = none) : Describes (ds ++ [.create t]) (s.insert t) where
  names := by
    have hc : [Directive.create t].filterMap Directive.created? = [t.name] := rfl
    rw [Schema.names_insert, List.filterMap_append, hc, eraseDups_concat, h.names]
    simp only [List.mem_eraseDups]
  tables u hu := by
    cases (Schema.mem_insert h.nodup t u).mp hu with
    | inl hu =>
      rw [hu]
      exact ⟨ds, t, [], rfl, rfl, nofun, rfl, rfl, ht⟩
    | inr hu =>
      apply (h.tables u hu.1).concat
      · intro hn
        exact hu.2 (Option.some.inj hn).symm
      · rfl

theorem Describes.reference {ds : List Directive} {s : Schema} (h : Describes ds s)
    (source target : String) :
    Describes (ds ++ [.reference source target]) (s.update source (·.addReference target)) where
  names := by
    have hc : [Directive.reference source target].filterMap Directive.created? = [] := rfl
    rw [Schema.names_addReference, List.filterMap_append, hc, List.append_nil, h.names]
  tables u hu := by
    cases (Schema.mem_update h.nodup source _ u).mp hu with
    | inl hu =>
      obtain ⟨t, ht, rfl, rfl⟩ := hu
      exact (h.tables t ht).reference target
    | inr hu =>
      apply (h.tables u hu.1).concat
      · nofun
      · exact if_neg (Ne.symm hu.2)

theorem Describes.other {ds : List Directive} {s : Schema} (h : Describes ds s) :
    Describes (ds ++ [.other]) s where
  names := by
    have hc : [Directive.other].filterMap Directive.created? = [] := rfl
    rw [List.filterMap_append, hc, List.append_nil, h.names]
  tables t ht := (h.tables t ht).concat nofun rfl

def directives (os : List Outcome) : List Directive := os.filterMap Except.toOption

theorem mem_directives {os : List Outcome} {d : Directive} : d ∈ directives os ↔ .ok d ∈ os := by
  rw [directives, List.mem_filterMap]
  constructor
  · intro ⟨o, ho, hd⟩
    cases o with
    | error m => cases hd
    | ok d' => rw [← Option.some.inj hd]; exact ho
  · intro hd
    exact ⟨.ok d, hd, rfl⟩

/-- One step of a run: what is carried out is described, and what is not is a fault. -/
theorem Describes.apply {os : List Outcome} {s : Schema} (h : Describes (directives os) s)
    {d : Directive} (hd : d.Bare) :
    (∃ s', d.apply s = .ok s' ∧ Describes (directives os ++ [d]) s' ∧ ∀ e, ¬Faulty os (.ok d) e) ∨
    ∃ e, d.apply s = .error e ∧ Faulty os (.ok d) e := by
  cases d with
  | create t => exact .inl ⟨_, rfl, h.insert (hd t rfl), nofun⟩
  | reference source target =>
    rw [Directive.apply]
    by_cases hs : source ∈ s.names
    · refine .inl ⟨_, if_pos ((Schema.isSome_get? s source).mpr hs), h.reference source target, ?_⟩
      intro e hf
      obtain ⟨t, ht, hn⟩ := (h.mem_names source).mp hs
      cases hf with
      | unknownTable hf => exact hf t (mem_directives.mp ht) hn
    · refine .inr ⟨_, if_neg (mt (Schema.isSome_get? s source).mp hs), .unknownTable ?_⟩
      intro t ht hn
      exact hs ((h.mem_names source).mpr ⟨t, mem_directives.mpr ht, hn⟩)
  | other => exact .inl ⟨_, rfl, h.other, nofun⟩

theorem Faulty.unique {os : List Outcome} {o : Outcome} {e e' : Error} (h : Faulty os o e)
    (h' : Faulty os o e') : e = e' := by
  cases h <;> cases h' <;> rfl

theorem FirstFault.unique {os : List Outcome} {e e' : Error} (h : FirstFault os e)
    (h' : FirstFault os e') : e = e' := by
  obtain ⟨i, hi, hb⟩ := h
  obtain ⟨j, hj, hb'⟩ := h'
  obtain hij | rfl | hij := Nat.lt_trichotomy i j
  · exact absurd hi (hb' i hij e)
  · obtain ⟨o, ho, hf⟩ := hi
    obtain ⟨o', ho', hf'⟩ := hj
    obtain rfl : o = o' := Option.some.inj (ho.symm.trans ho')
    exact hf.unique hf'
  · exact absurd hj (hb j hij e')

theorem faultAt_concat {os : List Outcome} {o : Outcome} {i : Nat} {e : Error} :
    FaultAt (os ++ [o]) i e ↔ FaultAt os i e ∨ i = os.length ∧ Faulty os o e := by
  obtain hi | rfl | hi := Nat.lt_trichotomy i os.length
  · have ht : (os ++ [o]).take i = os.take i := List.take_append_of_le_length (Nat.le_of_lt hi)
    simp [FaultAt, List.getElem?_append_left hi, ht, Nat.ne_of_lt hi]
  · simp [FaultAt]
  · have hn : (os ++ [o])[i]? = none := by
      apply List.getElem?_eq_none
      rw [List.length_append]
      exact hi
    have hn' : os[i]? = none := List.getElem?_eq_none (Nat.le_of_lt hi)
    simp [FaultAt, hn, hn', Nat.ne_of_gt hi]

theorem FirstFault.concat {os : List Outcome} {e : Error} (h : FirstFault os e) (o : Outcome) :
    FirstFault (os ++ [o]) e := by
  obtain ⟨i, hi, hb⟩ := h
  have hlt : i < os.length := by
    obtain ⟨o', ho, _⟩ := hi
    exact (List.getElem?_eq_some_iff.mp ho).1
  refine ⟨i, faultAt_concat.mpr (.inl hi), ?_⟩
  intro j hj e' hf
  cases faultAt_concat.mp hf with
  | inl hf => exact hb j hj e' hf
  | inr hf => exact Nat.lt_asymm hlt (hf.1 ▸ hj)

theorem FaultFree.firstFault {os : List Outcome} (h : FaultFree os) {o : Outcome} {e : Error}
    (ho : Faulty os o e) : FirstFault (os ++ [o]) e := by
  refine ⟨os.length, faultAt_concat.mpr (.inr ⟨rfl, ho⟩), ?_⟩
  intro j hj e' hf
  cases faultAt_concat.mp hf with
  | inl hf => exact h j e' hf
  | inr hf => exact Nat.ne_of_lt hj hf.1

theorem FaultFree.concat {os : List Outcome} (h : FaultFree os) {o : Outcome}
    (ho : ∀ e, ¬Faulty os o e) : FaultFree (os ++ [o]) := by
  intro i e hf
  cases faultAt_concat.mp hf with
  | inl hf => exact h i e hf
  | inr hf => exact ho e hf.2

theorem FirstFault.not_faultFree {os : List Outcome} {e : Error} (h : FirstFault os e) :
    ¬FaultFree os := by
  obtain ⟨i, hi, _⟩ := h
  exact fun hf => hf i e hi

def Outcome.carryOut (s : Schema) : Outcome → Except Error Schema
  | .error m => .error (.malformed m)
  | .ok d => d.apply s

theorem foldlM_map_ok (ds : List Directive) (s : Schema) :
    (ds.map .ok).foldlM Outcome.carryOut s = ds.foldlM Directive.apply s := by
  rw [List.foldlM_map]
  rfl

theorem Run.result_ofStatements (s : Schema) (statements : List Tree) :
    (Run.ofStatements s statements).result = (outcomes statements).foldlM Outcome.carryOut s := by
  induction statements generalizing s with
  | nil => rfl
  | cons statement rest ih =>
    rw [Run.ofStatements, outcomes, List.map_cons, List.foldlM_cons]
    cases ho : (Reading.ofStatement statement).outcome with
    | error m => rfl
    | ok d =>
      cases hd : d.apply s with
      | error e => simp only [Outcome.carryOut, hd, error_bind]
      | ok next =>
        simp only [Outcome.carryOut, hd, ok_bind]
        exact ih next

/-- A whole run: the first fault, or the schema that all the directives describe. -/
theorem foldlM_carryOut (os : List Outcome) (hb : ∀ d, .ok d ∈ os → d.Bare) :
    (∃ s, os.foldlM Outcome.carryOut {} = .ok s ∧ Describes (directives os) s ∧ FaultFree os) ∨
    ∃ e, os.foldlM Outcome.carryOut {} = .error e ∧ FirstFault os e := by
  -- By the last outcome: what a fault is depends on the outcomes before it only.
  induction os using List.reverseRecOn with
  | nil => exact .inl ⟨{}, rfl, ⟨rfl, nofun⟩, fun i e ⟨o, ho, _⟩ => by simp at ho⟩
  | append_singleton os o ih =>
    rw [List.foldlM_append]
    obtain ⟨s, hs, hd, hf⟩ | ⟨e, he, hf⟩ := ih fun d hd => hb d (List.mem_append_left _ hd)
    · rw [hs]
      cases o with
      | error m => exact .inr ⟨.malformed m, rfl, hf.firstFault .malformed⟩
      | ok d =>
        have hbare : d.Bare := hb d (List.mem_append_right _ (List.mem_singleton_self _))
        have hrun : [(.ok d : Outcome)].foldlM Outcome.carryOut s = d.apply s := by
          rw [List.foldlM_cons]
          exact bind_pure _
        obtain ⟨s', hs', hd', ho⟩ | ⟨e, he, ho⟩ := hd.apply hbare
        · refine .inl ⟨s', hrun.trans hs', ?_, hf.concat ho⟩
          rw [directives, List.filterMap_append]
          exact hd'
        · exact .inr ⟨e, hrun.trans he, hf.firstFault ho⟩
    · rw [he]
      exact .inr ⟨e, rfl, hf.concat o⟩

end TableGraph.Extraction

namespace TableGraph.Schema

open Extraction

theorem ofTree_eq_ok {root : Tree} {s : Schema} (h : Schema.ofTree root = .ok s) :
    ∃ statements, Definition.schemaStatements root = .ok statements ∧
      (outcomes statements).foldlM Outcome.carryOut {} = .ok s := by
  rw [Schema.ofTree, Run.ofTree] at h
  split at h
  · cases h
  next statements hs => exact ⟨statements, hs, (Run.result_ofStatements {} statements).symm.trans h⟩

theorem describes_of_ofTree {root : Tree} {statements : List Tree} {s : Schema}
    (hb : Definition.schemaStatements root = .ok statements) (h : Schema.ofTree root = .ok s) :
    Describes (directives (outcomes statements)) s ∧ FaultFree (outcomes statements) := by
  obtain ⟨_, hb', h⟩ := ofTree_eq_ok h
  cases hb.symm.trans hb'
  obtain ⟨s', hs, hd, hf⟩ | ⟨e, he, _⟩ :=
    foldlM_carryOut (outcomes statements) fun d hd => bare_of_mem_outcomes hd
  · cases hs.symm.trans h
    exact ⟨hd, hf⟩
  · cases he.symm.trans h

/-- What is extracted from a schema block. It fails exactly at the first fault among its statements,
and without a fault it is the schema that they describe. -/
theorem ofTree_firstFault_or_describes {root : Tree} {statements : List Tree}
    (h : Definition.schemaStatements root = .ok statements) :
    (∀ s ∈ statements, Says s (Reading.ofStatement s).outcome) ∧
    (∀ e, Schema.ofTree root = .error e ↔ FirstFault (outcomes statements) e) ∧
    ((∃ e, Schema.ofTree root = .error e) ↔ ∃ i e, FaultAt (outcomes statements) i e) ∧
    (FaultFree (outcomes statements) →
      ∃ s, Schema.ofTree root = .ok s ∧ Describes (directives (outcomes statements)) s) := by
  have hr : Schema.ofTree root = (outcomes statements).foldlM Outcome.carryOut {} := by
    rw [Schema.ofTree, Run.ofTree, h]
    exact Run.result_ofStatements {} statements
  refine ⟨fun s _ => says_ofStatement s, ?_⟩
  obtain ⟨s, hs, hd, hf⟩ | ⟨e, he, hf⟩ :=
    foldlM_carryOut (outcomes statements) fun d hd => bare_of_mem_outcomes hd
  · rw [hr, hs]
    refine ⟨fun e => ⟨nofun, fun hf' => absurd hf hf'.not_faultFree⟩, ⟨nofun, ?_⟩, fun _ => ?_⟩
    · intro ⟨i, e, hi⟩
      exact absurd hi (hf i e)
    · exact ⟨s, rfl, hd⟩
  · rw [hr, he]
    refine ⟨fun e' => ⟨?_, fun hf' => ?_⟩, ⟨fun _ => ?_, fun _ => ⟨e, rfl⟩⟩, fun hf' => ?_⟩
    · intro h'
      cases h'
      exact hf
    · rw [hf.unique hf']
    · obtain ⟨i, hi, _⟩ := hf
      exact ⟨i, e, hi⟩
    · exact absurd hf' hf.not_faultFree

theorem ofTree_early_reference :
    let early : List Tree := [.tagged "void_stmt" [], Source.foreignKey "a" "b",
      Source.createTable { name := "a" }]
    let created : Table := { name := "a", columns := [.regular "string" "b"] }
    let redeclared : List Tree := [Source.createTable { name := "a" },
      Source.createTable { name := "b" }, Source.foreignKey "a" "b", Source.createTable created,
      Source.foreignKey "a" "c", Source.foreignKey "a" "b"]
    Definition.schemaStatements (Source.program early) = .ok early ∧
      Schema.ofTree (Source.program early) = .error (.unknownTable "a" "b") ∧
      Definition.schemaStatements (Source.program redeclared) = .ok redeclared ∧
      FaultFree (outcomes redeclared) ∧
      ∃ s, Schema.ofTree (Source.program redeclared) = .ok s ∧
        Describes (directives (outcomes redeclared)) s ∧
        s.tables = [{ created with references := some ["c", "b"] }, { name := "b" }] := by
  intro early created redeclared
  have h : Definition.schemaStatements (Source.program early) = .ok early := rfl
  have ho : outcomes early = [.ok .other, .ok (.reference "a" "b"),
    .ok (.create { name := "a" })] := rfl
  have hf : FirstFault (outcomes early) (.unknownTable "a" "b") := by
    rw [ho]
    refine ⟨1, ⟨_, rfl, .unknownTable (by simp)⟩, ?_⟩
    intro j hj e ⟨o, hj', hf⟩
    obtain rfl : j = 0 := by omega
    cases hj'
    cases hf
  have h' : Definition.schemaStatements (Source.program redeclared) = .ok redeclared := rfl
  have hs : Schema.ofTree (Source.program redeclared) =
    .ok ⟨[{ created with references := some ["c", "b"] }, { name := "b" }]⟩ := rfl
  have hf' : FaultFree (outcomes redeclared) := (describes_of_ofTree h' hs).2
  obtain ⟨s, hs', hd⟩ := (ofTree_firstFault_or_describes h').2.2.2 hf'
  cases hs.symm.trans hs'
  exact ⟨h, ((ofTree_firstFault_or_describes h).2.1 _).mpr hf, h', hf', _, hs, hd, rfl⟩

end TableGraph.Schema
