import TableGraph.Pipeline
import TableGraph.Proofs.Dump.RoundTrip
import TableGraph.Proofs.Extraction.Description
import TableGraph.Proofs.Source.Reading

namespace TableGraph

def Table.withoutReferences (t : Table) : Table := { t with references := none }

def Schema.creations (s : Schema) : List Extraction.Directive :=
  (s.tables.map Table.withoutReferences).map .create

def Table.referrals (t : Table) : List Extraction.Directive :=
  (t.references.getD []).map (.reference t.name)

theorem Table.foldl_addReference (targets references : List String) (t : Table) :
    targets.foldl addReference { t with references := some references } =
      { t with references := some (references ++ targets) } := by
  induction targets generalizing references with
  | nil => simp
  | cons target targets ih => simp [addReference, ih]

theorem Table.addReference_withoutReferences {t : Table} (h : t.references ≠ some []) :
    (t.references.getD []).foldl addReference t.withoutReferences = t := by
  obtain ⟨name, comment, columns, references⟩ := t
  cases references with
  | none => rfl
  | some targets =>
    cases targets with
    | nil => exact absurd rfl h
    | cons target targets => exact foldl_addReference targets [target] _

namespace Extraction.Directive

theorem foldlM_create {ts us : List Table} (h : ((ts ++ us).map Table.name).Nodup) :
    (us.map create).foldlM apply ⟨ts⟩ = .ok ⟨ts ++ us⟩ := by
  induction us generalizing ts with
  | nil => simp
  | cons u us ih =>
    have hn : u.name ∉ (Schema.mk ts).names := not_mem_map_of_nodup h
    rw [List.map_cons, List.foldlM_cons, apply, Schema.insert_of_not_mem hn, ok_bind,
      ih (by simpa using h)]
    simp

theorem foldlM_reference {ts : List Table} {t : Table} (h : t.name ∉ ts.map Table.name)
    (us : List Table) (targets : List String) :
    (targets.map (reference t.name)).foldlM apply ⟨ts ++ t :: us⟩ =
      .ok ⟨ts ++ targets.foldl Table.addReference t :: us⟩ := by
  induction targets generalizing t with
  | nil => rfl
  | cons target targets ih =>
    have hs : ((Schema.mk (ts ++ t :: us)).get? t.name).isSome :=
      (Schema.isSome_get? _ _).mpr (by simp [Schema.names])
    rw [List.map_cons, List.foldlM_cons, apply, if_pos hs, Schema.update_append h, ok_bind,
      List.foldl_cons]
    exact ih h

theorem foldlM_referrals {ts us : List Table} (h : ((ts ++ us).map Table.name).Nodup)
    (hr : ∀ t ∈ us, t.references ≠ some []) :
    (us.flatMap Table.referrals).foldlM apply ⟨ts ++ us.map Table.withoutReferences⟩ =
      .ok ⟨ts ++ us⟩ := by
  induction us generalizing ts with
  | nil => simp
  | cons u us ih =>
    have hn : u.withoutReferences.name ∉ ts.map Table.name := by
      change u.name ∉ ts.map Table.name
      exact not_mem_map_of_nodup h
    rw [List.forall_mem_cons] at hr
    have hu : u.referrals.foldlM apply
        ⟨ts ++ u.withoutReferences :: us.map Table.withoutReferences⟩ =
          .ok ⟨ts ++ u :: us.map Table.withoutReferences⟩ := by
      have hf := foldlM_reference hn (us.map Table.withoutReferences) (u.references.getD [])
      rw [Table.addReference_withoutReferences hr.1] at hf
      exact hf
    have hts : ((ts ++ [u] ++ us).map Table.name).Nodup := by simpa using h
    rw [List.flatMap_cons, List.foldlM_append, List.map_cons, hu, ok_bind]
    simpa using ih hts hr.2

end Extraction.Directive

namespace Schema

open Extraction

theorem outcomes_toTree {s : Schema} (hs : s.WellFormed) :
    outcomes (s.tables.map Source.createTable ++ s.tables.flatMap Source.foreignKeys) =
      (s.creations ++ s.tables.flatMap Table.referrals).map .ok := by
  rw [outcomes, List.map_append, List.map_append, creations, List.map_map, List.map_map,
    List.map_map, List.map_flatMap, List.map_flatMap]
  congr 1
  · apply List.map_congr_left
    intro t ht
    exact Source.outcome_createTable (hs.columns t ht)
  · congr 1
    funext t
    rw [Source.foreignKeys, Table.referrals, List.map_map, List.map_map]
    apply List.map_congr_left
    intro target _
    exact Source.outcome_foreignKey t.name target

theorem ofTree_toTree {s : Schema} (hs : s.WellFormed) : Schema.ofTree s.toTree = .ok s := by
  have hp : Definition.schemaStatements s.toTree =
      .ok (s.tables.map Source.createTable ++ s.tables.flatMap Source.foreignKeys) := rfl
  have hn : (s.tables.map Table.withoutReferences).map Table.name = s.names := by
    rw [List.map_map]
    rfl
  have hc : s.creations.foldlM Directive.apply {} = .ok ⟨s.tables.map Table.withoutReferences⟩ :=
    Directive.foldlM_create (by rw [List.nil_append, hn]; exact hs.names)
  have hr : (s.tables.flatMap Table.referrals).foldlM Directive.apply
      ⟨s.tables.map Table.withoutReferences⟩ = .ok s :=
    Directive.foldlM_referrals (by rw [List.nil_append]; exact hs.names) hs.references
  rw [Schema.ofTree, Run.ofTree, hp]
  simp only
  rw [Run.result_ofStatements, outcomes_toTree hs, foldlM_map_ok, List.foldlM_append, hc, ok_bind,
    hr]

/-- A well-formed schema is read back from the text of the program that defines it. -/
theorem ofDump_toTree [Text.Printing] {s : Schema} (hs : s.WellFormed) :
    Schema.ofDump s.toTree.toText = .ok s := by
  have hp : Tree.parse s.toTree.toText = .ok s.toTree := Tree.parse_toText s.readable_toTree
  have ht : (Run.ofTree s.toTree).result = .ok s := ofTree_toTree hs
  rw [Schema.ofDump, Run.ofDump, hp]
  simp only [ht]
  rfl

theorem ofDump_toTree_quotes :
    let t : Table := {
      name := ""
      comment := "two \"lines\"\n"
      columns := [⟨"string", .regular "a:", [("null:", .ident "false"), ("", .str "\\")]⟩,
        ⟨"index", .index [], []⟩, ⟨"index", .index ["a:"], [("name", .str "[]")]⟩]
      references := some ["", "b", "b"] }
    let s : Schema := ⟨[t, { name := "b" }]⟩
    s.WellFormed ∧ Schema.ofDump s.toTree.toText = .ok s := by
  intro t s
  have hc : ∀ c ∈ t.columns, c.WellFormed := by
    simp only [t, List.forall_mem_cons]
    exact ⟨⟨by simp, by simp⟩, ⟨by simp, by simp⟩, ⟨by simp, by simp⟩, nofun⟩
  have hs : s.WellFormed := {
    names := by decide
    references := by simp [s, t]
    columns := List.forall_mem_cons.mpr ⟨hc, List.forall_mem_singleton.mpr nofun⟩ }
  exact ⟨hs, ofDump_toTree hs⟩

end Schema

end TableGraph
