import TableGraph.Diagram
import TableGraph.Proofs.Schema.Tables

namespace TableGraph

structure Column.WellFormed (c : Column) : Prop where
  type : c.type = "index" ↔ ∃ keys, c.kind = .index keys
  options : (c.options.map Prod.fst).Nodup

namespace Schema

structure WellFormed (s : Schema) : Prop where
  names : s.names.Nodup
  references : ∀ t ∈ s.tables, t.references ≠ some []
  columns : ∀ t ∈ s.tables, ∀ c ∈ t.columns, c.WellFormed

end Schema

namespace Column

theorem map_fst_setIn (key : String) (value : OptionValue) (options : List (String × OptionValue)) :
    (setIn key value options).map Prod.fst =
      if key ∈ options.map Prod.fst then options.map Prod.fst
      else options.map Prod.fst ++ [key] := by
  induction options with
  | nil => rfl
  | cons o os ih =>
    rw [setIn]
    by_cases ho : o.1 = key
    · simp [ho]
    · simp only [ho, ↓reduceIte, List.map_cons, ih, List.mem_cons, Ne.symm ho, false_or]
      split <;> rfl

theorem WellFormed.setOption {c : Column} (h : c.WellFormed) (key : String) (value : OptionValue) :
    (c.setOption key value).WellFormed where
  type := h.type
  options := by
    rw [Column.setOption, map_fst_setIn]
    exact nodup_ite_concat h.options key

theorem WellFormed.setOptions {c : Column} (h : c.WellFormed)
    (options : List (String × OptionValue)) : (c.setOptions options).WellFormed := by
  induction options generalizing c with
  | nil => exact h
  | cons o os ih => exact ih (h.setOption o.1 o.2)

theorem wellFormed_index (keys : List String) : (index keys).WellFormed where
  type := ⟨fun _ => ⟨keys, rfl⟩, fun _ => rfl⟩
  options := List.nodup_nil

theorem wellFormed_regular {type : String} (h : type ≠ "index") (name : String) :
    (regular type name).WellFormed where
  type := ⟨fun ht => absurd ht h, nofun⟩
  options := List.nodup_nil

theorem WellFormed.name_or_keys {c : Column} (h : c.WellFormed) :
    c.type = "index" ∧ c.name? = none ∨ c.type ≠ "index" ∧ c.keys? = none := by
  obtain ⟨type, kind, options⟩ := c
  cases kind with
  | regular name =>
    refine .inr ⟨fun ht => ?_, rfl⟩
    obtain ⟨_, hk⟩ := h.type.mp ht
    cases hk
  | index keys => exact .inl ⟨h.type.mpr ⟨keys, rfl⟩, rfl⟩

end Column

namespace Schema

theorem WellFormed.insert {s : Schema} (h : s.WellFormed) {t : Table}
    (hr : t.references ≠ some []) (hc : ∀ c ∈ t.columns, c.WellFormed) :
    (s.insert t).WellFormed where
  names := by
    rw [names_insert]
    exact nodup_ite_concat h.names t.name
  references u hu := by
    obtain rfl | ⟨hu, _⟩ := (mem_insert h.names t u).mp hu
    · exact hr
    · exact h.references u hu
  columns u hu := by
    obtain rfl | ⟨hu, _⟩ := (mem_insert h.names t u).mp hu
    · exact hc
    · exact h.columns u hu

theorem WellFormed.addReference {s : Schema} (h : s.WellFormed) (source target : String) :
    (s.update source (·.addReference target)).WellFormed where
  names := by
    rw [names_addReference]
    exact h.names
  references u hu := by
    obtain ⟨t, _, _, rfl⟩ | ⟨hu, _⟩ := (mem_update h.names source _ u).mp hu
    · simp [Table.addReference]
    · exact h.references u hu
  columns u hu := by
    obtain ⟨t, ht, _, rfl⟩ | ⟨hu, _⟩ := (mem_update h.names source _ u).mp hu
    · exact h.columns t ht
    · exact h.columns u hu

end Schema

theorem Diagram.tableLines_ne_nil {t : Table} (h : t.references ≠ some []) :
    tableLines t ≠ [] := by
  rw [tableLines]
  split
  · exact List.cons_ne_nil _ _
  · next targets ht =>
    intro hn
    rw [List.map_eq_nil_iff.mp hn] at ht
    exact h ht

end TableGraph
