import TableGraph.Proofs.Schema.Tables

namespace TableGraph

structure Outline where
  name : String
  columns : List (String × String)
  references : Option (List String)
  deriving DecidableEq

def Table.outline (t : Table) : Outline where
  name := t.name
  columns := t.columns.map fun c => (c.type, c.name?.getD "-")
  references := t.references

def Schema.outline (s : Schema) : List Outline := s.tables.map Table.outline

namespace Outline

def register (o : Outline) (os : List Outline) : List Outline :=
  if o.name ∈ os.map name then os.map fun p => if p.name = o.name then o else p else os ++ [o]

def refer (source target : String) (os : List Outline) : List Outline :=
  os.map fun o =>
    if o.name = source then { o with references := some (o.references.getD [] ++ [target]) } else o

end Outline

namespace Schema

theorem map_name_outline (s : Schema) : s.outline.map Outline.name = s.names := by
  rw [outline, List.map_map]
  rfl

theorem tables_update {s : Schema} (h : s.names.Nodup) (name : String) (f : Table → Table) :
    (s.update name f).tables = s.tables.map fun t => if t.name = name then f t else t := by
  obtain ⟨ts⟩ := s
  simp only [update, names] at h ⊢
  induction ts with
  | nil => rfl
  | cons t ts ih =>
    rw [List.map_cons, List.nodup_cons] at h
    rw [updateIn, List.map_cons]
    split
    · next ht =>
      congr 1
      have hts : ∀ u ∈ ts, u.name ≠ name := by
        intro u hu he
        rw [ht, ← he] at h
        exact h.1 (List.mem_map_of_mem hu)
      have hi : ∀ u ∈ ts, (if u.name = name then f u else u) = id u := fun u hu => if_neg (hts u hu)
      rw [List.map_congr_left hi, List.map_id]
    · rw [ih h.2]

theorem outline_update {s : Schema} (h : s.names.Nodup) (source target : String) :
    (s.update source (·.addReference target)).outline =
      Outline.refer source target s.outline := by
  simp only [outline, tables_update h, Outline.refer, List.map_map]
  congr 1
  funext t
  exact apply_ite Table.outline _ _ _

theorem outline_insert {s : Schema} (h : s.names.Nodup) (t : Table) :
    (s.insert t).outline = t.outline.register s.outline := by
  have hm : t.outline.name ∈ s.outline.map Outline.name ↔ t.name ∈ s.names := by
    rw [map_name_outline]
    rfl
  by_cases ht : t.name ∈ s.names
  · rw [Outline.register, if_pos (hm.mpr ht), insert_of_mem ht]
    simp only [outline, tables_update h, List.map_map]
    congr 1
    funext u
    exact apply_ite Table.outline _ _ _
  · rw [Outline.register, if_neg (mt hm.mp ht), insert_of_not_mem ht, outline, List.map_append]
    rfl

end Schema

end TableGraph
