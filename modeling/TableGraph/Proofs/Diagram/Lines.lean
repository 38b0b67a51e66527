import Mathlib.Data.List.Infix
import TableGraph.Diagram

namespace TableGraph

namespace Diagram

def lines (text : String) : List String := (text.toList.splitOn '\n').map .ofList

/-- What names have to be for the lines of a diagram to be told apart: on one line, and without the
head of an arrow. -/
structure Legible (text : String) : Prop where
  newline : '\n' ∉ text.toList
  arrow : ¬['-', '-', '>'] <:+: text.toList

instance (text : String) : Decidable (Legible text) :=
  decidable_of_iff ('\n' ∉ text.toList ∧ ¬['-', '-', '>'] <:+: text.toList)
    ⟨fun h => ⟨h.1, h.2⟩, fun h => ⟨h.newline, h.arrow⟩⟩

end Diagram

def Table.targets (t : Table) : List String := t.references.getD []

structure Table.Legible (t : Table) : Prop where
  name : Diagram.Legible t.name
  targets : ∀ target ∈ t.targets, Diagram.Legible target

namespace Diagram

theorem newline_not_mem_tableLines {t : Table} (h : t.Legible) :
    ∀ l ∈ tableLines t, '\n' ∉ l.toList := by
  have hname : '\n' ∉ (indent ++ t.name).toList := by
    simp [indent, h.name.newline]
  have htargets := h.targets
  rw [Table.targets] at htargets
  rw [tableLines]
  split
  · exact List.forall_mem_singleton.mpr hname
  · next targets ht =>
    rw [ht] at htargets
    rw [List.forall_mem_map]
    intro target hm
    have htarget : '\n' ∉ target.toList := (htargets target hm).newline
    simp [indent, arrow, h.name.newline, htarget]

theorem newline_not_mem_header (d : Direction) : '\n' ∉ ("graph " ++ d.code).toList := by
  cases d <;> decide

theorem lines_diagram {s : Schema} (h : ∀ t ∈ s.tables, t.Legible) (d : Direction) :
    lines (s.diagram d) = s.diagramLines d := by
  have hn : ∀ l ∈ s.diagramLines d, '\n' ∉ l.toList := by
    rw [Schema.diagramLines, List.forall_mem_cons]
    refine ⟨newline_not_mem_header d, ?_⟩
    intro l hl
    obtain ⟨t, ht, hl⟩ := List.mem_flatMap.mp hl
    exact newline_not_mem_tableLines (h t ht) l hl
  have hs : "\n".toList = ['\n'] := by decide
  rw [lines, Schema.diagram, String.toList_intercalate, hs, List.splitOn_intercalate]
  · simp
  · simpa using hn
  · simp [Schema.diagramLines]

theorem edge_mem_tableLines {t : Table} {target : String} (h : target ∈ t.targets) :
    indent ++ t.name ++ arrow ++ target ∈ tableLines t := by
  rw [Table.targets] at h
  rw [tableLines]
  split
  · next hr =>
    rw [hr] at h
    cases h
  · next targets hr =>
    rw [hr] at h
    exact List.mem_map_of_mem h

theorem standalone_mem_tableLines {name : String} (h : Legible name) (t : Table) :
    indent ++ name ∈ tableLines t ↔ t.name = name ∧ t.references = none := by
  rw [tableLines]
  split
  · next hr => simp [hr, eq_comm]
  · next targets hr =>
    rw [List.mem_map]
    constructor
    · intro ⟨target, _, he⟩
      have hl := congrArg String.toList he
      simp only [String.toList_append, List.append_assoc, List.append_cancel_left_eq] at hl
      refine absurd ⟨t.name.toList ++ [' '], ' ' :: target.toList, ?_⟩ h.arrow
      rw [← hl]
      simp [arrow]
    · intro hn
      rw [hr] at hn
      cases hn.2

theorem standalone_mem_diagramLines {name : String} (h : Legible name) (s : Schema)
    (d : Direction) :
    indent ++ name ∈ s.diagramLines d ↔ ∃ t ∈ s.tables, t.name = name ∧ t.references = none := by
  have hh : indent ++ name ≠ "graph " ++ d.code := by
    intro he
    have hl := congrArg (fun text => text.toList.head?) he
    simp [indent] at hl
  simp only [Schema.diagramLines, List.mem_cons, hh, false_or, List.mem_flatMap,
    standalone_mem_tableLines h]

theorem edge_mem_diagramLines {s : Schema} {t : Table} (ht : t ∈ s.tables) {target : String}
    (h : target ∈ t.targets) (d : Direction) :
    indent ++ t.name ++ arrow ++ target ∈ s.diagramLines d :=
  List.mem_cons_of_mem _ (List.mem_flatMap.mpr ⟨t, ht, edge_mem_tableLines h⟩)

end Diagram

end TableGraph
