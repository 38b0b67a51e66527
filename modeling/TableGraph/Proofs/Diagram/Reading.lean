import Mathlib.Data.List.Nodup
import TableGraph.Proofs.Diagram.Lines
import TableGraph.Proofs.Schema.Tables

namespace TableGraph

namespace Diagram

inductive Line
  | table (name : String)
  | edge (source target : String)

def cuts : List Char → List (List Char × List Char)
  | [] => []
  | c :: cs =>
    let later := (cuts cs).map fun p => (c :: p.1, p.2)
    match arrow.toList.isPrefixOf? (c :: cs) with
    | some target => ([], target) :: later
    | none => later

namespace Line

/-- Reads a line behind its indent. With the head of an arrow in it, it has to have one arrow. -/
def ofText? (text : List Char) : Option Line :=
  if ['-', '-', '>'] <:+: text then
    match cuts text with
    | [(source, target)] => some (.edge (.ofList source) (.ofList target))
    | _ => none
  else some (.table (.ofList text))

def read? (line : String) : Option Line :=
  (indent.toList.isPrefixOf? line.toList).bind ofText?

def text : Line → String
  | .table name => indent ++ name
  | .edge source target => indent ++ source ++ arrow ++ target

def Legible : Line → Prop
  | .table name => Diagram.Legible name
  | .edge source target => Diagram.Legible source ∧ Diagram.Legible target

end Line

def readHeader? (line : String) : Option Direction :=
  Direction.all.find? fun d => "graph " ++ d.code = line

def group : List Line → List (String × Option (List String))
  | [] => []
  | .table name :: rest => (name, none) :: group rest
  | .edge source target :: rest =>
    match group rest with
    | (name, some targets) :: tables =>
      if name = source then (source, some (target :: targets)) :: tables
      else (source, some [target]) :: (name, some targets) :: tables
    | tables => (source, some [target]) :: tables

def read? (text : String) : Option (Direction × List (String × Option (List String))) :=
  match lines text with
  | [] => none
  | header :: rest => do return (← readHeader? header, group (← rest.mapM Line.read?))

theorem cuts_eq_nil {text : List Char} (h : ¬['-', '-', '>'] <:+: text) : cuts text = [] := by
  induction text with
  | nil => rfl
  | cons c cs ih =>
    have hp : arrow.toList.isPrefixOf? (c :: cs) = none := by
      rw [Option.eq_none_iff_forall_ne_some]
      intro target ht
      rw [List.isPrefixOf?_eq_some_iff_append_eq] at ht
      refine h ⟨[' '], ' ' :: target, ?_⟩
      rw [← ht]
      simp [arrow]
    have hc : ¬['-', '-', '>'] <:+: cs := fun hc => h (List.infix_cons hc)
    simp [cuts, hp, ih hc]

theorem toList_arrow : arrow.toList = [' ', '-', '-', '>', ' '] := by decide

theorem cuts_cons {c : Char} (hc : c ≠ ' ') (cs : List Char) :
    cuts (c :: cs) = (cuts cs).map fun p => (c :: p.1, p.2) := by
  simp [cuts, toList_arrow, List.isPrefixOf?, hc.symm]

theorem isPrefixOf?_arrow_eq_none {c : Char} {source : List Char}
    (h : ¬['-', '-', '>'] <:+: c :: source) (rest : List Char) :
    arrow.toList.isPrefixOf? (c :: source ++ (arrow.toList ++ rest)) = none := by
  rw [Option.eq_none_iff_forall_ne_some]
  intro target ht
  rw [List.isPrefixOf?_eq_some_iff_append_eq, toList_arrow] at ht
  -- The arrow at its place begins with a blank, so the head of one before it would be in the text.
  obtain _ | ⟨a, _ | ⟨b, _ | ⟨d, source⟩⟩⟩ := source
  · simp at ht
  · simp at ht
  · simp at ht
  · simp only [List.cons_append, List.nil_append, List.cons.injEq] at ht
    obtain ⟨rfl, rfl, rfl, rfl, -⟩ := ht
    exact h ⟨[' '], source, rfl⟩

theorem cuts_arrow {source target : List Char} (hs : ¬['-', '-', '>'] <:+: source)
    (ht : ¬['-', '-', '>'] <:+: target) :
    cuts (source ++ (arrow.toList ++ target)) = [(source, target)] := by
  induction source with
  | nil =>
    have hb : ¬['-', '-', '>'] <:+: ' ' :: target := by
      rw [List.infix_cons_iff]
      simp [ht]
    have hh : cuts ('-' :: '-' :: '>' :: ' ' :: target) = [] := by
      simp [cuts_cons, cuts_eq_nil hb]
    rw [List.nil_append, toList_arrow, List.cons_append, cuts]
    simp [hh, toList_arrow, List.isPrefixOf?]
  | cons c source ih =>
    have hc : ¬['-', '-', '>'] <:+: source := fun hc => hs (List.infix_cons hc)
    rw [List.cons_append, cuts, ← List.cons_append, isPrefixOf?_arrow_eq_none hs, ih hc]
    rfl

namespace Line

theorem ofText?_edge {source target : String} (hs : Diagram.Legible source)
    (ht : Diagram.Legible target) :
    ofText? (source.toList ++ (arrow.toList ++ target.toList)) = some (.edge source target) := by
  have hi : ['-', '-', '>'] <:+: source.toList ++ (arrow.toList ++ target.toList) :=
    ⟨source.toList ++ [' '], ' ' :: target.toList, by simp [toList_arrow]⟩
  rw [ofText?, if_pos hi, cuts_arrow hs.arrow ht.arrow]
  simp

theorem read?_text {l : Line} (h : l.Legible) : read? l.text = some l := by
  have hp : ∀ rest, indent.toList.isPrefixOf? (indent.toList ++ rest) = some rest := fun rest =>
    List.isPrefixOf?_eq_some_iff_append_eq.mpr rfl
  cases l with
  | table name =>
    rw [read?, text, String.toList_append, hp, Option.bind_some, ofText?, if_neg h.arrow]
    simp
  | edge source target =>
    simp only [read?, text, String.toList_append, List.append_assoc, hp, Option.bind_some]
    exact ofText?_edge h.1 h.2

theorem mapM_read? {ls : List Line} (h : ∀ l ∈ ls, l.Legible) :
    (ls.map text).mapM read? = some ls := by
  induction ls with
  | nil => rfl
  | cons l ls ih =>
    rw [List.forall_mem_cons] at h
    simp [read?_text h.1, ih h.2]

end Line

theorem readHeader?_header (d : Direction) : readHeader? ("graph " ++ d.code) = some d := by
  cases d <;> rfl

end Diagram

def Table.lines (t : Table) : List Diagram.Line :=
  match t.references with
  | none => [.table t.name]
  | some targets => targets.map (.edge t.name)

namespace Diagram

theorem tableLines_eq (t : Table) : tableLines t = t.lines.map Line.text := by
  rw [tableLines, Table.lines]
  cases t.references with
  | none => rfl
  | some targets =>
    rw [List.map_map]
    rfl

theorem legible_lines {t : Table} (h : t.Legible) : ∀ l ∈ t.lines, l.Legible := by
  have htargets := h.targets
  rw [Table.targets] at htargets
  rw [Table.lines]
  split
  · exact List.forall_mem_singleton.mpr h.name
  · next targets ht =>
    rw [ht] at htargets
    rw [List.forall_mem_map]
    exact fun target hm => ⟨h.name, htargets target hm⟩

theorem group_edges {source : String} {targets : List String} (ht : targets ≠ [])
    {rest : List Line} (h : ∀ t ∈ group rest, t.1 ≠ source) :
    group (targets.map (.edge source) ++ rest) = (source, some targets) :: group rest := by
  induction targets with
  | nil => exact absurd rfl ht
  | cons target targets ih =>
    rw [List.map_cons, List.cons_append, group]
    cases targets with
    | nil =>
      rw [List.map_nil, List.nil_append]
      split
      · next name targets tables hg =>
        rw [if_neg (h (name, some targets) (hg ▸ List.mem_cons_self)), hg]
      · rfl
    | cons u us =>
      rw [ih (List.cons_ne_nil u us)]
      simp only [↓reduceIte]

theorem group_lines {ts : List Table} (hn : (ts.map Table.name).Nodup)
    (hr : ∀ t ∈ ts, t.references ≠ some []) :
    group (ts.flatMap Table.lines) = ts.map fun t => (t.name, t.references) := by
  induction ts with
  | nil => rfl
  | cons t ts ih =>
    rw [List.map_cons, List.nodup_cons] at hn
    rw [List.forall_mem_cons] at hr
    rw [List.flatMap_cons, List.map_cons, ← ih hn.2 hr.2, Table.lines]
    cases ht : t.references with
    | none => rfl
    | some targets =>
      -- No later table has this name, so the edges behind do not run on from these.
      have hg : ∀ u ∈ group (ts.flatMap Table.lines), u.1 ≠ t.name := by
        rw [ih hn.2 hr.2, List.forall_mem_map]
        intro u hu he
        exact hn.1 (he ▸ List.mem_map_of_mem hu)
      have htargets : targets ≠ [] := by
        rintro rfl
        exact hr.1 ht
      exact group_edges htargets hg

/-- A diagram is read back as the graph that it was drawn from. -/
theorem read?_diagram {s : Schema} (hn : s.names.Nodup)
    (hr : ∀ t ∈ s.tables, t.references ≠ some []) (h : ∀ t ∈ s.tables, t.Legible)
    (d : Direction) :
    read? (s.diagram d) = some (d, s.tables.map fun t => (t.name, t.references)) := by
  have hl : s.tables.flatMap tableLines = (s.tables.flatMap Table.lines).map Line.text := by
    rw [List.map_flatMap]
    congr 1
    funext t
    exact tableLines_eq t
  have hm : ∀ l ∈ s.tables.flatMap Table.lines, l.Legible := by
    intro l hl
    obtain ⟨t, ht, hl⟩ := List.mem_flatMap.mp hl
    exact legible_lines (h t ht) l hl
  rw [read?, lines_diagram h, Schema.diagramLines, hl]
  simp [readHeader?_header, Line.mapM_read? hm, group_lines hn hr]

theorem read?_diagram_blanks :
    let s : Schema := ⟨[{ name := " a -- b", references := some ["", "c", "c"] }, { name := "" },
      { name := "c", references := some ["->", " a -- b"] }]⟩
    s.names.Nodup ∧ (∀ t ∈ s.tables, t.references ≠ some []) ∧ (∀ t ∈ s.tables, t.Legible) ∧
      read? (s.diagram .leftRight) = some (.leftRight, [(" a -- b", some ["", "c", "c"]),
        ("", none), ("c", some ["->", " a -- b"])]) := by
  intro s
  have hn : s.names.Nodup := by decide
  have hr : ∀ t ∈ s.tables, t.references ≠ some [] := by simp [s]
  have h : ∀ t ∈ s.tables, t.Legible := by
    simp only [s, List.forall_mem_cons]
    exact ⟨⟨by decide, by decide⟩, ⟨by decide, by decide⟩, ⟨by decide, by decide⟩, nofun⟩
  exact ⟨hn, hr, h, read?_diagram hn hr h .leftRight⟩

end Diagram

end TableGraph
