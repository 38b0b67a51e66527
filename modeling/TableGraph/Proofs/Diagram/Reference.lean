import TableGraph.Pipeline
import TableGraph.Proofs.Diagram.Lines
import TableGraph.Proofs.Dump.RoundTrip
import TableGraph.Proofs.Extraction.Complete

namespace TableGraph

namespace Extraction

theorem getD_referencesTo (targets : List String) :
    (referencesTo targets).getD [] = targets := by
  cases targets <;> rfl

theorem target?_eq_some {d : Directive} {source target : String}
    (h : d.target? source = some target) : d = .reference source target := by
  cases d with
  | reference s t =>
    rw [Directive.target?] at h
    split at h
    · next hs => rw [hs, Option.some.inj h]
    · cases h
  | _ => cases h

theorem Stands.mem_targets {ds : List Directive} {t : Table} (h : Stands ds t) (target : String) :
    target ∈ t.targets ↔ ∃ before after, ds = before ++ .reference t.name target :: after ∧
      ∀ d ∈ after, d.created? ≠ some t.name := by
  obtain ⟨earlier, u, later, rfl, hu, hl, -, -, hr⟩ := h
  rw [Table.targets, hr, getD_referencesTo, List.mem_filterMap]
  constructor
  · rintro ⟨d, hd, ht⟩
    rw [target?_eq_some ht] at hd
    obtain ⟨before, after, rfl⟩ := List.append_of_mem hd
    refine ⟨earlier ++ .create u :: before, after, by simp, ?_⟩
    intro d hd
    exact hl d (List.mem_append_right _ (List.mem_cons_of_mem _ hd))
  · rintro ⟨before, after, hds, ha⟩
    refine ⟨.reference t.name target, ?_, if_pos rfl⟩
    obtain ⟨ds, -, hds⟩ | ⟨ds, -, hds⟩ := List.append_eq_append_iff.mp hds
    · cases ds with
      | nil => cases hds
      | cons d ds =>
        cases hds
        simp
    · cases ds with
      | nil => cases hds
      | cons d ds =>
        -- The creation would come behind the foreign key.
        cases hds
        exact absurd (congrArg some hu) (ha (.create u) (by simp))

theorem FaultFree.created {before after : List Outcome} {source target : String}
    (h : FaultFree (before ++ .ok (.reference source target) :: after)) :
    ∃ t, .ok (.create t) ∈ before ∧ t.name = source := by
  by_contra hn
  refine h before.length (.unknownTable source target) ⟨.ok (.reference source target), by simp, ?_⟩
  rw [List.take_left]
  exact .unknownTable fun t ht hs => hn ⟨t, ht, hs⟩

def Directive.Legible : Directive → Prop
  | .create t => Diagram.Legible t.name
  | .reference _ target => Diagram.Legible target
  | .other => True

theorem Stands.legible {ds : List Directive} {t : Table} (h : Stands ds t)
    (hds : ∀ d ∈ ds, d.Legible) : t.Legible where
  name := by
    obtain ⟨earlier, u, later, rfl, hu, -⟩ := h
    rw [← hu]
    exact hds (.create u) (by simp)
  targets target ht := by
    obtain ⟨before, after, rfl, -⟩ := (h.mem_targets target).mp ht
    exact hds (.reference t.name target) (by simp)

end Extraction

namespace Diagram

open Definition Extraction

theorem ofDump_eq_ok {dump text : String} {d : Direction} :
    ofDump dump d = .ok text ↔
      ∃ root s, Tree.parse dump = .ok root ∧ Schema.ofTree root = .ok s ∧ s.diagram d = text := by
  rw [ofDump, Schema.ofDump, Run.ofDump, map_eq_ok]
  cases Tree.parse dump with
  | error e => simp
  | ok root =>
    change (∃ s, (Schema.ofTree root).mapError Failure.schema = .ok s ∧ _) ↔ _
    cases hs : Schema.ofTree root with
    | error e => simp [Except.mapError, hs]
    | ok s => simp [Except.mapError, hs]

theorem reference_mem_lines {dump text : String} {d : Direction} {root : Tree}
    {statements : List Tree} (hroot : Tree.parse dump = .ok root)
    (hbody : schemaStatements root = .ok statements)
    (htext : ofDump dump d = .ok text) (hlegible : ∀ c, .ok c ∈ outcomes statements → c.Legible)
    {before after : List Outcome} {source target : String}
    (hreference : outcomes statements = before ++ .ok (.reference source target) :: after)
    (hlast : ∀ t, .ok (.create t) ∈ after → t.name ≠ source) :
    indent ++ source ++ arrow ++ target ∈ lines text ∧ indent ++ source ∉ lines text := by
  obtain ⟨root', s, hroot', hs, rfl⟩ := ofDump_eq_ok.mp htext
  cases hroot.symm.trans hroot'
  obtain ⟨hd, hf⟩ := Schema.describes_of_ofTree hbody hs
  have htables : ∀ t ∈ s.tables, t.Legible := fun t ht =>
    (hd.tables t ht).legible fun c hc => hlegible c (mem_directives.mp hc)
  rw [lines_diagram htables]
  rw [hreference] at hd hf
  obtain ⟨u, hu, hn⟩ := hf.created
  have hnames : source ∈ s.names :=
    (hd.mem_names source).mpr ⟨u, mem_directives.mpr (List.mem_append_left _ hu), hn⟩
  obtain ⟨t, ht, rfl⟩ := List.mem_map.mp hnames
  have htarget : target ∈ t.targets := by
    refine ((hd.tables t ht).mem_targets target).mpr ⟨directives before, directives after, ?_, ?_⟩
    · rw [directives, List.filterMap_append]
      rfl
    · intro c hc hn
      cases c with
      | create v => exact hlast v (mem_directives.mp hc) (Option.some.inj hn)
      | _ => cases hn
  refine ⟨edge_mem_diagramLines ht htarget d, ?_⟩
  rw [standalone_mem_diagramLines (htables t ht).name]
  rintro ⟨v, hv, hvn, hr⟩
  obtain rfl : v = t := List.inj_on_of_nodup_map hd.nodup hv ht hvn
  rw [Table.targets, hr] at htarget
  cases htarget

theorem legible_iff {statement : Tree} {c : Directive}
    (h : (Reading.ofStatement statement).outcome = .ok c) : c.Legible ↔
      (∀ name, CreatesTable statement name → Legible name) ∧
      (Refers statement → ∀ source target, ForeignKey statement source target →
        Legible target) := by
  constructor
  · intro hl
    constructor
    · intro name hc
      have hn := created?_of_createsTable hc h
      cases c with
      | create t =>
        cases hn
        exact hl
      | _ => cases hn
    · intro hr source target hk
      rw [ofStatement_refers hr, readForeignKey_eq_ok.mpr hk] at h
      cases h
      exact hl
  · rintro ⟨hnames, htargets⟩
    have hs := says_ofStatement statement
    rw [h] at hs
    cases hs with
    | create => exact hnames _ (createsTable_of_create h).1
    | reference hr hk => exact htargets hr _ _ hk
    | other => trivial

theorem legible_of_outcomes {statements : List Tree}
    (h : ∀ o ∈ outcomes statements, ∃ c, o = .ok c ∧ c.Legible) :
    (∀ s ∈ statements, ∀ name, CreatesTable s name → Legible name) ∧
    ∀ s ∈ statements, Refers s → ∀ source target, ForeignKey s source target → Legible target := by
  rw [← forall₂_and]
  intro s hs
  obtain ⟨c, hc, hl⟩ := h _ (List.mem_map_of_mem hs)
  exact (legible_iff hc).mp hl

/-- A foreign key is an edge of the diagram, and its source no table on its own, unless the source
is created once more behind it. -/
theorem ofDump_reference {dump text : String} {d : Direction} {root statement : Tree}
    {before after : List Tree} {source target : String} (hroot : Tree.parse dump = .ok root)
    (hbody : schemaStatements root = .ok (before ++ statement :: after))
    (htext : ofDump dump d = .ok text)
    (hnames : ∀ s ∈ before ++ statement :: after, ∀ name, CreatesTable s name → Legible name)
    (htargets : ∀ s ∈ before ++ statement :: after, Refers s →
      ∀ source target, ForeignKey s source target → Legible target)
    (hrefers : Refers statement) (hkey : ForeignKey statement source target)
    (hlast : ∀ later ∈ after, ¬CreatesTable later source) :
    indent ++ source ++ arrow ++ target ∈ lines text ∧ indent ++ source ∉ lines text := by
  have ho : (Reading.ofStatement statement).outcome = .ok (.reference source target) := by
    rw [ofStatement_refers hrefers, readForeignKey_eq_ok.mpr hkey]
    rfl
  have hos : outcomes (before ++ statement :: after) =
      outcomes before ++ .ok (.reference source target) :: outcomes after := by
    rw [← ho]
    exact List.map_append
  refine reference_mem_lines hroot hbody htext (fun c hc => ?_) hos fun t ht hn => ?_
  · obtain ⟨s, hs, hc⟩ := List.mem_map.mp hc
    exact (legible_iff hc).mpr ⟨hnames s hs, htargets s hs⟩
  · obtain ⟨later, hl, ht⟩ := List.mem_map.mp ht
    exact hlast later hl (hn ▸ (createsTable_of_create ht).1)

theorem ofDump_reference_kept :
    let before := [Source.createTable { name := "a" }, Source.foreignKey "a" "c",
      Source.createTable { name := "b" }, Source.createTable { name := "a" }]
    let statements := before ++ Source.foreignKey "a" "b" :: [Source.createTable { name := "b" }]
    let dump := (Source.program statements).toText
    let text := "graph TD\n    a --> b\n    b"
    ofDump dump .topDown = .ok text ∧
      indent ++ "a" ++ arrow ++ "b" ∈ lines text ∧ indent ++ "a" ∉ lines text := by
  intro before statements dump text
  have hreadable : ∀ t ∈ statements, ¬t.IsSymbol ∧ t.Readable := by
    simp [statements, before, Source.readable_createTable, Source.readable_foreignKey]
  have hparse : Tree.parse dump = .ok (Source.program statements) :=
    Tree.parse_toText (Source.readable_program hreadable)
  have htext : ofDump dump .topDown = .ok text := ofDump_eq_ok.mpr ⟨_, _, hparse, rfl, by decide⟩
  have ho : outcomes statements = [.ok (.create { name := "a" }), .ok (.reference "a" "c"),
    .ok (.create { name := "b" }), .ok (.create { name := "a" }), .ok (.reference "a" "b"),
    .ok (.create { name := "b" })] := rfl
  have hlegible : ∀ o ∈ outcomes statements, ∃ c, o = .ok c ∧ c.Legible := by
    simp +decide [ho, Directive.Legible]
  obtain ⟨hnames, htargets⟩ := legible_of_outcomes hlegible
  have hkey : ForeignKey (Source.foreignKey "a" "b") "a" "b" := readForeignKey_eq_ok.mp rfl
  have hlast : ∀ later ∈ [Source.createTable { name := "b" }], ¬CreatesTable later "a" := by
    simp only [List.mem_singleton, forall_eq]
    exact fun h => absurd (created?_of_createsTable h rfl) (by decide)
  exact ⟨htext, ofDump_reference hparse rfl htext hnames htargets rfl hkey hlast⟩

/-- The second creation of a table takes back what it refers to: it is on its own again. -/
theorem ofDump_reference_lost :
    let statements := [Source.createTable { name := "a" }, Source.createTable { name := "b" },
      Source.foreignKey "a" "b", Source.createTable { name := "a" }]
    let dump := (Source.program statements).toText
    let text := "graph TD\n    a\n    b"
    Tree.parse dump = .ok (Source.program statements) ∧
      schemaStatements (Source.program statements) = .ok statements ∧
      outcomes statements = [.ok (.create { name := "a" }), .ok (.create { name := "b" }),
        .ok (.reference "a" "b"), .ok (.create { name := "a" })] ∧
      (∀ s ∈ statements, ∀ name, CreatesTable s name → Legible name) ∧
      (∀ s ∈ statements, Refers s → ∀ source target, ForeignKey s source target →
        Legible target) ∧
      Source.foreignKey "a" "b" ∈ statements ∧ Refers (Source.foreignKey "a" "b") ∧
      ForeignKey (Source.foreignKey "a" "b") "a" "b" ∧
      (∃ s ∈ statements, CreatesTable s "a") ∧ (∃ s ∈ statements, CreatesTable s "b") ∧
      ofDump dump .topDown = .ok text ∧
      indent ++ "a" ++ arrow ++ "b" ∉ lines text ∧ indent ++ "a" ∈ lines text := by
  intro statements dump text
  have hreadable : ∀ t ∈ statements, ¬t.IsSymbol ∧ t.Readable := by
    simp [statements, Source.readable_createTable, Source.readable_foreignKey]
  have hparse : Tree.parse dump = .ok (Source.program statements) :=
    Tree.parse_toText (Source.readable_program hreadable)
  have htext : ofDump dump .topDown = .ok text := ofDump_eq_ok.mpr ⟨_, _, hparse, rfl, by decide⟩
  have ho : outcomes statements = [.ok (.create { name := "a" }), .ok (.create { name := "b" }),
    .ok (.reference "a" "b"), .ok (.create { name := "a" })] := rfl
  have hlegible : ∀ o ∈ outcomes statements, ∃ c, o = .ok c ∧ c.Legible := by
    simp +decide [ho, Directive.Legible]
  obtain ⟨hnames, htargets⟩ := legible_of_outcomes hlegible
  have ha : (Reading.ofStatement (Source.createTable { name := "a" })).outcome =
    .ok (.create { name := "a" }) := rfl
  have hb : (Reading.ofStatement (Source.createTable { name := "b" })).outcome =
    .ok (.create { name := "b" }) := rfl
  exact ⟨hparse, rfl, ho, hnames, htargets, by simp [statements], rfl, readForeignKey_eq_ok.mp rfl,
    ⟨_, by simp [statements], (createsTable_of_create ha).1⟩,
    ⟨_, by simp [statements], (createsTable_of_create hb).1⟩, htext, by decide, by decide⟩

end Diagram

end TableGraph
