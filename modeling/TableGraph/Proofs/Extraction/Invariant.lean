import TableGraph.Proofs.Extraction.Description
import TableGraph.Proofs.Schema.WellFormed

namespace TableGraph.Definition

theorem wellFormed_of_bareColumn {context : Context} {type : String} {args : Arguments}
    {c : Column} (h : bareColumn context type args = .ok c) : c.WellFormed := by
  rw [bareColumn] at h
  split at h
  · simp only [bind_eq_ok, pure_eq_ok] at h
    obtain ⟨_, _, keys, _, h⟩ := h
    cases h
    exact Column.wellFormed_index keys
  · next ht =>
    simp only [bind_eq_ok, pure_eq_ok] at h
    obtain ⟨_, _, name, _, h⟩ := h
    cases h
    exact Column.wellFormed_regular ht name

theorem wellFormed_of_readColumn {context : Context} {statement : Tree} {c : Column}
    (h : readColumn context statement = .ok c) : c.WellFormed := by
  simp only [readColumn, bind_eq_ok, pure_eq_ok] at h
  obtain ⟨_, _, _, _, _, _, bare, hb, options, _, h⟩ := h
  cases h
  exact (wellFormed_of_bareColumn hb).setOptions options

theorem wellFormed_of_mem_readColumns {context : Context} {statements : List Tree} {c : Column}
    (hc : c ∈ (readColumns context statements).1) : c.WellFormed := by
  fun_induction readColumns context statements with
  | case1 => cases hc
  | case2 s rest _ ih => exact ih hc
  | case3 => cases hc
  | case4 s rest _ column hs columns fault hr ih =>
    rw [hr] at ih
    cases hc with
    | head => exact wellFormed_of_readColumn hs
    | tail _ hc => exact ih hc

end TableGraph.Definition

namespace TableGraph.Extraction

open Definition

theorem create_of_ofStatement {statement : Tree} {t : Table}
    (h : (Reading.ofStatement statement).outcome = .ok (.create t)) :
    readHeader statement = .ok t ∨
    ∃ call header statements columns, readHeader call = .ok header ∧
      blockStatements (.columnOf header.name) statement = .ok statements ∧
      readColumns (.columnOf header.name) statements = (columns, none) ∧
      t = { header with columns := columns } := by
  rw [Reading.ofStatement] at h
  split at h
  · rw [Reading.ofCommand] at h
    split at h
    · cases h
    split at h
    · obtain ⟨_, _, h⟩ := map_eq_ok.mp h
      cases h
    split at h
    · obtain ⟨_, hr, h⟩ := map_eq_ok.mp h
      cases h
      exact .inl hr
    · cases h
  · rw [Reading.ofBlock] at h
    split at h
    · cases h
    split at h
    · cases h
    split at h
    · obtain ⟨header, body, columns, hh, hb, hr, ⟨⟩⟩ := ofTable_eq_ok.mp h
      exact .inr ⟨_, header, body, columns, hh, hb, hr, rfl⟩
    · cases h
  · cases h
  · cases h

def Directive.Sound (d : Directive) : Prop :=
  ∀ t, d = .create t → t.references = none ∧ ∀ c ∈ t.columns, c.WellFormed

theorem sound_of_mem_outcomes {statements : List Tree} {d : Directive}
    (h : .ok d ∈ outcomes statements) : d.Sound := by
  intro t ht
  have hb : d.Bare := bare_of_mem_outcomes h
  obtain ⟨statement, _, hs⟩ := List.mem_map.mp h
  refine ⟨hb t ht, fun c hc => ?_⟩
  rw [ht] at hs
  obtain hh | ⟨call, header, body, columns, _, _, hr, rfl⟩ := create_of_ofStatement hs
  · rw [eq_of_readHeader hh] at hc
    cases hc
  · have hm : c ∈ (readColumns (.columnOf header.name) body).1 := by
      rw [hr]
      exact hc
    exact wellFormed_of_mem_readColumns hm

theorem Directive.Sound.apply {d : Directive} (hd : d.Sound) {s s' : Schema} (hs : s.WellFormed)
    (h : d.apply s = .ok s') : s'.WellFormed := by
  cases d with
  | create t =>
    obtain ⟨hr, hc⟩ := hd t rfl
    cases h
    exact hs.insert (by simp [hr]) hc
  | reference source target =>
    rw [Directive.apply] at h
    split at h
    · cases h
      exact hs.addReference source target
    · cases h
  | other =>
    cases h
    exact hs

theorem foldlM_carryOut_of_step {P : Schema → Prop} {os : List Outcome}
    (hstep : ∀ d, .ok d ∈ os → ∀ s s', P s → d.apply s = .ok s' → P s') {s s' : Schema} (hs : P s)
    (h : os.foldlM Outcome.carryOut s = .ok s') : P s' := by
  induction os generalizing s with
  | nil =>
    cases h
    exact hs
  | cons o os ih =>
    rw [List.foldlM_cons, bind_eq_ok] at h
    obtain ⟨next, ho, h⟩ := h
    cases o with
    | error m => cases ho
    | ok d =>
      have hn : P next := hstep d List.mem_cons_self s next hs ho
      exact ih (fun d hd => hstep d (List.mem_cons_of_mem _ hd)) hn h

end TableGraph.Extraction

namespace TableGraph.Schema

open Extraction

theorem wellFormed_empty : ({} : Schema).WellFormed where
  names := List.nodup_nil
  references := nofun
  columns := nofun

/-- Whatever tree it is extracted from, a schema is well-formed: an index has no name and a regular
column no keys, and every table has a line in the diagram. -/
theorem wellFormed_of_ofTree {root : Tree} {s : Schema} (h : Schema.ofTree root = .ok s) :
    s.WellFormed ∧
    (∀ t ∈ s.tables, ∀ c ∈ t.columns,
      c.type = "index" ∧ c.name? = none ∨ c.type ≠ "index" ∧ c.keys? = none) ∧
    ∀ t ∈ s.tables, Diagram.tableLines t ≠ [] := by
  obtain ⟨statements, _, h⟩ := ofTree_eq_ok h
  have hs : s.WellFormed := by
    refine foldlM_carryOut_of_step ?_ wellFormed_empty h
    intro d hd s s' hs ha
    exact (sound_of_mem_outcomes hd).apply hs ha
  refine ⟨hs, ?_, fun t ht => Diagram.tableLines_ne_nil (hs.references t ht)⟩
  intro t ht c hc
  exact (hs.columns t ht c hc).name_or_keys

theorem wellFormed_of_ofTree_repeated :
    let settings := [("null", OptionValue.ident "true"), ("null", .ident "false")]
    let t : Table :=
      { name := "a", columns := [⟨"string", .regular "b", settings⟩, .index ["b"]] }
    let root : Tree := Source.program [Source.createTable { name := "a" },
      Source.foreignKey "a" "b", Source.createTable t, Source.foreignKey "a" "c"]
    let column : Column := ⟨"string", .regular "b", [("null", .ident "false")]⟩
    let s : Schema :=
      ⟨[{ name := "a", columns := [column, .index ["b"]], references := some ["c"] }]⟩
    Schema.ofTree root = .ok s ∧ s.WellFormed := by
  intro settings t root column s
  have h : Schema.ofTree root = .ok s := by rfl
  exact ⟨h, (wellFormed_of_ofTree h).1⟩

end TableGraph.Schema
