import TableGraph.Proofs.Extraction.Description
import TableGraph.Proofs.Extraction.Log

namespace TableGraph.Extraction

open Definition

inductive Reports : Reading → Prop
  | create : t.references = none →
      Reports ⟨t.columns.map (Event.ofColumn t.name), .ok (.create t)⟩
  | reference : Reports ⟨[], .ok (.reference source target)⟩
  | skip : e.Quiet → Reports (.skip e)
  | empty : Reports ⟨[], .ok .other⟩
  | malformed (table : String) (columns : List Column) :
      Reports ⟨columns.map (Event.ofColumn table), .error m⟩

theorem reports_ofCommand (command : Tree) : Reports (Reading.ofCommand command) := by
  rw [Reading.ofCommand]
  split
  · exact .skip trivial
  split
  · cases readForeignKey command with
    | error m => exact .malformed "" []
    | ok v => exact .reference
  split
  · cases ht : readHeader command with
    | error m => exact .malformed "" []
    | ok t =>
      have he := eq_of_readHeader ht
      have hr : t.references = none := references_readHeader ht
      have hc : t.columns = [] := by rw [he]
      have hp := Reports.create hr
      rw [hc] at hp
      exact hp
  · exact .skip trivial

theorem reports_ofTable (call statement : Tree) : Reports (Reading.ofTable call statement) := by
  rw [Reading.ofTable]
  split
  · exact .malformed "" []
  next t ht =>
    split
    · exact .malformed "" []
    next statements _ =>
      generalize readColumns (.columnOf t.name) statements = r
      obtain ⟨columns, fault⟩ := r
      cases fault with
      | some m => exact .malformed t.name columns
      | none =>
        have hr : t.references = none := references_readHeader ht
        exact .create (t := { t with columns }) hr

theorem reports_ofBlock (statement : Tree) : Reports (Reading.ofBlock statement) := by
  rw [Reading.ofBlock]
  split
  · exact .skip trivial
  split
  · exact .skip trivial
  split
  · exact reports_ofTable _ statement
  · exact .skip trivial

theorem reports_ofStatement (statement : Tree) : Reports (Reading.ofStatement statement) := by
  rw [Reading.ofStatement]
  split
  · exact reports_ofCommand statement
  · exact reports_ofBlock statement
  · exact .empty
  · exact .skip trivial

open Log

structure Traces (log : List Event) (s : Schema) : Prop where
  orderly : Orderly log
  replay : replay log = s.outline
  registered : ∀ name, Registered log name ↔ name ∈ s.names
  names : s.names.Nodup
  settled : Settled log

theorem traces_empty : Traces [] {} where
  orderly before e after h := by simp at h
  replay := rfl
  registered name := by simp [Registered, Schema.names]
  names := List.nodup_nil
  settled := ⟨nofun, nofun⟩

theorem registered_append {log events : List Event} (name : String) :
    Registered (log ++ events) name ↔ Registered log name ∨ Registered events name := by
  simp only [Registered, List.mem_append, exists_or]

theorem not_registered_columns (table : String) (columns : List Column) (name : String) :
    ¬Registered (columns.map (Event.ofColumn table)) name := by
  simp [Registered, Event.ofColumn]

theorem Traces.columns {log : List Event} {s : Schema} (h : Traces log s) (table : String)
    (columns : List Column) :
    Orderly (log ++ columns.map (Event.ofColumn table)) ∧
      Log.replay (log ++ columns.map (Event.ofColumn table)) = s.outline := by
  refine ⟨h.orderly.append ?_, ?_⟩
  · intro before e after he
    have hm : e ∈ columns.map (Event.ofColumn table) := by simp [he]
    obtain ⟨c, _, rfl⟩ := List.mem_map.mp hm
    trivial
  · rw [replay_append, h.replay]
    · simp [Event.ofColumn]
    · simp [Event.ofColumn]

theorem Traces.register {log before : List Event} {s : Schema} (h : Traces log s) {t : Table}
    (ht : t.references = none) (ho : Orderly (before ++ [.registered t.name t.columns.length]))
    (hrun : run before = t.columns.map fun c => (t.name, c.type, c.name?.getD "-"))
    (hreplay : Log.replay before = s.outline)
    (hregistered : ∀ name, Registered before name ↔ Registered log name) :
    Traces (before ++ [.registered t.name t.columns.length]) (s.insert t) where
  orderly := ho
  replay := by
    rw [replay_registered, hrun, hreplay, Schema.outline_insert h.names, List.map_map,
      Table.outline, ht]
    rfl
  registered name := by
    have hn : Registered [.registered t.name t.columns.length] name ↔ name = t.name := by
      simp [Registered]
    rw [registered_append, hregistered, h.registered, hn, Schema.names_insert]
    split
    · next hm => exact ⟨fun hn => hn.elim id (· ▸ hm), .inl⟩
    · rw [List.mem_append, List.mem_singleton]
  names := by
    rw [Schema.names_insert]
    exact nodup_ite_concat h.names t.name
  settled := settled_concat (by simp) (by simp) before

theorem Traces.create {log : List Event} {s : Schema} (h : Traces log s) {t : Table}
    (ht : t.references = none) :
    Traces (log ++ t.columns.map (Event.ofColumn t.name) ++ (Directive.create t).events s)
      (s.insert t) := by
  obtain ⟨ho, hreplay⟩ := h.columns t.name t.columns
  have hregistered : ∀ name, Registered (log ++ t.columns.map (Event.ofColumn t.name)) name ↔
      Registered log name := by
    intro name
    rw [registered_append, or_iff_left (not_registered_columns _ _ name)]
  have hname := (hregistered t.name).trans (h.registered t.name)
  have hcolumns : ∀ c ∈ t.columns.map (fun c => (t.name, c.type, c.name?.getD "-")),
      c.1 = t.name := by simp
  rw [Directive.events]
  by_cases hs : t.name ∈ s.names
  · rw [if_pos ((Schema.isSome_get? s t.name).mpr hs), List.append_cons]
    have hrun := run_columns_replaced h.settled t.name t.columns t.name
    refine h.register ht ?_ hrun ?_ ?_
    · rw [List.append_assoc]
      apply ho.append
      intro before e after he
      -- Behind the columns there are two events: the table is replaced, and it is registered.
      obtain _ | ⟨_, _ | ⟨_, before⟩⟩ := before
      · cases he
        rw [List.append_nil]
        exact ⟨hname.mpr hs, _, _, rfl⟩
      · cases he
        refine ⟨by rwa [hrun], by rw [hrun, List.length_map], ?_⟩
        rw [List.getLast?_concat, registered_append]
        exact iff_of_true rfl (.inl (hname.mpr hs))
      · simp at he
    · rw [replay_append (by simp) (by simp), hreplay]
    · intro name
      rw [registered_append, hregistered]
      simp [Registered]
  · rw [if_neg (mt (Schema.isSome_get? s t.name).mp hs)]
    have hrun := run_columns h.settled t.name t.columns
    refine h.register ht (ho.concat ⟨by rwa [hrun], by rw [hrun, List.length_map], ?_⟩) hrun hreplay
      hregistered
    exact iff_of_false (getLast?_columns h.settled t.name t.columns t.name) (mt hname.mp hs)

theorem Traces.reference {log : List Event} {s : Schema} (h : Traces log s) {source : String}
    (hs : source ∈ s.names) (target : String) :
    Traces (log ++ [.referenced source target]) (s.update source (·.addReference target)) where
  orderly := h.orderly.concat ((h.registered source).mpr hs)
  replay := by rw [replay_referenced, h.replay, Schema.outline_update h.names]
  registered name := by
    rw [Schema.names_addReference, registered_append, h.registered]
    simp [Registered]
  names := by
    rw [Schema.names_addReference]
    exact h.names
  settled := settled_concat (by simp) (by simp) log

theorem Traces.quiet {log : List Event} {s : Schema} (h : Traces log s) {e : Event}
    (he : e.Quiet) : Traces (log ++ [e]) s where
  orderly := h.orderly.concat (by cases e <;> trivial)
  replay := by
    rw [replay_append, h.replay]
    · rintro name count hm
      cases List.mem_singleton.mp hm
      exact he
    · rintro source target hm
      cases List.mem_singleton.mp hm
      exact he
  registered name := by
    have hn : ¬Registered [e] name := by
      rintro ⟨count, hm⟩
      cases List.mem_singleton.mp hm
      exact he
    rw [registered_append, or_iff_left hn, h.registered]
  names := h.names
  settled := by
    refine settled_concat ?_ ?_ log
    · rintro table type name rfl
      exact he
    · rintro name rfl
      exact he

/-- One step of a run keeps the log in accord with the schema. -/
theorem Traces.step {log : List Event} {s s' : Schema} (h : Traces log s) {reading : Reading}
    (hr : Reports reading) {d : Directive} (hd : reading.outcome = .ok d)
    (ha : d.apply s = .ok s') : Traces (log ++ (reading.events ++ d.events s)) s' := by
  cases hr with
  | create ht =>
    cases hd
    cases ha
    rw [← List.append_assoc]
    exact h.create ht
  | reference =>
    cases hd
    rw [Directive.apply] at ha
    split at ha
    · next hs =>
      cases ha
      exact h.reference ((Schema.isSome_get? s _).mp hs) _
    · cases ha
  | skip he =>
    cases hd
    cases ha
    exact h.quiet he
  | empty =>
    cases hd
    cases ha
    exact (List.append_nil log).symm ▸ h
  | malformed => cases hd

theorem Traces.fault {log : List Event} {s : Schema} (h : Traces log s) {reading : Reading}
    (hr : Reports reading) {e : Error} (he : Outcome.carryOut s reading.outcome = .error e) :
    Orderly (log ++ reading.events) ∧ Log.replay (log ++ reading.events) = s.outline := by
  cases hr with
  | create => cases he
  | skip => cases he
  | empty => cases he
  | reference =>
    rw [List.append_nil]
    exact ⟨h.orderly, h.replay⟩
  | malformed table columns => exact h.columns table columns

theorem ofStatements_of_error {s : Schema} {statement : Tree} {e : Error}
    (h : Outcome.carryOut s (Reading.ofStatement statement).outcome = .error e)
    (rest : List Tree) :
    Run.ofStatements s (statement :: rest) =
      ⟨(Reading.ofStatement statement).events, .error e⟩ := by
  rw [Run.ofStatements]
  cases hd : (Reading.ofStatement statement).outcome with
  | error m =>
    rw [hd] at h
    cases h
    rfl
  | ok d =>
    rw [hd, Outcome.carryOut] at h
    simp only [h]

theorem ofStatements_of_apply {s next : Schema} {statement : Tree} {d : Directive}
    (hd : (Reading.ofStatement statement).outcome = .ok d) (ha : d.apply s = .ok next)
    (rest : List Tree) :
    Run.ofStatements s (statement :: rest) =
      ⟨(Reading.ofStatement statement).events ++ d.events s ++ (Run.ofStatements next rest).log,
        (Run.ofStatements next rest).result⟩ := by
  rw [Run.ofStatements]
  simp only [hd, ha]

def Tells (log : List Event) (s : Schema) (statements : List Tree) : Prop :=
  match (Run.ofStatements s statements).result with
  | .ok s' => replay log = s'.outline
  | .error e => ∃ before statement after s', statements = before ++ statement :: after ∧
    (Run.ofStatements s before).result = .ok s' ∧
    (Run.ofStatements s (before ++ [statement])).result = .error e ∧ replay log = s'.outline

theorem Tells.cons {log : List Event} {s next : Schema} {statement : Tree} {rest : List Tree}
    (hrun : ∀ rest, (Run.ofStatements s (statement :: rest)).result =
      (Run.ofStatements next rest).result) (h : Tells log next rest) :
    Tells log s (statement :: rest) := by
  rw [Tells] at h ⊢
  rw [hrun]
  cases hr : (Run.ofStatements next rest).result with
  | ok s' =>
    rw [hr] at h
    exact h
  | error e =>
    rw [hr] at h
    obtain ⟨before, fault, after, s', rfl, hb, hf, ht⟩ := h
    exact ⟨statement :: before, fault, after, s', rfl, (hrun before).trans hb,
      (hrun _).trans hf, ht⟩

theorem Traces.run {log : List Event} {s : Schema} (h : Traces log s) (statements : List Tree) :
    Orderly (log ++ (Run.ofStatements s statements).log) ∧
      Tells (log ++ (Run.ofStatements s statements).log) s statements := by
  induction statements generalizing log s with
  | nil =>
    have hl : log ++ (Run.ofStatements s []).log = log := List.append_nil log
    rw [hl]
    exact ⟨h.orderly, h.replay⟩
  | cons statement rest ih =>
    have hr := reports_ofStatement statement
    cases hc : Outcome.carryOut s (Reading.ofStatement statement).outcome with
    | error e =>
      have he := ofStatements_of_error hc
      obtain ⟨ho, ht⟩ := h.fault hr hc
      rw [Tells, he]
      exact ⟨ho, [], statement, rest, s, rfl, rfl, congrArg Run.result (he []), ht⟩
    | ok next =>
      cases hd : (Reading.ofStatement statement).outcome with
      | error m =>
        rw [hd] at hc
        cases hc
      | ok d =>
        rw [hd] at hc
        have hrun := ofStatements_of_apply hd hc
        obtain ⟨ho, ht⟩ := ih (h.step hr hd hc)
        rw [hrun, ← List.append_assoc]
        exact ⟨ho, ht.cons fun rest => by rw [hrun]⟩

/-- The events of a run fit together, and they tell the tables of its schema: of all statements, or
of those before the first fault. -/
theorem Run.log_ofTree (root : Tree) :
    Orderly (ofTree root).log ∧
    ∀ statements, schemaStatements root = .ok statements →
      match Schema.ofTree root with
      | .ok s => replay (ofTree root).log = s.outline
      | .error e => ∃ before statement after s, statements = before ++ statement :: after ∧
        (ofStatements {} before).result = .ok s ∧
        (ofStatements {} (before ++ [statement])).result = .error e ∧
        replay (ofTree root).log = s.outline := by
  rw [Schema.ofTree, Run.ofTree]
  cases hs : schemaStatements root with
  | error m =>
    refine ⟨traces_empty.orderly, ?_⟩
    intro _ he
    cases he
  | ok statements =>
    obtain ⟨ho, ht⟩ := traces_empty.run statements
    refine ⟨ho, ?_⟩
    intro _ he
    cases he
    exact ht

theorem Run.log_ofTree_halfway :
    let columns : List Column := [.regular "string" "-", .index ["-"]]
    let halfway : Tree := .tagged "method_add_block" [Source.command "create_table"
      [Source.string "c"], Source.block .nil [Source.column (.regular "date" "d"), .nil]]
    let statements := [Source.createTable { name := "a" }, Source.foreignKey "a" "b",
      Source.createTable { name := "b" }, Source.createTable { name := "a", columns },
      Source.foreignKey "b" "b", halfway, Source.createTable { name := "d" }]
    let root := Source.program statements
    let log : List Event := [.registered "a" 0, .referenced "a" "b", .registered "b" 0,
      .column "a" "string" (some "-"), .column "a" "index" none, .replaced "a", .registered "a" 2,
      .referenced "b" "b", .column "c" "date" (some "d")]
    let e : Error := .malformed ⟨.columnOf "c", .columnCall⟩
    (ofTree root).log = log ∧ Orderly log ∧ Schema.ofTree root = .error e ∧
      replay log = [⟨"a", [("string", "-"), ("index", "-")], none⟩, ⟨"b", [], some ["b"]⟩] ∧
      ∃ before statement after s, statements = before ++ statement :: after ∧
        (ofStatements {} before).result = .ok s ∧
        (ofStatements {} (before ++ [statement])).result = .error e ∧ replay log = s.outline := by
  intro columns halfway statements root log e
  have hl : (ofTree root).log = log := rfl
  have hs : schemaStatements root = .ok statements := rfl
  have he : Schema.ofTree root = .error e := rfl
  obtain ⟨ho, ht⟩ := log_ofTree root
  have ht := ht statements hs
  rw [he] at ht
  rw [hl] at ho ht
  exact ⟨hl, ho, he, by decide, ht⟩

end TableGraph.Extraction
