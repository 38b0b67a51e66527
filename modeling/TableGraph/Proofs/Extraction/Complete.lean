import TableGraph.Proofs.Definition.Declares
import TableGraph.Proofs.Extraction.Description

/-! Tables are read completely: every statement in the block of a table is a column of it, or else
nothing is extracted at all. -/

namespace TableGraph.Extraction

open Definition

inductive Creation (statement : Tree) : Tree → Prop
  | alone : command? statement = some "create_table" → Creation statement statement
  | block : blockCommand? statement = some "create_table" → statement.child? 0 = some command →
      Creation statement command

inductive CreatesTable (statement : Tree) (name : String) : Prop
  | mk : Creation statement command → HasArguments (command.child? 1) items →
      items.find? (!Arguments.isHash ·) = some argument → Tree.Names argument name →
      CreatesTable statement name

def DeclaresAll (body : List Tree) (columns : List Column) : Prop :=
  List.Forall₂ Declares (body.filter (!·.isTagged "void_stmt")) columns

theorem Creates.creation {statement : Tree} (h : Creates statement) :
    ∃ command, Creation statement command := by
  obtain h | h := h
  · exact ⟨statement, .alone h⟩
  · obtain ⟨-, command, hc, -⟩ := blockCommand?_eq_some.mp h
    exact ⟨command, .block h hc⟩

theorem ofStatement_alone {statement : Tree} (h : command? statement = some "create_table") :
    Reading.ofStatement statement = ⟨[], (readHeader statement).map .create⟩ := by
  obtain ⟨ht, hn⟩ := command?_eq_some.mp h
  simp [Reading.ofStatement, Tree.isTagged_iff.mp ht, Reading.ofCommand, hn]

theorem ofStatement_block {statement command : Tree}
    (h : blockCommand? statement = some "create_table") (hc : statement.child? 0 = some command) :
    Reading.ofStatement statement = Reading.ofTable command statement := by
  obtain ⟨ht, call, hcall, h⟩ := blockCommand?_eq_some.mp h
  cases hc.symm.trans hcall
  obtain ⟨hcommand, hn⟩ := command?_eq_some.mp h
  have hf : (some command).filter (·.isTagged "command") = some command := by
    rw [Option.filter_some, if_pos hcommand]
  simp only [Reading.ofStatement, Tree.isTagged_iff.mp ht, Reading.ofBlock, hc, hf, hn, ↓reduceIte]

theorem Creation.directive {statement command : Tree} (h : Creation statement command)
    {d : Directive} (hd : (Reading.ofStatement statement).outcome = .ok d) :
    ∃ header columns, Heads command header ∧ d = .create { header with columns := columns } ∧
      (blockCommand? statement = some "create_table" → ∃ body, HasBlock (statement.child? 1) body ∧
        DeclaresAll body columns) := by
  cases h with
  | alone hc =>
    rw [ofStatement_alone hc] at hd
    obtain ⟨header, hh, rfl⟩ := map_eq_ok.mp hd
    refine ⟨header, header.columns, readHeader_eq_ok.mp hh, rfl, fun hb => ?_⟩
    have ht := Tree.isTagged_iff.mp (command?_eq_some.mp hc).1
    exact absurd (ht.symm.trans (Tree.isTagged_iff.mp (blockCommand?_eq_some.mp hb).1)) (by decide)
  | block hb hc =>
    rw [ofStatement_block hb hc, ofTable_eq_ok] at hd
    obtain ⟨header, body, columns, hh, hbody, hr, rfl⟩ := hd
    exact ⟨header, columns, readHeader_eq_ok.mp hh, rfl, fun _ =>
      ⟨body, blockStatements_eq_ok.mp hbody, readColumns_eq_ok.mp hr⟩⟩

theorem created?_of_createsTable {statement : Tree} {name : String}
    (h : CreatesTable statement name) {d : Directive}
    (hd : (Reading.ofStatement statement).outcome = .ok d) : d.created? = some name := by
  obtain ⟨hc, ha, hf, hn⟩ := h
  obtain ⟨header, columns, ⟨ha', hf', hn', _⟩, rfl, -⟩ := hc.directive hd
  cases ha.unique ha'
  cases hf.symm.trans hf'
  cases (Tree.name?_of_names hn).symm.trans (Tree.name?_of_names hn')
  rfl

theorem createsTable_of_create {statement : Tree} {t : Table}
    (h : (Reading.ofStatement statement).outcome = .ok (.create t)) :
    CreatesTable statement t.name ∧
      (blockCommand? statement = some "create_table" → ∃ body, HasBlock (statement.child? 1) body ∧
        DeclaresAll body t.columns) := by
  have hs := says_ofStatement statement
  rw [h] at hs
  cases hs with
  | create hs =>
    obtain ⟨command, hc⟩ := hs.creation
    obtain ⟨header, columns, ⟨ha, hf, hn, _⟩, ⟨⟩, hall⟩ := hc.directive h
    exact ⟨.mk hc ha hf hn, hall⟩

theorem map_directives {os : List Outcome} (h : ∀ m, .error m ∉ os) :
    (directives os).map .ok = os := by
  induction os with
  | nil => rfl
  | cons o os ih =>
    cases o with
    | error m => exact absurd List.mem_cons_self (h m)
    | ok d => exact congrArg (_ :: ·) (ih fun m hm => h m (List.mem_cons_of_mem _ hm))

theorem FaultFree.not_mem {os : List Outcome} (h : FaultFree os) (m : Malformed) :
    .error m ∉ os := by
  intro hm
  obtain ⟨i, hi⟩ := List.mem_iff_getElem?.mp hm
  exact h i _ ⟨_, hi, .malformed⟩

theorem Stands.statement {statements : List Tree} {t : Table}
    (hf : FaultFree (outcomes statements)) (h : Stands (directives (outcomes statements)) t) :
    ∃ before statement after, statements = before ++ statement :: after ∧
      CreatesTable statement t.name ∧ (∀ later ∈ after, ¬CreatesTable later t.name) ∧
      (blockCommand? statement = some "create_table" → ∃ body, HasBlock (statement.child? 1) body ∧
        DeclaresAll body t.columns) := by
  obtain ⟨earlier, u, later, hd, hn, hl, -, hc, -⟩ := h
  have ho := map_directives hf.not_mem
  rw [hd, List.map_append, List.map_cons, outcomes] at ho
  obtain ⟨before, rest, rfl, -, hrest⟩ := List.map_eq_append_iff.mp ho.symm
  obtain ⟨statement, after, rfl, hs, hafter⟩ := List.map_eq_cons_iff.mp hrest
  obtain ⟨hcreates, hall⟩ := createsTable_of_create hs
  rw [hn] at hcreates
  rw [← hc] at hall
  refine ⟨before, statement, after, rfl, hcreates, fun s hs hcreates => ?_, hall⟩
  obtain ⟨d, hd, ho⟩ := List.mem_map.mp (hafter ▸ List.mem_map_of_mem hs)
  exact hl d hd (created?_of_createsTable hcreates ho.symm)

theorem outcome_of_declaresAll {statement command : Tree} {header : Table} {body : List Tree}
    {columns : List Column} (hb : blockCommand? statement = some "create_table")
    (hc : statement.child? 0 = some command) (hh : Heads command header)
    (hbody : HasBlock (statement.child? 1) body) (hall : DeclaresAll body columns) :
    (Reading.ofStatement statement).outcome = .ok (.create { header with columns := columns }) := by
  rw [ofStatement_block hb hc, ofTable_eq_ok]
  exact ⟨header, body, columns, readHeader_eq_ok.mpr hh, blockStatements_eq_ok.mpr hbody,
    readColumns_eq_ok.mpr hall, rfl⟩

theorem not_ok_of_block {statement : Tree} (hb : blockCommand? statement = some "create_table")
    {body : List Tree} (hbody : HasBlock (statement.child? 1) body) {t : Tree} (ht : t ∈ body)
    (hv : ¬t.isTagged "void_stmt") (hn : ∀ c, ¬Declares t c) (d : Directive) :
    (Reading.ofStatement statement).outcome ≠ .ok d := by
  intro hd
  obtain ⟨command, hc⟩ := Creates.creation (.inr hb)
  obtain ⟨_, columns, _, _, hall⟩ := hc.directive hd
  obtain ⟨body', hbody', hall⟩ := hall hb
  cases hbody.unique hbody'
  obtain ⟨c, hc⟩ := exists_of_forall₂ hall (List.mem_filter.mpr ⟨ht, by simpa using hv⟩)
  exact hn c hc

theorem Run.result_append {before : List Tree} {s : Schema}
    (hs : (Run.ofStatements {} before).result = .ok s) (statement : Tree) (after : List Tree) :
    (Run.ofStatements {} (before ++ statement :: after)).result =
      Outcome.carryOut s (Reading.ofStatement statement).outcome >>= fun next =>
        (Run.ofStatements next after).result := by
  simp only [Run.result_ofStatements] at hs ⊢
  rw [outcomes, List.map_append, List.foldlM_append, ← outcomes, hs]
  rfl

end TableGraph.Extraction

namespace TableGraph.Schema

open Definition Extraction

/-- Of every table in a schema, all the columns are there that the block of its last creation has,
and as they are declared there. A block that is reached creates its table if every statement in it
declares a column, and if one declares none there is no schema at all. -/
theorem ofTree_complete (root : Tree) :
    (∀ s, ofTree root = .ok s → ∃ statements, schemaStatements root = .ok statements ∧
      ∀ t ∈ s.tables, ∃ before statement after, statements = before ++ statement :: after ∧
        CreatesTable statement t.name ∧ (∀ later ∈ after, ¬CreatesTable later t.name) ∧
        (blockCommand? statement = some "create_table" →
          ∃ body, HasBlock (statement.child? 1) body ∧ DeclaresAll body t.columns)) ∧
    ∀ before statement after s, schemaStatements root = .ok (before ++ statement :: after) →
      (Run.ofStatements {} before).result = .ok s →
      blockCommand? statement = some "create_table" →
      ∀ body, HasBlock (statement.child? 1) body →
        (∀ command header columns, statement.child? 0 = some command → Heads command header →
          DeclaresAll body columns → (Run.ofStatements {} (before ++ [statement])).result =
            .ok (s.insert { header with columns := columns })) ∧
        ((∃ t ∈ body, ¬t.isTagged "void_stmt" ∧ ∀ c, ¬Declares t c) →
          ∃ m, ofTree root = .error (.malformed m)) := by
  constructor
  · intro s h
    obtain ⟨statements, hs, _⟩ := ofTree_eq_ok h
    obtain ⟨hd, hf⟩ := describes_of_ofTree hs h
    exact ⟨statements, hs, fun t ht => (hd.tables t ht).statement hf⟩
  · intro before statement after s hs hbefore hb body hbody
    constructor
    · intro command header columns hc hh hall
      rw [Run.result_append hbefore, outcome_of_declaresAll hb hc hh hbody hall]
      rfl
    · rintro ⟨t, ht, hv, hn⟩
      obtain ⟨m, hm⟩ := eq_error_of_ne_ok (not_ok_of_block hb hbody ht hv hn)
      rw [ofTree, Run.ofTree, hs]
      refine ⟨m, ?_⟩
      change (Run.ofStatements {} (before ++ statement :: after)).result = _
      rw [Run.result_append hbefore, hm]
      rfl

theorem ofTree_complete_mixed :
    let create (body : List Tree) : Tree := .tagged "method_add_block"
      [Source.command "create_table" [Source.string "a"], Source.block Source.params body]
    let index : Tree := .tagged "method_add_arg"
      [.tagged "call" [.nil, .nil, Source.token "@ident" "index"],
        .tagged "arg_paren" [Source.arguments [Source.array ["b"]]]]
    let body : List Tree := [Source.column (.regular "string" "b"), .tagged "void_stmt" [], index]
    let t : Table := { name := "a", columns := [.regular "string" "b", .index ["b"]] }
    let root : Tree := Source.program [create [], create body]
    let broken : Tree := Source.program [create [], create (body ++ [.tagged "assign" []])]
    ofTree root = .ok ⟨[t]⟩ ∧
      (∃ statements, schemaStatements root = .ok statements ∧
        ∃ before statement after, statements = before ++ statement :: after ∧
          CreatesTable statement t.name ∧ (∀ later ∈ after, ¬CreatesTable later t.name) ∧
          (blockCommand? statement = some "create_table" →
            ∃ body, HasBlock (statement.child? 1) body ∧ DeclaresAll body t.columns)) ∧
      ∃ m, ofTree broken = .error (.malformed m) := by
  intro create index body t root broken
  have h : ofTree root = .ok ⟨[t]⟩ := rfl
  obtain ⟨statements, hs, htables⟩ := (ofTree_complete root).1 _ h
  refine ⟨h, ⟨statements, hs, htables t List.mem_cons_self⟩, ?_⟩
  have hn : ∀ c, ¬Declares (.tagged "assign" []) c := by
    intro c hc
    have h : readColumn .program (.tagged "assign" []) = .ok c := readColumn_eq_ok.mpr hc
    cases h
  refine ((ofTree_complete broken).2 [create []] _ [] ⟨[{ name := "a" }]⟩ rfl rfl rfl _
    (.mk (.inl rfl) .clauses)).2 ⟨_, List.mem_append_right _ List.mem_cons_self, ?_, hn⟩
  nofun

end TableGraph.Schema
