import TableGraph.Proofs.Tree.Occurs
import TableGraph.Schema

namespace TableGraph

namespace Source

def position : Tree := .list [.int 1, .int 0]

def token (tag text : String) : Tree := .tagged tag [.str text, position]

def string (text : String) : Tree :=
  .tagged "string_literal" [.tagged "string_content" [token "@tstring_content" text]]

def value : OptionValue → Tree
  | .str text => string text
  | .ident text => .tagged "var_ref" [token "@kw" text]

def pair (key : String) (value : Tree) : Tree :=
  .tagged "assoc_new" [token "@label" (key ++ ":"), value]

def hash (pairs : List (String × Tree)) : Tree :=
  .tagged "bare_assoc_hash" [.list (pairs.map fun p => pair p.1 p.2)]

def keywords : List (String × OptionValue) → List Tree
  | [] => []
  | options => [hash (options.map fun o => (o.1, value o.2))]

def arguments (items : List Tree) : Tree := .tagged "args_add_block" [.list items, .bool false]

def command (method : String) (items : List Tree) : Tree :=
  .tagged "command" [token "@ident" method, arguments items]

def block (params : Tree) (statements : List Tree) : Tree :=
  .tagged "do_block" [params, .tagged "bodystmt" [.list statements, .nil, .nil, .nil]]

def array : List String → Tree
  | [] => .tagged "array" [.nil]
  | keys => .tagged "array" [.list (keys.map string)]

def subject : ColumnKind → Tree
  | .regular name => string name
  | .index keys => array keys

def column (c : Column) : Tree :=
  .tagged "command_call" [.tagged "var_ref" [token "@ident" "t"], token "@period" ".",
    token "@ident" c.type, arguments (subject c.kind :: keywords c.options), .nil]

def columns : List Column → List Tree
  | [] => [.tagged "void_stmt" []]
  | cs => cs.map column

def comment (text : String) : List (String × OptionValue) :=
  if text = "" then [] else [("comment", .str text)]

def params : Tree :=
  .tagged "block_var" [.tagged "params" [.list [token "@ident" "t"], .nil, .nil, .nil, .nil, .nil,
    .nil], .bool false]

def createTable (t : Table) : Tree :=
  .tagged "method_add_block" [
    command "create_table" (string t.name :: keywords (comment t.comment)),
    block params (columns t.columns)]

def foreignKey (source target : String) : Tree :=
  command "add_foreign_key" [string source, string target]

def foreignKeys (t : Table) : List Tree := (t.references.getD []).map (foreignKey t.name)

def define : Tree :=
  .tagged "method_add_arg" [
    .tagged "call" [
      .tagged "const_path_ref" [.tagged "var_ref" [token "@const" "ActiveRecord"],
        token "@const" "Schema"],
      token "@period" ".", token "@ident" "define"],
    .tagged "arg_paren" [arguments [hash [("version", token "@int" "2024_01_01_000000")]]]]

def program (statements : List Tree) : Tree :=
  .tagged "program" [.list [.tagged "method_add_block" [define, block .nil statements]]]

end Source

def Schema.toTree (s : Schema) : Tree :=
  Source.program (s.tables.map Source.createTable ++ s.tables.flatMap Source.foreignKeys)

namespace Source

@[simp] theorem readable_position : position.Readable :=
  Tree.readable_list (by simp [Tree.IsSymbol])

@[simp] theorem readable_token {tag text : String} :
    (token tag text).Readable ↔ Dump.IsPlain tag := by
  simp [token]

@[simp] theorem readable_string (text : String) : (string text).Readable := by
  simp +decide [string]

@[simp] theorem readable_value (v : OptionValue) : (value v).Readable := by
  cases v <;> simp +decide [value]

theorem readable_hash {pairs : List (String × Tree)} (h : ∀ p ∈ pairs, p.2.Readable) :
    (hash pairs).Readable := by
  have hp : ∀ t ∈ pairs.map (fun p => pair p.1 p.2), ¬t.IsSymbol ∧ t.Readable := by
    simp only [List.forall_mem_map]
    intro p hp
    simp +decide [pair, Tree.IsSymbol, h p hp]
  simp +decide [hash, Tree.readable_list hp]

theorem readable_keywords (options : List (String × OptionValue)) :
    ∀ t ∈ keywords options, ¬t.IsSymbol ∧ t.Readable := by
  cases options with
  | nil => nofun
  | cons o os =>
    have hh : (hash ((o :: os).map fun o => (o.1, value o.2))).Readable :=
      readable_hash (by simp only [List.forall_mem_map, readable_value, implies_true])
    simpa only [keywords, List.mem_singleton, forall_eq] using ⟨id, hh⟩

theorem readable_arguments {items : List Tree} (h : ∀ t ∈ items, ¬t.IsSymbol ∧ t.Readable) :
    (arguments items).Readable := by
  simp +decide [arguments, Tree.readable_list h]

theorem readable_command {items : List Tree} (h : ∀ t ∈ items, ¬t.IsSymbol ∧ t.Readable)
    (method : String) : (command method items).Readable := by
  simp +decide [command, readable_arguments h]

theorem readable_block {params : Tree} (hp : params.Readable) {statements : List Tree}
    (h : ∀ t ∈ statements, ¬t.IsSymbol ∧ t.Readable) : (block params statements).Readable := by
  simp +decide [block, hp, Tree.readable_list h]

theorem readable_array (keys : List String) : (array keys).Readable := by
  cases keys with
  | nil => simp +decide [array]
  | cons k ks =>
    have hs : ∀ t ∈ (k :: ks).map string, ¬t.IsSymbol ∧ t.Readable := by
      simp only [List.forall_mem_map]
      exact fun k _ => ⟨id, readable_string k⟩
    simp only [array, Tree.readable_tagged, List.mem_singleton, forall_eq]
    exact ⟨by decide, Tree.readable_list hs⟩

theorem readable_subject (kind : ColumnKind) :
    ¬(subject kind).IsSymbol ∧ (subject kind).Readable := by
  cases kind with
  | regular name => exact ⟨id, readable_string name⟩
  | index keys =>
    cases keys with
    | nil => exact ⟨id, readable_array []⟩
    | cons k ks => exact ⟨id, readable_array (k :: ks)⟩

theorem readable_column (c : Column) : (column c).Readable := by
  have ha : (arguments (subject c.kind :: keywords c.options)).Readable :=
    readable_arguments (List.forall_mem_cons.mpr ⟨readable_subject c.kind, readable_keywords _⟩)
  simp +decide [column, ha]

theorem readable_columns (cs : List Column) : ∀ t ∈ columns cs, ¬t.IsSymbol ∧ t.Readable := by
  cases cs with
  | nil => simp +decide [columns, Tree.IsSymbol]
  | cons c cs =>
    simp only [columns, List.forall_mem_map]
    exact fun c _ => ⟨id, readable_column c⟩

theorem readable_params : params.Readable := by
  have ht : (Tree.list [token "@ident" "t"]).Readable :=
    Tree.readable_list (by simp +decide [token, Tree.IsSymbol])
  simp +decide [params, ht]

theorem readable_createTable (t : Table) :
    ¬(createTable t).IsSymbol ∧ (createTable t).Readable := by
  have hi : ∀ i ∈ string t.name :: keywords (comment t.comment), ¬i.IsSymbol ∧ i.Readable :=
    List.forall_mem_cons.mpr ⟨⟨id, readable_string t.name⟩, readable_keywords _⟩
  have hc : (command "create_table" (string t.name :: keywords (comment t.comment))).Readable :=
    readable_command hi _
  have hb : (block params (columns t.columns)).Readable :=
    readable_block readable_params (readable_columns t.columns)
  simp +decide [createTable, Tree.IsSymbol, hc, hb]

theorem readable_foreignKey (source target : String) :
    ¬(foreignKey source target).IsSymbol ∧ (foreignKey source target).Readable :=
  ⟨id, readable_command (by simp +decide [string, Tree.IsSymbol]) _⟩

theorem readable_define : define.Readable := by
  have hh : (hash [("version", token "@int" "2024_01_01_000000")]).Readable :=
    readable_hash (by simp +decide)
  have ha : (arguments [hash [("version", token "@int" "2024_01_01_000000")]]).Readable :=
    readable_arguments (List.forall_mem_singleton.mpr ⟨id, hh⟩)
  simp +decide [define, ha]

theorem readable_program {statements : List Tree}
    (h : ∀ t ∈ statements, ¬t.IsSymbol ∧ t.Readable) : (program statements).Readable := by
  have hb : (block .nil statements).Readable := readable_block Tree.readable_nil h
  have hd : (Tree.tagged "method_add_block" [define, block .nil statements]).Readable := by
    simp +decide [readable_define, hb]
  have hl : (Tree.list [.tagged "method_add_block" [define, block .nil statements]]).Readable :=
    Tree.readable_list (List.forall_mem_singleton.mpr ⟨id, hd⟩)
  simp only [program, Tree.readable_tagged, List.mem_singleton, forall_eq]
  exact ⟨by decide, hl⟩

end Source

theorem Schema.readable_toTree (s : Schema) : s.toTree.Readable := by
  apply Source.readable_program
  intro t ht
  cases List.mem_append.mp ht with
  | inl ht =>
    obtain ⟨u, _, rfl⟩ := List.mem_map.mp ht
    exact Source.readable_createTable u
  | inr ht =>
    obtain ⟨u, _, ht⟩ := List.mem_flatMap.mp ht
    obtain ⟨target, _, rfl⟩ := List.mem_map.mp ht
    exact Source.readable_foreignKey u.name target

end TableGraph
