import TableGraph.Definition.Table

namespace TableGraph.Extraction

inductive Event
  | skippedStatement (tag : Option String)
  | skippedCommand
  | ignoredCommand (name : String)
  | skippedBlock
  | skippedBlockCommand
  | ignoredBlock (name : String)
  | column (table type : String) (name : Option String)
  | replaced (table : String)
  | registered (table : String) (columns : Nat)
  | referenced (source target : String)
  deriving DecidableEq

inductive Level
  | debug
  | trace
  deriving DecidableEq

inductive FieldValue
  | text (s : String)
  | number (n : Nat)
  deriving DecidableEq

namespace Event

def level : Event → Level
  | .column _ _ _ => .trace
  | _ => .debug

def message : Event → String
  | .skippedStatement _ => "skipping unrecognized directive"
  | .skippedCommand => "skipping command without identifier"
  | .ignoredCommand _ => "ignoring directive"
  | .skippedBlock => "skipping block directive that is not a command"
  | .skippedBlockCommand => "skipping block directive without identifier"
  | .ignoredBlock _ => "ignoring block directive"
  | .column _ _ _ => "column"
  | .replaced _ => "table declared again, replacing earlier declaration"
  | .registered _ _ => "registered table"
  | .referenced _ _ => "registered foreign key"

def fields : Event → List (String × FieldValue)
  | .skippedStatement tag => [("tag", .text (tag.getD "-"))]
  | .skippedCommand | .skippedBlock | .skippedBlockCommand => []
  | .ignoredCommand name | .ignoredBlock name => [("directive", .text name)]
  | .column table type name =>
    [("table", .text table), ("typ", .text type), ("name", .text (name.getD "-"))]
  | .replaced table => [("table", .text table)]
  | .registered table columns => [("table", .text table), ("columns", .number columns)]
  | .referenced source target => [("from", .text source), ("to", .text target)]

end Event

open Definition

inductive Directive
  | create (table : Table)
  | reference (source target : String)
  | other
  deriving DecidableEq

structure Reading where
  events : List Event
  outcome : Except Malformed Directive

namespace Reading

def skip (e : Event) : Reading := ⟨[e], .ok .other⟩

def ofCommand (command : Tree) : Reading :=
  match (command.child? 0).bind Tree.tokenText? with
  | none => skip .skippedCommand
  | some name =>
    if name = "add_foreign_key" then
      ⟨[], (readForeignKey command).map fun (source, target) => .reference source target⟩
    else if name = "create_table" then ⟨[], (readHeader command).map .create⟩
    else skip (.ignoredCommand name)

/-- A table with its columns. Columns in front of a malformed one are still reported. -/
def ofTable (call statement : Tree) : Reading :=
  match readHeader call with
  | .error m => ⟨[], .error m⟩
  | .ok table =>
    match blockStatements (.columnOf table.name) statement with
    | .error m => ⟨[], .error m⟩
    | .ok statements =>
      let (columns, fault) := readColumns (.columnOf table.name) statements
      { events := columns.map fun c => .column table.name c.type c.name?
        outcome :=
          match fault with
          | some m => .error m
          | none => .ok (.create { table with columns := columns }) }

def ofBlock (statement : Tree) : Reading :=
  match (statement.child? 0).filter (·.isTagged "command") with
  | none => skip .skippedBlock
  | some call =>
    match (call.child? 0).bind Tree.tokenText? with
    | none => skip .skippedBlockCommand
    | some name =>
      if name = "create_table" then ofTable call statement else skip (.ignoredBlock name)

def ofStatement (statement : Tree) : Reading :=
  match statement.tag? with
  | some "command" => ofCommand statement
  | some "method_add_block" => ofBlock statement
  | some "void_stmt" => ⟨[], .ok .other⟩
  | tag => skip (.skippedStatement tag)

end Reading

end TableGraph.Extraction
