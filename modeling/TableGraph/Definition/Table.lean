import TableGraph.Definition.Argument

namespace TableGraph.Definition

def columnCall (context : Context) (statement : Tree) :
    Except Malformed (Option Tree × Option Tree) :=
  match statement.tag? with
  | some "command_call" => .ok (statement.child? 2, statement.child? 3)
  | some "method_add_arg" => do
    let call ← require ((statement.child? 0).filter (·.isTagged "call")) context .methodCall
    let paren := (statement.child? 1).filter (·.isTagged "arg_paren")
    return (call.child? 2, paren.bind (·.child? 0))
  | _ => .error ⟨context, .columnCall⟩

/-- The columns of an index, or the one expression that it is on. An empty array has nothing in the
place of its items. -/
def indexKeys (context : Context) (t : Tree) : Except Malformed (List String) :=
  if t.isTagged "string_literal" then
    (require t.stringText? context .indexExpression).map ([·])
  else if t.isTagged "array" then
    match t.child? 0 with
    | none => .ok []
    | some items => do
      let items ← require items.items? context .indexColumns
      items.mapM fun item => require item.name? context .indexColumn
  else .error ⟨context, .indexColumnsOrExpression⟩

def bareColumn (context : Context) (type : String) (args : Arguments) : Except Malformed Column :=
  if type = "index" then do
    let keys ← indexKeys context (← args.first context .indexColumns)
    return .index keys
  else do
    let argument ← args.first context .columnArgument
    let name ← require argument.name? context .columnName
    return .regular type name

def readColumn (context : Context) (statement : Tree) : Except Malformed Column := do
  let (method, block) ← columnCall context statement
  let type ← require (method.bind Tree.tokenText?) context .columnType
  let args ← Arguments.ofTree context block
  let column ← bareColumn context type args
  let options ← args.readKeywords context
  return column.setOptions options

/-- The columns up to the first statement that is not one, and what is wrong with it. Empty
statements are passed over. -/
def readColumns (context : Context) : List Tree → List Column × Option Malformed
  | [] => ([], none)
  | s :: rest =>
    if s.isTagged "void_stmt" then readColumns context rest
    else
      match readColumn context s with
      | .error m => ([], some m)
      | .ok column =>
        let (columns, fault) := readColumns context rest
        (column :: columns, fault)

def blockStatements (context : Context) (t : Tree) : Except Malformed (List Tree) := do
  let isBlock (b : Tree) := b.isTagged "do_block" || b.isTagged "brace_block"
  let block ← require ((t.child? 1).filter isBlock) context .block
  let body ← require (block.child? 1) context .blockBody
  let statements := if body.isTagged "bodystmt" then body.child? 0 else some body
  require (statements.bind Tree.items?) context .bodyStatements

def schemaStatements (root : Tree) : Except Malformed (List Tree) := do
  if !root.isTagged "program" then throw ⟨.program, .programRoot⟩
  let statements ← require ((root.child? 0).bind Tree.items?) .program .statements
  let define ← require (statements.find? (·.isTagged "method_add_block")) .program .schemaBlock
  blockStatements .schemaBlock define

def commentOf (options : List (String × OptionValue)) : String :=
  match (options.filter (·.1 = "comment")).getLast? with
  | some (_, value) => value.text
  | none => ""

def readHeader (command : Tree) : Except Malformed Table := do
  let args ← Arguments.ofTree .createTable (command.child? 1)
  let argument ← args.first .createTable .tableArgument
  let name ← require argument.name? .createTable .tableName
  let options ← args.readKeywords .createTable
  return { name, comment := commentOf options }

def readForeignKey (command : Tree) : Except Malformed (String × String) := do
  let args ← Arguments.ofTree .addForeignKey (command.child? 1)
  let argument ← args.first .addForeignKey .sourceArgument
  let source ← require argument.name? .addForeignKey .sourceName
  let argument ← args.second .addForeignKey .targetArgument
  let target ← require argument.name? .addForeignKey .targetName
  return (source, target)

end TableGraph.Definition
