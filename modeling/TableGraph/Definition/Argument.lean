import TableGraph.Definition.Value

namespace TableGraph.Definition

inductive Context
  | program
  | schemaBlock
  | createTable
  | addForeignKey
  | columnOf (table : String)
  deriving DecidableEq

def Context.text : Context → String
  | .program => "program"
  | .schemaBlock => "schema definition block"
  | .createTable => "create_table"
  | .addForeignKey => "add_foreign_key"
  | .columnOf table => "column declaration in table \"" ++ table ++ "\""

inductive Expected
  | programRoot
  | statements
  | schemaBlock
  | block
  | blockBody
  | bodyStatements
  | arguments
  | keywordArguments
  | keywordPair
  | keywordName
  | tableArgument
  | tableName
  | sourceArgument
  | sourceName
  | targetArgument
  | targetName
  | columnCall
  | methodCall
  | columnType
  | columnArgument
  | columnName
  | indexColumns
  | indexColumn
  | indexExpression
  | indexColumnsOrExpression
  deriving DecidableEq

def Expected.text : Expected → String
  | .programRoot => "[:program, ...] root node"
  | .statements => "statement list"
  | .schemaBlock => "schema definition block"
  | .block => "do/brace block"
  | .blockBody => "block body"
  | .bodyStatements => "statement list in block body"
  | .arguments => "argument list"
  | .keywordArguments => "keyword argument list"
  | .keywordPair => "key: value pair"
  | .keywordName => "keyword name"
  | .tableArgument => "table name argument"
  | .tableName => "table name string"
  | .sourceArgument => "source table argument"
  | .sourceName => "source table name"
  | .targetArgument => "target table argument"
  | .targetName => "target table name"
  | .columnCall => "t.<type> \"name\" call"
  | .methodCall => "method call"
  | .columnType => "column type identifier"
  | .columnArgument => "column name argument"
  | .columnName => "column name string"
  | .indexColumns => "index column list"
  | .indexColumn => "index column name"
  | .indexExpression => "index expression string"
  | .indexColumnsOrExpression => "array of index columns or expression string"

structure Malformed where
  context : Context
  expected : Expected
  deriving DecidableEq

def Malformed.message (m : Malformed) : String :=
  "Malformed " ++ m.context.text ++ ": expected " ++ m.expected.text

def require (part : Option α) (context : Context) (expected : Expected) : Except Malformed α :=
  match part with
  | some a => .ok a
  | none => .error ⟨context, expected⟩

structure Arguments where
  positional : List Tree
  keywords? : Option Tree

namespace Arguments

def isHash (t : Tree) : Bool := t.isTagged "bare_assoc_hash"

def ofItems (items : List Tree) : Arguments where
  positional := items.filter (!isHash ·)
  keywords? := (items.filter isHash).getLast?

def ofTree (context : Context) (t : Option Tree) : Except Malformed Arguments :=
  let items := do
    let block ← t
    if block.isTagged "args_add_block" then (← block.child? 0).items? else none
  (require items context .arguments).map ofItems

def first (args : Arguments) (context : Context) (expected : Expected) : Except Malformed Tree :=
  require args.positional[0]? context expected

def second (args : Arguments) (context : Context) (expected : Expected) : Except Malformed Tree :=
  require args.positional[1]? context expected

end Arguments

def readPair (context : Context) (t : Tree) : Except Malformed (String × OptionValue) :=
  if t.isTagged "assoc_new" then
    (require ((t.child? 0).bind Tree.keyword?) context .keywordName).map fun key =>
      (key, .ofTree? (t.child? 1))
  else .error ⟨context, .keywordPair⟩

def readPairs (context : Context) (hash : Tree) : Except Malformed (List (String × OptionValue)) :=
  match (hash.child? 0).bind Tree.items? with
  | some pairs => pairs.mapM (readPair context)
  | none => .error ⟨context, .keywordArguments⟩

def Arguments.readKeywords (args : Arguments) (context : Context) :
    Except Malformed (List (String × OptionValue)) :=
  match args.keywords? with
  | some hash => readPairs context hash
  | none => .ok []

end TableGraph.Definition
