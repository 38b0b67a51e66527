import TableGraph.Schema
import TableGraph.Tree.Basic

namespace TableGraph.Tree

def stringPart? (t : Tree) : Option String :=
  if t.isTagged "@tstring_content" then t.tokenText? else none

def stringText? (t : Tree) : Option String :=
  match t.child? 0 with
  | some content =>
    if content.isTagged "string_content" then
      (content.children.mapM stringPart?).map String.join
    else none
  | none => none

def symbolName? (t : Tree) : Option String :=
  match t.child? 0 with
  | some inner =>
    if inner.isTagged "symbol" then (inner.child? 0).bind tokenText? else inner.tokenText?
  | none => none

def referenceName? (t : Tree) : Option String :=
  (t.child? 0).bind tokenText?

def name? (t : Tree) : Option String :=
  match t.tag? with
  | some "string_literal" => t.stringText?
  | some "symbol_literal" => t.symbolName?
  | some "var_ref" => t.referenceName?
  | some "vcall" => t.referenceName?
  | _ => none

def trimLabel (label : String) : String :=
  match label.toList.getLast? with
  | some ':' => .ofList label.toList.dropLast
  | _ => label

def keyword? (t : Tree) : Option String :=
  match t.tag? with
  | some "@label" => t.tokenText?.map trimLabel
  | some "symbol_literal" => t.name?
  | some "string_literal" => t.name?
  | _ => none

def constantPath? : Tree → Option String
  | .tagged tag (head :: rest) =>
    if tag = "const_path_ref" then
      match head.constantPath?, rest.head?.bind tokenText? with
      | some path, some name => some (path ++ "::" ++ name)
      | _, _ => none
    else if tag = "var_ref" ∨ tag = "top_const_ref" then head.tokenText?
    else none
  | _ => none

def negativeNumber? (t : Tree) : Option String :=
  match t.child? 0, t.child? 1 with
  | some (.symbol "-@"), some number =>
    if number.isTagged "@int" || number.isTagged "@float" then
      number.tokenText?.map ("-" ++ ·)
    else none
  | _, _ => none

def ident? (t : Tree) : Option String :=
  match t.tag? with
  | some "var_ref" => t.referenceName?
  | some "vcall" => t.referenceName?
  | some "const_path_ref" => t.constantPath?
  | some "symbol_literal" => t.symbolName?
  | some "@int" => t.tokenText?
  | some "@float" => t.tokenText?
  | some "@rational" => t.tokenText?
  | some "@imaginary" => t.tokenText?
  | some "unary" => t.negativeNumber?
  | _ => none

end TableGraph.Tree

namespace TableGraph.OptionValue

/-- The value of an option. Whatever cannot be told from the tree is the empty string. -/
def ofTree (t : Tree) : OptionValue :=
  if t.isTagged "string_literal" then .str (t.stringText?.getD "")
  else
    match t.ident? with
    | some text => .ident text
    | none => .str ""

def ofTree? : Option Tree → OptionValue
  | some t => ofTree t
  | none => .str ""

end TableGraph.OptionValue
