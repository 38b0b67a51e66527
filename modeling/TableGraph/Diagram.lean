import TableGraph.Schema

namespace TableGraph

inductive Direction
  | topDown
  | topBottom
  | bottomTop
  | leftRight
  | rightLeft
  deriving DecidableEq

namespace Direction

def all : List Direction := [.topDown, .topBottom, .bottomTop, .leftRight, .rightLeft]

def code : Direction → String
  | .topDown => "TD"
  | .topBottom => "TB"
  | .bottomTop => "BT"
  | .leftRight => "LR"
  | .rightLeft => "RL"

/-- The direction with this code, in capital or small letters. No letter beyond ASCII has a capital
that occurs in a code. -/
def ofText? (text : String) : Option Direction :=
  let capitals := text.toList.map Char.toUpper
  all.find? fun d => d.code.toList = capitals

end Direction

namespace Diagram

def indent : String := "    "

def arrow : String := " --> "

def tableLines (t : Table) : List String :=
  match t.references with
  | none => [indent ++ t.name]
  | some targets => targets.map fun target => indent ++ t.name ++ arrow ++ target

end Diagram

namespace Schema

def diagramLines (s : Schema) (d : Direction) : List String :=
  ("graph " ++ d.code) :: s.tables.flatMap Diagram.tableLines

def diagram (s : Schema) (d : Direction) : String :=
  "\n".intercalate (s.diagramLines d)

end Schema

end TableGraph
