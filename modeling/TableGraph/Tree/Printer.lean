import TableGraph.Decimal
import TableGraph.Text
import TableGraph.Tree.Basic

namespace TableGraph.Tree

/-- Floats in trees have no exponent, and no point if they are whole. -/
def floatLayout : Decimal.Layout where
  positional _ := true
  fraction := false

variable [Text.Printing]

mutual

def write : Tree → List Char
  | .tagged tag children => '[' :: ':' :: (tag.toList ++ writeRest children ++ [']'])
  | .list items => '[' :: (writeItems items ++ [']'])
  | .symbol text => ':' :: text.toList
  | .str text => Quoted.encode text.toList
  | .int value => Decimal.writeInt value.toInt
  | .float value => floatLayout.writeFloat value
  | .bool true => ['t', 'r', 'u', 'e']
  | .bool false => ['f', 'a', 'l', 's', 'e']
  | .nil => ['n', 'i', 'l']

def writeItems : List Tree → List Char
  | [] => []
  | t :: ts => write t ++ writeRest ts

def writeRest : List Tree → List Char
  | [] => []
  | t :: ts => ',' :: ' ' :: (write t ++ writeRest ts)

end

def toText (t : Tree) : String := .ofList t.write

end TableGraph.Tree
