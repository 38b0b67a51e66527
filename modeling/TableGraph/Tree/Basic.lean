/-! Syntax trees as nested arrays. An array headed by a symbol is tagged with it; any other is a
plain list: of statements, of arguments, or the line and column of a token. -/

namespace TableGraph

inductive Tree
  | tagged (tag : String) (children : List Tree)
  | list (items : List Tree)
  | symbol (text : String)
  | str (text : String)
  | int (value : Int64)
  | float (value : Float)
  | bool (value : Bool)
  | nil
  deriving Inhabited

namespace Tree

mutual

/-- Equality as floats have it: no tree with a NaN in it equals itself. -/
def same : Tree → Tree → Bool
  | .tagged t cs, .tagged u ds => t == u && sameAll cs ds
  | .list cs, .list ds => sameAll cs ds
  | .symbol s, .symbol t => s == t
  | .str s, .str t => s == t
  | .int m, .int n => m == n
  | .float x, .float y => x == y
  | .bool a, .bool b => a == b
  | .nil, .nil => true
  | _, _ => false

def sameAll : List Tree → List Tree → Bool
  | [], [] => true
  | c :: cs, d :: ds => same c d && sameAll cs ds
  | _, _ => false

end

instance : BEq Tree := ⟨same⟩

def ofItems : List Tree → Tree
  | .symbol tag :: children => .tagged tag children
  | items => .list items

def tag? : Tree → Option String
  | .tagged tag _ => some tag
  | _ => none

def isTagged (t : Tree) (tag : String) : Bool := t.tag? == some tag

def children : Tree → List Tree
  | .tagged _ children => children
  | .list items => items
  | _ => []

/-- The child at an index, not counting the tag. A `nil` there stands for none. -/
def child? (t : Tree) (i : Nat) : Option Tree :=
  match t.children[i]? with
  | some .nil => none
  | c => c

def items? : Tree → Option (List Tree)
  | .list items => some items
  | _ => none

def str? : Tree → Option String
  | .str text => some text
  | _ => none

def isScannerTag (tag : String) : Bool := tag.toList.head? == some '@'

def tokenText? : Tree → Option String
  | .tagged tag (.str text :: _) => if isScannerTag tag then some text else none
  | _ => none

end Tree

end TableGraph
