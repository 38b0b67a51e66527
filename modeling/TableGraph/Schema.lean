namespace TableGraph

/-- The value of an option, as text: of a string, or the source text of any other value. -/
inductive OptionValue
  | str (text : String)
  | ident (text : String)
  deriving DecidableEq

def OptionValue.text : OptionValue → String
  | .str text => text
  | .ident text => text

inductive ColumnKind
  | regular (name : String)
  | index (keys : List String)
  deriving DecidableEq

structure Column where
  type : String
  kind : ColumnKind
  /-- By key, in the order of the first setting of each. -/
  options : List (String × OptionValue) := []
  deriving DecidableEq

structure Table where
  name : String
  comment : String := ""
  columns : List Column := []
  /-- The tables that foreign keys point to, `none` before there is any. -/
  references : Option (List String) := none
  deriving DecidableEq

structure Schema where
  tables : List Table := []
  deriving DecidableEq

namespace Column

def regular (type name : String) : Column where
  type := type
  kind := .regular name

def index (keys : List String) : Column where
  type := "index"
  kind := .index keys

def name? (c : Column) : Option String :=
  match c.kind with
  | .regular name => some name
  | .index _ => none

def keys? (c : Column) : Option (List String) :=
  match c.kind with
  | .regular _ => none
  | .index keys => some keys

def setIn (key : String) (value : OptionValue) :
    List (String × OptionValue) → List (String × OptionValue)
  | [] => [(key, value)]
  | o :: os => if o.1 = key then (key, value) :: os else o :: setIn key value os

def setOption (c : Column) (key : String) (value : OptionValue) : Column :=
  { c with options := setIn key value c.options }

def setOptions (c : Column) (options : List (String × OptionValue)) : Column :=
  options.foldl (fun c o => c.setOption o.1 o.2) c

def option? (c : Column) (key : String) : Option OptionValue :=
  c.options.lookup key

end Column

namespace Table

def addReference (t : Table) (target : String) : Table :=
  { t with references := some (t.references.getD [] ++ [target]) }

def addColumn (t : Table) (c : Column) : Table :=
  { t with columns := t.columns ++ [c] }

def modifyColumn (t : Table) (i : Nat) (f : Column → Column) : Table :=
  { t with columns := t.columns.modify i f }

end Table

namespace Schema

def insertIn (t : Table) : List Table → List Table
  | [] => [t]
  | u :: us => if u.name = t.name then t :: us else u :: insertIn t us

/-- Adds a table; one of the same name is replaced where it stands. -/
def insert (s : Schema) (t : Table) : Schema := ⟨insertIn t s.tables⟩

def get? (s : Schema) (name : String) : Option Table :=
  s.tables.find? (·.name = name)

def updateIn (name : String) (f : Table → Table) : List Table → List Table
  | [] => []
  | t :: ts => if t.name = name then f t :: ts else t :: updateIn name f ts

def update (s : Schema) (name : String) (f : Table → Table) : Schema :=
  ⟨updateIn name f s.tables⟩

def size (s : Schema) : Nat := s.tables.length

def isEmpty (s : Schema) : Bool := s.tables.isEmpty

end Schema

end TableGraph
