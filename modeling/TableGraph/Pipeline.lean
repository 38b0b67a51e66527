import TableGraph.Diagram
import TableGraph.Dump.Progress
import TableGraph.Extraction.Run
import TableGraph.Interpreter

namespace TableGraph

inductive Failure
  | dump (e : Dump.Error)
  | schema (e : Extraction.Error)
  | interpreter (e : Interpreter.Error)
  deriving DecidableEq

def Failure.message [Text.Printing] : Failure → String
  | .dump e => "Syntax tree error: " ++ e.message
  | .schema e => "Schema error: " ++ e.message
  | .interpreter e => "Ruby front-end error: " ++ e.message

def Extraction.Run.ofDump (text : String) : Except Failure Run :=
  match Tree.parse text with
  | .error e => .error (.dump e)
  | .ok root => .ok (.ofTree root)

def Schema.ofDump (text : String) : Except Failure Schema :=
  match Extraction.Run.ofDump text with
  | .error e => .error e
  | .ok run => run.result.mapError .schema

def Diagram.ofDump (text : String) (d : Direction) : Except Failure String :=
  (Schema.ofDump text).map (·.diagram d)

/-- The diagram of a dump, or the text of what is wrong. The direction is looked at first; without
one the diagram goes top down. -/
def Diagram.ofTexts [Text.Printing] (text : String) (direction : Option String) :
    Except String String :=
  match direction with
  | none => (ofDump text .topDown).mapError Failure.message
  | some code =>
    match Direction.ofText? code with
    | none => .error ("Invalid direction: " ++ code)
    | some d => (ofDump text d).mapError Failure.message

end TableGraph
