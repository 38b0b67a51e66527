import TableGraph.Extraction.Reading

namespace TableGraph

namespace Extraction

inductive Error
  | malformed (m : Definition.Malformed)
  | unknownTable (source target : String)
  deriving DecidableEq

def Error.message : Error → String
  | .malformed m => m.message
  | .unknownTable source target =>
    "Foreign key from undeclared table \"" ++ source ++ "\" to \"" ++ target ++ "\""

structure Run where
  log : List Event
  result : Except Error Schema

def Directive.events (s : Schema) : Directive → List Event
  | .create t =>
    if (s.get? t.name).isSome then [.replaced t.name, .registered t.name t.columns.length]
    else [.registered t.name t.columns.length]
  | .reference source target => [.referenced source target]
  | .other => []

def Directive.apply (s : Schema) : Directive → Except Error Schema
  | .create t => .ok (s.insert t)
  | .reference source target =>
    if (s.get? source).isSome then .ok (s.update source (·.addReference target))
    else .error (.unknownTable source target)
  | .other => .ok s

def Run.ofStatements (s : Schema) : List Tree → Run
  | [] => ⟨[], .ok s⟩
  | statement :: rest =>
    let reading := Reading.ofStatement statement
    match reading.outcome with
    | .error m => ⟨reading.events, .error (.malformed m)⟩
    | .ok directive =>
      match directive.apply s with
      | .error e => ⟨reading.events, .error e⟩
      | .ok next =>
        let run := ofStatements next rest
        ⟨reading.events ++ directive.events s ++ run.log, run.result⟩

def Run.ofTree (root : Tree) : Run :=
  match Definition.schemaStatements root with
  | .error m => ⟨[], .error (.malformed m)⟩
  | .ok statements => .ofStatements {} statements

end Extraction

def Schema.ofTree (root : Tree) : Except Extraction.Error Schema :=
  (Extraction.Run.ofTree root).result

end TableGraph
