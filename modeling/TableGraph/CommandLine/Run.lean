import TableGraph.CommandLine.Options
import TableGraph.Pipeline

namespace TableGraph.CommandLine

inductive Event
  | dumping (program path : String)
  | extraction (e : Extraction.Event)
  | extracted (tables : Nat)
  | writing (path : String)
  deriving DecidableEq

inductive Level
  | trace
  | debug
  | info
  | warning
  deriving DecidableEq

def Level.rank : Level → Nat
  | .trace => 0
  | .debug => 1
  | .info => 2
  | .warning => 3

namespace Event

def level : Event → Level
  | .extraction e =>
    match e.level with
    | .trace => .trace
    | .debug => .debug
  | .extracted _ => .info
  | .dumping _ _ | .writing _ => .debug

def message : Event → String
  | .dumping _ _ => "running Ripper"
  | .extraction e => e.message
  | .extracted _ => "extracted schema"
  | .writing _ => "writing diagram"

def fields : Event → List (String × Extraction.FieldValue)
  | .dumping program path => [("ruby", .text program), ("path", .text path)]
  | .extraction e => e.fields
  | .extracted tables => [("tables", .number tables)]
  | .writing path => [("path", .text path)]

end Event

structure Host (m : Type → Type) where
  input : m (Except Fault (List UInt8))
  load (path : String) : m (Except Fault (List UInt8))
  save (path text : String) : m (Except Fault Unit)
  execute (program : String) (arguments : List String) : m (Except Fault Interpreter.Output)
  putStdout (text : String) : m Unit
  putStderr (text : String) : m Unit
  log (e : Event) : m Unit
  /-- The events that the environment asks for, if it asks for any. -/
  filter? : Option (Event → Bool) := none

inductive Error
  | notRead (path : String) (fault : Fault)
  | notWritten (path : String) (fault : Fault)
  | failure (e : Failure)
  deriving DecidableEq

def Error.message [Text.Printing] : Error → String
  | .notRead path fault => "Failed to read " ++ path ++ ": " ++ fault.message
  | .notWritten path fault => "Failed to write " ++ path ++ ": " ++ fault.message
  | .failure e => e.message

def textOf (path : String) : Except Fault (List UInt8) → Except Error String
  | .error fault => .error (.notRead path fault)
  | .ok bytes =>
    match Utf8.decode? bytes with
    | some text => .ok (.ofList text)
    | none => .error (.notRead path .notUtf8)

variable {m : Type → Type} [Monad m]

/-- The environment goes before the options. -/
def Host.isLogged (host : Host m) (o : Options) (e : Event) : Bool :=
  match host.filter? with
  | some filter => filter e
  | none => (if o.verbose then Level.debug else .warning).rank ≤ e.level.rank

def Host.report (host : Host m) (o : Options) (e : Event) : m Unit :=
  if host.isLogged o e then host.log e else pure ()

def readDump (host : Host m) (o : Options) : m (Except Error String) := do
  if o.input = "-" then return textOf "stdin" (← host.input)
  else if Interpreter.isSource o.input then
    host.report o (.dumping o.interpreter o.input)
    let output ← host.execute o.interpreter (Interpreter.arguments o.input)
    return (Interpreter.dump o.interpreter output).mapError (.failure ∘ .interpreter)
  else return textOf o.input (← host.load o.input)

def writeDiagram (host : Host m) (o : Options) (diagram : String) : m (Except Error Unit) := do
  match o.output with
  | none =>
    host.putStdout (diagram ++ "\n")
    return .ok ()
  | some path =>
    host.report o (.writing path)
    return (← host.save path (diagram ++ "\n")).mapError (.notWritten path)

def draw (host : Host m) (o : Options) : m (Except Error Unit) := do
  match ← readDump host o with
  | .error e => return .error e
  | .ok dump =>
    match Tree.parse dump with
    | .error e => return .error (.failure (.dump e))
    | .ok root =>
      let run := Extraction.Run.ofTree root
      run.log.forM fun e => host.report o (.extraction e)
      match run.result with
      | .error e => return .error (.failure (.schema e))
      | .ok s =>
        host.report o (.extracted s.size)
        writeDiagram host o (s.diagram o.direction)

def run [Text.Printing] (host : Host m) (o : Options) : m UInt32 := do
  match ← draw host o with
  | .ok () => return 0
  | .error e =>
    host.putStderr ("Error: " ++ e.message ++ "\n")
    return 1

def name : String := "schemagraph"

def versionText : String := name ++ " 0.1.0\n"

def usage : String := "Usage: " ++ name ++ " [OPTIONS] <INPUT>\n"

def helpText : String :=
  "Render a Rails schema.rb as a Mermaid table dependency graph\n\n" ++ usage ++
  "\nArguments:\n" ++
  "  <INPUT>  schema.rb to run through Ripper, a saved Ripper dump, or `-` for a dump on stdin\n" ++
  "\nOptions:\n" ++
  "  -o, --output <OUTPUT>        Output file (default: stdout)\n" ++
  "  -d, --direction <DIRECTION>  Graph direction: TD, TB, BT, LR, RL [default: TD]\n" ++
  "      --ruby <RUBY>            Ruby interpreter used for .rb input [env: SCHEMAGRAPH_RUBY=] " ++
  "[default: ruby]\n" ++
  "  -v, --verbose                Log extraction steps to stderr\n" ++
  "  -h, --help                   Print help\n" ++
  "  -V, --version                Print version\n"

def start [Text.Printing] (host : Host m) (interpreter : Option String)
    (arguments : List String) : m UInt32 := do
  match Request.ofArguments (interpreter.getD Interpreter.defaultProgram) arguments with
  | .error e =>
    host.putStderr ("error: " ++ e.message ++ "\n\n" ++ usage ++
      "\nFor more information, try '--help'.\n")
    return 2
  | .ok .help =>
    host.putStdout helpText
    return 0
  | .ok .version =>
    host.putStdout versionText
    return 0
  | .ok (.run o) => run host o

end TableGraph.CommandLine
