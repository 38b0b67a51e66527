import TableGraph.CommandLine.Run

/-! The command line on this machine. It reads and writes files and starts no other program. -/

namespace TableGraph.CommandLine

def faultOf (e : IO.Error) : Fault :=
  match e with
  | .alreadyExists _ code text => .system text code.toNat
  | .otherError code text => .system text code.toNat
  | .resourceBusy code text => .system text code.toNat
  | .resourceVanished code text => .system text code.toNat
  | .unsupportedOperation code text => .system text code.toNat
  | .hardwareFault code text => .system text code.toNat
  | .unsatisfiedConstraints code text => .system text code.toNat
  | .illegalOperation code text => .system text code.toNat
  | .protocolError code text => .system text code.toNat
  | .timeExpired code text => .system text code.toNat
  | .interrupted _ code text => .system text code.toNat
  | .noFileOrDirectory _ _ _ => .notFound
  | .invalidArgument _ code text => .system text code.toNat
  | .permissionDenied _ _ _ => .permissionDenied
  | .resourceExhausted _ code text => .system text code.toNat
  | .inappropriateType _ code text => .system text code.toNat
  | .noSuchThing _ code text => .system text code.toNat
  | .unexpectedEof => .system "Unexpected end of file" 5
  | .userError text => .system text 5

def attempt (action : IO α) : IO (Except Fault α) := do
  try return .ok (← action)
  catch e => return .error (faultOf e)

partial def readAll (stream : IO.FS.Stream) (seen : ByteArray) : IO ByteArray := do
  let bytes ← stream.read 65536
  if bytes.isEmpty then return seen else readAll stream (seen ++ bytes)

def fieldText : String × Extraction.FieldValue → String
  | (key, .text s) => " " ++ key ++ "=" ++ s
  | (key, .number n) => " " ++ key ++ "=" ++ toString n

def levelText : Level → String
  | .trace => "TRACE "
  | .debug => "DEBUG "
  | .info => "INFO "
  | .warning => "WARN "

def logLine (e : Event) : String :=
  levelText e.level ++ e.message ++ String.join (e.fields.map fieldText) ++ "\n"

/-- What a filter lets through that is a lone level; a filter by target counts as none here. -/
def filterOf? (text : String) : Option (Event → Bool) :=
  let from? (l : Level) : Option (Event → Bool) := some fun e => l.rank ≤ e.level.rank
  match text.toLower with
  | "trace" | "5" => from? .trace
  | "debug" | "4" => from? .debug
  | "info" | "3" => from? .info
  | "warn" | "2" => from? .warning
  | "error" | "1" | "off" | "0" | "" => some fun _ => false
  | _ => none

def machine (filter : Option String) : Host IO where
  input := attempt do return (← readAll (← IO.getStdin) .empty).toList
  load path := attempt do
    let file ← IO.FS.Handle.mk path .read
    return (← file.readBinToEnd).toList
  save path text := attempt (IO.FS.writeFile path text)
  execute _ _ := return .error (.system "Function not implemented" 38)
  putStdout := IO.print
  putStderr := IO.eprint
  log e := IO.eprint (logLine e)
  filter? := filter.bind filterOf?

end TableGraph.CommandLine

def main (arguments : List String) : IO UInt32 := do
  let machine := TableGraph.CommandLine.machine (← IO.getEnv "RUST_LOG")
  TableGraph.CommandLine.start machine (← IO.getEnv "SCHEMAGRAPH_RUBY") arguments
