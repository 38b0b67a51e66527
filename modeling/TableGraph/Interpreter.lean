import TableGraph.Text

namespace TableGraph

inductive Fault
  | system (text : String) (code : Nat)
  | notUtf8
  deriving DecidableEq

namespace Fault

def notFound : Fault := .system "No such file or directory" 2

def permissionDenied : Fault := .system "Permission denied" 13

def notADirectory : Fault := .system "Not a directory" 20

def isADirectory : Fault := .system "Is a directory" 21

def message : Fault → String
  | .system text code => text ++ " (os error " ++ toString code ++ ")"
  | .notUtf8 => "stream did not contain valid UTF-8"

end Fault

end TableGraph

namespace TableGraph.Interpreter

def defaultProgram : String := "ruby"

def script : String := "require 'ripper'; p Ripper.sexp(ARGF.read)"

def arguments (path : String) : List String := ["-e", script, path]

inductive Status
  | exit (code : Nat)
  | signal (number : Nat) (coreDumped : Bool)
  deriving DecidableEq

structure Output where
  status : Status
  stdout : List UInt8
  stderr : List UInt8

def signalName? (number : Nat) : Option String :=
  [(1, "SIGHUP"), (2, "SIGINT"), (3, "SIGQUIT"), (4, "SIGILL"), (5, "SIGTRAP"), (6, "SIGABRT"),
    (7, "SIGBUS"), (8, "SIGFPE"), (9, "SIGKILL"), (10, "SIGUSR1"), (11, "SIGSEGV"),
    (12, "SIGUSR2"), (13, "SIGPIPE"), (14, "SIGALRM"), (15, "SIGTERM"), (16, "SIGSTKFLT"),
    (17, "SIGCHLD"), (18, "SIGCONT"), (19, "SIGSTOP"), (20, "SIGTSTP"), (21, "SIGTTIN"),
    (22, "SIGTTOU"), (23, "SIGURG"), (24, "SIGXCPU"), (25, "SIGXFSZ"), (26, "SIGVTALRM"),
    (27, "SIGPROF"), (28, "SIGWINCH"), (29, "SIGIO"), (30, "SIGPWR"), (31, "SIGSYS")].lookup number

def Status.text : Status → String
  | .exit code => "exit status: " ++ toString code
  | .signal number coreDumped =>
    "signal: " ++ toString number ++
      (match signalName? number with
        | some name => " (" ++ name ++ ")"
        | none => "") ++
      if coreDumped then " (core dumped)" else ""

inductive Error
  | notStarted (program : String) (fault : Fault)
  | failed (program : String) (status : Status) (complaint : String)
  | notUtf8
  deriving DecidableEq

def Error.message : Error → String
  | .notStarted program fault => "Failed to run " ++ program ++ ": " ++ fault.message
  | .failed program status complaint =>
    program ++ " exited with " ++ status.text ++ ": " ++ complaint
  | .notUtf8 => "Ruby output is not UTF-8"

def dump (program : String) : Except Fault Output → Except Error String
  | .error fault => .error (.notStarted program fault)
  | .ok output =>
    if output.status = .exit 0 then
      match Utf8.decode? output.stdout with
      | some text => .ok (.ofList text)
      | none => .error .notUtf8
    else
      let complaint := Text.trim (Utf8.decodeLossy output.stderr)
      .error (.failed program output.status (.ofList complaint))

def pathParts (path : List Char) : List (List Char) :=
  (path.splitOn '/').filter fun part => !part.isEmpty && part ≠ ['.']

/-- The extension of a file name: what follows the last dot, unless nothing stands before that. -/
def extension? (name : List Char) : Option (List Char) :=
  let extension := (name.reverse.takeWhile (· ≠ '.')).reverse
  if name.length ≤ extension.length + 1 then none else some extension

def isSource (path : String) : Bool :=
  match (pathParts path.toList).getLast? with
  | some name => extension? name == some ['r', 'b']
  | none => false

end TableGraph.Interpreter
