import TableGraph.Diagram
import TableGraph.Interpreter

/-! The arguments of the command line. They are read from left to right, and the first that is
wrong, or asks for help or the version, decides. -/

namespace TableGraph.CommandLine

structure Options where
  input : String
  output : Option String
  direction : Direction
  interpreter : String
  verbose : Bool
  deriving DecidableEq

inductive Request
  | run (o : Options)
  | help
  | version
  deriving DecidableEq

inductive UsageError
  | unknownOption (text : String)
  | unexpectedArgument (text : String)
  | unexpectedValue (option : String)
  | missingValue (option : String)
  | repeated (option : String)
  | invalidDirection (text : String)
  | missingInput
  deriving DecidableEq

def UsageError.message : UsageError → String
  | .unknownOption text | .unexpectedArgument text => "unexpected argument '" ++ text ++ "' found"
  | .unexpectedValue option =>
    "unexpected value for '" ++ option ++ "' found; no more were expected"
  | .missingValue option => "a value is required for '" ++ option ++ "' but none was supplied"
  | .repeated option => "the argument '" ++ option ++ "' cannot be used multiple times"
  | .invalidDirection text =>
    "invalid value '" ++ text ++ "' for '--direction': invalid direction: " ++ text
  | .missingInput => "the following required arguments were not provided: <INPUT>"

inductive Key
  | output
  | direction
  | interpreter
  deriving DecidableEq

def Key.option : Key → String
  | .output => "--output"
  | .direction => "--direction"
  | .interpreter => "--ruby"

structure Settings where
  input : Option String := none
  output : Option String := none
  direction : Option Direction := none
  interpreter : Option String := none
  verbose : Bool := false

namespace Settings

/-- Sets an option. A file needs a name; an interpreter is looked for whatever it is called. -/
def set (s : Settings) (key : Key) (value : String) : Except UsageError Settings :=
  match key with
  | .output =>
    if value.isEmpty then .error (.missingValue key.option)
    else if s.output.isSome then .error (.repeated key.option)
    else .ok { s with output := some value }
  | .direction =>
    match Direction.ofText? value with
    | none => .error (.invalidDirection value)
    | some d =>
      if s.direction.isSome then .error (.repeated key.option)
      else .ok { s with direction := some d }
  | .interpreter =>
    if s.interpreter.isSome then .error (.repeated key.option)
    else .ok { s with interpreter := some value }

def setVerbose (s : Settings) : Except UsageError Settings :=
  if s.verbose then .error (.repeated "--verbose") else .ok { s with verbose := true }

def setInput (s : Settings) (value : String) : Except UsageError Settings :=
  if s.input.isSome then .error (.unexpectedArgument value)
  else if value.isEmpty then .error (.missingValue "<INPUT>")
  else .ok { s with input := some value }

def options (s : Settings) (interpreter : String) : Except UsageError Options :=
  match s.input with
  | none => .error .missingInput
  | some input =>
    .ok {
      input
      output := s.output
      direction := s.direction.getD .topDown
      interpreter := s.interpreter.getD interpreter
      verbose := s.verbose }

end Settings

inductive Step
  | go (s : Settings)
  | await (key : Key) (s : Settings)
  | stop (r : Request)

/-- Reads short options that stand together behind one dash. The rest is the value of the first that
takes one, with or without an equals sign before it. -/
def readShort (s : Settings) : List Char → Except UsageError Step
  | [] => .ok (.go s)
  | 'h' :: _ => .ok (.stop .help)
  | 'V' :: _ => .ok (.stop .version)
  | 'v' :: cs =>
    match s.setVerbose with
    | .error e => .error e
    | .ok s => readShort s cs
  | 'o' :: cs => takeValue .output cs
  | 'd' :: cs => takeValue .direction cs
  | c :: _ => .error (.unknownOption (.ofList ['-', c]))
where
  takeValue (key : Key) : List Char → Except UsageError Step
    | [] => .ok (.await key s)
    | '=' :: value => (s.set key (.ofList value)).map .go
    | value => (s.set key (.ofList value)).map .go

def readLong (s : Settings) (text : List Char) : Except UsageError Step :=
  let name := text.takeWhile (· ≠ '=')
  let value? :=
    match text.dropWhile (· ≠ '=') with
    | '=' :: value => some (String.ofList value)
    | _ => none
  let option := String.ofList ('-' :: '-' :: name)
  let valued (key : Key) : Except UsageError Step :=
    match value? with
    | some value => (s.set key value).map .go
    | none => .ok (.await key s)
  let plain (step : Except UsageError Step) : Except UsageError Step :=
    if value?.isSome then .error (.unexpectedValue option) else step
  if option = Key.output.option then valued .output
  else if option = Key.direction.option then valued .direction
  else if option = Key.interpreter.option then valued .interpreter
  else if option = "--verbose" then plain (s.setVerbose.map .go)
  else if option = "--help" then plain (.ok (.stop .help))
  else if option = "--version" then plain (.ok (.stop .version))
  else .error (.unknownOption option)

def readArgument (s : Settings) (argument : String) : Except UsageError Step :=
  match argument.toList with
  | '-' :: '-' :: text => readLong s text
  | '-' :: c :: cs => readShort s (c :: cs)
  | _ => (s.setInput argument).map .go

def isOption (argument : String) : Bool :=
  match argument.toList with
  | '-' :: _ :: _ => true
  | _ => false

def readInputs (s : Settings) : List String → Except UsageError Settings
  | [] => .ok s
  | argument :: rest =>
    match s.setInput argument with
    | .error e => .error e
    | .ok s => readInputs s rest

def readArguments (interpreter : String) (s : Settings) : List String → Except UsageError Request
  | [] => (s.options interpreter).map .run
  | "--" :: rest =>
    match readInputs s rest with
    | .error e => .error e
    | .ok s => (s.options interpreter).map .run
  | argument :: rest =>
    match readArgument s argument with
    | .error e => .error e
    | .ok (.stop r) => .ok r
    | .ok (.go s) => readArguments interpreter s rest
    | .ok (.await key s) =>
      match rest with
      | [] => .error (.missingValue key.option)
      | value :: rest =>
        if isOption value then .error (.missingValue key.option)
        else
          match s.set key value with
          | .error e => .error e
          | .ok s => readArguments interpreter s rest

def Request.ofArguments (interpreter : String) (arguments : List String) :
    Except UsageError Request :=
  readArguments interpreter {} arguments

end TableGraph.CommandLine
