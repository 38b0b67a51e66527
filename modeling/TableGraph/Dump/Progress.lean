import TableGraph.Dump.Tokens

/-! Trees from tokens. What has been read is the value itself, once it is complete, or the arrays
that are still open, the innermost first, each with its items so far, the last first. -/

namespace TableGraph.Dump

inductive Wanted
  | value
  | separator
  | endOfInput
  deriving DecidableEq

def Wanted.text : Wanted → String
  | .value => "value"
  | .separator => "',' or ']'"
  | .endOfInput => "end of input"

inductive Error
  | token (e : Token.Error)
  | unexpected (t : Token) (wanted : Wanted)
  | unexpectedEnd
  /-- The tokens lack the mark of the end. -/
  | exhausted
  deriving DecidableEq

def Error.message [Text.Printing] : Error → String
  | .token e => "Lex error: " ++ e.message
  | .unexpected t wanted => "Unexpected token: " ++ t.describe ++ ", expected " ++ wanted.text
  | .unexpectedEnd | .exhausted => "Unexpected end of input"

inductive Progress
  | before (frames : List (List Tree))
  | after (frame : List Tree) (frames : List (List Tree))
  | complete (value : Tree)

namespace Progress

def place (value : Tree) : List (List Tree) → Progress
  | [] => .complete value
  | frame :: frames => .after (value :: frame) frames

def close (frame : List Tree) (frames : List (List Tree)) : Progress :=
  place (.ofItems frame.reverse) frames

def step : Progress → Token → Except Error Progress
  | .before frames, .openBracket => .ok (.before ([] :: frames))
  | .before (frame :: frames), .closeBracket => .ok (close frame frames)
  | .before _, .eof => .error .unexpectedEnd
  | .before frames, t =>
    match t.atom? with
    | some value => .ok (place value frames)
    | none => .error (.unexpected t .value)
  | .after frame frames, .comma => .ok (.before (frame :: frames))
  | .after frame frames, .closeBracket => .ok (close frame frames)
  | .after _ _, .eof => .error .unexpectedEnd
  | .after _ _, t => .error (.unexpected t .separator)
  | .complete _, t => .error (.unexpected t .endOfInput)

def finish : Progress → List Token → Except Error Tree
  | _, [] => .error .exhausted
  | .complete value, .eof :: _ => .ok value
  | p, t :: ts =>
    match p.step t with
    | .error e => .error e
    | .ok p => p.finish ts

end Progress

def read (ts : List Token) : Except Error Tree := Progress.finish (.before []) ts

end TableGraph.Dump

namespace TableGraph.Tree

def parse (text : String) : Except Dump.Error Tree :=
  match Dump.tokens text.toList with
  | .error e => .error (.token e)
  | .ok ts => Dump.read ts

end TableGraph.Tree
