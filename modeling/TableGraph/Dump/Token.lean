import TableGraph.Decimal
import TableGraph.Text
import TableGraph.Tree.Basic

namespace TableGraph.Dump

inductive Token
  | symbol (text : String)
  | str (text : String)
  | int (value : Int64)
  | float (value : Float)
  | bool (value : Bool)
  | nil
  | openBracket
  | closeBracket
  | comma
  | eof
  deriving DecidableEq, Inhabited

namespace Token

def atom? : Token → Option Tree
  | .symbol text => some (.symbol text)
  | .str text => some (.str text)
  | .int value => some (.int value)
  | .float value => some (.float value)
  | .bool value => some (.bool value)
  | .nil => some .nil
  | .openBracket | .closeBracket | .comma | .eof => none

/-- Floats in messages have a point or an exponent; they have an exponent from 10^16 on and below
10^-4. -/
def floatLayout : Decimal.Layout where
  positional power := -4 ≤ power && power < 16
  fraction := true

def describe [Text.Printing] : Token → String
  | .symbol text => "Symbol(" ++ .ofList (Quoted.encode text.toList) ++ ")"
  | .str text => "Str(" ++ .ofList (Quoted.encode text.toList) ++ ")"
  | .int value => "Int(" ++ .ofList (Decimal.writeInt value.toInt) ++ ")"
  | .float value => "Float(" ++ .ofList (floatLayout.writeFloat value) ++ ")"
  | .bool true => "True"
  | .bool false => "False"
  | .nil => "Nil"
  | .openBracket => "LBracket"
  | .closeBracket => "RBracket"
  | .comma => "Comma"
  | .eof => "Eof"

inductive Error
  | unexpectedChar (c : Char)
  | unterminatedString
  /-- The part of the escape sequence that shows the fault, without its backslash. -/
  | invalidEscape (text : String)
  | invalidNumber (word : String)
  | unknownWord (word : String)
  deriving DecidableEq

def Error.message : Error → String
  | .unexpectedChar c => "Unexpected character: " ++ .singleton c
  | .unterminatedString => "Unterminated string"
  | .invalidEscape text => "Invalid escape sequence: \\" ++ text
  | .invalidNumber word => "Invalid number: " ++ word
  | .unknownWord word => "Unknown bare word: " ++ word

end Token

end TableGraph.Dump
