import TableGraph.Dump.Token
import TableGraph.Text

/-! Quoted text in a dump. It is a sequence of pieces, each a character or, where it is written in
hexadecimal, a byte; bytes without a character between them are decoded together. -/

namespace TableGraph.Dump.Literal

inductive Piece
  | char (c : Char)
  | byte (b : UInt8)
  deriving DecidableEq

/-- The text of the pieces; `run` are the bytes just before them, the last first. -/
def join (run : List UInt8) : List Piece → List Char
  | [] => Utf8.decodeLossy run.reverse
  | .byte b :: ps => join (b :: run) ps
  | .char c :: ps => Utf8.decodeLossy run.reverse ++ c :: join [] ps

def text (ps : List Piece) : List Char := join [] ps

def isHexDigit (c : Char) : Bool :=
  c.isDigit || ('a' ≤ c && c ≤ 'f') || ('A' ≤ c && c ≤ 'F')

def hexDigitValue (c : Char) : Nat :=
  if c.isDigit then c.toNat - '0'.toNat
  else if 'a' ≤ c then c.toNat - 'a'.toNat + 10
  else c.toNat - 'A'.toNat + 10

def hexValue (ds : List Char) : Nat := ds.foldl (fun n d => 16 * n + hexDigitValue d) 0

def takeHex (n : Nat) (cs : List Char) : Except Token.Error (List Char × List Char) :=
  let ds := (cs.take n).takeWhile isHexDigit
  if ds.length = n then .ok (ds, cs.drop n)
  else
    match cs.drop ds.length with
    | [] => .error .unterminatedString
    | c :: _ => .error (.invalidEscape (.ofList (ds ++ [c])))

def takeBraced (cs : List Char) : Except Token.Error (List Char × List Char) :=
  let ds := cs.takeWhile isHexDigit
  match cs.dropWhile isHexDigit with
  | [] => .error .unterminatedString
  | '\x7d' :: rest => .ok (ds, rest)
  | c :: _ => .error (.invalidEscape (.ofList ('u' :: '\x7b' :: (ds ++ [c]))))

def codePoint (n : Nat) : Except Token.Error Piece :=
  if n.isValidChar then .ok (.char (.ofNat n))
  else .error (.invalidEscape (.ofList ('u' :: Nat.toDigits 16 n)))

def bracedCodePoint (ds : List Char) : Except Token.Error Piece :=
  if ds.isEmpty || 0x100000000 ≤ hexValue ds then
    .error (.invalidEscape (.ofList ('u' :: '\x7b' :: (ds ++ ['\x7d']))))
  else codePoint (hexValue ds)

def named (c : Char) : Char :=
  match c with
  | 'n' => '\n'
  | 't' => '\t'
  | 'r' => '\r'
  | 'e' => '\x1b'
  | 'a' => '\x07'
  | 'b' => '\x08'
  | 'f' => '\x0c'
  | 'v' => '\x0b'
  | 's' => ' '
  | '0' => '\x00'
  | c => c

def takeEscape : List Char → Except Token.Error (Piece × List Char)
  | [] => .error .unterminatedString
  | 'x' :: cs => do
    let (ds, rest) ← takeHex 2 cs
    return (.byte (.ofNat (hexValue ds)), rest)
  | 'u' :: '\x7b' :: cs => do
    let (ds, rest) ← takeBraced cs
    return (← bracedCodePoint ds, rest)
  | 'u' :: cs => do
    let (ds, rest) ← takeHex 4 cs
    return (← codePoint (hexValue ds), rest)
  | c :: cs => .ok (.char (named c), cs)

def takePiece : List Char → Except Token.Error (Option Piece × List Char)
  | [] => .error .unterminatedString
  | '"' :: cs => .ok (none, cs)
  | '\\' :: cs => do
    let (p, rest) ← takeEscape cs
    return (some p, rest)
  | c :: cs => .ok (some (.char c), cs)

theorem takeHex_length {n cs ds rest} (h : takeHex n cs = .ok (ds, rest)) :
    rest.length ≤ cs.length := by
  simp only [takeHex] at h
  split at h
  · cases h
    simp
  · split at h <;> cases h

theorem takeBraced_length {cs ds rest} (h : takeBraced cs = .ok (ds, rest)) :
    rest.length ≤ cs.length := by
  have hd := (List.dropWhile_suffix isHexDigit (l := cs)).length_le
  simp only [takeBraced] at h
  split at h
  · cases h
  · next heq =>
    cases h
    simp [heq] at hd
    omega
  · cases h

theorem takeEscape_length {cs p rest} (h : takeEscape cs = .ok (p, rest)) :
    rest.length < cs.length := by
  unfold takeEscape at h
  split at h
  · cases h
  · next cs =>
    cases hx : takeHex 2 cs with
    | error e => simp [hx, bind, Except.bind] at h
    | ok v =>
      have := takeHex_length hx
      simp [hx, bind, Except.bind, pure, Except.pure] at h
      simp [← h.2]
      omega
  · next cs =>
    cases hx : takeBraced cs with
    | error e => simp [hx, bind, Except.bind] at h
    | ok v =>
      have := takeBraced_length hx
      cases hc : bracedCodePoint v.1 <;> simp [hx, hc, bind, Except.bind, pure, Except.pure] at h
      simp [← h.2]
      omega
  · next cs _ =>
    cases hx : takeHex 4 cs with
    | error e => simp [hx, bind, Except.bind] at h
    | ok v =>
      have := takeHex_length hx
      cases hc : codePoint (hexValue v.1) <;>
        simp [hx, hc, bind, Except.bind, pure, Except.pure] at h
      simp [← h.2]
      omega
  · cases h
    simp

theorem takePiece_length {cs p rest} (h : takePiece cs = .ok (p, rest)) :
    rest.length < cs.length := by
  unfold takePiece at h
  split at h
  · cases h
  · cases h
    simp
  · next cs =>
    cases hx : takeEscape cs with
    | error e => simp [hx, bind, Except.bind] at h
    | ok v =>
      have := takeEscape_length hx
      simp [hx, bind, Except.bind, pure, Except.pure] at h
      simp [← h.2]
      omega
  · cases h
    simp

def takePieces (cs : List Char) : Except Token.Error (List Piece × List Char) :=
  match _h : takePiece cs with
  | .error e => .error e
  | .ok (none, rest) => .ok ([], rest)
  | .ok (some p, rest) =>
    match takePieces rest with
    | .error e => .error e
    | .ok (ps, rest) => .ok (p :: ps, rest)
  termination_by cs.length
  decreasing_by exact takePiece_length ‹_›

theorem takePieces_length {cs ps rest} (h : takePieces cs = .ok (ps, rest)) :
    rest.length < cs.length := by
  fun_induction takePieces cs generalizing ps rest with
  | case1 => cases h
  | case2 cs rest' hp =>
    cases h
    exact takePiece_length hp
  | case3 => cases h
  | case4 cs p rest' hp ps' rest'' hr ih =>
    cases h
    have := takePiece_length hp
    have := ih hr
    omega

def takeText (cs : List Char) : Except Token.Error (String × List Char) :=
  (takePieces cs).map fun (ps, rest) => (.ofList (text ps), rest)

end TableGraph.Dump.Literal
