import TableGraph.Decimal
import TableGraph.Dump.Literal
import TableGraph.Text

/-! The tokens of a text. Blanks separate them and are needed only after a bare word, which runs up
to a blank, a comma or a bracket. -/

namespace TableGraph.Dump

namespace Token

def isDelimiter (c : Char) : Bool :=
  Text.isBlank c || c == ',' || c == '[' || c == ']'

def takeWord (cs : List Char) : List Char × List Char :=
  (cs.takeWhile (!isDelimiter ·), cs.dropWhile (!isDelimiter ·))

/-- The number that a word spells. Underscores may stand anywhere in it; a point or an exponent
makes it a float. -/
def ofNumber (word : List Char) : Except Error Token :=
  let digits := word.filter (· ≠ '_')
  let number :=
    if digits.any fun c => c == '.' || c == 'e' || c == 'E' then
      (Decimal.float? digits).map Token.float
    else (Decimal.integer? digits).map Token.int
  match number with
  | some t => .ok t
  | none => .error (.invalidNumber (.ofList word))

def ofWord (word : List Char) : Except Error Token :=
  if word = ['n', 'i', 'l'] then .ok .nil
  else if word = ['t', 'r', 'u', 'e'] then .ok (.bool true)
  else if word = ['f', 'a', 'l', 's', 'e'] then .ok (.bool false)
  else .error (.unknownWord (.ofList word))

def takeSymbol : List Char → Except Error (String × List Char)
  | '"' :: cs => Literal.takeText cs
  | '[' :: ']' :: '=' :: cs => .ok ("[]=", cs)
  | '[' :: ']' :: cs => .ok ("[]", cs)
  | '[' :: _ => .error (.unexpectedChar '[')
  | cs =>
    let (word, rest) := takeWord cs
    if word.isEmpty then .error (.unexpectedChar ':') else .ok (.ofList word, rest)

def takeFrom (c : Char) (cs : List Char) : Except Error (Token × List Char) :=
  if c = '[' then .ok (.openBracket, cs)
  else if c = ']' then .ok (.closeBracket, cs)
  else if c = ',' then .ok (.comma, cs)
  else if c = ':' then (takeSymbol cs).map fun (text, rest) => (.symbol text, rest)
  else if c = '"' then (Literal.takeText cs).map fun (text, rest) => (.str text, rest)
  else if c.isDigit || c == '-' then
    let (word, rest) := takeWord cs
    (ofNumber (c :: word)).map fun t => (t, rest)
  else if c.isAlpha then
    let (word, rest) := takeWord cs
    (ofWord (c :: word)).map fun t => (t, rest)
  else .error (.unexpectedChar c)

def take (cs : List Char) : Except Error (Option (Token × List Char)) :=
  match cs.dropWhile Text.isBlank with
  | [] => .ok none
  | c :: cs => (takeFrom c cs).map some

theorem takeWord_length (cs : List Char) : (takeWord cs).2.length ≤ cs.length :=
  (List.dropWhile_suffix _).length_le

theorem takeWord_length_lt {cs : List Char} (h : (takeWord cs).1.isEmpty = false) :
    (takeWord cs).2.length < cs.length := by
  cases cs with
  | nil => simp [takeWord] at h
  | cons c cs =>
    by_cases hc : isDelimiter c
    · simp [takeWord, hc] at h
    · simpa [takeWord, hc] using Nat.lt_succ_of_le (takeWord_length cs)

theorem takeText_length {cs text rest} (h : Literal.takeText cs = .ok (text, rest)) :
    rest.length < cs.length := by
  unfold Literal.takeText at h
  cases hp : Literal.takePieces cs with
  | error e => simp [hp, Except.map] at h
  | ok v =>
    simp only [hp, Except.map, Except.ok.injEq, Prod.mk.injEq] at h
    exact h.2 ▸ Literal.takePieces_length hp

theorem takeSymbol_length {cs text rest} (h : takeSymbol cs = .ok (text, rest)) :
    rest.length < cs.length := by
  unfold takeSymbol at h
  split at h
  · have := takeText_length h
    simp only [List.length_cons]
    omega
  · cases h
    simp only [List.length_cons]
    omega
  · cases h
    simp only [List.length_cons]
    omega
  · cases h
  · simp only at h
    split at h
    · cases h
    · next hw =>
      cases h
      exact takeWord_length_lt (by simpa using hw)

theorem takeFrom_length {c cs t rest} (h : takeFrom c cs = .ok (t, rest)) :
    rest.length ≤ cs.length := by
  unfold takeFrom at h
  split at h
  · cases h
    exact Nat.le_refl _
  split at h
  · cases h
    exact Nat.le_refl _
  split at h
  · cases h
    exact Nat.le_refl _
  split at h
  · cases hs : takeSymbol cs with
    | error e => simp [hs, Except.map] at h
    | ok v =>
      simp only [hs, Except.map, Except.ok.injEq, Prod.mk.injEq] at h
      exact h.2 ▸ Nat.le_of_lt (takeSymbol_length hs)
  split at h
  · cases hs : Literal.takeText cs with
    | error e => simp [hs, Except.map] at h
    | ok v =>
      simp only [hs, Except.map, Except.ok.injEq, Prod.mk.injEq] at h
      exact h.2 ▸ Nat.le_of_lt (takeText_length hs)
  split at h
  · simp only at h
    cases hn : ofNumber (c :: (takeWord cs).1) with
    | error e => simp [hn, Except.map] at h
    | ok v =>
      simp only [hn, Except.map, Except.ok.injEq, Prod.mk.injEq] at h
      exact h.2 ▸ takeWord_length cs
  split at h
  · simp only at h
    cases hn : ofWord (c :: (takeWord cs).1) with
    | error e => simp [hn, Except.map] at h
    | ok v =>
      simp only [hn, Except.map, Except.ok.injEq, Prod.mk.injEq] at h
      exact h.2 ▸ takeWord_length cs
  · cases h

theorem take_length {cs t rest} (h : take cs = .ok (some (t, rest))) :
    rest.length < cs.length := by
  have hd := (List.dropWhile_suffix Text.isBlank (l := cs)).length_le
  unfold take at h
  split at h
  · cases h
  · next c cs' heq =>
    cases hf : takeFrom c cs' with
    | error e => simp [hf, Except.map] at h
    | ok v =>
      simp only [hf, Except.map, Except.ok.injEq, Option.some.injEq] at h
      have := takeFrom_length (h ▸ hf)
      simp only [heq, List.length_cons] at hd
      omega

end Token

def tokens (cs : List Char) : Except Token.Error (List Token) :=
  match _h : Token.take cs with
  | .error e => .error e
  | .ok none => .ok [.eof]
  | .ok (some (t, rest)) =>
    match tokens rest with
    | .error e => .error e
    | .ok ts => .ok (t :: ts)
  termination_by cs.length
  decreasing_by exact Token.take_length ‹_›

end TableGraph.Dump
