namespace TableGraph

structure Decimal where
  mantissa : Nat
  exponent : Int
  deriving DecidableEq

namespace Decimal

def digits (d : Decimal) : List Char := Nat.toDigits 10 d.mantissa

def leading (d : Decimal) : Int := d.exponent + d.digits.length - 1

/-- The nearest float. Beyond the first two bounds no digit but the leading power decides. -/
def toFloat (d : Decimal) : Float :=
  if d.mantissa = 0 ∨ d.leading < -330 then 0
  else if d.leading > 310 then .ofBits 0x7FF0000000000000
  else .ofScientific d.mantissa (d.exponent < 0) d.exponent.natAbs

def leastMantissa : Nat := 0x10000000000000

/-- The point of the grid `10 ^ k` that is nearest to `m · 2 ^ q` among those that read back as it;
a tie goes up. All is counted in quarters of `2 ^ q`, as below the least mantissa of a binade the
neighbour is half as far away. -/
def onGrid? (m : Nat) (q k : Int) : Option Nat :=
  let scale := Nat.pow 2 (q - 2).toNat * Nat.pow 10 (-k).toNat
  let step := Nat.pow 2 (2 - q).toNat * Nat.pow 10 k.toNat
  let value := 4 * m * scale
  let least := (4 * m - if m = leastMantissa then 1 else 2) * scale
  let greatest := (4 * m + 2) * scale
  let readsBack (p : Nat) : Bool :=
    if m % 2 = 0 then least ≤ p * step && p * step ≤ greatest
    else least < p * step && p * step < greatest
  let below := value / step
  if readsBack below && (!readsBack (below + 1) || 2 * (value % step) < step) then some below
  else if readsBack (below + 1) then some (below + 1)
  else none

def grids : List Int := (List.range 633).map fun i => 308 - Int.ofNat i

def shortest (m : Nat) (q : Int) : Decimal :=
  (grids.findSome? fun k => (onGrid? m q k).map fun p => ⟨p, k⟩).getD ⟨m, q⟩

structure Layout where
  positional : Int → Bool
  fraction : Bool

def Layout.wholeEnd (l : Layout) : List Char := if l.fraction then ['.', '0'] else []

def Layout.writePositional (l : Layout) (d : Decimal) : List Char :=
  let ds := d.digits
  if 0 ≤ d.exponent then ds ++ List.replicate d.exponent.toNat '0' ++ l.wholeEnd
  else
    let places := d.exponent.natAbs
    if places < ds.length then ds.take (ds.length - places) ++ '.' :: ds.drop (ds.length - places)
    else '0' :: '.' :: (List.replicate (places - ds.length) '0' ++ ds)

def writeInt (n : Int) : List Char :=
  if n < 0 then '-' :: Nat.toDigits 10 n.natAbs else Nat.toDigits 10 n.natAbs

def writeExponential (d : Decimal) : List Char :=
  let power := 'e' :: writeInt d.leading
  match d.digits with
  | first :: [] => first :: power
  | first :: rest => first :: '.' :: (rest ++ power)
  | [] => power

def Layout.write (l : Layout) (d : Decimal) : List Char :=
  if l.positional d.leading then l.writePositional d else writeExponential d

def Layout.writeFloat (l : Layout) (x : Float) : List Char :=
  let bits := x.toBits.toNat
  let field : Nat := bits / leastMantissa % 2048
  let fraction : Nat := bits % leastMantissa
  let sign := if 0x8000000000000000 ≤ bits then ['-'] else []
  if field = 2047 then if fraction = 0 then sign ++ ['i', 'n', 'f'] else ['N', 'a', 'N']
  else if field = 0 ∧ fraction = 0 then sign ++ l.write ⟨0, 0⟩
  else if field = 0 then sign ++ l.write (shortest fraction (-1074))
  else sign ++ l.write (shortest (leastMantissa + fraction) (Int.ofNat field - 1075))

def natural (ds : List Char) : Nat := Nat.ofDigitChars 10 ds 0

def natural? (cs : List Char) : Option Nat :=
  if !cs.isEmpty && cs.all Char.isDigit then some (natural cs) else none

def takeSign : List Char → Bool × List Char
  | '-' :: cs => (true, cs)
  | cs => (false, cs)

def integer? (word : List Char) : Option Int64 :=
  let (negative, cs) := takeSign word
  (natural? cs).bind fun n =>
    let value : Int := if negative then -n else n
    if Int64.minValue.toInt ≤ value ∧ value ≤ Int64.maxValue.toInt then some (.ofInt value)
    else none

def exponent? : List Char → Option Int
  | [] => some 0
  | e :: cs =>
    if e = 'e' ∨ e = 'E' then
      match cs with
      | '-' :: ds => (natural? ds).map fun n => -n
      | '+' :: ds => (natural? ds).map fun n => n
      | ds => (natural? ds).map fun n => n
    else none

/-- Digits with at most one point, on either side of which they may be missing, and an exponent. -/
def decimal? (cs : List Char) : Option Decimal :=
  let whole := cs.takeWhile Char.isDigit
  let rest := cs.dropWhile Char.isDigit
  let (places, rest) :=
    match rest with
    | '.' :: cs => (cs.takeWhile Char.isDigit, cs.dropWhile Char.isDigit)
    | _ => ([], rest)
  if whole.isEmpty && places.isEmpty then none
  else (exponent? rest).map fun e => ⟨natural (whole ++ places), e - places.length⟩

def float? (word : List Char) : Option Float :=
  let (negative, cs) := takeSign word
  (decimal? cs).map fun d => if negative then -d.toFloat else d.toFloat

end Decimal

end TableGraph
