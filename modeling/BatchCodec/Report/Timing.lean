import BatchCodec.Decimal.Rounded
import BatchCodec.Decimal.Shortest
import BatchCodec.Timestamp
/-!
When a batch started and how long it took, as the reports write it.

The JSON report has the duration with the fewest digits that read back, positionally from 10^-5 up to
10^16 and with an exponent outside; the summary line has it in whole milliseconds.
-/

namespace BatchCodec

/-- The start of a batch and its duration in milliseconds. -/
structure Timing where
  started : Timestamp
  elapsed : Float

namespace Timing

/-- The least power of ten whose multiples are written with an exponent. -/
def upperExponent : Int := 16

/-- The least power of ten whose multiples are written positionally. -/
def lowerExponent : Int := -5

def zeros (n : Nat) : List Char := List.replicate n '0'

/-- Digits with the decimal point behind the first `point` of them; there is always a digit on each
side of it. -/
def positional (digits : List Char) (point : Int) : List Char :=
  if point ≤ 0 then ['0', '.'] ++ zeros (-point).toNat ++ digits
  else if digits.length ≤ point.toNat then digits ++ zeros (point.toNat - digits.length) ++ ['.', '0']
  else digits.take point.toNat ++ '.' :: digits.drop point.toNat

/-- Digits with the decimal point behind the first and a signed exponent. -/
def scientific (digits : List Char) (exponent : Int) : List Char :=
  let mantissa := match digits with
    | [] => []
    | [d] => [d]
    | d :: rest => d :: '.' :: rest
  mantissa ++ 'e' :: (if exponent < 0 then '-' else '+') :: Nat.toDigits 10 exponent.natAbs

def layout (d : Decimal.Scientific) : List Char :=
  let digits := Nat.toDigits 10 d.digits
  let exponent := (digits.length : Int) + d.exponent - 1
  if d.digits = 0 then ['0', '.', '0']
  else if lowerExponent ≤ exponent ∧ exponent < upperExponent then positional digits (exponent + 1)
  else scientific digits exponent

/-- The duration in the JSON report; there is none that is not a number. -/
def elapsedNumber? (t : Timing) : Option String :=
  match Decimal.Binary.ofFloat t.elapsed with
  | .nan => none
  | .infinite _ => none
  | .finite negative m q =>
    some (String.ofList ((if negative then ['-'] else []) ++ layout (Decimal.shortest m q)))

def elapsedWhole (t : Timing) : String :=
  Decimal.whole (Decimal.Binary.ofFloat t.elapsed)

end Timing

end BatchCodec
