import BatchCodec.Decimal.Binary
/-!
The shortest decimal that reads back as the same floating point number.

All reals in an interval around m · 2^q are read as that number; the ends belong to it when m is even.
Of the decimals with 1, 2, … 17 digits the first that lies in the interval is taken: the neighbour of
the number on that grid that is nearer to it, the even one of two equally near.
-/

namespace BatchCodec.Decimal

/-- The decimal number `digits` · 10^`exponent`. -/
structure Scientific where
  digits : Nat
  exponent : Int
  deriving DecidableEq, Repr

/-- The interval of the reals read as one number: the number and both ends, over one denominator. -/
structure Interval where
  value : Nat
  low : Nat
  high : Nat
  den : Nat
  /-- Whether the ends belong to the interval. -/
  closed : Bool
  deriving Repr

/-- The interval around m · 2^q. Below a power of two the numbers lie twice as close. -/
def Interval.around (m : Nat) (q : Int) : Interval :=
  let unit := Nat.pow 2 q.toNat
  let value := 4 * (m * unit)
  let narrow := m == Binary.hiddenBit && Binary.leastExponent < q
  { value := value
    low := value - (if narrow then unit else 2 * unit)
    high := value + 2 * unit
    den := 4 * Nat.pow 2 (-q).toNat
    closed := m % 2 == 0 }

/-- How many zeros stand between the decimal point and the first digit of `num / den`, which is less
than one; at most `limit` are counted. -/
def leadingZeros : Nat → Nat → Nat → Nat
  | 0, _, _ => 0
  | limit + 1, num, den => if den ≤ num * 10 then 0 else leadingZeros limit (num * 10) den + 1

/-- The power of ten directly above `num / den`: the number of digits before the decimal point, or
minus the number of zeros behind it. -/
def magnitude (num den : Nat) : Int :=
  if den ≤ num then (Nat.toDigits 10 (num / den)).length
  else -(leadingZeros (Nat.log2 den + 1) num den : Int)

/-- Whether `c · b / a` lies in the interval, all over the denominator. -/
def Interval.holds (i : Interval) (a b c : Nat) : Bool :=
  if i.closed then i.low * a ≤ c * b && c * b ≤ i.high * a
  else i.low * a < c * b && c * b < i.high * a

/-- The better of the two neighbours of the number on the grid of multiples of 10^k, if one of them
lies in the interval. -/
def Interval.onGrid? (i : Interval) (k : Int) : Option Scientific :=
  let a := Nat.pow 10 (-k).toNat
  let b := i.den * Nat.pow 10 k.toNat
  let down := i.value * a / b
  let rest := 2 * (i.value * a % b)
  let downIsNearer := rest < b || (rest == b && down % 2 == 0)
  match i.holds a b down, i.holds a b (down + 1) with
  | true, true => some ⟨if downIsNearer then down else down + 1, k⟩
  | true, false => some ⟨down, k⟩
  | false, true => some ⟨down + 1, k⟩
  | false, false => none

/-- The decimal without zeros at the end of its digits; `limit` of them at most are removed. -/
def Scientific.strip : Nat → Scientific → Scientific
  | 0, d => d
  | limit + 1, d =>
    if d.digits % 10 = 0 ∧ d.digits ≠ 0 then strip limit ⟨d.digits / 10, d.exponent + 1⟩ else d

def shortest (m : Nat) (q : Int) : Scientific :=
  if m = 0 then ⟨0, 0⟩
  else
    let i := Interval.around m q
    let top := magnitude i.value i.den
    match (List.range 17).findSome? fun n => i.onGrid? (top - (n + 1 : Nat)) with
    | some d => d.strip 17
    | none => ⟨0, 0⟩

end BatchCodec.Decimal
