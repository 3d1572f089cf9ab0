import BatchCodec.Decimal.Binary
/-!
Floating point numbers rounded to whole numbers, a half to the even neighbour.
-/

namespace BatchCodec.Decimal

/-- A quotient rounded to the nearest whole number, a half to the even one. -/
def roundHalfEven (num den : Nat) : Nat :=
  let down := num / den
  let twice := 2 * (num % den)
  if twice < den then down
  else if den < twice then down + 1
  else if down % 2 = 0 then down else down + 1

/-- The size of m · 2^q rounded to a whole number. -/
def roundedSize (m : Nat) (q : Int) : Nat :=
  roundHalfEven (m * Nat.pow 2 q.toNat) (Nat.pow 2 (-q).toNat)

/-- A number without decimal places: all digits of the rounded size, behind a minus sign if the
number is negative, even if it rounds to zero. -/
def whole : Binary → String
  | .nan => "NaN"
  | .infinite negative => if negative then "-inf" else "inf"
  | .finite negative m q => (if negative then "-" else "") ++ toString (roundedSize m q)

end BatchCodec.Decimal
