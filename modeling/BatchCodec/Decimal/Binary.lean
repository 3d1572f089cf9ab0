/-!
Floating point numbers as a sign, a whole number and a power of two.

A finite number is m · 2^q with m below 2^53; the parts are read off its 64 bits.
-/

namespace BatchCodec.Decimal

/-- A 64-bit floating point number taken apart. -/
inductive Binary where
  | nan
  | infinite (negative : Bool)
  /-- The number m · 2^q, or its negative. -/
  | finite (negative : Bool) (m : Nat) (q : Int)
  deriving DecidableEq, Repr

namespace Binary

def leastExponent : Int := -1074

/-- The least whole number of a number that is not next to zero. -/
def hiddenBit : Nat := Nat.pow 2 52

/-- Takes 64 bits apart: one for the sign, eleven for the power, the rest for the whole number. -/
def ofBits (bits : Nat) : Binary :=
  let negative := bits / Nat.pow 2 63 % 2 == 1
  let power : Nat := bits / Nat.pow 2 52 % Nat.pow 2 11
  let rest : Nat := bits % Nat.pow 2 52
  if power = 2047 then (if rest = 0 then .infinite negative else .nan)
  else if power = 0 then .finite negative rest leastExponent
  else .finite negative (hiddenBit + rest) ((power : Int) - 1075)

def ofFloat (x : Float) : Binary := ofBits x.toBits.toNat

end Binary

end BatchCodec.Decimal
