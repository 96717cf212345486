import Docblock.Binary64.Rounding

/-!
# Decimals

A decimal is `digits * 10 ^ exponent`. It denotes the nearest binary64 number.
-/

set_option autoImplicit false

namespace Docblock

/-- The non-negative decimal `digits * 10 ^ exponent`. -/
structure Decimal where
  digits : Nat
  exponent : Int
  deriving DecidableEq, Repr

namespace Decimal

def lastDigitsFirst (n : Nat) : List Nat :=
  if n = 0 then [] else n % 10 :: lastDigitsFirst (n / 10)
termination_by n

def digitsOf (n : Nat) : List Nat :=
  (lastDigitsFirst n).reverse

/-- The exponent of the first digit: `x` lies in `[10 ^ e, 10 ^ (e + 1))` for this `e`. -/
def leading (x : Decimal) : Int :=
  x.exponent + (digitsOf x.digits).length - 1

/-- The nearest binary64 number. Decimals from 10³¹⁰ on are infinite and those below 10⁻³³⁰ are
zero whatever their digits, so that no power of ten of an unbounded exponent is formed. -/
def toBinary64 (negative : Bool) (x : Decimal) : Binary64 :=
  if x.digits = 0 then Binary64.ofMagnitude negative 0
  else if 310 ≤ x.leading then .infinite negative
  else if x.leading < -330 then Binary64.ofMagnitude negative 0
  else Binary64.ofRatio negative (x.digits * Nat.pow 10 x.exponent.toNat) (Nat.pow 10 (-x.exponent).toNat)

end Decimal

end Docblock
