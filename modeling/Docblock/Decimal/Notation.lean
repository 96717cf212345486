import Docblock.Text.Basic
import Docblock.Decimal.Shortest

/-!
# Writing numbers

A `Notation` holds all decisions on how a binary64 number is written: which exponents are written
positionally, how many fraction digits are kept at least, how the sign of zero and the numbers that
are not finite look. `write` follows it; the digits are the shortest ones.
-/

set_option autoImplicit false

namespace Docblock.Decimal

def digitChar (digit : Nat) : Char :=
  Char.ofNat ('0'.toNat + digit)

def natText (n : Nat) : Text :=
  if n = 0 then ['0'] else (digitsOf n).map digitChar

structure Notation where
  lowest : Int
  highest : Int
  /-- Whether a positional whole number is followed by `.0`. -/
  pointZero : Bool
  tie : Tie
  /-- Whether the zero below zero keeps its sign. -/
  signedZero : Bool
  nan : Text
  infinity : Text
  negativeInfinity : Text

/-- `digits * 10 ^ exponent` without an exponent part. -/
def positional (pointZero : Bool) (digits : Text) (exponent : Int) : Text :=
  let fraction := (-exponent).toNat
  if 0 ≤ exponent then
    digits ++ List.replicate exponent.toNat '0' ++ (if pointZero then ['.', '0'] else [])
  else if fraction < digits.length then
    digits.take (digits.length - fraction) ++ '.' :: digits.drop (digits.length - fraction)
  else
    '0' :: '.' :: List.replicate (fraction - digits.length) '0' ++ digits

def scientific (digits : Text) (leading : Int) : Text :=
  let mantissa := match digits with
    | first :: second :: more => first :: '.' :: second :: more
    | short => short
  mantissa ++ 'e' :: (if leading < 0 then '-' else '+') :: natText leading.natAbs

def layout (format : Notation) (x : Decimal) : Text :=
  if format.lowest ≤ x.leading ∧ x.leading ≤ format.highest then
    positional format.pointZero (natText x.digits) x.exponent
  else scientific (natText x.digits) x.leading

def write (format : Notation) : Binary64 → Text
  | .nan => format.nan
  | .infinite negative => if negative then format.negativeInfinity else format.infinity
  | .finite negative magnitude =>
      if magnitude.val = 0 then
        (if negative && format.signedZero then ['-'] else []) ++ positional format.pointZero ['0'] 0
      else
        (if negative then ['-'] else []) ++ layout format (shortest format.tie magnitude)

end Docblock.Decimal
