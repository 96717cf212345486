import Docblock.Decimal.Notation
import Docblock.Decimal.Read

/-!
# Numerals

The spellings of numbers in type expressions: hexadecimal after `0x`, octal after a leading zero,
or decimal, each with an optional sign. Numbers are written in one canonical spelling.
-/

set_option autoImplicit false

namespace Docblock.TypeExpr.Numeral

/-- The number with the given digits, each step rounded. -/
def ofDigits (base : Nat) (digits : Text) : Option Binary64 :=
  digits.foldlM
    (fun value c => (Decimal.digitValue? base c).map fun digit => (value.timesNat base).plusNat digit)
    (Binary64.ofMagnitude false 0)

def isOctal : Text → Bool
  | '0' :: first :: more => (first :: more).all (Decimal.isDigitOf 8)
  | _ => false

def readUnsigned (s : Text) : Option Binary64 :=
  match s with
  | '0' :: 'x' :: digits | '0' :: 'X' :: digits =>
      if digits.isEmpty then none else ofDigits 16 digits
  | _ => if isOctal s then ofDigits 8 (s.drop 1) else Decimal.read s

def read (s : Text) : Option Binary64 :=
  let (negative, unsigned) := Decimal.splitSign s
  (readUnsigned unsigned).map fun value => if negative then value.neg else value

/-- Numbers in type expressions are positional from `1e-6` up to below `1e21`, whole numbers have no
fraction, and zero has no sign. -/
def canonical : Decimal.Notation where
  lowest := -6
  highest := 20
  pointZero := false
  tie := .up
  signedZero := false
  nan := "NaN".toList
  infinity := "Infinity".toList
  negativeInfinity := "-Infinity".toList

def write (value : Binary64) : Text :=
  Decimal.write canonical value

end Docblock.TypeExpr.Numeral
