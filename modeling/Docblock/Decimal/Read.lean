import Docblock.Text.Basic
import Docblock.Decimal.Basic

/-!
# Reading decimals

A decimal text is an optional sign and either a word (`inf`, `infinity`, `nan`, in any case) or
digits with an optional point and an optional exponent; there is a digit before or after the point,
and one in the exponent if it is there.
-/

set_option autoImplicit false

namespace Docblock.Decimal

def digitValue? (base : Nat) (c : Char) : Option Nat :=
  let value? : Option Nat :=
    if c.isDigit then some (c.toNat - '0'.toNat)
    else if 'a' ≤ c ∧ c ≤ 'f' then some (c.toNat - 'a'.toNat + 10)
    else if 'A' ≤ c ∧ c ≤ 'F' then some (c.toNat - 'A'.toNat + 10)
    else none
  value?.filter (· < base)

def isDigitOf (base : Nat) (c : Char) : Bool :=
  (digitValue? base c).isSome

def natOfDigits (digits : Text) : Nat :=
  digits.foldl (fun n c => n * 10 + (c.toNat - '0'.toNat)) 0

def splitSign : Text → Bool × Text
  | '-' :: rest => (true, rest)
  | '+' :: rest => (false, rest)
  | s => (false, s)

/-- The exponent part at the beginning of a text that must hold nothing else; nothing is zero. -/
def readExponent : Text → Option Int
  | [] => some 0
  | mark :: rest =>
      if mark = 'e' ∨ mark = 'E' then
        let (negative, digits) := splitSign rest
        if digits.isEmpty || !digits.all Char.isDigit then none
        else some (if negative then -(natOfDigits digits : Int) else natOfDigits digits)
      else none

def readUnsigned (s : Text) : Option Decimal :=
  let whole := s.takeWhile Char.isDigit
  let rest := s.dropWhile Char.isDigit
  let (fraction, rest) := match rest with
    | '.' :: after => (after.takeWhile Char.isDigit, after.dropWhile Char.isDigit)
    | _ => ([], rest)
  if whole.isEmpty && fraction.isEmpty then none
  else (readExponent rest).map fun exponent =>
    ⟨natOfDigits (whole ++ fraction), exponent - fraction.length⟩

def sameWord (word s : Text) : Bool :=
  word == s.map Char.toLower

def read (s : Text) : Option Binary64 :=
  let (negative, unsigned) := splitSign s
  if sameWord ['i', 'n', 'f'] unsigned || sameWord ['i', 'n', 'f', 'i', 'n', 'i', 't', 'y'] unsigned then
    some (.infinite negative)
  else if sameWord ['n', 'a', 'n'] unsigned then some .nan
  else (readUnsigned unsigned).map (Decimal.toBinary64 negative)

end Docblock.Decimal
