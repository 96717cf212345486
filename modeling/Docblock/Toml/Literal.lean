import Docblock.Decimal.Read
import Docblock.Toml.Item

/-!
# Literals of TOML

Truth values, numbers, dates and times. A literal is read as a whole: the longest run of the
characters that literals are made of, and a time one space behind a date.
-/

set_option autoImplicit false

namespace Docblock.Toml.Literal

def grouped? (isDigit : Char → Bool) : Text → Option Text
  | [] => none
  | [c] => if isDigit c then some [c] else none
  | c :: '_' :: rest => if isDigit c then (grouped? isDigit rest).map (c :: ·) else none
  | c :: rest => if isDigit c then (grouped? isDigit rest).map (c :: ·) else none

/-- The digits of a whole number, which has no zero in front. -/
def whole? (s : Text) : Option Text :=
  if s.head? = some '0' ∧ 1 < s.length then none else grouped? Char.isDigit s

def greatest : Nat := 9223372036854775807

def inBase? (base : Nat) (s : Text) : Option Int :=
  (grouped? (Decimal.isDigitOf base) s).bind fun digits =>
    let value := digits.foldl (fun n c => n * base + (Decimal.digitValue? base c).getD 0) 0
    if value ≤ greatest then some value else none

/-- An integer. Its least value is one further from zero than its greatest. -/
def integer? : Text → Option Int
  | '0' :: 'x' :: rest => inBase? 16 rest
  | '0' :: 'o' :: rest => inBase? 8 rest
  | '0' :: 'b' :: rest => inBase? 2 rest
  | s =>
      let (negative, unsigned) := Decimal.splitSign s
      (whole? unsigned).bind fun digits =>
        let value := Decimal.natOfDigits digits
        if negative then (if value ≤ greatest + 1 then some (-(value : Int)) else none)
        else if value ≤ greatest then some value else none

def inGroup (c : Char) : Bool :=
  c.isDigit || c == '_'

def isExponent : Text → Bool
  | [] => true
  | mark :: rest =>
      (mark == 'e' || mark == 'E') && (grouped? Char.isDigit (Decimal.splitSign rest).2).isSome

def isFractional (unsigned : Text) : Bool :=
  let whole := unsigned.takeWhile inGroup
  let rest := unsigned.dropWhile inGroup
  (whole? whole).isSome && match rest with
    | [] => false
    | '.' :: fraction =>
        (grouped? Char.isDigit (fraction.takeWhile inGroup)).isSome &&
          isExponent (fraction.dropWhile inGroup)
    | _ => isExponent rest

/-- Whether the text is a number that is not whole. Numbers too great to be finite are none, unless
they are negative. -/
def isReal (s : Text) : Bool :=
  let unsigned := (Decimal.splitSign s).2
  unsigned == "inf".toList || unsigned == "nan".toList ||
    (isFractional unsigned &&
      Decimal.read (s.filter (· != '_')) != some (.infinite false))

def field? (size low high : Nat) (s : Text) : Option Nat :=
  if s.length = size ∧ s.all Char.isDigit then
    let value := Decimal.natOfDigits s
    if low ≤ value ∧ value ≤ high then some value else none
  else none

def daysIn (year month : Nat) : Nat :=
  if month = 2 then
    (if year % 4 = 0 ∧ (year % 100 ≠ 0 ∨ year % 400 = 0) then 29 else 28)
  else if month = 4 ∨ month = 6 ∨ month = 9 ∨ month = 11 then 30
  else 31

def isDate (s : Text) : Bool :=
  (do
    let (year, rest) ← Text.splitOnce '-' s
    let (month, day) ← Text.splitOnce '-' rest
    let year ← field? 4 0 9999 year
    let month ← field? 2 1 12 month
    field? 2 1 (daysIn year month) day).isSome

def isTime (s : Text) : Bool :=
  (do
    let (hour, rest) ← Text.splitOnce ':' s
    let (minute, second) ← Text.splitOnce ':' rest
    let _ ← field? 2 0 23 hour
    let _ ← field? 2 0 59 minute
    match Text.splitOnce '.' second with
    | none => field? 2 0 60 second
    | some (second, fraction) =>
        if fraction.isEmpty || !fraction.all Char.isDigit then none else field? 2 0 60 second).isSome

def isZone : Text → Bool
  | [c] => c == 'Z' || c == 'z'
  | sign :: rest =>
      (sign == '+' || sign == '-') && ((Text.splitOnce ':' rest).bind fun (hour, minute) =>
        (field? 2 0 23 hour).bind fun _ => field? 2 0 59 minute).isSome
  | [] => true

def beginsZone (c : Char) : Bool :=
  c == 'Z' || c == 'z' || c == '+' || c == '-'

def dateSize : Nat := 10

/-- Whether the text is a date, a time or both; a zone needs both. -/
def isMoment (s : Text) : Bool :=
  isDate s || isTime s || (isDate (s.take dateSize) && match s.drop dateSize with
    | mark :: rest =>
        (mark == 'T' || mark == 't' || mark == ' ') && isTime (rest.takeWhile (! beginsZone ·)) &&
          isZone (rest.dropWhile (! beginsZone ·))
    | [] => false)

def read (s : Text) : Option Item :=
  if s = "true".toList then some (.boolean true)
  else if s = "false".toList then some (.boolean false)
  else if isMoment s then some (.moment s)
  else if isReal s then some (.real s)
  else (integer? s).map .integer

def isLiteralChar (c : Char) : Bool :=
  c.isAlphanum || c == '+' || c == '-' || c == '_' || c == '.' || c == ':'

def split (s : Text) : Text × Text :=
  let run := s.takeWhile isLiteralChar
  match s.dropWhile isLiteralChar with
  | ' ' :: c :: rest =>
      if isDate run && c.isDigit then
        (run ++ ' ' :: (c :: rest).takeWhile isLiteralChar, (c :: rest).dropWhile isLiteralChar)
      else (run, ' ' :: c :: rest)
  | rest => (run, rest)

end Docblock.Toml.Literal
