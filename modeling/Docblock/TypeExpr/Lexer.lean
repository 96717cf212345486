import Docblock.TypeExpr.Numeral
import Docblock.TypeExpr.StringLiteral

/-!
# Tokens from text

`next` reads one token. It returns the token or a fault and, in either case, the place where the
next token is looked for.
-/

set_option autoImplicit false

namespace Docblock.TypeExpr.Lexer

def punctuation : Text :=
  ['<', '>', '(', ')', '{', '}', '[', ']', ',', ':', '*', '|', '?', '!', '=', '"', '\'', '`']

def isNameChar (c : Char) : Bool :=
  !Text.isBlank c && !punctuation.contains c

/-- Whether a name ends here: before `.<`, before `...` and before what no name holds. -/
def nameEnds : Text → Bool
  | '.' :: '<' :: _ => true
  | '.' :: '.' :: '.' :: _ => true
  | c :: _ => !isNameChar c
  | [] => true

def spanName : Text → Text × Text
  | [] => ([], [])
  | c :: rest =>
      if nameEnds (c :: rest) then ([], c :: rest)
      else
        let (name, after) := spanName rest
        (c :: name, after)

def quotedName (start rest : Text) : Except Fault Token.Kind × Text :=
  match Text.splitOnce '`' rest with
  | none => (.error ⟨.unterminatedQuotedName, start⟩, [])
  | some (inner, after) =>
      let name := Text.trim inner
      if name.isEmpty then (.error ⟨.emptyQuotedName, start⟩, after) else (.ok (.name name), after)

def spanDigits (base : Nat) (s : Text) : Text × Text :=
  (s.takeWhile (Decimal.isDigitOf base), s.dropWhile (Decimal.isDigitOf base))

def spanSign : Text → Text × Text
  | '-' :: rest => (['-'], rest)
  | '+' :: rest => (['+'], rest)
  | s => ([], s)

/-- The point and the fraction at the beginning of the text; two points are no fraction. -/
def spanFraction : Text → Text × Text
  | '.' :: '.' :: rest => ([], '.' :: '.' :: rest)
  | '.' :: rest =>
      let (digits, after) := spanDigits 10 rest
      ('.' :: digits, after)
  | s => ([], s)

def closeNumber (start raw after : Text) : Except Fault Token.Kind × Text :=
  let runsOn := match after with
    | c :: _ => c != '.' && isNameChar c
    | [] => false
  if runsOn then (.error ⟨.numberRunsOn, start⟩, after)
  else match Numeral.read raw with
    | some value => (.ok (.number value), after)
    | none => (.error ⟨.unreadableNumber raw, start⟩, after)

def exponentPart (start raw : Text) : Text → Except Fault Token.Kind × Text
  | [] => closeNumber start raw []
  | mark :: rest =>
      if mark = 'e' ∨ mark = 'E' then
        let (sign, digits) := spanSign rest
        let (exponent, after) := spanDigits 10 digits
        if exponent.isEmpty then (.error ⟨.noExponentDigits, start⟩, after)
        else closeNumber start (raw ++ mark :: sign ++ exponent) after
      else closeNumber start raw (mark :: rest)

def number (start : Text) : Except Fault Token.Kind × Text :=
  let (sign, unsigned) := spanSign start
  let hexadecimal (mark : Char) (rest : Text) : Except Fault Token.Kind × Text :=
    let (digits, after) := spanDigits 16 rest
    if digits.isEmpty then (.error ⟨.noHexDigits, start⟩, after)
    else closeNumber start (sign ++ '0' :: mark :: digits) after
  match unsigned with
  | '0' :: 'x' :: rest => hexadecimal 'x' rest
  | '0' :: 'X' :: rest => hexadecimal 'X' rest
  | _ =>
      let (whole, afterWhole) := spanDigits 10 unsigned
      let (fraction, afterFraction) := spanFraction afterWhole
      exponentPart start (sign ++ whole ++ fraction) afterFraction

def numberFollows : Text → Bool
  | '.' :: rest => StringLiteral.beginsWithDigit rest
  | s => StringLiteral.beginsWithDigit s

def token (c : Char) (rest : Text) : Except Fault Token.Kind × Text :=
  match Token.Kind.ofChar? c with
  | some kind => (.ok kind, rest)
  | none =>
      if c = '.' then
        match rest with
        | '.' :: '.' :: after => (.ok .ellipsis, after)
        | '<' :: after => (.ok .dotLess, after)
        | _ =>
            if StringLiteral.beginsWithDigit rest then number (c :: rest)
            else (.error ⟨.strayDot, c :: rest⟩, c :: rest)
      else if c = '\'' ∨ c = '"' then
        let (value, after) := StringLiteral.body c (c :: rest) rest
        (value.map .string, after)
      else if c = '`' then quotedName (c :: rest) rest
      else if c.isDigit || ((c == '-' || c == '+') && numberFollows rest) then number (c :: rest)
      else
        let (name, after) := spanName (c :: rest)
        (.ok (.name name), after)

def next (s : Text) : Except Fault Token × Text :=
  match Text.trimStart s with
  | [] => (.ok ⟨.eof, []⟩, [])
  | c :: rest =>
      let (kind, after) := token c rest
      (kind.map fun kind => ⟨kind, c :: rest⟩, after)

/-- Reads `count` times, going on after faults and after the end of input. -/
def nextTimes : Nat → Text → List (Except Fault Token)
  | 0, _ => []
  | count + 1, s =>
      let (result, after) := next s
      result :: nextTimes count after

def isLast : Except Fault Token → Bool
  | .ok token => token.kind == .eof
  | .error _ => true

/-- The results up to the first that is last, at most `count` of them. -/
def upToLast : Nat → Text → List (Except Fault Token)
  | 0, _ => []
  | count + 1, s =>
      let (result, after) := next s
      if isLast result then [result] else result :: upToLast count after

def tokens (s : Text) : List (Except Fault Token) :=
  upToLast (s.length + 1) s

end Docblock.TypeExpr.Lexer
