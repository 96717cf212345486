import Docblock.Decimal.Notation
import Docblock.TypeExpr.Token

/-!
# Errors in type expressions

A fault is a cause at a place. Told against its source it becomes a syntax error, which gives the
place as a byte offset together with the text found there.
-/

set_option autoImplicit false

namespace Docblock.TypeExpr

inductive Cause where
  | strayDot
  | emptyQuotedName
  | unterminatedQuotedName
  | noHexDigits
  | noExponentDigits
  | numberRunsOn
  | unreadableNumber (raw : Text)
  | unterminatedString
  | invalidEscape
  | invalidUnicodeEscape
  | unterminated (delimiter : Delimiter)
  | unexpectedEnd
  | unexpected (found : Token.Kind)
  | expected (wanted found : Token.Kind)
  | expectedKey (found : Token.Kind)
  | trailing (found : Token.Kind)
  | nestedTooDeeply
  deriving DecidableEq

def Cause.message : Cause → Text
  | .strayDot => "unexpected `.`".toList
  | .emptyQuotedName => "empty backtick name".toList
  | .unterminatedQuotedName => "unterminated backtick name".toList
  | .noHexDigits => "missing hexadecimal digits".toList
  | .noExponentDigits => "missing exponent digits".toList
  | .numberRunsOn => "invalid numeric literal".toList
  | .unreadableNumber raw => "invalid numeric literal `".toList ++ raw ++ ['`']
  | .unterminatedString => "unterminated string literal".toList
  | .invalidEscape => "invalid escape sequence".toList
  | .invalidUnicodeEscape => "invalid unicode escape".toList
  | .unterminated delimiter => "unterminated `".toList ++ [delimiter.symbol, '`']
  | .unexpectedEnd => "unexpected end of type expression".toList
  | .unexpected found => "unexpected ".toList ++ found.describe
  | .expected wanted found =>
      "expected ".toList ++ wanted.describe ++ " but found ".toList ++ found.describe
  | .expectedKey found => "expected record key but found ".toList ++ found.describe
  | .trailing found => "unexpected ".toList ++ found.describe ++ " after type expression".toList
  | .nestedTooDeeply => "type expression nested too deeply".toList

structure Fault where
  cause : Cause
  place : Text

def offsetIn (source place : Text) : Nat :=
  Text.byteSize source - Text.byteSize place

structure SyntaxError where
  cause : Cause
  offset : Nat
  /-- The text found there, at most 24 characters of it. -/
  fragment : Text
  deriving DecidableEq

namespace SyntaxError

def message (error : SyntaxError) : Text :=
  error.cause.message ++ " at offset ".toList ++ Decimal.natText error.offset ++
    " (near `".toList ++ error.fragment ++ "`)".toList

end SyntaxError

def Fault.tell (source : Text) (fault : Fault) : SyntaxError :=
  ⟨fault.cause, offsetIn source fault.place, fault.place.take 24⟩

end Docblock.TypeExpr
