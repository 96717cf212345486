import Docblock.Text.Basic
import Docblock.Binary64.Basic

/-!
# Tokens of type expressions

A place in a source is what remains of the source from there on, so a token knows where it begins
without counting.
-/

set_option autoImplicit false

namespace Docblock.TypeExpr

namespace Token

inductive Kind where
  | leftParen
  | rightParen
  | leftBracket
  | rightBracket
  | leftBrace
  | rightBrace
  | comma
  | colon
  | pipe
  | question
  | bang
  | equal
  | star
  | less
  | greater
  /-- `.<`, which opens type arguments as `<` does. -/
  | dotLess
  | ellipsis
  | name (name : Text)
  | string (value : Text)
  | number (value : Binary64)
  | eof
  deriving DecidableEq

def Kind.describe : Kind → Text
  | .leftParen => "`(`".toList
  | .rightParen => "`)`".toList
  | .leftBracket => "`[`".toList
  | .rightBracket => "`]`".toList
  | .leftBrace => "`\x7b`".toList
  | .rightBrace => "`\x7d`".toList
  | .comma => "`,`".toList
  | .colon => "`:`".toList
  | .pipe => "`|`".toList
  | .question => "`?`".toList
  | .bang => "`!`".toList
  | .equal => "`=`".toList
  | .star => "`*`".toList
  | .less => "`<`".toList
  | .greater => "`>`".toList
  | .dotLess => "`.<`".toList
  | .ellipsis => "`...`".toList
  | .name text => "name `".toList ++ text ++ ['`']
  | .string _ => "string literal".toList
  | .number _ => "number".toList
  | .eof => "end of input".toList

def Kind.ofChar? : Char → Option Kind
  | '(' => some .leftParen
  | ')' => some .rightParen
  | '[' => some .leftBracket
  | ']' => some .rightBracket
  | '{' => some .leftBrace
  | '}' => some .rightBrace
  | ',' => some .comma
  | ':' => some .colon
  | '|' => some .pipe
  | '?' => some .question
  | '!' => some .bang
  | '=' => some .equal
  | '*' => some .star
  | '<' => some .less
  | '>' => some .greater
  | _ => none

end Token

structure Token where
  kind : Token.Kind
  place : Text

inductive Delimiter where
  | paren
  | brace
  | bracket
  | angle
  deriving DecidableEq

namespace Delimiter

def closing : Delimiter → Token.Kind
  | .paren => .rightParen
  | .brace => .rightBrace
  | .bracket => .rightBracket
  | .angle => .greater

def symbol : Delimiter → Char
  | .paren => '('
  | .brace => '{'
  | .bracket => '['
  | .angle => '<'

end Delimiter

end Docblock.TypeExpr
