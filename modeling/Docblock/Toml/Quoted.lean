import Docblock.Decimal.Read

/-!
# Quoted strings of TOML

Strings in double quotes have escapes, those in single quotes have none; in three quotes both kinds
run over several lines. The functions begin behind the opening quotes and give the string and what
follows the closing ones.
-/

set_option autoImplicit false

namespace Docblock.Toml.Quoted

def isPlain (c : Char) : Bool :=
  c == '\t' || (' ' ≤ c && c != '\x7f')

def escaped? : Char → Option Char
  | 'b' => some '\x08'
  | 'f' => some '\x0c'
  | 'n' => some '\n'
  | 'r' => some '\r'
  | 't' => some '\t'
  | '"' => some '"'
  | '\\' => some '\\'
  | _ => none

/-- The character with the given code in hexadecimal digits. Halves of surrogate pairs are none. -/
def coded? (digits : Text) : Option Char :=
  (digits.mapM (Decimal.digitValue? 16)).bind fun values =>
    let code := values.foldl (fun n value => 16 * n + value) 0
    if code.isValidChar then some (Char.ofNat code) else none

def prepend (c : Char) (read : Option (Text × Text)) : Option (Text × Text) :=
  read.map fun result => (c :: result.1, result.2)

def basic : Text → Option (Text × Text)
  | [] => none
  | '"' :: rest => some ([], rest)
  | '\\' :: 'u' :: a :: b :: c :: d :: rest =>
      (coded? [a, b, c, d]).bind fun code => prepend code (basic rest)
  | '\\' :: 'U' :: a :: b :: c :: d :: e :: f :: g :: h :: rest =>
      (coded? [a, b, c, d, e, f, g, h]).bind fun code => prepend code (basic rest)
  | '\\' :: c :: rest => (escaped? c).bind fun code => prepend code (basic rest)
  | c :: rest => if isPlain c && c != '\\' then prepend c (basic rest) else none

def literal : Text → Option (Text × Text)
  | [] => none
  | '\'' :: rest => some ([], rest)
  | c :: rest => if isPlain c then prepend c (literal rest) else none

/-- The end of a string in three quotes: up to two quotes behind them are the string's last ones. -/
def finish (quote : Char) (rest : Text) : Text × Text :=
  let more := min 2 (rest.takeWhile (· == quote)).length
  (List.replicate more quote, rest.drop more)

def dropLineEnd : Text → Option Text
  | '\n' :: rest => some rest
  | '\r' :: '\n' :: rest => some rest
  | _ => none

def blankLine (s : Text) : Bool :=
  (dropLineEnd (s.dropWhile fun c => c == ' ' || c == '\t')).isSome

/-- Reads a string up to three double quotes. Behind a backslash at the end of a line, blanks and line
ends are passed over, which `passing` tells. -/
def longBasic (passing : Bool) : Text → Option (Text × Text)
  | [] => none
  | '"' :: '"' :: '"' :: rest => some (finish '"' rest)
  | '\r' :: '\n' :: rest =>
      if passing then longBasic true rest else prepend '\n' (longBasic false rest)
  | '\n' :: rest => if passing then longBasic true rest else prepend '\n' (longBasic false rest)
  | '\\' :: 'u' :: a :: b :: c :: d :: rest =>
      (coded? [a, b, c, d]).bind fun code => prepend code (longBasic false rest)
  | '\\' :: 'U' :: a :: b :: c :: d :: e :: f :: g :: h :: rest =>
      (coded? [a, b, c, d, e, f, g, h]).bind fun code => prepend code (longBasic false rest)
  | '\\' :: c :: rest =>
      if blankLine (c :: rest) then longBasic true (c :: rest)
      else (escaped? c).bind fun code => prepend code (longBasic false rest)
  | c :: rest =>
      if passing && (c == ' ' || c == '\t') then longBasic true rest
      else if isPlain c && c != '\\' then prepend c (longBasic false rest)
      else none

def longLiteral : Text → Option (Text × Text)
  | [] => none
  | '\'' :: '\'' :: '\'' :: rest => some (finish '\'' rest)
  | '\r' :: '\n' :: rest => prepend '\n' (longLiteral rest)
  | '\n' :: rest => prepend '\n' (longLiteral rest)
  | c :: rest => if isPlain c then prepend c (longLiteral rest) else none

def read : Text → Option (Text × Text)
  | '"' :: '"' :: '"' :: rest => longBasic false ((dropLineEnd rest).getD rest)
  | '\'' :: '\'' :: '\'' :: rest => longLiteral ((dropLineEnd rest).getD rest)
  | '"' :: rest => basic rest
  | '\'' :: rest => literal rest
  | _ => none

end Docblock.Toml.Quoted
