import Docblock.Text.Basic

/-!
# Spots of a script

What a slash, an angle bracket or a brace begins in a JavaScript or TypeScript source depends on what
stands before it. A spot holds what is known there: whether an operand is expected, what a function
or class would be, and which heads of functions and classes wait for their bodies.
-/

set_option autoImplicit false

namespace Docblock.Script

structure Dialect where
  typed : Bool
  elements : Bool
  deriving DecidableEq

structure Level where
  statements : Bool
  /-- How many question marks wait for their colons. -/
  choices : Nat
  /-- Of the heads of functions and classes that wait for their bodies, the last one first: whether it is
  that of an operand. -/
  heads : List Bool
  deriving DecidableEq

structure Spot where
  operand : Bool
  /-- Whether a function or class that begins here is declared, and no operand. -/
  declares : Bool
  /-- The last token, empty at the beginning. Strings, numbers and regular expressions are told by one
  character; a word behind a point has the point in front. -/
  last : Text
  /-- Whether a type is being read that an operand is taken to be of. -/
  inType : Bool
  level : Level
  deriving DecidableEq

def operandWords : List Text :=
  ["return", "typeof", "instanceof", "in", "new", "delete", "void", "throw", "case", "yield", "await",
   "extends"].map String.toList

def branchWords : List Text :=
  ["else", "do"].map String.toList

def statementWords : List Text :=
  ["if", "while", "for", "with"].map String.toList

def headWords : List Text :=
  ["function", "class"].map String.toList

def bindingWords : List Text :=
  ["const", "let", "var"].map String.toList

def typeWords : List Text :=
  ["as", "satisfies"].map String.toList

def typeMarks : List Text :=
  [".", "|", "&", "]"].map String.toList

def plainTypes : List Text :=
  ["any", "unknown", "never", "object", "string", "number", "bigint", "boolean", "symbol", "void",
   "undefined", "null", "const"].map String.toList

def isPoint (token : Text) : Bool :=
  token == ['.'] || token == ['?', '.']

inductive Bracket where
  | round
  | square
  | curly
  deriving DecidableEq

namespace Bracket

def opening : Bracket → Char
  | round => '('
  | square => '['
  | curly => '{'

def closing : Bracket → Char
  | round => ')'
  | square => ']'
  | curly => '}'

end Bracket

namespace Spot

def inside (opening : Text) (statements : Bool) : Spot :=
  ⟨true, statements, opening, false, ⟨statements, 0, []⟩⟩

def start : Spot :=
  inside [] true

/-- The spot behind a token of an expression, where an operand is expected or not. A function behind a
whole expression begins a statement. -/
def past (spot : Spot) (token : Text) (operand : Bool) : Spot :=
  { spot with
    operand := operand, declares := !operand, last := token
    inType := spot.inType && typeMarks.contains token }

def pastStatement (spot : Spot) (token : Text) : Spot :=
  { spot with operand := true, declares := true, last := token, inType := false }

def pastHead (spot : Spot) (word : Text) : Spot :=
  { spot.past word false with level.heads := (!spot.declares) :: spot.level.heads }

def pastWord (dialect : Dialect) (spot : Spot) (word : Text) : Spot :=
  if isPoint spot.last then { spot.past ('.' :: word) false with inType := spot.inType }
  else if dialect.typed ∧ typeWords.contains word ∧ !spot.operand then
    { spot.past word false with inType := true }
  else if spot.inType then { spot.past word false with inType := !plainTypes.contains word }
  else if headWords.contains word then spot.pastHead word
  else if branchWords.contains word then spot.pastStatement word
  -- a function is what it would be without the word
  else if word = "async".toList then { spot with operand := false, last := word }
  -- `export default` is followed by a declaration or an operand
  else if word = "default".toList then { spot.past word true with declares := true }
  -- in the head of a loop, behind a name
  else if word = "of".toList then
    spot.past word (!spot.operand && !spot.level.statements && !bindingWords.contains spot.last)
  else if word = "await".toList ∧ spot.last = "for".toList then spot.past spot.last false
  else spot.past word (operandWords.contains word)

def pastMark (dialect : Dialect) (spot : Spot) (mark : Text) : Spot :=
  if mark = ['+', '+'] ∨ mark = ['-', '-'] then spot.past mark spot.operand
  else if mark = ['!'] then spot.past mark (spot.operand || !dialect.typed)
  else if mark = [';'] ∧ spot.level.statements then
    { spot.pastStatement mark with level := ⟨true, 0, []⟩ }
  else if mark = ['?'] then { spot.past mark true with level.choices := spot.level.choices + 1 }
  else if mark = [':'] then
    if 0 < spot.level.choices then { spot.past mark true with level.choices := spot.level.choices - 1 }
    else if spot.level.statements ∧ spot.level.heads = [] then spot.pastStatement mark
    else spot.past mark true
  else spot.past mark true

/-- Whether a brace cannot begin an operand: what stands in front is whole, or ends a type. -/
def isWhole (dialect : Dialect) (spot : Spot) : Bool :=
  !spot.operand && !bindingWords.contains spot.last ||
    dialect.typed && (spot.last == ['>'] || spot.last == "void".toList)

def isBlock (dialect : Dialect) (spot : Spot) : Bool :=
  spot.isWhole dialect || spot.operand && spot.declares && spot.last != "default".toList

def holdsStatements (dialect : Dialect) (spot : Spot) : Bracket → Bool
  | .round => false
  | .square => false
  | .curly => spot.isBlock dialect || spot.last == ['=', '>']

def pastBraces (dialect : Dialect) (spot : Spot) : Spot :=
  match spot.level.heads, spot.isWhole dialect with
  | isOperand :: heads, true =>
      let outer := { spot with level.heads := heads }
      if isOperand then outer.past ['}'] false else outer.pastStatement ['}']
  | _, _ => if spot.isBlock dialect then spot.pastStatement ['}'] else spot.past ['}'] false

def pastBracket (dialect : Dialect) (spot : Spot) : Bracket → Spot
  | .round => if statementWords.contains spot.last then spot.pastStatement [')'] else spot.past [')'] false
  | .square => spot.past [']'] false
  | .curly => spot.pastBraces dialect

end Spot

end Docblock.Script
