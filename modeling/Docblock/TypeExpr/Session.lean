import Docblock.TypeExpr.Lexer

/-!
# Reading sessions

A session stands at one token of a source and remembers which delimiters are open around it and
how many type expressions it is nested in. The steps below move it. A step that fails leaves the
session where the failure found it: what was opened stays open.
-/

set_option autoImplicit false

namespace Docblock.TypeExpr

structure Opened where
  delimiter : Delimiter
  place : Text

structure Session where
  token : Token
  ahead : Text
  opened : List Opened
  depth : Nat

def Session.isInside (session : Session) (delimiter : Delimiter) : Bool :=
  session.opened.any (·.delimiter == delimiter)

def Session.start (source : Text) : Except Fault Session :=
  let (first, after) := Lexer.next source
  first.map fun token => ⟨token, after, [], 0⟩

/-- A step of a session: it moves the session, and gives a result or a fault. -/
abbrev Parser (α : Type) := ExceptT Fault (StateM Session) α

namespace Parser

def current : Parser Token.Kind := do
  return (← get).token.kind

def at? (kind : Token.Kind) : Parser Bool := do
  return (← current) == kind

def failHere {α : Type} (cause : Cause) : Parser α := do
  throw ⟨cause, (← get).token.place⟩

/-- Goes on to the next token. After a fault the current token stays the same, but what the fault
was found in has been passed over. -/
def advance : Parser Unit := fun session =>
  match Lexer.next session.ahead with
  | (.ok token, after) => (.ok (), { session with token := token, ahead := after })
  | (.error fault, after) => (.error fault, { session with ahead := after })

def lookAhead : Parser Token.Kind := fun session =>
  ((Lexer.next session.ahead).1.map Token.kind, session)

/-- Fails because of the current token. At the end of input the innermost open delimiter is to
blame, if there is one. -/
def unexpected {α : Type} : Parser α := do
  let session ← get
  if session.token.kind == .eof then
    match session.opened with
    | innermost :: _ => throw ⟨.unterminated innermost.delimiter, innermost.place⟩
    | [] => failHere .unexpectedEnd
  else failHere (.unexpected session.token.kind)

def expect (kind : Token.Kind) : Parser Unit := do
  let found ← current
  if found == kind then advance
  else if found == .eof then unexpected
  else failHere (.expected kind found)

def openWith (delimiter : Delimiter) : Parser Unit := do
  modify fun session =>
    { session with opened := ⟨delimiter, session.token.place⟩ :: session.opened }
  advance

def closeWith (delimiter : Delimiter) : Parser Unit := do
  expect delimiter.closing
  modify fun session => { session with opened := session.opened.tail }

/-- Runs a step one level deeper; whether it fails or not, the level is left again. -/
def nested {α : Type} (step : Parser α) : Parser α := fun session =>
  let (result, after) := step { session with depth := session.depth + 1 }
  (result, { after with depth := after.depth - 1 })

/-- Whether the current token ends a type, so that `?` or `!` before it stands alone. A closing
angle or bracket ends a type only where one is open. -/
def atTypeEnd : Parser Bool := do
  let session ← get
  return match session.token.kind with
    | .comma | .equal | .pipe | .eof | .rightBrace | .rightParen => true
    | .greater => session.isInside .angle
    | .rightBracket => session.isInside .bracket
    | _ => false

end Parser

end Docblock.TypeExpr
