import Docblock.Text.Letter
import Docblock.TypeExpr.Grammar

/-!
# Type expressions from text

`typeExpression` closes the levels of the grammar over each other, `maxDepth` deep. `parseType`
reads a whole text; the form `[name=default]` is recognised only there.
-/

set_option autoImplicit false

namespace Docblock.TypeExpr

/-- How many type expressions may be nested in one another. -/
def maxDepth : Nat := 128

namespace Parser

def typeExpression (limit : Nat) : Nat → Parser Node
  | 0 => failHere .nestedTooDeeply
  | room + 1 => nested (Grammar.prefixed (typeExpression limit room) limit)

def optionalUnion (limit room : Nat) : Parser Node := do
  let node ← Grammar.union (typeExpression limit room) limit
  if ← at? .equal then
    advance
    return .optional node none
  else return node

def parseTop : Parser Node := do
  let session ← get
  let limit := session.ahead.length + 2
  let room := maxDepth - session.depth
  if ← at? .ellipsis then
    advance
    return .rest (← optionalUnion limit room)
  else optionalUnion limit room

def finish : Parser Unit := do
  let found ← current
  unless found == .eof do failHere (.trailing found)

def whole : Parser Node := do
  let node ← parseTop
  finish
  return node

end Parser

/-- Whether the text is a name that needs no quotes: a letter, `_` or `$`, and then letters, digits
and `_`, `$`, `.`, `-`. -/
def isBareName : Text → Bool
  | [] => false
  | first :: more =>
      (Text.isAlphabetic first || first == '_' || first == '$') &&
        more.all fun c => Text.isAlphanumeric c || c == '_' || c == '$' || c == '.' || c == '-'

/-- The name and the default of a text in brackets, trimmed; a default that is empty is none. -/
def splitDefault (inner : Text) : Text × Option Text :=
  match Text.splitOnce '=' inner with
  | some (name, default) => (Text.trim name, some (Text.trim default) |>.filter (! ·.isEmpty))
  | none => (Text.trim inner, none)

def optionalName? (source : Text) : Option Node := do
  let opened ← Text.stripPrefix ['['] (Text.trim source)
  let inner ← Text.stripSuffix [']'] opened
  let (name, default) := splitDefault inner
  if isBareName name then some (.optional (.name name) default) else none

def parseType (source : Text) : Except SyntaxError Node :=
  match optionalName? source with
  | some node => .ok node
  | none =>
      match Session.start source with
      | .error fault => .error (fault.tell source)
      | .ok session =>
          match (Parser.whole.run session).1 with
          | .ok node => .ok node
          | .error fault => .error (fault.tell source)

end Docblock.TypeExpr
