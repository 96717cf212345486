import Docblock.Tag.Basic
import Docblock.TypeExpr.Parser

/-!
# Bodies of tags

The body of a tag is an optional type in braces, a name where the tag takes one, and a
description. `split` takes the text apart, `ofRaw` reads the parts.
-/

set_option autoImplicit false

namespace Docblock.Tag

structure Parts where
  rawType : Text
  name : Text
  description : Text
  deriving DecidableEq

/-- The text up to the brace that closes the first one, and what follows it; `open` braces are open
already. -/
def spanBraces (openBraces : Nat) : Text → Option (Text × Text)
  | [] => none
  | c :: rest =>
      if c = '}' ∧ openBraces ≤ 1 then some ([c], rest)
      else
        let openBraces := if c = '{' then openBraces + 1 else if c = '}' then openBraces - 1 else openBraces
        (spanBraces openBraces rest).map fun halves => (c :: halves.1, halves.2)

/-- The text up to the bracket that closes the first one, and what follows it. Brackets between
quotes do not count, and a backslash between quotes hides the character behind it. -/
def spanBrackets (openBrackets : Nat) (quote : Option Char) : Text → Option (Text × Text)
  | [] => none
  | c :: rest =>
      match quote with
      | some mark =>
          if c = '\\' then
            match rest with
            | [] => none
            | hidden :: rest =>
                (spanBrackets openBrackets quote rest).map fun halves =>
                  (c :: hidden :: halves.1, halves.2)
          else
            (spanBrackets openBrackets (if c = mark then none else quote) rest).map fun halves =>
              (c :: halves.1, halves.2)
      | none =>
          if c = ']' ∧ openBrackets ≤ 1 then some ([c], rest)
          else
            let openBrackets :=
              if c = '[' then openBrackets + 1 else if c = ']' then openBrackets - 1 else openBrackets
            let quote := if c = '\'' ∨ c = '"' ∨ c = '`' then some c else none
            (spanBrackets openBrackets quote rest).map fun halves => (c :: halves.1, halves.2)

def splitType (s : Text) : Except Fault (Text × Text) :=
  match s with
  | '{' :: _ =>
      match spanBraces 0 s with
      | some halves => .ok halves
      | none => .error (.unbalanced s)
  | '}' :: _ => .error .missingOpening
  | _ => .ok ([], s)

def splitName (s : Text) : Except Fault (Text × Text) :=
  let s := Text.trimStart s
  match s with
  | '[' :: _ =>
      match spanBrackets 0 none s with
      | none => .error (.unterminatedName (Text.trimEnd s))
      | some halves => .ok halves
  | _ =>
      let name := s.takeWhile (! Text.isBlank ·)
      if name.contains '}' then .error .closingInName
      else .ok (name, s.dropWhile (! Text.isBlank ·))

/-- The description in the text that is left: trimmed, and without two braces at its end. -/
def trimDescription (s : Text) : Text :=
  let trimmed := Text.trim s
  match Text.stripSuffix ['}', '}'] trimmed with
  | some kept => Text.trim kept
  | none => trimmed

/-- Takes the body of a tag apart; a blank body has no parts. -/
def split (named : Bool) (val : Text) : Except Fault (Option Parts) := do
  if Text.isBlankText val then return none
  let (rawType, rest) ← splitType (Text.trimStart val)
  let (name, rest) ← if named then splitName rest else pure ([], rest)
  return some ⟨rawType, name, trimDescription rest⟩

def readName (name : Text) : Text × Option Text × Bool :=
  match (Text.stripPrefix ['['] name).bind (Text.stripSuffix [']']) with
  | some inner =>
      let (name, default) := TypeExpr.splitDefault inner
      (name, default, true)
  | none => (name, none, false)

def innerType (rawType : Text) : Text :=
  ((Text.stripPrefix ['{'] rawType).bind (Text.stripSuffix ['}'])).getD []

/-- Reads the type of a tag. A blank type is none, and an optional name makes the type optional. -/
def readType (isOptional : Bool) (rawType : Text) :
    Except TypeExpr.SyntaxError (Option TypeExpr.Node) := do
  let inner := innerType rawType
  if Text.isBlankText inner then return none
  let node ← TypeExpr.parseType inner
  return some (if isOptional && !node.isOptional then .optional node none else node)

def build (raw : RawTag) (parts : Parts) : Except CommentError Tag := do
  let (name, default, isOptional) := readName parts.name
  let type ← (readType isOptional parts.rawType).mapError .typeError
  return {
    title := raw.key
    raw := raw.raw
    rawType := parts.rawType
    name := name
    description := parts.description
    default := default
    type := type
    caption := none }

/-- Reads a tag; none if it has no body. A malformed body is an error if `strict`, and otherwise
the tag is dropped. A malformed type is an error in any case. -/
def ofRaw (strict named : Bool) (raw : RawTag) : Except CommentError (Option Tag) :=
  match split named raw.val with
  | .ok none => .ok none
  | .ok (some parts) => (build raw parts).map some
  | .error fault => if strict then .error (.malformedTag raw.raw fault) else .ok none

end Docblock.Tag
