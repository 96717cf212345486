import Docblock.TypeExpr.Node
import Docblock.TypeExpr.Session

/-!
# Productions

One level of the grammar: every production is given the reader of the type expressions nested in
it, so that a property of one level carries over to all of them. From tightest to loosest, the
levels are basic expressions, trailing marks, leading marks and unions. Repetitions are bounded by
`limit`, the number of tokens that are left.
-/

set_option autoImplicit false

namespace Docblock.TypeExpr.Grammar

open Docblock.TypeExpr.Parser

def literal? (name : Text) : Option Node :=
  if name == "null".toList then some .null
  else if name == "undefined".toList then some .undefined
  else if name == "void".toList then some .void
  else if name == "true".toList then some (.boolean true)
  else if name == "false".toList then some (.boolean false)
  else none

section

variable (type : Parser Node)

def moreMembers : Nat → Parser (List Node)
  | 0 => return []
  | limit + 1 => do
      if ← at? .pipe then
        advance
        let member ← type
        return member :: (← moreMembers limit)
      else return []

def union (limit : Nat) : Parser Node := do
  let first ← type
  if ← at? .pipe then return .union (first :: (← moreMembers type limit))
  else return first

def members : Nat → Parser (List Node)
  | 0 => return []
  | limit + 1 => do
      let member ← type
      if ← at? .rightParen then return [member]
      else
        expect .pipe
        return member :: (← members limit)

def parenthesized (limit : Nat) : Parser Node := do
  openWith .paren
  let elements ← if ← at? .rightParen then pure [] else members type limit
  closeWith .paren
  return .union elements

def elements : Nat → Parser (List Node)
  | 0 => return []
  | limit + 1 => do
      if ← at? .rightBracket then return []
      else if ← at? .eof then unexpected
      else if ← at? .ellipsis then
        advance
        let element ← type
        if ← at? .comma then advance
        return [.rest element]
      else
        let element ← type
        unless ← at? .rightBracket do expect .comma
        return element :: (← elements limit)

def array (limit : Nat) : Parser Node := do
  openWith .bracket
  let elements ← elements type limit
  closeWith .bracket
  return .array elements

/-- The key of a record entry that a token spells; a number is a key in its canonical spelling. -/
def key? : Token.Kind → Option Text
  | .name name => some name
  | .string value => some value
  | .number value => some (Numeral.write value)
  | _ => none

def field : Parser Field := do
  let found ← current
  match key? found with
  | none => failHere (.expectedKey found)
  | some key =>
      advance
      if ← at? .colon then
        advance
        return .mk key (some (← type))
      else return .mk key none

def fields : Nat → Parser (List Field)
  | 0 => return []
  | limit + 1 => do
      if ← at? .rightBrace then return []
      else if ← at? .eof then unexpected
      else
        let entry ← field type
        unless ← at? .rightBrace do expect .comma
        return entry :: (← fields limit)

/-- `{a: A, b}`; a lone comma makes an empty record too. -/
def record (limit : Nat) : Parser Node := do
  openWith .brace
  let fields ← if ← at? .comma then do advance; pure [] else fields type limit
  closeWith .brace
  return .record fields

def moreArguments (bound : Nat) : Nat → Parser (List Node)
  | 0 => return []
  | limit + 1 => do
      if ← at? .comma then
        advance
        let argument ← union type bound
        return argument :: (← moreArguments bound limit)
      else return []

def named (limit : Nat) (name : Text) : Parser Node := do
  advance
  if (← at? .less) || (← at? .dotLess) then
    openWith .angle
    let first ← union type limit
    let more ← moreArguments type limit limit
    closeWith .angle
    return .application (.name name) (first :: more)
  else return .name name

def beforeColon : Parser Bool := do
  return (← lookAhead) == .colon

/-- The type of `this` or `new` at the beginning of a parameter list, with the comma behind it.
The result tells whether it is the type of `new`. -/
def binding : Parser (Option (Bool × Node)) := do
  let .name name ← current | return none
  let isNew := name == "new".toList
  if isNew || name == "this".toList then
    if ← beforeColon then
      advance
      advance
      let bound ← type
      unless ← at? .rightParen do expect .comma
      return some (isNew, bound)
    else return none
  else return none

def bareParam (limit : Nat) : Parser Node := do
  let .name name ← current | union type limit
  if ← beforeColon then
    advance
    advance
    return .parameter name (← type)
  else union type limit

/-- A parameter: `...` may stand before it and `=` behind it. -/
def param (limit : Nat) : Parser Node := do
  let isRest ← at? .ellipsis
  if isRest then advance
  let bare ← bareParam type limit
  let isOptional ← at? .equal
  if isOptional then advance
  let marked := if isOptional then .optional bare none else bare
  return if isRest then .rest marked else marked

def params (bound : Nat) : Nat → Parser (List Node)
  | 0 => return []
  | limit + 1 => do
      if ← at? .rightParen then return []
      else if ← at? .eof then unexpected
      else
        let first ← param type bound
        unless ← at? .rightParen do expect .comma
        return first :: (← params bound limit)

/-- `function(this:T, a, b=): R` -/
def function (limit : Nat) : Parser Node := do
  advance
  openWith .paren
  let bound? ← binding type
  let params ← params type limit limit
  closeWith .paren
  let result ← if ← at? .colon then do advance; pure (some (← type)) else pure none
  return match bound? with
    | none => .function params result none none
    | some (false, bound) => .function params result (some bound) none
    | some (true, bound) => .function params result none (some bound)

def basic (limit : Nat) : Parser Node := do
  match ← current with
  | .star => advance; return .all
  | .leftParen => parenthesized type limit
  | .leftBracket => array type limit
  | .leftBrace => record type limit
  | .string value => advance; return .string value
  | .number value => advance; return .number value
  | .name name =>
      match literal? name with
      | some literal => advance; return literal
      | none =>
          if name == "function".toList then
            if (← lookAhead) == .leftParen then function type limit else named type limit name
          else named type limit name
  | _ => unexpected

def marks : Nat → Node → Parser Node
  | 0, node => return node
  | limit + 1, node => do
      match ← current with
      | .bang => advance; marks limit (.nonNullable node false)
      | .question => advance; marks limit (.nullable node false)
      | .leftBracket =>
          if (← lookAhead) == .rightBracket then
            advance
            advance
            marks limit (.arrayOf node)
          else return node
      | _ => return node

def postfixed (limit : Nat) : Parser Node := do
  marks limit (← basic type limit)

/-- An expression with or without a leading mark. A mark before the end of a type stands alone. -/
def prefixed (limit : Nat) : Parser Node := do
  match ← current with
  | .question =>
      advance
      if ← atTypeEnd then return .nullableLiteral
      else return .nullable (← postfixed type limit) true
  | .bang =>
      advance
      if ← atTypeEnd then return .nonNullableLiteral
      else return .nonNullable (← postfixed type limit) true
  | _ => postfixed type limit

end

end Docblock.TypeExpr.Grammar
