import Docblock.Text.Letter
import Docblock.TypeExpr.Node
import Docblock.TypeExpr.Lexer

/-!
# Text from type expressions

`render` writes a type expression in its one canonical spelling. Unions stand in parentheses, so
that they can be nested anywhere, and a list of one element ends in a comma, so that it is not
taken for an optional name.
-/

set_option autoImplicit false

namespace Docblock.TypeExpr

def isIdentifier : Text → Bool
  | [] => false
  | first :: more =>
      (Text.isAlphabetic first || first == '_' || first == '$') &&
        more.all fun c => Text.isAlphanumeric c || c == '_' || c == '$'

/-- Whether the text is read as one name, the text itself, and nothing else. -/
def isPlainName (name : Text) : Bool :=
  match Lexer.next name with
  | (.ok token, after) =>
      token.kind == .name name && (match Lexer.next after with
        | (.ok last, _) => last.kind == .eof
        | _ => false)
  | _ => false

/-- A name, in backticks unless it is read back without them. -/
def nameText (name : Text) : Text :=
  if isPlainName name then name else '`' :: name ++ ['`']

/-- The key of a record entry, quoted unless it is an identifier. -/
def keyText (key : Text) : Text :=
  if isIdentifier key then key else StringLiteral.quote key

namespace Node

def commaBlank : Text := [',', ' ']

mutual

def render : Node → Text
  | .name text => nameText text
  | .all => ['*']
  | .nullableLiteral => ['?']
  | .nonNullableLiteral => ['!']
  | .undefined => "undefined".toList
  | .void => "void".toList
  | .null => "null".toList
  | .string value => StringLiteral.quote value
  | .number value => Numeral.write value
  | .boolean value => if value then "true".toList else "false".toList
  | .union elements => '(' :: Text.join ['|'] (renderAll elements) ++ [')']
  | .optional (.name text) (some default) => '[' :: text ++ '=' :: default ++ [']']
  | .optional expression _ => render expression ++ ['=']
  | .nullable expression leading =>
      if leading then '?' :: render expression else render expression ++ ['?']
  | .nonNullable expression leading =>
      if leading then '!' :: render expression else render expression ++ ['!']
  | .rest expression => "...".toList ++ render expression
  | .array [element] =>
      if element.isRest then '[' :: render element ++ [']'] else '[' :: render element ++ [',', ']']
  | .array elements => '[' :: Text.join commaBlank (renderAll elements) ++ [']']
  | .record fields => '{' :: Text.join commaBlank (renderFields fields) ++ ['}']
  | .function params result this new =>
      let bindings := renderBinding "this:".toList this ++ renderBinding "new:".toList new
      "function(".toList ++ Text.join commaBlank (bindings ++ renderAll params) ++ [')'] ++
        (renderBinding [':', ' '] result).flatten
  | .parameter text expression => text ++ ':' :: ' ' :: render expression
  | .application expression applications =>
      render expression ++ '<' :: Text.join commaBlank (renderAll applications) ++ ['>']

def renderAll : List Node → List Text
  | [] => []
  | node :: nodes => render node :: renderAll nodes

def renderBinding (label : Text) : Option Node → List Text
  | none => []
  | some node => [label ++ render node]

def renderFields : List Field → List Text
  | [] => []
  | .mk key none :: fields => keyText key :: renderFields fields
  | .mk key (some value) :: fields =>
      (keyText key ++ ':' :: ' ' :: render value) :: renderFields fields

end

end Node

end Docblock.TypeExpr
