import Docblock.Decimal.Notation

/-!
# JSON text

A JSON value, and its text: on one line, or with each member on a line of its own, two spaces
deeper than what holds it.
-/

set_option autoImplicit false

namespace Docblock

mutual

inductive Json where
  | null
  | bool (value : Bool)
  | nat (value : Nat)
  | number (value : Binary64)
  | string (value : Text)
  | array (elements : List Json)
  | object (members : List Member)

inductive Member where
  | mk (key : Text) (value : Json)

end

namespace Json

def member (key : String) (value : Json) : Member :=
  .mk key.toList value

/-- A member that is left out if there is no value. -/
def member? (key : String) : Option Json → List Member
  | some value => [member key value]
  | none => []

/-- Numbers are positional while the exponent of the first digit is in `-5 … 15`, whole numbers end in
`.0`, zero keeps its sign, and a number that is not finite is `null`. -/
def numberNotation : Decimal.Notation where
  lowest := -5
  highest := 15
  pointZero := true
  tie := .even
  signedZero := true
  nan := "null".toList
  infinity := "null".toList
  negativeInfinity := "null".toList

def shortHex (code : Nat) : Text :=
  ['0', '0', Nat.digitChar (code / 16), Nat.digitChar (code % 16)]

def escape (c : Char) : Text :=
  if c = '"' then ['\\', '"']
  else if c = '\\' then ['\\', '\\']
  else if c = '\x08' then ['\\', 'b']
  else if c = '\x0c' then ['\\', 'f']
  else if c = '\n' then ['\\', 'n']
  else if c = '\r' then ['\\', 'r']
  else if c = '\t' then ['\\', 't']
  else if c.toNat < 32 then ['\\', 'u'] ++ shortHex c.toNat
  else [c]

structure Format where
  escape : Char → Text
  number : Binary64 → Text

namespace Format

def standard : Format where
  escape := Json.escape
  number := Decimal.write numberNotation

def quoted (format : Format) (value : Text) : Text :=
  '"' :: value.flatMap format.escape ++ ['"']

mutual

def compact (format : Format) : Json → Text
  | .null => "null".toList
  | .bool value => if value then "true".toList else "false".toList
  | .nat value => Decimal.natText value
  | .number value => format.number value
  | .string value => format.quoted value
  | .array elements => '[' :: Text.join [','] (compactAll format elements) ++ [']']
  | .object members => '{' :: Text.join [','] (compactMembers format members) ++ ['}']

def compactAll (format : Format) : List Json → List Text
  | [] => []
  | value :: rest => compact format value :: compactAll format rest

def compactMembers (format : Format) : List Member → List Text
  | [] => []
  | .mk key value :: rest => (format.quoted key ++ ':' :: compact format value) :: compactMembers format rest

end

/-- What stands between an opening bracket and its closing one: each item on a line of its own, `depth`
levels deep. Without items it is nothing. -/
def onLines (depth : Nat) (items : List Text) : Text :=
  let feed (depth : Nat) := '\n' :: List.replicate (2 * depth) ' '
  if items.isEmpty then []
  else feed (depth + 1) ++ Text.join (',' :: feed (depth + 1)) items ++ feed depth

mutual

def pretty (format : Format) (depth : Nat) : Json → Text
  | .null => "null".toList
  | .bool value => if value then "true".toList else "false".toList
  | .nat value => Decimal.natText value
  | .number value => format.number value
  | .string value => format.quoted value
  | .array elements => '[' :: onLines depth (prettyAll format (depth + 1) elements) ++ [']']
  | .object members => '{' :: onLines depth (prettyMembers format (depth + 1) members) ++ ['}']

def prettyAll (format : Format) (depth : Nat) : List Json → List Text
  | [] => []
  | value :: rest => pretty format depth value :: prettyAll format depth rest

def prettyMembers (format : Format) (depth : Nat) : List Member → List Text
  | [] => []
  | .mk key value :: rest =>
      (format.quoted key ++ ':' :: ' ' :: pretty format depth value) :: prettyMembers format depth rest

end

end Format

def compact (value : Json) : Text :=
  Format.standard.compact value

end Json

end Docblock
