import Docblock.Text.Basic
import Docblock.Binary64.Basic

/-!
# Type expressions

The tree of a type expression, the name of each kind of node, and structural equality, which
compares numbers as numbers.
-/

set_option autoImplicit false

namespace Docblock.TypeExpr

mutual

inductive Node where
  | name (name : Text)
  | all
  | nullableLiteral
  | nonNullableLiteral
  | undefined
  | void
  | null
  | string (value : Text)
  | number (value : Binary64)
  | boolean (value : Bool)
  /-- `(A|B)` or `A|B`; `()` is the empty union. -/
  | union (elements : List Node)
  /-- `T=`, or the optional name `[name=default]`. -/
  | optional (expression : Node) (default : Option Text)
  /-- `?T` if the mark leads, `T?` otherwise. -/
  | nullable (expression : Node) (leading : Bool)
  /-- `!T` if the mark leads, `T!` otherwise. -/
  | nonNullable (expression : Node) (leading : Bool)
  /-- `...T` -/
  | rest (expression : Node)
  /-- A list in brackets: `[A, B, ...C]`. -/
  | array (elements : List Node)
  /-- `{a: A, b}` -/
  | record (fields : List Field)
  /-- `function(this:T, a, b=): R` -/
  | function (params : List Node) (result this new : Option Node)
  /-- A named parameter of a function: `name: T`. -/
  | parameter (name : Text) (expression : Node)
  /-- `Foo<A, B>`, `Foo.<A>` and `T[]`. -/
  | application (expression : Node) (applications : List Node)

/-- One entry of a record type. A key alone has no value. -/
inductive Field where
  | mk (key : Text) (value : Option Node)

end

namespace Field

def key : Field → Text
  | mk key _ => key

def value : Field → Option Node
  | mk _ value => value

end Field

namespace Node

def arrayOf (element : Node) : Node :=
  .application (.name ['A', 'r', 'r', 'a', 'y']) [element]

def kind : Node → String
  | .name _ => "NameExpression"
  | .all => "AllLiteral"
  | .nullableLiteral => "NullableLiteral"
  | .nonNullableLiteral => "NonNullableLiteral"
  | .undefined => "UndefinedLiteral"
  | .void => "VoidLiteral"
  | .null => "NullLiteral"
  | .string _ => "StringLiteralType"
  | .number _ => "NumericLiteralType"
  | .boolean _ => "BooleanLiteralType"
  | .union _ => "UnionType"
  | .optional _ _ => "OptionalType"
  | .nullable _ _ => "NullableType"
  | .nonNullable _ _ => "NonNullableType"
  | .rest _ => "RestType"
  | .array _ => "ArrayType"
  | .record _ => "RecordType"
  | .function _ _ _ _ => "FunctionType"
  | .parameter _ _ => "ParameterType"
  | .application _ _ => "TypeApplication"

def isOptional : Node → Bool
  | .optional _ _ => true
  | _ => false

def isRest : Node → Bool
  | .rest _ => true
  | _ => false

mutual

def same : Node → Node → Bool
  | .name a, .name b => a == b
  | .all, .all => true
  | .nullableLiteral, .nullableLiteral => true
  | .nonNullableLiteral, .nonNullableLiteral => true
  | .undefined, .undefined => true
  | .void, .void => true
  | .null, .null => true
  | .string a, .string b => a == b
  | .number a, .number b => a.same b
  | .boolean a, .boolean b => a == b
  | .union as, .union bs => sameList as bs
  | .optional a d, .optional b e => same a b && d == e
  | .nullable a p, .nullable b q => same a b && p == q
  | .nonNullable a p, .nonNullable b q => same a b && p == q
  | .rest a, .rest b => same a b
  | .array as, .array bs => sameList as bs
  | .record as, .record bs => sameFields as bs
  | .function as r t n, .function bs q u m =>
      sameList as bs && sameOption r q && sameOption t u && sameOption n m
  | .parameter a x, .parameter b y => a == b && same x y
  | .application a as, .application b bs => same a b && sameList as bs
  | _, _ => false

def sameList : List Node → List Node → Bool
  | [], [] => true
  | a :: as, b :: bs => same a b && sameList as bs
  | _, _ => false

def sameOption : Option Node → Option Node → Bool
  | none, none => true
  | some a, some b => same a b
  | _, _ => false

def sameFields : List Field → List Field → Bool
  | [], [] => true
  | .mk k v :: as, .mk l w :: bs => k == l && sameOption v w && sameFields as bs
  | _, _ => false

end

end Node

end Docblock.TypeExpr
