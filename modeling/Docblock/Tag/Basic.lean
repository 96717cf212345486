import Docblock.Location
import Docblock.TypeExpr.Error
import Docblock.TypeExpr.Node

/-!
# Tags

A raw tag is a `@key val` entry as it stands in a comment; a tag has its body taken apart into
type, name, default and description.
-/

set_option autoImplicit false

namespace Docblock

structure RawTag where
  /-- The whole text, continuation lines included. -/
  raw : Text
  key : Text
  val : Text
  location : Location
  deriving DecidableEq

namespace RawTag

def ofParts (key val : Text) : RawTag where
  raw := if val.isEmpty then '@' :: key else '@' :: key ++ ' ' :: val
  key := key
  val := val
  location := .origin

def same (a b : RawTag) : Bool :=
  a.raw == b.raw && a.key == b.key && a.val == b.val

end RawTag

structure Tag where
  title : Text
  raw : Text
  rawType : Text
  name : Text
  description : Text
  /-- The default value in `[name=value]`. -/
  default : Option Text
  type : Option TypeExpr.Node
  caption : Option Text

namespace Tag

def bare (raw : RawTag) : Tag :=
  ⟨raw.key, raw.raw, [], [], [], none, none, none⟩

/-- Whether two tags agree; numbers in types are compared as numbers. -/
def same (a b : Tag) : Bool :=
  a.title == b.title && a.raw == b.raw && a.rawType == b.rawType && a.name == b.name &&
    a.description == b.description && a.default == b.default &&
    TypeExpr.Node.sameOption a.type b.type && a.caption == b.caption

/-- The tags that name something right behind their type. -/
def naming : List Text :=
  ["alias", "arg", "argument", "borrows", "callback", "class", "const", "constant", "constructor",
   "emits", "event", "external", "fires", "func", "function", "host", "interface", "lends",
   "listens", "member", "memberof", "method", "mixes", "mixin", "module", "name", "namespace",
   "param", "prop", "property", "requires", "template", "typedef", "var"].map String.toList

def takesName (title : Text) : Bool :=
  naming.contains title

inductive Fault where
  | missingOpening
  | closingInName
  | unbalanced (rawType : Text)
  | unterminatedName (partialName : Text)
  deriving DecidableEq

def Fault.message : Fault → Text
  | .missingOpening => "missing opening `\x7b` for type".toList
  | .closingInName => "unexpected `\x7d` in tag name".toList
  | .unbalanced rawType => "unbalanced braces in type `".toList ++ rawType ++ ['`']
  | .unterminatedName partialName =>
      "unterminated optional name `".toList ++ partialName ++ ['`']

end Tag

inductive CommentError where
  | typeError (error : TypeExpr.SyntaxError)
  | malformedTag (raw : Text) (fault : Tag.Fault)
  deriving DecidableEq

def CommentError.message : CommentError → Text
  | .typeError error => "invalid type expression: ".toList ++ error.message
  | .malformedTag raw fault =>
      "malformed tag `".toList ++ raw ++ "`: ".toList ++ fault.message

end Docblock
