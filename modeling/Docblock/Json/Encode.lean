import Docblock.Comment.Basic
import Docblock.Json.Basic

/-!
# Comments as JSON

The JSON objects of type expressions and of comments with all their parts. Members are listed in
the order in which they are written; those that are absent are left out where that is said.
-/

set_option autoImplicit false

namespace Docblock

open Json (member member?)

namespace TypeExpr.Node

def object (kind : String) (members : List Member) : Json :=
  .object (member "type" (.string kind.toList) :: members)

mutual

def toJson : Node → Json
  | .name text => object "NameExpression" [member "name" (.string text)]
  | .all => object "AllLiteral" []
  | .nullableLiteral => object "NullableLiteral" []
  | .nonNullableLiteral => object "NonNullableLiteral" []
  | .undefined => object "UndefinedLiteral" []
  | .void => object "VoidLiteral" []
  | .null => object "NullLiteral" []
  | .string value => object "StringLiteralType" [member "value" (.string value)]
  | .number value => object "NumericLiteralType" [member "value" (.number value)]
  | .boolean value => object "BooleanLiteralType" [member "value" (.bool value)]
  | .union elements => object "UnionType" [member "elements" (.array (toJsonAll elements))]
  | .optional expression default =>
      object "OptionalType"
        (member "expression" (toJson expression) :: member? "default" (default.map .string))
  | .nullable expression leading =>
      object "NullableType" [member "expression" (toJson expression), member "prefix" (.bool leading)]
  | .nonNullable expression leading =>
      object "NonNullableType" [member "expression" (toJson expression), member "prefix" (.bool leading)]
  | .rest expression => object "RestType" [member "expression" (toJson expression)]
  | .array elements => object "ArrayType" [member "elements" (.array (toJsonAll elements))]
  | .record fields => object "RecordType" [member "fields" (.array (toJsonFields fields))]
  | .function params result this new =>
      object "FunctionType"
        (member "params" (.array (toJsonAll params)) ::
          member "result" ((toJsonOption result).getD .null) ::
          (member? "this" (toJsonOption this) ++ member? "new" (toJsonOption new)))
  | .parameter text expression =>
      object "ParameterType" [member "name" (.string text), member "expression" (toJson expression)]
  | .application expression applications =>
      object "TypeApplication" [member "expression" (toJson expression),
        member "applications" (.array (toJsonAll applications))]

def toJsonAll : List Node → List Json
  | [] => []
  | node :: nodes => toJson node :: toJsonAll nodes

def toJsonOption : Option Node → Option Json
  | none => none
  | some node => some (toJson node)

def toJsonFields : List Field → List Json
  | [] => []
  | .mk key value :: fields =>
      object "FieldType" [member "key" (.string key), member "value" ((toJsonOption value).getD .null)] ::
        toJsonFields fields

end

end TypeExpr.Node

def Position.toJson (position : Position) : Json :=
  .object [member "line" (.nat position.line), member "column" (.nat position.column)]

def Location.toJson (location : Location) : Json :=
  .object [member "start" location.start.toJson, member "end" location.stop.toJson]

def ExampleKind.name : ExampleKind → Text
  | .fenced => "fenced".toList
  | .javadoc => "javadoc".toList
  | .indented => "indented".toList

def Example.toJson (piece : Example) : Json :=
  .object ([member "type" (.string piece.kind.name), member "language" (.string piece.language),
    member "description" (.string piece.description), member "raw" (.string piece.raw),
    member "val" (.string piece.val)] ++ member? "caption" (piece.caption.map .string) ++
    [member "loc" piece.location.toJson])

def RawTag.toJson (tag : RawTag) : Json :=
  .object [member "type" (.string "tag".toList), member "raw" (.string tag.raw),
    member "key" (.string tag.key), member "val" (.string tag.val), member "loc" tag.location.toJson]

/-- A tag; what it has no default, type or caption for is left out. -/
def Tag.toJson (tag : Tag) : Json :=
  .object ([member "title" (.string tag.title), member "raw" (.string tag.raw),
    member "rawType" (.string tag.rawType), member "name" (.string tag.name),
    member "description" (.string tag.description)] ++
    member? "default" (tag.default.map .string) ++ member? "type" (tag.type.map (·.toJson)) ++
    member? "caption" (tag.caption.map .string))

def InlineTag.toJson (tag : InlineTag) : Json :=
  .object [member "raw" (.string tag.raw), member "name" (.string tag.name),
    member "value" (.string tag.value)]

def Comment.Outline.toJson (outline : Comment.Outline) : Json :=
  .object [member "description" (.string outline.description), member "footer" (.string outline.footer),
    member "examples" (.array (outline.examples.map (·.toJson))),
    member "tags" (.array (outline.tags.map (·.toJson)))]

def Comment.toJson (comment : Comment) : Json :=
  .object [member "description" (.string comment.description), member "footer" (.string comment.footer),
    member "examples" (.array (comment.examples.map (·.toJson))),
    member "tags" (.array (comment.tags.map (·.toJson))),
    member "inlineTags" (.array (comment.inlineTags.map (·.toJson)))]

end Docblock
