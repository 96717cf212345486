import Docblock.Script.Reader

/-!
# Types in scripts

The constructs of types, and of what goes with them: type parameters, type arguments, annotations and
the members of object types.
-/

set_option autoImplicit false

namespace Docblock.Script.Grammar

open Reader

section

variable (sub : Goal → Reader)

def memberName : Reader :=
  oneOf [anyName, literal, node (seq [mark "[", sub .assignment, mark "]"])]

def typeArguments : Reader :=
  node (seq [mark "<", commas (sub .type), mark ">"])

def typeParameter : Reader :=
  node (seq [
    many (seq [wordOf false ["const".toList, "in".toList, "out".toList],
      ahead fun t => t.kind == .word && t.text != "extends".toList]),
    anyName,
    opt (node (seq [keyword "extends", sub .type])),
    opt (node (seq [mark "=", sub .type]))])

def typeParameters : Reader :=
  node (seq [mark "<", commas (typeParameter sub), mark ">"])

def predicate : Reader :=
  oneOf [
    node (seq [keyword "asserts", sameLine anyName, opt (seq [sameLine (keyword "is"), sub .type])]),
    node (seq [anyName, sameLine (keyword "is"), sub .type])]

def colonType : Reader :=
  node (seq [mark ":", oneOf [predicate sub, sub .type]])

variable (params : Reader)

def functionType : Reader :=
  node (seq [opt (keyword "abstract"), opt (keyword "new"), opt (typeParameters sub), params, mark "=>",
    oneOf [predicate sub, sub .type]])

def tupleMember : Reader :=
  oneOf [
    node (seq [node (seq [mark "...", anyName]), colonType sub]),
    node (seq [mark "...", sub .type]),
    node (seq [anyName, opt (mark "?"), colonType sub]),
    node (seq [sub .type, mark "?"]),
    sub .type]

/-- A list of members in braces follows these words only where they are names. -/
def beforeName : Reader :=
  ahead fun t =>
    !(t.kind == .mark && ['(', '=', ';', ':', '?', '!', ',', '}', '<'].any fun c => t.text == [c])

def modifier : Reader :=
  seq [
    oneOf [
      wordOf true ["public".toList, "private".toList, "protected".toList, "override".toList],
      wordOf false ["static".toList, "readonly".toList, "abstract".toList, "declare".toList,
        "async".toList, "get".toList, "set".toList, "accessor".toList],
      mark "*"],
    beforeName]

/-- A member in brackets: an index, or a mapping over types. -/
def indexMember : Reader :=
  seq [opt (seq [oneOf [mark "-", mark "+"], keyword "readonly"]), mark "[",
    oneOf [seq [anyName, mark ":", sub .type],
      node (seq [anyName, keyword "in", sub .type, opt (seq [keyword "as", sub .type])])],
    mark "]", opt (oneOf [mark "-", mark "+"]), opt (mark "?"), opt (colonType sub)]

def typeMember : Reader :=
  let signature := seq [opt (typeParameters sub), params, opt (colonType sub)]
  oneOf [
    node (seq [keyword "new", signature]),
    node signature,
    node (seq [many modifier, indexMember sub]),
    node (seq [many modifier, memberName sub, opt (mark "?"), signature]),
    node (seq [many modifier, memberName sub, opt (mark "?"), opt (colonType sub)])]

def objectType : Reader :=
  braced (many (oneOf [mark ";", mark ",", typeMember sub params]))

def dottedName : Reader :=
  grow anyName (seq [mark ".", anyName])

def namedType : Reader :=
  grow dottedName (sameLine (typeArguments sub))

def templateType : Reader :=
  node (seq [mark "\x60",
    many (oneOf [chunk, substituted (sub .type)]), mark "\x60"])

def primaryType : Reader :=
  oneOf [
    node (seq [mark "(", sub .type, mark ")"]),
    objectType sub params,
    node (seq [mark "[", opt (commas (tupleMember sub)), mark "]"]),
    literal,
    templateType sub,
    node (seq [mark "-", literal]),
    node (seq [keyword "typeof", grow (oneOf [
        node (seq [keyword "import", mark "(", sub .type, mark ")"]), anyName]) (seq [mark ".", anyName]),
      opt (sameLine (typeArguments sub))]),
    grow (node (seq [keyword "import", mark "(", sub .type, mark ")"]))
      (oneOf [seq [mark ".", anyName], typeArguments sub]),
    namedType sub,
    token true fun t => t.kind == .mark && t.text == ['*']]

def postfixType : Reader :=
  grow (primaryType sub params)
    (sameLine (oneOf [seq [mark "[", mark "]"], seq [mark "[", sub .type, mark "]"]]))

def prefixTypes (limit : Nat) : Reader :=
  match limit with
  | 0 => postfixType sub params
  | limit + 1 => fun tokens =>
      oneOf [
        node (seq [
          keyword "infer", sameLine anyName, opt (seq [keyword "extends", sub .type])]),
        node (seq [
          wordOf false ["keyof".toList, "unique".toList, "readonly".toList],
          sameLine (prefixTypes limit)]),
        postfixType sub params] tokens

def intersectionType : Reader :=
  let operand := prefixTypes sub params 4
  grow (oneOf [node (seq [mark "&", operand]), operand]) (seq [mark "&", operand])

def unionType : Reader :=
  let operand := intersectionType sub params
  grow (oneOf [node (seq [mark "|", operand]), operand]) (seq [mark "|", operand])

def type : Reader :=
  oneOf [
    functionType sub params,
    node (seq [unionType sub params, sameLine (keyword "extends"), unionType sub params, mark "?",
      sub .type, mark ":", sub .type]),
    unionType sub params]

end

end Docblock.Script.Grammar
