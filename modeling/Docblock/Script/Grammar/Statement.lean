import Docblock.Script.Grammar.Expression

/-!
# Statements in scripts

Declarations, classes with their members, imports and exports, and the statements that direct the
flow of control.
-/

set_option autoImplicit false

namespace Docblock.Script.Grammar

open Reader

section

variable (dialect : Dialect) (sub : Goal → Reader)

def parameter (params : Reader) : Reader :=
  let target := oneOf [node (seq [mark "...", pattern dialect sub params]), pattern dialect sub params]
  node (seq [
    many (decorator sub),
    many (seq [
      oneOf [
        wordOf true ["public".toList, "private".toList, "protected".toList, "override".toList],
        keyword "readonly"],
      ahead fun t => t.kind == .word || t.text == ['{'] || t.text == ['[']]),
    target,
    opt (whenTyped dialect (mark "?")),
    opt (whenTyped dialect (colonType sub)),
    opt (seq [mark "=", sub .assignment])])

/-- The parameters of a function, to a depth of nested patterns with functions in their defaults. -/
def parametersTo : Nat → Reader
  | 0, _ => none
  | depth + 1, tokens =>
      node (seq [mark "(", opt (commas (parameter dialect sub (parametersTo depth))), mark ")"]) tokens

def parameters : Reader :=
  parametersTo dialect sub 8

def signature : Reader :=
  callSignature dialect sub (parameters dialect sub)

def heritage : Reader :=
  let extended := node (seq [keyword "extends",
    commas (seq [sub (.binary 13), opt (typeArguments sub)])])
  let implemented := node (seq [keyword "implements", commas (sub .type)])
  if dialect.typed then node (oneOf [seq [extended, opt implemented], implemented])
  else node (seq [keyword "extends", sub (.binary 13)])

def fieldMember : Reader :=
  node (seq [many (decorator sub), many modifier, memberName sub,
    opt (whenTyped dialect (oneOf [mark "?", mark "!"])),
    opt (whenTyped dialect (colonType sub)),
    opt (seq [mark "=", sub .assignment])])

def classMember : Reader :=
  let named := seq [many modifier, memberName sub]
  let method := seq [named, opt (whenTyped dialect (mark "?")), signature dialect sub, block sub]
  oneOf [
    mark ";",
    node (seq [keyword "static", block sub]),
    if dialect.typed then seq [many (decorator sub), node method]
    else node (seq [many (decorator sub), method]),
    whenTyped dialect (oneOf [
      mark ",",
      node (seq [many modifier, indexMember sub]),
      node (seq [named, opt (mark "?"), signature dialect sub])]),
    fieldMember dialect sub]

def classOf : Reader :=
  node (seq [many (decorator sub), opt (keyword "abstract"), keyword "class",
    opt (seq [ahead fun t => t.text != "implements".toList, name]),
    opt (whenTyped dialect (typeParameters sub)), opt (heritage dialect sub),
    braced (many (classMember dialect sub))])

def functionDeclaration : Reader :=
  let head := seq [opt (keyword "async"), keyword "function", opt (mark "*"), opt name,
    signature dialect sub]
  oneOf [node (seq [head, block sub]), whenTyped dialect (node (seq [head, semicolon]))]

def declarator : Reader :=
  node (seq [pattern dialect sub (parameters dialect sub),
    opt (whenTyped dialect (mark "!")),
    opt (whenTyped dialect (colonType sub)), opt (seq [mark "=", sub .assignment])])

def declaring : Reader :=
  wordOf false ["const".toList, "let".toList, "var".toList]

def variableList : Reader :=
  seq [declaring, declarator dialect sub, many (seq [mark ",", declarator dialect sub])]

def typedDeclaration : Reader :=
  let body := objectType sub (parameters dialect sub)
  let enumMember := oneOf [node (seq [memberName sub, mark "=", sub .assignment]), memberName sub]
  oneOf [
    node (seq [keyword "interface", sameLine anyName, opt (typeParameters sub),
      opt (node (seq [keyword "extends", commas (sub .type)])), body]),
    node (seq [keyword "type", sameLine anyName, opt (typeParameters sub), mark "=", sub .type,
      semicolon]),
    node (seq [opt (keyword "const"), keyword "enum", anyName,
      braced (opt (commas enumMember))]),
    node (seq [wordOf false ["namespace".toList, "module".toList],
      sameLine (oneOf [seq [string, opt (block sub)], seq [dottedName, block sub]])]),
    node (seq [keyword "declare", sameLine (oneOf [seq [keyword "global", block sub], sub .statement])])]

def declaration : Reader :=
  oneOf [
    functionDeclaration dialect sub,
    classOf dialect sub,
    whenTyped dialect (typedDeclaration dialect sub),
    node (seq [variableList dialect sub, semicolon])]

def nameList : Reader :=
  let entry := oneOf [
    node (seq [keyword "type", anyName, opt (seq [keyword "as", anyName])]),
    node (seq [oneOf [anyName, string], opt (seq [keyword "as", oneOf [anyName, string]])])]
  braced (opt (commas entry))

def moduleSpecifier : Reader :=
  seq [string,
    opt (node (seq [wordOf false ["with".toList, "assert".toList],
      object dialect sub (parameters dialect sub)]))]

def source : Reader :=
  seq [keyword "from", moduleSpecifier dialect sub]

def exported : Reader :=
  node (seq [many (decorator sub), keyword "export", oneOf [
    seq [keyword "default", oneOf [
      functionDeclaration dialect sub,
      classOf dialect sub,
      whenTyped dialect (typedDeclaration dialect sub),
      seq [sub .expression, semicolon]]],
    seq [opt (keyword "type"), nameList, opt (source dialect sub), semicolon],
    seq [mark "*", source dialect sub, semicolon],
    seq [node (seq [mark "*", keyword "as", oneOf [anyName, string]]), source dialect sub, semicolon],
    seq [mark "=", sub .expression, semicolon],
    seq [keyword "as", keyword "namespace", anyName, semicolon],
    sub .statement]])

def imported : Reader :=
  let star := node (seq [mark "*", keyword "as", anyName])
  let clause := node (oneOf [
    star,
    nameList,
    seq [anyName, opt (seq [mark ",", oneOf [star, nameList]])]])
  node (seq [keyword "import", oneOf [
    seq [moduleSpecifier dialect sub, semicolon],
    seq [clause, source dialect sub, semicolon],
    seq [wordOf false ["type".toList, "typeof".toList], clause, source dialect sub, semicolon],
    seq [opt (keyword "type"),
      node (seq [anyName, mark "=", keyword "require", mark "(", string, mark ")"]), semicolon],
    seq [opt (keyword "type"), anyName, mark "=", dottedName, semicolon]]])

def loopHead : Reader :=
  let target := pattern dialect sub (parameters dialect sub)
  let step := oneOf [node (mark ";"), seq [sub .expression, mark ";"]]
  oneOf [
    seq [opt declaring, oneOf [target, sub (.binary 13)], wordOf false ["of".toList, "in".toList],
      sub .expression],
    seq [oneOf [node (seq [variableList dialect sub, mark ";"]), step], step, opt (sub .expression)]]

def branch : Reader :=
  node (seq [oneOf [seq [keyword "case", sub .expression], keyword "default"], mark ":",
    many (sub .statement)])

def control : Reader :=
  oneOf [
    node (seq [keyword "if", parenthesized sub, sub .statement,
      opt (node (seq [keyword "else", sub .statement]))]),
    node (seq [keyword "for", opt (keyword "await"), mark "(", loopHead dialect sub, mark ")",
      sub .statement]),
    node (seq [keyword "while", parenthesized sub, sub .statement]),
    node (seq [keyword "do", sub .statement, keyword "while", parenthesized sub, semicolon]),
    node (seq [keyword "switch", parenthesized sub,
      braced (many (branch sub))]),
    node (seq [keyword "try", block sub,
      opt (node (seq [keyword "catch",
        opt (seq [mark "(", pattern dialect sub (parameters dialect sub),
          opt (whenTyped dialect (colonType sub)), mark ")"]), block sub])),
      opt (node (seq [keyword "finally", block sub]))]),
    node (seq [keyword "with", parenthesized sub, sub .statement]),
    node (seq [wordOf false ["return".toList, "throw".toList], opt (sameLine (sub .expression)),
      semicolon]),
    node (seq [wordOf false ["break".toList, "continue".toList], opt (sameLine name), semicolon]),
    node (seq [keyword "debugger", semicolon])]

def statement : Reader :=
  oneOf [
    block sub,
    node (mark ";"),
    control dialect sub,
    seq [ahead fun t => t.text == "export".toList || t.text == ['@'], exported dialect sub],
    imported dialect sub,
    declaration dialect sub,
    node (seq [name, mark ":", sub .statement]),
    node (seq [sub .expression, semicolon])]

end

/-- Reads a construct, given the readers of those nested in it. -/
def construct (dialect : Dialect) (sub : Goal → Reader) : Goal → Reader
  | .statement => statement dialect sub
  | .expression => expression sub
  | .assignment => assignment dialect sub (parameters dialect sub)
  | .binary level => binary dialect sub (parameters dialect sub) (classOf dialect sub) level
  | .unary => unary dialect sub (parameters dialect sub) (classOf dialect sub)
  | .element => element sub
  | .type => type sub (parameters dialect sub)

end Docblock.Script.Grammar
