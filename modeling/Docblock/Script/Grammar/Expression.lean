import Docblock.Script.Grammar.Type

/-!
# Expressions in scripts

Operands, the operators on them, functions, objects, templates and elements. Binary operators have
levels; a higher level binds tighter.
-/

set_option autoImplicit false

namespace Docblock.Script.Grammar

open Reader

def whenTyped (dialect : Dialect) (reader : Reader) : Reader := fun tokens =>
  if dialect.typed then reader tokens else none

/-- A binary operator: its level, whether it groups to the right, and its number of tokens. -/
structure Operator where
  level : Nat
  toRight : Bool
  size : Nat

def operatorLevels : List (Nat × List Text) :=
  [(1, ["??"]), (2, ["||"]), (3, ["&&"]), (4, ["|"]), (5, ["^"]), (6, ["&"]),
   (7, ["==", "!=", "===", "!=="]), (8, ["<", "<="]), (9, ["<<"]), (10, ["+", "-"]),
   (11, ["*", "/", "%"]), (12, ["**"])].map fun row => (row.1, row.2.map String.toList)

/-- The binary operator at the front of the tokens. Closing angle brackets without anything between
them make up one operator. -/
def operator? (dialect : Dialect) : List Token → Option Operator
  | [] => none
  | first :: rest =>
      let isMark (text : Text) (t : Token) := t.kind == .mark && t.tight && t.text == text
      if first.kind == .word then
        if first.text == "instanceof".toList || first.text == "in".toList then some ⟨8, false, 1⟩
        else if dialect.typed && !first.broken &&
            (first.text == "as".toList || first.text == "satisfies".toList) then some ⟨8, false, 1⟩
        else none
      else if first.kind == .mark && first.text == ['>'] then
        let more := (rest.takeWhile (isMark ['>'])).length
        let assigns := ((rest.drop more).head?.map (isMark ['='])).getD false
        if more = 0 then some ⟨8, false, if assigns then 2 else 1⟩
        else if assigns then none
        else some ⟨9, false, more + 1⟩
      else if first.kind == .mark then
        (operatorLevels.find? fun row => row.2.contains first.text).map fun row =>
          ⟨row.1, row.1 == 12, 1⟩
      else none

def assigning : List Text :=
  ["=", "+=", "-=", "*=", "/=", "%=", "**=", "<<=", "&=", "|=", "^=", "&&=", "||=", "??="].map
    String.toList

section

variable (dialect : Dialect) (sub : Goal → Reader)

def assignOperator : Reader :=
  oneOf [
    token false fun t => t.kind == .mark && assigning.contains t.text,
    seq [mark ">", many (token false fun t => t.tight && t.kind == .mark && t.text == ['>']),
      token false fun t => t.tight && t.kind == .mark && t.text == ['=']]]

def spread : Reader :=
  node (seq [mark "...", sub .assignment])

def block : Reader :=
  braced (many (sub .statement))

def array : Reader :=
  node (seq [mark "[", many (oneOf [mark ",", spread sub, sub .assignment]), mark "]"])

def parenthesized : Reader :=
  node (seq [mark "(", sub .expression, mark ")"])

def arguments : Reader :=
  node (seq [mark "(", many (oneOf [mark ",", spread sub, sub .assignment]), mark ")"])

def decorator : Reader :=
  node (seq [mark "@", oneOf [parenthesized sub,
    grow anyName (oneOf [seq [mark ".", anyName], sameLine (arguments sub)])]])

variable (params : Reader)

def callSignature : Reader :=
  seq [opt (whenTyped dialect (typeParameters sub)), params,
    opt (whenTyped dialect (colonType sub))]

def objectMethod : Reader :=
  node (seq [many modifier, memberName sub, callSignature dialect sub params, block sub])

/-- `{ a: 1, b() {}, ...c }`, or the pattern of that form. -/
def object : Reader :=
  braced (
    many (oneOf [
      mark ",",
      spread sub,
      objectMethod dialect sub params,
      node (seq [memberName sub, mark ":", sub .assignment]),
      node (seq [name, mark "=", sub .assignment]),
      name]))

def pattern : Reader :=
  oneOf [object dialect sub params, array sub, name]

def template : Reader :=
  node (seq [mark "\x60",
    many (oneOf [chunk, substituted (sub .expression), substituted (sub .type)]), mark "\x60"])

def tagName : Reader :=
  node (seq [anyName, many (seq [oneOf [mark "-", mark ":", mark "."], anyName])])

def tagPart : Reader :=
  let value := oneOf [string, braced (sub .expression), sub .element]
  oneOf [
    node (seq [tagName, opt (seq [mark "=", value])]),
    braced (oneOf [spread sub, sub .expression])]

def tagContent : Reader :=
  oneOf [chunk, sub .element,
    braced (opt (oneOf [spread sub, sub .expression]))]

/-- An element: one tag that ends itself, or two tags and what stands between them. Only the second
kind can be without a name. -/
def element : Reader :=
  let head := seq [tagName, opt (typeArguments sub), many (tagPart sub)]
  oneOf [
    node (seq [mark "<", head, mark "/", mark ">"]),
    node (seq [
      node (seq [mark "<", opt head, mark ">"]),
      many (tagContent sub),
      node (seq [mark "<", mark "/", opt tagName, mark ">"])])]

def functionExpression : Reader :=
  node (seq [opt (keyword "async"), keyword "function", opt (mark "*"), opt name,
    callSignature dialect sub params, block sub])

variable (classExpression : Reader)

def operand : Reader :=
  oneOf [
    functionExpression dialect sub params,
    classExpression,
    literal,
    template sub,
    parenthesized sub,
    array sub,
    object dialect sub params,
    node (seq [keyword "new", mark ".", anyName]),
    node (seq [keyword "import", mark ".", anyName]),
    token true fun t => t.kind == .word && t.text == "import".toList,
    (fun tokens => if dialect.elements then element sub tokens else none),
    whenTyped dialect (node (seq [typeArguments sub, sub .unary])),
    name]

def memberStep : Reader :=
  oneOf [
    seq [mark ".", anyName],
    seq [mark "[", sub .expression, mark "]"],
    whenTyped dialect (seq [sameLine (mark "!")])]

def construction : Reader :=
  node (seq [keyword "new",
    grow (operand dialect sub params classExpression) (memberStep dialect sub),
    opt (whenTyped dialect (typeArguments sub)), opt (arguments sub)])

def behindOperand : Reader :=
  aheadOrEnd fun t => t.broken ||
    (t.kind == .mark && [")", "]", "\x7d", ";", ",", ":", ".", "?."].any fun s => t.text == s.toList)

def called : Reader :=
  grow (oneOf [
      node (seq [keyword "new", mark ".", anyName]),
      construction dialect sub params classExpression,
      operand dialect sub params classExpression])
    (oneOf [
      memberStep dialect sub,
      arguments sub,
      template sub,
      seq [token true fun t => t.kind == .mark && t.text == "?.".toList,
        oneOf [anyName, seq [mark "[", sub .expression, mark "]"], arguments sub, template sub,
          whenTyped dialect (seq [typeArguments sub, arguments sub])]],
      whenTyped dialect (seq [typeArguments sub, oneOf [arguments sub, template sub, behindOperand]])])

def unary : Reader :=
  oneOf [
    node (seq [
      oneOf [
        token false fun t =>
          t.kind == .mark && ["!", "~", "-", "+", "++", "--"].any fun s => t.text == s.toList,
        wordOf false ["typeof".toList, "void".toList, "delete".toList, "await".toList]],
      sub .unary]),
    grow (called dialect sub params classExpression) (sameLine (oneOf [mark "++", mark "--"]))]

def binaryTimes (level : Nat) : Nat → List Tree → Reader
  | 0, trees, tokens => some (trees, tokens)
  | count + 1, trees, tokens =>
      match operator? dialect tokens with
      | none => some (trees, tokens)
      | some found =>
          if found.level < level then some (trees, tokens)
          else
            let right : Reader :=
              match tokens with
              | first :: _ =>
                  if first.kind == .word && first.text != "in".toList &&
                      first.text != "instanceof".toList then oneOf [keyword "const", sub .type]
                  else sub (.binary (if found.toRight then found.level else found.level + 1))
              | [] => sub .unary
            match right (tokens.drop found.size) with
            | none => some (trees, tokens)
            | some (more, rest) =>
                let marks := List.replicate found.size (Tree.leaf false)
                binaryTimes level count [.node (trees ++ marks ++ more)] rest

def binary (level : Nat) : Reader := fun tokens =>
  match unary dialect sub params classExpression tokens with
  | none => none
  | some (trees, rest) => binaryTimes dialect sub level rest.length trees rest

def arrow : Reader :=
  let head := oneOf [
    seq [name, ahead fun t => t.kind == .mark && t.text == "=>".toList],
    callSignature dialect sub params]
  node (seq [
    oneOf [seq [keyword "async", sameLine head], head], mark "=>",
    oneOf [block sub, sub .assignment]])

def assignment : Reader :=
  oneOf [
    arrow dialect sub params,
    node (seq [keyword "yield", opt (sameLine (seq [opt (mark "*"), sub .assignment]))]),
    growOnce (sub (.binary 0))
      (oneOf [
        seq [mark "?", sub .assignment, mark ":", sub .assignment],
        seq [mark "?", sub (.binary 0), mark ":", sub .assignment],
        seq [assignOperator, sub .assignment]])]

def expression : Reader :=
  growOnce (sub .assignment)
    (seq [mark ",", sub .assignment, many (seq [mark ",", sub .assignment])])

end

end Docblock.Script.Grammar
