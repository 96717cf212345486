import Docblock.Syntax

/-!
# Comments in scripts

The documentation comments of a JavaScript or TypeScript source, each with its location and with the
first line of what it stands before: they are the comment nodes of its syntax tree that begin like documentation.
-/

set_option autoImplicit false

namespace Docblock

structure DocComment where
  text : Text
  location : Location
  /-- The first line of what the comment stands before. -/
  context : Option Text

namespace DocComment

open Syntax (Node)

/-- Whether the text of a comment is documentation: it begins with two stars and is not empty. -/
def isDoc (text : Text) : Bool :=
  "/**".toList.isPrefixOf text && !("/**/".toList.isPrefixOf text)

def contextWidth : Nat := 80

/-- The first line of a text, trimmed and cut to the width of a context; none if it is blank. -/
def firstLine (text : Text) : Option Text :=
  match Text.lines text with
  | [] => none
  | line :: _ =>
      let line := Text.trim line
      if line.isEmpty then none else some (line.take contextWidth)

/-- The context of a comment that siblings stand behind: it is taken from the first one with a name that is
no comment. -/
def contextOf (source : Text) (behind : List Node) : Option Text :=
  (behind.find? fun node => node.isNamed && !node.isComment).bind fun node =>
    (node.text? source).bind firstLine

def ofNode? (source : Text) (behind : List Node) (node : Node) : Option DocComment :=
  match node.text? source with
  | none => none
  | some text =>
      if isDoc text then
        some ⟨text, ⟨node.extent.startPosition, node.extent.stopPosition⟩, contextOf source behind⟩
      else none

mutual

/-- The documentation in a node that siblings stand behind. Nothing is looked for in a comment. -/
def visit (source : Text) (behind : List Node) : Node → List DocComment
  | .mk kind isNamed extent children =>
      let node := Node.mk kind isNamed extent children
      if node.isComment then (ofNode? source behind node).toList else visitAll source children

def visitAll (source : Text) : List Node → List DocComment
  | [] => []
  | node :: behind => visit source behind node ++ visitAll source behind

end

end DocComment

inductive ExtractFault where
  | grammar (message : Text)
  | noTree

def ExtractFault.message : ExtractFault → Text
  | grammar message => "Failed to load grammar: ".toList ++ message
  | noTree => "tree-sitter returned no syntax tree".toList

/-- The documentation comments of a source, if there is a tree of it. -/
def SyntaxParser.extract (parser : SyntaxParser) (language : Language) (source : Text) :
    Except ExtractFault (List DocComment) :=
  match parser.refusal? language with
  | some message => .error (.grammar message)
  | none =>
      match parser.parse? language source with
      | none => .error .noTree
      | some root => .ok (DocComment.visitAll source [root])

end Docblock
