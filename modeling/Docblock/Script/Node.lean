import Docblock.Extract
import Docblock.Script.Parse

/-!
# Nodes of scripts

The syntax tree of a script has the tree over its tokens for a frame. A comment stands beside what follows it, in
the smallest node around the gap that it stands in.
-/

set_option autoImplicit false

namespace Docblock

namespace Script

open Syntax (Extent Node)

def advance (position : Position) : Text → Position
  | [] => position
  | c :: rest =>
      if c = '\n' then advance ⟨position.line + 1, 0⟩ rest
      else advance ⟨position.line, position.column + c.utf8Size⟩ rest

structure Placed where
  piece : Piece
  extent : Extent

/-- The pieces with their places, the first of which begins at the given byte and position. -/
def place (byte : Nat) (position : Position) : List Piece → List Placed
  | [] => []
  | piece :: rest =>
      let stopByte := byte + Text.byteSize piece.text
      let stopPosition := advance position piece.text
      ⟨piece, ⟨byte, stopByte, position, stopPosition⟩⟩ :: place stopByte stopPosition rest

namespace Placed

def commentNode (placed : Placed) : Node :=
  .mk "comment".toList true placed.extent []

def commentNode? (placed : Placed) : Option Node :=
  if placed.piece.kind == .comment then some placed.commentNode else none

def tokenNode (named : Bool) (placed : Placed) : Node :=
  .mk "token".toList named placed.extent []

end Placed

def enclose : List Node → List Node
  | [] => []
  | first :: rest =>
      let last := ((first :: rest).getLast?.getD first).extent
      [.mk "construct".toList true
        ⟨first.extent.startByte, last.stopByte, first.extent.startPosition, last.stopPosition⟩ (first :: rest)]

/-- The comments in front of the next token. -/
def gap (pieces : List Placed) : List Node :=
  (pieces.takeWhile (! ·.piece.isToken)).filterMap Placed.commentNode?

def fromToken (pieces : List Placed) : List Placed :=
  pieces.dropWhile (! ·.piece.isToken)

mutual

/-- The nodes of a tree over the front of the pieces, and the pieces behind it. -/
def nodesAt (pieces : List Placed) : Tree → List Node × List Placed
  | .leaf named =>
      match pieces with
      | [] => ([], [])
      | token :: rest => ([token.tokenNode named], rest)
  | .node children =>
      let (nodes, rest) := nodesAmong pieces children
      (enclose nodes, rest)

/-- The nodes of trees with the comments in front of each, and the pieces behind them. -/
def nodesAmong (pieces : List Placed) : List Tree → List Node × List Placed
  | [] => ([], pieces)
  | tree :: trees =>
      let (here, behind) := nodesAt (fromToken pieces) tree
      let (later, rest) := nodesAmong behind trees
      (gap pieces ++ here ++ later, rest)

end

def placedPieces (dialect : Dialect) (source : Text) : List Placed :=
  place 0 ⟨0, 0⟩ (pieces dialect source)

def rootOf (dialect : Dialect) (source : Text) : Node :=
  let (nodes, rest) :=
    nodesAmong (placedPieces dialect source) (parse dialect (tokens (pieces dialect source)))
  .mk "program".toList true ⟨0, Text.byteSize source, ⟨0, 0⟩, advance ⟨0, 0⟩ source⟩
    (nodes ++ rest.filterMap Placed.commentNode?)

end Script

def Language.dialect : Language → Script.Dialect
  | javascript => ⟨false, true⟩
  | typescript => ⟨true, false⟩
  | tsx => ⟨true, true⟩

/-- The parser that needs no grammar to be loaded and gives every source a tree. -/
def Script.parser : SyntaxParser where
  refusal? _ := none
  parse? language source := some (rootOf language.dialect source)

/-- The documentation comments of a source in the tree that the parser for scripts gives it. -/
def DocComment.ofSource (language : Language) (source : Text) : List DocComment :=
  visitAll source [Script.rootOf language.dialect source]

theorem Script.extract_parser (language : Language) (source : Text) :
    parser.extract language source = .ok (DocComment.ofSource language source) :=
  rfl

end Docblock
