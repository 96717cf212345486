import Docblock.Script.Piece

/-!
# Trees over tokens

The tree of a script has the tokens, in order, for leaves. A gap is a place between two tokens,
numbered by the tokens before it. What follows a comment in a gap is looked up in the smallest node
around the gap: there it is the first named child behind it.
-/

set_option autoImplicit false

namespace Docblock.Script

structure Token where
  kind : PieceKind
  text : Text
  /-- Whether a line ends between the last token and this one. -/
  broken : Bool
  /-- Whether nothing stands between the last token and this one. -/
  tight : Bool

def Piece.isToken (piece : Piece) : Bool :=
  piece.kind != .blank && piece.kind != .comment

def tokensFrom (broken tight : Bool) : List Piece → List Token
  | [] => []
  | piece :: rest =>
      if piece.isToken then ⟨piece.kind, piece.text, broken, tight⟩ :: tokensFrom false true rest
      else tokensFrom (broken || piece.text.any Cutter.isLineEnd) false rest

def tokens (pieces : List Piece) : List Token :=
  tokensFrom true false pieces

inductive Tree where
  /-- One token. Keywords and punctuation are not named. -/
  | leaf (named : Bool)
  | node (children : List Tree)

namespace Tree

def isNamed : Tree → Bool
  | leaf named => named
  | node _ => true

mutual

def width : Tree → Nat
  | leaf _ => 1
  | node children => widths children

def widths : List Tree → Nat
  | [] => 0
  | tree :: trees => width tree + widths trees

end

/-- The first token and the width of the first named tree; `first` is the number of tokens before the
trees. -/
def firstNamed (first : Nat) : List Tree → Option (Nat × Nat)
  | [] => none
  | tree :: trees =>
      if tree.isNamed then some (first, tree.width) else firstNamed (first + tree.width) trees

mutual

def followingIn (gap first : Nat) : Tree → Option (Nat × Nat)
  | leaf _ => none
  | node children => following gap first children

/-- The first token and the width of what follows a gap among the trees or inside one of them;
`first` is the number of tokens before the trees. -/
def following (gap first : Nat) : List Tree → Option (Nat × Nat)
  | [] => none
  | tree :: trees =>
      if gap ≤ first then firstNamed first (tree :: trees)
      else if gap < first + tree.width then followingIn gap first tree
      else following gap (first + tree.width) trees

end

end Tree

end Docblock.Script
