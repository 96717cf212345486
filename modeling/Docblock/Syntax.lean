import Docblock.Language
import Docblock.Location
import Docblock.Text.Basic

/-!
# Syntax trees

The tree of a source as a parser for its language gives it: each node has a kind, a place in the source and
children. The parser itself is a parameter of the program.
-/

set_option autoImplicit false

namespace Docblock

namespace Syntax

structure Extent where
  startByte : Nat
  stopByte : Nat
  startPosition : Position
  stopPosition : Position
  deriving DecidableEq

inductive Node where
  | mk (kind : Text) (isNamed : Bool) (extent : Extent) (children : List Node)

namespace Node

def kind : Node → Text
  | mk kind _ _ _ => kind

/-- Whether the node stands for more than a keyword or a mark. -/
def isNamed : Node → Bool
  | mk _ isNamed _ _ => isNamed

def extent : Node → Extent
  | mk _ _ extent _ => extent

def children : Node → List Node
  | mk _ _ _ children => children

def isComment (node : Node) : Bool :=
  node.kind == "comment".toList

/-- What stands between the bytes of the node, unless they cut a character. -/
def text? (source : Text) (node : Node) : Option Text :=
  source.slice? node.extent.startByte node.extent.stopByte

end Node

end Syntax

structure SyntaxParser where
  /-- Why the grammar of a language cannot be loaded, if it cannot. -/
  refusal? : Language → Option Text
  /-- The root of the tree of a source, if there is a tree. -/
  parse? : Language → Text → Option Syntax.Node

end Docblock
