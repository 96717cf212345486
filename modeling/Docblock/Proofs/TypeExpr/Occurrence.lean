import Docblock.Proofs.TypeExpr.Height

/-!
# Where nodes stand

A node stands in another at a place, and in a tree at the end of a path of places.
-/

set_option autoImplicit false

namespace Docblock.TypeExpr

/-- How a node stands in the node around it. -/
inductive Place where
  | member
  | underOptional
  | underNullable
  | underNonNullable
  | underRest
  | element
  | lastElement
  | value
  | param
  | result
  | this
  | new
  | parameterType
  | head
  | argument
  deriving DecidableEq

inductive Holds : Node → Place → Node → Prop where
  | member {elements : List Node} {part : Node} (inside : part ∈ elements) :
      Holds (.union elements) .member part
  | underOptional {part : Node} {default : Option Text} : Holds (.optional part default) .underOptional part
  | underNullable {part : Node} {leading : Bool} : Holds (.nullable part leading) .underNullable part
  | underNonNullable {part : Node} {leading : Bool} : Holds (.nonNullable part leading) .underNonNullable part
  | underRest {part : Node} : Holds (.rest part) .underRest part
  | element {elements before after : List Node} {part : Node} (shape : elements = before ++ part :: after)
      (more : after ≠ []) : Holds (.array elements) .element part
  | lastElement {elements before : List Node} {part : Node} (shape : elements = before ++ [part]) :
      Holds (.array elements) .lastElement part
  | value {fields : List Field} {key : Text} {part : Node} (inside : .mk key (some part) ∈ fields) :
      Holds (.record fields) .value part
  | param {params : List Node} {result this new : Option Node} {part : Node} (inside : part ∈ params) :
      Holds (.function params result this new) .param part
  | result {params : List Node} {this new : Option Node} {part : Node} :
      Holds (.function params (some part) this new) .result part
  | this {params : List Node} {result new : Option Node} {part : Node} :
      Holds (.function params result (some part) new) .this part
  | new {params : List Node} {result this : Option Node} {part : Node} :
      Holds (.function params result this (some part)) .new part
  | parameterType {text : Text} {part : Node} : Holds (.parameter text part) .parameterType part
  | head {part : Node} {arguments : List Node} : Holds (.application part arguments) .head part
  | argument {head : Node} {arguments : List Node} {part : Node} (inside : part ∈ arguments) :
      Holds (.application head arguments) .argument part

/-- The node stands in the tree at the end of the path, whose last place comes first. -/
inductive Occurs (root : Node) : List Place → Node → Prop where
  | root : Occurs root [] root
  | part {path : List Place} {place : Place} {node part : Node} (occurs : Occurs root path node)
      (holds : Holds node place part) : Occurs root (place :: path) part

/-- The property holds of a tree and of all that stands in it. -/
inductive Throughout (P : Node → Prop) : Node → Prop where
  | node {node : Node} (here : P node) (each : ∀ part ∈ node.parts, Throughout P part) : Throughout P node

section Parts

variable {P : Node → Prop} {node part root : Node} {place : Place} {path : List Place}

theorem mem_parts_of_holds (holds : Holds node place part) : part ∈ node.parts := by
  cases holds with
  | member inside => exact inside
  | element shape _ => simp [Node.parts, shape]
  | lastElement shape => simp [Node.parts, shape]
  | value inside => exact List.mem_filterMap.2 ⟨_, inside, rfl⟩
  | argument inside => exact List.mem_cons_of_mem _ inside
  | _ => simp_all [Node.parts]

theorem Throughout.here (throughout : Throughout P node) : P node := by
  cases throughout
  assumption

theorem Throughout.of_part (throughout : Throughout P node) (inside : part ∈ node.parts) :
    Throughout P part := by
  cases throughout with
  | node _ each => exact each part inside

theorem Throughout.occurs (throughout : Throughout P root) (occurs : Occurs root path part) :
    Throughout P part := by
  induction occurs with
  | root => exact throughout
  | part _ holds induction => exact induction.of_part (mem_parts_of_holds holds)

theorem Throughout.leaf (here : P node) (leaf : node.parts = []) : Throughout P node := by
  refine .node here fun part inside => ?_
  rw [leaf] at inside
  cases inside

theorem Throughout.only (here : P node) (only : node.parts = [part]) (inner : Throughout P part) :
    Throughout P node := by
  refine .node here fun other inside => ?_
  rw [only, List.mem_singleton] at inside
  rwa [inside]

end Parts

end Docblock.TypeExpr
