import Docblock.Extract
import Docblock.Proofs.Text.Rows

/-!
# Comments in syntax trees

A walk through a syntax tree comes by each of its comments once. Where children stand in order in their parents, the
comments are met in the order of the source.
-/

set_option autoImplicit false

namespace Docblock

namespace Syntax

mutual

/-- The comments of a tree, each in front of those inside it. -/
def Node.comments : Node → List Node
  | .mk kind isNamed extent children =>
      let node := Node.mk kind isNamed extent children
      (if node.isComment then [node] else []) ++ commentsAmong children

def commentsAmong : List Node → List Node
  | [] => []
  | node :: nodes => node.comments ++ commentsAmong nodes

end

variable {node comment root : Node} {nodes : List Node}

theorem commentsAmong_eq (nodes : List Node) : commentsAmong nodes = nodes.flatMap Node.comments := by
  induction nodes with
  | nil => rfl
  | cons node nodes induction => rw [commentsAmong, induction, List.flatMap_cons]

theorem commentsAmong_append (nodes more : List Node) :
    commentsAmong (nodes ++ more) = commentsAmong nodes ++ commentsAmong more := by
  simp only [commentsAmong_eq, List.flatMap_append]

theorem commentsAmong_singleton (node : Node) : commentsAmong [node] = node.comments :=
  List.append_nil node.comments

theorem mem_commentsAmong : comment ∈ commentsAmong nodes ↔ ∃ node ∈ nodes, comment ∈ node.comments := by
  rw [commentsAmong_eq, List.mem_flatMap]

theorem Node.comments_of_isComment (isComment : node.isComment = true) (leaf : node.children = []) :
    node.comments = [node] := by
  obtain ⟨kind, isNamed, extent, children⟩ := node
  cases leaf
  simp only [comments, isComment, if_true, commentsAmong, List.append_nil]

theorem Node.comments_of_not_isComment (other : node.isComment = false) :
    node.comments = commentsAmong node.children := by
  obtain ⟨kind, isNamed, extent, children⟩ := node
  simp only [comments, other, Bool.false_eq_true, if_false, List.nil_append, Node.children]

/-! ## Order -/

namespace Node

def Before (node next : Node) : Prop :=
  node.extent.stopByte ≤ next.extent.startByte

/-- In every node of the tree the children stand one behind the other, inside the node. -/
inductive Ordered : Node → Prop where
  | mk {kind : Text} {isNamed : Bool} {extent : Extent} {children : List Node}
      (inside : ∀ child ∈ children,
        extent.startByte ≤ child.extent.startByte ∧ child.extent.stopByte ≤ extent.stopByte)
      (apart : children.Pairwise Before) (each : ∀ child ∈ children, Ordered child) :
      Ordered (.mk kind isNamed extent children)

theorem Ordered.inside (ordered : root.Ordered) : ∀ comment ∈ root.comments,
    root.extent.startByte ≤ comment.extent.startByte ∧ comment.extent.stopByte ≤ root.extent.stopByte := by
  induction ordered with
  | @mk kind isNamed extent children inside apart each induction =>
      intro comment met
      rw [comments, List.mem_append] at met
      rcases met with here | below
      · split at here
        · rw [List.mem_singleton.1 here]
          exact ⟨Nat.le_refl _, Nat.le_refl _⟩
        · cases here
      · obtain ⟨child, among, below⟩ := mem_commentsAmong.1 below
        obtain ⟨start, stop⟩ := induction child among comment below
        obtain ⟨start', stop'⟩ := inside child among
        exact ⟨Nat.le_trans start' start, Nat.le_trans stop stop'⟩

theorem Ordered.pairwise_comments (ordered : root.Ordered) (leaf : ∀ comment ∈ root.comments, comment.children = []) :
    root.comments.Pairwise Before := by
  induction ordered with
  | @mk kind isNamed extent children inside apart each induction =>
      cases isComment : (Node.mk kind isNamed extent children).isComment with
      | true =>
          have empty : children = [] := leaf (.mk kind isNamed extent children) (by simp [comments, isComment])
          rw [comments_of_isComment isComment empty]
          exact List.pairwise_singleton _ _
      | false =>
          have whole := comments_of_not_isComment isComment
          rw [whole, Node.children] at leaf ⊢
          rw [commentsAmong_eq, List.pairwise_flatMap]
          refine ⟨fun child among => induction child among fun comment below =>
            leaf comment (mem_commentsAmong.2 ⟨child, among, below⟩), ?_⟩
          refine apart.imp_of_mem fun {node next} here there before comment met comment' met' => ?_
          have first := ((each node here).inside comment met).2
          have second := ((each next there).inside comment' met').1
          exact Nat.le_trans first (Nat.le_trans before second)

end Node

end Syntax

namespace DocComment

open Syntax (Node commentsAmong)

variable {source : Text} {doc : DocComment} {node : Node} {nodes behind : List Node}

/-! ## Documentation -/

/-- The text and the location of a comment that is documentation. -/
def found? (source : Text) (node : Node) : Option (Text × Location) :=
  ((node.text? source).filter isDoc).map fun text =>
    (text, ⟨node.extent.startPosition, node.extent.stopPosition⟩)

theorem map_ofNode? (source : Text) (behind : List Node) (node : Node) :
    (ofNode? source behind node).map (fun doc => (doc.text, doc.location)) = found? source node := by
  unfold ofNode? found?
  cases node.text? source with
  | none => rfl
  | some text => cases isDoc : isDoc text <;> simp [isDoc, Option.filter]

mutual

theorem map_visit (source : Text) (behind : List Node) (node : Node)
    (leaf : ∀ comment ∈ node.comments, comment.children = []) :
    (visit source behind node).map (fun doc => (doc.text, doc.location)) =
      node.comments.filterMap (found? source) := by
  match node with
  | .mk kind isNamed extent children =>
      rw [visit]
      cases isComment : (Node.mk kind isNamed extent children).isComment with
      | true =>
          have empty : children = [] := leaf (.mk kind isNamed extent children) (by simp [Node.comments, isComment])
          rw [if_pos rfl, Node.comments_of_isComment isComment empty, ← Option.toList_map, map_ofNode?]
          cases found : found? source (Node.mk kind isNamed extent children) <;> simp [found]
      | false =>
          rw [Node.comments_of_not_isComment isComment, Node.children] at leaf ⊢
          rw [if_neg Bool.false_ne_true]
          exact map_visitAll source children leaf

/-- All comments that are documentation are found, each once and in the order of the tree. -/
theorem map_visitAll (source : Text) (nodes : List Node)
    (leaf : ∀ comment ∈ commentsAmong nodes, comment.children = []) :
    (visitAll source nodes).map (fun doc => (doc.text, doc.location)) =
      (commentsAmong nodes).filterMap (found? source) := by
  match nodes with
  | [] => rfl
  | node :: nodes =>
      rw [commentsAmong, List.forall_mem_append] at leaf
      rw [visitAll, commentsAmong, List.map_append, List.filterMap_append, map_visit source nodes node leaf.1,
        map_visitAll source nodes leaf.2]

end

mutual

theorem exists_of_mem_visit (source : Text) (doc : DocComment) (behind : List Node) (node : Node)
    (inside : doc ∈ visit source behind node) :
    ∃ comment ∈ node.comments, found? source comment = some (doc.text, doc.location) := by
  match node with
  | .mk kind isNamed extent children =>
      rw [Node.comments]
      rw [visit] at inside
      split at inside
      · next isComment =>
          refine ⟨_, by rw [if_pos isComment]; exact List.mem_cons_self, ?_⟩
          rw [← map_ofNode? source behind, Option.mem_toList.1 inside]
          rfl
      · obtain ⟨comment, met, found⟩ := exists_of_mem_visitAll source doc children inside
        exact ⟨comment, List.mem_append_right _ met, found⟩

theorem exists_of_mem_visitAll (source : Text) (doc : DocComment) (nodes : List Node)
    (inside : doc ∈ visitAll source nodes) :
    ∃ comment ∈ commentsAmong nodes, found? source comment = some (doc.text, doc.location) := by
  match nodes with
  | [] => cases inside
  | node :: nodes =>
      rw [visitAll] at inside
      rw [commentsAmong]
      rcases List.mem_append.1 inside with here | later
      · obtain ⟨comment, met, found⟩ := exists_of_mem_visit source doc nodes node here
        exact ⟨comment, List.mem_append_left _ met, found⟩
      · obtain ⟨comment, met, found⟩ := exists_of_mem_visitAll source doc nodes later
        exact ⟨comment, List.mem_append_right _ met, found⟩

end

theorem found?_eq_some_iff {text : Text} {location : Location} : found? source node = some (text, location) ↔
    Text.Slice source node.extent.startByte node.extent.stopByte text ∧ isDoc text = true ∧
      location = ⟨node.extent.startPosition, node.extent.stopPosition⟩ := by
  rw [← Text.slice?_eq_some_iff, found?, Node.text?, Option.map_eq_some_iff]
  simp only [Option.filter_eq_some_iff, Prod.mk.injEq]
  constructor
  · rintro ⟨_, ⟨cut, isDoc⟩, rfl, rfl⟩
    exact ⟨cut, isDoc, rfl⟩
  · rintro ⟨cut, isDoc, rfl⟩
    exact ⟨text, ⟨cut, isDoc⟩, rfl, rfl⟩

end DocComment

end Docblock
