import Mathlib.Data.List.Basic
import Docblock.Proofs.Syntax.Following
import Docblock.Script.Node

/-!
# Nodes over the pieces of a script

The tree of a script follows the comments among the pieces that the script is cut into, whatever the trees over its
tokens are.
-/

set_option autoImplicit false

namespace Docblock.Script

open Syntax (Extent Node Uncut IsCommentText commentsAmong)

/-! ## Comments among pieces -/

theorem exists_body_of_blockComment? {s : Text} {size : Nat} (found : Cutter.blockComment? s = some size) :
    ∃ body, s.take size = body ++ ['*', '/'] ∧ Uncut body := by
  fun_induction Cutter.blockComment? s generalizing size with
  | case1 rest =>
      cases found
      exact ⟨[], rfl, by decide⟩
  | case2 c rest other induction =>
      obtain ⟨size, later, rfl⟩ := Option.map_eq_some_iff.1 found
      obtain ⟨body, taken, uncut⟩ := induction later
      refine ⟨c :: body, by rw [List.take_succ_cons, taken, List.cons_append], fun inside => ?_⟩
      rw [List.cons_append, List.infix_cons_iff] at inside
      refine inside.elim (fun ⟨more, whole⟩ => ?_) uncut
      obtain ⟨rfl, behind⟩ := List.cons.inj whole
      cases body with
      | nil => exact absurd (List.cons.inj behind).1 (by decide)
      | cons d body =>
          obtain ⟨rfl, -⟩ := List.cons.inj behind
          obtain ⟨after, rfl⟩ : '/' :: body ++ ['*', '/'] <+: rest := by
            rw [← taken]
            exact List.take_prefix size rest
          exact other _ rfl rfl
  | case3 => cases found

theorem isCommentText_of_spacing? {first : Char} {rest : Text} {size : Nat}
    (spaced : Cutter.spacing? first rest = some (.comment, size)) : IsCommentText (first :: rest.take size) := by
  unfold Cutter.spacing? at spaced
  split at spaced
  · cases spaced
  · split at spaced
    · next after =>
        cases spaced
        rw [Nat.add_comm, List.take_succ_cons, ← List.prefix_iff_eq_take.1 (List.takeWhile_prefix _)]
        exact .line fun inside => absurd (List.all_eq_true.1 List.all_takeWhile _ inside) (by decide)
    · next after =>
        obtain ⟨size, closed, same⟩ := Option.map_eq_some_iff.1 spaced
        cases same
        obtain ⟨body, taken, uncut⟩ := exists_body_of_blockComment? closed
        rw [Nat.add_comm, List.take_succ_cons, taken]
        exact .block uncut
    · cases spaced

/-- Only spacing gives a comment. -/
theorem isCommentText_of_step {cutter : Cutter} {first : Char} {rest : Text}
    (isComment : (cutter.step first rest).1 = .comment) :
    IsCommentText (first :: rest.take (cutter.step first rest).2.1) := by
  have code : (cutter.code first rest).1 ≠ .comment := by
    unfold Cutter.code
    repeat' split
    all_goals nofun
  have tag : (cutter.tag first rest).1 ≠ .comment := by
    unfold Cutter.tag
    repeat' split
    all_goals nofun
  have template : (cutter.template first rest).1 ≠ .comment := by
    unfold Cutter.template
    repeat' split
    all_goals nofun
  have content : (cutter.content first rest).1 ≠ .comment := by
    unfold Cutter.content
    repeat' split
    all_goals nofun
  unfold Cutter.step at isComment ⊢
  cases spaced : Cutter.spacing? first rest with
  | none =>
      simp only [spaced] at isComment
      split at isComment <;> contradiction
  | some found =>
      obtain ⟨kind, size⟩ := found
      simp only [spaced] at isComment ⊢
      split at isComment
      · exact absurd isComment template
      · exact absurd isComment content
      all_goals
        simp only at isComment
        rw [isComment] at spaced
        exact isCommentText_of_spacing? spaced

theorem isCommentText_of_mem_cutFrom {cutter : Cutter} {s : Text} {piece : Piece} (inside : piece ∈ cutFrom cutter s)
    (isComment : piece.kind = .comment) : IsCommentText piece.text := by
  fun_induction cutFrom cutter s with
  | case1 => cases inside
  | case2 cutter first rest kind size behind step induction =>
      rcases List.mem_cons.1 inside with rfl | later
      · have here : (cutter.step first rest).1 = .comment → _ := isCommentText_of_step
        rw [step] at here
        exact here isComment
      · exact induction later

theorem isCommentText_of_mem_pieces {dialect : Dialect} {source : Text} {piece : Piece}
    (inside : piece ∈ pieces dialect source) (isComment : piece.kind = .comment) : IsCommentText piece.text := by
  unfold pieces at inside
  simp only at inside
  split at inside
  · exact isCommentText_of_mem_cutFrom inside isComment
  · rcases List.mem_cons.1 inside with rfl | later
    · cases isComment
    · exact isCommentText_of_mem_cutFrom later isComment

/-! ## Places -/

theorem advance_behind (before text : Text) : advance (.behind before) text = .behind (before ++ text) := by
  induction text generalizing before with
  | nil => rw [List.append_nil, advance]
  | cons c text induction =>
      have step : Position.behind (before ++ [c]) = if c = '\n' then ⟨before.count '\n' + 1, 0⟩
          else ⟨before.count '\n', Text.byteSize (Text.lastRow before) + c.utf8Size⟩ := by
        rw [Position.behind, Text.lastRow_concat, List.count_append]
        by_cases feed : c = '\n'
        · simp [feed, Text.byteSize]
        · simp [feed, Text.byteSize_append, Text.byteSize]
      rw [← List.singleton_append, ← List.append_assoc, ← induction, List.singleton_append, advance, step]
      by_cases feed : c = '\n'
      · rw [if_pos feed, if_pos feed]
        rfl
      · rw [if_neg feed, if_neg feed]
        rfl

variable {before : Text} {all : List Piece} {placed : Placed}

theorem place_cons (before : Text) (piece : Piece) (rest : List Piece) :
    place (Text.byteSize before) (.behind before) (piece :: rest) =
      ⟨piece, .between before piece.text⟩ ::
        place (Text.byteSize (before ++ piece.text)) (.behind (before ++ piece.text)) rest := by
  rw [place, Text.byteSize_append, advance_behind, Extent.between, Text.byteSize_append]

theorem exists_of_mem_place (inside : placed ∈ place (Text.byteSize before) (.behind before) all) :
    placed.piece ∈ all ∧ ∃ front after,
      before ++ (all.map Piece.text).flatten = front ++ (placed.piece.text ++ after) ∧ before <+: front ∧
        placed.extent = .between front placed.piece.text := by
  induction all generalizing before with
  | nil => cases inside
  | cons piece rest induction =>
      rw [place_cons] at inside
      rw [List.map_cons, List.flatten_cons]
      rcases List.mem_cons.1 inside with rfl | later
      · exact ⟨List.mem_cons_self, before, (rest.map Piece.text).flatten, rfl, List.prefix_rfl, rfl⟩
      · obtain ⟨among, front, after, whole, behind, extent⟩ := induction later
        rw [List.append_assoc] at whole
        exact ⟨List.mem_cons_of_mem _ among, front, after, whole,
          (List.prefix_append before piece.text).trans behind, extent⟩

def Placed.Before (placed next : Placed) : Prop :=
  placed.extent.stopByte ≤ next.extent.startByte

theorem pairwise_place (before : Text) (all : List Piece) :
    (place (Text.byteSize before) (.behind before) all).Pairwise Placed.Before := by
  induction all generalizing before with
  | nil => exact .nil
  | cons piece rest induction =>
      rw [place_cons]
      refine .cons (fun next later => ?_) (induction _)
      obtain ⟨-, front, -, -, ⟨more, rfl⟩, extent⟩ := exists_of_mem_place later
      rw [Placed.Before, extent]
      exact Nat.le_trans (Nat.le_add_right _ _) (Nat.le_of_eq (Text.byteSize_append _ _).symm)

/-! ## Nodes -/

/-- Nodes in order between the ends of pieces, whose comments are those among the pieces. -/
structure Covers (nodes : List Node) (pieces : List Placed) : Prop where
  ordered : ∀ node ∈ nodes, node.Ordered
  filled : ∀ node ∈ nodes, node.extent.startByte ≤ node.extent.stopByte
  spans : ∀ node ∈ nodes, (∃ first ∈ pieces, node.extent.startByte = first.extent.startByte) ∧
    ∃ last ∈ pieces, node.extent.stopByte = last.extent.stopByte
  apart : nodes.Pairwise Node.Before
  comments : commentsAmong nodes = pieces.filterMap Placed.commentNode?

section Covers

variable {nodes more : List Node} {pieces others : List Placed}

theorem covers_nil (silent : pieces.filterMap Placed.commentNode? = []) : Covers [] pieces :=
  ⟨by simp, by simp, by simp, .nil, silent.symm⟩

theorem Covers.append (here : Covers nodes pieces) (later : Covers more others)
    (apart : (pieces ++ others).Pairwise Placed.Before) : Covers (nodes ++ more) (pieces ++ others) := by
  refine ⟨?_, ?_, ?_, ?_, ?_⟩
  · exact List.forall_mem_append.2 ⟨here.ordered, later.ordered⟩
  · exact List.forall_mem_append.2 ⟨here.filled, later.filled⟩
  · refine List.forall_mem_append.2 ⟨fun node inside => ?_, fun node inside => ?_⟩
    · obtain ⟨⟨first, among, start⟩, last, among', stop⟩ := here.spans node inside
      exact ⟨⟨first, List.mem_append_left _ among, start⟩, last, List.mem_append_left _ among', stop⟩
    · obtain ⟨⟨first, among, start⟩, last, among', stop⟩ := later.spans node inside
      exact ⟨⟨first, List.mem_append_right _ among, start⟩, last, List.mem_append_right _ among', stop⟩
  · refine List.pairwise_append.2 ⟨here.apart, later.apart, fun node inside next inside' => ?_⟩
    obtain ⟨-, last, among, stop⟩ := here.spans node inside
    obtain ⟨⟨first, among', start⟩, -⟩ := later.spans next inside'
    rw [Node.Before, stop, start]
    exact (List.pairwise_append.1 apart).2.2 last among first among'
  · rw [Syntax.commentsAmong_append, here.comments, later.comments, List.filterMap_append]

theorem covers_leaf {kind : Text} {named : Bool} {placed : Placed}
    (filled : placed.extent.startByte ≤ placed.extent.stopByte)
    (comments : (Node.mk kind named placed.extent []).comments = placed.commentNode?.toList) :
    Covers [.mk kind named placed.extent []] [placed] := by
  have single : Node.Ordered (.mk kind named placed.extent []) := .mk (by simp) .nil (by simp)
  refine ⟨by simpa using single, by simpa [Node.extent] using filled, ?_, List.pairwise_singleton _ _, ?_⟩
  · simp [Node.extent]
  · rw [commentsAmong, comments, commentsAmong, List.append_nil]
    cases found : placed.commentNode? <;> simp [found]

theorem covers_token (named : Bool) {placed : Placed} (isToken : placed.piece.isToken = true)
    (filled : placed.extent.startByte ≤ placed.extent.stopByte) : Covers [placed.tokenNode named] [placed] := by
  refine covers_leaf filled ?_
  have other : placed.piece.kind ≠ .comment := by
    rw [Piece.isToken, Bool.and_eq_true, bne_iff_ne, bne_iff_ne] at isToken
    exact isToken.2
  rw [Node.comments_of_not_isComment (by rfl), Placed.commentNode?, if_neg (by rwa [beq_iff_eq])]
  rfl

theorem covers_comments (filled : ∀ placed ∈ pieces, placed.extent.startByte ≤ placed.extent.stopByte)
    (apart : pieces.Pairwise Placed.Before) : Covers (pieces.filterMap Placed.commentNode?) pieces := by
  induction pieces with
  | nil => exact covers_nil rfl
  | cons placed pieces induction =>
      obtain ⟨here, others⟩ := List.forall_mem_cons.1 filled
      have alone : Covers ([placed].filterMap Placed.commentNode?) [placed] := by
        cases isComment : placed.piece.kind == .comment with
        | false =>
            have none : placed.commentNode? = none := if_neg (by rw [isComment]; exact Bool.false_ne_true)
            rw [List.filterMap_cons_none none, List.filterMap_nil]
            exact covers_nil (List.filterMap_cons_none none)
        | true =>
            have one : placed.commentNode? = some placed.commentNode := if_pos isComment
            have comment : placed.commentNode.comments = [placed.commentNode] :=
              Node.comments_of_isComment rfl rfl
            rw [List.filterMap_cons_some one, List.filterMap_nil]
            exact covers_leaf here (comment.trans (congrArg Option.toList one.symm))
      have both := alone.append (induction others apart.of_cons) apart
      rwa [← List.filterMap_append, List.singleton_append] at both

theorem Covers.enclose (covers : Covers nodes pieces) : Covers (enclose nodes) pieces := by
  cases nodes with
  | nil => exact covers
  | cons first rest =>
      obtain ⟨front, last, whole⟩ : ∃ front last, first :: rest = front ++ [last] :=
        (List.eq_nil_or_concat' (first :: rest)).resolve_left (List.cons_ne_nil _ _)
      have isLast : ((first :: rest).getLast?.getD first) = last := by simp [whole]
      have fromFirst : ∀ node ∈ first :: rest, first.extent.startByte ≤ node.extent.startByte := by
        refine List.forall_mem_cons.2 ⟨Nat.le_refl _, fun node inside => ?_⟩
        exact Nat.le_trans (covers.filled first List.mem_cons_self) ((List.pairwise_cons.1 covers.apart).1 node inside)
      have toLast : ∀ node ∈ first :: rest, node.extent.stopByte ≤ last.extent.stopByte := by
        have apart := covers.apart
        have filled := covers.filled
        rw [whole] at apart filled ⊢
        refine List.forall_mem_append.2 ⟨fun node inside => ?_, by simp⟩
        exact Nat.le_trans ((List.pairwise_append.1 apart).2.2 node inside last (List.mem_singleton_self _))
          (filled last (List.mem_append_right _ (List.mem_singleton_self _)))
      have lastInside : last ∈ first :: rest := by simp [whole]
      rw [Script.enclose, isLast]
      refine ⟨?_, ?_, ?_, List.pairwise_singleton _ _, ?_⟩
      · simp only [List.mem_singleton, forall_eq]
        exact .mk (fun node inside => ⟨fromFirst node inside, toLast node inside⟩) covers.apart covers.ordered
      · simp only [List.mem_singleton, forall_eq, Node.extent]
        exact Nat.le_trans (covers.filled first List.mem_cons_self) (toLast first List.mem_cons_self)
      · simp only [List.mem_singleton, forall_eq, Node.extent]
        exact ⟨(covers.spans first List.mem_cons_self).1, (covers.spans last lastInside).2⟩
      · rw [commentsAmong, Node.comments_of_not_isComment rfl, Node.children, covers.comments, commentsAmong,
          List.append_nil]

mutual

theorem covers_nodesAt (pieces : List Placed) (tree : Tree)
    (filled : ∀ placed ∈ pieces, placed.extent.startByte ≤ placed.extent.stopByte)
    (apart : pieces.Pairwise Placed.Before) (starts : ∀ placed ∈ pieces.head?, placed.piece.isToken = true) :
    ∃ taken, pieces = taken ++ (nodesAt pieces tree).2 ∧ Covers (nodesAt pieces tree).1 taken := by
  match tree with
  | .leaf named =>
      cases pieces with
      | nil =>
          rw [nodesAt]
          exact ⟨[], rfl, covers_nil rfl⟩
      | cons placed pieces =>
          rw [nodesAt]
          exact ⟨[placed], rfl, covers_token named (starts _ rfl) (filled _ List.mem_cons_self)⟩
  | .node children =>
      obtain ⟨taken, whole, covers⟩ := covers_nodesAmong pieces children filled apart
      rw [nodesAt]
      exact ⟨taken, whole, covers.enclose⟩

/-- Trees cover the front of the pieces that they are laid over. -/
theorem covers_nodesAmong (pieces : List Placed) (trees : List Tree)
    (filled : ∀ placed ∈ pieces, placed.extent.startByte ≤ placed.extent.stopByte)
    (apart : pieces.Pairwise Placed.Before) :
    ∃ taken, pieces = taken ++ (nodesAmong pieces trees).2 ∧ Covers (nodesAmong pieces trees).1 taken := by
  match trees with
  | [] =>
      rw [nodesAmong]
      exact ⟨[], rfl, covers_nil rfl⟩
  | tree :: trees =>
      have starts : ∀ placed ∈ (fromToken pieces).head?, placed.piece.isToken = true := by
        intro placed first
        have kept := List.head?_dropWhile_not (fun placed : Placed => !placed.piece.isToken) pieces
        rw [fromToken] at first
        rw [Option.mem_def.1 first] at kept
        simpa using kept
      have fromToken_sublist : (fromToken pieces).Sublist pieces := List.dropWhile_sublist _
      obtain ⟨here, front, coversHere⟩ := covers_nodesAt (fromToken pieces) tree
        (fun placed inside => filled placed (fromToken_sublist.subset inside)) (apart.sublist fromToken_sublist) starts
      have behind_sublist : (nodesAt (fromToken pieces) tree).2.Sublist pieces := by
        have behind := List.sublist_append_right here (nodesAt (fromToken pieces) tree).2
        rw [← front] at behind
        exact behind.trans fromToken_sublist
      obtain ⟨later, behind, coversLater⟩ := covers_nodesAmong (nodesAt (fromToken pieces) tree).2 trees
        (fun placed inside => filled placed (behind_sublist.subset inside)) (apart.sublist behind_sublist)
      have spacing_sublist : (pieces.takeWhile (! ·.piece.isToken)).Sublist pieces := List.takeWhile_sublist _
      have coversGap : Covers (gap pieces) (pieces.takeWhile (! ·.piece.isToken)) := covers_comments
        (fun placed inside => filled placed (spacing_sublist.subset inside)) (apart.sublist spacing_sublist)
      have whole : pieces = pieces.takeWhile (! ·.piece.isToken) ++ here ++ later ++
          (nodesAmong (nodesAt (fromToken pieces) tree).2 trees).2 := by
        rw [List.append_assoc, List.append_assoc, ← behind, ← front]
        exact List.takeWhile_append_dropWhile.symm
      rw [whole] at apart
      have taken := (List.pairwise_append.1 apart).1
      rw [nodesAmong]
      exact ⟨_, whole, (coversGap.append coversHere (List.pairwise_append.1 taken).1).append coversLater taken⟩

end

end Covers

/-! ## The root -/

variable {dialect : Dialect} {source : Text}

/-- Where the comments among the pieces of a script stand, from byte to byte. -/
def CommentAt (dialect : Dialect) (source : Text) (start stop : Nat) : Prop :=
  ∃ placed ∈ placedPieces dialect source, placed.piece.kind = .comment ∧
    placed.extent.startByte = start ∧ placed.extent.stopByte = stop

theorem exists_of_mem_place_pieces {placed : Placed} (inside : placed ∈ placedPieces dialect source) :
    placed.piece ∈ pieces dialect source ∧ ∃ before after, source = before ++ (placed.piece.text ++ after) ∧
      placed.extent = .between before placed.piece.text := by
  have fromStart : placed ∈ place (Text.byteSize []) (.behind []) (pieces dialect source) := inside
  obtain ⟨among, front, after, whole, -, extent⟩ := exists_of_mem_place fromStart
  rw [List.nil_append, pieces_flatten] at whole
  exact ⟨among, front, after, whole, extent⟩

theorem covers_root (dialect : Dialect) (source : Text) :
    Covers (rootOf dialect source).children (placedPieces dialect source) := by
  have apart : (placedPieces dialect source).Pairwise Placed.Before := pairwise_place [] _
  have filled : ∀ placed ∈ placedPieces dialect source,
      placed.extent.startByte ≤ placed.extent.stopByte := by
    intro placed inside
    obtain ⟨-, before, after, -, extent⟩ := exists_of_mem_place_pieces inside
    rw [extent, Extent.between, Text.byteSize_append]
    exact Nat.le_add_right _ _
  obtain ⟨taken, whole, covers⟩ := covers_nodesAmong _ (parse dialect (tokens (pieces dialect source))) filled apart
  have rest_sublist := List.sublist_append_right taken
    (nodesAmong (placedPieces dialect source) (parse dialect (tokens (pieces dialect source)))).2
  rw [← whole] at rest_sublist
  have others := covers_comments (fun placed inside => filled placed (rest_sublist.subset inside))
    (apart.sublist rest_sublist)
  have both := covers.append others (whole ▸ apart)
  rw [← whole] at both
  exact both

theorem comments_rootOf (dialect : Dialect) (source : Text) : (rootOf dialect source).comments =
    (placedPieces dialect source).filterMap Placed.commentNode? := by
  rw [Node.comments_of_not_isComment rfl, (covers_root dialect source).comments]

theorem mem_comments_rootOf {node : Node} : node ∈ (rootOf dialect source).comments ↔
    ∃ placed ∈ placedPieces dialect source, placed.piece.kind = .comment ∧
      node = placed.commentNode := by
  rw [comments_rootOf, List.mem_filterMap]
  simp [Placed.commentNode?, eq_comm (a := node)]

/-- The tree of a script has the comments that the script is cut at, in order and where they stand. -/
theorem rootOf_follows (dialect : Dialect) (source : Text) :
    (rootOf dialect source).Follows source (CommentAt dialect source) where
  ordered := by
    have covers := covers_root dialect source
    refine .mk (fun node inside => ?_) covers.apart covers.ordered
    obtain ⟨-, last, among, stop⟩ := covers.spans node inside
    obtain ⟨-, before, after, whole, extent⟩ := exists_of_mem_place_pieces among
    have size : Text.byteSize source = Text.byteSize (before ++ last.piece.text) + Text.byteSize after := by
      rw [← Text.byteSize_append, List.append_assoc, ← whole]
    rw [stop, extent]
    exact ⟨Nat.zero_le _, size ▸ Nat.le_add_right _ _⟩
  leaf := by
    intro node met
    obtain ⟨placed, -, -, rfl⟩ := mem_comments_rootOf.1 met
    rfl
  placed := by
    intro node met
    obtain ⟨placed, inside, isComment, rfl⟩ := mem_comments_rootOf.1 met
    obtain ⟨among, before, after, whole, extent⟩ := exists_of_mem_place_pieces inside
    exact ⟨before, placed.piece.text, after, whole, extent, isCommentText_of_mem_pieces among isComment⟩
  comments := by
    intro start stop
    constructor
    · rintro ⟨placed, inside, isComment, here⟩
      exact ⟨_, mem_comments_rootOf.2 ⟨placed, inside, isComment, rfl⟩, here⟩
    · rintro ⟨node, met, here⟩
      obtain ⟨placed, inside, isComment, rfl⟩ := mem_comments_rootOf.1 met
      exact ⟨placed, inside, isComment, here⟩

end Docblock.Script
