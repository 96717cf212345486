import Mathlib.Data.List.Forall2
import Docblock.Proofs.Comment.Blocks
import Docblock.Proofs.Comment.Strictness

/-!
# Where examples stand

The location of an example counts lines of its comment. Line by line, what the example holds is a part of
the line of the comment that its location names.
-/

set_option autoImplicit false

namespace Docblock

/-- The lines of an example as it stands; an empty one at its end is left out. -/
def Example.rawLines (piece : Example) : List Text :=
  if (Text.pieces piece.raw).getLast? = some [] then (Text.pieces piece.raw).dropLast
  else Text.pieces piece.raw

namespace Comment

open Text Line

/-! ## Lines within lines -/

/-- Each of the lines is a part of a line of `all`, the first one of line `n`, the next of the line below
it, and so on. -/
def Within (n : Nat) (lines all : List Text) : Prop :=
  ∀ i line, lines[i]? = some line → ∃ whole, all[n + i]? = some whole ∧ line <:+: whole

namespace Within

variable {m n : Nat} {lines middle all before after : List Text}

theorem of_forall₂ (parts : List.Forall₂ (· <:+: ·) lines middle) :
    Within before.length lines (before ++ (middle ++ after)) := by
  intro i line here
  rw [List.getElem?_append_right (Nat.le_add_right _ _), Nat.add_sub_cancel_left]
  induction parts generalizing i with
  | nil => simp at here
  | cons part _ induction =>
      cases i with
      | zero =>
          cases here
          exact ⟨_, rfl, part⟩
      | succ i => exact induction i here

theorem of_append : Within before.length lines (before ++ (lines ++ after)) :=
  of_forall₂ (List.forall₂_same.2 fun _ _ => List.infix_rfl)

theorem of_map {f : Text → Text} (part : ∀ line, f line <:+: line) : Within 0 (lines.map f) lines := by
  have parts : List.Forall₂ (· <:+: ·) (lines.map f) lines :=
    List.forall₂_map_left_iff.2 (List.forall₂_same.2 fun line _ => part line)
  have within : Within 0 (lines.map f) ([] ++ (lines ++ [])) := of_forall₂ parts
  rwa [List.nil_append, List.append_nil] at within

theorem trans (inner : Within n lines middle) (outer : Within m middle all) : Within (m + n) lines all := by
  intro i line here
  obtain ⟨part, there, within⟩ := inner i line here
  obtain ⟨whole, found, around⟩ := outer (n + i) part there
  refine ⟨whole, ?_, within.trans around⟩
  rw [Nat.add_assoc]
  exact found

end Within

theorem exists_pieces_append (a b : Text) :
    ∃ front last head tail, pieces a = front ++ [last] ∧ pieces b = head :: tail ∧
      pieces (a ++ b) = front ++ (last ++ head) :: tail ∧ front.length = a.count '\n' := by
  induction a with
  | nil =>
      cases shape : pieces b with
      | nil => exact absurd shape (pieces_ne_nil b)
      | cons head tail => exact ⟨[], [], head, tail, rfl, rfl, shape, rfl⟩
  | cons c a induction =>
      obtain ⟨front, last, head, tail, ofA, ofB, whole, count⟩ := induction
      by_cases feed : c = '\n'
      · subst feed
        exact ⟨[] :: front, last, head, tail, by simp [pieces, ofA], ofB, by simp [pieces, whole],
          by simp [count]⟩
      · have same : (c :: a).count '\n' = a.count '\n' := List.count_cons_of_ne feed
        rw [same]
        cases front with
        | nil =>
            exact ⟨[], c :: last, head, tail, by simp [pieces, feed, ofA], ofB,
              by simp [pieces, feed, whole], count⟩
        | cons first front =>
            exact ⟨(c :: first) :: front, last, head, tail, by simp [pieces, feed, ofA], ofB,
              by simp [pieces, feed, whole], count⟩

theorem within_pieces (before text after : Text) :
    Within (before.count '\n') (pieces text) (pieces (before ++ (text ++ after))) := by
  have behind : Within 0 (pieces text) (pieces (text ++ after)) := by
    obtain ⟨front, last, head, tail, ofText, -, whole, -⟩ := exists_pieces_append text after
    have parts : List.Forall₂ (· <:+: ·) (front ++ [last]) (front ++ [last ++ head]) :=
      List.rel_append (List.forall₂_same.2 fun _ _ => List.infix_rfl)
        (.cons (List.prefix_append last head).isInfix .nil)
    have within : Within 0 (front ++ [last]) ([] ++ ((front ++ [last ++ head]) ++ tail)) :=
      Within.of_forall₂ parts
    rw [ofText, whole]
    simpa using within
  obtain ⟨front, last, head, tail, -, ofRest, whole, count⟩ := exists_pieces_append before (text ++ after)
  have parts : List.Forall₂ (· <:+: ·) (head :: tail) ((last ++ head) :: tail) :=
    .cons (List.suffix_append last head).isInfix (List.forall₂_same.2 fun _ _ => List.infix_rfl)
  have within : Within front.length (head :: tail) (front ++ ((last ++ head) :: tail ++ [])) :=
    Within.of_forall₂ parts
  rw [List.append_nil, ← whole, ← ofRest, count] at within
  exact behind.trans within

/-! ## Prepared lines -/

namespace Line

theorem isInfix_trimEnd (line : Text) : trimEnd line <:+: line := by
  obtain ⟨blanks, -, whole⟩ := exists_trimEnd_append_blank line
  exact ⟨[], blanks, whole.symm⟩

theorem isInfix_trim (line : Text) : trim line <:+: line :=
  (isInfix_trimEnd (trimStart line)).trans (List.dropWhile_suffix isBlank).isInfix

theorem dedent_suffix (n : Nat) (line : Text) : dedent n line <:+ line := by
  fun_induction dedent n line with
  | case1 line => exact List.suffix_rfl
  | case2 n => exact List.suffix_rfl
  | case3 n c rest indent induction => exact induction.trans (List.suffix_cons c rest)
  | case4 n c rest indent => exact List.suffix_rfl

theorem unmarked_suffix (wrapped : Bool) (line : Text) : unmarked wrapped line <:+ line := by
  cases wrapped with
  | false => exact List.suffix_rfl
  | true =>
      have start : trimStart line <:+ line := List.dropWhile_suffix isBlank
      have behind : stripMarker line <:+ line := by
        unfold stripMarker
        split
        · next rest shape =>
            rw [shape] at start
            exact (List.suffix_append ['*', ' '] rest).trans start
        · next rest _ shape =>
            rw [shape] at start
            exact (List.suffix_cons '*' rest).trans start
        · exact List.suffix_rfl
      exact behind

theorem within_prepare (wrapped : Bool) (body : Text) : Within 0 (prepare wrapped body) (pieces body) := by
  obtain ⟨count, whole⟩ := exists_prepare_append wrapped body
  have front : Within 0 (prepare wrapped body) ([] ++ (prepare wrapped body ++ List.replicate count [])) :=
    Within.of_append
  have tidied : Within 0 (tidy ((pieces body).map (unmarked wrapped)))
      ((pieces body).map (unmarked wrapped)) := by
    apply Within.of_map
    intro line
    split
    · exact List.nil_infix
    · exact (isInfix_trimEnd _).trans (dedent_suffix _ line).isInfix
  have marked : Within 0 ((pieces body).map (unmarked wrapped)) (pieces body) :=
    Within.of_map fun line => (unmarked_suffix wrapped line).isInfix
  rw [List.nil_append, whole] at front
  exact (front.trans tidied).trans marked

end Line

/-! ## Blocks -/

namespace Block

variable {kind : ExampleKind} {first : Text} {more lines : List Text}

theorem pieces_withFeedBehind (feedless : Feedless lines) : pieces (withFeedBehind lines) = lines ++ [[]] := by
  induction lines with
  | nil => rfl
  | cons line lines induction =>
      rw [Feedless.cons_iff] at feedless
      have shape : withFeedBehind (line :: lines) = line ++ '\n' :: withFeedBehind lines := by
        simp [withFeedBehind]
      rw [shape, pieces_append_feed, pieces_line feedless.1, induction feedless.2]
      rfl

theorem pieces_append_withFeedBefore (feedless : Feedless (first :: lines)) :
    pieces (first ++ withFeedBefore lines) = first :: lines := by
  induction lines generalizing first with
  | nil =>
      rw [Feedless.cons_iff] at feedless
      simpa [withFeedBefore] using pieces_line feedless.1
  | cons line lines induction =>
      rw [Feedless.cons_iff] at feedless
      have shape : withFeedBefore (line :: lines) = '\n' :: (line ++ withFeedBefore lines) := by
        simp [withFeedBefore]
      rw [shape, pieces_append_feed, pieces_line feedless.1, induction feedless.2]
      rfl

theorem exists_rawLines_build (lineNo : Nat) (description : Text) (feedless : Feedless (first :: more))
    (filled : ∀ last ∈ (first :: more).getLast?, isBlankText last = false) :
    ∃ depth, (build kind lineNo first more description).rawLines = (first :: more).map (dedent depth) := by
  have plain : (first :: more).map (dedent 0) = first :: more := by
    have same : dedent 0 = id := rfl
    rw [same, List.map_id]
  have behind : pieces (withFeedBehind (first :: more)) = first :: more ++ [[]] :=
    pieces_withFeedBehind feedless
  have dropped : (pieces (withFeedBehind (first :: more))).dropLast = first :: more := by
    rw [behind, List.dropLast_concat]
  have empty : (pieces (withFeedBehind (first :: more))).getLast? = some [] := by
    rw [behind, List.getLast?_concat]
  cases kind with
  | javadoc =>
      refine ⟨0, ?_⟩
      rw [plain]
      exact (if_pos empty).trans dropped
  | indented =>
      refine ⟨0, ?_⟩
      rw [plain]
      exact (if_pos empty).trans dropped
  | fenced =>
      refine ⟨indentation first, ?_⟩
      have dedented := feedless.map (mem_of_mem_dedent (indentation first))
      rw [List.map_cons] at dedented
      have before := pieces_append_withFeedBefore dedented
      have last : ((first :: more).map (dedent (indentation first))).getLast? ≠ some [] := by
        intro empty
        rw [List.getLast?_map, Option.map_eq_some_iff] at empty
        obtain ⟨line, member, nothing⟩ := empty
        have blank := filled line member
        rw [Bool.eq_false_iff, ne_eq, ← trim_eq_nil_iff, ← trim_dedent (indentation first), nothing] at blank
        exact blank rfl
      simp only [Example.rawLines, build, fenced, before]
      exact if_neg last

end Block

/-! ## Examples -/

/-- The location of an example names as many lines as the example has, and each of them is a part of the
line that the location names. -/
structure StandsIn (lines : List Text) (piece : Example) : Prop where
  ordered : piece.location.start.line ≤ piece.location.stop.line
  count : piece.rawLines.length = piece.location.stop.line - piece.location.start.line + 1
  within : Within piece.location.start.line piece.rawLines lines

variable {lines all : List Text} {piece : Example}

theorem StandsIn.down {n : Nat} (stands : StandsIn lines piece) (outer : Within n lines all) :
    StandsIn all { piece with location := piece.location.down n } where
  ordered := Nat.add_le_add_right stands.ordered n
  count := by
    have same := stands.count
    simp only [Location.down, Nat.add_sub_add_right]
    exact same
  within := by
    have deeper := stands.within.trans outer
    rw [Nat.add_comm] at deeper
    exact deeper

theorem StandsIn.captionExample (stands : StandsIn lines piece) :
    StandsIn lines (captionExample piece) := by
  have same : (Comment.captionExample piece).raw = piece.raw ∧
      (Comment.captionExample piece).location = piece.location := by
    unfold Comment.captionExample
    split
    · split <;> exact ⟨rfl, rfl⟩
    · exact ⟨rfl, rfl⟩
  have lines : (Comment.captionExample piece).rawLines = piece.rawLines := by
    rw [Example.rawLines, Example.rawLines, same.1]
  constructor
  · rw [same.2]
    exact stands.ordered
  · rw [lines, same.2]
    exact stands.count
  · rw [lines, same.2]
    exact stands.within

theorem standsIn_of_cutFrom (cut : CutFrom lines piece) (feedless : Feedless lines) (stripped : Stripped lines) :
    StandsIn lines piece := by
  obtain ⟨kind, before, first, more, after, description, rfl, cut, rfl⟩ := cut
  rw [Feedless.append_iff, Feedless.append_iff] at feedless
  obtain ⟨depth, raw⟩ :=
    Block.exists_rawLines_build before.length description feedless.2.1 (cut.last_filled stripped.middle)
  obtain ⟨start, stop⟩ := Block.location_build kind before.length first more description
  constructor
  · rw [start, stop]
    exact Nat.le_add_right _ _
  · rw [raw, start, stop, List.length_map, List.length_cons, Nat.add_sub_cancel_left]
  · rw [raw, start]
    have dedented : Within 0 ((first :: more).map (dedent depth)) (first :: more) :=
      Within.of_map fun line => (dedent_suffix depth line).isInfix
    exact dedented.trans Within.of_append

theorem standsIn_ofLines (feedless : Feedless lines) (stripped : Stripped lines) :
    ∀ piece ∈ (Outline.ofLines lines).examples, StandsIn lines piece :=
  fun piece inside => standsIn_of_cutFrom (Outline.cutFrom_ofLines lines piece inside) feedless stripped

/-- The examples of a comment stand in the lines of its body. -/
theorem standsIn_read {options : ReadOptions} {text : Text} {comment : Comment}
    (success : read options text = .ok comment) :
    ∀ piece ∈ comment.examples,
      StandsIn (pieces (if options.unwrap then stripDelimiters text else text)) piece := by
  have whole : read options text =
      (readAll options (outline options text).tags).map (assemble options (outline options text)) :=
    ofOutline_eq _ _
  rw [whole] at success
  let body := if options.unwrap then stripDelimiters text else text
  have stand : ∀ piece ∈ (outline options text).examples, StandsIn (pieces body) piece := by
    intro piece inside
    have prepared := standsIn_ofLines (feedless_prepare options.unwrap body)
      (stripped_prepare options.unwrap body) piece inside
    exact prepared.down (within_prepare options.unwrap body)
  obtain ⟨tags, -, rfl⟩ := exists_of_map_eq_ok success
  intro piece inside
  simp only [assemble] at inside
  split at inside
  · obtain ⟨original, member, rfl⟩ := List.mem_map.1 inside
    exact (stand original member).captionExample
  · exact stand piece inside

end Comment

end Docblock
