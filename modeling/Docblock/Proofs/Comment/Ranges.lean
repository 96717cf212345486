import Docblock.Proofs.Comment.Blocks

/-!
# Lines that examples and tags take up

A location names the first and the last of the lines that an example or a tag takes up. These lines are
no one else's, and they spell the raw text.
-/

set_option autoImplicit false

namespace Docblock

def Location.linesOf (place : Location) (lines : List Text) : List Text :=
  (lines.drop place.start.line).take (place.stop.line + 1 - place.start.line)

namespace Comment

open Text Line

/-- The location names lines, the first and the last of which are not blank, and ends where the last one
does. -/
structure Covers (lines : List Text) (place : Location) : Prop where
  ordered : place.start.line ≤ place.stop.line
  inside : place.stop.line < lines.length
  first_filled : ∀ line ∈ lines[place.start.line]?, isBlankText line = false
  last_filled : ∀ line ∈ lines[place.stop.line]?, isBlankText line = false
  column : ∀ line ∈ lines[place.stop.line]?, place.stop.column = byteSize line

structure Spans (lines : List Text) (place : Location) (first : Text) (more : List Text) : Prop where
  stands : ∃ before after, lines = before ++ (first :: more ++ after) ∧ place.start.line = before.length
  stop : place.stop = ⟨place.start.line + more.length, byteSize ((more.getLast?).getD first)⟩
  first_filled : isBlankText first = false
  more_filled : ∀ last ∈ more.getLast?, isBlankText last = false

namespace Spans

variable {lines more : List Text} {place : Location} {first : Text}

theorem linesOf (spans : Spans lines place first more) : place.linesOf lines = first :: more := by
  obtain ⟨before, after, rfl, start⟩ := spans.stands
  have stopLine : place.stop.line = place.start.line + more.length := by rw [spans.stop]
  have count : place.stop.line + 1 - place.start.line = (first :: more).length := by
    rw [List.length_cons]
    omega
  rw [Location.linesOf, count, start, List.drop_left, List.take_left]

theorem covers (spans : Spans lines place first more) : Covers lines place := by
  obtain ⟨before, after, rfl, start⟩ := spans.stands
  have stopLine : place.stop.line = before.length + more.length := by rw [spans.stop, start]
  have last : (before ++ (first :: more ++ after))[place.stop.line]? = some ((more.getLast?).getD first) := by
    rw [stopLine, List.getElem?_append_right (Nat.le_add_right _ _), Nat.add_sub_cancel_left,
      List.getElem?_append_left (by simp), ← List.getLast?_cons, List.getLast?_eq_getElem?]
    rfl
  constructor
  case ordered => omega
  case inside =>
    simp only [stopLine, List.length_append, List.length_cons]
    omega
  case first_filled =>
    intro line here
    rw [start, List.getElem?_append_right (Nat.le_refl _), Nat.sub_self] at here
    cases here
    exact spans.first_filled
  case last_filled =>
    intro line here
    rw [last] at here
    cases here
    cases shape : more.getLast? with
    | none => exact spans.first_filled
    | some line => exact spans.more_filled line shape
  case column =>
    intro line here
    rw [last] at here
    cases here
    rw [spans.stop]

end Spans

/-! ## Examples -/

namespace Line

theorem dedent_eq_drop (depth : Nat) (line : Text) :
    dedent depth line = line.drop (min depth (indentation line)) := by
  induction line generalizing depth with
  | nil => cases depth <;> rfl
  | cons c rest induction =>
      cases depth with
      | zero => simp [dedent]
      | succ depth =>
          by_cases indent : isIndent c = true
          · have deeper : indentation (c :: rest) = indentation rest + 1 := by
              simp [indentation, indent]
            rw [dedent, if_pos indent, induction, deeper, Nat.succ_min_succ, List.drop_succ_cons]
          · simp [dedent, indentation, indent]

end Line

namespace Block

variable {kind : ExampleKind} {first : Text} {before more after lines : List Text}

theorem unlines_cons_cons (first second : Text) (more : List Text) :
    unlines (first :: second :: more) = first ++ '\n' :: unlines (second :: more) := by
  rw [← List.singleton_append, unlines_append (by simp) (by simp), unlines_singleton]

theorem unlines_cons (first : Text) (more : List Text) : unlines (first :: more) = first ++ withFeedBefore more := by
  induction more generalizing first with
  | nil => simp [unlines_singleton, withFeedBefore]
  | cons second more induction =>
      rw [unlines_cons_cons, induction]
      simp [withFeedBefore]

theorem withFeedBehind_cons (first : Text) (more : List Text) :
    withFeedBehind (first :: more) = unlines (first :: more) ++ ['\n'] := by
  induction more generalizing first with
  | nil => simp [unlines_singleton, withFeedBehind]
  | cons second more induction =>
      have step : withFeedBehind (first :: second :: more) = first ++ '\n' :: withFeedBehind (second :: more) := by
        simp [withFeedBehind]
      rw [step, induction, unlines_cons_cons, List.append_assoc, List.cons_append]

/-- What an example of this kind is spelled as whose lines are these: fenced ones without indentation as
deep as that of the fence. -/
def spelled (kind : ExampleKind) (first : Text) (more : List Text) : Text :=
  match kind with
  | .fenced => unlines ((first :: more).map fun line => line.drop (min (indentation first) (indentation line)))
  | .javadoc | .indented => unlines (first :: more) ++ ['\n']

theorem kind_build (kind : ExampleKind) (lineNo : Nat) (first : Text) (more : List Text) (description : Text) :
    (build kind lineNo first more description).kind = kind := by
  cases kind <;> rfl

theorem raw_build (kind : ExampleKind) (lineNo : Nat) (first : Text) (more : List Text) (description : Text) :
    (build kind lineNo first more description).raw = spelled kind first more := by
  cases kind with
  | javadoc => exact withFeedBehind_cons first more
  | indented => exact withFeedBehind_cons first more
  | fenced =>
      have dedented : (fun line : Text => line.drop (min (indentation first) (indentation line))) =
          dedent (indentation first) := funext fun line => (dedent_eq_drop _ line).symm
      rw [spelled, dedented, List.map_cons, unlines_cons]
      rfl

theorem Cut.spans (cut : Cut kind first more after) (stripped : Stripped (first :: more)) (description : Text) :
    Spans (before ++ (first :: more ++ after)) (build kind before.length first more description).location
      first more where
  stands := ⟨before, after, rfl, (location_build kind before.length first more description).1⟩
  stop := by cases kind <;> rfl
  first_filled := cut.first_filled stripped
  more_filled := cut.more_filled stripped

end Block

theorem CutFrom.spans {lines : List Text} {piece : Example} (cut : CutFrom lines piece) (stripped : Stripped lines) :
    ∃ first more, Spans lines piece.location first more ∧ piece.raw = Block.spelled piece.kind first more := by
  obtain ⟨kind, before, first, more, after, description, rfl, cut, rfl⟩ := cut
  refine ⟨first, more, cut.spans stripped.middle description, ?_⟩
  rw [Block.raw_build, Block.kind_build]

/-! ## Tags -/

section Tidied

variable {s last : Text} {lines : List Text}

theorem trimEnd_trimStart (tidied : trimEnd s = s) : trimEnd (trimStart s) = trimStart s := by
  obtain ⟨blanks, blankFront, whole⟩ := exists_blank_append_trimStart s
  by_cases blank : isBlankText (trimStart s) = true
  · have all : isBlankText s = true := by
      rw [whole, isBlankText_append, blankFront, blank]
      rfl
    rw [trimStart_eq_nil all]
    rfl
  · rw [Bool.not_eq_true] at blank
    have kept : blanks ++ trimEnd (trimStart s) = blanks ++ trimStart s := by
      rw [← trimEnd_append blank, ← whole, tidied]
    exact List.append_cancel_left kept

theorem trimEnd_unlines (tidied : trimEnd last = last) (filled : isBlankText last = false) :
    trimEnd (unlines (lines ++ [last])) = unlines (lines ++ [last]) := by
  by_cases none : lines = []
  · rw [none, List.nil_append, unlines_singleton, tidied]
  · rw [unlines_append none (by simp), unlines_singleton, List.append_cons, trimEnd_append filled, tidied]

theorem trimEnd_unlines_append_empty (some : lines ≠ []) (count : Nat) :
    trimEnd (unlines (lines ++ List.replicate count [])) = trimEnd (unlines lines) := by
  by_cases zero : count = 0
  · simp [zero]
  · rw [unlines_append some (by simpa using zero), trimEnd_append_blank]
    rw [isBlankText_cons, isBlankText_unlines_empty]
    rfl

end Tidied

def TagFrom (lines : List Text) (tag : RawTag) : Prop :=
  ∃ first more, Spans lines tag.location first more ∧ tag.location.start.column = indentation first ∧
    tag.raw = unlines (trimStart first :: more)

/-- The open tag begins with the line `first` in line `lineNo`; behind it stand `more` lines and so many
empty ones. -/
structure OpenTag.Holds (tag : OpenTag) (lineNo : Nat) (first : Text) (more : List Text) (empty : Nat) : Prop where
  raw : tag.raw = trim first :: (more ++ List.replicate empty [])
  start : tag.start = ⟨lineNo, indentation first⟩
  stop : tag.stop = ⟨lineNo + more.length, byteSize ((more.getLast?).getD first)⟩
  more_filled : ∀ last ∈ more.getLast?, isBlankText last = false

namespace OpenTag

variable {tag : OpenTag} {lineNo empty : Nat} {first line : Text} {more lines before after : List Text}

theorem holds_ofLine (key val line : Text) (lineNo : Nat) : (ofLine key val line lineNo).Holds lineNo line [] 0 where
  raw := rfl
  start := rfl
  stop := rfl
  more_filled := by simp

theorem Holds.push_empty (holds : tag.Holds lineNo first more empty) (here : Nat) :
    (tag.push [] here).Holds lineNo first more (empty + 1) where
  raw := by
    simp only [push, holds.raw, List.replicate_succ', List.cons_append, List.append_assoc]
  start := holds.start
  stop := holds.stop
  more_filled := holds.more_filled

theorem Holds.push_filled (holds : tag.Holds lineNo first more empty) (filled : isBlankText line = false) :
    (tag.push line (lineNo + more.length + empty + 1)).Holds lineNo first
      (more ++ (List.replicate empty [] ++ [line])) 0 where
  raw := by simp [push, holds.raw]
  start := holds.start
  stop := by
    simp only [push, isEmpty_of_filled filled, Bool.false_eq_true, if_false, List.getLast?_append,
      List.getLast?_singleton, Option.some_or, Option.getD_some, List.length_append, List.length_replicate,
      List.length_singleton, Nat.add_assoc]
  more_filled := by
    intro last member
    simp only [List.getLast?_append, List.getLast?_singleton, Option.some_or, Option.mem_some_iff] at member
    rw [← member]
    exact filled

theorem Holds.raw_close (holds : tag.Holds lineNo first more empty) (tidied : Tidied (first :: more)) :
    tag.close.raw = unlines (trimStart first :: more) := by
  have start : trim first = trimStart first := trimEnd_trimStart (tidied first List.mem_cons_self)
  have last : trimEnd (unlines (trimStart first :: more)) = unlines (trimStart first :: more) := by
    rcases List.eq_nil_or_concat more with rfl | ⟨front, last, rfl⟩
    · rw [unlines_singleton, trimEnd_trimStart (tidied first List.mem_cons_self)]
    · rw [List.concat_eq_append] at *
      have same := tidied last (by simp)
      rw [← List.cons_append]
      exact trimEnd_unlines same (holds.more_filled last (by simp))
  rw [close, holds.raw, start, ← List.cons_append, trimEnd_unlines_append_empty (by simp), last]

theorem Holds.start_close (holds : tag.Holds lineNo first more empty) : tag.close.location.start.line = lineNo := by
  rw [close, holds.start]

theorem Holds.stop_close (holds : tag.Holds lineNo first more empty) :
    tag.close.location.stop.line = lineNo + more.length := by
  rw [close, holds.stop]

theorem Holds.tagFrom_close (holds : tag.Holds before.length first more empty) (filled : isBlankText first = false)
    (whole : lines = before ++ (first :: more ++ after)) (tidied : Tidied lines) : TagFrom lines tag.close := by
  refine ⟨first, more, ⟨⟨before, after, whole, ?_⟩, ?_, filled, holds.more_filled⟩, ?_, ?_⟩
  · rw [close, holds.start]
  · rw [close, holds.start, holds.stop]
  · rw [close, holds.start]
  · refine holds.raw_close fun line inside => tidied line ?_
    rw [whole]
    exact List.mem_append_right _ (List.mem_append_left _ inside)

end OpenTag

/-- The tags stand in the lines one behind the other, from the given line on. -/
structure TagsFrom (lines : List Text) (lineNo : Nat) (tags : List RawTag) : Prop where
  each : ∀ tag ∈ tags, TagFrom lines tag
  apart : tags.Pairwise fun a b => a.location.stop.line < b.location.start.line
  below : ∀ tag ∈ tags, lineNo ≤ tag.location.start.line

theorem TagsFrom.cons {lines : List Text} {lineNo next : Nat} {tag : RawTag} {tags : List RawTag}
    (first : TagFrom lines tag) (here : tag.location.start.line = lineNo) (ends : tag.location.stop.line < next)
    (others : TagsFrom lines next tags) : TagsFrom lines lineNo (tag :: tags) where
  each := by
    intro other inside
    rcases List.mem_cons.1 inside with rfl | later
    · exact first
    · exact others.each other later
  apart := by
    refine List.pairwise_cons.2 ⟨fun other later => ?_, others.apart⟩
    exact Nat.lt_of_lt_of_le ends (others.below other later)
  below := by
    intro other inside
    rcases List.mem_cons.1 inside with rfl | later
    · exact Nat.le_of_eq here.symm
    · obtain ⟨_, _, spans, -⟩ := first
      have ordered := spans.covers.ordered
      have behind := others.below other later
      omega

theorem TagsFrom.nil (lines : List Text) (lineNo : Nat) : TagsFrom lines lineNo [] := by
  refine ⟨?_, .nil, ?_⟩ <;> simp

theorem tagsFrom_readTags {tag : OpenTag} {all before more : List Text} {first : Text} {empty : Nat}
    (blanks lineNo : Nat) (lines : List Text) (holds : tag.Holds before.length first more empty)
    (filled : isBlankText first = false) (tidied : Tidied all)
    (whole : all = before ++ (first :: more ++ (List.replicate empty [] ++ lines)))
    (number : lineNo = before.length + more.length + empty + 1) :
    TagsFrom all before.length (readTags (some tag) blanks lineNo lines).1 := by
  induction lines generalizing tag before first more empty blanks lineNo with
  | nil =>
      exact .cons (holds.tagFrom_close filled whole tidied) holds.start_close (Nat.lt_succ_self _) (.nil _ _)
  | cons line rest induction =>
      have inside : line ∈ all := by
        rw [whole]
        simp
      have visible : line ≠ [] → isBlankText line = false := tidied.stripped.filled inside
      cases found : tag? line with
      | some parts =>
          obtain ⟨key, val⟩ := parts
          have some : line ≠ [] := ne_nil_of_tag? found
          have here : lineNo = (before ++ (first :: more ++ List.replicate empty [])).length := by
            simp only [number, List.length_append, List.length_cons, List.length_replicate]
            omega
          have begun := OpenTag.holds_ofLine key val line lineNo
          rw [here] at begun
          have others := induction 0 (lineNo + 1) begun (visible some) (by rw [whole]; simp) (by simp [here])
          rw [← here] at others
          have ends : tag.close.location.stop.line < lineNo := by
            rw [holds.stop_close, number]
            omega
          simp only [readTags, found]
          exact .cons (holds.tagFrom_close filled whole tidied) holds.start_close ends others
      | none =>
          simp only [readTags, found, Option.map_some]
          split
          · next none =>
              rw [List.isEmpty_iff] at none
              subst none
              refine induction _ _ (holds.push_empty lineNo) filled ?_ (by omega)
              rw [whole, List.replicate_succ']
              simp
          · next some =>
              split
              · exact .cons (holds.tagFrom_close filled whole tidied) holds.start_close (Nat.lt_succ_self _) (.nil _ _)
              · have solid : isBlankText line = false := visible (by simpa using some)
                have pushed := holds.push_filled solid
                have here : before.length + more.length + empty + 1 = lineNo := number.symm
                rw [here] at pushed
                refine induction _ _ pushed filled ?_ ?_
                · rw [whole]
                  simp
                · simp only [number, List.length_append, List.length_replicate, List.length_singleton]
                  omega

/-! ## Outlines -/

theorem tagsFrom_read {lines : List Text} (tidied : Tidied lines) :
    let reading := Prose.read ⟨[], [], []⟩ 0 lines
    TagsFrom lines reading.2.1 (readTags none 0 reading.2.1 reading.2.2).1 := by
  obtain ⟨passed, whole, number⟩ := Prose.exists_passed ⟨[], [], []⟩ 0 lines
  have stops := Prose.startOf_of_mem_read ⟨[], [], []⟩ 0 lines
  intro reading
  change passed ++ reading.2.2 = lines at whole
  change reading.2.1 = 0 + passed.length at number
  rw [Nat.zero_add] at number
  rcases shape : reading.2.2 with _ | ⟨first, rest⟩
  · exact .nil lines reading.2.1
  · have begins := Prose.isSome_tag?_of_startOf (stops first (by rw [shape]; rfl) [])
    obtain ⟨⟨key, val⟩, found⟩ := Option.isSome_iff_exists.1 begins
    have inside : first ∈ lines := by
      rw [← whole, shape]
      simp
    have filled : isBlankText first = false := tidied.stripped.filled inside (ne_nil_of_tag? found)
    rw [readTags_tag found, number]
    exact tagsFrom_readTags 0 _ rest (OpenTag.holds_ofLine key val first passed.length) filled tidied
      (by rw [← whole, shape]; rfl) rfl

/-- The lines that an example or a tag takes up, from the first to the last one of its location, are among the
lines of the body, neither the first nor the last of them is blank, and the location ends where the last one
does. No line belongs to two of them, and they stand in the order of the outline, the examples before the tags. The
lines spell the raw text: that of a tag begins behind its indentation, a fence takes its own indentation off the
lines behind it, and the other examples end with a line feed. -/
theorem locations_cover_parts (wrapped : Bool) (body : Text) :
    let lines := prepare wrapped body
    let outline := Outline.ofBody wrapped body
    let places := outline.examples.map Example.location ++ outline.tags.map RawTag.location
    (∀ place ∈ places, Covers lines place) ∧
    (places.Pairwise fun a b => a.stop.line < b.start.line) ∧
    (∀ piece ∈ outline.examples, ∃ first more, piece.location.linesOf lines = first :: more ∧
      piece.raw = Block.spelled piece.kind first more) ∧
    ∀ tag ∈ outline.tags, ∃ first more, tag.location.linesOf lines = first :: more ∧
      tag.location.start.column = indentation first ∧ tag.raw = unlines (trimStart first :: more) := by
  intro lines outline places
  have tidied : Tidied lines := tidied_prepare wrapped body
  have examples : ∀ piece ∈ outline.examples, ∃ first more, Spans lines piece.location first more ∧
      piece.raw = Block.spelled piece.kind first more := fun piece inside =>
    (Outline.cutFrom_ofLines lines piece inside).spans tidied.stripped
  have start : (⟨[], [], []⟩ : Prose).Ascends 0 := by
    constructor <;> simp
  have ascends := start.read lines
  have tags := tagsFrom_read tidied
  refine ⟨?_, ?_, ?_, ?_⟩
  · intro place inside
    rcases List.mem_append.1 inside with early | late
    · obtain ⟨piece, member, rfl⟩ := List.mem_map.1 early
      obtain ⟨_, _, spans, -⟩ := examples piece member
      exact spans.covers
    · obtain ⟨tag, member, rfl⟩ := List.mem_map.1 late
      obtain ⟨_, _, spans, -⟩ := tags.each tag member
      exact spans.covers
  · refine List.pairwise_append.2 ⟨List.pairwise_map.2 ascends.apart, List.pairwise_map.2 tags.apart, ?_⟩
    intro early inside late behind
    obtain ⟨piece, member, rfl⟩ := List.mem_map.1 inside
    obtain ⟨tag, member', rfl⟩ := List.mem_map.1 behind
    exact Nat.lt_of_lt_of_le (ascends.above piece member) (tags.below tag member')
  · intro piece inside
    obtain ⟨first, more, spans, raw⟩ := examples piece inside
    exact ⟨first, more, spans.linesOf, raw⟩
  · intro tag inside
    obtain ⟨first, more, spans, column, raw⟩ := tags.each tag inside
    exact ⟨first, more, spans.linesOf, column, raw⟩

theorem locations_of_code_and_tag :
    let body := "Adds.\n\n    add(1)\n\n@since 1\n  or 2\n\n".toList
    let outline := Outline.ofBody false body
    let places := outline.examples.map Example.location ++ outline.tags.map RawTag.location
    places.map (fun place => (place.start.line, place.stop.line)) = [(2, 2), (4, 5)] ∧
      ∀ place ∈ places, Covers (prepare false body) place := by
  intro body outline places
  have lines : places.map (fun place => (place.start.line, place.stop.line)) = [(2, 2), (4, 5)] := by decide +kernel
  exact ⟨lines, (locations_cover_parts false body).1⟩

end Comment

end Docblock
