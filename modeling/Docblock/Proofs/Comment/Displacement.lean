import Docblock.Comment.Basic
import Docblock.Proofs.Comment.Continuation

/-!
# Comments further down

Empty lines in front of a body move what is read from it down, and change nothing else:
`Outline.ofLines_empty_append`.
-/

set_option autoImplicit false

namespace Docblock

def RawTag.down (tag : RawTag) (count : Nat) : RawTag :=
  { tag with location := tag.location.down count }

def Example.down (piece : Example) (count : Nat) : Example :=
  { piece with location := piece.location.down count }

def Comment.down (comment : Comment) (count : Nat) : Comment :=
  { comment with examples := comment.examples.map (·.down count) }

namespace Comment

open Text Line

def Outline.down (outline : Outline) (count : Nat) : Outline :=
  { outline with
    examples := outline.examples.map (·.down count)
    tags := outline.tags.map (·.down count) }

variable {count lineNo : Nat}

/-! ## Tags -/

namespace OpenTag

def down (tag : OpenTag) (count : Nat) : OpenTag :=
  { tag with
    start := ⟨tag.start.line + count, tag.start.column⟩
    stop := ⟨tag.stop.line + count, tag.stop.column⟩ }

theorem ofLine_down (key val line : Text) :
    ofLine key val line (lineNo + count) = (ofLine key val line lineNo).down count := rfl

theorem push_down (tag : OpenTag) (line : Text) :
    (tag.down count).push line (lineNo + count) = (tag.push line lineNo).down count := by
  simp only [push, down]
  by_cases empty : line.isEmpty = true
  · simp only [empty, if_true]
  · simp only [empty, Bool.false_eq_true, if_false]

end OpenTag

theorem readTags_down (count : Nat) (current : Option OpenTag) (blanks lineNo : Nat)
    (lines : List Text) :
    readTags (current.map (·.down count)) blanks (lineNo + count) lines =
      ((readTags current blanks lineNo lines).1.map (·.down count),
        (readTags current blanks lineNo lines).2) := by
  have closed : ∀ current : Option OpenTag, (current.map (·.down count)).toList.map OpenTag.close =
      (current.toList.map OpenTag.close).map (·.down count) := by
    intro current
    cases current <;> rfl
  have pushed : ∀ (current : Option OpenTag) (line : Text) (lineNo : Nat),
      (current.map (·.down count)).map (·.push line (lineNo + count)) =
        (current.map (·.push line lineNo)).map (·.down count) := by
    intro current line lineNo
    cases current with
    | none => rfl
    | some tag => simp [OpenTag.push_down]
  induction lines generalizing current blanks lineNo with
  | nil => simp only [readTags, closed]
  | cons line rest induction =>
      have further : lineNo + count + 1 = lineNo + 1 + count := Nat.add_right_comm _ _ _
      cases found : tag? line with
      | some parts =>
          obtain ⟨key, val⟩ := parts
          have next := induction (some (OpenTag.ofLine key val line lineNo)) 0 (lineNo + 1)
          rw [Option.map_some] at next
          simp only [readTags, found, further, OpenTag.ofLine_down, next, closed, List.map_append]
      | none =>
          simp only [readTags, found, further, pushed]
          by_cases empty : line.isEmpty = true
          · simp only [empty, if_true, induction]
          · by_cases ends : 2 ≤ blanks ∧ indentation line = 0
            · simp only [empty, Bool.false_eq_true, if_false, if_pos ends, closed]
            · simp only [empty, Bool.false_eq_true, if_false, if_neg ends, induction]

/-! ## Prose -/

namespace Prose

variable {prose low : Prose} {pending : List Text}

theorem startOf_empty_append (pending : List Text) (blanks : Nat) (line : Text) :
    startOf (List.replicate blanks [] ++ pending) line = startOf pending line := by
  have last : ((List.replicate blanks [] ++ pending).getLast?).getD [] = (pending.getLast?).getD [] := by
    rw [List.getLast?_append]
    cases pending.getLast? with
    | some line => rfl
    | none =>
        cases blanks with
        | zero => rfl
        | succ blanks => simp [List.getLast?_replicate]
  simp only [startOf, last]

theorem splitBlankTail_empty_append (lines : List Text) (blanks : Nat) :
    (Block.splitBlankTail (List.replicate blanks [] ++ lines)).1 =
        (if (Block.splitBlankTail lines).1 = [] then [] else List.replicate blanks []) ++
          (Block.splitBlankTail lines).1 ∧
      ((Block.splitBlankTail lines).1 ≠ [] →
        (Block.splitBlankTail (List.replicate blanks [] ++ lines)).2 = (Block.splitBlankTail lines).2) := by
  induction blanks with
  | zero => simp
  | succ blanks induction =>
      rw [List.replicate_succ, List.cons_append, Block.splitBlankTail]
      rcases shape : Block.splitBlankTail (List.replicate blanks [] ++ lines) with ⟨_ | ⟨first, kept⟩, gap⟩
      · rw [shape] at induction
        have none : (Block.splitBlankTail lines).1 = [] := (List.append_eq_nil_iff.1 induction.1.symm).2
        simp [none]
      · rw [shape] at induction
        have some : (Block.splitBlankTail lines).1 ≠ [] := by
          intro none
          rw [none] at induction
          simp at induction
        rw [if_neg some] at induction ⊢
        obtain ⟨front, same⟩ := induction
        simp only at front same ⊢
        exact ⟨by rw [front, List.cons_append], same⟩

theorem adopt_empty_append (hasPrevious : Bool) (pending : List Text) (blanks : Nat) :
    ∃ fewer, (adopt hasPrevious (List.replicate blanks [] ++ pending)).1 =
        List.replicate fewer [] ++ (adopt hasPrevious pending).1 ∧
      (adopt hasPrevious (List.replicate blanks [] ++ pending)).2 = (adopt hasPrevious pending).2 := by
  obtain ⟨front, same⟩ := splitBlankTail_empty_append pending blanks
  rcases lowShape : Block.splitBlankTail (List.replicate blanks [] ++ pending) with ⟨lowContent, lowGap⟩
  rcases shape : Block.splitBlankTail pending with ⟨content, gap⟩
  simp only [lowShape, shape] at front same
  by_cases none : content = []
  · subst none
    rw [if_pos rfl] at front
    exact ⟨0, by simp [adopt, lowShape, shape, front], by simp [adopt, lowShape, shape, front]⟩
  · rw [if_neg none] at front
    have gapSame := same none
    subst front gapSame
    have filled : content.isEmpty = false := by simpa using none
    have lowFilled : (List.replicate blanks [] ++ content).isEmpty = false := by simp [none]
    have stops : ∀ line ∈ (List.replicate blanks ([] : Text)).head?, (! line.isEmpty) = false := by
      intro line inside
      rw [List.eq_of_mem_replicate (List.mem_of_mem_head? inside)]
      rfl
    obtain ⟨last, earlier⟩ := span_append content.reverse stops
    have noneEarlier : (List.replicate blanks ([] : Text)).any (! ·.isEmpty) = false := by simp
    refine ⟨blanks, ?_⟩
    simp only [adopt, lowShape, shape, List.reverse_append, List.reverse_replicate, last, earlier, filled,
      lowFilled, List.any_append, noneEarlier, Bool.false_or]
    split_ifs
    · exact ⟨rfl, rfl⟩
    · exact ⟨rfl, rfl⟩

theorem paragraph_adopt_empty_append (hasPrevious : Bool) (pending : List Text) (blanks : Nat) :
    paragraph (adopt hasPrevious (List.replicate blanks [] ++ pending)).1 =
        paragraph (adopt hasPrevious pending).1 ∧
      (adopt hasPrevious (List.replicate blanks [] ++ pending)).2 = (adopt hasPrevious pending).2 := by
  obtain ⟨fewer, kept, adopted⟩ := adopt_empty_append hasPrevious pending blanks
  exact ⟨by rw [kept, paragraph_empty_append], adopted⟩

/-- `low` has been read like `prose`, but so many lines further down and with empty lines before. -/
structure Lowered (count : Nat) (prose low : Prose) : Prop where
  paragraphs : low.paragraphs = prose.paragraphs
  pending : ∃ blanks, low.pending = List.replicate blanks [] ++ prose.pending
  examples : low.examples = prose.examples.map (·.down count)

namespace Lowered

theorem isEmpty_examples (lowered : Lowered count prose low) :
    low.examples.isEmpty = prose.examples.isEmpty := by
  rw [lowered.examples, List.isEmpty_map]

theorem startOf (lowered : Lowered count prose low) (line : Text) :
    startOf low.pending line = Prose.startOf prose.pending line := by
  obtain ⟨blanks, pending⟩ := lowered.pending
  rw [pending, startOf_empty_append]

theorem addLine (lowered : Lowered count prose low) (line : Text) :
    Lowered count (prose.addLine line) (low.addLine line) where
  paragraphs := lowered.paragraphs
  pending := by
    obtain ⟨blanks, pending⟩ := lowered.pending
    exact ⟨blanks, by simp [Prose.addLine, pending]⟩
  examples := lowered.examples

theorem addExample (lowered : Lowered count prose low) (kind : ExampleKind) (lineNo : Nat) (first : Text)
    (more : List Text) :
    Lowered count (prose.addExample kind lineNo first more)
      (low.addExample kind (lineNo + count) first more) := by
  obtain ⟨blanks, pending⟩ := lowered.pending
  obtain ⟨kept, adopted⟩ :=
    paragraph_adopt_empty_append (!prose.examples.isEmpty) prose.pending blanks
  have built : ∀ description : Text, Block.build kind (lineNo + count) first more description =
      (Block.build kind lineNo first more description).down count := by
    intro description
    have further : lineNo + count + more.length = lineNo + more.length + count := Nat.add_right_comm _ _ _
    cases kind <;> simp [Block.build, Example.down, Location.ofLines, Location.down, further]
  constructor
  case paragraphs =>
    simp only [Prose.addExample, lowered.isEmpty_examples, pending, kept, lowered.paragraphs]
  case pending => exact ⟨0, rfl⟩
  case examples =>
    simp only [Prose.addExample, lowered.examples, List.isEmpty_map, pending, adopted, built,
      List.map_append, List.map_cons, List.map_nil]

theorem description (lowered : Lowered count prose low) : low.description = prose.description := by
  obtain ⟨blanks, pending⟩ := lowered.pending
  simp only [Prose.description, lowered.isEmpty_examples, pending, paragraph_empty_append,
    lowered.paragraphs]

theorem footer (lowered : Lowered count prose low) : low.footer = prose.footer := by
  obtain ⟨blanks, pending⟩ := lowered.pending
  simp only [Prose.footer, lowered.isEmpty_examples, pending, paragraph_empty_append]

theorem read (lowered : Lowered count prose low) (lineNo : Nat) (lines : List Text) :
    Lowered count (Prose.read prose lineNo lines).1 (Prose.read low (lineNo + count) lines).1 ∧
      (Prose.read low (lineNo + count) lines).2 =
        ((Prose.read prose lineNo lines).2.1 + count, (Prose.read prose lineNo lines).2.2) := by
  fun_induction Prose.read prose lineNo lines generalizing low with
  | case1 prose lineNo =>
      rw [read_nil]
      exact ⟨lowered, rfl⟩
  | case2 prose lineNo line rest start =>
      rw [read_tag ((lowered.startOf line).trans start)]
      exact ⟨lowered, rfl⟩
  | case3 prose lineNo line rest start induction =>
      have next := induction (lowered.addLine line)
      rw [Nat.add_right_comm] at next
      rwa [read_line ((lowered.startOf line).trans start)]
  | case4 prose lineNo line rest kind start halves shorter =>
      rename_i induction
      have next := induction (lowered.addExample kind lineNo line halves.1)
      have further : lineNo + 1 + halves.1.length + count = lineNo + count + 1 + halves.1.length := by omega
      rw [further] at next
      rwa [read_block ((lowered.startOf line).trans start)]

end Lowered

end Prose

/-- Empty lines in front of a body move its outline down. -/
theorem Outline.ofLines_empty_append (count : Nat) (lines : List Text) :
    ofLines (List.replicate count [] ++ lines) = (ofLines lines).down count := by
  have start : Prose.Lowered count ⟨[], [], []⟩ ⟨[], List.replicate count [], []⟩ :=
    ⟨rfl, ⟨count, by simp⟩, rfl⟩
  obtain ⟨lowered, place⟩ := start.read 0 lines
  have tags := readTags_down count none 0 (Prose.read ⟨[], [], []⟩ 0 lines).2.1
    (Prose.read ⟨[], [], []⟩ 0 lines).2.2
  rw [ofLines_eq, ofLines_eq, Prose.read_empty_append, List.nil_append]
  rw [Option.map_none] at tags
  simp only [ofReading, Outline.down, lowered.description, lowered.footer, lowered.examples, place, tags]

end Comment

end Docblock
