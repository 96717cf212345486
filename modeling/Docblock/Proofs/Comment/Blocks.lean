import Docblock.Proofs.Comment.Appending

/-!
# Blocks of lines

Every example of an outline is built from a block: lines that stand together among those of the comment, from
one that begins an example up to where `Block.cut` ends it. So what holds of blocks holds of examples:
`Outline.cutFrom_ofLines`. Blocks follow one another.
-/

set_option autoImplicit false

namespace Docblock.Comment

open Text Line

/-- No line ends with a blank. -/
def Tidied (lines : List Text) : Prop :=
  ∀ line ∈ lines, trimEnd line = line

theorem tidied_prepare (wrapped : Bool) (body : Text) : Tidied (prepare wrapped body) := by
  intro line inside
  rw [prepare_eq, tidy] at inside
  obtain ⟨original, -, rfl⟩ := List.mem_map.1 inside
  split
  · rfl
  · exact trimEnd_trimEnd _

theorem Tidied.stripped {lines : List Text} (tidied : Tidied lines) : Stripped lines := by
  intro line inside blank
  rw [← tidied line inside, trimEnd_eq_nil_iff]
  exact blank

theorem Stripped.middle {before lines after : List Text} (stripped : Stripped (before ++ (lines ++ after))) :
    Stripped lines :=
  fun line inside => stripped line (List.mem_append_right before (List.mem_append_left after inside))

theorem Stripped.filled {lines : List Text} {line : Text} (stripped : Stripped lines) (inside : line ∈ lines)
    (some : line ≠ []) : isBlankText line = false := by
  by_contra blank
  exact some (stripped line inside (by simpa using blank))

namespace Line

theorem ne_nil_of_tag? {line : Text} {parts : Text × Text} (found : tag? line = some parts) : line ≠ [] := by
  rintro rfl
  rw [tag?_empty] at found
  cases found

theorem isBlankText_of_closesFence {line : Text} (closes : closesFence line = true) :
    isBlankText line = false := by
  by_contra blank
  rw [Bool.not_eq_false, ← trim_eq_nil_iff] at blank
  simp [closesFence, blank, stripPrefix] at closes

end Line

namespace Block

variable {kind : ExampleKind} {first line : Text} {more lines taken rest after pending : List Text}

/-! ## Where blocks end -/

theorem closesFence_of_splitFence (found : splitFence lines = some (taken, rest)) :
    ∀ last ∈ taken.getLast?, closesFence last = true := by
  induction lines generalizing taken with
  | nil => simp [splitFence] at found
  | cons line lines induction =>
      by_cases closes : closesFence line = true
      · simp only [splitFence, closes, if_true, Option.some.injEq, Prod.mk.injEq] at found
        obtain ⟨rfl, rfl⟩ := found
        intro last member
        cases member
        exact closes
      · simp only [splitFence, closes, Bool.false_eq_true, if_false, Option.map_eq_some_iff,
          Prod.mk.injEq] at found
        obtain ⟨⟨early, late⟩, found, rfl, rfl⟩ := found
        intro last member
        cases early with
        | nil =>
            -- what is taken up to a fence holds the fence
            cases lines with
            | nil => simp [splitFence] at found
            | cons other lines =>
                simp only [splitFence] at found
                split at found <;> simp at found
        | cons next early =>
            rw [List.getLast?_cons_cons] at member
            exact induction found last member

theorem splitBlankTail_filled (lines : List Text) : ∀ last ∈ (splitBlankTail lines).1.getLast?, last ≠ [] := by
  induction lines with
  | nil => simp [splitBlankTail]
  | cons line rest induction =>
      intro last member
      rcases tail : splitBlankTail rest with ⟨_ | ⟨next, kept⟩, blanks⟩
      · simp only [splitBlankTail, tail] at member
        split at member
        · cases member
        · next filled =>
            cases member
            simpa using filled
      · simp only [splitBlankTail, tail, List.getLast?_cons_cons] at member
        rw [tail] at induction
        exact induction last member

theorem last_cut (kind : ExampleKind) (rest : List Text) :
    ∀ last ∈ (cut kind rest).1.getLast?, closesFence last = true ∨ last ≠ [] := by
  intro last member
  cases kind with
  | javadoc => exact .inr (splitBlankTail_filled _ last member)
  | indented => exact .inr (splitBlankTail_filled _ last member)
  | fenced =>
      cases found : splitFence rest with
      | none =>
          rw [cut, found] at member
          exact .inr (splitBlankTail_filled rest last member)
      | some halves =>
          rw [cut, found] at member
          exact .inl (closesFence_of_splitFence found last member)

theorem mem_of_mem_giveBack (member : line ∈ (giveBack taken rest).1) : line ∈ taken := by
  rw [← splitBlankTail_append taken]
  exact List.mem_append_left _ member

/-! ## Where blocks begin -/

def Begins (kind : ExampleKind) (line : Text) : Prop :=
  match kind with
  | .fenced => indentation line < codeIndent ∧ tag? line = none ∧ opensFence line = true
  | .javadoc => ∃ val, tag? line = some ("example".toList, val)
  | .indented => codeIndent ≤ indentation line

theorem begins_of_startOf (start : Prose.startOf pending line = .block kind) : Begins kind line := by
  unfold Prose.startOf at start
  split at start
  · next shallow =>
      split at start
      · next key val found =>
          split at start
          · next same =>
              cases start
              exact ⟨val, by rw [found, beq_iff_eq.1 same]⟩
          · cases start
      · next none =>
          split at start
          · next opens =>
              cases start
              exact ⟨shallow, none, opens⟩
          · cases start
  · next deep =>
      split at start
      · cases start
        exact Nat.le_of_not_lt deep
      · cases start

theorem Begins.ne_nil (begins : Begins kind line) : line ≠ [] := by
  cases kind with
  | fenced =>
      rintro rfl
      exact absurd begins.2.2 (by decide)
  | javadoc =>
      obtain ⟨val, found⟩ := begins
      exact ne_nil_of_tag? found
  | indented =>
      rintro rfl
      exact absurd (show codeIndent ≤ indentation [] from begins) (by decide)

/-- Lines that make up a block where others stand behind them. -/
structure Cut (kind : ExampleKind) (first : Text) (more after : List Text) : Prop where
  begins : Begins kind first
  ends : cut kind (more ++ after) = (more, after)

namespace Cut

theorem of_startOf (start : Prose.startOf pending first = .block kind) (rest : List Text) :
    Cut kind first (cut kind rest).1 (cut kind rest).2 where
  begins := begins_of_startOf start
  ends := by rw [cut_append]

theorem first_filled (cut : Cut kind first more after) (stripped : Stripped (first :: more)) :
    isBlankText first = false :=
  stripped.filled List.mem_cons_self cut.begins.ne_nil

theorem more_filled (cut : Cut kind first more after) (stripped : Stripped (first :: more)) :
    ∀ last ∈ more.getLast?, isBlankText last = false := by
  intro last member
  have ends := last_cut kind (more ++ after) last
  rw [cut.ends] at ends
  rcases ends member with closes | filled
  · exact isBlankText_of_closesFence closes
  · exact stripped.filled (List.mem_cons_of_mem first (List.mem_of_getLast? member)) filled

theorem last_filled (cut : Cut kind first more after) (stripped : Stripped (first :: more)) :
    ∀ last ∈ (first :: more).getLast?, isBlankText last = false := by
  intro last member
  cases more with
  | nil =>
      cases member
      exact cut.first_filled stripped
  | cons next more =>
      rw [List.getLast?_cons_cons] at member
      exact cut.more_filled stripped last member

end Cut

theorem Cut.indented (cut : Cut .indented first more after) :
    ∀ line ∈ first :: more, line = [] ∨ codeIndent ≤ indentation line := by
  intro line member
  rcases List.mem_cons.1 member with rfl | member
  · exact .inr cut.begins
  · have taken : more = (Block.cut .indented (more ++ after)).1 := by rw [cut.ends]
    rw [taken] at member
    have inside := List.mem_takeWhile_imp (mem_of_mem_giveBack member)
    simpa using inside

theorem location_build (kind : ExampleKind) (lineNo : Nat) (first : Text) (more : List Text)
    (description : Text) :
    (build kind lineNo first more description).location.start.line = lineNo ∧
      (build kind lineNo first more description).location.stop.line = lineNo + more.length := by
  cases kind <;> exact ⟨rfl, rfl⟩

end Block

/-! ## Blocks in the lines of a comment -/

def CutFrom (lines : List Text) (piece : Example) : Prop :=
  ∃ kind before first more after description, lines = before ++ (first :: more ++ after) ∧
    Block.Cut kind first more after ∧ piece = Block.build kind before.length first more description

namespace Prose

variable {prose : Prose} {lineNo : Nat}

/-- Reading on, examples are built from blocks in the lines passed and in those to come. -/
theorem cutFrom_read (passed lines : List Text) (cuts : ∀ piece ∈ prose.examples, CutFrom (passed ++ lines) piece) :
    ∀ piece ∈ (read prose passed.length lines).1.examples, CutFrom (passed ++ lines) piece := by
  generalize number : passed.length = lineNo
  fun_induction read prose lineNo lines generalizing passed with
  | case1 prose lineNo => exact cuts
  | case2 prose lineNo line rest start => exact cuts
  | case3 prose lineNo line rest start induction =>
      have next := induction (passed ++ [line])
      rw [List.append_assoc, List.singleton_append] at next
      exact next cuts (by simp [number])
  | case4 prose lineNo line rest kind start halves shorter induction =>
      have whole : passed ++ line :: rest = passed ++ (line :: halves.1 ++ halves.2) := by
        rw [List.cons_append, Block.cut_append]
      have next := induction (passed ++ (line :: halves.1))
      rw [List.append_assoc, ← whole] at next
      apply next
      · intro piece inside
        simp only [addExample, List.mem_append, List.mem_singleton] at inside
        rcases inside with early | rfl
        · exact cuts piece early
        · exact ⟨kind, passed, line, halves.1, halves.2, _, whole, .of_startOf start rest, by rw [number]⟩
      · rw [List.length_append, List.length_cons, number]
        omega

theorem read_keeps (keeps : Prose → Nat → Prop)
    (addLine : ∀ {prose lineNo}, keeps prose lineNo → ∀ line, keeps (prose.addLine line) (lineNo + 1))
    (addExample : ∀ {prose lineNo}, keeps prose lineNo → ∀ kind first more,
      keeps (prose.addExample kind lineNo first more) (lineNo + 1 + more.length))
    (lines : List Text) (start : keeps prose lineNo) :
    keeps (read prose lineNo lines).1 (read prose lineNo lines).2.1 := by
  fun_induction read prose lineNo lines with
  | case1 prose lineNo => exact start
  | case2 prose lineNo line rest begins => exact start
  | case3 prose lineNo line rest begins induction => exact induction (addLine start line)
  | case4 prose lineNo line rest kind begins halves shorter induction =>
      exact induction (addExample start kind line halves.1)

/-- The examples stand one behind the other, and above the given line. -/
structure Ascends (prose : Prose) (lineNo : Nat) : Prop where
  apart : prose.examples.Pairwise fun a b => a.location.stop.line < b.location.start.line
  above : ∀ piece ∈ prose.examples, piece.location.stop.line < lineNo

theorem Ascends.addLine (ascends : prose.Ascends lineNo) (line : Text) :
    (prose.addLine line).Ascends (lineNo + 1) where
  apart := ascends.apart
  above := fun piece inside => Nat.lt_succ_of_lt (ascends.above piece inside)

theorem Ascends.addExample (ascends : prose.Ascends lineNo) (kind : ExampleKind) (first : Text)
    (more : List Text) :
    (prose.addExample kind lineNo first more).Ascends (lineNo + 1 + more.length) := by
  have place := Block.location_build kind lineNo first more
  constructor
  · refine List.pairwise_append.2 ⟨ascends.apart, List.pairwise_singleton _ _, ?_⟩
    intro piece inside other last
    rw [List.mem_singleton.1 last, (place _).1]
    exact ascends.above piece inside
  · intro piece inside
    simp only [Prose.addExample, List.mem_append, List.mem_singleton] at inside
    rcases inside with early | rfl
    · have above := ascends.above piece early
      omega
    · rw [(place _).2]
      omega

theorem Ascends.read (ascends : prose.Ascends lineNo) (lines : List Text) :
    (read prose lineNo lines).1.Ascends (read prose lineNo lines).2.1 :=
  read_keeps Ascends Ascends.addLine Ascends.addExample lines ascends

end Prose

/-- Each example of an outline is built from a block of its lines. -/
theorem Outline.cutFrom_ofLines (lines : List Text) :
    ∀ piece ∈ (ofLines lines).examples, CutFrom lines piece := by
  have start : ∀ piece ∈ (⟨[], [], []⟩ : Prose).examples, CutFrom ([] ++ lines) piece := by simp
  exact Prose.cutFrom_read [] lines start

end Docblock.Comment
