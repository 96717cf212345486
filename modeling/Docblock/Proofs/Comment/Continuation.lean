import Docblock.Proofs.Comment.Conservation
import Docblock.Proofs.Text.Span

/-!
# Reading on behind the last line

Lines that are put behind others are read from where reading those has stopped: `Prose.read_append`. This
holds for empty lines, which a block gives back, and for a line that begins a tag behind them, which ends
every block but a fence that is still open. Empty lines at the end leave no trace in an outline:
`Outline.ofLines_append_empty`.
-/

set_option autoImplicit false

namespace Docblock.Comment

open Text Line

def BeginsTag (ending : List Text) : Prop :=
  ∀ line ∈ ending.head?, (tag? line).isSome = true

theorem beginsTag_nil : BeginsTag [] := by
  intro line inside
  cases inside

theorem Line.tag?_empty : tag? [] = none := by decide

theorem Line.indentation_lt_of_tag? {line : Text} (tagged : (tag? line).isSome = true) :
    indentation line < codeIndent := by
  by_cases shallow : indentation line < codeIndent
  · exact shallow
  · simp [tag?, shallow] at tagged

namespace Block

variable {lines rest ending : List Text} {count : Nat}

theorem splitBlankTail_empty (count : Nat) :
    splitBlankTail (List.replicate count []) = ([], List.replicate count []) := by
  induction count with
  | zero => rfl
  | succ count induction => simp [List.replicate_succ, splitBlankTail, induction]

theorem splitBlankTail_append_empty (lines : List Text) (count : Nat) :
    splitBlankTail (lines ++ List.replicate count []) =
      ((splitBlankTail lines).1, (splitBlankTail lines).2 ++ List.replicate count []) := by
  induction lines with
  | nil => exact splitBlankTail_empty count
  | cons line lines induction =>
      rcases shape : splitBlankTail lines with ⟨_ | ⟨first, kept⟩, blanks⟩
      · rw [List.cons_append, splitBlankTail, splitBlankTail, induction, shape]
        by_cases empty : line.isEmpty = true
        · simp [empty]
        · simp [empty]
      · rw [List.cons_append, splitBlankTail, splitBlankTail, induction, shape]

theorem splitFence_append_some {early late more : List Text}
    (found : splitFence lines = some (early, late)) :
    splitFence (lines ++ more) = some (early, late ++ more) := by
  induction lines generalizing early with
  | nil => cases found
  | cons line lines induction =>
      by_cases closes : closesFence line = true
      · simp only [splitFence, closes, if_true, Option.some.injEq, Prod.mk.injEq] at found
        obtain ⟨rfl, rfl⟩ := found
        simp [splitFence, closes]
      · simp only [splitFence, closes, Bool.false_eq_true, if_false, Option.map_eq_some_iff] at found
        obtain ⟨⟨before, behind⟩, found, equal⟩ := found
        cases equal
        simp [splitFence, closes, induction found]

theorem splitFence_append_none (none : splitFence lines = .none) (count : Nat) :
    splitFence (lines ++ List.replicate count []) = .none := by
  have unclosed : closesFence [] = false := by decide
  induction lines with
  | nil =>
      induction count with
      | zero => rfl
      | succ count induction =>
          rw [List.nil_append] at induction
          simp [List.replicate_succ, splitFence, unclosed, induction]
  | cons line lines induction =>
      by_cases closes : closesFence line = true
      · simp [splitFence, closes] at none
      · simp only [splitFence, closes, Bool.false_eq_true, if_false, Option.map_eq_none_iff] at none
        simp [splitFence, closes, induction none]

theorem giveBack_span_append {inside : Text → Bool} (empty : inside [] = true)
    (outside : ∀ line ∈ ending.head?, inside line = false) (rest : List Text) (count : Nat) :
    giveBack ((rest ++ (List.replicate count [] ++ ending)).takeWhile inside)
        ((rest ++ (List.replicate count [] ++ ending)).dropWhile inside) =
      ((giveBack (rest.takeWhile inside) (rest.dropWhile inside)).1,
        (giveBack (rest.takeWhile inside) (rest.dropWhile inside)).2 ++
          (List.replicate count [] ++ ending)) := by
  have allEmpty : ∀ line ∈ List.replicate count ([] : Text), inside line = true := by
    intro line member
    rw [List.eq_of_mem_replicate member, empty]
  obtain ⟨taken, left⟩ := span_append (rest ++ List.replicate count []) outside
  rw [← List.append_assoc, taken, left]
  by_cases whole : rest.dropWhile inside = []
  · -- the block takes in all of `rest`, and gives the empty lines back
    have all : ∀ line ∈ rest, inside line = true := List.dropWhile_eq_nil_iff.1 whole
    have everything : ∀ line ∈ rest ++ List.replicate count [], inside line = true := by
      intro line member
      rcases List.mem_append.1 member with member | member
      · exact all line member
      · exact allEmpty line member
    rw [List.takeWhile_eq_self_iff.2 everything, List.dropWhile_eq_nil_iff.2 everything,
      List.takeWhile_eq_self_iff.2 all, whole, List.nil_append]
    simp only [giveBack, splitBlankTail_append_empty, List.append_nil, List.append_assoc]
  · -- the block ends within `rest`
    have filled : (rest.dropWhile inside).isEmpty = false := by simpa using whole
    have shorter : (rest.takeWhile inside).length ≠ rest.length := by
      intro same
      have parted := congrArg List.length (List.takeWhile_append_dropWhile (p := inside) (l := rest))
      rw [List.length_append, same] at parted
      exact whole (List.length_eq_zero_iff.1 (by omega))
    rw [List.takeWhile_append, if_neg shorter, List.dropWhile_append, filled]
    simp [giveBack]

/-- Cutting a block off, the lines behind are left as they are. -/
theorem cut_append_ending {kind : ExampleKind} (tagged : BeginsTag ending)
    (closed : kind = .fenced → (splitFence rest).isSome = true ∨ ending = []) (count : Nat) :
    cut kind (rest ++ (List.replicate count [] ++ ending)) =
      ((cut kind rest).1, (cut kind rest).2 ++ (List.replicate count [] ++ ending)) := by
  cases kind with
  | fenced =>
      cases found : splitFence rest with
      | some halves => simp [cut, found, splitFence_append_some (found : splitFence rest = some (halves.1, _))]
      | none =>
          have last : ending = [] := by
            rcases closed rfl with shut | last
            · rw [found] at shut
              cases shut
            · exact last
          subst last
          simp [cut, found, splitFence_append_none found, giveBack, splitBlankTail_append_empty]
  | javadoc =>
      refine giveBack_span_append (by simp [tag?_empty]) ?_ rest count
      intro line member
      simpa [Option.isNone_iff_eq_none, ← Option.isSome_iff_ne_none] using tagged line member
  | indented =>
      refine giveBack_span_append rfl ?_ rest count
      intro line member
      have found := tagged line member
      have shallow := indentation_lt_of_tag? found
      cases line with
      | nil =>
          rw [tag?_empty] at found
          cases found
      | cons c line => simpa using shallow

end Block

/-! ## Paragraphs -/

section Paragraphs

variable {lines others : List Text}

theorem unlines_append (some : lines ≠ []) (more : others ≠ []) :
    unlines (lines ++ others) = unlines lines ++ '\n' :: unlines others := by
  have step : ∀ {line : Text} {rest : List Text}, rest ≠ [] →
      unlines (line :: rest) = line ++ '\n' :: unlines rest := by
    intro line rest filled
    obtain ⟨first, rest, rfl⟩ := List.exists_cons_of_ne_nil filled
    simp [unlines, join, List.intercalate]
  induction lines with
  | nil => exact absurd rfl some
  | cons line lines induction =>
      cases lines with
      | nil => simpa [unlines, join] using step more
      | cons second lines =>
          have front : unlines (line :: second :: lines) = line ++ '\n' :: unlines (second :: lines) :=
            step (by simp)
          have whole : unlines (line :: (second :: lines ++ others)) =
              line ++ '\n' :: unlines (second :: lines ++ others) := step (by simp)
          rw [List.cons_append, whole, induction (by simp), front, List.append_assoc, List.cons_append]

theorem unlines_singleton (line : Text) : unlines [line] = line := by
  simp [unlines, join]

theorem isBlankText_unlines (lines : List Text) :
    isBlankText (unlines lines) = lines.all isBlankText := by
  induction lines with
  | nil => rfl
  | cons line lines induction =>
      by_cases none : lines = []
      · simp [none, unlines_singleton]
      · have feed : isBlank '\n' = true := by decide
        rw [← List.singleton_append, unlines_append (by simp) none, unlines_singleton, isBlankText_append,
          isBlankText_cons, induction, feed]
        simp

theorem isBlankText_unlines_empty (count : Nat) :
    isBlankText (unlines (List.replicate count [])) = true := by
  simp [isBlankText_unlines]

theorem paragraph_append_empty (lines : List Text) (count : Nat) :
    paragraph (lines ++ List.replicate count []) = paragraph lines := by
  have blank := isBlankText_unlines_empty count
  by_cases none : lines = []
  · subst none
    rw [List.nil_append, paragraph, trim_eq_nil_iff.2 blank]
    rfl
  · by_cases zero : count = 0
    · simp [zero]
    · rw [paragraph, unlines_append none (by simpa using zero), trim_append_blank, paragraph]
      rw [isBlankText_cons, blank]
      rfl

theorem paragraph_empty_append (lines : List Text) (count : Nat) :
    paragraph (List.replicate count [] ++ lines) = paragraph lines := by
  have blank := isBlankText_unlines_empty count
  by_cases none : lines = []
  · subst none
    rw [List.append_nil, paragraph, trim_eq_nil_iff.2 blank]
    rfl
  · by_cases zero : count = 0
    · simp [zero]
    · have feed : isBlankText ['\n'] = true := by decide
      rw [paragraph, unlines_append (by simpa using zero) none, trim_blank_append blank,
        ← List.singleton_append, trim_blank_append feed, paragraph]

end Paragraphs

/-! ## Prose -/

namespace Prose

variable {prose : Prose} {pending : List Text} {line : Text} {rest ending : List Text} {lineNo : Nat}

theorem startOf_empty (pending : List Text) : startOf pending [] = .line := by
  have shallow : indentation [] < codeIndent := by decide
  have plain : opensFence [] = false := by decide
  simp [startOf, shallow, tag?_empty, plain]

theorem startOf_tag (start : startOf pending line = .tag) (others : List Text) :
    startOf others line = .tag := by
  unfold startOf at start ⊢
  by_cases shallow : indentation line < codeIndent
  · rwa [if_pos shallow] at start ⊢
  · rw [if_neg shallow] at start
    split at start <;> cases start

theorem read_tag (start : startOf prose.pending line = .tag) :
    read prose lineNo (line :: rest) = (prose, lineNo, line :: rest) := by
  rw [read]
  simp only [start]

theorem read_line (start : startOf prose.pending line = .line) :
    read prose lineNo (line :: rest) = read (prose.addLine line) (lineNo + 1) rest := by
  rw [read]
  simp only [start]

theorem read_block {kind : ExampleKind} (start : startOf prose.pending line = .block kind) :
    read prose lineNo (line :: rest) =
      read (prose.addExample kind lineNo line (Block.cut kind rest).1)
        (lineNo + 1 + (Block.cut kind rest).1.length) (Block.cut kind rest).2 := by
  rw [read]
  simp only [start]

theorem read_nil : read prose lineNo [] = (prose, lineNo, []) := by
  rw [read]

/-- Where reading prose stops short of the end, a tag begins. -/
theorem startOf_of_mem_read (prose : Prose) (lineNo : Nat) (lines : List Text) :
    ∀ line ∈ (read prose lineNo lines).2.2.head?, ∀ pending, startOf pending line = .tag := by
  fun_induction read prose lineNo lines with
  | case1 prose lineNo =>
      intro line inside
      cases inside
  | case2 prose lineNo line rest start =>
      intro first inside
      cases inside
      exact startOf_tag start
  | case3 prose lineNo line rest start induction => exact induction
  | case4 prose lineNo line rest kind start halves shorter =>
      rename_i induction
      exact induction

theorem cut_length_le (kind : ExampleKind) (rest : List Text) :
    (Block.cut kind rest).2.length ≤ rest.length := by
  have whole := congrArg List.length (Block.cut_append kind rest)
  rw [List.length_append] at whole
  omega

/-- Whether reading prose comes to a fence that no line closes. -/
def leavesFenceOpen (pending lines : List Text) : Bool :=
  match lines with
  | [] => false
  | line :: rest =>
      match startOf pending line with
      | .tag => false
      | .line => leavesFenceOpen (pending ++ [line]) rest
      | .block kind =>
          have _shorter := cut_length_le kind rest
          (kind == .fenced && (Block.splitFence rest).isNone) ||
            leavesFenceOpen [] (Block.cut kind rest).2
termination_by lines.length
decreasing_by
  · simp
  · exact Nat.lt_succ_of_le _shorter

/-- Lines at the end are read from where reading the others has stopped. -/
theorem read_append (prose : Prose) (lineNo : Nat) (tagged : BeginsTag ending) (count : Nat)
    (lines : List Text) (closed : leavesFenceOpen prose.pending lines = false ∨ ending = []) :
    read prose lineNo (lines ++ (List.replicate count [] ++ ending)) =
      read (read prose lineNo lines).1 (read prose lineNo lines).2.1
        ((read prose lineNo lines).2.2 ++ (List.replicate count [] ++ ending)) := by
  fun_induction read prose lineNo lines with
  | case1 prose lineNo => rfl
  | case2 prose lineNo line rest start => rfl
  | case3 prose lineNo line rest start induction =>
      rw [List.cons_append, read_line start]
      apply induction
      rwa [leavesFenceOpen, start] at closed
  | case4 prose lineNo line rest kind start halves shorter =>
      rename_i induction
      have fences : (kind = .fenced → (Block.splitFence rest).isSome = true ∨ ending = []) ∧
          (leavesFenceOpen [] halves.2 = false ∨ ending = []) := by
        rcases closed with shut | last
        · rw [leavesFenceOpen, start] at shut
          simp only [Bool.or_eq_false_iff] at shut
          refine ⟨fun fenced => .inl ?_, .inl shut.2⟩
          subst fenced
          simpa [← Option.isSome_iff_ne_none] using shut.1
        · exact ⟨fun _ => .inr last, .inr last⟩
      have cut : Block.cut kind (rest ++ (List.replicate count [] ++ ending)) =
          (halves.1, halves.2 ++ (List.replicate count [] ++ ending)) :=
        Block.cut_append_ending tagged fences.1 count
      rw [List.cons_append, read_block start, cut]
      exact induction fences.2

theorem read_empty_append (prose : Prose) (lineNo count : Nat) (ending : List Text) :
    read prose lineNo (List.replicate count [] ++ ending) =
      read { prose with pending := prose.pending ++ List.replicate count [] } (lineNo + count) ending := by
  induction count generalizing prose lineNo with
  | zero => simp
  | succ count induction =>
      rw [List.replicate_succ, List.cons_append, read_line (startOf_empty prose.pending), induction]
      simp [addLine, Nat.add_comm, Nat.add_left_comm]

theorem description_append_empty (prose : Prose) (count : Nat) :
    description { prose with pending := prose.pending ++ List.replicate count [] } = prose.description := by
  simp only [description, paragraph_append_empty]

theorem footer_append_empty (prose : Prose) (count : Nat) :
    footer { prose with pending := prose.pending ++ List.replicate count [] } = prose.footer := by
  simp only [footer, paragraph_append_empty]

end Prose

/-! ## Tags -/

section Tags

variable {current : Option OpenTag} {blanks lineNo : Nat}

theorem OpenTag.close_push_empty (tag : OpenTag) (lineNo : Nat) : (tag.push [] lineNo).close = tag.close := by
  have raw : trimEnd (unlines (tag.raw ++ [[]])) = trimEnd (unlines tag.raw) := by
    by_cases none : tag.raw = []
    · rw [none]
      rfl
    · rw [unlines_append none (by simp), unlines_singleton, trimEnd_append_blank (by decide)]
  have val : paragraph (tag.val ++ [[]]) = paragraph tag.val := paragraph_append_empty tag.val 1
  simp [close, push, raw, val]

theorem readTags_empty (count : Nat) :
    readTags current blanks lineNo (List.replicate count []) = (current.toList.map OpenTag.close, []) := by
  induction count generalizing current blanks lineNo with
  | zero => rfl
  | succ count induction =>
      rw [List.replicate_succ]
      simp only [readTags, tag?_empty, List.isEmpty_nil, if_true, induction]
      cases current with
      | none => rfl
      | some tag => simp [OpenTag.close_push_empty]

theorem readTags_append_empty (lines : List Text) (count : Nat) :
    readTags current blanks lineNo (lines ++ List.replicate count []) =
      readTags current blanks lineNo lines := by
  induction lines generalizing current blanks lineNo with
  | nil => exact readTags_empty count
  | cons line rest induction =>
      have ending : paragraph (line :: (rest ++ List.replicate count [])) = paragraph (line :: rest) :=
        paragraph_append_empty (line :: rest) count
      rw [List.cons_append]
      simp only [readTags, induction, ending]

end Tags

namespace Outline

def ofReading (reading : Prose × Nat × List Text) : Outline :=
  let (tags, footer) := readTags none 0 reading.2.1 reading.2.2
  ⟨reading.1.description, joinFooters reading.1.footer footer, reading.1.examples, tags⟩

theorem ofLines_eq (lines : List Text) : ofLines lines = ofReading (Prose.read ⟨[], [], []⟩ 0 lines) := rfl

/-- Empty lines at the end of a body leave no trace in its outline. -/
theorem ofLines_append_empty (lines : List Text) (count : Nat) :
    ofLines (lines ++ List.replicate count []) = ofLines lines := by
  have whole := Prose.read_append ⟨[], [], []⟩ 0 beginsTag_nil count lines (.inr rfl)
  have tagged := Prose.startOf_of_mem_read ⟨[], [], []⟩ 0 lines
  rw [List.append_nil] at whole
  rw [ofLines_eq, ofLines_eq, whole]
  generalize Prose.read ⟨[], [], []⟩ 0 lines = reading at tagged
  rcases reading with ⟨prose, lineNo, _ | ⟨line, rest⟩⟩
  · have empty := Prose.read_empty_append prose lineNo count []
    rw [List.append_nil, Prose.read_nil] at empty
    rw [List.nil_append, empty]
    simp only [ofReading, Prose.description_append_empty, Prose.footer_append_empty]
    rfl
  · rw [List.cons_append, Prose.read_tag (tagged line rfl _), ← List.cons_append]
    simp only [ofReading, readTags_append_empty]

end Outline

end Docblock.Comment
