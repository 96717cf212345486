import Docblock.Proofs.Comment.Displacement
import Docblock.Proofs.Comment.Reading
import Docblock.Proofs.Comment.Tidy

/-!
# Wrapped and bare comments

A comment that wraps lines in delimiters and stars is read like the bare lines, one line further down.
How the stars are aligned, how far the text behind them is set in, what blanks follow it and how the
lines end makes no difference.
-/

set_option autoImplicit false

namespace Docblock.Comment

open Text Line

inductive LineEnd where
  | feed
  | returnFeed

def LineEnd.before : LineEnd → Text
  | .feed => []
  | .returnFeed => ['\r']

/-- A line of a comment as it is written, with all text set in by `pad` spaces. -/
structure Row (pad : Nat) where
  line : Text
  before : Text
  /-- How many spaces the text is set in behind the star and its space. -/
  inset : Nat
  behind : Text
  ending : LineEnd
  line_feedless : '\n' ∉ line
  before_blank : isBlankText before = true
  before_feedless : '\n' ∉ before
  behind_blank : isBlankText behind = true
  behind_feedless : '\n' ∉ behind
  inset_eq : isBlankText line = false → inset = pad

/-- The comment that wraps the rows: the opening delimiter on a line of its own, the rows, and the
closing delimiter behind some blanks. -/
structure Wrapping (pad : Nat) where
  ending : LineEnd
  rows : List (Row pad)
  closing : Text
  closing_blank : isBlankText closing = true

variable {pad : Nat}

namespace Row

def piece (row : Row pad) : Text :=
  row.before ++ '*' :: ' ' :: (List.replicate row.inset ' ' ++ row.line ++ row.behind ++ row.ending.before)

def text (row : Row pad) : Text :=
  row.piece ++ ['\n']

end Row

namespace Wrapping

def lines (wrapping : Wrapping pad) : List Text :=
  wrapping.rows.map Row.line

def body (wrapping : Wrapping pad) : Text :=
  wrapping.ending.before ++ '\n' :: (wrapping.rows.flatMap Row.text ++ wrapping.closing)

def text (wrapping : Wrapping pad) : Text :=
  ['/', '*', '*'] ++ wrapping.body ++ ['*', '/']

end Wrapping

/-! ## From the comment to its lines -/

theorem LineEnd.before_blank (ending : LineEnd) : isBlankText ending.before = true := by
  cases ending <;> decide

theorem LineEnd.before_feedless (ending : LineEnd) : '\n' ∉ ending.before := by
  cases ending <;> decide

theorem stripDelimiters_surrounded (body : Text) :
    stripDelimiters (['/', '*', '*'] ++ body ++ ['*', '/']) = body := by
  have trimmed : trim (['/', '*', '*'] ++ body ++ ['*', '/']) = ['/', '*', '*'] ++ body ++ ['*', '/'] := by
    have slash : isBlank '/' = false := by decide
    have bracketed := trim_bracketed slash slash ('*' :: '*' :: (body ++ ['*']))
    simpa using bracketed
  have opened : stripPrefix ['/', '*', '*'] (['/', '*', '*'] ++ body ++ ['*', '/']) =
      some (body ++ ['*', '/']) := stripPrefix_eq_some_iff.2 (by simp)
  have closed : stripSuffix ['*', '/'] (body ++ ['*', '/']) = some body := stripSuffix_eq_some_iff.2 rfl
  simp only [stripDelimiters, trimmed, opened, Option.some_or, Option.getD_some, closed]

namespace Row

theorem piece_feedless (row : Row pad) : '\n' ∉ row.piece := by
  have spaces : '\n' ∉ List.replicate row.inset ' ' := by simp [List.mem_replicate]
  simp [piece, row.before_feedless, spaces, row.line_feedless, row.behind_feedless,
    row.ending.before_feedless]

theorem stripMarker_piece (row : Row pad) : stripMarker row.piece =
    List.replicate row.inset ' ' ++ (row.line ++ (row.behind ++ row.ending.before)) := by
  have star : isBlank '*' = false := by decide
  have start : trimStart row.piece = '*' :: ' ' ::
      (List.replicate row.inset ' ' ++ row.line ++ row.behind ++ row.ending.before) := by
    rw [piece, trimStart_blank_append row.before_blank, trimStart_of_visible star]
  simp [stripMarker, start]

theorem inset_stripMarker (row : Row pad) : Inset pad row.line (stripMarker row.piece) := by
  have blank : isBlankText (row.behind ++ row.ending.before) = true := by
    rw [isBlankText_append, row.behind_blank, row.ending.before_blank]
    rfl
  rw [stripMarker_piece]
  by_cases empty : isBlankText row.line = true
  · have spaces : isBlankText (List.replicate row.inset ' ') = true :=
      isBlankText_of_isIndent fun c inside => by rw [List.eq_of_mem_replicate inside]; rfl
    refine .inl ⟨empty, ?_⟩
    rw [isBlankText_append, isBlankText_append, spaces, empty, blank]
    rfl
  · rw [Bool.not_eq_true] at empty
    rw [row.inset_eq empty]
    exact .inr ⟨empty, _, blank, rfl⟩

end Row

theorem isBlankText_of_mem_pieces {text piece : Text} (blank : isBlankText text = true)
    (inside : piece ∈ pieces text) : isBlankText piece = true := by
  induction text generalizing piece with
  | nil =>
      rw [pieces, List.mem_singleton] at inside
      rw [inside]
      rfl
  | cons c text induction =>
      rw [isBlankText_cons, Bool.and_eq_true] at blank
      simp only [pieces] at inside
      split at inside
      · rcases List.mem_cons.1 inside with rfl | member
        · rfl
        · exact induction blank.2 member
      · cases shape : pieces text with
        | nil => exact absurd shape (pieces_ne_nil text)
        | cons first more =>
            simp only [shape] at inside
            rcases List.mem_cons.1 inside with rfl | member
            · rw [isBlankText_cons, blank.1, induction blank.2 (shape ▸ List.mem_cons_self)]
              rfl
            · exact induction blank.2 (shape ▸ List.mem_cons_of_mem first member)

theorem pieces_unlines {lines : List Text} (feedless : Feedless lines) (some : lines ≠ []) :
    pieces (unlines lines) = lines := by
  induction lines with
  | nil => exact absurd rfl some
  | cons line lines induction =>
      rw [Feedless.cons_iff] at feedless
      by_cases none : lines = []
      · subst none
        rw [unlines_singleton, pieces_line feedless.1]
      · have joined : unlines (line :: lines) = line ++ '\n' :: unlines lines := by
          rw [← List.singleton_append, unlines_append (by simp) none, unlines_singleton]
        rw [joined, pieces_append_feed, pieces_line feedless.1, induction feedless.2 none,
          List.singleton_append]

namespace Wrapping

theorem pieces_rows (rows : List (Row pad)) (closing : Text) :
    pieces (rows.flatMap Row.text ++ closing) = rows.map Row.piece ++ pieces closing := by
  induction rows with
  | nil => rfl
  | cons row rows induction =>
      have shape : (row :: rows).flatMap Row.text ++ closing =
          row.piece ++ '\n' :: (rows.flatMap Row.text ++ closing) := by
        simp [Row.text]
      rw [shape, pieces_append_feed, pieces_line row.piece_feedless, induction]
      rfl

theorem feedless_lines (wrapping : Wrapping pad) : Feedless wrapping.lines := by
  intro line inside
  obtain ⟨row, -, rfl⟩ := List.mem_map.1 inside
  exact row.line_feedless

theorem exists_tidy_pieces (wrapping : Wrapping pad) :
    ∃ count, tidy ((pieces wrapping.body).map stripMarker) =
      List.replicate 1 [] ++ (tidy wrapping.lines ++ List.replicate count []) := by
  have closingBlank : ∀ line ∈ (pieces wrapping.closing).map stripMarker, isBlankText line = true := by
    intro line inside
    obtain ⟨piece, member, rfl⟩ := List.mem_map.1 inside
    have blank := isBlankText_of_mem_pieces wrapping.closing_blank member
    rwa [stripMarker_of_blank blank]
  have openingBlank : ∀ line ∈ [wrapping.ending.before], isBlankText line = true := by
    intro line inside
    rw [List.mem_singleton.1 inside]
    exact wrapping.ending.before_blank
  have rows : List.Forall₂ (Inset pad) wrapping.lines (wrapping.rows.map fun row => stripMarker row.piece) := by
    rw [lines, List.forall₂_map_left_iff, List.forall₂_map_right_iff, List.forall₂_same]
    exact fun row _ => row.inset_stripMarker
  have cut : (pieces wrapping.body).map stripMarker =
      [wrapping.ending.before] ++ (wrapping.rows.map fun row => stripMarker row.piece) ++
        (pieces wrapping.closing).map stripMarker := by
    rw [body, pieces_append_feed, pieces_line wrapping.ending.before_feedless, pieces_rows,
      List.map_append, List.map_append, List.map_map, List.map_singleton,
      stripMarker_of_blank wrapping.ending.before_blank, List.append_assoc]
    rfl
  refine ⟨((pieces wrapping.closing).map stripMarker).length, ?_⟩
  rw [cut, tidy_surrounded openingBlank closingBlank, tidy_inset rows, List.append_assoc]
  rfl

theorem exists_prepare_unlines (wrapping : Wrapping pad) :
    ∃ few many, prepare false (unlines wrapping.lines) ++ List.replicate few [] =
      tidy wrapping.lines ++ List.replicate many [] := by
  obtain ⟨count, prepared⟩ := exists_prepare_append false (unlines wrapping.lines)
  rw [map_unmarked_false] at prepared
  by_cases none : wrapping.lines = []
  · rw [none] at prepared ⊢
    exact ⟨count, 1, prepared⟩
  · rw [pieces_unlines wrapping.feedless_lines none] at prepared
    exact ⟨count, 0, by simpa using prepared⟩

/-- The outline of a comment is that of the lines it wraps, one line further down. -/
theorem outline_text (wrapping : Wrapping pad) :
    Outline.ofComment wrapping.text = (Outline.ofBody false (unlines wrapping.lines)).down 1 := by
  obtain ⟨count, prepared⟩ := exists_prepare_append true wrapping.body
  obtain ⟨below, tidied⟩ := wrapping.exists_tidy_pieces
  obtain ⟨few, many, bare⟩ := wrapping.exists_prepare_unlines
  have marked : (pieces wrapping.body).map (unmarked true) = (pieces wrapping.body).map stripMarker := rfl
  rw [marked, tidied] at prepared
  calc Outline.ofComment wrapping.text
      = Outline.ofLines (prepare true wrapping.body) := by
        rw [Outline.ofComment, text, stripDelimiters_surrounded, Outline.ofBody]
    _ = Outline.ofLines (prepare true wrapping.body ++ List.replicate count []) :=
        (Outline.ofLines_append_empty _ _).symm
    _ = (Outline.ofLines (tidy wrapping.lines ++ List.replicate below [])).down 1 := by
        rw [prepared, Outline.ofLines_empty_append]
    _ = (Outline.ofLines (tidy wrapping.lines ++ List.replicate many [])).down 1 := by
        rw [Outline.ofLines_append_empty, Outline.ofLines_append_empty]
    _ = (Outline.ofBody false (unlines wrapping.lines)).down 1 := by
        rw [← bare, Outline.ofLines_append_empty, Outline.ofBody]

end Wrapping

/-! ## From the outline to the comment -/

theorem readAll_down (options : ReadOptions) (raws : List RawTag) (count : Nat) :
    readAll options (raws.map (·.down count)) = readAll options raws := by
  have same : ∀ raw : RawTag, readTag options (raw.down count) = readTag options raw := fun raw => rfl
  induction raws with
  | nil => rfl
  | cons raw raws induction => rw [List.map_cons, readAll_cons, readAll_cons, same, induction]

theorem captionExample_down (piece : Example) (count : Nat) :
    captionExample (piece.down count) = (captionExample piece).down count := by
  have kind : (piece.down count).kind = piece.kind := rfl
  have val : (piece.down count).val = piece.val := rfl
  unfold captionExample
  rw [kind, val]
  by_cases javadoc : (piece.kind == .javadoc) = true
  · rw [if_pos javadoc, if_pos javadoc]
    cases splitCaption? piece.val <;> rfl
  · rw [if_neg javadoc, if_neg javadoc]

theorem assemble_down (options : ReadOptions) (outline : Outline) (tags : List Tag) (count : Nat) :
    assemble options (outline.down count) tags = (assemble options outline tags).down count := by
  simp only [assemble, Outline.down, Comment.down, List.map_map]
  by_cases jsdoc : options.jsdoc = true
  · simp [jsdoc, captionExample_down]
  · simp [jsdoc]

theorem ofOutline_down (options : ReadOptions) (outline : Outline) (count : Nat) :
    ofOutline options (outline.down count) = (ofOutline options outline).map (·.down count) := by
  have tags : (outline.down count).tags = outline.tags.map (·.down count) := rfl
  rw [ofOutline_eq, ofOutline_eq, tags, readAll_down]
  cases readAll options outline.tags with
  | error error => rfl
  | ok tags => exact congrArg Except.ok (assemble_down options outline tags count)

/-- A comment and the lines it wraps have the same outline, one line apart. So they also read as the same
comment, with examples one line apart, or fail with the same error. -/
theorem wrapped_reads_as_bare (wrapping : Wrapping pad) :
    Outline.ofComment wrapping.text = (Outline.ofBody false (unlines wrapping.lines)).down 1 ∧
      ∀ options : ReadOptions, read { options with unwrap := true } wrapping.text =
        (read { options with unwrap := false } (unlines wrapping.lines)).map (·.down 1) := by
  refine ⟨wrapping.outline_text, fun options => ?_⟩
  calc read { options with unwrap := true } wrapping.text
      = ofOutline { options with unwrap := true } (Outline.ofComment wrapping.text) := rfl
    _ = ofOutline { options with unwrap := false } ((Outline.ofBody false (unlines wrapping.lines)).down 1) := by
        rw [wrapping.outline_text]
        rfl
    _ = (ofOutline { options with unwrap := false }
          (Outline.ofBody false (unlines wrapping.lines))).map (·.down 1) := ofOutline_down _ _ _
    _ = (read { options with unwrap := false } (unlines wrapping.lines)).map (·.down 1) := rfl

def setIn : Wrapping 2 where
  ending := .returnFeed
  rows :=
    [⟨[], [' '], 0, ['\t'], .feed, by decide, by decide, by decide, by decide, by decide,
        fun filled => absurd filled (by decide)⟩,
      ⟨"Sum.".toList, ['\t', ' '], 2, [' '], .returnFeed, by decide, by decide, by decide, by decide, by decide,
        fun _ => rfl⟩,
      ⟨"@example".toList, [], 2, [], .feed, by decide, by decide, by decide, by decide, by decide, fun _ => rfl⟩,
      ⟨"  sum()".toList, [], 2, [], .feed, by decide, by decide, by decide, by decide, by decide, fun _ => rfl⟩]
  closing := [' ']
  closing_blank := by decide

theorem lines_set_in_read_as_bare :
    setIn.text = "/**\r\n * \t\n\t *   Sum. \r\n*   @example\n*     sum()\n */".toList ∧
      Outline.ofComment setIn.text = (Outline.ofBody false "\nSum.\n@example\n  sum()".toList).down 1 ∧
      read {} setIn.text = (read { unwrap := false } "\nSum.\n@example\n  sum()".toList).map (·.down 1) := by
  have bare : unlines setIn.lines = "\nSum.\n@example\n  sum()".toList := by decide
  obtain ⟨outline, same⟩ := wrapped_reads_as_bare setIn
  rw [bare] at outline same
  exact ⟨by decide, outline, same {}⟩

end Docblock.Comment
