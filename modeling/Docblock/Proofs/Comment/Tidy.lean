import Mathlib.Data.List.Forall2
import Docblock.Proofs.Comment.Conservation

/-!
# What tidying lines leaves out of account

The lines of a body are tidied: their common indentation and the blanks behind them are taken off. The
result is the same when all lines are set in further, when blanks are put behind them and, but for empty
lines, when blank lines are put around them. So it does not matter how lines end.
-/

set_option autoImplicit false

namespace Docblock.Comment

open Text

namespace Line

variable {line wide blanks : Text} {lines wides above below : List Text}

def tidy (lines : List Text) : List Text :=
  lines.map fun line => if isBlankText line then [] else trimEnd (dedent (baseline lines) line)

theorem isBlank_of_isIndent {c : Char} (indent : isIndent c = true) : isBlank c = true := by
  rcases (by simpa [isIndent] using indent : c = ' ' ∨ c = '\t') with rfl | rfl <;> decide

theorem isBlankText_of_isIndent (indent : ∀ c ∈ line, isIndent c = true) : isBlankText line = true :=
  List.all_eq_true.2 fun c inside => isBlank_of_isIndent (indent c inside)

theorem isBlankText_of_mem_replicate {count : Nat} (inside : line ∈ List.replicate count []) :
    isBlankText line = true := by
  rw [List.eq_of_mem_replicate inside]
  rfl

theorem indentation_append_blank (filled : isBlankText line = false) :
    indentation (line ++ blanks) = indentation line := by
  induction line with
  | nil => cases filled
  | cons c line induction =>
      by_cases indent : isIndent c = true
      · have rest : isBlankText line = false := by
          rw [isBlankText_cons, isBlank_of_isIndent indent] at filled
          simpa using filled
        have next := induction rest
        simp only [indentation] at next
        simp [indentation, indent, next]
      · simp [indentation, indent]

theorem indentation_inset (pad : Nat) (line : Text) :
    indentation (List.replicate pad ' ' ++ line) = pad + indentation line := by
  induction pad with
  | zero => simp
  | succ pad induction =>
      have space : isIndent ' ' = true := rfl
      simp only [indentation] at induction
      simp only [indentation, List.replicate_succ, List.cons_append, List.takeWhile_cons, space, if_true,
        List.length_cons, induction]
      omega

theorem dedent_inset (pad n : Nat) (line : Text) :
    dedent (pad + n) (List.replicate pad ' ' ++ line) = dedent n line := by
  induction pad with
  | zero => simp
  | succ pad induction =>
      have space : isIndent ' ' = true := rfl
      have deeper : pad + 1 + n = pad + n + 1 := by omega
      rw [deeper, List.replicate_succ, List.cons_append, dedent, if_pos space, induction]

theorem dedent_append {n : Nat} (deep : n ≤ indentation line) :
    dedent n (line ++ blanks) = dedent n line ++ blanks := by
  induction line generalizing n with
  | nil =>
      have none : n = 0 := by simpa [indentation] using deep
      rw [none]
      rfl
  | cons c line induction =>
      cases n with
      | zero => rfl
      | succ n =>
          by_cases indent : isIndent c = true
          · have next : n ≤ indentation line := by
              simpa [indentation, List.takeWhile_cons, indent] using deep
            simp [dedent, indent, induction next]
          · simp [indentation, indent] at deep

theorem indentation_append {indent : Text} (indented : ∀ c ∈ indent, isIndent c = true) :
    indentation (indent ++ line) = indent.length + indentation line := by
  rw [indentation, List.takeWhile_append_of_pos indented, List.length_append]
  rfl

theorem dedent_indent {indent : Text} (all : ∀ c ∈ indent, isIndent c = true) (line : Text) :
    dedent indent.length (indent ++ line) = line := by
  induction indent with
  | nil => rfl
  | cons c indent induction =>
      have first := all c List.mem_cons_self
      have rest := induction fun d inside => all d (List.mem_cons_of_mem c inside)
      rw [List.cons_append, List.length_cons, dedent, if_pos first, rest]

/-! ## The least indentation -/

def indentations (lines : List Text) : List Nat :=
  (lines.filter (! isBlankText ·)).map indentation

theorem baseline_eq (lines : List Text) : baseline lines = ((indentations lines).min?).getD 0 := rfl

theorem mem_indentations (inside : line ∈ lines) (filled : isBlankText line = false) :
    indentation line ∈ indentations lines :=
  List.mem_map_of_mem (List.mem_filter.2 ⟨inside, by simp [filled]⟩)

theorem baseline_le (inside : line ∈ lines) (filled : isBlankText line = false) :
    baseline lines ≤ indentation line := by
  have member := mem_indentations inside filled
  cases least : (indentations lines).min? with
  | none =>
      rw [List.min?_eq_none_iff.1 least] at member
      cases member
  | some depth =>
      rw [baseline_eq, least]
      exact (List.min?_eq_some_iff.1 least).2 _ member

theorem le_baseline {depth : Nat} (some : ∃ line ∈ lines, isBlankText line = false)
    (deep : ∀ line ∈ lines, isBlankText line = false → depth ≤ indentation line) : depth ≤ baseline lines := by
  cases least : (indentations lines).min? with
  | none =>
      obtain ⟨line, inside, filled⟩ := some
      have member := mem_indentations inside filled
      rw [List.min?_eq_none_iff.1 least] at member
      cases member
  | some shallowest =>
      obtain ⟨line, inside, rfl⟩ := List.mem_map.1 (List.min?_eq_some_iff.1 least).1
      rw [List.mem_filter] at inside
      rw [baseline_eq, least]
      exact deep line inside.1 (by simpa using inside.2)

/-- `wide` is `line` set in by `pad` spaces and with blanks behind it, unless both are blank. -/
def Inset (pad : Nat) (line wide : Text) : Prop :=
  (isBlankText line = true ∧ isBlankText wide = true) ∨
    isBlankText line = false ∧
      ∃ blanks, isBlankText blanks = true ∧ wide = List.replicate pad ' ' ++ (line ++ blanks)

namespace Inset

variable {pad : Nat}

theorem behind (line : Text) (blank : isBlankText blanks = true) : Inset 0 line (line ++ blanks) := by
  by_cases empty : isBlankText line = true
  · exact .inl ⟨empty, by simp [empty, blank]⟩
  · exact .inr ⟨by simpa using empty, blanks, blank, rfl⟩

theorem refl (line : Text) : Inset 0 line line := by
  simpa using behind line isBlankText_nil

theorem isBlankText_eq (inset : Inset pad line wide) : isBlankText wide = isBlankText line := by
  rcases inset with ⟨blank, blankWide⟩ | ⟨filled, blanks, blank, rfl⟩
  · rw [blank, blankWide]
  · simp [filled]

theorem indentation_eq (inset : Inset pad line wide) (filled : isBlankText line = false) :
    indentation wide = pad + indentation line := by
  rcases inset with ⟨blank, -⟩ | ⟨-, blanks, blank, rfl⟩
  · rw [blank] at filled
    cases filled
  · rw [indentation_inset, indentation_append_blank filled]

theorem indentations_eq (inset : List.Forall₂ (Inset pad) lines wides) :
    indentations wides = (indentations lines).map (pad + ·) := by
  induction inset with
  | nil => rfl
  | @cons line wide lines wides first _ induction =>
      have blank := first.isBlankText_eq
      simp only [indentations] at induction
      by_cases empty : isBlankText line = true
      · simp [indentations, blank, empty, induction]
      · rw [Bool.not_eq_true] at empty
        simp [indentations, blank, empty, induction, first.indentation_eq empty]

theorem baseline_eq (inset : List.Forall₂ (Inset pad) lines wides) (some : indentations lines ≠ []) :
    baseline wides = pad + baseline lines := by
  cases least : (indentations lines).min? with
  | none => exact absurd (List.min?_eq_none_iff.1 least) some
  | some depth =>
      obtain ⟨member, bound⟩ := List.min?_eq_some_iff.1 least
      have leastWide : (indentations wides).min? = .some (pad + depth) := by
        rw [indentations_eq inset, List.min?_eq_some_iff]
        refine ⟨List.mem_map_of_mem member, ?_⟩
        intro other inside
        obtain ⟨depth', inside', rfl⟩ := List.mem_map.1 inside
        exact Nat.add_le_add_left (bound depth' inside') pad
      rw [Line.baseline_eq, Line.baseline_eq, least, leastWide]
      rfl

theorem baseline_same (inset : List.Forall₂ (Inset 0) lines wides) : baseline wides = baseline lines := by
  rw [Line.baseline_eq, Line.baseline_eq, indentations_eq inset]
  simp

theorem tidy_line {depth : Nat} (inset : Inset pad line wide)
    (deep : isBlankText line = false → depth ≤ indentation line) :
    (if isBlankText wide then [] else trimEnd (dedent (pad + depth) wide)) =
      if isBlankText line then [] else trimEnd (dedent depth line) := by
  rw [inset.isBlankText_eq]
  rcases inset with ⟨blank, -⟩ | ⟨filled, blanks, blank, rfl⟩
  · rw [if_pos blank, if_pos blank]
  · rw [dedent_inset, dedent_append (deep filled), trimEnd_append_blank blank]

end Inset

/-- Setting lines in and putting blanks behind them does not show when they are tidied. -/
theorem tidy_inset {pad : Nat} (inset : List.Forall₂ (Inset pad) lines wides) : tidy wides = tidy lines := by
  have each : ∀ {depth deep : Nat} {some more : List Text}, List.Forall₂ (Inset pad) some more →
      (∀ line ∈ some, isBlankText line = false → depth ≤ indentation line ∧ deep = pad + depth) →
      more.map (fun line => if isBlankText line then [] else trimEnd (dedent deep line)) =
        some.map fun line => if isBlankText line then [] else trimEnd (dedent depth line) := by
    intro depth deep some more pairs bound
    induction pairs with
    | nil => rfl
    | @cons line wide some more first _ induction =>
        have here := bound line List.mem_cons_self
        rw [List.map_cons, List.map_cons,
          induction fun other inside => bound other (List.mem_cons_of_mem line inside)]
        congr 1
        by_cases blank : isBlankText line = true
        · simp [first.isBlankText_eq, blank]
        · rw [Bool.not_eq_true] at blank
          rw [(here blank).2]
          exact first.tidy_line fun filled => (here filled).1
  refine each inset fun line inside filled => ⟨baseline_le inside filled, Inset.baseline_eq inset ?_⟩
  intro none
  have member : indentation line ∈ indentations lines :=
    List.mem_map_of_mem (List.mem_filter.2 ⟨inside, by simp [filled]⟩)
  rw [none] at member
  cases member

theorem indentations_append : indentations (lines ++ below) = indentations lines ++ indentations below := by
  simp [indentations]

theorem indentations_blank (blank : ∀ line ∈ lines, isBlankText line = true) : indentations lines = [] := by
  simp only [indentations, List.map_eq_nil_iff, List.filter_eq_nil_iff]
  intro line inside
  simp [blank line inside]

theorem baseline_append (filled : isBlankText line = false)
    (aligned : indentation line = baseline lines) : baseline (lines ++ [line]) = baseline lines := by
  have one : indentations [line] = [indentation line] := by simp [indentations, filled]
  rw [baseline_eq, indentations_append, one]
  cases least : (indentations lines).min? with
  | none =>
      rw [List.min?_eq_none_iff.1 least, ← aligned]
      rfl
  | some depth =>
      have same : baseline lines = depth := by
        rw [baseline_eq, least]
        rfl
      obtain ⟨member, bound⟩ := List.min?_eq_some_iff.1 least
      have whole : (indentations lines ++ [indentation line]).min? = some depth := by
        rw [List.min?_eq_some_iff]
        refine ⟨List.mem_append_left _ member, ?_⟩
        intro other inside
        rcases List.mem_append.1 inside with inside | inside
        · exact bound other inside
        · have equal : other = depth := (List.mem_singleton.1 inside).trans (aligned.trans same)
          exact Nat.le_of_eq equal.symm
      rw [whole, same]
      rfl

/-- Blank lines around others become empty and do not change how those are tidied. -/
theorem tidy_surrounded (blankAbove : ∀ line ∈ above, isBlankText line = true)
    (blankBelow : ∀ line ∈ below, isBlankText line = true) :
    tidy (above ++ lines ++ below) =
      List.replicate above.length [] ++ tidy lines ++ List.replicate below.length [] := by
  have depth : baseline (above ++ lines ++ below) = baseline lines := by
    rw [baseline_eq, baseline_eq, indentations_append, indentations_append, indentations_blank blankAbove,
      indentations_blank blankBelow, List.nil_append, List.append_nil]
  have empty : ∀ {some : List Text} (n : Nat), (∀ line ∈ some, isBlankText line = true) →
      some.map (fun line => if isBlankText line then [] else trimEnd (dedent n line)) =
        List.replicate some.length [] := by
    intro some n blank
    rw [List.eq_replicate_iff]
    refine ⟨by simp, ?_⟩
    intro line inside
    obtain ⟨original, member, rfl⟩ := List.mem_map.1 inside
    rw [if_pos (blank original member)]
  simp only [tidy, depth, List.map_append, empty _ blankAbove, empty _ blankBelow]

/-! ## Bodies -/

theorem exists_append_dropReturn (line : Text) :
    ∃ blanks, isBlankText blanks = true ∧ line = dropReturn line ++ blanks := by
  unfold dropReturn
  cases found : stripSuffix ['\r'] line with
  | none => exact ⟨[], rfl, by simp⟩
  | some kept => exact ⟨['\r'], by decide, stripSuffix_eq_some_iff.1 found⟩

theorem exists_stripMarker_append (line : Text) (blank : isBlankText blanks = true) :
    ∃ more, isBlankText more = true ∧ stripMarker (line ++ blanks) = stripMarker line ++ more := by
  by_cases empty : isBlankText line = true
  · have start : trimStart (line ++ blanks) = [] := trimStart_eq_nil (by simp [empty, blank])
    refine ⟨blanks, blank, ?_⟩
    simp [stripMarker, start, trimStart_eq_nil empty]
  · have kept : trimStart line ≠ [] := fun nothing => empty (trimStart_eq_nil_iff.1 nothing)
    have behind : trimStart (line ++ blanks) = trimStart line ++ blanks := by
      unfold trimStart at kept ⊢
      rw [List.dropWhile_append, if_neg (by simpa using kept)]
    rcases shape : trimStart line with _ | ⟨c, rest⟩
    · exact absurd shape kept
    · by_cases star : c = '*'
      · subst star
        cases rest with
        | cons d rest =>
            by_cases space : d = ' '
            · subst space
              exact ⟨blanks, blank, by simp [stripMarker, behind, shape]⟩
            · exact ⟨blanks, blank, by simp [stripMarker, behind, shape, space]⟩
        | nil =>
            -- a space behind the star goes with it, also if it is one of the blanks
            cases blanks with
            | nil => exact ⟨[], rfl, by simp⟩
            | cons d blanks =>
                by_cases space : d = ' '
                · subst space
                  rw [isBlankText_cons, Bool.and_eq_true] at blank
                  exact ⟨blanks, blank.2, by simp [stripMarker, behind, shape]⟩
                · exact ⟨d :: blanks, blank, by simp [stripMarker, behind, shape, space]⟩
      · exact ⟨blanks, blank, by simp [stripMarker, behind, shape, star]⟩

theorem stripMarker_of_blank (blank : isBlankText line = true) : stripMarker line = line := by
  simp [stripMarker, trimStart_eq_nil blank]

def unmarked (wrapped : Bool) (line : Text) : Text :=
  if wrapped then stripMarker line else line

@[simp] theorem map_unmarked_false (lines : List Text) : lines.map (unmarked false) = lines := by
  have plain : unmarked false = id := rfl
  rw [plain, List.map_id]

theorem inset_unmarked_dropReturn (wrapped : Bool) (line : Text) :
    Inset 0 (unmarked wrapped (dropReturn line)) (unmarked wrapped line) := by
  obtain ⟨blanks, blank, whole⟩ := exists_append_dropReturn line
  cases wrapped with
  | false =>
      have inset := Inset.behind (dropReturn line) blank
      rwa [← whole] at inset
  | true =>
      obtain ⟨more, blankMore, stripped⟩ := exists_stripMarker_append (dropReturn line) blank
      have inset := Inset.behind (stripMarker (dropReturn line)) blankMore
      rwa [← stripped, ← whole] at inset

theorem prepare_eq (wrapped : Bool) (body : Text) :
    prepare wrapped body = tidy ((Text.lines body).map (unmarked wrapped)) := by
  cases wrapped with
  | false =>
      rw [map_unmarked_false]
      rfl
  | true => rfl

theorem exists_inset_lines (wrapped : Bool) (body : Text) :
    ∃ count, List.Forall₂ (Inset 0)
      ((Text.lines body).map (unmarked wrapped) ++ List.replicate count [])
      ((pieces body).map (unmarked wrapped)) := by
  obtain ⟨front, last, shape⟩ : ∃ front last, pieces body = front ++ [last] :=
    ⟨_, _, (List.dropLast_concat_getLast (pieces_ne_nil body)).symm⟩
  have returns : List.Forall₂ (Inset 0) ((front.map dropReturn).map (unmarked wrapped))
      (front.map (unmarked wrapped)) := by
    rw [List.map_map, List.forall₂_map_left_iff, List.forall₂_map_right_iff, List.forall₂_same]
    exact fun line _ => inset_unmarked_dropReturn wrapped line
  simp only [Text.lines, shape, List.getLast?_append, List.getLast?_singleton, Option.some_or,
    List.dropLast_concat]
  cases last with
  | nil =>
      have empty : unmarked wrapped [] = [] := by cases wrapped <;> rfl
      refine ⟨1, ?_⟩
      rw [List.map_append, List.map_singleton, empty]
      exact List.rel_append returns (.cons (Inset.refl []) .nil)
  | cons c last =>
      refine ⟨0, ?_⟩
      rw [List.replicate_zero, List.append_nil, List.map_append, List.map_append]
      exact List.rel_append returns (.cons (Inset.refl _) .nil)

theorem baseline_pieces (body : Text) : baseline (pieces body) = baseline (Text.lines body) := by
  obtain ⟨count, inset⟩ := exists_inset_lines false body
  rw [map_unmarked_false, map_unmarked_false] at inset
  have none : indentations (List.replicate count []) = [] :=
    indentations_blank fun line => isBlankText_of_mem_replicate
  rw [Inset.baseline_same inset, baseline_eq, baseline_eq, indentations_append, none, List.append_nil]

/-- The lines of a body are the tidied pieces between its line feeds, but perhaps for an empty last one. -/
theorem exists_prepare_append (wrapped : Bool) (body : Text) :
    ∃ count, prepare wrapped body ++ List.replicate count [] =
      tidy ((pieces body).map (unmarked wrapped)) := by
  obtain ⟨count, inset⟩ := exists_inset_lines wrapped body
  refine ⟨count, ?_⟩
  have surrounded : tidy ([] ++ (Text.lines body).map (unmarked wrapped) ++ List.replicate count []) = _ :=
    tidy_surrounded (by simp) fun line => isBlankText_of_mem_replicate
  rw [tidy_inset inset, prepare_eq]
  simpa using surrounded.symm

end Line

end Docblock.Comment
