import Docblock.Proofs.Comment.Continuation
import Docblock.Proofs.Comment.Tidy

/-!
# One more tag

A line that begins a tag and is put behind a body adds this tag to the outline of the body. It ends
whatever is open there, prose, an example or a tag with blank lines behind it, and leaves it as it was. Two
things would take the line in: a fence that no line closes, and a footer behind the tags.
-/

set_option autoImplicit false

namespace Docblock.Comment

open Text Line

/-- Of the lines only empty ones are blank. -/
def Stripped (lines : List Text) : Prop :=
  ∀ line ∈ lines, isBlankText line = true → line = []

theorem stripped_prepare (wrapped : Bool) (body : Text) : Stripped (prepare wrapped body) := by
  intro line inside blank
  rw [prepare_eq, tidy] at inside
  obtain ⟨original, -, rfl⟩ := List.mem_map.1 inside
  by_cases empty : isBlankText original = true
  · rw [if_pos empty]
  · rw [if_neg empty, ← trim_eq_nil_iff, trim_trimEnd, trim_dedent, trim_eq_nil_iff] at blank
    exact absurd blank empty

theorem isBlankText_of_paragraph {line : Text} {rest : List Text} (empty : paragraph (line :: rest) = []) :
    isBlankText line = true := by
  rw [paragraph, trim_eq_nil_iff, isBlankText_unlines, List.all_cons, Bool.and_eq_true] at empty
  exact empty.1

/-! ## Behind tags -/

section Tags

variable {current : Option OpenTag} {blanks lineNo : Nat} {ending key val : Text} {lines : List Text}

theorem readTags_tag (begins : tag? ending = some (key, val)) (rest : List Text) :
    readTags current blanks lineNo (ending :: rest) =
      (current.toList.map OpenTag.close ++
          (readTags (some (OpenTag.ofLine key val ending lineNo)) 0 (lineNo + 1) rest).1,
        (readTags (some (OpenTag.ofLine key val ending lineNo)) 0 (lineNo + 1) rest).2) := by
  simp only [readTags, begins]

theorem readTags_empty_append_tag (begins : tag? ending = some (key, val)) (count : Nat) :
    readTags current blanks lineNo (List.replicate count [] ++ [ending]) =
      (current.toList.map OpenTag.close ++ [(OpenTag.ofLine key val ending (lineNo + count)).close], []) := by
  induction count generalizing current blanks lineNo with
  | zero => simp [readTags_tag begins, readTags]
  | succ count induction =>
      have further : lineNo + 1 + count = lineNo + (count + 1) := by omega
      rw [List.replicate_succ, List.cons_append]
      simp only [readTags, tag?_empty, List.isEmpty_nil, if_true, induction, further]
      cases current with
      | none => rfl
      | some tag => simp [OpenTag.close_push_empty]

/-- Where no footer has begun, a line that begins a tag ends the one before it and is one itself. -/
theorem readTags_append_tag (begins : tag? ending = some (key, val)) (count : Nat) (stripped : Stripped lines)
    (noFooter : (readTags current blanks lineNo lines).2 = []) :
    readTags current blanks lineNo (lines ++ (List.replicate count [] ++ [ending])) =
      ((readTags current blanks lineNo lines).1 ++
        [(OpenTag.ofLine key val ending (lineNo + lines.length + count)).close], []) := by
  induction lines generalizing current blanks lineNo with
  | nil => simpa [readTags] using readTags_empty_append_tag begins count
  | cons line rest induction =>
      have later : Stripped rest := fun other inside => stripped other (List.mem_cons_of_mem line inside)
      have further : lineNo + 1 + rest.length + count = lineNo + (line :: rest).length + count := by
        rw [List.length_cons]
        omega
      rw [List.cons_append]
      cases found : tag? line with
      | some parts =>
          simp only [readTags, found] at noFooter ⊢
          rw [induction later noFooter, further, List.append_assoc]
      | none =>
          simp only [readTags, found] at noFooter ⊢
          by_cases empty : line.isEmpty = true
          · simp only [empty, if_true] at noFooter ⊢
            rw [induction later noFooter, further]
          · simp only [empty, Bool.false_eq_true, if_false] at noFooter ⊢
            by_cases ends : 2 ≤ blanks ∧ indentation line = 0
            · -- a footer is not empty, for it begins with a line that is not
              rw [if_pos ends] at noFooter
              have nothing := stripped line List.mem_cons_self (isBlankText_of_paragraph noFooter)
              rw [nothing] at empty
              exact absurd rfl empty
            · rw [if_neg ends] at noFooter ⊢
              rw [if_neg ends, induction later noFooter, further]

end Tags

/-! ## Behind all lines -/

theorem Prose.exists_passed (prose : Prose) (lineNo : Nat) (lines : List Text) :
    ∃ passed, passed ++ (read prose lineNo lines).2.2 = lines ∧
      (read prose lineNo lines).2.1 = lineNo + passed.length := by
  fun_induction read prose lineNo lines with
  | case1 prose lineNo => exact ⟨[], rfl, rfl⟩
  | case2 prose lineNo line rest start => exact ⟨[], rfl, rfl⟩
  | case3 prose lineNo line rest start induction =>
      obtain ⟨passed, whole, number⟩ := induction
      refine ⟨line :: passed, by rw [List.cons_append, whole], ?_⟩
      rw [number, List.length_cons]
      omega
  | case4 prose lineNo line rest kind start halves shorter =>
      rename_i induction
      obtain ⟨passed, whole, number⟩ := induction
      have cut : halves.1 ++ halves.2 = rest := Block.cut_append kind rest
      refine ⟨line :: (halves.1 ++ passed), ?_, ?_⟩
      · rw [List.cons_append, List.append_assoc, whole, cut]
      · rw [number, List.length_cons, List.length_append]
        omega

theorem Prose.startOf_of_tag? {pending : List Text} {line key val : Text}
    (begins : tag? line = some (key, val)) (other : key ≠ "example".toList) :
    startOf pending line = .tag := by
  have shallow : indentation line < codeIndent := indentation_lt_of_tag? (by rw [begins]; rfl)
  have plain : (key == "example".toList) = false := beq_eq_false_iff_ne.2 other
  simp only [startOf, if_pos shallow, begins, plain, Bool.false_eq_true, if_false]

namespace Outline

def tagFooter (lines : List Text) : Text :=
  let (_, lineNo, rest) := Prose.read ⟨[], [], []⟩ 0 lines
  (readTags none 0 lineNo rest).2

/-- A line that begins a tag adds it to the outline, behind empty lines too. -/
theorem ofLines_append_tag {lines : List Text} {ending key val : Text}
    (begins : tag? ending = some (key, val)) (count : Nat) (stripped : Stripped lines)
    (closed : Prose.leavesFenceOpen [] lines = false) (noFooter : tagFooter lines = [])
    (other : (ofLines lines).tags = [] → key ≠ "example".toList) :
    ofLines (lines ++ (List.replicate count [] ++ [ending])) =
      { ofLines lines with
        tags := (ofLines lines).tags ++ [(OpenTag.ofLine key val ending (lines.length + count)).close] } := by
  have tagged : BeginsTag [ending] := by
    intro line inside
    cases inside
    rw [begins]
    rfl
  have whole := Prose.read_append ⟨[], [], []⟩ 0 tagged count lines (.inl closed)
  have stops := Prose.startOf_of_mem_read ⟨[], [], []⟩ 0 lines
  obtain ⟨passed, parted, number⟩ := Prose.exists_passed ⟨[], [], []⟩ 0 lines
  simp only [tagFooter] at noFooter
  rw [ofLines_eq] at other
  rw [ofLines_eq, ofLines_eq, whole]
  generalize Prose.read ⟨[], [], []⟩ 0 lines = reading at stops parted number noFooter other ⊢
  rcases reading with ⟨prose, lineNo, _ | ⟨first, rest⟩⟩ <;> simp only at parted number noFooter
  · -- there is no tag yet: the empty lines are the last of the prose
    have start : ∀ pending, Prose.startOf pending ending = .tag :=
      fun pending => Prose.startOf_of_tag? begins (other rfl)
    have length : lineNo = lines.length := by
      rw [← parted, List.append_nil, number, Nat.zero_add]
    rw [List.nil_append, Prose.read_empty_append, Prose.read_tag (start _)]
    simp only [ofReading, Prose.description_append_empty, Prose.footer_append_empty, length]
    simp [readTags, begins]
  · have length : lineNo + (first :: rest).length = lines.length := by
      rw [← parted, List.length_append, number]
      omega
    have later : Stripped (first :: rest) := by
      intro line inside
      exact stripped line (parted ▸ List.mem_append_right passed inside)
    rw [List.cons_append, Prose.read_tag (stops first rfl _), ← List.cons_append]
    simp only [ofReading]
    rw [readTags_append_tag begins count later noFooter, noFooter, length]

end Outline

/-! ## Tags of one line -/

/-- A key and a body that can stand together on one line. -/
structure TagLine where
  key : Text
  val : Text
  key_filled : key ≠ []
  key_visible : key.any isBlank = false
  key_braceless : '{' ∉ key
  val_trimmed : trim val = val
  val_feedless : '\n' ∉ val

namespace TagLine

def text (tag : TagLine) : Text :=
  (RawTag.ofParts tag.key tag.val).raw

def rawTag (tag : TagLine) (lineNo : Nat) : RawTag :=
  { RawTag.ofParts tag.key tag.val with location := Location.ofLines lineNo lineNo (byteSize tag.text) }

def behind (tag : TagLine) : Text :=
  if tag.val.isEmpty then [] else ' ' :: tag.val

theorem isBlank_at : isBlank '@' = false := by decide

variable (tag : TagLine)

theorem isBlank_of_mem_key : ∀ c ∈ tag.key, isBlank c = false := by
  intro c inside
  simpa using List.any_eq_false.1 tag.key_visible c inside

theorem text_eq : tag.text = '@' :: (tag.key ++ tag.behind) := by
  unfold text RawTag.ofParts behind
  by_cases empty : tag.val.isEmpty = true
  · simp [empty]
  · simp [empty]

theorem isBlank_head_behind : ∀ c ∈ tag.behind.head?, isBlank c = true := by
  unfold behind
  intro c inside
  by_cases empty : tag.val.isEmpty = true
  · simp [empty] at inside
  · simp only [empty, Bool.false_eq_true, if_false, List.head?_cons, Option.mem_some_iff] at inside
    rw [← inside]
    decide

theorem dropWhile_behind : tag.behind.dropWhile isIndent = tag.val := by
  unfold behind
  cases shape : tag.val with
  | nil => rfl
  | cons c val =>
      have trimmed := tag.val_trimmed
      rw [shape] at trimmed
      have visible : isBlank c = false := isBlank_of_trim_eq_cons trimmed
      have space : isIndent ' ' = true := rfl
      have solid : isIndent c = false := by
        by_cases indent : isIndent c = true
        · rw [isBlank_of_isIndent indent] at visible
          cases visible
        · simpa using indent
      simp [space, solid]

theorem trimEnd_text : trimEnd tag.text = tag.text := by
  rw [text_eq, behind]
  cases shape : tag.val with
  | nil =>
      have trimmed : trim ('@' :: tag.key) = '@' :: tag.key := by
        apply trim_of_visible
        simpa [isBlank_at] using tag.isBlank_of_mem_key
      simpa using trimEnd_of_trim_eq trimmed
  | cons c val =>
      have trimmed := tag.val_trimmed
      rw [shape] at trimmed
      have filled : isBlankText (c :: val) = false := by
        rw [isBlankText_cons, isBlank_of_trim_eq_cons trimmed]
        rfl
      have whole : '@' :: (tag.key ++ ' ' :: c :: val) = '@' :: tag.key ++ [' '] ++ c :: val := by simp
      simp only [List.isEmpty_cons, Bool.false_eq_true, if_false]
      rw [whole, trimEnd_append filled, trimEnd_of_trim_eq trimmed]

theorem trim_text : trim tag.text = tag.text := by
  have start : trimStart tag.text = tag.text := by rw [text_eq, trimStart_of_visible isBlank_at]
  rw [trim, start, trimEnd_text]

theorem isBlankText_text : isBlankText tag.text = false := by
  rw [text_eq, isBlankText_cons, isBlank_at, Bool.false_and]

theorem text_feedless : '\n' ∉ tag.text := by
  have key : '\n' ∉ tag.key := fun inside => absurd (tag.isBlank_of_mem_key _ inside) (by decide)
  rw [text_eq, behind]
  by_cases empty : tag.val.isEmpty = true
  · simp [empty, key]
  · simp [empty, key, tag.val_feedless]

theorem indentation_text : indentation tag.text = 0 := by
  rw [text_eq]
  rfl

theorem tag?_text : tag? tag.text = some (tag.key, tag.val) := by
  have inside : ∀ c ∈ tag.key, (!(isBlank c || c == '{')) = true := by
    intro c member
    have other : c ≠ '{' := fun brace => tag.key_braceless (brace ▸ member)
    simp [tag.isBlank_of_mem_key c member, other]
  have stops : ∀ c ∈ tag.behind.head?, (!(isBlank c || c == '{')) = false := by
    intro c member
    simp [tag.isBlank_head_behind c member]
  have filled : tag.key.isEmpty = false := by simpa using tag.key_filled
  have shallow : indentation tag.text < codeIndent := by
    rw [indentation_text]
    decide
  obtain ⟨key, rest⟩ := span_append tag.key stops
  rw [List.takeWhile_eq_self_iff.2 inside] at key
  rw [List.dropWhile_eq_nil_iff.2 inside, List.nil_append] at rest
  rw [tag?, if_pos shallow, trim_text]
  simp only [text_eq, key, rest, filled, Bool.false_eq_true, if_false, dropWhile_behind]

theorem close_ofLine (lineNo : Nat) :
    (OpenTag.ofLine tag.key tag.val tag.text lineNo).close = tag.rawTag lineNo := by
  simp only [OpenTag.close, OpenTag.ofLine, paragraph, unlines_singleton, trim_text, trimEnd_text,
    tag.val_trimmed, indentation_text]
  rfl

end TagLine

/-! ## From a body to its lines -/

variable (body : Text) (tag : TagLine) {indent : Text}

theorem exists_prepare_append_tag (indented : ∀ c ∈ indent, isIndent c = true)
    (aligned : indent.length = baseline (Text.lines body)) :
    ∃ few count, prepare false (body ++ '\n' :: (indent ++ tag.text)) ++ List.replicate few [] =
        prepare false body ++ (List.replicate count [] ++ [tag.text]) ∧
      (prepare false body).length + count = (pieces body).length := by
  obtain ⟨count, before⟩ := exists_prepare_append false body
  obtain ⟨few, after⟩ := exists_prepare_append false (body ++ '\n' :: (indent ++ tag.text))
  have feedless : '\n' ∉ indent ++ tag.text := by
    intro inside
    rcases List.mem_append.1 inside with inside | inside
    · exact absurd (indented _ inside) (by decide)
    · exact tag.text_feedless inside
  have filled : isBlankText (indent ++ tag.text) = false := by
    rw [isBlankText_append, tag.isBlankText_text, Bool.and_false]
  have level : indentation (indent ++ tag.text) = baseline (pieces body) := by
    rw [indentation_append indented, tag.indentation_text, baseline_pieces, aligned, Nat.add_zero]
  have depth := baseline_append filled level
  have last : trimEnd (dedent (baseline (pieces body)) (indent ++ tag.text)) = tag.text := by
    rw [baseline_pieces, ← aligned, dedent_indent indented, tag.trimEnd_text]
  rw [map_unmarked_false] at before after
  refine ⟨few, count, ?_, ?_⟩
  · rw [after, pieces_append_feed, pieces_line feedless, tidy, List.map_append, depth, ← List.append_assoc,
      before, tidy]
    simp [filled, last]
  · have length := congrArg List.length before
    simpa [tidy] using length

/-- A tag line behind a body, set in like its least indented line, adds this tag to the outline behind the
others and changes nothing else. The body does not end within a fence that nothing closes or within a footer
behind its tags, and where it has no tag the line does not begin an example. -/
theorem appended_tag_line_adds_one_tag (indented : ∀ c ∈ indent, isIndent c = true)
    (aligned : indent.length = baseline (Text.lines body))
    (closed : Prose.leavesFenceOpen [] (prepare false body) = false)
    (noFooter : Outline.tagFooter (prepare false body) = [])
    (other : (Outline.ofBody false body).tags = [] → tag.key ≠ "example".toList) :
    Outline.ofBody false (body ++ '\n' :: (indent ++ tag.text)) =
      { Outline.ofBody false body with
        tags := (Outline.ofBody false body).tags ++ [tag.rawTag (pieces body).length] } := by
  obtain ⟨few, count, prepared, number⟩ := exists_prepare_append_tag body tag indented aligned
  rw [Outline.ofBody, ← Outline.ofLines_append_empty _ few, prepared,
    Outline.ofLines_append_tag tag.tag?_text count (stripped_prepare false body) closed noFooter other,
    tag.close_ofLine, number]
  rfl

theorem tag_line_added_behind_example :
    let body := "  Adds.\n\n      add(1, 2)\n\n  @since 1\n".toList
    let tag : TagLine :=
      ⟨"returns".toList, "sum".toList, by decide, by decide, by decide, by decide, by decide⟩
    Prose.leavesFenceOpen [] (prepare false body) = false ∧ Outline.tagFooter (prepare false body) = [] ∧
      Outline.ofBody false (body ++ '\n' :: ([' ', ' '] ++ tag.text)) =
        { Outline.ofBody false body with
          tags := (Outline.ofBody false body).tags ++ [tag.rawTag 6] } := by
  intro body tag
  have closed : Prose.leavesFenceOpen [] (prepare false body) = false := by decide +kernel
  have noFooter : Outline.tagFooter (prepare false body) = [] := by decide +kernel
  have aligned : [' ', ' '].length = baseline (Text.lines body) := by decide +kernel
  have indented : ∀ c ∈ [' ', ' '], isIndent c = true := List.all_eq_true.1 rfl
  exact ⟨closed, noFooter, appended_tag_line_adds_one_tag body tag indented aligned closed noFooter
    fun _ => by decide⟩

end Docblock.Comment
