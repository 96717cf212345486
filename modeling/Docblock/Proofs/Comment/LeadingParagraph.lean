import Docblock.Proofs.Comment.Blocks

/-!
# The leading paragraph

Examples take the paragraph in front of them as their description, but never the first one of a comment: if
the comment begins with prose, so does its description, whatever follows.
-/

set_option autoImplicit false

namespace Docblock

namespace Text

theorem prefix_join (separator first : Text) (more : List Text) : first <+: join separator (first :: more) := by
  cases more with
  | nil => simp [join]
  | cons second more => simp [join, List.intercalate]

end Text

namespace Comment

open Text Line

namespace Line

/-- The line is prose wherever it stands: not indented as code is, and neither a tag nor a fence. -/
def isProse (line : Text) : Bool :=
  decide (indentation line < codeIndent) && (tag? line).isNone && !opensFence line

/-- The paragraph that is read goes on with the line: it is not blank and, unless it is indented as code is,
neither a tag nor a fence. -/
def goesOn (line : Text) : Bool :=
  !isBlankText line && !(decide (indentation line < codeIndent) && ((tag? line).isSome || opensFence line))

/-- The lines from the first one that is not blank as far as its paragraph goes on. -/
def firstParagraph (lines : List Text) : List Text :=
  (lines.dropWhile isBlankText).takeWhile goesOn

theorem isBlankText_of_goesOn {line : Text} (goes : goesOn line = true) : isBlankText line = false := by
  rw [goesOn, Bool.and_eq_true, Bool.not_eq_true'] at goes
  exact goes.1

theorem goesOn_of_isProse {line : Text} (filled : isBlankText line = false) (prose : isProse line = true) :
    goesOn line = true := by
  simp only [isProse, Bool.and_eq_true, Bool.not_eq_true', Option.isNone_iff_eq_none] at prose
  simp [goesOn, filled, prose.1.2, prose.2]

theorem paragraph_prefix {front lines : List Text} (begins : front <+: lines) :
    paragraph front <+: paragraph lines := by
  obtain ⟨more, rfl⟩ := begins
  by_cases none : front = []
  · rw [none]
    exact List.nil_prefix
  · by_cases whole : more = []
    · exact ⟨[], by rw [whole, List.append_nil, List.append_nil]⟩
    · rw [paragraph, paragraph, unlines_append none whole]
      exact trim_prefix _ _

end Line

structure Opening (front para : List Text) : Prop where
  some : para ≠ []
  filled : ∀ line ∈ para, isBlankText line = false
  shape : ∃ count, front = List.replicate count [] ++ para

namespace Opening

variable {front para lines : List Text}

theorem paragraph_eq (opening : Opening front para) : paragraph front = paragraph para := by
  obtain ⟨count, rfl⟩ := opening.shape
  exact paragraph_empty_append para count

theorem paragraph_ne_nil (opening : Opening front para) : paragraph front ≠ [] := by
  obtain ⟨first, more, shape⟩ := List.exists_cons_of_ne_nil opening.some
  intro empty
  rw [opening.paragraph_eq, shape] at empty
  have blank := isBlankText_of_paragraph empty
  rw [opening.filled first (by rw [shape]; exact List.mem_cons_self)] at blank
  cases blank

theorem ne_nil_of_prefix (opening : Opening front para) {text : Text} (begins : paragraph front <+: text) :
    text ≠ [] := by
  rintro rfl
  exact opening.paragraph_ne_nil (List.prefix_nil.1 begins)

theorem getLast?_filled (opening : Opening front para) : ∀ last ∈ front.getLast?, last ≠ [] := by
  obtain ⟨count, rfl⟩ := opening.shape
  intro last member
  rw [List.getLast?_append_of_ne_nil _ opening.some] at member
  rintro rfl
  have filled := opening.filled [] (List.mem_of_getLast? member)
  cases filled

theorem empty_of_prefix (opening : Opening front para) (short : lines <+: front)
    (last : ∀ line ∈ lines.getLast?, line = []) : ∀ line ∈ lines, line = [] := by
  obtain ⟨count, rfl⟩ := opening.shape
  have long := List.prefix_append (List.replicate count []) para
  rcases List.prefix_or_prefix_of_prefix short long with early | ⟨more, rfl⟩
  · exact fun line inside => List.eq_of_mem_replicate (early.subset inside)
  · rw [List.prefix_append_right_inj] at short
    -- a line of the paragraph is not empty, so there is none
    have none : more = [] := by
      by_contra some
      rw [List.getLast?_append_of_ne_nil _ some] at last
      have inside := List.getLast_mem some
      have filled := opening.filled _ (short.subset inside)
      rw [last _ (List.getLast?_eq_some_getLast some)] at filled
      cases filled
    rw [none, List.append_nil]
    exact fun line inside => List.eq_of_mem_replicate inside

end Opening

namespace Prose

variable {prose : Prose} {pending front para rest : List Text} {line : Text} {lineNo : Nat}

/-! ## What an example leaves -/

theorem earlier_prefix (content : List Text) :
    (content.reverse.dropWhile (! ·.isEmpty)).reverse <+: content ∧
      ∀ line ∈ (content.reverse.dropWhile (! ·.isEmpty)).reverse.getLast?, line = [] := by
  constructor
  · have suffix : content.reverse.dropWhile (! ·.isEmpty) <:+ content.reverse := List.dropWhile_suffix _
    rwa [← List.reverse_prefix, List.reverse_reverse] at suffix
  · intro line last
    have head := List.head?_dropWhile_not (fun line : Text => ! line.isEmpty) content.reverse
    rw [List.getLast?_reverse] at last
    rw [Option.mem_def.1 last] at head
    simpa using head

theorem prefix_splitBlankTail (filled : ∀ last ∈ front.getLast?, last ≠ []) (begins : front <+: pending) :
    front <+: (Block.splitBlankTail pending).1 := by
  have whole := Block.splitBlankTail_append pending
  rcases List.prefix_or_prefix_of_prefix begins ⟨_, whole⟩ with within | ⟨more, longer⟩
  · exact within
  · have behind : more <+: (Block.splitBlankTail pending).2 := by
      rw [← List.prefix_append_right_inj (Block.splitBlankTail pending).1, longer, whole]
      exact begins
    have none : more = [] := by
      by_contra some
      have last : front.getLast? = .some (more.getLast some) := by
        rw [← longer, List.getLast?_append_of_ne_nil _ some, List.getLast?_eq_some_getLast some]
      have inside := behind.subset (List.getLast_mem some)
      exact filled _ last (Block.splitBlankTail_blanks pending _ inside)
    exact ⟨[], by rw [List.append_nil, ← longer, none, List.append_nil]⟩

/-- The paragraph that begins the pending lines is kept before the first example: the example adopts none but
a later one. -/
theorem adopt_keeps (opening : Opening front para) (begins : front <+: pending) :
    front <+: (adopt false pending).1 := by
  have inContent := prefix_splitBlankTail opening.getLast?_filled begins
  rcases shape : Block.splitBlankTail pending with ⟨content, gap⟩
  rw [shape] at inContent
  obtain ⟨early, ends⟩ := earlier_prefix content
  simp only [adopt, shape]
  split
  · next claims =>
      simp only [Bool.false_or, Bool.and_eq_true, List.any_eq_true] at claims
      obtain ⟨-, line, inside, filled⟩ := claims
      rcases List.prefix_or_prefix_of_prefix inContent early with within | short
      · exact within
      · simp [opening.empty_of_prefix short ends line inside] at filled
  · exact inContent

theorem addParagraph_nil {text : Text} (filled : text ≠ []) : addParagraph [] text = [text] := by
  simp [addParagraph, filled]

theorem addParagraph_cons (first : Text) (more : List Text) (text : Text) :
    addParagraph (first :: more) text = first :: addParagraph more text := by
  unfold addParagraph
  split <;> rfl

/-- The opening of a comment begins what has been read of its description. -/
inductive LedBy (front : List Text) (prose : Prose) : Prop where
  | pending (paragraphs : prose.paragraphs = []) (examples : prose.examples = []) (begins : front <+: prose.pending)
  | kept (first : Text) (more : List Text) (paragraphs : prose.paragraphs = first :: more)
      (begins : paragraph front <+: first)

namespace LedBy

theorem addLine (led : prose.LedBy front) (line : Text) : (prose.addLine line).LedBy front := by
  cases led with
  | pending paragraphs examples begins =>
      exact .pending paragraphs examples (begins.trans (List.prefix_append _ _))
  | kept first more paragraphs begins => exact .kept first more paragraphs begins

theorem addExample (opening : Opening front para) (led : prose.LedBy front) (kind : ExampleKind)
    (first : Text) (more : List Text) : (prose.addExample kind lineNo first more).LedBy front := by
  cases led with
  | pending paragraphs examples begins =>
      have kept := paragraph_prefix (adopt_keeps opening begins)
      refine .kept (paragraph (adopt false prose.pending).1) [] ?_ kept
      simp only [Prose.addExample, paragraphs, examples, List.isEmpty_nil, Bool.not_true]
      exact addParagraph_nil (opening.ne_nil_of_prefix kept)
  | kept first more paragraphs begins =>
      refine .kept first (addParagraph more (paragraph (adopt (!prose.examples.isEmpty) prose.pending).1)) ?_ begins
      simp only [Prose.addExample, paragraphs]
      exact addParagraph_cons first more _

theorem description (opening : Opening front para) (led : prose.LedBy front) :
    paragraph front <+: prose.description := by
  cases led with
  | pending paragraphs examples begins =>
      have whole := paragraph_prefix begins
      simp only [Prose.description, examples, paragraphs, List.isEmpty_nil, if_true,
        addParagraph_nil (opening.ne_nil_of_prefix whole)]
      exact whole.trans (prefix_join _ _ _)
  | kept first more paragraphs begins =>
      refine begins.trans ?_
      simp only [Prose.description, paragraphs, addParagraph_cons]
      split <;> exact prefix_join _ _ _

theorem read (opening : Opening front para) (led : prose.LedBy front) (lineNo : Nat) (lines : List Text) :
    (read prose lineNo lines).1.LedBy front :=
  read_keeps (fun prose _ => prose.LedBy front) LedBy.addLine (fun led => led.addExample opening) lines led

end LedBy

/-! ## Up to the end of the first paragraph -/

theorem startOf_of_goesOn (goes : goesOn line = true)
    (within : indentation line < codeIndent ∨ ((pending.getLast?).getD []).isEmpty = false) :
    startOf pending line = .line := by
  simp only [goesOn, Bool.and_eq_true, Bool.not_eq_true', Bool.and_eq_false_iff, decide_eq_false_iff_not,
    Bool.or_eq_false_iff, Option.isSome_eq_false_iff, Option.isNone_iff_eq_none] at goes
  unfold startOf
  split
  · next shallow =>
      obtain ⟨none, plain⟩ := goes.2.resolve_left (not_not_intro shallow)
      simp [none, plain]
  · next deep =>
      rw [if_neg]
      simp [within.resolve_left deep]

theorem read_paragraph (goes : ∀ line ∈ para, goesOn line = true)
    (within : ((prose.pending.getLast?).getD []).isEmpty = false) (lineNo : Nat) (rest : List Text) :
    Prose.read prose lineNo (para ++ rest) =
      Prose.read { prose with pending := prose.pending ++ para } (lineNo + para.length) rest := by
  induction para generalizing prose lineNo with
  | nil => simp
  | cons line para induction =>
      have here := goes line List.mem_cons_self
      have next : (((prose.addLine line).pending.getLast?).getD []).isEmpty = false := by
        simp [Prose.addLine, isEmpty_of_filled (isBlankText_of_goesOn here)]
      rw [List.cons_append, read_line (startOf_of_goesOn here (.inr within)),
        induction (fun other inside => goes other (List.mem_cons_of_mem line inside)) next]
      simp [Prose.addLine, Nat.add_comm, Nat.add_left_comm]

end Prose

theorem exists_opening {lines : List Text} (stripped : Stripped lines) {first : Text}
    (leads : lines.find? (! isBlankText ·) = some first) (prose : isProse first = true) :
    ∃ count para rest, firstParagraph lines = first :: para ∧ (∀ line ∈ first :: para, goesOn line = true) ∧
      lines = List.replicate count [] ++ (first :: (para ++ rest)) := by
  have filled : isBlankText first = false := by simpa using List.find?_some leads
  have goes : goesOn first = true := goesOn_of_isProse filled prose
  rw [List.find?_not_eq_head?_dropWhile] at leads
  obtain ⟨rest, behind⟩ := List.head?_eq_some_iff.1 leads
  have empty : lines.takeWhile isBlankText = List.replicate (lines.takeWhile isBlankText).length [] := by
    rw [List.eq_replicate_iff]
    refine ⟨rfl, fun line inside => ?_⟩
    exact stripped line ((List.takeWhile_sublist _).subset inside) (List.mem_takeWhile_imp inside)
  refine ⟨(lines.takeWhile isBlankText).length, rest.takeWhile goesOn, rest.dropWhile goesOn, ?_, ?_, ?_⟩
  · rw [firstParagraph, behind, List.takeWhile_cons_of_pos goes]
  · intro line inside
    rcases List.mem_cons.1 inside with rfl | later
    · exact goes
    · exact List.mem_takeWhile_imp later
  · rw [List.takeWhile_append_dropWhile, ← behind, ← empty, List.takeWhile_append_dropWhile]

/-- If the first line of a comment that is not blank is prose, the description of the comment begins with the
lines from there up to the first blank line, tag or fence, joined and trimmed. No example takes them, whatever
else the comment holds. -/
theorem description_starts_with_leading_paragraph (wrapped : Bool) (body : Text) {first : Text}
    (leads : (prepare wrapped body).find? (! isBlankText ·) = some first) (prose : isProse first = true) :
    paragraph (firstParagraph (prepare wrapped body)) <+: (Outline.ofBody wrapped body).description := by
  obtain ⟨count, para, rest, leading, goes, whole⟩ := exists_opening (stripped_prepare wrapped body) leads prose
  have opening : Opening (List.replicate count [] ++ first :: para) (first :: para) :=
    ⟨by simp, fun line inside => isBlankText_of_goesOn (goes line inside), count, rfl⟩
  have filled : first.isEmpty = false := isEmpty_of_filled (opening.filled first List.mem_cons_self)
  have shallow : indentation first < codeIndent := by
    simp only [isProse, Bool.and_eq_true, decide_eq_true_eq] at prose
    exact prose.1.1
  have start : ∀ pending, Prose.startOf pending first = .line := fun pending =>
    Prose.startOf_of_goesOn (goes first List.mem_cons_self) (.inl shallow)
  -- the first paragraph is read line by line, and begins what is pending then
  have reading : Prose.read ⟨[], [], []⟩ 0 (prepare wrapped body) =
      Prose.read ⟨[], List.replicate count [] ++ first :: para, []⟩ (0 + count + 1 + para.length) rest := by
    rw [whole, Prose.read_empty_append, Prose.read_line (start _), Prose.read_paragraph]
    · simp [Prose.addLine]
    · exact fun line inside => goes line (List.mem_cons_of_mem first inside)
    · simp [Prose.addLine, filled]
  have led : (⟨[], List.replicate count [] ++ first :: para, []⟩ : Prose).LedBy
      (List.replicate count [] ++ first :: para) := .pending rfl rfl List.prefix_rfl
  have read := led.read opening (0 + count + 1 + para.length) rest
  rw [← reading] at read
  rw [leading, ← opening.paragraph_eq]
  exact read.description opening

theorem leading_paragraph_above_fence :
    let body := " * Adds numbers.\n * ```\n * add(1, 2)\n * ```\n * Behind.".toList
    (prepare true body).find? (! isBlankText ·) = some "Adds numbers.".toList ∧
      isProse "Adds numbers.".toList = true ∧
      "Adds numbers.".toList <+: (Outline.ofBody true body).description := by
  intro body
  have leads : (prepare true body).find? (! isBlankText ·) = some "Adds numbers.".toList := by decide +kernel
  have prose : isProse "Adds numbers.".toList = true := by decide +kernel
  have leading : paragraph (firstParagraph (prepare true body)) = "Adds numbers.".toList := by decide +kernel
  refine ⟨leads, prose, ?_⟩
  rw [← leading]
  exact description_starts_with_leading_paragraph true body leads prose

end Comment

end Docblock
