import Docblock.Comment.Inline
import Docblock.Proofs.Text.Pattern
import Docblock.Proofs.Text.Span
import Docblock.Proofs.Text.Trim

/-!
# Inline tags in a text

A text is cut at the inline tags that are written in it. All of them are found, in order, whatever braces stand
around them, and replacing them leaves the text between them as it is. What is read at one place is what the regular
expression of inline tags matches there.
-/

set_option autoImplicit false

namespace Docblock.InlineTag

open Text

/-! ## One tag -/

/-- An inline tag as it is written. -/
structure Written where
  first : Char
  more : Text
  behind : Text
  first_letter : first.isAlpha = true
  more_named : ∀ c ∈ more, isWord c = true ∨ c = '.' ∨ c = '-'
  behind_braceless : '{' ∉ behind ∧ '}' ∉ behind
  behind_apart : ∀ c ∈ behind.head?, isBlank c = true

namespace Written

def name (written : Written) : Text :=
  written.first :: written.more

def text (written : Written) : Text :=
  '{' :: '@' :: (written.name ++ written.behind ++ ['}'])

def tag (written : Written) : InlineTag :=
  ⟨written.text, written.name, trim written.behind⟩

end Written

theorem isNameChar_of_isBlank {c : Char} (blank : isBlank c = true) : isNameChar c = false := by
  have none : ∀ range ∈ blankRanges, ∀ n ∈ List.range' range.1 (range.2 + 1 - range.1),
      isNameChar (Char.ofNat n) = false := by decide +kernel
  obtain ⟨range, member, low, high⟩ := inRanges_iff.1 blank
  have inside : c.toNat ∈ List.range' range.1 (range.2 + 1 - range.1) := by
    rw [List.mem_range'_1]
    omega
  rw [← Char.ofNat_toNat c]
  exact none range member c.toNat inside

theorem isPlain_iff {c : Char} : isPlain c = true ↔ c ≠ '{' ∧ c ≠ '}' := by
  simp [isPlain]

theorem isNameChar_iff {c : Char} : isNameChar c = true ↔ isWord c = true ∨ c = '.' ∨ c = '-' := by
  simp [isNameChar, or_assoc]

theorem isValue_iff {s : Text} : isValue s = true ↔ ∀ c ∈ s.head?, isBlank c = true := by
  cases s <;> simp [isValue]

namespace Written

variable (written : Written)

theorem isPlain_of_mem_behind {c : Char} (inside : c ∈ written.behind) : isPlain c = true := by
  rw [isPlain_iff]
  constructor <;> rintro rfl
  · exact written.behind_braceless.1 inside
  · exact written.behind_braceless.2 inside

theorem more_span (after : Text) :
    (written.more ++ (written.behind ++ '}' :: after)).takeWhile isNameChar = written.more ∧
      (written.more ++ (written.behind ++ '}' :: after)).dropWhile isNameChar = written.behind ++ '}' :: after := by
  refine span_all (fun c inside => isNameChar_iff.2 (written.more_named c inside)) fun c first => ?_
  cases shape : written.behind with
  | nil =>
      rw [shape] at first
      cases first
      decide
  | cons d behind =>
      rw [shape] at first
      cases first
      exact isNameChar_of_isBlank (written.behind_apart c (by rw [shape]; rfl))

theorem behind_span (after : Text) :
    (written.behind ++ '}' :: after).takeWhile isPlain = written.behind ∧
      (written.behind ++ '}' :: after).dropWhile isPlain = '}' :: after := by
  refine span_all (fun c inside => written.isPlain_of_mem_behind inside) fun c first => ?_
  cases first
  decide

theorem read?_text (after : Text) : read? (written.text ++ after) = some (written.tag, after) := by
  have shape : written.text ++ after =
      '{' :: '@' :: written.first :: (written.more ++ (written.behind ++ '}' :: after)) := by
    simp [text, name]
  obtain ⟨takesName, leavesName⟩ := written.more_span after
  obtain ⟨takesValue, leavesValue⟩ := written.behind_span after
  rw [shape]
  simp only [read?, written.first_letter, if_true, takesName, leavesName, takesValue, leavesValue,
    isValue_iff.2 written.behind_apart]
  rfl

end Written

theorem exists_written_of_read? {s after : Text} {tag : InlineTag} (found : read? s = some (tag, after)) :
    ∃ written : Written, tag = written.tag ∧ s = written.text ++ after := by
  have whole := read?_append found
  unfold read? at found
  split at found
  · rename_i first rest
    split at found
    · rename_i letter
      simp only at found
      split at found
      · split at found
        · rename_i value
          simp only [Option.some.injEq, Prod.mk.injEq] at found
          obtain ⟨rfl, rfl⟩ := found
          refine ⟨⟨first, rest.takeWhile isNameChar, (rest.dropWhile isNameChar).takeWhile isPlain, letter, ?_, ?_,
            isValue_iff.1 value⟩, rfl, whole⟩
          · exact fun c inside => isNameChar_iff.1 (List.mem_takeWhile_imp inside)
          · constructor <;> intro inside <;> exact absurd (List.mem_takeWhile_imp inside) (by decide)
        · cases found
      · cases found
    · cases found
  · cases found

namespace Written

variable {written other : Written} {rest before after : Text}

theorem eq_of_text_append (same : written.text ++ rest = other.text ++ after) : written = other ∧ rest = after := by
  have read := written.read?_text rest
  rw [same, other.read?_text after] at read
  simp only [Option.some.injEq, Prod.mk.injEq, tag, InlineTag.mk.injEq] at read
  obtain ⟨⟨text, name, -⟩, left⟩ := read
  refine ⟨?_, left.symm⟩
  obtain ⟨first, more, behind⟩ := written
  obtain ⟨otherFirst, otherMore, otherBehind⟩ := other
  simp only [Written.name, List.cons.injEq] at name
  obtain ⟨rfl, rfl⟩ := name
  simp only [Written.text, Written.name, List.cons.injEq, true_and, List.append_cancel_right_eq,
    List.append_cancel_left_eq] at text
  subst text
  rfl

theorem brace_not_mem (written : Written) : '{' ∉ '@' :: (written.name ++ written.behind ++ ['}']) := by
  have first : written.first ≠ '{' := by
    intro same
    have letter := written.first_letter
    rw [same] at letter
    cases letter
  have more : '{' ∉ written.more := fun inside =>
    absurd (isNameChar_iff.2 (written.more_named _ inside)) (by decide)
  simp [name, first.symm, more, written.behind_braceless.1]

theorem same_or_behind (same : written.text ++ rest = before ++ (other.text ++ after)) :
    (before = [] ∧ written = other ∧ rest = after) ∨
      ∃ between, before = written.text ++ between ∧ rest = between ++ (other.text ++ after) := by
  cases before with
  | nil => exact .inl ⟨rfl, eq_of_text_append same⟩
  | cons c before =>
      rcases List.append_eq_append_iff.1 same with ⟨between, early, late⟩ | ⟨overlap, early, late⟩
      · exact .inr ⟨between, early, late⟩
      · cases overlap with
        | nil => exact .inr ⟨[], by simpa using early.symm, by simpa using late.symm⟩
        | cons d overlap =>
            -- the brace that opens the second would stand within the first
            exfalso
            simp only [text, List.cons_append, List.cons.injEq] at early late
            apply written.brace_not_mem
            rw [early.2, late.1]
            simp

end Written

/-! ## All tags -/

variable {s rest : Text} {c : Char}

/-- A text is read tag by tag, and where none is written character by character. -/
@[elab_as_elim]
theorem scan_induction {motive : Text → Prop} (nil : motive [])
    (tag : ∀ (written : Written) (after : Text), motive after → motive (written.text ++ after))
    (char : ∀ (c : Char) (rest : Text), read? (c :: rest) = none → motive rest → motive (c :: rest))
    (s : Text) : motive s := by
  fun_induction pieces s with
  | case1 => exact nil
  | case2 c rest found after reads induction =>
      obtain ⟨written, -, whole⟩ := exists_written_of_read? reads
      rw [whole]
      exact tag written after induction
  | case3 c rest none induction => exact char c rest none induction

theorem pieces_tag (written : Written) (after : Text) :
    pieces (written.text ++ after) = .tag written.tag :: pieces after := by
  have reads := written.read?_text after
  rw [Written.text, List.cons_append] at reads ⊢
  rw [pieces]
  split
  · next found =>
      rw [reads] at found
      cases found
      rfl
  · next none =>
      rw [reads] at none
      cases none

theorem pieces_char (none : read? (c :: rest) = none) : pieces (c :: rest) = .char c :: pieces rest := by
  rw [pieces]
  split
  · next found =>
      rw [none] at found
      cases found
  · rfl

theorem collect_nil : collect [] = [] := by
  simp [collect, pieces]

theorem collect_tag (written : Written) (after : Text) :
    collect (written.text ++ after) = written.tag :: collect after := by
  simp [collect, pieces_tag]

theorem collect_char (none : read? (c :: rest) = none) : collect (c :: rest) = collect rest := by
  simp [collect, pieces_char none]

theorem replace_nil (substitute : InlineTag → Text) : replace substitute [] = [] := by
  simp [replace, pieces]

theorem replace_tag (substitute : InlineTag → Text) (written : Written) (after : Text) :
    replace substitute (written.text ++ after) = substitute written.tag ++ replace substitute after := by
  simp [replace, pieces_tag]

theorem replace_char (substitute : InlineTag → Text) (none : read? (c :: rest) = none) :
    replace substitute (c :: rest) = c :: replace substitute rest := by
  simp [replace, pieces_char none]

/-- A text cut at the tags in it. -/
structure Cut where
  lead : Text
  parts : List (Written × Text)

namespace Cut

def fill (cut : Cut) (substitute : Written → Text) : Text :=
  cut.lead ++ cut.parts.flatMap fun part => substitute part.1 ++ part.2

def text (cut : Cut) : Text :=
  cut.fill Written.text

def tags (cut : Cut) : List InlineTag :=
  cut.parts.map fun part => part.1.tag

def push (c : Char) (cut : Cut) : Cut :=
  ⟨c :: cut.lead, cut.parts⟩

def pushTag (written : Written) (cut : Cut) : Cut :=
  ⟨[], (written, cut.lead) :: cut.parts⟩

theorem fill_push (c : Char) (cut : Cut) (substitute : Written → Text) :
    (cut.push c).fill substitute = c :: cut.fill substitute := rfl

theorem fill_pushTag (written : Written) (cut : Cut) (substitute : Written → Text) :
    (cut.pushTag written).fill substitute = substitute written ++ cut.fill substitute := by
  simp [fill, pushTag]

/-- The tags of the cut are all that are written in the text, each in its place. -/
def Finds (cut : Cut) : Prop :=
  ∀ before (written : Written) after, cut.text = before ++ (written.text ++ after) →
    ∃ front gap back, cut.parts = front ++ (written, gap) :: back ∧
      before = (Cut.mk cut.lead front).text ∧ after = (Cut.mk gap back).text

theorem finds_nil : (Cut.mk [] []).Finds := by
  intro before written after whole
  have empty : before ++ (written.text ++ after) = [] := whole.symm
  simp [Written.text] at empty

theorem Finds.push {cut : Cut} (finds : cut.Finds) (none : read? (c :: cut.text) = none) : (cut.push c).Finds := by
  intro before written after whole
  rw [text, fill_push, ← text] at whole
  cases before with
  | nil =>
      rw [whole, List.nil_append, written.read?_text] at none
      cases none
  | cons d before =>
      obtain ⟨rfl, within⟩ := List.cons.inj whole
      obtain ⟨front, gap, back, parts, early, late⟩ := finds before written after within
      exact ⟨front, gap, back, parts, by rw [early]; rfl, late⟩

theorem Finds.pushTag {cut : Cut} (finds : cut.Finds) (written : Written) : (cut.pushTag written).Finds := by
  intro before other after whole
  rw [text, fill_pushTag, ← text] at whole
  rcases Written.same_or_behind whole with ⟨rfl, rfl, rfl⟩ | ⟨between, rfl, within⟩
  · exact ⟨[], cut.lead, cut.parts, rfl, rfl, rfl⟩
  · obtain ⟨front, gap, back, parts, early, late⟩ := finds between other after within
    refine ⟨(written, cut.lead) :: front, gap, back, congrArg _ parts, ?_, late⟩
    have pushed := fill_pushTag written ⟨cut.lead, front⟩ Written.text
    rw [early]
    exact pushed.symm

theorem text_append (lead gap : Text) (front back : List (Written × Text)) (written : Written) :
    (Cut.mk lead (front ++ (written, gap) :: back)).text =
      (Cut.mk lead front).text ++ (written.text ++ (Cut.mk gap back).text) := by
  simp [text, fill]

end Cut

theorem exists_cut (s : Text) :
    ∃ cut : Cut, cut.text = s ∧ collect s = cut.tags ∧
      (∀ substitute, replace substitute s = cut.fill fun written => substitute written.tag) ∧ cut.Finds := by
  induction s using scan_induction with
  | nil => exact ⟨⟨[], []⟩, rfl, collect_nil, fun substitute => replace_nil substitute, Cut.finds_nil⟩
  | tag written after induction =>
      obtain ⟨cut, rfl, tags, replaced, finds⟩ := induction
      refine ⟨cut.pushTag written, cut.fill_pushTag written _, ?_, fun substitute => ?_, finds.pushTag written⟩
      · rw [collect_tag, tags]
        rfl
      · rw [replace_tag, replaced, Cut.fill_pushTag]
  | char c rest none induction =>
      obtain ⟨cut, rfl, tags, replaced, finds⟩ := induction
      refine ⟨cut.push c, cut.fill_push c _, ?_, fun substitute => ?_, finds.push none⟩
      · rw [collect_char none, tags]
        rfl
      · rw [replace_char substitute none, replaced, Cut.fill_push]

/-! ## The regular expression -/

/-- The part of the expression that takes a name, `[A-Za-z][\w.-]*`. -/
def namePattern : Pattern :=
  .both (.one Char.isAlpha) (.many true isNameChar)

/-- The part of the expression that takes a value, `\s+([^{}]*?)`. -/
def valuePattern : Pattern :=
  .both (.both (.one isBlank) (.many true isBlank)) (.group 2 (.many false isPlain))

/-- The regular expression of inline tags, `\{@([A-Za-z][\w.-]*)(?:\s+([^{}]*?))?\s*\}`. -/
def pattern : Pattern :=
  .both (.one (· == '{')) <| .both (.one (· == '@')) <| .both (.group 1 namePattern) <|
    .both (.maybe valuePattern) <| .both (.many true isBlank) (.one (· == '}'))

def ofRun (run : Pattern.Run) : InlineTag :=
  ⟨run.taken, run.groupText 1, trim (run.groupText 2)⟩

theorem isPlain_of_isBlank {c : Char} (blank : isBlank c = true) : isPlain c = true := by
  rw [isPlain_iff]
  constructor <;> rintro rfl <;> exact absurd blank (by decide)

theorem describes_namePattern {s : Text} {groups : List (Nat × Text)} : namePattern.Describes s groups ↔
    groups = [] ∧ ∃ first more, s = first :: more ∧ first.isAlpha = true ∧ ∀ c ∈ more, isNameChar c = true := by
  simp only [namePattern, Pattern.Describes]
  constructor
  · rintro ⟨-, -, ⟨first, letter, rfl, rfl⟩, more, -, ⟨named, rfl⟩, rfl, rfl⟩
    exact ⟨rfl, first, more, rfl, letter, named⟩
  · rintro ⟨rfl, first, more, rfl, letter, named⟩
    exact ⟨[first], [], ⟨first, letter, rfl, rfl⟩, more, [], ⟨named, rfl⟩, rfl, rfl⟩

theorem describes_valuePattern {s : Text} {groups : List (Nat × Text)} : valuePattern.Describes s groups ↔
    ∃ c blanks value, s = c :: (blanks ++ value) ∧ groups = [(2, value)] ∧ isBlank c = true ∧
      (∀ d ∈ blanks, isBlank d = true) ∧ ∀ d ∈ value, isPlain d = true := by
  simp only [valuePattern, Pattern.Describes]
  constructor
  · rintro ⟨-, -, ⟨-, -, ⟨c, first, rfl, rfl⟩, blanks, -, ⟨blank, rfl⟩, rfl, rfl⟩, value, _, described, rfl, rfl⟩
    obtain ⟨-, ⟨plain, rfl⟩, rfl⟩ := described
    exact ⟨c, blanks, value, rfl, rfl, first, blank, plain⟩
  · rintro ⟨c, blanks, value, rfl, rfl, first, blank, plain⟩
    exact ⟨c :: blanks, [], ⟨[c], [], ⟨c, first, rfl, rfl⟩, blanks, [], ⟨blank, rfl⟩, rfl, rfl⟩, value, [(2, value)],
      ⟨[], ⟨plain, rfl⟩, rfl⟩, rfl, rfl⟩

theorem describes_value {valued blanks : Text} {groups : List (Nat × Text)}
    (described : (Pattern.maybe valuePattern).Describes valued groups) (blank : ∀ c ∈ blanks, isBlank c = true) :
    (∀ c ∈ valued ++ blanks, isPlain c = true) ∧ (∀ c ∈ (valued ++ blanks).head?, isBlank c = true) ∧
      trim ((groups.lookup 2).getD []) = trim (valued ++ blanks) := by
  have blankText : isBlankText blanks = true := List.all_eq_true.2 blank
  simp only [Pattern.Describes, describes_valuePattern] at described
  rcases described with ⟨c, front, value, rfl, rfl, first, blankFront, plain⟩ | ⟨rfl, rfl⟩
  · refine ⟨?_, ?_, ?_⟩
    · intro d inside
      simp only [List.cons_append, List.mem_cons, List.mem_append] at inside
      rcases inside with rfl | (early | within) | late
      · exact isPlain_of_isBlank first
      · exact isPlain_of_isBlank (blankFront d early)
      · exact plain d within
      · exact isPlain_of_isBlank (blank d late)
    · rintro d ⟨⟩
      exact first
    · have frontText : isBlankText front = true := List.all_eq_true.2 blankFront
      have taken : trim (c :: (front ++ value) ++ blanks) = trim value := by
        rw [trim_append_blank blankText, trim_blank_cons first, trim_blank_append frontText]
      exact taken.symm
  · refine ⟨fun d inside => isPlain_of_isBlank (blank d inside), fun d inside => blank d (List.mem_of_head? inside), ?_⟩
    rw [List.nil_append, trim_eq_nil_iff.2 blankText]
    rfl

theorem describes_pattern {taken : Text} {groups : List (Nat × Text)} : pattern.Describes taken groups ↔
    ∃ name valued blanks more, namePattern.Describes name [] ∧ (Pattern.maybe valuePattern).Describes valued more ∧
      (∀ c ∈ blanks, isBlank c = true) ∧ taken = '{' :: '@' :: (name ++ (valued ++ (blanks ++ ['}']))) ∧
      groups = (1, name) :: more := by
  constructor
  · intro described
    obtain ⟨_, _, ⟨_, brace, rfl, rfl⟩, _, _, described, rfl, rfl⟩ := described
    obtain ⟨_, _, ⟨_, sign, rfl, rfl⟩, _, _, described, rfl, rfl⟩ := described
    obtain ⟨name, _, ⟨_, named, rfl⟩, _, _, described, rfl, rfl⟩ := described
    obtain ⟨valued, more, value, _, _, described, rfl, rfl⟩ := described
    obtain ⟨blanks, _, ⟨blank, rfl⟩, _, _, ⟨_, closing, rfl, rfl⟩, rfl, rfl⟩ := described
    obtain ⟨rfl, -⟩ := describes_namePattern.1 named
    cases beq_iff_eq.1 brace
    cases beq_iff_eq.1 sign
    cases beq_iff_eq.1 closing
    exact ⟨name, valued, blanks, more, named, value, blank, rfl, by simp⟩
  · rintro ⟨name, valued, blanks, more, named, value, blank, rfl, rfl⟩
    have closing : (Pattern.one (· == '}')).Describes ['}'] [] := ⟨'}', rfl, rfl, rfl⟩
    have ending : (Pattern.both (.many true isBlank) (.one (· == '}'))).Describes (blanks ++ ['}']) [] :=
      ⟨blanks, [], ⟨blank, rfl⟩, ['}'], [], closing, rfl, rfl⟩
    have behind : (Pattern.both (.maybe valuePattern) _).Describes (valued ++ (blanks ++ ['}'])) (more ++ []) :=
      ⟨valued, more, value, _, _, ending, rfl, rfl⟩
    have inside : (Pattern.both (.group 1 namePattern) _).Describes _ ([(1, name)] ++ (more ++ [])) :=
      ⟨name, _, ⟨[], named, rfl⟩, _, _, behind, rfl, rfl⟩
    rw [List.append_nil] at inside
    exact ⟨['{'], [], ⟨'{', rfl, rfl, rfl⟩, _, _, ⟨['@'], [], ⟨'@', rfl, rfl, rfl⟩, _, _, inside, rfl, rfl⟩, rfl, rfl⟩

/-- What the expression describes is a tag as it is written, and the groups tell what is meant. -/
theorem exists_written_of_describes {taken : Text} {groups : List (Nat × Text)}
    (described : pattern.Describes taken groups) (rest : Text) :
    ∃ written : Written, taken = written.text ∧ ofRun ⟨taken, groups, rest⟩ = written.tag := by
  obtain ⟨name, valued, blanks, more, named, value, blank, rfl, rfl⟩ := describes_pattern.1 described
  obtain ⟨-, first, later, rfl, letter, named⟩ := describes_namePattern.1 named
  obtain ⟨plain, apart, meant⟩ := describes_value value blank
  have braceless : '{' ∉ valued ++ blanks ∧ '}' ∉ valued ++ blanks :=
    ⟨fun inside => (isPlain_iff.1 (plain _ inside)).1 rfl, fun inside => (isPlain_iff.1 (plain _ inside)).2 rfl⟩
  let written : Written := ⟨first, later, valued ++ blanks, letter, fun c inside => isNameChar_iff.1 (named c inside),
    braceless, apart⟩
  have text : '{' :: '@' :: (first :: later ++ (valued ++ (blanks ++ ['}']))) = written.text := by
    simp [written, Written.text, Written.name]
  refine ⟨written, text, ?_⟩
  rw [text]
  simp only [ofRun, Written.tag, InlineTag.mk.injEq, true_and]
  exact ⟨rfl, meant⟩

theorem describes_text (written : Written) : ∃ groups, pattern.Describes written.text groups := by
  have named : namePattern.Describes written.name [] := describes_namePattern.2 ⟨rfl, written.first, written.more, rfl,
    written.first_letter, fun c inside => isNameChar_iff.2 (written.more_named c inside)⟩
  -- the blanks at the end may belong to the value
  have valued : ∃ groups, (Pattern.maybe valuePattern).Describes written.behind groups := by
    cases shape : written.behind with
    | nil => exact ⟨[], .inr ⟨rfl, rfl⟩⟩
    | cons c value =>
        have plain : ∀ d ∈ value, isPlain d = true := fun d inside =>
          written.isPlain_of_mem_behind (shape ▸ List.mem_cons_of_mem c inside)
        have first : isBlank c = true := written.behind_apart c (by rw [shape]; rfl)
        exact ⟨_, .inl (describes_valuePattern.2 ⟨c, [], value, rfl, rfl, first, by simp, plain⟩)⟩
  obtain ⟨groups, valued⟩ := valued
  exact ⟨_, describes_pattern.2 ⟨written.name, written.behind, [], groups, named, valued, by simp,
    by simp [Written.text], rfl⟩⟩

/-- The tag at the beginning of a text is the one that the expression matches first there. -/
theorem read?_eq_first_run (s : Text) : read? s = (pattern.runs s).head?.map fun run => (ofRun run, run.rest) := by
  cases shape : pattern.runs s with
  | nil =>
      have none : ∀ written : Written, ∀ after, s ≠ written.text ++ after := by
        rintro written after rfl
        obtain ⟨groups, described⟩ := describes_text written
        have inside : ⟨written.text, groups, after⟩ ∈ pattern.runs (written.text ++ after) :=
          Pattern.mem_runs_iff.2 ⟨rfl, described⟩
        rw [shape] at inside
        cases inside
      rw [List.head?_nil, Option.map_none, Option.eq_none_iff_forall_not_mem]
      rintro ⟨tag, after⟩ found
      obtain ⟨written, -, whole⟩ := exists_written_of_read? found
      exact none written after whole
  | cons run more =>
      obtain ⟨taken, groups, rest⟩ := run
      have inside : ⟨taken, groups, rest⟩ ∈ pattern.runs s := shape ▸ List.mem_cons_self
      obtain ⟨rfl, described⟩ := Pattern.mem_runs_iff.1 inside
      obtain ⟨written, rfl, tag⟩ := exists_written_of_describes described rest
      rw [List.head?_cons, Option.map_some, tag, written.read?_text]

/-! ## The main result -/

/-- A text is parted at its inline tags. The tags that are collected are those that are written in it, each raw as it
stands, with its name and with what follows the name, trimmed; wherever one is written it is one of these. Replacing
puts something in their places and keeps all else, so that putting back what stood there changes nothing. What is read
at one place is the first match of the regular expression. -/
theorem inline_tags_found_and_replaced (s : Text) :
    ∃ cut : Cut, cut.text = s ∧ collect s = cut.tags ∧
      (∀ replacer : Replacer, replace replacer.substitute s = cut.fill fun written => replacer.substitute written.tag) ∧
      replace (Replacer.custom raw).substitute s = s ∧
      (∀ before (written : Written) after, s = before ++ (written.text ++ after) ↔
        ∃ front gap back, cut.parts = front ++ (written, gap) :: back ∧
          before = (Cut.mk cut.lead front).text ∧ after = (Cut.mk gap back).text) ∧
      ∀ place, read? place = (pattern.runs place).head?.map fun run => (ofRun run, run.rest) := by
  obtain ⟨cut, rfl, tags, replaced, finds⟩ := exists_cut s
  refine ⟨cut, rfl, tags, fun replacer => replaced replacer.substitute, replaced raw, ?_, read?_eq_first_run⟩
  intro before written after
  constructor
  · exact finds before written after
  · rintro ⟨front, gap, back, parts, rfl, rfl⟩
    rw [← Cut.text_append, ← parts]

end Docblock.InlineTag
