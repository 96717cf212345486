import Docblock.Proofs.Comment.InlineTags
import Docblock.Proofs.Comment.Reading

/-!
# Handlebars expressions

A Handlebars expression opens with two braces and a name, so neither it nor what stands around it makes an inline tag:
where all tags are replaced by expressions none is left. The value of a tag becomes the string literal of its
expression. It can be read from there unless a backslash ends it, which then hides the quote that closes the literal.
-/

set_option autoImplicit false

namespace Docblock.InlineTag

open Text

variable {substitute : InlineTag → Text} {s rest : Text} {c : Char}

/-! ## No tag is left -/

theorem read?_eq_none (other : s.take 2 ≠ ['{', '@']) : read? s = none := by
  rw [Option.eq_none_iff_forall_not_mem]
  rintro ⟨tag, after⟩ found
  obtain ⟨written, -, rfl⟩ := exists_written_of_read? found
  exact other (by simp [Written.text])

theorem collect_braceless_append (braceless : '{' ∉ s) (rest : Text) : collect (s ++ rest) = collect rest := by
  induction s with
  | nil => rfl
  | cons c s induction =>
      rw [List.mem_cons, not_or] at braceless
      have none : read? (c :: (s ++ rest)) = none := by
        refine read?_eq_none fun same => ?_
        rw [List.take_succ_cons] at same
        exact braceless.1 (List.cons.inj same).1.symm
      rw [List.cons_append, collect_char none, induction braceless.2]

/-- No tag begins in the text, wherever it stands: it opens with two braces that no sign follows, and holds no other
opening brace. -/
def IsInert (s : Text) : Prop :=
  ∃ first more, s = '{' :: '{' :: first :: more ∧ first ≠ '@' ∧ '{' ∉ first :: more

theorem IsInert.collect_append (inert : IsInert s) (rest : Text) : collect (s ++ rest) = collect rest := by
  obtain ⟨first, more, rfl, noSign, braceless⟩ := inert
  have outer : read? ('{' :: '{' :: (first :: more ++ rest)) = none := read?_eq_none (by simp)
  have inner : read? ('{' :: (first :: more ++ rest)) = none := read?_eq_none (by simpa using noSign)
  rw [List.cons_append, List.cons_append, collect_char outer, collect_char inner]
  exact collect_braceless_append braceless rest

theorem exists_of_replace_eq_append (inert : ∀ written : Written, IsInert (substitute written.tag))
    {front after : Text} (braceless : '{' ∉ front) (replaced : replace substitute s = front ++ after) :
    ∃ later, s = front ++ later := by
  induction s using scan_induction generalizing front with
  | nil =>
      rw [replace_nil] at replaced
      obtain ⟨rfl, -⟩ := List.append_eq_nil_iff.1 replaced.symm
      exact ⟨[], rfl⟩
  | tag written rest induction =>
      cases front with
      | nil => exact ⟨_, rfl⟩
      | cons c front =>
          obtain ⟨first, more, shape, -⟩ := inert written
          rw [replace_tag, shape] at replaced
          cases (List.cons.inj replaced).1
          simp at braceless
  | char c rest none induction =>
      cases front with
      | nil => exact ⟨_, rfl⟩
      | cons d front =>
          rw [replace_char substitute none, List.cons_append] at replaced
          rw [List.mem_cons, not_or] at braceless
          obtain ⟨rfl, within⟩ := List.cons.inj replaced
          obtain ⟨later, rfl⟩ := induction braceless.2 within
          exact ⟨later, rfl⟩

/-- A text in which something inert stands in the place of each tag holds no tag. -/
theorem collect_replace_eq_nil (inert : ∀ written : Written, IsInert (substitute written.tag)) (s : Text) :
    collect (replace substitute s) = [] := by
  induction s using scan_induction with
  | nil => rw [replace_nil, collect_nil]
  | tag written after induction => rw [replace_tag, (inert written).collect_append, induction]
  | char c rest none induction =>
      -- a tag that began here would have stood here before
      have still : read? (c :: replace substitute rest) = Option.none := by
        rw [Option.eq_none_iff_forall_not_mem]
        rintro ⟨tag, after⟩ found
        obtain ⟨written, -, whole⟩ := exists_written_of_read? found
        rw [Written.text, List.cons_append] at whole
        obtain ⟨rfl, replaced⟩ := List.cons.inj whole
        obtain ⟨later, rfl⟩ := exists_of_replace_eq_append inert written.brace_not_mem replaced
        have reads := written.read?_text later
        rw [Written.text, List.cons_append, none] at reads
        cases reads
      rw [replace_char substitute none, collect_char still, induction]

theorem replace_of_collect_eq_nil (substitute : InlineTag → Text) (none : collect s = []) :
    replace substitute s = s := by
  induction s using scan_induction with
  | nil => exact replace_nil substitute
  | tag written after induction =>
      rw [collect_tag] at none
      cases none
  | char c rest reads induction =>
      rw [collect_char reads] at none
      rw [replace_char substitute reads, induction none]

/-! ## String literals -/

def escapeQuotes (value : Text) : Text :=
  value.flatMap fun c => if c = '"' then ['\\', '"'] else [c]

theorem handlebars_of_empty {tag : InlineTag} (empty : tag.value = []) :
    handlebars tag = '{' :: '{' :: (tag.name ++ ['}', '}']) := by
  simp [handlebars, empty]

theorem handlebars_of_filled {tag : InlineTag} (filled : tag.value ≠ []) :
    handlebars tag = '{' :: '{' :: (tag.name ++ (' ' :: '"' :: (escapeQuotes tag.value ++ ['"', '}', '}']))) := by
  simp [handlebars, filled, escapeQuotes]

theorem mem_of_mem_escapeQuotes {value : Text} (inside : c ∈ escapeQuotes value) : c = '\\' ∨ c ∈ value := by
  obtain ⟨d, member, written⟩ := List.mem_flatMap.1 inside
  split at written
  · next quote =>
      rw [List.mem_cons, List.mem_singleton] at written
      exact written.imp id fun same => by rw [same, ← quote]; exact member
  · rw [List.mem_singleton.1 written]
    exact .inr member

theorem isInert_handlebars (written : Written) : IsInert (handlebars written.tag) := by
  have braceless := written.brace_not_mem
  simp only [List.mem_cons, List.mem_append, not_or, Written.name, List.cons_append] at braceless
  have noSign : written.first ≠ '@' := by
    intro same
    have letter := written.first_letter
    rw [same] at letter
    cases letter
  by_cases empty : written.tag.value = []
  · refine ⟨written.first, written.more ++ ['}', '}'], handlebars_of_empty empty, noSign, ?_⟩
    simp [braceless.2.1, braceless.2.2.1.1]
  · refine ⟨written.first, _, handlebars_of_filled empty, noSign, ?_⟩
    have value : '{' ∉ escapeQuotes written.tag.value := by
      intro inside
      rcases mem_of_mem_escapeQuotes inside with same | member
      · cases same
      · exact written.behind_braceless.1 (mem_of_mem_trim member)
    simp [braceless.2.1, braceless.2.2.1.1, value]

/-- Where inline tags are replaced by Handlebars expressions, none is left, nor does one come about: replacing once
more changes nothing. So a comment that is read so has none in its description or in that of a tag. -/
theorem handlebars_leaves_no_inline_tag (text : Text) :
    collect (replace Replacer.handlebars.substitute text) = [] ∧
      replace Replacer.handlebars.substitute (replace Replacer.handlebars.substitute text) =
        replace Replacer.handlebars.substitute text ∧
      ∀ (options : ReadOptions) (comment : Comment),
        Comment.read { options with replace := some .handlebars } text = .ok comment →
          collect comment.description = [] ∧ ∀ tag ∈ comment.tags, collect tag.description = [] := by
  have none : ∀ text, collect (replace Replacer.handlebars.substitute text) = [] :=
    collect_replace_eq_nil isInert_handlebars
  refine ⟨none text, replace_of_collect_eq_nil _ (none text), fun options comment success => ?_⟩
  unfold Comment.read at success
  rw [Comment.ofOutline_eq] at success
  obtain ⟨tags, -, rfl⟩ := Comment.exists_of_map_eq_ok success
  refine ⟨none _, fun tag inside => ?_⟩
  obtain ⟨original, -, rfl⟩ := List.mem_map.1 inside
  exact none original.description

theorem no_inline_tag_left_behind_open_braces :
    let text := "See \x7b@see \x7b@link Foo\x7d.\n@param x \x7b@a \x7b\x7b@b c\x7d".toList
    ∃ comment, Comment.read { unwrap := false, replace := some .handlebars } text = .ok comment ∧
      comment.description = "See \x7b@see \x7b\x7blink \"Foo\"\x7d\x7d.".toList ∧
      comment.tags.map Tag.description = ["\x7b@a \x7b\x7b\x7bb \"c\"\x7d\x7d".toList] ∧
      collect comment.description = [] ∧ ∀ tag ∈ comment.tags, collect tag.description = [] := by
  intro text
  have parts : (Comment.read { unwrap := false, replace := some .handlebars } text).toOption.map (fun comment =>
      (comment.description, comment.tags.map Tag.description)) =
      some ("See \x7b@see \x7b\x7blink \"Foo\"\x7d\x7d.".toList, ["\x7b@a \x7b\x7b\x7bb \"c\"\x7d\x7d".toList]) := by
    decide +kernel
  cases run : Comment.read { unwrap := false, replace := some .handlebars } text with
  | error fault =>
      rw [run] at parts
      cases parts
  | ok comment =>
      rw [run] at parts
      have same := Prod.mk.inj (Option.some.inj parts)
      have none := (handlebars_leaves_no_inline_tag text).2.2 { unwrap := false } comment run
      exact ⟨comment, rfl, same.1, same.2, none.1, none.2⟩

/-! ## Reading a value back -/

/-- What stands behind an opening quote up to the first quote without a backslash in front of it, and what follows
that quote. -/
def literalSpan? : Text → Option (Text × Text)
  | [] => none
  | '\\' :: '"' :: rest => (literalSpan? rest).map fun halves => ('\\' :: '"' :: halves.1, halves.2)
  | '"' :: rest => some ([], rest)
  | c :: rest => (literalSpan? rest).map fun halves => (c :: halves.1, halves.2)

def unescapeQuotes : Text → Text
  | [] => []
  | '\\' :: '"' :: rest => '"' :: unescapeQuotes rest
  | c :: rest => c :: unescapeQuotes rest

/-- The text is a string literal of the value: the quote that closes it is its last character, and what stands between
the quotes is the value with quotes escaped. -/
def IsLiteralOf (value literal : Text) : Prop :=
  ∃ inside, literal = '"' :: (inside ++ ['"']) ∧ literalSpan? (inside ++ ['"']) = some (inside, []) ∧
    unescapeQuotes inside = value

def Apart (c : Char) (rest : Text) : Prop :=
  c = '\\' → rest.head? ≠ some '"'

theorem literalSpan?_cons (quoteless : c ≠ '"') (apart : Apart c rest) :
    literalSpan? (c :: rest) = (literalSpan? rest).map fun halves => (c :: halves.1, halves.2) := by
  rw [literalSpan?]
  · rintro later rfl rfl
    exact apart rfl rfl
  · exact quoteless

theorem unescapeQuotes_cons (apart : Apart c rest) : unescapeQuotes (c :: rest) = c :: unescapeQuotes rest := by
  rw [unescapeQuotes]
  rintro later rfl rfl
  exact apart rfl rfl

theorem escapeQuotes_quote (value : Text) : escapeQuotes ('"' :: value) = '\\' :: '"' :: escapeQuotes value := rfl

theorem escapeQuotes_cons (quoteless : c ≠ '"') (value : Text) :
    escapeQuotes (c :: value) = c :: escapeQuotes value := by
  simp [escapeQuotes, quoteless]

theorem exists_head?_escapeQuotes (c : Char) (value : Text) :
    ∃ d, (escapeQuotes (c :: value)).head? = some d ∧ d ≠ '"' := by
  by_cases quote : c = '"'
  · exact ⟨'\\', by rw [quote, escapeQuotes_quote]; rfl, by decide⟩
  · exact ⟨c, by rw [escapeQuotes_cons quote]; rfl, quote⟩

theorem apart_escapeQuotes (c : Char) (value : Text) : Apart c (escapeQuotes value) := by
  intro _ quote
  cases value with
  | nil => cases quote
  | cons d value =>
      obtain ⟨e, head, other⟩ := exists_head?_escapeQuotes d value
      rw [head] at quote
      exact other (Option.some.inj quote)

theorem unescapeQuotes_escapeQuotes (value : Text) : unescapeQuotes (escapeQuotes value) = value := by
  induction value with
  | nil => rfl
  | cons c value induction =>
      by_cases quote : c = '"'
      · rw [quote, escapeQuotes_quote, unescapeQuotes, induction]
      · rw [escapeQuotes_cons quote, unescapeQuotes_cons (apart_escapeQuotes c value), induction]

theorem literalSpan?_escapeQuotes (value rest : Text)
    (apart : value.getLast? = some '\\' → rest.head? ≠ some '"') :
    literalSpan? (escapeQuotes value ++ rest) =
      (literalSpan? rest).map fun halves => (escapeQuotes value ++ halves.1, halves.2) := by
  induction value with
  | nil => simp [escapeQuotes]
  | cons c value induction =>
      have within : literalSpan? (escapeQuotes value ++ rest) =
          (literalSpan? rest).map fun halves => (escapeQuotes value ++ halves.1, halves.2) :=
        induction fun last => apart (by rw [List.getLast?_cons, last]; rfl)
      by_cases quote : c = '"'
      · rw [quote, escapeQuotes_quote, List.cons_append, List.cons_append, literalSpan?, within, Option.map_map]
        rfl
      · have next : Apart c (escapeQuotes value ++ rest) := by
          intro backslash
          cases value with
          | nil => exact apart (by rw [backslash]; rfl)
          | cons d value =>
              obtain ⟨e, head, other⟩ := exists_head?_escapeQuotes d value
              rw [List.head?_append, head]
              exact fun same => other (Option.some.inj same)
        rw [escapeQuotes_cons quote, List.cons_append, literalSpan?_cons quote next, within, Option.map_map]
        rfl

/-- An escaped value in quotes is a literal of it if and only if no backslash ends it. -/
theorem isLiteralOf_iff (value : Text) :
    IsLiteralOf value ('"' :: (escapeQuotes value ++ ['"'])) ↔ value.getLast? ≠ some '\\' := by
  constructor
  · rintro ⟨inside, same, closed, -⟩ last
    obtain ⟨front, rfl⟩ : ∃ front, value = front ++ ['\\'] := List.getLast?_eq_some_iff.1 last
    -- behind what precedes it, the backslash takes the quote in, and nothing closes the literal
    have split : escapeQuotes (front ++ ['\\']) ++ ['"'] = escapeQuotes front ++ ['\\', '"'] := by
      simp [escapeQuotes]
    simp only [List.cons.injEq, true_and, List.append_cancel_right_eq] at same
    rw [← same, split, literalSpan?_escapeQuotes front _ (by simp)] at closed
    simp [literalSpan?] at closed
  · intro last
    refine ⟨escapeQuotes value, rfl, ?_, unescapeQuotes_escapeQuotes value⟩
    rw [literalSpan?_escapeQuotes value _ fun same => absurd same last]
    simp [literalSpan?]

/-- The expression of a tag with a value ends with a string literal. The literal is one of the value if and only if no
backslash ends the value: such a backslash hides the quote that closes the literal. -/
theorem handlebars_literal_reads_iff (tag : InlineTag) (filled : tag.value ≠ []) :
    ∃ literal, Replacer.handlebars.substitute tag =
        ['{', '{'] ++ tag.name ++ [' '] ++ literal ++ ['}', '}'] ∧
      (IsLiteralOf tag.value literal ↔ tag.value.getLast? ≠ some '\\') := by
  refine ⟨'"' :: (escapeQuotes tag.value ++ ['"']), ?_, isLiteralOf_iff tag.value⟩
  rw [Replacer.substitute, handlebars_of_filled filled]
  simp

theorem value_with_backslash_before_quote_reads :
    ∃ tag ∈ collect "See \x7b@link a\\\"b\x7d.".toList, tag.value = "a\\\"b".toList ∧
      ∃ literal, Replacer.handlebars.substitute tag =
        ['{', '{'] ++ tag.name ++ [' '] ++ literal ++ ['}', '}'] ∧ IsLiteralOf tag.value literal := by
  let tag : InlineTag := ⟨"\x7b@link a\\\"b\x7d".toList, "link".toList, "a\\\"b".toList⟩
  have filled : tag.value ≠ [] := by decide
  obtain ⟨literal, shape, reads⟩ := handlebars_literal_reads_iff tag filled
  exact ⟨tag, by decide +kernel, rfl, literal, shape, reads.2 (by decide)⟩

/-- A backslash at the end of a value hides the closing quote of `{{link "a\"}}`. -/
theorem backslash_hides_closing_quote :
    ∃ tag ∈ collect "\x7b@link a\\\x7d".toList, tag.value ≠ [] ∧
      ¬ ∃ literal, Replacer.handlebars.substitute tag =
        ['{', '{'] ++ tag.name ++ [' '] ++ literal ++ ['}', '}'] ∧ IsLiteralOf tag.value literal := by
  let tag : InlineTag := ⟨"\x7b@link a\\\x7d".toList, "link".toList, "a\\".toList⟩
  refine ⟨tag, by decide +kernel, by decide, ?_⟩
  rintro ⟨literal, shape, reads⟩
  have only : literal = '"' :: (escapeQuotes tag.value ++ ['"']) := by
    have whole : ['{', '{'] ++ tag.name ++ [' '] ++ ('"' :: (escapeQuotes tag.value ++ ['"'])) ++ ['}', '}'] =
        ['{', '{'] ++ tag.name ++ [' '] ++ literal ++ ['}', '}'] := by
      rw [← shape]
      decide
    exact (List.append_cancel_left (List.append_cancel_right whole)).symm
  rw [only, isLiteralOf_iff] at reads
  exact reads rfl

end Docblock.InlineTag
