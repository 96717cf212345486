import Docblock.Proofs.Comment.Reading
import Docblock.Proofs.Text.Span
import Docblock.Proofs.TypeExpr.Braces

/-!
# Types of tags and their braces

The type of a tag ends at the brace that closes its first one, whatever stands between them: braces in strings
count too. So a tag reads a type expression that is written in braces exactly where the braces of the
expression balance.
-/

set_option autoImplicit false

namespace Docblock.Tag

open Text (braceDepth?)

variable {s t front back x : Text} {depth deeper : Nat}

/-! ## The closing brace -/

theorem spanBraces_of_not_mem (outside : '}' ∉ s) (openBraces : Nat) : spanBraces openBraces s = none := by
  induction s generalizing openBraces with
  | nil => rfl
  | cons c s induction =>
      simp only [List.mem_cons, not_or] at outside
      have other : c ≠ '}' := Ne.symm outside.1
      simp [spanBraces, other, induction outside.2]

section Steps

variable (openBraces : Nat) (rest : Text)

theorem spanBraces_opening : spanBraces openBraces ('{' :: rest) =
    (spanBraces (openBraces + 1) rest).map fun halves => ('{' :: halves.1, halves.2) := by
  simp [spanBraces]

theorem spanBraces_last : spanBraces 1 ('}' :: rest) = some (['}'], rest) := by
  simp [spanBraces]

theorem spanBraces_closing : spanBraces (openBraces + 2) ('}' :: rest) =
    (spanBraces (openBraces + 1) rest).map fun halves => ('}' :: halves.1, halves.2) := by
  simp [spanBraces]

theorem spanBraces_other {c : Char} (opening : c ≠ '{') (closing : c ≠ '}') :
    spanBraces openBraces (c :: rest) =
      (spanBraces openBraces rest).map fun halves => (c :: halves.1, halves.2) := by
  simp [spanBraces, opening, closing]

end Steps

/-- A text that closes no brace from before it is passed over. -/
theorem spanBraces_append (found : braceDepth? depth s = some deeper) (behind : Text) :
    spanBraces (depth + 1) (s ++ behind) =
      (spanBraces (deeper + 1) behind).map fun halves => (s ++ halves.1, halves.2) := by
  induction s generalizing depth with
  | nil =>
      obtain rfl : depth = deeper := Option.some.inj found
      simp
  | cons c s induction =>
      rw [List.cons_append]
      by_cases opening : c = '{'
      · subst opening
        rw [spanBraces_opening, induction found, Option.map_map]
        rfl
      · by_cases closing : c = '}'
        · subst closing
          cases depth with
          | zero => cases found
          | succ depth =>
              have walked : braceDepth? depth s = some deeper := found
              rw [spanBraces_closing, induction walked, Option.map_map]
              rfl
        · simp only [braceDepth?, if_neg opening, if_neg closing] at found
          rw [spanBraces_other _ _ opening closing, induction found, Option.map_map]
          rfl

theorem exists_spanBraces (closes : braceDepth? depth s = none) (behind : Text) :
    ∃ front back, s = front ++ '}' :: back ∧
      spanBraces (depth + 1) (s ++ behind) = some (front ++ ['}'], back ++ behind) := by
  induction s generalizing depth with
  | nil => cases closes
  | cons c s induction =>
      rw [List.cons_append]
      by_cases opening : c = '{'
      · subst opening
        have inner : braceDepth? (depth + 1) s = none := closes
        obtain ⟨front, back, shape, spanned⟩ := induction inner
        refine ⟨'{' :: front, back, by rw [shape, List.cons_append], ?_⟩
        rw [spanBraces_opening, spanned]
        rfl
      · by_cases closing : c = '}'
        · subst closing
          cases depth with
          | zero => exact ⟨[], s, rfl, spanBraces_last _⟩
          | succ depth =>
              have outer : braceDepth? depth s = none := closes
              obtain ⟨front, back, shape, spanned⟩ := induction outer
              refine ⟨'}' :: front, back, by rw [shape, List.cons_append], ?_⟩
              rw [spanBraces_closing, spanned]
              rfl
        · simp only [braceDepth?, if_neg opening, if_neg closing] at closes
          obtain ⟨front, back, shape, spanned⟩ := induction closes
          refine ⟨c :: front, back, by rw [shape, List.cons_append], ?_⟩
          rw [spanBraces_other _ _ opening closing, spanned]
          rfl

theorem splitType_of_opening (s : Text) : splitType ('{' :: s) =
    match spanBraces 1 s with
    | some halves => .ok ('{' :: halves.1, halves.2)
    | none => .error (.unbalanced ('{' :: s)) := by
  simp only [splitType, spanBraces_opening]
  cases spanBraces 1 s <;> rfl

/-- The type of a tag is the whole text in braces if this is balanced. -/
theorem splitType_of_balanced (balanced : Text.Balanced t) (rest : Text) :
    splitType ('{' :: (t ++ '}' :: rest)) = .ok ('{' :: (t ++ ['}']), rest) := by
  have spanned := spanBraces_append balanced ('}' :: rest)
  rw [spanBraces_last] at spanned
  rw [splitType_of_opening, spanned]
  rfl

/-- Where no other brace closes behind it, the type is the whole text in braces only if this is balanced. -/
theorem balanced_of_splitType {rest left : Text} (closeless : '}' ∉ rest)
    (parted : splitType ('{' :: (t ++ '}' :: rest)) = .ok ('{' :: (t ++ ['}']), left)) : Text.Balanced t := by
  rw [splitType_of_opening] at parted
  cases walked : braceDepth? 0 t with
  | none =>
      obtain ⟨front, back, shape, spanned⟩ := exists_spanBraces walked ('}' :: rest)
      rw [spanned] at parted
      simp only [Except.ok.injEq, Prod.mk.injEq, List.cons.injEq, true_and] at parted
      have length := congrArg List.length shape
      rw [List.append_cancel_right parted.1, List.length_append, List.length_cons] at length
      omega
  | some depth =>
      cases depth with
      | zero => exact walked
      | succ depth =>
          have spanned := spanBraces_append walked ('}' :: rest)
          rw [spanBraces_closing, spanBraces_of_not_mem closeless] at spanned
          rw [spanned] at parted
          cases parted

/-! ## The tag -/

def braced (type : Text) : Text :=
  '{' :: (type ++ ['}'])

theorem innerType_braced (t : Text) : innerType (braced t) = t := by
  have front : Text.stripPrefix ['{'] (braced t) = some (t ++ ['}']) := Text.stripPrefix_eq_some_iff.2 rfl
  have back : Text.stripSuffix ['}'] (t ++ ['}']) = some t := Text.stripSuffix_eq_some_iff.2 rfl
  rw [innerType, front, Option.bind_some, back]
  rfl

theorem exists_splitType_of_split {named : Bool} {val : Text} {parts : Parts}
    (parted : split named val = .ok (some parts)) :
    ∃ rest, splitType (Text.trimStart val) = .ok (parts.rawType, rest) := by
  by_cases blank : Text.isBlankText val = true
  · rw [split_eq_none_iff.2 blank] at parted
    cases parted
  · simp only [split, blank, Bool.false_eq_true, if_false] at parted
    cases typed : splitType (Text.trimStart val) with
    | error fault => simp [typed, bind, Except.bind] at parted
    | ok halves =>
        obtain ⟨rawType, rest⟩ := halves
        cases named with
        | false =>
            simp only [typed, bind, Except.bind, pure, Except.pure, Bool.false_eq_true, if_false,
              Except.ok.injEq, Option.some.injEq] at parted
            exact ⟨rest, by rw [← parted]⟩
        | true =>
            cases word : splitName rest with
            | error fault => simp [typed, word, bind, Except.bind] at parted
            | ok halves =>
                simp only [typed, word, bind, Except.bind, pure, Except.pure, if_true,
                  Except.ok.injEq, Option.some.injEq] at parted
                exact ⟨rest, by rw [← parted]⟩

theorem rawType_of_build {raw : RawTag} {parts : Parts} {tag : Tag} (built : build raw parts = .ok tag) :
    tag.rawType = parts.rawType := by
  simp only [build] at built
  cases typed : readType (readName parts.name).2.2 parts.rawType with
  | error error => simp [typed, Except.mapError, bind, Except.bind] at built
  | ok type =>
      simp only [typed, Except.mapError, bind, Except.bind, pure, Except.pure, Except.ok.injEq] at built
      rw [← built]

theorem exists_splitType_of_ofRaw {strict named : Bool} {raw : RawTag} {tag : Tag}
    (read : ofRaw strict named raw = .ok (some tag)) :
    ∃ rest, splitType (Text.trimStart raw.val) = .ok (tag.rawType, rest) := by
  simp only [ofRaw] at read
  cases parted : split named raw.val with
  | error fault =>
      rw [parted] at read
      cases strict <;> cases read
  | ok parts? =>
      cases parts? with
      | none =>
          rw [parted] at read
          cases read
      | some parts =>
          simp only [parted] at read
          cases built : build raw parts with
          | error error =>
              rw [built] at read
              cases read
          | ok other =>
              rw [built] at read
              obtain rfl : other = tag := by simpa [Except.map] using read
              rw [rawType_of_build built]
              exact exists_splitType_of_split parted

theorem readName_plain (filled : x ≠ []) (unbracketed : x.head? ≠ some '[') :
    readName x = (x, none, false) := by
  obtain ⟨c, rest, rfl⟩ := List.exists_cons_of_ne_nil filled
  have other : '[' ≠ c := fun same => unbracketed (by rw [same]; rfl)
  have front : Text.stripPrefix ['['] (c :: rest) = none := by simp [Text.stripPrefix, other]
  rw [readName, front]
  rfl

/-- A tag has as its type all that stands in the braces of its body only if that is balanced. -/
theorem balanced_of_ofRaw {strict named : Bool} {raw : RawTag} {rest : Text} {tag : Tag} (closeless : '}' ∉ rest)
    (body : raw.val = braced t ++ rest) (read : ofRaw strict named raw = .ok (some tag))
    (rawType : tag.rawType = braced t) : Text.Balanced t := by
  have opening : Text.isBlank '{' = false := by decide
  have shape : braced t ++ rest = '{' :: (t ++ '}' :: rest) := by simp [braced]
  obtain ⟨left, typed⟩ := exists_splitType_of_ofRaw read
  rw [body, shape, Text.trimStart_of_visible opening, rawType] at typed
  exact balanced_of_splitType closeless typed

section Named

variable (filled : x ≠ []) (visible : ∀ c ∈ x, Text.isBlank c = false) (closeless : '}' ∉ x)
  (unbracketed : x.head? ≠ some '[')

include filled visible closeless unbracketed

theorem splitName_plain {rest : Text} (ends : ∀ c ∈ rest.head?, Text.isBlank c = true) :
    splitName (' ' :: (x ++ rest)) = .ok (x, rest) := by
  obtain ⟨c, more, rfl⟩ := List.exists_cons_of_ne_nil filled
  have space : Text.isBlank ' ' = true := by decide
  have first := visible c List.mem_cons_self
  have start : Text.trimStart (' ' :: (c :: more ++ rest)) = c :: more ++ rest := by
    simp [Text.trimStart, space, first]
  have word : ∀ d ∈ c :: more, (!Text.isBlank d) = true := fun d inside => by simp [visible d inside]
  have stops : ∀ d ∈ rest.head?, (!Text.isBlank d) = false := fun d next => by simp [ends d next]
  obtain ⟨front, back⟩ := Text.span_all word stops
  have unclosed : (c :: more).contains '}' = false := by simpa using closeless
  have other : c ≠ '[' := fun same => unbracketed (by rw [same]; rfl)
  rw [splitName, start]
  split
  · next same => exact absurd (List.cons.inj same).1 other
  · simp only [front, back, unclosed, Bool.false_eq_true, if_false]

theorem split_braced (balanced : Text.Balanced t) :
    split true (braced t ++ ' ' :: x) = .ok (some ⟨braced t, x, []⟩) := by
  have opening : Text.isBlank '{' = false := by decide
  have shape : braced t ++ ' ' :: x = '{' :: (t ++ '}' :: ' ' :: x) := by simp [braced]
  have typed := splitType_of_balanced balanced (' ' :: x)
  have word : splitName (' ' :: (x ++ [])) = .ok (x, []) :=
    splitName_plain filled visible closeless unbracketed (by simp)
  rw [List.append_nil] at word
  rw [shape, split, Text.isBlankText_cons, opening, Text.trimStart_of_visible opening, typed]
  simp only [Bool.false_and, Bool.false_eq_true, if_false, if_true, bind, Except.bind, word, pure,
    Except.pure]
  rfl

theorem ofRaw_braced {raw : RawTag} {node : TypeExpr.Node} (body : raw.val = braced t ++ ' ' :: x)
    (accepted : TypeExpr.parseType t = .ok node) (balanced : Text.Balanced t) (strict : Bool) :
    ofRaw strict true raw = .ok (some ⟨raw.key, raw.raw, braced t, x, [], none, some node, none⟩) := by
  have parted := split_braced filled visible closeless unbracketed balanced
  have type : readType false (braced t) = .ok (some node) := by
    rw [readType, innerType_braced, TypeExpr.not_blank_of_parseType accepted]
    simp only [accepted, Bool.false_eq_true, if_false, Bool.false_and]
    rfl
  rw [ofRaw, body, parted]
  simp only [build, readName_plain filled unbracketed, type]
  rfl

/-- A type expression in braces and a name make up a tag if and only if the braces of the expression
balance: those of its tokens do. What is left are the strings, the names between backticks and the default of
an optional name. -/
theorem braced_type_reads_iff_balanced {node : TypeExpr.Node} (accepted : TypeExpr.parseType t = .ok node) :
    (∀ strict, (∃ tag,
        ofRaw strict true (RawTag.ofParts "param".toList (braced t ++ ' ' :: x)) = .ok (some tag) ∧
          tag.rawType = braced t ∧ tag.type = some node ∧ tag.name = x) ↔ Text.Balanced t) ∧
      (TypeExpr.optionalName? t = none →
        (∀ part ∈ TypeExpr.Lexer.quotedParts t, Text.Balanced part) → Text.Balanced t) ∧
      ∀ name default, TypeExpr.optionalName? t = some (.optional name default) →
        (Text.Balanced t ↔ ∀ value ∈ default, Text.Balanced value) := by
  refine ⟨fun strict => ⟨?_, ?_⟩, ?_, ?_⟩
  · rintro ⟨tag, read, rawType, -, -⟩
    have nothing : '}' ∉ ' ' :: x := by simpa using closeless
    exact balanced_of_ofRaw nothing rfl read rawType
  · intro balanced
    exact ⟨_, ofRaw_braced filled visible closeless unbracketed rfl accepted balanced strict, rfl, rfl, rfl⟩
  · intro unnamed quoted
    exact ((TypeExpr.parseType_eq_ok_iff unnamed).1 accepted).balanced quoted
  · intro name default named
    exact TypeExpr.balanced_optionalName_iff named

end Named

theorem braced_record_with_quoted_braces_reads :
    ∃ type node, type = "\x7ba: '\x7bb\x7d', `c\x7b\x7d`: [d]\x7d".toList ∧
      TypeExpr.parseType type = .ok node ∧
      ∃ tag, ofRaw true true (RawTag.ofParts "param".toList (braced type ++ [' ', 'x'])) = .ok (some tag) ∧
        tag.rawType = braced type ∧ tag.type = some node ∧ tag.name = ['x'] := by
  obtain ⟨node, accepted, -⟩ := TypeExpr.exists_parsed_of_any
    "\x7ba: '\x7bb\x7d', `c\x7b\x7d`: [d]\x7d".toList (fun _ => true) (by decide +kernel)
  have visible : ∀ c ∈ ['x'], Text.isBlank c = false := by
    intro c inside
    rw [List.mem_singleton.1 inside]
    decide
  have reads := braced_type_reads_iff_balanced (by decide) visible (by decide) (by decide) accepted
  have balanced := reads.2.1 (by decide +kernel) (by decide +kernel)
  exact ⟨_, node, rfl, accepted, (reads.1 true).2 balanced⟩

/-- A string that holds a closing brace is a type expression. In a tag this brace ends the type. -/
theorem braced_string_of_closing_brace_malformed :
    (∃ node, TypeExpr.parseType "'\x7d'".toList = .ok node ∧ node.render = "\"\x7d\"".toList) ∧
      ofRaw true true (RawTag.ofParts "param".toList (braced "'\x7d'".toList ++ [' ', 'x'])) =
        .error (.malformedTag "@param \x7b'\x7d'\x7d x".toList .closingInName) := by
  obtain ⟨node, accepted, spelled⟩ := TypeExpr.exists_parsed_of_any "'\x7d'".toList
    (fun node => node.render == "\"\x7d\"".toList) (by decide +kernel)
  exact ⟨⟨node, accepted, eq_of_beq spelled⟩, rfl⟩

end Docblock.Tag
