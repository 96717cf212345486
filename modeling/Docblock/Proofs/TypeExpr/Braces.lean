import Docblock.Proofs.TypeExpr.Acceptance
import Docblock.Proofs.TypeExpr.OptionalName

/-!
# The braces of a type expression

The tokens of a type expression close the braces that they open. Its text does so too if that holds of each
string and of each name between backticks.
-/

set_option autoImplicit false

namespace Docblock.TypeExpr

open Text (braceDepth?)

/-! ## Among tokens -/

/-- The tokens from one place up to another close the braces that they open. -/
def Level (ts us : List Token.Kind) : Prop :=
  ∃ front, ts = front ++ us ∧ Text.Balanced (front.flatMap Token.Kind.braces)

namespace Level

variable {ts us vs : List Token.Kind} {kind : Token.Kind}

theorem refl (ts : List Token.Kind) : Level ts ts :=
  ⟨[], rfl, .nil⟩

theorem trans (first : Level ts us) (second : Level us vs) : Level ts vs := by
  obtain ⟨front, rfl, balanced⟩ := first
  obtain ⟨middle, rfl, balanced'⟩ := second
  refine ⟨front ++ middle, (List.append_assoc _ _ _).symm, ?_⟩
  rw [List.flatMap_append]
  exact balanced.append balanced'

theorem cons (plain : kind.braces = []) (level : Level ts us) : Level (kind :: ts) us := by
  obtain ⟨front, rfl, balanced⟩ := level
  refine ⟨kind :: front, rfl, ?_⟩
  rwa [List.flatMap_cons, plain]

theorem pass (plain : kind.braces = []) (level : Level ts (kind :: us)) : Level ts us :=
  level.trans (cons plain (refl us))

theorem enclosed (level : Level ts (.rightBrace :: us)) : Level (.leftBrace :: ts) us := by
  obtain ⟨front, rfl, balanced⟩ := level
  refine ⟨.leftBrace :: (front ++ [.rightBrace]), by simp, ?_⟩
  have shape : (Token.Kind.leftBrace :: (front ++ [.rightBrace])).flatMap Token.Kind.braces =
      '{' :: (front.flatMap Token.Kind.braces ++ ['}']) := by
    simp [Token.Kind.braces]
  rw [shape]
  exact balanced.enclosed

end Level

namespace Phrase

/-- Every phrase of this kind closes the braces that it opens. -/
def IsLevel {α : Type} (item : Phrase α) : Prop :=
  ∀ {ts us : List Token.Kind} {a : α}, item ts us a → Level ts us

section Lists

variable {α : Type} {item : Phrase α} (each : IsLevel item)

theorem Maybe.level {token : Token.Kind} {ts us : List Token.Kind} (plain : token.braces = [])
    (maybe : Maybe token ts us) : Level ts us := by
  cases maybe with
  | absent => exact .refl ts
  | present => exact .cons plain (.refl us)

include each

theorem Separated.level {separator : Token.Kind} (plain : separator.braces = []) :
    IsLevel (Separated item separator) := by
  intro ts us as derived
  induction derived with
  | last only => exact each only
  | more first _ induction => exact ((each first).pass plain).trans induction

theorem Ended.level : IsLevel (Ended item) := by
  intro ts us as derived
  induction derived with
  | none => exact .refl _
  | more first _ induction => exact ((each first).pass rfl).trans induction

theorem Listed.level : IsLevel (Listed item) := by
  intro ts us as derived
  cases derived with
  | empty => exact .refl _
  | items separated comma => exact (Separated.level each rfl separated).trans (comma.level rfl)

end Lists

section Level

theorem Marked.level {item : Phrase Node} (each : IsLevel item) : IsLevel (Marked item) := by
  intro ts us node derived
  cases derived with
  | plain bare => exact each bare
  | optional bare => exact (each bare).pass rfl

theorem Spread.level {item : Phrase Node} (each : IsLevel item) : IsLevel (Spread item) := by
  intro ts us node derived
  cases derived with
  | plain bare => exact each bare
  | rest bare => exact .cons rfl (each bare)

theorem braces_of_key? {token : Token.Kind} {key : Text} (spelled : Grammar.key? token = some key) :
    token.braces = [] := by
  cases token <;> first | rfl | cases spelled

variable {type : Phrase Node} (each : IsLevel type)

include each

theorem Union.level : IsLevel (Union type) := by
  intro ts us node derived
  cases derived with
  | single only => exact each only
  | several head tail => exact ((each head).pass rfl).trans (Separated.level each rfl tail)

theorem Members.level : IsLevel (Members type) := by
  intro ts us nodes derived
  cases derived with
  | empty => exact .refl _
  | several separated => exact Separated.level each rfl separated

theorem Elements.level : IsLevel (Elements type) := by
  intro ts us nodes derived
  cases derived with
  | listed all => exact Listed.level each all
  | rest front last comma =>
      exact ((Ended.level each front).pass rfl).trans ((each last).trans (comma.level rfl))

theorem Entry.level : IsLevel (Entry type) := by
  intro ts us field derived
  cases derived with
  | alone spelled => exact .cons (braces_of_key? spelled) (.refl _)
  | typed spelled value => exact .cons (braces_of_key? spelled) (.cons rfl (each value))

theorem Entries.level : IsLevel (Entries type) := by
  intro ts us fields derived
  cases derived with
  | comma => exact .cons rfl (.refl _)
  | listed all => exact Listed.level (Entry.level each) all

theorem Bare.level : IsLevel (Bare type) := by
  intro ts us node derived
  cases derived with
  | named value => exact .cons rfl (.cons rfl (each value))
  | union value => exact Union.level each value

theorem Param.level : IsLevel (Param type) :=
  Spread.level (Marked.level (Bare.level each))

theorem Binding.level : IsLevel (Binding type) := by
  intro ts us bindings derived
  cases derived with
  | this value => exact .cons rfl (.cons rfl (each value))
  | new value => exact .cons rfl (.cons rfl (each value))

theorem Signature.level : IsLevel (Signature type) := by
  intro ts us signature derived
  cases derived with
  | unbound _ all => exact .cons rfl (.cons rfl ((Listed.level (Param.level each) all).pass rfl))
  | bound binding => exact .cons rfl (.cons rfl ((Binding.level each binding).pass rfl))
  | both binding all =>
      have bound := (Binding.level each binding).pass rfl
      exact .cons rfl (.cons rfl (bound.trans ((Listed.level (Param.level each) all).pass rfl)))

/-- A record stands between braces; nothing else holds any of its own. -/
theorem Basic.level : IsLevel (Basic type) := by
  intro ts us node derived
  cases derived with
  | all => exact .cons rfl (.refl _)
  | string => exact .cons rfl (.refl _)
  | number => exact .cons rfl (.refl _)
  | parenthesized members => exact .cons rfl ((Members.level each members).pass rfl)
  | array elements => exact .cons rfl ((Elements.level each elements).pass rfl)
  | record entries => exact (Entries.level each entries).enclosed
  | literal _ => exact .cons rfl (.refl _)
  | name _ _ => exact .cons rfl (.refl _)
  | application _ opens arguments =>
      have inner := (Separated.level (Union.level each) rfl arguments).pass rfl
      rcases opens with rfl | rfl
      · exact .cons rfl (.cons rfl inner)
      · exact .cons rfl (.cons rfl inner)
  | function signature => exact Signature.level each signature

theorem Trailed.level : IsLevel (Trailed type) := by
  intro ts us node derived
  induction derived with
  | basic basic => exact Basic.level each basic
  | bang _ induction => exact induction.pass rfl
  | question _ induction => exact induction.pass rfl
  | brackets _ induction => exact (induction.pass rfl).pass rfl

theorem Postfixed.level : IsLevel (Postfixed type) := by
  intro ts us node derived
  cases derived with
  | trailed trailed => exact Trailed.level each trailed
  | result signature value => exact ((Signature.level each signature).pass rfl).trans (each value)

theorem Prefixed.level : IsLevel (Prefixed type) := by
  intro ts us node derived
  cases derived with
  | questionAlone => exact .cons rfl (.refl _)
  | question inner => exact .cons rfl (Postfixed.level each inner)
  | bangAlone => exact .cons rfl (.refl _)
  | bang inner => exact .cons rfl (Postfixed.level each inner)
  | plain inner => exact Postfixed.level each inner

end Level

theorem Expression.level (room : Nat) : IsLevel (Expression room) := by
  induction room with
  | zero =>
      intro ts us node derived
      exact derived.elim
  | succ room induction => exact Prefixed.level induction

theorem Top.level (room : Nat) : IsLevel (Top room) :=
  Spread.level (Marked.level (Union.level (Expression.level room)))

end Phrase

/-! ## In the text -/

namespace Lexer

def lexemesUpTo : Nat → Text → List Text
  | 0, _ => []
  | count + 1, s =>
      match next s with
      | (.ok token, after) =>
          if token.kind = .eof then []
          else token.place.take (token.place.length - after.length) :: lexemesUpTo count after
      | (.error _, _) => []

/-- The strings and the names between backticks in a text, with their quotes. -/
def quotedParts (s : Text) : List Text :=
  (lexemesUpTo (s.length + 1) s).filter isQuoted

theorem lexemesUpTo_succ {s after lexeme : Text} {token : Token} (read : next s = (.ok token, after))
    (inside : token.kind ≠ .eof) (shape : token.place = lexeme ++ after) (count : Nat) :
    lexemesUpTo (count + 1) s = lexeme :: lexemesUpTo count after := by
  have cut : token.place.take (token.place.length - after.length) = lexeme := by simp [shape]
  simp only [lexemesUpTo, read, if_neg inside, cut]

/-- Where each part in quotes is balanced, the braces of a text count as those of its tokens. -/
theorem braceDepth?_of_reads {s : Text} {kinds : List Token.Kind} (reads : Reads s kinds) {count : Nat}
    (enough : s.length < count) (quoted : ∀ part ∈ (lexemesUpTo count s).filter isQuoted, Text.Balanced part)
    (depth : Nat) : braceDepth? depth s = braceDepth? depth (kinds.flatMap Token.Kind.braces) := by
  induction reads generalizing count depth with
  | last read atEnd =>
      rcases next_ok read with ⟨-, blank⟩ | ⟨_, _, _, _, _, lexical⟩
      · rw [← Text.braceDepth?_braces, Text.braces_of_blank blank]
        rfl
      · exact absurd atEnd lexical.inside
  | @more s after token kinds read inside others induction =>
      obtain ⟨count, rfl⟩ : ∃ more, count = more + 1 := ⟨count - 1, by omega⟩
      rcases next_ok read with ⟨atEnd, -⟩ | ⟨blanks, lexeme, whole, blank, shape, lexical⟩
      · exact absurd atEnd inside
      · have shorter := next_length read inside
        rw [lexemesUpTo_succ read inside shape] at quoted
        have front : braceDepth? depth s = (braceDepth? depth lexeme).bind (braceDepth? · after) := by
          have skipped : braceDepth? depth blanks = some depth := by
            rw [← Text.braceDepth?_braces, Text.braces_of_blank blank]
            rfl
          rw [whole, shape, Text.braceDepth?_append, skipped, Option.bind_some, Text.braceDepth?_append]
        have here : braceDepth? depth lexeme = braceDepth? depth token.kind.braces := by
          rcases lexical.braces with ⟨quote, plain⟩ | same
          · have balanced := quoted lexeme (List.mem_filter.2 ⟨List.mem_cons_self, quote⟩)
            rw [balanced.braceDepth?, plain]
            rfl
          · rw [← same, Text.braceDepth?_braces]
        have later := fun depth => induction (by omega : after.length < count) (fun part member =>
          quoted part (List.mem_filter.2 ⟨List.mem_cons_of_mem _ (List.mem_filter.1 member).1,
            (List.mem_filter.1 member).2⟩)) depth
        rw [front, here, List.flatMap_cons, Text.braceDepth?_append]
        exact congrArg _ (funext later)

end Lexer

section Sources

variable {source : Text} {node : Node}

theorem ReadsAs.balanced (reads : ReadsAs source node)
    (quoted : ∀ part ∈ Lexer.quotedParts source, Text.Balanced part) : Text.Balanced source := by
  obtain ⟨kinds, lexed, derived⟩ := ReadsAs.iff_top.1 reads
  obtain ⟨front, rfl, balanced⟩ := Phrase.Top.level maxDepth derived
  rw [Text.Balanced, Lexer.braceDepth?_of_reads lexed (Nat.lt_succ_self _) quoted, List.flatMap_append]
  exact balanced.append .nil

theorem ReadsAs.not_blank (reads : ReadsAs source node) : Text.isBlankText source = false := by
  obtain ⟨kinds, lexed, derived⟩ := ReadsAs.iff_top.1 reads
  rw [← Bool.not_eq_true]
  intro blank
  have ended : Lexer.next source = (.ok ⟨.eof, []⟩, []) := by
    rw [Lexer.next, Text.trimStart_eq_nil blank]
  obtain rfl := lexed.unique (.last ended rfl)
  cases derived with
  | plain marked =>
      obtain ⟨kind, more, same, begins⟩ :=
        marked.begins (Phrase.Union.begins (Phrase.Expression.isType maxDepth))
      cases same
      cases begins

theorem not_blank_of_parseType (parsed : parseType source = .ok node) : Text.isBlankText source = false := by
  rcases named_or_reads_of_parseType parsed with named | reads
  · obtain ⟨inner, shape, -⟩ := optionalName?_eq_some_iff.1 named
    rw [← Bool.not_eq_true, ← Text.trim_eq_nil_iff, shape]
    simp
  · exact reads.not_blank

theorem braces_of_isBareName {name : Text} (bare : isBareName name = true) : Text.braces name = [] :=
  Lexer.braces_of_isNameChar fun _ inside => isNameChar_of_isBareName bare inside

theorem balanced_optionalName_iff {name : Node} {default : Option Text}
    (named : optionalName? source = some (.optional name default)) :
    Text.Balanced source ↔ ∀ value ∈ default, Text.Balanced value := by
  obtain ⟨inner, shape, bare, same⟩ := optionalName?_eq_some_iff.1 named
  obtain ⟨-, rfl⟩ := Node.optional.inj same
  have whole : Text.braces source = Text.braces inner := by
    rw [← Text.braces_trim, shape]
    exact Text.braces_append.trans (List.append_nil _)
  have plain := braces_of_isBareName bare
  rw [← splitDefault_fst] at plain
  rw [Text.balanced_congr whole]
  cases cut : Text.splitOnce '=' inner with
  | none =>
      rw [splitDefault, cut] at plain ⊢
      rw [Text.braces_trim] at plain
      rw [Text.balanced_congr (plain.trans Text.braces_nil.symm)]
      simp [Text.Balanced.nil]
  | some halves =>
      obtain ⟨before, after⟩ := halves
      obtain ⟨rfl, -⟩ := Text.splitOnce_eq_some_iff.1 cut
      rw [splitDefault, cut] at plain ⊢
      rw [Text.braces_trim] at plain
      have behind : Text.braces (before ++ '=' :: after) = Text.braces (Text.trim after) := by
        rw [Text.braces_append, plain, Text.braces_trim]
        rfl
      rw [Text.balanced_congr behind]
      cases value : Text.trim after with
      | nil => simp [Option.filter, value, Text.Balanced.nil]
      | cons c rest => simp [Option.filter, value]

end Sources

end Docblock.TypeExpr
