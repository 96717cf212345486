import Docblock.Proofs.TypeExpr.Phrase
import Docblock.Proofs.TypeExpr.Production
import Docblock.Proofs.TypeExpr.Stream

/-!
# What the productions read are phrases

Every production that succeeds has read a phrase of its kind with the value it returns. A session is
followed backwards: wherever the tokens behind the phrase are known, the tokens from the phrase on are.
-/

set_option autoImplicit false

namespace Docblock.TypeExpr

open Yields

structure Session.Takes (s : Session) (kind : Token.Kind) (t : Session) : Prop where
  found : s.token.kind = kind
  shorter : t.left < s.left
  back : ∀ {after : List Token.Kind}, t.At after → s.At (kind :: after)

namespace Yields

variable {s t : Session} {u : Unit}

theorem advance_takes {kind : Token.Kind} (run : Yields Parser.advance s u t)
    (found : s.token.kind = kind) (inside : kind ≠ .eof) : s.Takes kind t := by
  subst found
  exact ⟨rfl, advance_left run inside, advance_back run inside⟩

theorem expect_takes {kind : Token.Kind} (run : Yields (Parser.expect kind) s u t)
    (inside : kind ≠ .eof) : s.Takes kind t := by
  obtain ⟨found, run⟩ := expect_iff.1 run
  exact advance_takes run found inside

theorem openWith_takes {kind : Token.Kind} {delimiter : Delimiter}
    (run : Yields (Parser.openWith delimiter) s u t) (found : s.token.kind = kind)
    (inside : kind ≠ .eof) : s.Takes kind t := by
  have takes := advance_takes (openWith_iff.1 run) found inside
  exact ⟨found, takes.shorter, fun stands => (takes.back stands).transfer rfl rfl⟩

theorem closeWith_takes {delimiter : Delimiter}
    (run : Yields (Parser.closeWith delimiter) s u t) : s.Takes delimiter.closing t := by
  obtain ⟨found, r, step, rfl⟩ := closeWith_iff.1 run
  have takes := advance_takes step found (by cases delimiter <;> simp [Delimiter.closing])
  exact ⟨found, takes.shorter, fun stands => takes.back (stands.transfer rfl rfl)⟩

end Yields

theorem Yields.lookAhead_advance {s r t : Session} {u : Unit} {kind : Token.Kind}
    (looked : Yields Parser.lookAhead s kind r) (step : Yields Parser.advance s u t) :
    t.token.kind = kind := by
  obtain ⟨_, _, next, rfl, -⟩ := lookAhead_iff.1 looked
  obtain ⟨_, _, next', rfl⟩ := advance_iff.1 step
  rw [next] at next'
  cases next'
  rfl

/-- On sessions with at most `bound` left, a step that succeeds has read a phrase. -/
def Sound {α : Type} (bound : Nat) (step : Parser α) (phrase : Phrase α) : Prop :=
  ∀ {s t : Session} {a : α}, Yields step s a t → s.left ≤ bound →
    t.left ≤ s.left ∧
      ∀ {after : List Token.Kind}, t.At after → ∃ before, s.At before ∧ phrase before after a

/-- On sessions with at most `bound` left, a step that succeeds leaves no mark to be read. -/
def Settles (bound : Nat) (step : Parser Node) : Prop :=
  ∀ {s t : Session} {node : Node}, Yields step s node t → s.left ≤ bound → Unmarked t

namespace Grammar

/-- Items read in rounds, each behind a separator, are separated phrases. Rounds are not left out for
want of room as long as tokens are left. -/
theorem more_sound {α : Type} {bound : Nat} {item : Parser α} {phrase : Phrase α}
    {separator : Token.Kind} {loop : Nat → Parser (List α)} (itemSound : Sound bound item phrase)
    (inside : separator ≠ .eof) (loops : Parser.MoreLoop item separator loop) {limit : Nat}
    (within : limit ≤ bound) :
    Sound limit (loop limit) fun before after as =>
      (before = after ∧ as = [] ∧ before.head? ≠ some separator) ∨
        ∃ rest, before = separator :: rest ∧ Phrase.Separated phrase separator rest after as := by
  induction limit with
  | zero =>
      intro s t as run enough
      have atEnd := Session.left_eq_zero_iff.1 (Nat.le_zero.1 enough)
      simp only [loops.stop, pure_iff] at run
      obtain ⟨rfl, rfl⟩ := run
      refine ⟨Nat.le_refl _, fun stands => ⟨_, stands, .inl ⟨rfl, rfl, ?_⟩⟩⟩
      obtain ⟨more, rfl⟩ := stands.exists_cons
      simpa [atEnd] using Ne.symm inside
  | succ limit induction =>
      intro s t as run enough
      rw [loops.round, moreRound_iff] at run
      rcases run with ⟨different, rfl, rfl⟩ | ⟨found, first, more, s₁, s₂, step, read, others, rfl⟩
      · refine ⟨Nat.le_refl _, fun stands => ⟨_, stands, .inl ⟨rfl, rfl, ?_⟩⟩⟩
        obtain ⟨more, rfl⟩ := stands.exists_cons
        simpa using different
      · have token := advance_takes step found inside
        have less := token.shorter
        obtain ⟨shorter, derives⟩ := itemSound read (by omega)
        obtain ⟨shorter', listed⟩ := induction (by omega) others (by omega)
        refine ⟨by omega, fun stands => ?_⟩
        obtain ⟨middle, at₂, rest⟩ := listed stands
        obtain ⟨before, at₁, derived⟩ := derives at₂
        refine ⟨_, token.back at₁, .inr ⟨_, rfl, ?_⟩⟩
        rcases rest with ⟨rfl, rfl, _⟩ | ⟨rest, rfl, more⟩
        · exact .last derived
        · exact .more derived more

section

variable {type : Parser Node} {phrase : Phrase Node} {bound : Nat} (typeSound : Sound bound type phrase)

include typeSound

theorem union_sound : Sound bound (union type bound) (Phrase.Union phrase) := by
  intro s t node run enough
  simp only [union, bind_iff (p := type)] at run
  obtain ⟨first, s₁, read, run⟩ := run
  obtain ⟨shorter, typed⟩ := typeSound read enough
  simp only [at?_bind_iff] at run
  split at run
  · next found =>
      simp only [bind_iff, pure_iff] at run
      obtain ⟨more, s₂, others, rfl, rfl⟩ := run
      obtain ⟨shorter', listed⟩ := more_sound typeSound (by simp) (moreMembers_loop type)
        (Nat.le_refl bound) others (by omega)
      refine ⟨by omega, fun stands => ?_⟩
      obtain ⟨middle, at₁, rest⟩ := listed stands
      obtain ⟨before, at₀, derived⟩ := typed at₁
      rcases rest with ⟨rfl, rfl, other⟩ | ⟨rest, rfl, more⟩
      · obtain ⟨more, rfl⟩ := at₁.exists_cons
        simp [beq_iff_eq.1 found] at other
      · exact ⟨before, at₀, .several derived more⟩
  · simp only [pure_iff] at run
    obtain ⟨rfl, rfl⟩ := run
    refine ⟨shorter, fun stands => ?_⟩
    obtain ⟨before, at₀, derived⟩ := typed stands
    exact ⟨before, at₀, .single derived⟩

theorem members_sound {limit : Nat} (within : limit ≤ bound) {s t : Session} {nodes : List Node}
    (run : Yields (members type limit) s nodes t) (enough : s.left ≤ limit)
    (closes : t.token.kind = .rightParen) :
    t.left ≤ s.left ∧ ∀ {after : List Token.Kind}, t.At after →
      ∃ before, s.At before ∧ Phrase.Separated phrase .pipe before after nodes := by
  induction limit generalizing s nodes with
  | zero =>
      have atEnd := Session.left_eq_zero_iff.1 (Nat.le_zero.1 enough)
      simp only [members, pure_iff] at run
      obtain ⟨rfl, rfl⟩ := run
      simp [atEnd] at closes
  | succ limit induction =>
      simp only [members, bind_iff (p := type)] at run
      obtain ⟨member, s₁, read, run⟩ := run
      obtain ⟨shorter, typed⟩ := typeSound read (by omega)
      simp only [at?_bind_iff] at run
      split at run
      · simp only [pure_iff] at run
        obtain ⟨rfl, rfl⟩ := run
        refine ⟨shorter, fun stands => ?_⟩
        obtain ⟨before, at₀, derived⟩ := typed stands
        exact ⟨before, at₀, .last derived⟩
      · simp only [bind_iff, pure_iff] at run
        obtain ⟨_, s₂, step, more, s₃, others, rfl, rfl⟩ := run
        have pipe := expect_takes step (by simp)
        have less := pipe.shorter
        obtain ⟨shorter', listed⟩ := induction (by omega) others (by omega)
        refine ⟨by omega, fun stands => ?_⟩
        obtain ⟨middle, at₂, rest⟩ := listed stands
        obtain ⟨before, at₀, derived⟩ := typed (pipe.back at₂)
        exact ⟨before, at₀, .more derived rest⟩

theorem parenthesized_sound {s t : Session} {node : Node}
    (run : Yields (parenthesized type bound) s node t) (enough : s.left ≤ bound)
    (found : s.token.kind = .leftParen) :
    t.left ≤ s.left ∧ ∀ {after : List Token.Kind}, t.At after →
      ∃ before, s.At before ∧ Phrase.Basic phrase before after node := by
  simp only [parenthesized, bind_iff (p := Parser.openWith _)] at run
  obtain ⟨_, s₁, opens, run⟩ := run
  have paren := openWith_takes opens found (by simp)
  have less := paren.shorter
  simp only [at?_bind_iff] at run
  split at run
  · simp only [bind_iff, pure_iff] at run
    obtain ⟨_, s₂, ⟨rfl, rfl⟩, _, s₃, closes, rfl, rfl⟩ := run
    have close := closeWith_takes closes
    have less' := close.shorter
    exact ⟨by omega, fun stands => ⟨_, paren.back (close.back stands), .parenthesized .empty⟩⟩
  · simp only [bind_iff, pure_iff] at run
    obtain ⟨nodes, s₂, inside, _, s₃, closes, rfl, rfl⟩ := run
    have close := closeWith_takes closes
    have less' := close.shorter
    obtain ⟨shorter, listed⟩ :=
      members_sound typeSound (Nat.le_refl _) inside (by omega) close.found
    refine ⟨by omega, fun stands => ?_⟩
    obtain ⟨before, at₁, separated⟩ := listed (close.back stands)
    exact ⟨_, paren.back at₁, .parenthesized (.several separated)⟩

omit typeSound in
theorem elements_of_closing {limit : Nat} {s t : Session} {nodes : List Node}
    (run : Yields (elements type limit) s nodes t) (closes : s.token.kind = .rightBracket) :
    nodes = [] ∧ t = s := by
  cases limit with
  | zero => simpa only [elements, pure_iff] using run
  | succ limit =>
      simpa only [elements, at?_bind_iff, closes, beq_self_eq_true, if_true, pure_iff] using run

theorem elements_sound (limit : Nat) :
    Sound bound (elements type limit) (Phrase.Elements phrase) := by
  induction limit with
  | zero =>
      intro s t nodes run _
      simp only [elements, pure_iff] at run
      obtain ⟨rfl, rfl⟩ := run
      exact ⟨Nat.le_refl _, fun stands => ⟨_, stands, .listed .empty⟩⟩
  | succ limit induction =>
      intro s t nodes run enough
      simp only [elements, at?_bind_iff] at run
      split at run
      · simp only [pure_iff] at run
        obtain ⟨rfl, rfl⟩ := run
        exact ⟨Nat.le_refl _, fun stands => ⟨_, stands, .listed .empty⟩⟩
      · simp only [at?_bind_iff] at run
        split at run
        · exact absurd run unexpected_iff.1
        · simp only [at?_bind_iff] at run
          split at run
          · next found =>
              simp only [bind_iff (p := Parser.advance), bind_iff (p := type), at?_bind_iff] at run
              obtain ⟨_, s₁, step, element, s₂, read, run⟩ := run
              have dots := advance_takes step (beq_iff_eq.1 found) (by simp)
              have less := dots.shorter
              obtain ⟨shorter, typed⟩ := typeSound read (by omega)
              simp only [when_iff, pure_iff] at run
              obtain ⟨r, comma, rfl, rfl⟩ := run
              rcases comma with ⟨found, step⟩ | ⟨_, rfl⟩
              · have comma := advance_takes step (beq_iff_eq.1 found) (by simp)
                have less' := comma.shorter
                refine ⟨by omega, fun stands => ?_⟩
                obtain ⟨before, at₁, derived⟩ := typed (comma.back stands)
                exact ⟨_, dots.back at₁, .rest .none derived .present⟩
              · refine ⟨by omega, fun stands => ?_⟩
                obtain ⟨before, at₁, derived⟩ := typed stands
                exact ⟨_, dots.back at₁, .rest .none derived .absent⟩
          · simp only [bind_iff (p := type), at?_bind_iff, unless_iff] at run
            obtain ⟨element, s₁, read, s₂, separator, run⟩ := run
            obtain ⟨shorter, typed⟩ := typeSound read enough
            simp only [bind_iff, pure_iff] at run
            obtain ⟨more, s₃, others, rfl, rfl⟩ := run
            rcases separator with ⟨closes, rfl⟩ | ⟨_, step⟩
            · obtain ⟨rfl, rfl⟩ := elements_of_closing others (beq_iff_eq.1 closes)
              refine ⟨shorter, fun stands => ?_⟩
              obtain ⟨before, at₀, derived⟩ := typed stands
              exact ⟨before, at₀, .listed (.single derived)⟩
            · have comma := expect_takes step (by simp)
              have less := comma.shorter
              obtain ⟨shorter', listed⟩ := induction others (by omega)
              refine ⟨by omega, fun stands => ?_⟩
              obtain ⟨middle, at₂, rest⟩ := listed stands
              obtain ⟨before, at₀, derived⟩ := typed (comma.back at₂)
              exact ⟨before, at₀, .cons derived rest⟩

theorem field_sound : Sound bound (field type) (Phrase.Entry phrase) := by
  intro s t entry run enough
  simp only [field, current_bind_iff] at run
  split at run
  · exact absurd run failHere_iff.1
  · next key spelled =>
      have inside : s.token.kind ≠ .eof := by
        intro atEnd
        simp [atEnd, key?] at spelled
      simp only [bind_iff (p := Parser.advance), at?_bind_iff] at run
      obtain ⟨_, s₁, step, run⟩ := run
      have token := advance_takes step rfl inside
      have less := token.shorter
      split at run
      · next found =>
          simp only [bind_iff, pure_iff] at run
          obtain ⟨_, s₂, step', node, s₃, read, rfl, rfl⟩ := run
          have colon := advance_takes step' (beq_iff_eq.1 found) (by simp)
          have less' := colon.shorter
          obtain ⟨shorter, typed⟩ := typeSound read (by omega)
          refine ⟨by omega, fun stands => ?_⟩
          obtain ⟨before, at₂, derived⟩ := typed stands
          exact ⟨_, token.back (colon.back at₂), .typed spelled derived⟩
      · simp only [pure_iff] at run
        obtain ⟨rfl, rfl⟩ := run
        exact ⟨by omega, fun stands => ⟨_, token.back stands, .alone spelled⟩⟩

end

theorem listed_of_closing {α : Type} {item : Parser α} {closing : Token.Kind}
    {loop : Nat → Parser (List α)} (loops : Parser.ListLoop item closing loop) {limit : Nat}
    {s t : Session} {as : List α} (run : Yields (loop limit) s as t)
    (closes : s.token.kind = closing) : as = [] ∧ t = s := by
  cases limit with
  | zero => simpa only [loops.stop, pure_iff] using run
  | succ limit =>
      rw [loops.round, listRound_iff] at run
      rcases run with ⟨_, rfl, rfl⟩ | ⟨goesOn, _⟩
      · exact ⟨rfl, rfl⟩
      · exact absurd closes goesOn

theorem listed_sound {α : Type} {bound : Nat} {item : Parser α} {phrase : Phrase α}
    {closing : Token.Kind} {loop : Nat → Parser (List α)} (itemSound : Sound bound item phrase)
    (loops : Parser.ListLoop item closing loop) (limit : Nat) :
    Sound bound (loop limit) (Phrase.Listed phrase) := by
  induction limit with
  | zero =>
      intro s t as run _
      simp only [loops.stop, pure_iff] at run
      obtain ⟨rfl, rfl⟩ := run
      exact ⟨Nat.le_refl _, fun stands => ⟨_, stands, .empty⟩⟩
  | succ limit induction =>
      intro s t as run enough
      rw [loops.round, listRound_iff] at run
      rcases run with ⟨_, rfl, rfl⟩ | ⟨_, _, first, more, s₁, s₂, read, separator, others, rfl⟩
      · exact ⟨Nat.le_refl _, fun stands => ⟨_, stands, .empty⟩⟩
      · obtain ⟨shorter, derives⟩ := itemSound read enough
        rcases separator with ⟨closes, rfl⟩ | ⟨_, step⟩
        · obtain ⟨rfl, rfl⟩ := listed_of_closing loops others closes
          refine ⟨shorter, fun stands => ?_⟩
          obtain ⟨before, at₀, derived⟩ := derives stands
          exact ⟨before, at₀, .single derived⟩
        · have comma := expect_takes step (by simp)
          have less := comma.shorter
          obtain ⟨shorter', listed⟩ := induction others (by omega)
          refine ⟨by omega, fun stands => ?_⟩
          obtain ⟨middle, at₂, rest⟩ := listed stands
          obtain ⟨before, at₀, derived⟩ := derives (comma.back at₂)
          exact ⟨before, at₀, .cons derived rest⟩

section

variable {type : Parser Node} {phrase : Phrase Node} {bound : Nat} (typeSound : Sound bound type phrase)

include typeSound

theorem fields_sound (limit : Nat) :
    Sound bound (fields type limit) (Phrase.Listed (Phrase.Entry phrase)) :=
  listed_sound (field_sound typeSound) (fields_loop type) limit

theorem array_sound {s t : Session} {node : Node}
    (run : Yields (array type bound) s node t) (enough : s.left ≤ bound)
    (found : s.token.kind = .leftBracket) :
    t.left ≤ s.left ∧ ∀ {after : List Token.Kind}, t.At after →
      ∃ before, s.At before ∧ Phrase.Basic phrase before after node := by
  simp only [array, bind_iff, pure_iff] at run
  obtain ⟨_, s₁, opens, nodes, s₂, inside, _, s₃, closes, rfl, rfl⟩ := run
  have bracket := openWith_takes opens found (by simp)
  have close := closeWith_takes closes
  have less := bracket.shorter
  have less' := close.shorter
  obtain ⟨shorter, listed⟩ := elements_sound typeSound bound inside (by omega)
  refine ⟨by omega, fun stands => ?_⟩
  obtain ⟨before, at₁, derived⟩ := listed (close.back stands)
  exact ⟨_, bracket.back at₁, .array derived⟩

theorem record_sound {s t : Session} {node : Node}
    (run : Yields (record type bound) s node t) (enough : s.left ≤ bound)
    (found : s.token.kind = .leftBrace) :
    t.left ≤ s.left ∧ ∀ {after : List Token.Kind}, t.At after →
      ∃ before, s.At before ∧ Phrase.Basic phrase before after node := by
  simp only [record, bind_iff (p := Parser.openWith _), at?_bind_iff] at run
  obtain ⟨_, s₁, opens, run⟩ := run
  have brace := openWith_takes opens found (by simp)
  have less := brace.shorter
  split at run
  · next comes =>
      simp only [bind_iff, pure_iff] at run
      obtain ⟨_, s₂, step, _, s₃, ⟨rfl, rfl⟩, _, s₄, closes, rfl, rfl⟩ := run
      have comma := advance_takes step (beq_iff_eq.1 comes) (by simp)
      have close := closeWith_takes closes
      have less' := comma.shorter
      have less'' := close.shorter
      exact ⟨by omega, fun stands =>
        ⟨_, brace.back (comma.back (close.back stands)), .record .comma⟩⟩
  · simp only [bind_iff, pure_iff] at run
    obtain ⟨entries, s₂, inside, _, s₃, closes, rfl, rfl⟩ := run
    have close := closeWith_takes closes
    have less' := close.shorter
    obtain ⟨shorter, listed⟩ := fields_sound typeSound bound inside (by omega)
    refine ⟨by omega, fun stands => ?_⟩
    obtain ⟨before, at₁, derived⟩ := listed (close.back stands)
    exact ⟨_, brace.back at₁, .record (.listed derived)⟩

theorem named_sound {s t : Session} {name : Text} {node : Node}
    (run : Yields (named type bound name) s node t) (enough : s.left ≤ bound)
    (found : s.token.kind = .name name) (free : literal? name = none)
    (noCall : name = "function".toList → ∀ {after : List Token.Kind}, s.At (.name name :: after) →
      after.head? ≠ some .leftParen) :
    t.left ≤ s.left ∧ ∀ {after : List Token.Kind}, t.At after →
      ∃ before, s.At before ∧ Phrase.Basic phrase before after node := by
  simp only [named, bind_iff (p := Parser.advance), at?_bind_iff] at run
  obtain ⟨_, s₁, step, run⟩ := run
  have token := advance_takes step found (by simp)
  have less := token.shorter
  split at run
  · next opening =>
      simp only [bind_iff, pure_iff] at run
      obtain ⟨_, s₂, opens, first, s₃, read, more, s₄, others, _, s₅, closes, rfl, rfl⟩ := run
      have opening : s₁.token.kind = .less ∨ s₁.token.kind = .dotLess := by simpa using opening
      have angle := openWith_takes opens rfl (by rcases opening with kind | kind <;> simp [kind])
      have close := closeWith_takes closes
      have less' := angle.shorter
      have less'' := close.shorter
      obtain ⟨shorter, united⟩ := union_sound typeSound read (by omega)
      obtain ⟨shorter', listed⟩ := more_sound (union_sound typeSound) (by simp)
        (moreArguments_loop type bound) (Nat.le_refl bound) others (by omega)
      refine ⟨by omega, fun stands => ?_⟩
      obtain ⟨middle, at₃, rest⟩ := listed (close.back stands)
      obtain ⟨before, at₂, derived⟩ := united at₃
      refine ⟨_, token.back (angle.back at₂), .application free opening ?_⟩
      rcases rest with ⟨rfl, rfl, _⟩ | ⟨rest, rfl, more⟩
      · exact .last derived
      · exact .more derived more
  · simp only [pure_iff] at run
    obtain ⟨rfl, rfl⟩ := run
    exact ⟨by omega, fun stands =>
      ⟨_, token.back stands, .name free fun isCall => noCall isCall (token.back stands)⟩⟩

omit typeSound in
theorem beforeColon_at {s t : Session} {kind : Token.Kind} {after : List Token.Kind} {b : Bool}
    (run : Yields beforeColon s b t) (stands : s.At (kind :: after)) (inside : kind ≠ .eof) :
    b = (after.head? == some .colon) := by
  obtain ⟨-, next, looked, rfl⟩ := beforeColon_iff.1 run
  obtain ⟨more, rfl⟩ := lookAhead_head looked stands inside
  rfl

theorem labelled_sound {s t : Session} {name : Text} {node : Node}
    (run : LabelledType type s name node t) (enough : s.left ≤ bound) :
    t.left < s.left ∧ ∀ {after : List Token.Kind}, t.At after →
      ∃ before, s.At (.name name :: .colon :: before) ∧ phrase before after node := by
  obtain ⟨⟨found, looked⟩, r₁, r₂, step, step', read⟩ := run
  have token := advance_takes step found (by simp)
  have colon : r₁.token.kind = .colon := by
    obtain ⟨-, kind, looked, equal⟩ := beforeColon_iff.1 looked
    rw [lookAhead_advance looked step]
    simpa using equal.symm
  have colon := advance_takes step' colon (by simp)
  have less := token.shorter
  have less' := colon.shorter
  obtain ⟨shorter, typed⟩ := typeSound read (by omega)
  refine ⟨by omega, fun stands => ?_⟩
  obtain ⟨before, at₂, derived⟩ := typed stands
  exact ⟨before, token.back (colon.back at₂), derived⟩

theorem bareParam_sound : Sound bound (bareParam type bound) (Phrase.Bare phrase) := by
  intro s t node run enough
  rcases bareParam_iff.1 run with ⟨name, inner, labelled, rfl⟩ | ⟨-, run⟩
  · obtain ⟨shorter, typed⟩ := labelled_sound typeSound labelled enough
    refine ⟨by omega, fun stands => ?_⟩
    obtain ⟨before, at₀, derived⟩ := typed stands
    exact ⟨_, at₀, .named derived⟩
  · obtain ⟨shorter, united⟩ := union_sound typeSound run enough
    refine ⟨shorter, fun stands => ?_⟩
    obtain ⟨before, at₀, derived⟩ := united stands
    exact ⟨before, at₀, .union derived⟩

theorem param_sound : Sound bound (param type bound) (Phrase.Param phrase) := by
  intro s t node run enough
  obtain ⟨bare, s₁, s₂, dots, read, equal, rfl⟩ := param_iff.1 run
  have less : s₁.left ≤ s.left := by
    rcases dots with ⟨found, step⟩ | ⟨_, rfl⟩
    · exact Nat.le_of_lt (advance_takes step found (by simp)).shorter
    · exact Nat.le_refl _
  obtain ⟨shorter, derives⟩ := bareParam_sound typeSound read (by omega)
  have marked : t.left ≤ s₂.left ∧ ∀ {after : List Token.Kind}, t.At after → ∃ before, s₁.At before ∧
      Phrase.Marked (Phrase.Bare phrase) before after
        (if s₂.token.kind = .equal then .optional bare none else bare) := by
    rcases equal with ⟨found, step⟩ | ⟨other, rfl⟩
    · have takes := advance_takes step found (by simp)
      refine ⟨Nat.le_of_lt takes.shorter, fun stands => ?_⟩
      obtain ⟨before, at₁, derived⟩ := derives (takes.back stands)
      rw [if_pos found]
      exact ⟨before, at₁, .optional derived⟩
    · refine ⟨Nat.le_refl _, fun stands => ?_⟩
      obtain ⟨before, at₁, derived⟩ := derives stands
      rw [if_neg other]
      exact ⟨before, at₁, .plain derived⟩
  refine ⟨Nat.le_trans marked.1 (Nat.le_trans shorter less), fun stands => ?_⟩
  obtain ⟨before, at₁, derived⟩ := marked.2 stands
  rcases dots with ⟨found, step⟩ | ⟨other, rfl⟩
  · rw [if_pos found]
    exact ⟨_, (advance_takes step found (by simp)).back at₁, .rest derived⟩
  · rw [if_neg other]
    exact ⟨before, at₁, .plain derived⟩

theorem params_sound (limit : Nat) :
    Sound bound (params type bound limit) (Phrase.Listed (Phrase.Param phrase)) :=
  listed_sound (param_sound typeSound) (params_loop type bound) limit

omit typeSound in
theorem bindsHere_of_binding {s : Session} {before : List Token.Kind} (stands : s.At before)
    (free : ∀ name, s.token.kind = .name name → name = "new".toList ∨ name = "this".toList →
      Yields beforeColon s false s) : Phrase.bindsHere before = false := by
  unfold Phrase.bindsHere
  split
  · next name others =>
      rw [Bool.eq_false_iff]
      intro binds
      have looked := free name stands.head (by simpa using binds)
      simpa using beforeColon_at looked stands (by simp)
  · rfl

omit typeSound in
theorem binding_phrase {name : Text} {before after : List Token.Kind} {node : Node}
    (binds : name = "new".toList ∨ name = "this".toList) (derived : phrase before after node) :
    Phrase.Binding phrase (.name name :: .colon :: before) after
      (bindings (some (name == "new".toList, node))) := by
  rcases binds with rfl | rfl
  · exact .new derived
  · exact .this derived

theorem signature_sound {s t : Session} {bound? : Option (Bool × Node)} {nodes : List Node}
    (signed : Signed type bound s bound? nodes t) (enough : s.left ≤ bound)
    (found : s.token.kind = .name "function".toList)
    (call : Yields Parser.lookAhead s .leftParen s) :
    t.left < s.left ∧ ∀ {after : List Token.Kind}, t.At after →
      ∃ before, s.At before ∧ Phrase.Signature phrase before after (nodes, bindings bound?) := by
  obtain ⟨s₁, s₂, s₃, s₄, step, opens, start, inside, closes⟩ := signed
  have word := advance_takes step found (by simp)
  have paren := openWith_takes opens (lookAhead_advance call step) (by simp)
  have close := closeWith_takes closes
  have less := word.shorter
  have less' := paren.shorter
  have less'' := close.shorter
  rcases binding_iff.1 start with ⟨rfl, rfl, free⟩ | ⟨name, node, r, binds, labelled, separator, rfl⟩
  · obtain ⟨shorter, listed⟩ := params_sound typeSound bound inside (by omega)
    refine ⟨by omega, fun stands => ?_⟩
    obtain ⟨before, at₂, derived⟩ := listed (close.back stands)
    exact ⟨_, word.back (paren.back at₂), .unbound (bindsHere_of_binding at₂ free) derived⟩
  · obtain ⟨shorter, typed⟩ := labelled_sound typeSound labelled (by omega)
    rcases separator with ⟨closing, rfl⟩ | ⟨_, step'⟩
    · obtain ⟨rfl, rfl⟩ := listed_of_closing (params_loop type bound) inside closing
      refine ⟨by omega, fun stands => ?_⟩
      obtain ⟨before, at₂, derived⟩ := typed (close.back stands)
      exact ⟨_, word.back (paren.back at₂), .bound (binding_phrase binds derived)⟩
    · have comma := expect_takes step' (by simp)
      have less₃ := comma.shorter
      obtain ⟨shorter', listed⟩ := params_sound typeSound bound inside (by omega)
      refine ⟨by omega, fun stands => ?_⟩
      obtain ⟨middle, at₃, derived'⟩ := listed (close.back stands)
      obtain ⟨before, at₂, derived⟩ := typed (comma.back at₃)
      exact ⟨_, word.back (paren.back at₂), .both (binding_phrase binds derived) derived'⟩

theorem function_sound (settles : Settles bound type) {s t : Session} {node : Node}
    (run : Yields (function type bound) s node t) (enough : s.left ≤ bound)
    (found : s.token.kind = .name "function".toList)
    (call : Yields Parser.lookAhead s .leftParen s) :
    t.left ≤ s.left ∧ ∀ {after : List Token.Kind}, t.At after → ∃ before, s.At before ∧
      (Phrase.Basic phrase before after node ∨
        Unmarked t ∧ Phrase.Postfixed phrase before after node) := by
  obtain ⟨bound?, nodes, r, signed, result⟩ := function_iff.1 run
  obtain ⟨less, signature⟩ := signature_sound typeSound signed enough found call
  rcases result with ⟨comes, r', result, step, read, rfl⟩ | ⟨_, rfl, rfl⟩
  · have colon := advance_takes step comes (by simp)
    have less' := colon.shorter
    obtain ⟨shorter, typed⟩ := typeSound read (by omega)
    refine ⟨by omega, fun stands => ?_⟩
    obtain ⟨middle, at₁, derived'⟩ := typed stands
    obtain ⟨before, at₀, derived⟩ := signature (colon.back at₁)
    exact ⟨before, at₀, .inr ⟨settles read (by omega), .result derived derived'⟩⟩
  · refine ⟨by omega, fun stands => ?_⟩
    obtain ⟨before, at₀, derived⟩ := signature stands
    exact ⟨before, at₀, .inl (.function derived)⟩

theorem basic_sound (settles : Settles bound type) {s t : Session} {node : Node}
    (run : Yields (basic type bound) s node t) (enough : s.left ≤ bound) :
    t.left ≤ s.left ∧ ∀ {after : List Token.Kind}, t.At after → ∃ before, s.At before ∧
      (Phrase.Basic phrase before after node ∨
        Unmarked t ∧ Phrase.Postfixed phrase before after node) := by
  have plainly : (t.left ≤ s.left ∧ ∀ {after : List Token.Kind}, t.At after →
      ∃ before, s.At before ∧ Phrase.Basic phrase before after node) →
      t.left ≤ s.left ∧ ∀ {after : List Token.Kind}, t.At after → ∃ before, s.At before ∧
        (Phrase.Basic phrase before after node ∨
          Unmarked t ∧ Phrase.Postfixed phrase before after node) := by
    rintro ⟨shorter, derives⟩
    refine ⟨shorter, fun stands => ?_⟩
    obtain ⟨before, at₀, derived⟩ := derives stands
    exact ⟨before, at₀, .inl derived⟩
  have single : ∀ {kind : Token.Kind} {value : Node}, s.token.kind = kind → kind ≠ .eof →
      (∀ after, Phrase.Basic phrase (kind :: after) after value) →
      Yields (Parser.advance >>= fun _ => pure value) s node t →
      t.left ≤ s.left ∧ ∀ {after : List Token.Kind}, t.At after →
        ∃ before, s.At before ∧ Phrase.Basic phrase before after node := by
    intro kind value found inside derives run
    simp only [bind_iff, pure_iff] at run
    obtain ⟨_, r, step, rfl, rfl⟩ := run
    have token := advance_takes step found inside
    exact ⟨Nat.le_of_lt token.shorter, fun stands => ⟨_, token.back stands, derives _⟩⟩
  simp only [basic, current_bind_iff] at run
  split at run
  · next found => exact plainly (single found (by simp) (fun _ => .all) run)
  · next found => exact plainly (parenthesized_sound typeSound run enough found)
  · next found => exact plainly (array_sound typeSound run enough found)
  · next found => exact plainly (record_sound typeSound run enough found)
  · next found => exact plainly (single found (by simp) (fun _ => .string) run)
  · next found => exact plainly (single found (by simp) (fun _ => .number) run)
  · next name found =>
      split at run
      · next word => exact plainly (single found (by simp) (fun _ => .literal word) run)
      · next free =>
          split at run
          · next isCall =>
              have isCall := beq_iff_eq.1 isCall
              obtain ⟨kind, r, looked, run'⟩ := bind_iff.1 run
              obtain ⟨_, _, read, _, rfl⟩ := lookAhead_iff.1 looked
              split at run'
              · next call =>
                  exact function_sound typeSound settles run' enough (isCall ▸ found)
                    (beq_iff_eq.1 call ▸ looked)
              · next noCall =>
                  refine plainly (named_sound typeSound run' enough found free fun _ after stands => ?_)
                  obtain ⟨more, rfl⟩ := lookAhead_head looked stands (by simp)
                  simpa using noCall
          · next other =>
              exact plainly (named_sound typeSound run enough found free fun isCall =>
                absurd isCall (by simpa using other))
  · exact absurd run unexpected_iff.1

omit typeSound in
theorem marks_sound {limit : Nat} {start s t : Session} {node a : Node}
    (run : Yields (marks limit node) s a t) (less : s.left ≤ start.left)
    (derives : ∀ {after : List Token.Kind}, s.At after →
      ∃ before, start.At before ∧ Phrase.Trailed phrase before after node) :
    t.left ≤ start.left ∧ ∀ {after : List Token.Kind}, t.At after →
      ∃ before, start.At before ∧ Phrase.Trailed phrase before after a := by
  induction limit generalizing s node with
  | zero =>
      simp only [marks, pure_iff] at run
      obtain ⟨rfl, rfl⟩ := run
      exact ⟨less, derives⟩
  | succ limit induction =>
      rcases marks_succ_iff.1 run with ⟨found, r, step, run⟩ | ⟨found, r, step, run⟩ |
        ⟨found, looked, r₁, r₂, step, step', run⟩ | ⟨_, rfl, rfl⟩
      · have bang := advance_takes step found (by simp)
        refine induction run (Nat.le_trans (Nat.le_of_lt bang.shorter) less) fun stands => ?_
        obtain ⟨before, at₀, derived⟩ := derives (bang.back stands)
        exact ⟨before, at₀, .bang derived⟩
      · have question := advance_takes step found (by simp)
        refine induction run (Nat.le_trans (Nat.le_of_lt question.shorter) less) fun stands => ?_
        obtain ⟨before, at₀, derived⟩ := derives (question.back stands)
        exact ⟨before, at₀, .question derived⟩
      · have opens := advance_takes step found (by simp)
        have closes := advance_takes step' (lookAhead_advance looked step) (by simp)
        have less' := opens.shorter
        have less'' := closes.shorter
        refine induction run (by omega) fun stands => ?_
        obtain ⟨before, at₀, derived⟩ := derives (opens.back (closes.back stands))
        exact ⟨before, at₀, .brackets derived⟩
      · exact ⟨less, derives⟩

omit typeSound in
/-- Where there is room for all the marks, none follows those that are read. -/
theorem marks_settle {limit : Nat} {s t : Session} {node a : Node}
    (run : Yields (marks limit node) s a t) (enough : s.left ≤ limit) : Unmarked t := by
  induction limit generalizing s node with
  | zero =>
      have atEnd := Session.left_eq_zero_iff.1 (Nat.le_zero.1 enough)
      simp only [marks, pure_iff] at run
      obtain ⟨rfl, rfl⟩ := run
      simp [Unmarked, atEnd]
  | succ limit induction =>
      rcases marks_succ_iff.1 run with ⟨found, r, step, run⟩ | ⟨found, r, step, run⟩ |
        ⟨found, looked, r₁, r₂, step, step', run⟩ | ⟨settled, rfl, rfl⟩
      · have less := (advance_takes step found (by simp)).shorter
        exact induction run (by omega)
      · have less := (advance_takes step found (by simp)).shorter
        exact induction run (by omega)
      · have less := (advance_takes step found (by simp)).shorter
        have less' := (advance_takes step' (lookAhead_advance looked step) (by simp)).shorter
        exact induction run (by omega)
      · exact settled

theorem postfixed_sound (settles : Settles bound type) :
    Sound bound (postfixed type bound) (Phrase.Postfixed phrase) := by
  intro s t node run enough
  simp only [postfixed, bind_iff] at run
  obtain ⟨inner, r, read, run⟩ := run
  obtain ⟨shorter, derives⟩ := basic_sound typeSound settles read enough
  -- a function with a result has been read past the marks, so that none is left for this loop
  by_cases settled : Unmarked r
  · obtain ⟨rfl, rfl⟩ := marks_of_unmarked settled run
    refine ⟨shorter, fun stands => ?_⟩
    obtain ⟨before, at₀, derived | ⟨_, derived⟩⟩ := derives stands
    · exact ⟨before, at₀, .trailed (.basic derived)⟩
    · exact ⟨before, at₀, derived⟩
  · obtain ⟨shorter', trailed⟩ := marks_sound run shorter fun stands => by
      obtain ⟨before, at₀, derived | ⟨settled', _⟩⟩ := derives stands
      · exact ⟨before, at₀, .basic derived⟩
      · exact absurd settled' settled
    refine ⟨shorter', fun stands => ?_⟩
    obtain ⟨before, at₀, derived⟩ := trailed stands
    exact ⟨before, at₀, .trailed derived⟩

theorem postfixed_settles (settles : Settles bound type) : Settles bound (postfixed type bound) := by
  intro s t node run enough
  simp only [postfixed, bind_iff] at run
  obtain ⟨inner, r, read, run⟩ := run
  obtain ⟨shorter, _⟩ := basic_sound typeSound settles read enough
  exact marks_settle run (by omega)

omit typeSound in
theorem unmarked_of_atTypeEnd {s t : Session} (run : Yields Parser.atTypeEnd s true t) :
    t = s ∧ Unmarked s := by
  simp only [Parser.atTypeEnd, bind_iff, get_iff, pure_iff] at run
  obtain ⟨_, _, ⟨rfl, rfl⟩, ends, rfl⟩ := run
  refine ⟨rfl, ?_, ?_, ?_⟩ <;> intro found <;> simp [found] at ends

omit typeSound in
theorem atTypeEnd_same {s t : Session} {b : Bool} (run : Yields Parser.atTypeEnd s b t) : t = s := by
  simp only [Parser.atTypeEnd, bind_iff, get_iff, pure_iff] at run
  obtain ⟨_, _, ⟨rfl, rfl⟩, -, rfl⟩ := run
  rfl

theorem prefixed_sound (settles : Settles bound type) :
    Sound bound (prefixed type bound) (Phrase.Prefixed phrase) ∧
      Settles bound (prefixed type bound) := by
  -- both leading marks: one that stands alone, or one before an expression
  have marked : ∀ {kind : Token.Kind} {alone : Node} {wrap : Node → Node} {s t : Session} {node : Node},
      (∀ ts, Phrase.Prefixed phrase (kind :: ts) ts alone) →
      (∀ ts us inner, Phrase.Postfixed phrase ts us inner →
        Phrase.Prefixed phrase (kind :: ts) us (wrap inner)) →
      Yields (Parser.advance >>= fun _ => Parser.atTypeEnd >>= fun ends =>
        if ends then pure alone else postfixed type bound >>= fun inner => pure (wrap inner)) s node t →
      s.left ≤ bound → s.token.kind = kind → kind ≠ .eof →
      (t.left ≤ s.left ∧ ∀ {after : List Token.Kind}, t.At after →
        ∃ before, s.At before ∧ Phrase.Prefixed phrase before after node) ∧ Unmarked t := by
    intro kind alone wrap s t node standsAlone wraps run enough found inside
    obtain ⟨_, r, step, run⟩ := bind_iff.1 run
    obtain ⟨ends, r', looked, run⟩ := bind_iff.1 run
    obtain rfl := atTypeEnd_same looked
    have mark := advance_takes step found inside
    have less := mark.shorter
    cases ends with
    | true =>
        obtain ⟨rfl, rfl⟩ := pure_iff.1 run
        exact ⟨⟨by omega, fun stands => ⟨_, mark.back stands, standsAlone _⟩⟩,
          (unmarked_of_atTypeEnd looked).2⟩
    | false =>
        obtain ⟨inner, r'', read, returned⟩ := bind_iff.1 run
        obtain ⟨rfl, rfl⟩ := pure_iff.1 returned
        obtain ⟨shorter, derives⟩ := postfixed_sound typeSound settles read (by omega)
        refine ⟨⟨by omega, fun stands => ?_⟩, postfixed_settles typeSound settles read (by omega)⟩
        obtain ⟨before, at₁, derived⟩ := derives stands
        exact ⟨_, mark.back at₁, wraps _ _ _ derived⟩
  have both : ∀ {s t : Session} {node : Node}, Yields (prefixed type bound) s node t →
      s.left ≤ bound → (t.left ≤ s.left ∧ ∀ {after : List Token.Kind}, t.At after →
        ∃ before, s.At before ∧ Phrase.Prefixed phrase before after node) ∧ Unmarked t := by
    intro s t node run enough
    simp only [prefixed, current_bind_iff] at run
    split at run
    · next found =>
        exact marked (fun _ => .questionAlone) (fun _ _ _ => .question) run enough found (by simp)
    · next found => exact marked (fun _ => .bangAlone) (fun _ _ _ => .bang) run enough found (by simp)
    · obtain ⟨shorter, derives⟩ := postfixed_sound typeSound settles run enough
      refine ⟨⟨shorter, fun stands => ?_⟩, postfixed_settles typeSound settles run enough⟩
      obtain ⟨before, at₀, derived⟩ := derives stands
      exact ⟨before, at₀, .plain derived⟩
  exact ⟨fun run enough => (both run enough).1, fun run enough => (both run enough).2⟩

end

end Grammar

namespace Parser

open Grammar

theorem typeExpression_sound (bound room : Nat) :
    Sound bound (typeExpression bound room) (Phrase.Expression room) ∧
      Settles bound (typeExpression bound room) := by
  induction room with
  | zero =>
      refine ⟨fun run => absurd run failHere_iff.1, fun run => absurd run failHere_iff.1⟩
  | succ room induction =>
      obtain ⟨sound, settles⟩ := prefixed_sound induction.1 induction.2
      constructor
      · intro s t node run enough
        obtain ⟨r, inner, rfl⟩ := nested_iff.1 run
        obtain ⟨shorter, derives⟩ := sound inner enough
        refine ⟨shorter, fun stands => ?_⟩
        obtain ⟨before, at₀, derived⟩ := derives (stands.transfer rfl rfl)
        exact ⟨before, at₀.transfer rfl rfl, derived⟩
      · intro s t node run enough
        obtain ⟨r, inner, rfl⟩ := nested_iff.1 run
        exact (settles inner enough).transfer rfl rfl

theorem optionalUnion_sound (bound room : Nat) :
    Sound bound (optionalUnion bound room)
      (Phrase.Marked (Phrase.Union (Phrase.Expression room))) := by
  intro s t node run enough
  simp only [optionalUnion, bind_iff (p := union _ _), at?_bind_iff] at run
  obtain ⟨inner, r, read, run⟩ := run
  obtain ⟨shorter, derives⟩ := union_sound (typeExpression_sound bound room).1 read enough
  split at run
  · next found =>
      simp only [bind_iff, pure_iff] at run
      obtain ⟨_, r', step, rfl, rfl⟩ := run
      have equal := advance_takes step (beq_iff_eq.1 found) (by simp)
      have less := equal.shorter
      refine ⟨by omega, fun stands => ?_⟩
      obtain ⟨before, at₀, derived⟩ := derives (equal.back stands)
      exact ⟨before, at₀, .optional derived⟩
  · obtain ⟨rfl, rfl⟩ := pure_iff.1 run
    refine ⟨shorter, fun stands => ?_⟩
    obtain ⟨before, at₀, derived⟩ := derives stands
    exact ⟨before, at₀, .plain derived⟩

theorem parseTop_sound {s t : Session} {node : Node} (run : Yields parseTop s node t)
    (outermost : s.depth = 0) {after : List Token.Kind} (stands : t.At after) :
    ∃ before, s.At before ∧ Phrase.Top maxDepth before after node := by
  simp only [parseTop, bind_iff (p := get), get_iff, at?_bind_iff] at run
  obtain ⟨session, r, ⟨held, here⟩, run⟩ := run
  rw [held, here, outermost] at run
  have enough := s.left_le
  split at run
  · next found =>
      simp only [bind_iff, pure_iff] at run
      obtain ⟨_, r, step, inner, r', read, rfl, rfl⟩ := run
      have dots := advance_takes step (beq_iff_eq.1 found) (by simp)
      have less := dots.shorter
      obtain ⟨_, derives⟩ := optionalUnion_sound _ _ read (by omega)
      obtain ⟨before, at₁, derived⟩ := derives stands
      exact ⟨_, dots.back at₁, .rest derived⟩
  · obtain ⟨_, derives⟩ := optionalUnion_sound _ _ run enough
    obtain ⟨before, at₀, derived⟩ := derives stands
    exact ⟨before, at₀, .plain derived⟩

/-- What is read as a whole is spelled by the tokens of a type expression, up to the end of input. -/
theorem whole_sound {s t : Session} {node : Node} (run : Yields whole s node t)
    (outermost : s.depth = 0) :
    ∃ kinds, s.At kinds ∧ Phrase.Top maxDepth kinds [.eof] node := by
  simp only [whole, finish, bind_iff, current_iff, pure_iff] at run
  obtain ⟨_, r, read, _, r', ⟨found, _, ⟨rfl, rfl⟩, finished⟩, rfl, rfl⟩ := run
  split at finished
  · next atEnd =>
      obtain ⟨-, rfl⟩ := pure_iff.1 finished
      exact parseTop_sound read outermost (.last (beq_iff_eq.1 atEnd))
  · exact absurd finished failHere_iff.1

end Parser

end Docblock.TypeExpr
