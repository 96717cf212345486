import Docblock.Proofs.TypeExpr.Run

/-!
# Failing runs

`Fails p s fault t` says that the step `p` fails on the session `s` with the fault `fault` and leaves the
session `t`. The lemmas below say how the steps of a session fail.
-/

set_option autoImplicit false

namespace Docblock.TypeExpr

/-- The step fails on the first session with this fault and leaves the second session. -/
def Fails {α : Type} (step : Parser α) (before : Session) (fault : Fault) (after : Session) : Prop :=
  step.outcome before = (.error fault, after)

namespace Fails

variable {α β : Type} {s t : Session} {fault : Fault}

theorem pure_iff {a : α} : Fails (pure a) s fault t ↔ False := by
  simp [Fails, Parser.outcome_pure]

theorem throw_iff {other : Fault} : Fails (throw other : Parser α) s fault t ↔ fault = other ∧ t = s := by
  simp [Fails, Parser.outcome_throw, eq_comm]

theorem get_iff : Fails get s fault t ↔ False := by
  simp [Fails, Parser.outcome_get]

theorem modify_iff {f : Session → Session} : Fails (modify f) s fault t ↔ False := by
  simp [Fails, Parser.outcome_modify]

theorem bind_iff {p : Parser α} {f : α → Parser β} : Fails (p >>= f) s fault t ↔
    Fails p s fault t ∨ ∃ a r, Yields p s a r ∧ Fails (f a) r fault t := by
  simp only [Fails, Yields, Parser.outcome_bind]
  rcases p.outcome s with ⟨other | a, r⟩
  · simp
  · constructor
    · intro run
      exact .inr ⟨a, r, rfl, run⟩
    · rintro (early | ⟨a', r', equal, run⟩)
      · cases early
      · cases equal
        exact run

theorem failHere_iff {cause : Cause} : Fails (Parser.failHere cause : Parser α) s fault t ↔
    fault = ⟨cause, s.token.place⟩ ∧ t = s := by
  simp only [Parser.failHere, bind_iff, get_iff, Yields.get_iff, throw_iff, false_or]
  constructor
  · rintro ⟨_, _, ⟨rfl, rfl⟩, failed⟩
    exact failed
  · rintro ⟨rfl, rfl⟩
    exact ⟨_, _, ⟨rfl, rfl⟩, rfl, rfl⟩

theorem advance_iff : Fails Parser.advance s fault t ↔
    ∃ after, Lexer.next s.ahead = (.error fault, after) ∧ t = { s with ahead := after } := by
  unfold Fails Parser.outcome ExceptT.run Parser.advance
  rcases Lexer.next s.ahead with ⟨other | token, after⟩
  · constructor
    · intro run
      cases run
      exact ⟨after, rfl, rfl⟩
    · rintro ⟨_, equal, rfl⟩
      cases equal
      rfl
  · simp

theorem lookAhead_iff : Fails Parser.lookAhead s fault t ↔
    ∃ after, Lexer.next s.ahead = (.error fault, after) ∧ t = s := by
  unfold Fails Parser.outcome ExceptT.run Parser.lookAhead
  rcases Lexer.next s.ahead with ⟨other | token, after⟩
  · constructor
    · intro run
      cases run
      exact ⟨after, rfl, rfl⟩
    · rintro ⟨_, equal, rfl⟩
      cases equal
      rfl
  · simp [Except.map]

/-- At the end of input the innermost delimiter that is open is to blame. -/
theorem unexpected_iff : Fails (Parser.unexpected : Parser α) s fault t ↔ t = s ∧
    (s.token.kind ≠ .eof ∧ fault = ⟨.unexpected s.token.kind, s.token.place⟩ ∨
      s.token.kind = .eof ∧ (s.opened = [] ∧ fault = ⟨.unexpectedEnd, s.token.place⟩ ∨
        ∃ innermost outer, s.opened = innermost :: outer ∧
          fault = ⟨.unterminated innermost.delimiter, innermost.place⟩)) := by
  simp only [Parser.unexpected, bind_iff, get_iff, false_or]
  constructor
  · rintro ⟨_, _, looked, failed⟩
    obtain ⟨rfl, rfl⟩ := Yields.get_iff.1 looked
    split at failed
    · next atEnd =>
        rw [beq_iff_eq] at atEnd
        split at failed
        · next innermost outer opened =>
            obtain ⟨rfl, same⟩ := throw_iff.1 failed
            exact ⟨same, .inr ⟨atEnd, .inr ⟨innermost, outer, opened, rfl⟩⟩⟩
        · next opened =>
            obtain ⟨rfl, same⟩ := failHere_iff.1 failed
            exact ⟨same, .inr ⟨atEnd, .inl ⟨opened, rfl⟩⟩⟩
    · next inside =>
        obtain ⟨rfl, same⟩ := failHere_iff.1 failed
        exact ⟨same, .inl ⟨by simpa using inside, rfl⟩⟩
  · rintro ⟨rfl, failed⟩
    refine ⟨t, t, Yields.get_iff.2 ⟨rfl, rfl⟩, ?_⟩
    rcases failed with ⟨inside, rfl⟩ | ⟨atEnd, ⟨opened, rfl⟩ | ⟨innermost, outer, opened, rfl⟩⟩
    · simpa [inside] using failHere_iff.2 ⟨rfl, rfl⟩
    · simpa [atEnd, opened] using failHere_iff.2 ⟨rfl, rfl⟩
    · simpa [atEnd, opened] using throw_iff.2 ⟨rfl, rfl⟩

theorem expect_iff {kind : Token.Kind} : Fails (Parser.expect kind) s fault t ↔
    s.token.kind = kind ∧ Fails Parser.advance s fault t ∨
      s.token.kind ≠ kind ∧ (s.token.kind = .eof ∧ Fails (Parser.unexpected : Parser Unit) s fault t ∨
        s.token.kind ≠ .eof ∧ fault = ⟨.expected kind s.token.kind, s.token.place⟩ ∧ t = s) := by
  have looked : Fails (Parser.expect kind) s fault t ↔
      Fails (if s.token.kind == kind then Parser.advance
        else if s.token.kind == .eof then Parser.unexpected
        else Parser.failHere (.expected kind s.token.kind)) s fault t := Iff.rfl
  rw [looked]
  simp only [beq_iff_eq]
  split
  · next here => simp [here]
  · next other =>
      simp only [other, false_and, false_or, ne_eq, not_false_eq_true, true_and]
      split
      · next atEnd => simp only [atEnd, not_true_eq_false, false_and, true_and, or_false]
      · next inside => simp [inside, failHere_iff]

theorem openWith_iff {delimiter : Delimiter} : Fails (Parser.openWith delimiter) s fault t ↔
    Fails Parser.advance { s with opened := ⟨delimiter, s.token.place⟩ :: s.opened } fault t := by
  simp only [Parser.openWith, bind_iff, modify_iff, Yields.modify_iff, false_or]
  constructor
  · rintro ⟨_, _, rfl, run⟩
    exact run
  · intro run
    exact ⟨(), _, rfl, run⟩

theorem closeWith_iff {delimiter : Delimiter} :
    Fails (Parser.closeWith delimiter) s fault t ↔ Fails (Parser.expect delimiter.closing) s fault t := by
  simp [Parser.closeWith, bind_iff, modify_iff]

theorem nested_iff {step : Parser α} : Fails (Parser.nested step) s fault t ↔
    ∃ r, Fails step { s with depth := s.depth + 1 } fault r ∧ t = { r with depth := r.depth - 1 } := by
  have unfolded : (Parser.nested step).outcome s =
      ((step.outcome { s with depth := s.depth + 1 }).1,
        { (step.outcome { s with depth := s.depth + 1 }).2 with
          depth := (step.outcome { s with depth := s.depth + 1 }).2.depth - 1 }) := rfl
  unfold Fails
  rw [unfolded]
  rcases step.outcome { s with depth := s.depth + 1 } with ⟨result, r⟩
  constructor
  · intro run
    obtain ⟨rfl, rfl⟩ := Prod.mk.inj run
    exact ⟨r, rfl, rfl⟩
  · rintro ⟨r', run, rfl⟩
    obtain ⟨rfl, rfl⟩ := Prod.mk.inj run
    rfl

end Fails

end Docblock.TypeExpr
