import Docblock.TypeExpr.Parser

/-!
# Successful runs

`Yields p s a t` says that the step `p` succeeds on the session `s` with the result `a` and leaves the
session `t`. The lemmas below say what the steps of a session yield, so that a production is followed
through its parts.
-/

set_option autoImplicit false

namespace Docblock.TypeExpr

/-- What a step makes of a session: a result or a fault, and the session it leaves. -/
def Parser.outcome {α : Type} (step : Parser α) (session : Session) : Except Fault α × Session :=
  step.run session

/-- The step succeeds on the first session with this result and leaves the second session. -/
def Yields {α : Type} (step : Parser α) (before : Session) (result : α) (after : Session) : Prop :=
  step.outcome before = (.ok result, after)

namespace Parser

variable {α β : Type}

theorem outcome_pure (a : α) (s : Session) : (pure a : Parser α).outcome s = (.ok a, s) := rfl

theorem outcome_throw (fault : Fault) (s : Session) :
    (throw fault : Parser α).outcome s = (.error fault, s) := rfl

theorem outcome_get (s : Session) : (get : Parser Session).outcome s = (.ok s, s) := rfl

theorem outcome_modify (f : Session → Session) (s : Session) :
    (modify f : Parser Unit).outcome s = (.ok (), f s) := rfl

theorem outcome_bind (p : Parser α) (f : α → Parser β) (s : Session) :
    (p >>= f).outcome s =
      match p.outcome s with
      | (.ok a, r) => (f a).outcome r
      | (.error fault, r) => (.error fault, r) := by
  unfold outcome ExceptT.run
  simp only [bind, ExceptT.bind, ExceptT.mk, StateT.bind, ExceptT.bindCont]
  cases p s with
  | mk result r => cases result <;> rfl

end Parser

namespace Yields

variable {α β : Type} {s t : Session}

theorem pure_iff {a b : α} : Yields (pure a) s b t ↔ b = a ∧ t = s := by
  simp [Yields, Parser.outcome_pure, eq_comm]

theorem throw_iff {fault : Fault} {a : α} : Yields (throw fault) s a t ↔ False := by
  simp [Yields, Parser.outcome_throw]

theorem get_iff {r : Session} : Yields get s r t ↔ r = s ∧ t = s := by
  simp [Yields, Parser.outcome_get, eq_comm]

theorem modify_iff {f : Session → Session} {u : Unit} : Yields (modify f) s u t ↔ t = f s := by
  simp [Yields, Parser.outcome_modify, eq_comm]

theorem bind_iff {p : Parser α} {f : α → Parser β} {b : β} :
    Yields (p >>= f) s b t ↔ ∃ a r, Yields p s a r ∧ Yields (f a) r b t := by
  simp only [Yields, Parser.outcome_bind]
  rcases p.outcome s with ⟨_ | a, r⟩
  · simp
  · constructor
    · intro run
      exact ⟨a, r, rfl, run⟩
    · rintro ⟨a', r', equal, run⟩
      cases equal
      exact run

theorem pure_bind_iff {a : α} {f : α → Parser β} {b : β} :
    Yields (pure a >>= f) s b t ↔ Yields (f a) s b t := by
  simp only [Yields, Parser.outcome_bind, Parser.outcome_pure]

theorem unless_iff {c : Prop} [Decidable c] {p : Parser Unit} {q : Parser α} {a : α} :
    Yields (if c then q else p >>= fun _ => q) s a t ↔
      ∃ r, (c ∧ r = s ∨ ¬ c ∧ Yields p s () r) ∧ Yields q r a t := by
  by_cases holds : c
  · simp [holds]
  · simp only [holds, if_false, bind_iff, false_and, false_or, not_false_eq_true, true_and]
    exact ⟨fun ⟨_, r, run⟩ => ⟨r, run⟩, fun ⟨r, run⟩ => ⟨(), r, run⟩⟩

theorem when_iff {c : Prop} [Decidable c] {p : Parser Unit} {q : Parser α} {a : α} :
    Yields (if c then p >>= fun _ => q else q) s a t ↔
      ∃ r, (c ∧ Yields p s () r ∨ ¬ c ∧ r = s) ∧ Yields q r a t := by
  by_cases holds : c
  · simp only [holds, if_true, bind_iff, true_and, not_true_eq_false, false_and, or_false]
    exact ⟨fun ⟨_, r, run⟩ => ⟨r, run⟩, fun ⟨r, run⟩ => ⟨(), r, run⟩⟩
  · simp [holds]

theorem current_iff {kind : Token.Kind} :
    Yields Parser.current s kind t ↔ kind = s.token.kind ∧ t = s := by
  simp only [Parser.current, bind_iff, get_iff, pure_iff]
  constructor
  · rintro ⟨_, _, ⟨rfl, rfl⟩, rfl, rfl⟩
    exact ⟨rfl, rfl⟩
  · rintro ⟨rfl, rfl⟩
    exact ⟨t, t, ⟨rfl, rfl⟩, rfl, rfl⟩

theorem at?_iff {kind : Token.Kind} {b : Bool} :
    Yields (Parser.at? kind) s b t ↔ b = (s.token.kind == kind) ∧ t = s := by
  simp only [Parser.at?, bind_iff, current_iff, pure_iff]
  constructor
  · rintro ⟨_, _, ⟨rfl, rfl⟩, rfl, rfl⟩
    exact ⟨rfl, rfl⟩
  · rintro ⟨rfl, rfl⟩
    exact ⟨_, _, ⟨rfl, rfl⟩, rfl, rfl⟩

theorem current_bind_iff {f : Token.Kind → Parser β} {b : β} :
    Yields (Parser.current >>= f) s b t ↔ Yields (f s.token.kind) s b t := by
  simp only [bind_iff, current_iff]
  constructor
  · rintro ⟨_, _, ⟨rfl, rfl⟩, run⟩
    exact run
  · intro run
    exact ⟨_, _, ⟨rfl, rfl⟩, run⟩

theorem at?_bind_iff {kind : Token.Kind} {f : Bool → Parser β} {b : β} :
    Yields (Parser.at? kind >>= f) s b t ↔ Yields (f (s.token.kind == kind)) s b t := by
  simp only [bind_iff, at?_iff]
  constructor
  · rintro ⟨_, _, ⟨rfl, rfl⟩, run⟩
    exact run
  · intro run
    exact ⟨_, _, ⟨rfl, rfl⟩, run⟩

theorem failHere_iff {cause : Cause} {a : α} : Yields (Parser.failHere cause) s a t ↔ False := by
  simp [Parser.failHere, bind_iff, throw_iff]

theorem unexpected_iff {a : α} : Yields Parser.unexpected s a t ↔ False := by
  simp only [Parser.unexpected, bind_iff, get_iff, iff_false]
  rintro ⟨_, _, ⟨rfl, rfl⟩, run⟩
  split at run
  · split at run
    · exact throw_iff.1 run
    · exact failHere_iff.1 run
  · exact failHere_iff.1 run

theorem advance_iff {u : Unit} :
    Yields Parser.advance s u t ↔
      ∃ token after, Lexer.next s.ahead = (.ok token, after) ∧
        t = { s with token := token, ahead := after } := by
  unfold Yields Parser.outcome ExceptT.run Parser.advance
  rcases Lexer.next s.ahead with ⟨_ | token, after⟩
  · simp
  · constructor
    · intro run
      simp only [Prod.mk.injEq] at run
      exact ⟨token, after, rfl, run.2.symm⟩
    · rintro ⟨_, _, equal, rfl⟩
      simp only [Prod.mk.injEq, Except.ok.injEq] at equal
      obtain ⟨rfl, rfl⟩ := equal
      rfl

theorem lookAhead_iff {kind : Token.Kind} :
    Yields Parser.lookAhead s kind t ↔
      ∃ token after, Lexer.next s.ahead = (.ok token, after) ∧ kind = token.kind ∧ t = s := by
  unfold Yields Parser.outcome ExceptT.run Parser.lookAhead
  rcases Lexer.next s.ahead with ⟨_ | token, after⟩
  · simp [Except.map]
  · simp [Except.map, eq_comm]

theorem expect_iff {kind : Token.Kind} {u : Unit} :
    Yields (Parser.expect kind) s u t ↔ s.token.kind = kind ∧ Yields Parser.advance s u t := by
  simp only [Parser.expect, bind_iff, current_iff]
  constructor
  · rintro ⟨_, _, ⟨rfl, rfl⟩, run⟩
    split at run
    · next found => exact ⟨by simpa using found, run⟩
    · split at run
      · exact absurd run (unexpected_iff.1)
      · exact absurd run (failHere_iff.1)
  · rintro ⟨rfl, run⟩
    exact ⟨_, _, ⟨rfl, rfl⟩, by simpa using run⟩

theorem openWith_iff {delimiter : Delimiter} {u : Unit} :
    Yields (Parser.openWith delimiter) s u t ↔
      Yields Parser.advance { s with opened := ⟨delimiter, s.token.place⟩ :: s.opened } u t := by
  simp only [Parser.openWith, bind_iff, modify_iff]
  constructor
  · rintro ⟨_, _, rfl, run⟩
    exact run
  · intro run
    exact ⟨(), _, rfl, run⟩

theorem closeWith_iff {delimiter : Delimiter} {u : Unit} :
    Yields (Parser.closeWith delimiter) s u t ↔
      s.token.kind = delimiter.closing ∧
        ∃ r, Yields Parser.advance s () r ∧ t = { r with opened := r.opened.tail } := by
  simp only [Parser.closeWith, bind_iff, expect_iff, modify_iff]
  constructor
  · rintro ⟨_, r, ⟨found, run⟩, rfl⟩
    exact ⟨found, r, run, rfl⟩
  · rintro ⟨found, r, run, rfl⟩
    exact ⟨(), r, ⟨found, run⟩, rfl⟩

theorem nested_iff {step : Parser α} {a : α} :
    Yields (Parser.nested step) s a t ↔
      ∃ r, Yields step { s with depth := s.depth + 1 } a r ∧ t = { r with depth := r.depth - 1 } := by
  have unfolded : (Parser.nested step).outcome s =
      ((step.outcome { s with depth := s.depth + 1 }).1,
        { (step.outcome { s with depth := s.depth + 1 }).2 with
          depth := (step.outcome { s with depth := s.depth + 1 }).2.depth - 1 }) := rfl
  unfold Yields
  rw [unfolded]
  rcases step.outcome { s with depth := s.depth + 1 } with ⟨result, r⟩
  constructor
  · intro run
    simp only [Prod.mk.injEq] at run
    obtain ⟨rfl, rfl⟩ := run
    exact ⟨r, rfl, rfl⟩
  · rintro ⟨r', run, rfl⟩
    simp only [Prod.mk.injEq] at run
    obtain ⟨rfl, rfl⟩ := run
    rfl

end Yields

/-- One round of reading items behind separators, before the rounds that follow it. -/
def Parser.moreRound {α : Type} (item : Parser α) (separator : Token.Kind)
    (others : Parser (List α)) : Parser (List α) := do
  if ← at? separator then
    advance
    let first ← item
    return first :: (← others)
  else return []

/-- A loop that reads items behind separators in rounds, as many as its limit at most. -/
structure Parser.MoreLoop {α : Type} (item : Parser α) (separator : Token.Kind)
    (loop : Nat → Parser (List α)) : Prop where
  stop : loop 0 = pure []
  round : ∀ limit, loop (limit + 1) = Parser.moreRound item separator (loop limit)

theorem Yields.moreRound_iff {α : Type} {s t : Session} {item : Parser α} {separator : Token.Kind}
    {others : Parser (List α)} {as : List α} :
    Yields (Parser.moreRound item separator others) s as t ↔
      (s.token.kind ≠ separator ∧ as = [] ∧ t = s) ∨
      (s.token.kind = separator ∧ ∃ first more r₁ r₂, Yields Parser.advance s () r₁ ∧
        Yields item r₁ first r₂ ∧ Yields others r₂ more t ∧ as = first :: more) := by
  simp only [Parser.moreRound, at?_bind_iff]
  by_cases found : s.token.kind = separator
  · simp only [found, beq_self_eq_true, if_true, bind_iff, pure_iff, ne_eq, not_true_eq_false,
      false_and, false_or, true_and]
    constructor
    · rintro ⟨_, r₁, step, first, r₂, read, more, r₃, rest, rfl, rfl⟩
      exact ⟨first, more, r₁, r₂, step, read, rest, rfl⟩
    · rintro ⟨first, more, r₁, r₂, step, read, rest, rfl⟩
      exact ⟨(), r₁, step, first, r₂, read, more, t, rest, rfl, rfl⟩
  · have different : (s.token.kind == separator) = false := by simpa using found
    simp [different, found, pure_iff]

/-- One round of reading a list up to a closing token, before the rounds that follow it. -/
def Parser.listRound {α : Type} (item : Parser α) (closing : Token.Kind)
    (others : Parser (List α)) : Parser (List α) := do
  if ← at? closing then return []
  else if ← at? .eof then unexpected
  else
    let first ← item
    unless ← at? closing do expect .comma
    return first :: (← others)

structure Parser.ListLoop {α : Type} (item : Parser α) (closing : Token.Kind)
    (loop : Nat → Parser (List α)) : Prop where
  stop : loop 0 = pure []
  round : ∀ limit, loop (limit + 1) = Parser.listRound item closing (loop limit)

theorem Yields.listRound_iff {α : Type} {s t : Session} {item : Parser α} {closing : Token.Kind}
    {others : Parser (List α)} {as : List α} :
    Yields (Parser.listRound item closing others) s as t ↔
      (s.token.kind = closing ∧ as = [] ∧ t = s) ∨
      (s.token.kind ≠ closing ∧ s.token.kind ≠ .eof ∧ ∃ first more r₁ r₂, Yields item s first r₁ ∧
        (r₁.token.kind = closing ∧ r₂ = r₁ ∨
          r₁.token.kind ≠ closing ∧ Yields (Parser.expect .comma) r₁ () r₂) ∧
        Yields others r₂ more t ∧ as = first :: more) := by
  simp only [Parser.listRound, at?_bind_iff]
  by_cases closes : s.token.kind = closing
  · simp [closes, pure_iff]
  · have goesOn : (s.token.kind == closing) = false := by simpa using closes
    simp only [goesOn, Bool.false_eq_true, if_false, at?_bind_iff]
    by_cases atEnd : s.token.kind = .eof
    · have other : Token.Kind.eof ≠ closing := atEnd ▸ closes
      simp [atEnd, other, unexpected_iff]
    · have inside : (s.token.kind == Token.Kind.eof) = false := by simpa using atEnd
      simp only [inside, Bool.false_eq_true, if_false, bind_iff (p := item), at?_bind_iff, unless_iff,
        bind_iff (p := others), pure_iff, closes, false_and, false_or, atEnd, ne_eq,
        not_false_eq_true, true_and, beq_iff_eq]
      constructor
      · rintro ⟨first, r₁, read, r₂, separator, more, r₃, rest, rfl, rfl⟩
        exact ⟨first, more, r₁, r₂, read, separator, rest, rfl⟩
      · rintro ⟨first, more, r₁, r₂, read, separator, rest, rfl⟩
        exact ⟨first, r₁, read, r₂, separator, more, t, rest, rfl, rfl⟩

namespace Grammar

variable (type : Parser Node) (limit : Nat)

theorem moreMembers_loop : Parser.MoreLoop type .pipe (moreMembers type) := ⟨rfl, fun _ => rfl⟩

theorem moreArguments_loop :
    Parser.MoreLoop (union type limit) .comma (moreArguments type limit) := ⟨rfl, fun _ => rfl⟩

theorem fields_loop : Parser.ListLoop (field type) .rightBrace (fields type) := ⟨rfl, fun _ => rfl⟩

theorem params_loop : Parser.ListLoop (param type limit) .rightParen (params type limit) :=
  ⟨rfl, fun _ => rfl⟩

end Grammar

end Docblock.TypeExpr
