import Docblock.Proofs.TypeExpr.Failure

/-!
# What every step of a session keeps to

The productions move a session in few ways: past a plain token, into a delimiter, out of it, and past a
pair of brackets. `Discipline` says what these moves have to preserve, and what a fault has to be like where
it arises. `Tame` steps preserve it and come back to what was open: so do all productions, and the parser.
-/

set_option autoImplicit false

namespace Docblock.TypeExpr

def Token.Kind.opens? : Token.Kind → Option Delimiter
  | .leftParen => some .paren
  | .leftBrace => some .brace
  | .leftBracket => some .bracket
  | .less | .dotLess => some .angle
  | _ => none

def Token.Kind.isPlain : Token.Kind → Bool
  | .leftParen | .leftBrace | .leftBracket | .less | .dotLess => false
  | .rightParen | .rightBrace | .rightBracket | .greater | .eof => false
  | _ => true

def Session.Before (session : Session) (kind : Token.Kind) : Prop :=
  ∃ token after, Lexer.next session.ahead = (.ok token, after) ∧ token.kind = kind

/-- What holds of a token, the text ahead of it and what is open there, while a session moves; and what holds
of the faults that it reports. -/
structure Discipline where
  Stands : Token → Text → List Opened → Prop
  Reports : Fault → Token → List Opened → Prop
  pass : ∀ {token next : Token} {ahead after : Text} {opened : List Opened}, Stands token ahead opened →
    token.kind.isPlain = true → Lexer.next ahead = (.ok next, after) → Stands next after opened
  opening : ∀ {token next : Token} {ahead after : Text} {opened : List Opened} {d : Delimiter},
    Stands token ahead opened → token.kind.opens? = some d → Lexer.next ahead = (.ok next, after) →
    Stands next after (⟨d, token.place⟩ :: opened)
  closing : ∀ {token next : Token} {ahead after : Text} {innermost : Opened} {outer : List Opened},
    Stands token ahead (innermost :: outer) → token.kind = innermost.delimiter.closing →
    Lexer.next ahead = (.ok next, after) → Stands next after outer
  brackets : ∀ {token next : Token} {ahead place between after : Text} {opened : List Opened},
    Stands token ahead opened → token.kind = .leftBracket →
    Lexer.next ahead = (.ok ⟨.rightBracket, place⟩, between) → Lexer.next between = (.ok next, after) →
    Stands next after opened
  lexical : ∀ {token left : Token} {ahead after : Text} {opened open' : List Opened} {fault : Fault},
    Stands token ahead opened → Lexer.next ahead = (.error fault, after) → Reports fault left open'
  lexicalBracket : ∀ {token left : Token} {ahead place between after : Text} {opened open' : List Opened}
    {fault : Fault}, Stands token ahead opened → token.kind = .leftBracket →
    Lexer.next ahead = (.ok ⟨.rightBracket, place⟩, between) → Lexer.next between = (.error fault, after) →
    Reports fault left open'
  here : ∀ {token : Token} {ahead : Text} {opened : List Opened} {cause : Cause},
    Stands token ahead opened → (∀ d, cause ≠ .unterminated d) → Reports ⟨cause, token.place⟩ token opened
  unclosed : ∀ {token : Token} {ahead : Text} {innermost : Opened} {outer : List Opened},
    Stands token ahead (innermost :: outer) → token.kind = .eof →
    Reports ⟨.unterminated innermost.delimiter, innermost.place⟩ token (innermost :: outer)

namespace Parser

variable {α β : Type} {D : Discipline}

/-- From where `before` is open, and `know` holds, the step comes to where `after` is open, and `learn` holds
of its result. If it fails, `base` is open at least. -/
structure Leads (D : Discipline) (base before after : List Opened) (know : Session → Prop)
    (step : Parser α) (learn : α → Session → Prop) : Prop where
  success : ∀ {s t : Session} {a : α}, Yields step s a t → s.opened = before →
    D.Stands s.token s.ahead before → know s →
    t.opened = after ∧ t.depth = s.depth ∧ D.Stands t.token t.ahead after ∧ learn a t
  failure : ∀ {s t : Session} {fault : Fault}, Fails step s fault t → s.opened = before →
    D.Stands s.token s.ahead before → know s →
    base <:+ t.opened ∧ t.depth = s.depth ∧ D.Reports fault t.token t.opened

/-- The step leads back to what was open before it, whatever that is. -/
def Obeys (D : Discipline) (know : Session → Prop) (step : Parser α) (learn : α → Session → Prop) : Prop :=
  ∀ opened, Leads D opened opened opened know step learn

/-- The step obeys from any token on. -/
def Tame (D : Discipline) (step : Parser α) : Prop :=
  ∀ know, Obeys D know step fun _ _ => True

section Rules

variable {base before middle after : List Opened} {know : Session → Prop} {learn : α → Session → Prop}
  {learn' : β → Session → Prop}

theorem Leads.bind {p : Parser α} {f : α → Parser β} (first : Leads D base before middle know p learn)
    (second : ∀ a, Leads D base middle after (learn a) (f a) learn') :
    Leads D base before after know (p >>= f) learn' := by
  constructor
  · intro s t b run opened stands known
    obtain ⟨a, r, early, late⟩ := Yields.bind_iff.1 run
    obtain ⟨opened', depth, stands', learned⟩ := first.success early opened stands known
    obtain ⟨left, same, rest⟩ := (second a).success late opened' stands' learned
    exact ⟨left, same.trans depth, rest⟩
  · intro s t fault run opened stands known
    rcases Fails.bind_iff.1 run with early | ⟨a, r, early, late⟩
    · exact first.failure early opened stands known
    · obtain ⟨opened', depth, stands', learned⟩ := first.success early opened stands known
      obtain ⟨left, same, reports⟩ := (second a).failure late opened' stands' learned
      exact ⟨left, same.trans depth, reports⟩

theorem Obeys.over {step : Parser α} (obeys : Obeys D know step learn) (below : base <:+ before) :
    Leads D base before before know step learn where
  success := (obeys before).success
  failure run opened stands known := by
    obtain ⟨left, rest⟩ := (obeys before).failure run opened stands known
    exact ⟨below.trans left, rest⟩

theorem Obeys.bind {p : Parser α} {f : α → Parser β} (first : Obeys D know p learn)
    (second : ∀ a, Obeys D (learn a) (f a) learn') : Obeys D know (p >>= f) learn' :=
  fun opened => (first opened).bind fun a => second a opened

theorem Obeys.weaken {know' : Session → Prop} {step : Parser α} (obeys : Obeys D know step learn)
    (less : ∀ s, know' s → know s) : Obeys D know' step learn := by
  intro opened
  constructor
  · intro s t a run same stands known
    exact (obeys opened).success run same stands (less s known)
  · intro s t fault run same stands known
    exact (obeys opened).failure run same stands (less s known)

theorem Obeys.forget {step : Parser α} (obeys : Obeys D know step learn) :
    Obeys D know step fun _ _ => True := by
  intro opened
  constructor
  · intro s t a run same stands known
    obtain ⟨left, depth, stands', -⟩ := (obeys opened).success run same stands known
    exact ⟨left, depth, stands', trivial⟩
  · exact (obeys opened).failure

theorem Tame.bind {p : Parser α} {f : α → Parser β} (first : Tame D p) (second : ∀ a, Tame D (f a)) :
    Tame D (p >>= f) :=
  fun know => (first know).bind fun a => second a _

end Rules

/-! ## The steps of a session -/

section Steps

variable {base after opened : List Opened} {know : Session → Prop}

theorem obeys_of_sees {step : Parser α} (sees : Session → α)
    (looks : ∀ s, step.outcome s = (.ok (sees s), s)) :
    Obeys D know step fun a s => know s ∧ sees s = a := by
  intro opened
  constructor
  · intro s t a run same stands known
    cases (looks s).symm.trans run
    exact ⟨same, rfl, stands, known, rfl⟩
  · intro s t fault run
    cases (looks s).symm.trans run

theorem obeys_current : Obeys D know current fun kind s => know s ∧ s.token.kind = kind :=
  obeys_of_sees (·.token.kind) fun _ => rfl

theorem obeys_at? (kind : Token.Kind) :
    Obeys D know (at? kind) fun found s => know s ∧ (s.token.kind == kind) = found :=
  obeys_of_sees (·.token.kind == kind) fun _ => rfl

theorem tame_of_looks {step : Parser α} (sees : Session → α)
    (looks : ∀ s, step.outcome s = (.ok (sees s), s)) : Tame D step :=
  fun _ => (obeys_of_sees sees looks).forget

theorem tame_pure (a : α) : Tame D (pure a : Parser α) :=
  tame_of_looks (fun _ => a) fun _ => rfl

theorem tame_get : Tame D (get : Parser Session) :=
  tame_of_looks id fun _ => rfl

theorem tame_at? (kind : Token.Kind) : Tame D (at? kind) :=
  fun _ => (obeys_at? kind).forget

theorem tame_atTypeEnd : Tame D atTypeEnd :=
  tame_of_looks _ fun _ => rfl

theorem obeys_lookAhead : Obeys D know lookAhead fun kind s => know s ∧ s.Before kind := by
  intro opened
  constructor
  · intro s t kind run same stands known
    obtain ⟨token, after, read, rfl, rfl⟩ := Yields.lookAhead_iff.1 run
    exact ⟨same, rfl, stands, known, token, after, read, rfl⟩
  · intro s t fault run same stands known
    obtain ⟨after, read, rfl⟩ := Fails.lookAhead_iff.1 run
    exact ⟨same ▸ List.suffix_rfl, rfl, D.lexical stands read⟩

theorem tame_failHere {cause : Cause} (other : ∀ d, cause ≠ .unterminated d) :
    Tame D (failHere cause : Parser α) := by
  intro know opened
  constructor
  · intro s t a run
    exact (Yields.failHere_iff.1 run).elim
  · intro s t fault run same stands known
    obtain ⟨rfl, rfl⟩ := Fails.failHere_iff.1 run
    exact ⟨same ▸ List.suffix_rfl, rfl, same ▸ D.here stands other⟩

theorem obeys_advance (plain : ∀ s, know s → s.token.kind.isPlain = true) :
    Obeys D know advance fun _ t => ∃ s, know s ∧ Lexer.next s.ahead = (.ok t.token, t.ahead) := by
  intro opened
  constructor
  · intro s t a run same stands known
    obtain ⟨token, after, read, rfl⟩ := Yields.advance_iff.1 run
    exact ⟨same, rfl, D.pass stands (plain s known) read, s, known, read⟩
  · intro s t fault run same stands known
    obtain ⟨after, read, rfl⟩ := Fails.advance_iff.1 run
    exact ⟨same ▸ List.suffix_rfl, rfl, D.lexical stands read⟩

theorem tame_unexpected : Tame D (unexpected : Parser α) := by
  intro know opened
  constructor
  · intro s t a run
    exact (Yields.unexpected_iff.1 run).elim
  · intro s t fault run same stands known
    obtain ⟨rfl, blamed⟩ := Fails.unexpected_iff.1 run
    subst same
    refine ⟨List.suffix_rfl, rfl, ?_⟩
    rcases blamed with ⟨-, rfl⟩ | ⟨atEnd, ⟨-, rfl⟩ | ⟨innermost, outer, opened, rfl⟩⟩
    · exact D.here stands (by simp)
    · exact D.here stands (by simp)
    · rw [opened] at stands ⊢
      exact D.unclosed stands atEnd

theorem isPlain_of_at {s : Session} {kind : Token.Kind} {found : Bool} (plain : kind.isPlain = true)
    (here : found = true) (looked : (s.token.kind == kind) = found) : s.token.kind.isPlain = true := by
  rw [here, beq_iff_eq] at looked
  rw [looked]
  exact plain

theorem obeys_past {step : Unit → Parser α} {learn : α → Session → Prop}
    (plain : ∀ s, know s → s.token.kind.isPlain = true) (behind : Obeys D (fun _ => True) (step ()) learn) :
    Obeys D know (advance >>= step) learn :=
  (obeys_advance plain).forget.bind fun _ => behind

theorem tame_expect {kind : Token.Kind} (plain : kind.isPlain = true) : Tame D (expect kind) := by
  intro know
  apply obeys_current.bind
  intro found
  split
  · next here =>
      apply (obeys_advance ?_).forget
      intro s known
      rw [known.2, beq_iff_eq.1 here]
      exact plain
  · split
    · exact tame_unexpected _
    · exact tame_failHere (by simp) _

theorem leads_openWith {delimiter : Delimiter} {f : Unit → Parser α} {learn : α → Session → Prop}
    (opens : ∀ s, know s → s.token.kind.opens? = some delimiter)
    (inside : ∀ place, Leads D base (⟨delimiter, place⟩ :: base) after (fun _ => True) (f ()) learn) :
    Leads D base base after know (openWith delimiter >>= f) learn := by
  constructor
  · intro s t a run same stands known
    subst same
    obtain ⟨_, r, first, rest⟩ := Yields.bind_iff.1 run
    obtain ⟨token, ahead, read, rfl⟩ := Yields.advance_iff.1 (Yields.openWith_iff.1 first)
    have pushed := D.opening stands (opens s known) read
    have entered := (inside s.token.place).success rest rfl pushed trivial
    exact entered
  · intro s t fault run same stands known
    subst same
    rcases Fails.bind_iff.1 run with failed | ⟨_, r, first, rest⟩
    · obtain ⟨ahead, read, rfl⟩ := Fails.advance_iff.1 (Fails.openWith_iff.1 failed)
      exact ⟨List.suffix_cons _ _, rfl, D.lexical stands read⟩
    · obtain ⟨token, ahead, read, rfl⟩ := Yields.advance_iff.1 (Yields.openWith_iff.1 first)
      have pushed := D.opening stands (opens s known) read
      have entered := (inside s.token.place).failure rest rfl pushed trivial
      exact entered

theorem leads_closeWith (base : List Opened) (delimiter : Delimiter) (place : Text) :
    Leads D base (⟨delimiter, place⟩ :: base) base know (closeWith delimiter) fun _ _ => True := by
  constructor
  · intro s t a run same stands known
    obtain ⟨closes, r, passed, rfl⟩ := Yields.closeWith_iff.1 run
    obtain ⟨token, ahead, read, rfl⟩ := Yields.advance_iff.1 passed
    exact ⟨congrArg List.tail same, rfl, D.closing stands closes read, trivial⟩
  · intro s t fault run same stands known
    have below : base <:+ s.opened := same ▸ List.suffix_cons _ _
    rcases Fails.expect_iff.1 (Fails.closeWith_iff.1 run) with ⟨-, failed⟩ | ⟨-, blamed⟩
    · obtain ⟨ahead, read, rfl⟩ := Fails.advance_iff.1 failed
      exact ⟨below, rfl, D.lexical stands read⟩
    · rcases blamed with ⟨-, failed⟩ | ⟨-, rfl, rfl⟩
      · obtain ⟨left, rest⟩ := (tame_unexpected know _).failure failed same stands known
        exact ⟨(List.suffix_cons _ _).trans left, rest⟩
      · exact ⟨below, rfl, same ▸ D.here stands (by simp)⟩

theorem obeys_brackets {f : Unit → Parser α} {learn : α → Session → Prop}
    (pair : ∀ s, know s → s.token.kind = .leftBracket ∧ s.Before .rightBracket)
    (behind : Obeys D (fun _ => True) (f ()) learn) :
    Obeys D know (advance >>= fun _ => advance >>= f) learn := by
  -- the first of the brackets is passed as it was seen
  have first : ∀ {s t : Session} {u : Unit}, know s → Yields advance s u t →
      s.token.kind = .leftBracket ∧ ∃ place between, Lexer.next s.ahead = (.ok ⟨.rightBracket, place⟩, between) ∧
        t = { s with token := ⟨.rightBracket, place⟩, ahead := between } := by
    intro s t u known run
    obtain ⟨here, ⟨_, place⟩, between, seen, rfl⟩ := pair s known
    obtain ⟨token, after, read, rfl⟩ := Yields.advance_iff.1 run
    cases seen.symm.trans read
    exact ⟨here, place, between, seen, rfl⟩
  intro opened
  constructor
  · intro s t a run same stands known
    obtain ⟨_, r, one, rest⟩ := Yields.bind_iff.1 run
    obtain ⟨here, place, between, seen, rfl⟩ := first known one
    obtain ⟨_, r, two, rest⟩ := Yields.bind_iff.1 rest
    obtain ⟨token, after, read, rfl⟩ := Yields.advance_iff.1 two
    have passed := (behind opened).success rest same (D.brackets stands here seen read) trivial
    exact passed
  · intro s t fault run same stands known
    rcases Fails.bind_iff.1 run with failed | ⟨_, r, one, rest⟩
    · obtain ⟨after, read, rfl⟩ := Fails.advance_iff.1 failed
      exact ⟨same ▸ List.suffix_rfl, rfl, D.lexical stands read⟩
    · obtain ⟨here, place, between, seen, rfl⟩ := first known one
      rcases Fails.bind_iff.1 rest with failed | ⟨_, r, two, rest⟩
      · obtain ⟨after, read, rfl⟩ := Fails.advance_iff.1 failed
        exact ⟨same ▸ List.suffix_rfl, rfl, D.lexicalBracket stands here seen read⟩
      · obtain ⟨token, after, read, rfl⟩ := Yields.advance_iff.1 two
        have passed := (behind opened).failure rest same (D.brackets stands here seen read) trivial
        exact passed

theorem tame_nested {step : Parser α} (tame : Tame D step) : Tame D (nested step) := by
  intro know opened
  constructor
  · intro s t a run same stands known
    obtain ⟨r, deeper, rfl⟩ := Yields.nested_iff.1 run
    have read := (tame (fun _ => True) opened).success deeper same stands trivial
    obtain ⟨left, depth, stands', -⟩ := read
    exact ⟨left, congrArg (· - 1) depth, stands', trivial⟩
  · intro s t fault run same stands known
    obtain ⟨r, deeper, rfl⟩ := Fails.nested_iff.1 run
    have failed := (tame (fun _ => True) opened).failure deeper same stands trivial
    obtain ⟨left, depth, reports⟩ := failed
    exact ⟨left, congrArg (· - 1) depth, reports⟩

end Steps

end Parser

end Docblock.TypeExpr
