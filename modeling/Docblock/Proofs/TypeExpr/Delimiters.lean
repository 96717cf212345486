import Docblock.Proofs.TypeExpr.Acceptance
import Docblock.Proofs.TypeExpr.Tame

/-!
# What a step leaves open

A step that succeeds closes every delimiter that it opens. One that fails leaves open what was open before,
below what it opened itself. Either way it comes back to the depth it began at. So it is with every call on
a session, whatever calls came before.
-/

set_option autoImplicit false

namespace Docblock.TypeExpr

namespace Parser

variable {α : Type}

/-- From a session where `before` is open the step comes back to the depth it began at. If it succeeds it
leaves `after` open, and if it fails at least `base`. -/
structure Leaves (base before after : List Opened) (step : Parser α) : Prop where
  depth : ∀ {s t : Session} {result : Except Fault α}, s.opened = before →
    step.outcome s = (result, t) → t.depth = s.depth
  success : ∀ {s t : Session} {a : α}, s.opened = before →
    step.outcome s = (.ok a, t) → t.opened = after
  failure : ∀ {s t : Session} {fault : Fault}, s.opened = before →
    step.outcome s = (.error fault, t) → base <:+ t.opened

def Keeps (step : Parser α) : Prop :=
  ∀ opened, Leaves opened opened opened step

/-- Nothing is asked of the sessions, or of the faults. -/
def free : Discipline where
  Stands _ _ _ := True
  Reports _ _ _ := True
  pass _ _ _ := trivial
  opening _ _ _ := trivial
  closing _ _ _ := trivial
  brackets _ _ _ _ := trivial
  lexical _ _ := trivial
  lexicalBracket _ _ _ _ := trivial
  here _ _ := trivial
  unclosed _ _ := trivial

theorem keeps_of_tame {step : Parser α} (tame : Tame free step) : Keeps step := by
  intro before
  have leads := tame (fun _ => True) before
  constructor
  · intro s t result opened run
    rcases result with fault | a
    · exact (leads.failure run opened trivial trivial).2.1
    · exact (leads.success run opened trivial trivial).2.1
  · intro s t a opened run
    exact (leads.success run opened trivial trivial).1
  · intro s t fault opened run
    exact (leads.failure run opened trivial trivial).1

theorem keeps_parseTop : Keeps parseTop :=
  keeps_of_tame tame_parseTop

theorem finish_same (s : Session) : (finish.outcome s).2 = s := by
  simp only [finish, outcome_bind]
  have stands : current.outcome s = (.ok s.token.kind, s) := rfl
  rw [stands]
  dsimp only
  split <;> rfl

end Parser

/-! ## Calls on a session -/

inductive Call where
  | parseTop
  | finish

namespace Session

variable {s : Session} {d : Delimiter}

def call (session : Session) : Call → Session
  | .parseTop => (Parser.parseTop.outcome session).2
  | .finish => (Parser.finish.outcome session).2

def calls (session : Session) (made : List Call) : Session :=
  made.foldl call session

theorem depth_call (s : Session) (made : Call) : (s.call made).depth = s.depth := by
  cases made with
  | parseTop => exact (Parser.keeps_parseTop s.opened).depth rfl rfl
  | finish => exact congrArg depth (Parser.finish_same s)

theorem opened_call (s : Session) (made : Call) : s.opened <:+ (s.call made).opened := by
  cases made with
  | finish => exact (congrArg opened (Parser.finish_same s)) ▸ List.suffix_rfl
  | parseTop =>
      rcases run : Parser.parseTop.outcome s with ⟨fault | node, t⟩
      · have left : s.call .parseTop = t := congrArg Prod.snd run
        rw [left]
        exact (Parser.keeps_parseTop s.opened).failure rfl run
      · have left : s.call .parseTop = t := congrArg Prod.snd run
        have same : t.opened = s.opened := (Parser.keeps_parseTop s.opened).success rfl run
        rw [left]
        exact ⟨[], same.symm⟩

theorem depth_calls (made : List Call) (s : Session) : (s.calls made).depth = s.depth := by
  induction made generalizing s with
  | nil => rfl
  | cons first made induction => exact (induction (s.call first)).trans (depth_call s first)

theorem opened_calls (made : List Call) (s : Session) : s.opened <:+ (s.calls made).opened := by
  induction made generalizing s with
  | nil => exact List.suffix_rfl
  | cons first made induction => exact (opened_call s first).trans (induction (s.call first))

theorem isInside_of_suffix {t : Session} (more : s.opened <:+ t.opened) (inside : s.isInside d = true) :
    t.isInside d = true := by
  obtain ⟨opening, member, same⟩ := List.any_eq_true.1 inside
  exact List.any_eq_true.2 ⟨opening, more.subset member, same⟩

end Session

/-- However a session has been called, it is at depth zero. Reading a type then leaves open what is open if
it succeeds, and opens more on top of it if it fails; asking for the end changes nothing. So a delimiter
that is open stays open in all that follows. -/
theorem session_never_closes {source : Text} {session : Session}
    (starts : Session.start source = .ok session) (made : List Call) :
    (session.calls made).depth = 0 ∧
    (∀ node t, Parser.parseTop.outcome (session.calls made) = (.ok node, t) →
      t.opened = (session.calls made).opened) ∧
    (∀ fault t, Parser.parseTop.outcome (session.calls made) = (.error fault, t) →
      (session.calls made).opened <:+ t.opened) ∧
    (Parser.finish.outcome (session.calls made)).2 = session.calls made ∧
    ∀ later delimiter, (session.calls made).isInside delimiter = true →
      ((session.calls made).calls later).isInside delimiter = true := by
  refine ⟨?_, ?_, ?_, ?_, ?_⟩
  · rw [Session.depth_calls]
    exact ReadsAs.depth_of_start starts
  · intro node t run
    exact (Parser.keeps_parseTop _).success rfl run
  · intro fault t run
    exact (Parser.keeps_parseTop _).failure rfl run
  · exact Parser.finish_same _
  · intro later delimiter inside
    exact Session.isInside_of_suffix (Session.opened_calls later _) inside

theorem unclosed_brace_stays_open :
    ∃ session, Session.start "\x7ba: (b".toList = .ok session ∧
      (session.calls [.parseTop]).depth = 0 ∧ (session.calls [.parseTop]).isInside .brace = true ∧
      ((session.calls [.parseTop]).calls [.finish, .parseTop]).isInside .brace = true := by
  obtain ⟨session, starts, opened⟩ : ∃ session, Session.start "\x7ba: (b".toList = .ok session ∧
      (session.calls [.parseTop]).isInside .brace = true := by
    refine ⟨_, rfl, ?_⟩
    decide +kernel
  obtain ⟨depth, -, -, -, stays⟩ := session_never_closes starts [.parseTop]
  exact ⟨session, starts, depth, opened, stays [.finish, .parseTop] .brace opened⟩

end Docblock.TypeExpr
