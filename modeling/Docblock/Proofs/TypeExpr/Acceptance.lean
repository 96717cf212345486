import Docblock.Proofs.TypeExpr.Completeness
import Docblock.Proofs.TypeExpr.Soundness

/-!
# The parser accepts its grammar

A text is read as a whole exactly where its tokens derive from the grammar, and the tree that is
returned is the only one they derive.
-/

set_option autoImplicit false

namespace Docblock.TypeExpr

namespace Session

variable {source : Text} {session : Session}

theorem start_eq_ok_iff : start source = .ok session ↔
    ∃ token after, Lexer.next source = (.ok token, after) ∧ session = ⟨token, after, [], 0⟩ := by
  rcases read : Lexer.next source with ⟨failed | first, after⟩
  · simp [start, read, Except.map]
  · simp only [start, read, Except.map, Except.ok.injEq, Prod.mk.injEq]
    constructor
    · rintro rfl
      exact ⟨first, after, ⟨rfl, rfl⟩, rfl⟩
    · rintro ⟨token, behind, ⟨rfl, rfl⟩, rfl⟩
      rfl

end Session

/-- Reading the whole text succeeds with this tree. -/
def ReadsAs (source : Text) (node : Node) : Prop :=
  ∃ session, Session.start source = .ok session ∧ (Parser.whole.run session).1 = .ok node

namespace ReadsAs

variable {source : Text} {node other : Node}

theorem unique (reads : ReadsAs source node) (again : ReadsAs source other) : node = other := by
  obtain ⟨session, starts, run⟩ := reads
  obtain ⟨session', starts', run'⟩ := again
  rw [starts] at starts'
  cases starts'
  rw [run] at run'
  cases run'
  rfl

theorem at_of_start {session : Session} (starts : Session.start source = .ok session)
    {kinds : List Token.Kind} : session.At kinds ↔ Lexer.Reads source kinds := by
  obtain ⟨token, after, read, rfl⟩ := Session.start_eq_ok_iff.1 starts
  exact Session.at_of_reads read rfl rfl

theorem depth_of_start {session : Session} (starts : Session.start source = .ok session) :
    session.depth = 0 := by
  obtain ⟨token, after, -, rfl⟩ := Session.start_eq_ok_iff.1 starts
  rfl

theorem start_of_reads {kinds : List Token.Kind} (reads : Lexer.Reads source kinds) :
    ∃ session, Session.start source = .ok session := by
  obtain ⟨token, after, read⟩ : ∃ token after, Lexer.next source = (.ok token, after) := by
    cases reads with
    | last read _ => exact ⟨_, _, read⟩
    | more read _ _ => exact ⟨_, _, read⟩
  exact ⟨_, Session.start_eq_ok_iff.2 ⟨token, after, read, rfl⟩⟩

theorem iff_top : ReadsAs source node ↔
    ∃ kinds, Lexer.Reads source kinds ∧ Phrase.Top maxDepth kinds [.eof] node := by
  constructor
  · rintro ⟨session, starts, run⟩
    obtain ⟨kinds, stands, derived⟩ := Parser.whole_sound (s := session) (t := (Parser.whole.run session).2)
      (show Parser.whole.run session = _ from Prod.ext run rfl) (depth_of_start starts)
    exact ⟨kinds, (at_of_start starts).1 stands, derived⟩
  · rintro ⟨kinds, reads, derived⟩
    obtain ⟨session, starts⟩ := start_of_reads reads
    obtain ⟨t, run⟩ :=
      Parser.whole_complete ((at_of_start starts).2 reads) (depth_of_start starts) derived
    exact ⟨session, starts, congrArg Prod.fst run⟩

end ReadsAs

/-- The whole of a text is read without a fault if and only if it is read as tokens that derive from
the grammar, and the tree is the one that they derive. -/
theorem whole_reads_iff_tokens_derive (source : Text) (node : Node) :
    (∃ session, Session.start source = .ok session ∧ (Parser.whole.run session).1 = .ok node) ↔
      ∃ kinds, (Lexer.tokens source).map (·.map Token.kind) = kinds.map .ok ∧
        Phrase.Top maxDepth kinds [.eof] node ∧
        ∀ other, Phrase.Top maxDepth kinds [.eof] other → other = node := by
  constructor
  · intro reads
    obtain ⟨kinds, lexed, derived⟩ := ReadsAs.iff_top.1 reads
    refine ⟨kinds, Lexer.tokens_eq_iff.2 lexed, derived, fun other derived' => ?_⟩
    exact ReadsAs.unique (ReadsAs.iff_top.2 ⟨kinds, lexed, derived'⟩) reads
  · rintro ⟨kinds, lexed, derived, _⟩
    exact ReadsAs.iff_top.2 ⟨kinds, Lexer.tokens_eq_iff.1 lexed, derived⟩

theorem parseType_eq_ok_iff {source : Text} {node : Node} (unnamed : optionalName? source = none) :
    parseType source = .ok node ↔ ReadsAs source node := by
  rw [parseType, unnamed]
  constructor
  · intro parsed
    cases started : Session.start source with
    | error fault =>
        simp [started] at parsed
    | ok session =>
        simp only [started] at parsed
        split at parsed
        · next read =>
            cases parsed
            exact ⟨session, started, read⟩
        · cases parsed
  · rintro ⟨session, started, read⟩
    simp only [started, read]

/-- What is accepted is an optional name, or it is read as a whole. -/
theorem named_or_reads_of_parseType {source : Text} {node : Node} (parsed : parseType source = .ok node) :
    optionalName? source = some node ∨ ReadsAs source node := by
  cases named : optionalName? source with
  | none => exact .inr ((parseType_eq_ok_iff named).1 parsed)
  | some found =>
      rw [parseType, named] at parsed
      cases parsed
      exact .inl rfl

theorem exists_parsed_of_any (source : Text) (check : Node → Bool)
    (checked : (parseType source).toOption.any check = true) :
    ∃ node, parseType source = .ok node ∧ check node = true := by
  cases parsed : parseType source with
  | error fault =>
      rw [parsed] at checked
      cases checked
  | ok node =>
      rw [parsed] at checked
      exact ⟨node, rfl, checked⟩

theorem exists_rejected_of_any (source : Text) (check : SyntaxError → Bool)
    (checked : (((parseType source).map fun _ => false).tryCatch fun error => .ok (check error)).toOption =
      some true) : ∃ error, parseType source = .error error ∧ check error = true := by
  cases parsed : parseType source with
  | error error =>
      rw [parsed] at checked
      exact ⟨error, rfl, Option.some.inj checked⟩
  | ok node =>
      rw [parsed] at checked
      cases checked

end Docblock.TypeExpr
