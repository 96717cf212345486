import Docblock.Proofs.TypeExpr.ArraySugar

/-!
# Unions put together from their members

Types with `|` between each two read as the union of these types, bare and in parentheses. What stands behind
a member does not change how it is read, and a member that is a union in parentheses stays one member.
-/

set_option autoImplicit false

namespace Docblock.TypeExpr

open Lexer (Reads Stops)

/-- The whole source is read as one type, with room for so many types nested in one another, itself included. -/
def ReadsType (source : Text) (room : Nat) (node : Node) : Prop :=
  ∃ session left, Session.start source = .ok session ∧ left.token.kind = .eof ∧
    Yields (Parser.typeExpression (session.ahead.length + 2) room) session node left

abbrev Members := List (Text × Node)

namespace Members

def joined (members : Members) : Text :=
  Text.join ['|'] (members.map Prod.fst)

def parenthesized (members : Members) : Text :=
  '(' :: (members.joined ++ [')'])

def union (members : Members) : Node :=
  .union (members.map Prod.snd)

/-- The members are types, with room for so many nested ones in each. -/
def AreTypes (members : Members) (room : Nat) : Prop :=
  ∀ member ∈ members, ReadsType member.1 room member.2

end Members

section Readings

variable {source : Text} {room more : Nat} {node : Node}

theorem ReadsType.iff_expression : ReadsType source room node ↔
    ∃ kinds, Reads source kinds ∧ Phrase.Expression room kinds [.eof] node := by
  constructor
  · rintro ⟨session, left, started, atEnd, run⟩
    obtain ⟨sound, -⟩ := Parser.typeExpression_sound (session.ahead.length + 2) room
    obtain ⟨-, derives⟩ := sound run session.left_le
    obtain ⟨kinds, stands, derived⟩ := derives (.last atEnd)
    exact ⟨kinds, (ReadsAs.at_of_start started).1 stands, derived⟩
  · rintro ⟨kinds, reads, derived⟩
    obtain ⟨session, started⟩ := ReadsAs.start_of_reads reads
    obtain ⟨left, run, reaches⟩ := Parser.typeExpression_complete _ room
      ((ReadsAs.at_of_start started).2 reads) session.left_le derived rfl
    exact ⟨session, left, started, reaches.stands.head, run⟩

theorem ReadsType.of_tokens {kinds : List Token.Kind}
    (lexed : (Lexer.tokens source).map (·.map Token.kind) = kinds.map .ok)
    (derived : Phrase.Expression room kinds [.eof] node) : ReadsType source room node :=
  ReadsType.iff_expression.2 ⟨kinds, Lexer.tokens_eq_iff.1 lexed, derived⟩

theorem ReadsType.exists_tokens (reads : ReadsType source room node) (enough : room ≤ more) :
    ∃ front, Reads source (front ++ [.eof]) ∧
      ∀ {vs}, Phrase.NoCall vs → Phrase.Expression more (front ++ vs) vs node := by
  obtain ⟨kinds, lexed, derived⟩ := ReadsType.iff_expression.1 reads
  obtain ⟨front, rfl, carried⟩ := Phrase.Expression.carries enough derived
  exact ⟨front, lexed, carried⟩

theorem ReadsType.readsAs (reads : ReadsType source room node) (enough : room ≤ maxDepth) :
    ReadsAs source node := by
  obtain ⟨front, lexed, carried⟩ := reads.exists_tokens enough
  have derived := carried (.cons (by decide : Token.Kind.eof ≠ .leftParen) [])
  exact ReadsAs.iff_top.2 ⟨_, lexed, .plain (.plain (.single derived))⟩

end Readings

namespace Members

variable {members inner before after : Members} {room more : Nat}

theorem joined_cons (first : Text × Node) {members : Members} (some : members ≠ []) :
    joined (first :: members) = first.1 ++ '|' :: members.joined := by
  obtain ⟨second, members, rfl⟩ := List.exists_cons_of_ne_nil some
  simp [joined, Text.join_cons_cons]

theorem exists_separated (some : members ≠ []) (types : members.AreTypes room) (enough : room ≤ more) :
    ∃ front, Reads members.joined (front ++ [.eof]) ∧ ∀ {vs}, Phrase.NoCall vs →
      Phrase.Separated (Phrase.Expression more) .pipe (front ++ vs) vs (members.map Prod.snd) := by
  induction members with
  | nil => exact absurd rfl some
  | cons first members induction =>
      obtain ⟨front, lexed, carried⟩ := (types first List.mem_cons_self).exists_tokens enough
      by_cases none : members = []
      · subst none
        refine ⟨front, ?_, fun noCall => .last (carried noCall)⟩
        simpa [joined] using lexed
      · obtain ⟨behind, others, separated⟩ :=
          induction none fun member inside => types member (List.mem_cons_of_mem first inside)
        have stops : Stops ('|' :: joined members) := .cons (by decide) _
        refine ⟨front ++ .pipe :: behind, ?_, fun noCall => ?_⟩
        · rw [joined_cons first none, List.append_assoc]
          refine (Lexer.reads_append lexed stops (by simp)).2 ⟨.pipe :: (behind ++ [.eof]), rfl, ?_⟩
          exact (Lexer.reads_mark rfl _).2 ⟨_, rfl, others⟩
        · rw [List.append_assoc]
          exact .more (carried (.cons (by decide) _)) (separated noCall)

theorem AreTypes.parenthesized (types : members.AreTypes room) :
    ReadsType members.parenthesized (room + 1) members.union := by
  have closing : Reads [')'] [.rightParen, .eof] := (Lexer.reads_mark rfl []).2 ⟨[.eof], rfl, .last rfl rfl⟩
  rw [ReadsType.iff_expression]
  by_cases none : members = []
  · subst none
    refine ⟨[.leftParen, .rightParen, .eof], (Lexer.reads_mark rfl _).2 ⟨_, rfl, closing⟩, ?_⟩
    exact .plain (.trailed (.basic (.parenthesized .empty)))
  · obtain ⟨front, lexed, separated⟩ := exists_separated none types (Nat.le_refl room)
    have stops : Stops [')'] := .cons (by decide) []
    have inside : Reads (members.joined ++ [')']) (front ++ [.rightParen, .eof]) :=
      (Lexer.reads_append lexed stops (by simp)).2 ⟨[.rightParen, .eof], rfl, closing⟩
    refine ⟨.leftParen :: (front ++ [.rightParen, .eof]), (Lexer.reads_mark rfl _).2 ⟨_, rfl, inside⟩, ?_⟩
    exact .plain (.trailed (.basic (.parenthesized (.several (separated (.cons (by decide) _))))))

theorem AreTypes.parseType_parenthesized (types : members.AreTypes 127) :
    parseType members.parenthesized = .ok members.union := by
  have opens : Opens '[' members.parenthesized := ⟨'(', _, rfl, by decide, by decide⟩
  rw [parseType_eq_ok_iff (optionalName?_of_opens opens)]
  exact types.parenthesized.readsAs (Nat.le_refl maxDepth)

end Members

theorem optionalName?_of_first {source : Text} {kind : Token.Kind} {us : List Token.Kind}
    (reads : Reads source (kind :: us)) (inside : kind ≠ .eof) (other : kind ≠ .leftBracket) (k : Text) :
    optionalName? (source ++ k) = none := by
  obtain ⟨place, after, read⟩ := Lexer.exists_next_of_reads reads
  obtain ⟨c, rest, trimmed, visible, -⟩ := Lexer.token_of_next read inside
  obtain ⟨blanks, blank, whole⟩ := Text.exists_blank_append_trimStart source
  rw [trimmed] at whole
  subst whole
  rw [Lexer.reads_blanks blank] at reads
  have noBracket : c ≠ '[' := by
    rintro rfl
    have bracket : Token.Kind.ofChar? '[' = some .leftBracket := rfl
    obtain ⟨vs, same, -⟩ := (Lexer.reads_mark bracket rest).1 reads
    exact other (List.cons.inj same).1
  have opens : Opens '[' (c :: rest ++ k) := ⟨c, rest ++ k, rfl, visible, noBracket⟩
  rw [List.append_assoc, optionalName?, Text.trim_blank_append blank]
  exact optionalName?_of_opens opens

/-- Behind a type and `|` there is no optional name: where it begins with a bracket, it is a list with its
marks. -/
theorem ReadsType.optionalName?_pipe {source : Text} {room : Nat} {node : Node}
    (reads : ReadsType source (room + 1) node) (k : Text) : optionalName? (source ++ '|' :: k) = none := by
  obtain ⟨kinds, lexed, derived⟩ := ReadsType.iff_expression.1 reads
  cases derived with
  | questionAlone => exact optionalName?_of_first lexed (by simp) (by simp) _
  | question _ => exact optionalName?_of_first lexed (by simp) (by simp) _
  | bangAlone => exact optionalName?_of_first lexed (by simp) (by simp) _
  | bang _ => exact optionalName?_of_first lexed (by simp) (by simp) _
  | plain unprefixed =>
      cases unprefixed with
      | trailed trailed =>
          exact optionalName?_mark (Phrase.Expression.isType room) (by decide) (by decide) lexed trailed k
      | result signature _ =>
          obtain ⟨more, rfl⟩ := signature.begins
          exact optionalName?_of_first lexed (by simp) (by simp) _

namespace Members

variable {members before after inner : Members}

theorem AreTypes.parseType_joined (several : 2 ≤ members.length) (types : members.AreTypes 127) :
    parseType members.joined = .ok members.union := by
  obtain ⟨first, second, others, rfl⟩ : ∃ first second others, members = first :: second :: others := by
    rcases members with _ | ⟨first, _ | ⟨second, others⟩⟩
    · simp at several
    · simp at several
    · exact ⟨first, second, others, rfl⟩
  have some : second :: others ≠ [] := by simp
  have unnamed : optionalName? (joined (first :: second :: others)) = none := by
    rw [joined_cons first some]
    exact (types first List.mem_cons_self).optionalName?_pipe _
  obtain ⟨front, lexed, separated⟩ := exists_separated (by simp) types (Nat.le_succ 127)
  have derived : Phrase.Union (Phrase.Expression 128) (front ++ [.eof]) [.eof]
      (union (first :: second :: others)) := by
    cases separated (.cons (by decide : Token.Kind.eof ≠ .leftParen) []) with
    | more head tail => exact .several head tail
  rw [parseType_eq_ok_iff unnamed]
  exact ReadsAs.iff_top.2 ⟨_, lexed, .plain (.plain derived)⟩

def insert (before inner after : Members) : Members :=
  before ++ (inner.parenthesized, inner.union) :: after

theorem AreTypes.insert (around : (before ++ after).AreTypes 127) (types : inner.AreTypes 126) :
    (Members.insert before inner after).AreTypes 127 := by
  intro member inside
  rcases List.mem_append.1 inside with early | here
  · exact around member (List.mem_append_left after early)
  · rcases List.mem_cons.1 here with rfl | late
    · exact types.parenthesized
    · exact around member (List.mem_append_right before late)

end Members

/-- Types read alone, each with at most 127 of them nested in one another, read as the union of these types in
their order when they are joined by `|`, and also when they are joined in parentheses; in parentheses one type makes
a union too. A union in parentheses is one member of a union around it. -/
theorem union_of_joined_types {members : Members} (types : members.AreTypes 127) :
    (∀ member ∈ members, ReadsAs member.1 member.2) ∧
    (2 ≤ members.length → parseType members.joined = .ok (.union (members.map Prod.snd))) ∧
    parseType members.parenthesized = .ok (.union (members.map Prod.snd)) ∧
    ∀ before inner after, members = before ++ after → Members.AreTypes inner 126 →
      (1 ≤ members.length → parseType (Members.insert before inner after).joined =
        .ok (.union (before.map Prod.snd ++ .union (inner.map Prod.snd) :: after.map Prod.snd))) ∧
      parseType (Members.insert before inner after).parenthesized =
        .ok (.union (before.map Prod.snd ++ .union (inner.map Prod.snd) :: after.map Prod.snd)) := by
  refine ⟨fun member inside => (types member inside).readsAs (Nat.le_succ 127), ?_, types.parseType_parenthesized, ?_⟩
  · exact fun several => types.parseType_joined several
  · rintro before inner after rfl nested
    have nodes : (Members.insert before inner after).union =
        .union (before.map Prod.snd ++ .union (inner.map Prod.snd) :: after.map Prod.snd) := by
      simp [Members.insert, Members.union]
    have inserted := types.insert nested
    rw [← nodes]
    refine ⟨fun any => inserted.parseType_joined ?_, inserted.parseType_parenthesized⟩
    simp only [Members.insert, List.length_append, List.length_cons] at any ⊢
    omega

theorem union_between_result_and_point :
    let function : Node := .function [] (some .nullableLiteral) none none
    Members.AreTypes [("function():?".toList, function), ("a.".toList, .name "a.".toList)] 127 ∧
      Members.AreTypes [("b".toList, .name "b".toList)] 126 ∧
      parseType "function():?|(b)|a.".toList =
        .ok (.union [function, .union [.name "b".toList], .name "a.".toList]) := by
  intro function
  have word : ∀ {name : Text} {room : Nat}, Grammar.literal? name = none →
      Phrase.Expression (room + 1) [.name name, .eof] [.eof] (.name name) :=
    fun free => .plain (.trailed (.basic (.name free fun _ => by simp)))
  have types : Members.AreTypes [("function():?".toList, function), ("a.".toList, .name "a.".toList)] 127 := by
    intro member inside
    simp only [List.mem_cons, List.not_mem_nil, or_false] at inside
    rcases inside with rfl | rfl
    · have lexed : (Lexer.tokens "function():?".toList).map (·.map Token.kind) =
          [.name "function".toList, .leftParen, .rightParen, .colon, .question, .eof].map .ok := rfl
      exact .of_tokens lexed (.plain (.result (.unbound rfl .empty) .questionAlone))
    · exact .of_tokens rfl (word rfl)
  have nested : Members.AreTypes [("b".toList, .name "b".toList)] 126 := by
    intro member inside
    rw [List.mem_singleton.1 inside]
    exact .of_tokens rfl (word rfl)
  obtain ⟨-, -, -, inserted⟩ := union_of_joined_types types
  obtain ⟨bare, -⟩ := inserted [("function():?".toList, function)] [("b".toList, .name "b".toList)]
    [("a.".toList, .name "a.".toList)] rfl nested
  exact ⟨types, nested, bare (by decide)⟩

end Docblock.TypeExpr
