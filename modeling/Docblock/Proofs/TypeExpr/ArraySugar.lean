import Docblock.Proofs.TypeExpr.Acceptance
import Docblock.Proofs.TypeExpr.Carrying
import Docblock.Proofs.TypeExpr.Locality
import Docblock.Proofs.TypeExpr.OptionalName
import Docblock.Proofs.TypeExpr.Shape

/-!
# Lists in brackets and in angles

A type with `[]` behind it is the type of its lists, as it is between `Array<` and `>`. With brackets behind
it a type is never an optional name, though it may have brackets of its own in front.
-/

set_option autoImplicit false

namespace Docblock.TypeExpr

open Lexer (Reads Stops)

namespace Phrase

section Brackets

variable {type : Phrase Node} (isType : IsType type) {name : Text} {kind : Token.Kind}
  {ts us : List Token.Kind} (marks : kind = .equal ∨ kind = .ellipsis)

include isType marks

theorem Elements.unmarked {nodes : List Node} :
    ¬ Elements type (.name name :: kind :: ts) (.rightBracket :: us) nodes := by
  have apart : extendsName kind = false := by
    rcases marks with rfl | rfl <;> rfl
  have noComma : kind ≠ .comma ∧ kind ≠ .rightBracket := by
    rcases marks with rfl | rfl <;> simp
  intro derived
  cases derived with
  | listed all =>
      cases all with
      | items separated comma =>
          cases separated with
          | last only =>
              have same := isType.alone apart only
              subst same
              cases comma with
              | absent => exact noComma.2 rfl
              | present => exact noComma.1 rfl
          | more first _ => exact noComma.1 (List.cons.inj (isType.alone apart first)).1.symm
  | rest front _ _ =>
      cases front with
      | more first _ => exact noComma.1 (List.cons.inj (isType.alone apart first)).1.symm

theorem Trailed.unmarked {node : Node} :
    ¬ Trailed type (.leftBracket :: .name name :: kind :: ts) us node := by
  intro derived
  generalize shape : Token.Kind.leftBracket :: .name name :: kind :: ts = kinds at derived
  induction derived with
  | basic basic =>
      cases basic with
      | array elements =>
          obtain ⟨-, rfl⟩ := List.cons.inj shape
          exact elements.unmarked isType marks
      | function signature =>
          obtain ⟨more, rfl⟩ := signature.begins
          cases shape
      | _ => cases shape
  | bang _ induction => exact induction shape
  | question _ induction => exact induction shape
  | brackets _ induction => exact induction shape

end Brackets

end Phrase

namespace Lexer

section Names

variable {name k : Text}

/-- A name that ends within text that could be one ends in front of points. -/
theorem spanName_within (each : ∀ c ∈ name, isNameChar c = true) (stops : Stops k) :
    ∃ front behind, name = front ++ behind ∧ spanName (name ++ k) = (front, behind ++ k) := by
  induction name with
  | nil =>
      refine ⟨[], [], rfl, ?_⟩
      cases k with
      | nil => rfl
      | cons c k =>
          have ends : nameEnds (c :: k) = true := nameEnds_cons.2 (.inr (.inr (stops c rfl)))
          simp [spanName, ends]
  | cons c name induction =>
      obtain ⟨front, behind, rfl, others⟩ := induction fun d inside => each d (List.mem_cons_of_mem c inside)
      rw [List.cons_append, spanName]
      split
      · exact ⟨[], c :: (front ++ behind), rfl, rfl⟩
      · exact ⟨c :: front, behind, rfl, by rw [others]⟩

/-- Behind text that could be a name stands what does so behind the name, or the name has three points in
it and ends there. -/
theorem reads_bareName {kinds : List Token.Kind} (bare : isBareName name = true) (stops : Stops k)
    (noAngle : k.head? ≠ some '<') (reads : Reads (name ++ k) kinds) :
    ∃ read us, kinds = .name read :: us ∧ (Reads k us ∨ ∃ more, us = .ellipsis :: more) := by
  have each : ∀ c ∈ name, isNameChar c = true := fun c => isNameChar_of_isBareName bare
  obtain ⟨c, more, rfl⟩ : ∃ c more, name = c :: more := by
    cases name with
    | nil => cases bare
    | cons c more => exact ⟨c, more, rfl⟩
  simp only [isBareName, Bool.and_eq_true, Bool.or_eq_true, beq_iff_eq, or_assoc] at bare
  obtain ⟨visible, begins⟩ := beginsName_of_letter bare.1 (more ++ k)
  obtain ⟨front, behind, whole, span⟩ := spanName_within each stops
  have ends := nameEnds_spanName (c :: more ++ k)
  have token := token_of_beginsName begins
  rw [← List.cons_append] at token
  rw [span] at token ends
  obtain ⟨us, rfl, others⟩ := (reads_iff_of_next (next_of_token visible token) (by simp)).1 reads
  refine ⟨front, us, rfl, ?_⟩
  cases behind with
  | nil => exact .inl others
  | cons d behind =>
      have inside : ∀ e ∈ d :: behind, isNameChar e = true := by
        intro e inside
        rw [whole] at each
        exact each e (List.mem_append_right front inside)
      rcases nameEnds_cons.1 ends with ⟨-, angle⟩ | ⟨rfl, others', dots⟩ | other
      · cases behind with
        | nil => exact absurd angle noAngle
        | cons e behind =>
            obtain rfl := Option.some.inj angle
            exact absurd (inside '<' (by simp)) (by decide)
      · have shape : '.' :: behind ++ k = '.' :: '.' :: '.' :: others' := congrArg ('.' :: ·) dots
        rw [shape] at others
        obtain ⟨vs, rfl, -⟩ := (reads_ellipsis others').1 others
        exact .inr ⟨vs, rfl⟩
      · rw [inside d List.mem_cons_self] at other
        cases other

end Names

end Lexer

section Sugar

variable {type : Phrase Node} {source : Text} {kinds us : List Token.Kind} {node : Node}

theorem not_isBareName_of_trailed (isType : Phrase.IsType type) {before behind : Text}
    (reads : Reads ('[' :: (before ++ '=' :: behind)) kinds) (derived : Phrase.Trailed type kinds us node) :
    isBareName (Text.trim before) = false := by
  rw [← Bool.not_eq_true]
  intro bare
  have bracket : Token.Kind.ofChar? '[' = some .leftBracket := rfl
  have equal : Token.Kind.ofChar? '=' = some .equal := rfl
  obtain ⟨ts, rfl, inner⟩ := (Lexer.reads_mark bracket _).1 reads
  obtain ⟨front, back, blankFront, blankBack, whole⟩ := Text.exists_blanks_around_trim before
  rw [whole, List.append_assoc, List.append_assoc, Lexer.reads_blanks blankFront] at inner
  have head : ∀ c ∈ (back ++ '=' :: behind).head?, Text.isBlank c = true ∨ c = '=' := by
    intro c first
    cases back with
    | nil => exact .inr (Option.some.inj first).symm
    | cons d back =>
        obtain rfl := Option.some.inj first
        rw [Text.isBlankText_cons, Bool.and_eq_true] at blankBack
        exact .inl blankBack.1
  have stops : Stops (back ++ '=' :: behind) := by
    intro c first
    rcases head c first with blank | rfl
    · simp [Lexer.isNameChar, blank]
    · decide
  have noAngle : (back ++ '=' :: behind).head? ≠ some '<' := by
    intro first
    rcases head '<' first with blank | same
    · revert blank
      decide
    · revert same
      decide
  obtain ⟨read, us, rfl, others | ⟨more, rfl⟩⟩ := Lexer.reads_bareName bare stops noAngle inner
  · rw [Lexer.reads_blanks blankBack] at others
    obtain ⟨vs, rfl, -⟩ := (Lexer.reads_mark equal _).1 others
    exact derived.unmarked isType (.inl rfl)
  · exact derived.unmarked isType (.inr rfl)

theorem optionalName?_mark (isType : Phrase.IsType type) {mark : Char} (punctuated : mark ∈ Lexer.punctuation)
    (differs : mark ≠ '=' ∧ mark ≠ ']') (reads : Reads source kinds) (derived : Phrase.Trailed type kinds us node)
    (k : Text) : optionalName? (source ++ mark :: k) = none := by
  have each : (Lexer.punctuation.all fun p => !Text.isBlank p) = true := by decide
  have visibleMark : Text.isBlank mark = false := by simpa using List.all_eq_true.1 each mark punctuated
  rw [Option.eq_none_iff_forall_ne_some]
  intro found same
  obtain ⟨inner, shape, bare, -⟩ := optionalName?_eq_some_iff.1 same
  obtain ⟨kind, more, rfl, begins⟩ := derived.begins
  obtain ⟨place, after, read⟩ := Lexer.exists_next_of_reads reads
  have inside : kind ≠ .eof := by
    rintro rfl
    cases begins
  obtain ⟨c, rest, trimmed, visible, -⟩ := Lexer.token_of_next read inside
  obtain ⟨blanks, blank, whole⟩ := Text.exists_blank_append_trimStart source
  rw [trimmed] at whole
  subst whole
  rw [Lexer.reads_blanks blank] at reads
  have filled : Text.isBlankText (mark :: k) = false := by
    rw [Text.isBlankText_cons, visibleMark, Bool.false_and]
  rw [List.append_assoc, Text.trim_blank_append blank, List.cons_append, Text.trim,
    Text.trimStart_of_visible visible, Text.trimEnd_cons_of_visible visible, Text.trimEnd_append filled,
    Text.trimEnd_cons_of_visible visibleMark] at shape
  obtain ⟨rfl, tail⟩ := List.cons.inj shape
  obtain ⟨behind, rfl⟩ : ∃ behind, inner = rest ++ mark :: behind := by
    rcases List.eq_nil_or_concat (Text.trimEnd k) with none | ⟨behind, last, some⟩
    · rw [none] at tail
      exact absurd (List.cons.inj (List.append_inj_right' tail rfl)).1 differs.2
    · rw [some, List.concat_eq_append, ← List.cons_append, ← List.append_assoc] at tail
      exact ⟨behind, (List.append_inj_left' tail rfl).symm⟩
  by_cases marked : '=' ∈ rest
  · obtain ⟨before, later, rfl, outside⟩ := List.eq_append_cons_of_mem marked
    have named : bracketName (before ++ '=' :: later ++ mark :: behind) = Text.trim before := by
      rw [bracketName, List.append_assoc, takeWhile_of_not_mem outside]
      simp
    rw [named, not_isBareName_of_trailed isType reads derived] at bare
    cases bare
  · have unlabelled : Unlabelled (rest ++ mark :: behind) := .mark punctuated differs.1 marked behind
    rw [unlabelled] at bare
    cases bare

theorem optionalName?_brackets (isType : Phrase.IsType type) (reads : Reads source kinds)
    (derived : Phrase.Trailed type kinds us node) : optionalName? (source ++ ['[', ']']) = none :=
  optionalName?_mark isType (by decide) (by decide) reads derived [']']

theorem parseType_of_reads (unnamed : optionalName? source = none) (reads : Reads source kinds)
    (derived : Phrase.Trailed (Phrase.Expression (maxDepth - 1)) kinds [.eof] node) :
    parseType source = .ok node :=
  (parseType_eq_ok_iff unnamed).2 (ReadsAs.iff_top.2
    ⟨kinds, reads, .plain (.plain (.single (.plain (.trailed derived))))⟩)

theorem parseType_angles {front : Text} {opener : Token.Kind} {ts : List Token.Kind}
    (opens : Opens '[' (front ++ source ++ ['>'])) (angle : opener = .less ∨ opener = .dotLess)
    (lexed : ∀ {s us}, Reads s us → Reads (front ++ s) (.name "Array".toList :: opener :: us))
    (reads : Reads source (ts ++ [.eof]))
    (carried : ∀ {vs}, Phrase.NoCall vs → Phrase.Expression (maxDepth - 1) (ts ++ vs) vs node) :
    parseType (front ++ source ++ ['>']) = .ok (.application (.name "Array".toList) [node]) := by
  have stops : Stops ['>'] := .cons (by decide) []
  have closed : Reads (source ++ ['>']) (ts ++ [.greater, .eof]) := by
    refine (Lexer.reads_append reads stops (by simp)).2 ⟨[.greater, .eof], rfl, ?_⟩
    exact (Lexer.reads_mark rfl []).2 ⟨[.eof], rfl, .last rfl rfl⟩
  have whole := lexed closed
  rw [← List.append_assoc] at whole
  apply parseType_of_reads (optionalName?_of_opens opens) whole
  refine .basic (.application rfl angle (.last (.single (carried ?_))))
  exact .cons (by decide) _

/-- The whole source is read as a type without a mark in front of it, with room for so many types in it. -/
def ReadsUnmarked (source : Text) (room : Nat) (node : Node) : Prop :=
  ∃ session left, Session.start source = .ok session ∧ left.token.kind = .eof ∧
    Yields (Grammar.postfixed (Parser.typeExpression (session.ahead.length + 2) room) (session.ahead.length + 2))
      session node left

theorem ReadsUnmarked.iff_trailed {room : Nat} (closed : node.hasResult = false) :
    ReadsUnmarked source room node ↔
      ∃ kinds, Reads source kinds ∧ Phrase.Trailed (Phrase.Expression room) kinds [.eof] node := by
  constructor
  · rintro ⟨session, left, started, atEnd, run⟩
    obtain ⟨sound, settles⟩ := Parser.typeExpression_sound (session.ahead.length + 2) room
    obtain ⟨-, derives⟩ := Grammar.postfixed_sound sound settles run session.left_le
    obtain ⟨kinds, stands, derived⟩ := derives (.last atEnd)
    exact ⟨kinds, (ReadsAs.at_of_start started).1 stands, (Phrase.Postfixed.trailed_iff closed).1 derived⟩
  · rintro ⟨kinds, reads, derived⟩
    obtain ⟨session, started⟩ := ReadsAs.start_of_reads reads
    obtain ⟨left, run, reaches⟩ := Grammar.postfixed_complete (Parser.typeExpression_complete _ room)
      (Phrase.Expression.isType room) ((ReadsAs.at_of_start started).2 reads) session.left_le
      (.trailed derived) rfl
    exact ⟨session, left, started, reaches.stands.head, run⟩

/-- A type with brackets behind it reads as the type of its lists, and so does the type in angles behind
`Array`, with a point in front of them or without. The type carries no mark in front and none of a parameter, is no
union and no function with a result, and it has at most 127 types nested in one another, itself included. -/
theorem array_sugar_is_application (unmarked : ReadsUnmarked source 126 node)
    (closed : node.hasResult = false) : ReadsAs source node ∧
      parseType (source ++ "[]".toList) = .ok (.application (.name "Array".toList) [node]) ∧
      parseType ("Array<".toList ++ source ++ ">".toList) = .ok (.application (.name "Array".toList) [node]) ∧
      parseType ("Array.<".toList ++ source ++ ">".toList) =
        .ok (.application (.name "Array".toList) [node]) := by
  obtain ⟨kinds, reads, unprefixed⟩ := (ReadsUnmarked.iff_trailed closed).1 unmarked
  obtain ⟨front, rfl, carried⟩ :=
    Phrase.Trailed.carries (Phrase.Expression.carries (Nat.le_succ 126)) unprefixed
  have nested : ∀ {vs}, Phrase.NoCall vs → Phrase.Expression 127 (front ++ vs) vs node := by
    obtain ⟨front', same, carried'⟩ := Phrase.Prefixed.carries
      (Phrase.Expression.carries (Nat.le_refl 126)) (.plain (.trailed unprefixed))
    obtain rfl := List.append_cancel_right same
    exact carried'
  refine ⟨?_, ?_, ?_, ?_⟩
  · have derived := carried (.cons (by decide : Token.Kind.eof ≠ .leftParen) [])
    exact ReadsAs.iff_top.2 ⟨_, reads, .plain (.plain (.single (.plain (.trailed derived))))⟩
  · have unnamed := optionalName?_brackets (Phrase.Expression.isType 126) reads unprefixed
    have stops : Stops ['[', ']'] := .cons (by decide) [']']
    have closed : Reads (source ++ ['[', ']']) (front ++ [.leftBracket, .rightBracket, .eof]) := by
      refine (Lexer.reads_append reads stops (by simp)).2 ⟨[.leftBracket, .rightBracket, .eof], rfl, ?_⟩
      refine (Lexer.reads_mark rfl [']']).2 ⟨[.rightBracket, .eof], rfl, ?_⟩
      exact (Lexer.reads_mark rfl []).2 ⟨[.eof], rfl, .last rfl rfl⟩
    exact parseType_of_reads unnamed closed (.brackets (carried (.cons (by decide) _)))
  · refine parseType_angles ⟨'A', _, rfl, by decide, by decide⟩ (.inl rfl) ?_ reads nested
    intro s us others
    have name : Lexer.token 'A' ("rray<".toList ++ s) = (.ok (.name "Array".toList), '<' :: s) := rfl
    have angle : Lexer.token '<' s = (.ok .less, s) := rfl
    exact .more (Lexer.next_of_token (by decide) name) (by simp)
      (.more (Lexer.next_of_token (by decide) angle) (by simp) others)
  · refine parseType_angles ⟨'A', _, rfl, by decide, by decide⟩ (.inr rfl) ?_ reads nested
    intro s us others
    have name : Lexer.token 'A' ("rray.<".toList ++ s) = (.ok (.name "Array".toList), '.' :: '<' :: s) := rfl
    have angle : Lexer.token '.' ('<' :: s) = (.ok .dotLess, s) := rfl
    exact .more (Lexer.next_of_token (by decide) name) (by simp)
      (.more (Lexer.next_of_token (by decide) angle) (by simp) others)

theorem rest_list_sugar_is_application :
    ∃ node, ReadsUnmarked "[a, ...b.c]".toList 126 node ∧ node.hasResult = false ∧
      node = .array [.name "a".toList, .rest (.name "b.c".toList)] ∧ ReadsAs "[a, ...b.c]".toList node ∧
      parseType ("[a, ...b.c]".toList ++ "[]".toList) = .ok (.application (.name "Array".toList) [node]) := by
  let kinds : List Token.Kind :=
    [.leftBracket, .name "a".toList, .comma, .ellipsis, .name "b.c".toList, .rightBracket, .eof]
  have lexed : (Lexer.tokens "[a, ...b.c]".toList).map (·.map Token.kind) = kinds.map .ok := rfl
  have word : ∀ {name : Text} {kind : Token.Kind} {ts : List Token.Kind}, Grammar.literal? name = none →
      kind ≠ .leftParen → Phrase.Expression 126 (.name name :: kind :: ts) (kind :: ts) (.name name) :=
    fun free other => .plain (.trailed (.basic (.name free fun _ => Phrase.NoCall.cons other _)))
  have elements : Phrase.Elements (Phrase.Expression 126)
      [.name "a".toList, .comma, .ellipsis, .name "b.c".toList, .rightBracket, .eof] [.rightBracket, .eof]
      ([.name "a".toList] ++ [.rest (.name "b.c".toList)]) :=
    .rest (.more (word rfl (by simp)) .none) (word rfl (by simp)) .absent
  have derived : Phrase.Trailed (Phrase.Expression 126) kinds [.eof]
      (.array [.name "a".toList, .rest (.name "b.c".toList)]) := .basic (.array elements)
  have unmarked := (ReadsUnmarked.iff_trailed rfl).2 ⟨kinds, Lexer.tokens_eq_iff.1 lexed, derived⟩
  obtain ⟨reads, brackets, -, -⟩ := array_sugar_is_application unmarked rfl
  exact ⟨_, unmarked, rfl, rfl, reads, brackets⟩

end Sugar

end Docblock.TypeExpr
