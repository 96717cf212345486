import Docblock.Proofs.TypeExpr.Acceptance
import Docblock.Proofs.TypeExpr.Faults
import Docblock.Proofs.TypeExpr.Tame
import Mathlib.Data.List.Induction

/-!
# Where errors are

A session that stands somewhere has read the tokens in front of it, and has open what these leave open. A
fault is reported at the current token, at the innermost delimiter that is open when the source ends, or
where the lexer stops.
-/

set_option autoImplicit false

namespace Docblock.TypeExpr

def Token.leaves (token : Token) (opened : List Opened) : List Opened :=
  match token.kind.opens? with
  | some delimiter => ⟨delimiter, token.place⟩ :: opened
  | none =>
      if opened.head?.any (token.kind == ·.delimiter.closing) then opened.tail else opened

/-- What these tokens open and do not close, the innermost first. -/
def unclosed (read : List Token) : List Opened :=
  read.foldl (fun opened token => token.leaves opened) []

section Unclosed

variable {token : Token} {read : List Token} {opened : List Opened} {d : Delimiter}

theorem leaves_of_opens (opens : token.kind.opens? = some d) :
    token.leaves opened = ⟨d, token.place⟩ :: opened := by
  simp [Token.leaves, opens]

theorem leaves_of_closes {innermost : Opened} (closes : token.kind = innermost.delimiter.closing) :
    token.leaves (innermost :: opened) = opened := by
  have opens : token.kind.opens? = none := by
    rw [closes]
    cases innermost.delimiter <;> rfl
  simp only [Token.leaves, opens]
  simp [closes]

theorem leaves_of_plain (plain : token.kind.isPlain = true) : token.leaves opened = opened := by
  have opens : token.kind.opens? = none := by
    revert plain
    cases token.kind <;> simp [Token.Kind.isPlain, Token.Kind.opens?]
  have differ : ∀ d : Delimiter, token.kind ≠ d.closing := by
    rintro d same
    rw [same] at plain
    cases d <;> cases plain
  cases opened with
  | nil => simp [Token.leaves, opens]
  | cons innermost opened => simp [Token.leaves, opens, differ]

theorem unclosed_snoc (read : List Token) (token : Token) :
    unclosed (read ++ [token]) = token.leaves (unclosed read) := by
  simp [unclosed]

theorem mem_leaves {opening : Opened} (among : opening ∈ token.leaves opened) :
    opening ∈ opened ∨ token.kind.opens? = some opening.delimiter ∧ token.place = opening.place := by
  rw [Token.leaves] at among
  split at among
  · next d opens =>
      rcases List.mem_cons.1 among with rfl | among
      · exact .inr ⟨opens, rfl⟩
      · exact .inl among
  · split at among
    · exact .inl (List.mem_of_mem_tail among)
    · exact .inl among

theorem opens_of_mem_unclosed {opening : Opened} (among : opening ∈ unclosed read) :
    ∃ token ∈ read, token.kind.opens? = some opening.delimiter ∧ token.place = opening.place := by
  induction read using List.reverseRecOn with
  | nil => cases among
  | append_singleton read token induction =>
      rw [unclosed_snoc] at among
      rcases mem_leaves among with among | opens
      · obtain ⟨found, inside, opens⟩ := induction among
        exact ⟨found, List.mem_append_left _ inside, opens⟩
      · exact ⟨token, List.mem_append_right _ (List.mem_singleton_self _), opens⟩

end Unclosed

theorem Token.Kind.ne_eof_of_opens {kind : Token.Kind} {d : Delimiter} (opens : kind.opens? = some d) :
    kind ≠ .eof := by
  rintro rfl
  cases opens

theorem Token.Kind.ne_eof_of_isPlain {kind : Token.Kind} (plain : kind.isPlain = true) : kind ≠ .eof := by
  rintro rfl
  cases plain

theorem Delimiter.closing_ne_eof (d : Delimiter) : d.closing ≠ .eof := by
  cases d <;> simp [Delimiter.closing]

theorem spelled_of_opens {s after : Text} {token : Token} {d : Delimiter}
    (read : Lexer.next s = (.ok token, after)) (opens : token.kind.opens? = some d) :
    token.place.head? = some d.symbol ∨ d = .angle ∧ ".<".toList <+: token.place := by
  obtain ⟨kind, place⟩ := token
  obtain ⟨c, rest, trimmed, -, lexed⟩ := Lexer.token_of_next read (Token.Kind.ne_eof_of_opens opens)
  obtain rfl : place = c :: rest := by
    simp only [Lexer.next, trimmed, lexed, Except.map, Prod.mk.injEq, Except.ok.injEq, Token.mk.injEq] at read
    exact read.1.2.symm
  cases Lexer.scans_of_token lexed with
  | mark single =>
      left
      unfold Token.Kind.ofChar? at single
      split at single <;> cases single <;> cases opens <;> rfl
  | dotLess =>
      cases opens
      exact .inr ⟨rfl, List.prefix_append ['.', '<'] after⟩
  | number _ run =>
      obtain ⟨value, rfl⟩ := Lexer.number_kind run
      cases opens
  | ellipsis => cases opens
  | string => cases opens
  | quotedName => cases opens
  | name => cases opens

/-! ## What sessions of a source keep to -/

def StandsIn (source : Text) (token : Token) (ahead : Text) (opened : List Opened) : Prop :=
  ∃ read place, Lexer.Passes source read place ∧ Lexer.next place = (.ok token, ahead) ∧ opened = unclosed read

/-- The fault can be reported where this token stands and this is open. -/
inductive Reported (source : Text) : Fault → Token → List Opened → Prop where
  | lexical {read : List Token} {place after : Text} {fault : Fault} {token : Token} {opened : List Opened}
      (passes : Lexer.Passes source read place) (failed : Lexer.next place = (.error fault, after)) :
      Reported source fault token opened
  | here {cause : Cause} {token : Token} {ahead : Text} {opened : List Opened}
      (stands : StandsIn source token ahead opened) (other : ∀ d, cause ≠ .unterminated d) :
      Reported source ⟨cause, token.place⟩ token opened
  | unclosed {token : Token} {ahead : Text} {innermost : Opened} {outer : List Opened}
      (stands : StandsIn source token ahead (innermost :: outer)) (atEnd : token.kind = .eof) :
      Reported source ⟨.unterminated innermost.delimiter, innermost.place⟩ token (innermost :: outer)

section Moves

variable {source ahead after : Text} {token next : Token} {opened : List Opened}

theorem StandsIn.move (stands : StandsIn source token ahead opened) (inside : token.kind ≠ .eof)
    (read : Lexer.next ahead = (.ok next, after)) : StandsIn source next after (token.leaves opened) := by
  obtain ⟨passed, place, passes, current, rfl⟩ := stands
  exact ⟨passed ++ [token], ahead, passes.snoc current inside, read, (unclosed_snoc passed token).symm⟩

theorem StandsIn.fails {left : Token} {opened' : List Opened} {fault : Fault}
    (stands : StandsIn source token ahead opened) (failed : Lexer.next ahead = (.error fault, after)) :
    Reported source fault left opened' := by
  obtain ⟨passed, place, passes, current, -⟩ := stands
  by_cases atEnd : token.kind = .eof
  · -- there is nothing behind the end that could fail
    obtain ⟨-, rfl, -⟩ := Lexer.place_of_last current atEnd
    cases failed
  · exact .lexical (passes.snoc current atEnd) failed

end Moves

/-- What the sessions of a source keep to. -/
def locating (source : Text) : Discipline where
  Stands := StandsIn source
  Reports := Reported source
  pass stands plain read := by
    have moved := stands.move (Token.Kind.ne_eof_of_isPlain plain) read
    rwa [leaves_of_plain plain] at moved
  opening stands opens read := by
    have moved := stands.move (Token.Kind.ne_eof_of_opens opens) read
    rwa [leaves_of_opens opens] at moved
  closing stands closes read := by
    have moved := stands.move (closes ▸ Delimiter.closing_ne_eof _) read
    rwa [leaves_of_closes closes] at moved
  brackets stands opens first second := by
    have moved := stands.move (opens ▸ by simp) first
    have opens' : Token.Kind.opens? _ = some .bracket := congrArg Token.Kind.opens? opens
    rw [leaves_of_opens opens'] at moved
    have again := moved.move (by simp) second
    rwa [leaves_of_closes (by rfl)] at again
  lexical stands failed := stands.fails failed
  lexicalBracket stands opens first failed := (stands.move (opens ▸ by simp) first).fails failed
  here stands other := .here stands other
  unclosed stands atEnd := .unclosed stands atEnd

theorem tame_whole {D : Discipline} : Parser.Tame D Parser.whole := by
  apply Parser.tame_parseTop.bind
  intro node
  have finishes : Parser.Tame D Parser.finish := by
    intro know
    apply Parser.obeys_current.bind
    intro found
    split
    · exact Parser.tame_pure _ _
    · exact Parser.tame_failHere (by simp) _
  exact finishes.bind fun _ => Parser.tame_pure _

/-! ## Messages -/

def Delimiter.complaint (d : Delimiter) : Text :=
  "unterminated `".toList ++ [d.symbol, '`']

def Cause.isExpectation (cause : Cause) : Prop :=
  "unexpected ".toList <+: cause.message ∨ "expected ".toList <+: cause.message

theorem message_eq_complaint {cause : Cause} {d : Delimiter} (same : cause.message = d.complaint) :
    cause = .unterminated d := by
  have third : ∀ {text : Text}, text = d.complaint → text[2]? = some 't' := by
    rintro text rfl
    rfl
  cases cause with
  | unterminated other =>
      have symbols : other.symbol = d.symbol := by
        have last : [other.symbol, '`'] = [d.symbol, '`'] := List.append_cancel_left same
        exact (List.cons.inj last).1
      cases other <;> cases d <;> first | rfl | cases symbols
  | unterminatedQuotedName => cases d <;> revert same <;> decide
  | unterminatedString => cases d <;> revert same <;> decide
  | _ => cases third same

theorem not_isExpectation {cause : Cause} (literal : cause.ofLiteral = true) : ¬ cause.isExpectation := by
  rintro (⟨more, same⟩ | ⟨more, same⟩)
  · have third := congrArg (fun text : Text => text[2]?) same
    cases cause <;> cases literal <;> cases third
  · have front := congrArg (List.take 3) same
    cases cause <;> cases literal <;> cases front

/-! ## Errors of a source -/

/-- The source ends where the delimiter that opens at this place is the innermost that is open. -/
structure EndsInside (source : Text) (d : Delimiter) (place : Text) : Prop where
  opens : place.head? = some d.symbol ∨ d = .angle ∧ ".<".toList <+: place
  consumed : ∃ session left, Session.start source = .ok session ∧
    Parser.whole.outcome session = (.error ⟨.unterminated d, place⟩, left) ∧ left.token.kind = .eof ∧
    ∃ read outer, Lexer.tokens source = read.map .ok ++ [.ok left.token] ∧
      unclosed read = ⟨d, place⟩ :: outer

/-- The place is that of a token, or of a lone point, or the end. -/
inductive PointsAt (source : Text) : Text → Prop where
  | token {token : Token} (read : .ok token ∈ Lexer.tokens source) (inside : token.kind ≠ .eof) :
      PointsAt source token.place
  | point {rest : Text} (read : .error ⟨.strayDot, '.' :: rest⟩ ∈ Lexer.tokens source) :
      PointsAt source ('.' :: rest)
  | atEnd {token : Token} (read : .ok token ∈ Lexer.tokens source) (last : token.kind = .eof) :
      PointsAt source []

/-- The error of a source is at a place in it. -/
structure Located (source : Text) (error : SyntaxError) (before place : Text) : Prop where
  whole : source = before ++ place
  offset : error.offset = Text.byteSize before
  within : error.offset ≤ Text.byteSize source
  fragment : error.fragment = place.take 24
  unterminated : ∀ d : Delimiter, error.cause.message = d.complaint → EndsInside source d place
  expectation : error.cause.isExpectation → PointsAt source place

section Located

variable {source ahead : Text} {token : Token} {opened : List Opened}

theorem StandsIn.tokens (stands : StandsIn source token ahead opened) :
    token.place <:+ source ∧ .ok token ∈ Lexer.tokens source := by
  obtain ⟨passed, place, passes, current, -⟩ := stands
  obtain ⟨others, shape⟩ := Lexer.tokens_eq_cons place
  rw [current] at shape
  constructor
  · by_cases atEnd : token.kind = .eof
    · obtain ⟨nothing, -⟩ := Lexer.place_of_last current atEnd
      exact nothing ▸ List.nil_suffix
    · exact (Lexer.suffix_of_next current atEnd).1.trans passes.suffix
  · rw [passes.tokens, shape]
    simp

theorem StandsIn.pointsAt (stands : StandsIn source token ahead opened) : PointsAt source token.place := by
  have read := stands.tokens.2
  by_cases atEnd : token.kind = .eof
  · obtain ⟨passed, place, -, current, -⟩ := stands
    obtain ⟨nothing, -⟩ := Lexer.place_of_last current atEnd
    rw [nothing]
    exact .atEnd read atEnd
  · exact .token read atEnd

theorem StandsIn.innermost {innermost : Opened} {outer : List Opened}
    (stands : StandsIn source token ahead (innermost :: outer)) : innermost.place <:+ source ∧
      (innermost.place.head? = some innermost.delimiter.symbol ∨
        innermost.delimiter = .angle ∧ ".<".toList <+: innermost.place) := by
  obtain ⟨passed, place, passes, -, shape⟩ := stands
  obtain ⟨found, among, opens, placed⟩ :=
    opens_of_mem_unclosed (shape ▸ List.mem_cons_self : innermost ∈ unclosed passed)
  obtain ⟨text, after, within, read, inside⟩ := passes.exists_next among
  rw [← placed]
  exact ⟨(Lexer.suffix_of_next read inside).1.trans within, spelled_of_opens read opens⟩

theorem StandsIn.consumed (stands : StandsIn source token ahead opened) (atEnd : token.kind = .eof) :
    ∃ read, Lexer.tokens source = read.map .ok ++ [.ok token] ∧ unclosed read = opened := by
  obtain ⟨passed, place, passes, current, shape⟩ := stands
  refine ⟨passed, ?_, shape.symm⟩
  rw [passes.tokens, Lexer.tokens_of_last current atEnd]

variable {fault : Fault}

theorem located_of_suffix (inside : fault.place <:+ source)
    (unterminated : ∀ d : Delimiter, fault.cause.message = d.complaint → EndsInside source d fault.place)
    (expectation : fault.cause.isExpectation → PointsAt source fault.place) :
    ∃ before, Located source (fault.tell source) before fault.place := by
  obtain ⟨before, whole⟩ := inside
  have offset : (fault.tell source).offset = Text.byteSize before := by
    rw [← whole]
    exact offsetIn_append before fault.place
  have within : (fault.tell source).offset ≤ Text.byteSize source := by
    rw [offset, ← whole, Text.byteSize_append]
    exact Nat.le_add_right _ _
  exact ⟨before, whole.symm, offset, within, rfl, unterminated, expectation⟩

theorem located_of_lexical {read : List Token} {text after : Text}
    (passes : Lexer.Passes source read text) (failed : Lexer.next text = (.error fault, after)) :
    ∃ before, Located source (fault.tell source) before fault.place := by
  have among : .error fault ∈ Lexer.tokens source := by
    obtain ⟨others, shape⟩ := Lexer.tokens_eq_cons text
    rw [passes.tokens, shape, failed]
    simp
  cases Lexer.blames_of_next failed with
  | point inside =>
      apply located_of_suffix (inside.trans passes.suffix)
      · intro d same
        cases message_eq_complaint same
      · intro _
        exact .point among
  | literal inside literal =>
      apply located_of_suffix (inside.trans passes.suffix)
      · intro d same
        rw [message_eq_complaint same] at literal
        cases literal
      · intro expects
        exact absurd expects (not_isExpectation literal)

/-- Whatever fault the session of a source reports is located. -/
theorem located_of_reported {session left : Session} (started : Session.start source = .ok session)
    (run : Parser.whole.outcome session = (.error fault, left))
    (reported : Reported source fault left.token left.opened) :
    ∃ before, Located source (fault.tell source) before fault.place := by
  generalize token : left.token = current at reported
  generalize left.opened = opened at reported
  cases reported with
  | lexical passes failed => exact located_of_lexical passes failed
  | here stands other =>
      apply located_of_suffix stands.tokens.1
      · intro d same
        exact absurd (message_eq_complaint same) (other d)
      · intro _
        exact stands.pointsAt
  | unclosed stands atEnd =>
      next innermost outer =>
      obtain ⟨inside, opens⟩ := stands.innermost
      obtain ⟨read, tokens, innermost'⟩ := stands.consumed atEnd
      apply located_of_suffix inside
      · intro d same
        obtain rfl : innermost.delimiter = d := by
          cases message_eq_complaint same
          rfl
        subst token
        exact ⟨opens, session, left, started, run, atEnd, read, outer, tokens, innermost'⟩
      · rintro (⟨more, same⟩ | ⟨more, same⟩)
        · have third := congrArg (fun text : Text => text[2]?) same
          cases third
        · have front := congrArg (List.take 3) same
          cases front

theorem next_of_start {session : Session} (started : Session.start source = .ok session) :
    Lexer.next source = (.ok session.token, session.ahead) ∧ session.opened = [] := by
  obtain ⟨token, after, read, rfl⟩ := Session.start_eq_ok_iff.1 started
  exact ⟨read, rfl⟩

theorem next_of_start_error (failed : Session.start source = .error fault) :
    ∃ after, Lexer.next source = (.error fault, after) := by
  rcases read : Lexer.next source with ⟨fault' | token, after⟩
  · rw [Session.start, read] at failed
    cases failed
    exact ⟨after, rfl⟩
  · rw [Session.start, read] at failed
    cases failed

/-- Every error is located: it tells a place of the source, in bytes, with the text found there. A delimiter
is unterminated if it is the innermost that is open where the source ends; what is not expected is a token,
a point, or the end. -/
theorem parseType_located {source : Text} {error : SyntaxError} (rejected : parseType source = .error error) :
    ∃ before place, Located source error before place := by
  unfold parseType at rejected
  split at rejected
  · cases rejected
  · split at rejected
    · next fault failed =>
        cases rejected
        obtain ⟨after, failed⟩ := next_of_start_error failed
        obtain ⟨before, located⟩ := located_of_lexical .nil failed
        exact ⟨before, _, located⟩
    · next session started =>
        rcases run : Parser.whole.outcome session with ⟨result, left⟩
        have told : (Parser.whole.run session).1 = result := congrArg Prod.fst run
        rw [told] at rejected
        cases result with
        | ok node => cases rejected
        | error fault =>
            cases rejected
            obtain ⟨read, opened⟩ := next_of_start started
            have stands : StandsIn source session.token session.ahead [] := ⟨[], source, .nil, read, rfl⟩
            have tame : Parser.Tame (locating source) Parser.whole := tame_whole
            have failure := (tame (fun _ => True) []).failure run opened stands trivial
            obtain ⟨before, located⟩ := located_of_reported started run failure.2.2
            exact ⟨before, _, located⟩

end Located

theorem unclosed_parenthesis_located :
    parseType "\x7ba: (b".toList = .error ⟨.unterminated .paren, 4, "(b".toList⟩ ∧
      ∃ before place, Located "\x7ba: (b".toList ⟨.unterminated .paren, 4, "(b".toList⟩ before place := by
  obtain ⟨error, rejected, same⟩ := exists_rejected_of_any "\x7ba: (b".toList
    (· == ⟨.unterminated .paren, 4, "(b".toList⟩) (by decide +kernel)
  obtain rfl := beq_iff_eq.1 same
  exact ⟨rejected, parseType_located rejected⟩

end Docblock.TypeExpr
