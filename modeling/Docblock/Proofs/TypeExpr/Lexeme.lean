import Docblock.Proofs.Text.Braces
import Docblock.Proofs.TypeExpr.NumberShape
import Docblock.Proofs.TypeExpr.StringShape

/-!
# What a token takes up

A token that is read takes its lexeme off the beginning of the text: `next_ok`. The braces of a lexeme are
those that the token is, but for strings and for names between backticks, which may hold any others.
-/

set_option autoImplicit false

namespace Docblock.TypeExpr

def Token.Kind.braces : Token.Kind → Text
  | .leftBrace => ['{']
  | .rightBrace => ['}']
  | _ => []

theorem Token.Kind.braces_of_ofChar? {c : Char} {kind : Token.Kind}
    (single : Token.Kind.ofChar? c = some kind) : Text.braces [c] = kind.braces := by
  unfold Token.Kind.ofChar? at single
  split at single <;> cases single <;> rfl

namespace Lexer

theorem spanName_append (s : Text) : (spanName s).1 ++ (spanName s).2 = s := by
  induction s with
  | nil => rfl
  | cons c rest induction =>
      simp only [spanName]
      split
      · rfl
      · simp [induction]

theorem braces_of_isNameChar {text : Text} (each : ∀ c ∈ text, isNameChar c = true) :
    Text.braces text = [] := by
  have outside : ∀ {c : Char}, isNameChar c = false → c ∉ text := by
    intro c other inside
    rw [each c inside] at other
    cases other
  exact Text.braces_eq_nil_iff.2 ⟨outside (by decide), outside (by decide)⟩

section Spans

variable {c : Char} {s rest : Text}

theorem nameEnds_cons : nameEnds (c :: rest) = true ↔
    (c = '.' ∧ rest.head? = some '<') ∨ (c = '.' ∧ ∃ more, rest = '.' :: '.' :: more) ∨
      isNameChar c = false := by
  unfold nameEnds
  split
  · next same =>
      obtain ⟨rfl, rfl⟩ := List.cons.inj same
      simp
  · next same =>
      obtain ⟨rfl, rfl⟩ := List.cons.inj same
      simp
  · next noAngle noDots same =>
      obtain ⟨rfl, rfl⟩ := List.cons.inj same
      rw [Bool.not_eq_true']
      refine ⟨fun ends => .inr (.inr ends), ?_⟩
      rintro (⟨rfl, angle⟩ | ⟨rfl, more, rfl⟩ | ends)
      · cases rest with
        | nil => cases angle
        | cons d more =>
            cases angle
            exact (noAngle more rfl rfl).elim
      · exact (noDots more rfl rfl).elim
      · exact ends
  · next same => cases same

theorem isNameChar_of_goesOn (goesOn : nameEnds (c :: rest) = false) : isNameChar c = true := by
  cases named : isNameChar c with
  | true => rfl
  | false =>
      rw [nameEnds_cons.2 (.inr (.inr named))] at goesOn
      cases goesOn

theorem isNameChar_of_mem_spanName {s : Text} (inside : c ∈ (spanName s).1) : isNameChar c = true := by
  induction s with
  | nil => cases inside
  | cons d rest induction =>
      cases goesOn : nameEnds (d :: rest) with
      | true => simp [spanName, goesOn] at inside
      | false =>
          simp only [spanName, goesOn, Bool.false_eq_true, if_false, List.mem_cons] at inside
          rcases inside with rfl | inside
          · exact isNameChar_of_goesOn goesOn
          · exact induction inside

end Spans

theorem read_nil : Numeral.read [] = none := by decide

theorem number_kind {start after : Text} {kind : Token.Kind} (run : number start = (.ok kind, after)) :
    ∃ value, kind = .number value := by
  obtain ⟨raw, -, -, value, -, same⟩ := number_ok run
  exact ⟨value, same⟩

theorem quotedName_kind {start rest after : Text} {kind : Token.Kind}
    (run : quotedName start rest = (.ok kind, after)) : ∃ name, kind = .name name := by
  simp only [quotedName] at run
  split at run
  · simp at run
  · split at run
    · simp at run
    · simp only [Prod.mk.injEq, Except.ok.injEq] at run
      exact ⟨_, run.1.symm⟩

theorem isNameChar_of_ofChar? {c : Char} (single : Token.Kind.ofChar? c = none)
    (notBlank : Text.isBlank c = false) (notQuote : ¬ (c = '\'' ∨ c = '"')) (notTick : c ≠ '`') :
    isNameChar c = true := by
  simp only [isNameChar, notBlank, Bool.not_false, Bool.true_and, Bool.not_eq_true',
    List.contains_eq_mem, decide_eq_false_iff_not]
  intro member
  simp only [punctuation, List.mem_cons, List.not_mem_nil, or_false] at member
  rcases member with rfl | rfl | rfl | rfl | rfl | rfl | rfl | rfl | rfl | rfl | rfl | rfl | rfl |
    rfl | rfl | rfl | rfl | rfl <;> simp_all [Token.Kind.ofChar?]

theorem numberFollows_cons (c : Char) (rest : Text) :
    numberFollows (c :: rest) = if c = '.' then StringLiteral.beginsWithDigit rest else c.isDigit := by
  split
  · next dot =>
      rw [dot]
      rfl
  · next dot =>
      rw [numberFollows.eq_2]
      · rfl
      · rintro more same
        exact dot (List.cons.inj same).1

def beginsNumber (c : Char) (rest : Text) : Bool :=
  c.isDigit || ((c == '-' || c == '+') && numberFollows rest) ||
    (c == '.' && StringLiteral.beginsWithDigit rest)

def beginsName (c : Char) (rest : Text) : Bool :=
  (Token.Kind.ofChar? c).isNone && c != '.' && c != '\'' && c != '"' && c != '`' &&
    !(c.isDigit || ((c == '-' || c == '+') && numberFollows rest))

/-- The character begins a token of this kind, behind which a text remains. -/
inductive Scans : Char → Text → Token.Kind → Text → Prop where
  | mark {c : Char} {rest : Text} {kind : Token.Kind} (single : Token.Kind.ofChar? c = some kind) :
      Scans c rest kind rest
  | ellipsis {after : Text} : Scans '.' ('.' :: '.' :: after) .ellipsis after
  | dotLess {after : Text} : Scans '.' ('<' :: after) .dotLess after
  | number {c : Char} {rest after : Text} {kind : Token.Kind} (begins : beginsNumber c rest = true)
      (run : number (c :: rest) = (.ok kind, after)) : Scans c rest kind after
  | string {c : Char} {rest after value : Text} (quote : c = '\'' ∨ c = '"')
      (run : StringLiteral.body c (c :: rest) rest = (.ok value, after)) : Scans c rest (.string value) after
  | quotedName {rest after name : Text} (run : quotedName ('`' :: rest) rest = (.ok (.name name), after)) :
      Scans '`' rest (.name name) after
  | name {c : Char} {rest after name : Text} (begins : beginsName c rest = true)
      (span : spanName (c :: rest) = (name, after)) : Scans c rest (.name name) after

section Scans

variable {c : Char} {rest after : Text} {kind : Token.Kind}

theorem scans_of_token (run : token c rest = (.ok kind, after)) : Scans c rest kind after := by
  simp only [token] at run
  split at run
  · next single =>
      cases run
      exact .mark single
  next single =>
  split at run
  · next dot =>
      subst dot
      split at run
      · cases run
        exact .ellipsis
      · cases run
        exact .dotLess
      · split at run
        · next digit => exact .number (by simp [beginsNumber, digit]) run
        · cases run
  next notDot =>
  split at run
  · next quote =>
      rcases read : StringLiteral.body c (c :: rest) rest with ⟨_ | value, behind⟩
      · simp [read, Except.map] at run
      · simp only [read, Except.map, Prod.mk.injEq, Except.ok.injEq] at run
        obtain ⟨rfl, rfl⟩ := run
        exact .string quote read
  next notQuote =>
  split at run
  · next tick =>
      subst tick
      obtain ⟨name, rfl⟩ := quotedName_kind run
      exact .quotedName run
  next notTick =>
  split at run
  · next begins => exact .number (by simp only [beginsNumber, begins, Bool.true_or]) run
  · next noNumber =>
      simp only [Prod.mk.injEq, Except.ok.injEq] at run
      obtain ⟨rfl, rfl⟩ := run
      refine .name ?_ rfl
      simp only [not_or] at notQuote
      simp only [Bool.not_eq_true] at noNumber
      simp only [beginsName, single, Option.isNone_none, noNumber, Bool.not_false, Bool.and_true,
        Bool.true_and, Bool.and_eq_true, bne_iff_ne, ne_eq]
      exact ⟨⟨⟨notDot, notQuote.1⟩, notQuote.2⟩, notTick⟩

theorem isNameChar_of_beginsNumber (begins : beginsNumber c rest = true) : isNameChar c = true := by
  simp only [beginsNumber, Bool.or_eq_true, Bool.and_eq_true, beq_iff_eq] at begins
  rcases begins with (digit | ⟨rfl | rfl, -⟩) | ⟨rfl, -⟩
  · rw [← Decimal.isDigitOf_ten] at digit
    exact isNameChar_of_isDigitOf digit
  · decide
  · decide
  · decide

theorem token_of_beginsNumber (begins : beginsNumber c rest = true) :
    token c rest = number (c :: rest) := by
  have named := isNameChar_of_beginsNumber begins
  have differ : ∀ d, isNameChar d = false → c ≠ d := by
    rintro d other rfl
    rw [named] at other
    cases other
  have single : Token.Kind.ofChar? c = none := by
    unfold Token.Kind.ofChar?
    split <;> first | rfl | exact absurd named (by decide)
  have quotes : ¬ (c = '\'' ∨ c = '"') := not_or.2 ⟨differ _ (by decide), differ _ (by decide)⟩
  have tick : c ≠ '`' := differ _ (by decide)
  by_cases dot : c = '.'
  · subst dot
    have digit : StringLiteral.beginsWithDigit rest = true := by simpa [beginsNumber] using begins
    simp only [token, single, if_true]
    split
    · cases digit
    · cases digit
    · rw [if_pos digit]
  · have plain : (c.isDigit || ((c == '-' || c == '+') && numberFollows rest)) = true := by
      simpa [beginsNumber, dot] using begins
    simp only [token, single, dot, quotes, tick, if_false, plain, if_true]

theorem token_of_beginsName (begins : beginsName c rest = true) :
    token c rest = (.ok (.name (spanName (c :: rest)).1), (spanName (c :: rest)).2) := by
  simp only [beginsName, Bool.and_eq_true, Option.isNone_iff_eq_none, bne_iff_ne, ne_eq,
    Bool.not_eq_true'] at begins
  obtain ⟨⟨⟨⟨⟨single, dot⟩, quote⟩, double⟩, tick⟩, number⟩ := begins
  simp [token, single, dot, quote, double, tick, number]

theorem token_of_scans (scans : Scans c rest kind after) : token c rest = (.ok kind, after) := by
  cases scans with
  | mark single => simp [token, single]
  | ellipsis => rfl
  | dotLess => rfl
  | number begins run => rw [token_of_beginsNumber begins, run]
  | string quote run => rcases quote with rfl | rfl <;> simp [token, Token.Kind.ofChar?, run, Except.map]
  | quotedName run => simp [token, Token.Kind.ofChar?, run]
  | name begins span => rw [token_of_beginsName begins, span]

theorem ofChar?_of_beginsName (begins : beginsName c rest = true) : Token.Kind.ofChar? c = none := by
  simp only [beginsName, Bool.and_eq_true, Option.isNone_iff_eq_none] at begins
  exact begins.1.1.1.1.1

theorem goesOn_of_beginsName (begins : beginsName c rest = true) (visible : Text.isBlank c = false) :
    nameEnds (c :: rest) = false := by
  simp only [beginsName, Bool.and_eq_true, Option.isNone_iff_eq_none, bne_iff_ne, ne_eq,
    Bool.not_eq_true'] at begins
  obtain ⟨⟨⟨⟨⟨single, dot⟩, quote⟩, double⟩, tick⟩, -⟩ := begins
  have named := isNameChar_of_ofChar? single visible (not_or.2 ⟨quote, double⟩) tick
  rw [← Bool.not_eq_true, nameEnds_cons]
  simp [dot, named]

end Scans

def isQuoted (lexeme : Text) : Bool :=
  lexeme.head?.any fun c => c == '\'' || c == '"' || c == '`'

/-- A token of this kind can take up this text. -/
structure IsLexeme (kind : Token.Kind) (lexeme : Text) : Prop where
  filled : lexeme ≠ []
  inside : kind ≠ .eof
  /-- The braces of the text are those that the token is, unless it stands in quotes and is none. -/
  braces : isQuoted lexeme = true ∧ kind.braces = [] ∨ Text.braces lexeme = kind.braces

theorem number_lexeme {start after : Text} {kind : Token.Kind} (run : number start = (.ok kind, after)) :
    ∃ raw, start = raw ++ after ∧ IsLexeme kind raw := by
  obtain ⟨raw, whole, spelled, value, found, rfl⟩ := number_ok run
  have named : ∀ c ∈ raw, isNameChar c = true := fun c inside =>
    isNameChar_of_mem_numeralChars (spelled.mem_numeralChars inside)
  refine ⟨raw, whole, ?_, by simp, .inr (braces_of_isNameChar named)⟩
  rintro rfl
  simp [read_nil] at found

theorem quotedName_suffix {start rest after : Text} {kind : Token.Kind}
    (run : quotedName start rest = (.ok kind, after)) : after <:+ rest := by
  simp only [quotedName] at run
  split at run
  · simp at run
  · next inner behind found =>
      split at run
      · simp at run
      · simp only [Prod.mk.injEq] at run
        obtain ⟨-, rfl⟩ := run
        rw [Text.splitOnce_eq_some found]
        exact (List.suffix_cons _ _).trans (List.suffix_append inner _)

theorem isLexeme_quoted {c : Char} (quote : c = '\'' ∨ c = '"' ∨ c = '`') {kind : Token.Kind}
    (inside : kind ≠ .eof) (plain : kind.braces = []) (taken : Text) : IsLexeme kind (c :: taken) := by
  refine ⟨by simp, inside, .inl ⟨?_, plain⟩⟩
  rcases quote with rfl | rfl | rfl <;> rfl

theorem token_ok {c : Char} {rest after : Text} {kind : Token.Kind}
    (notBlank : Text.isBlank c = false) (run : token c rest = (.ok kind, after)) :
    ∃ lexeme, c :: rest = lexeme ++ after ∧ IsLexeme kind lexeme := by
  cases scans_of_token run with
  | mark single =>
      refine ⟨[c], rfl, by simp, ?_, .inr (Token.Kind.braces_of_ofChar? single)⟩
      rintro rfl
      unfold Token.Kind.ofChar? at single
      split at single <;> cases single
  | ellipsis => exact ⟨['.', '.', '.'], rfl, by simp, by simp, .inr rfl⟩
  | dotLess => exact ⟨['.', '<'], rfl, by simp, by simp, .inr rfl⟩
  | number begins read => exact number_lexeme read
  | string quote read =>
      obtain ⟨taken, whole⟩ := StringLiteral.body_suffix c (c :: rest) rest
      rw [read] at whole
      exact ⟨c :: taken, by rw [List.cons_append, whole],
        isLexeme_quoted (quote.imp_right .inl) (by simp) rfl taken⟩
  | quotedName read =>
      obtain ⟨taken, whole⟩ := quotedName_suffix read
      exact ⟨'`' :: taken, by rw [List.cons_append, whole],
        isLexeme_quoted (.inr (.inr rfl)) (by simp) rfl taken⟩
  | name begins span =>
      have goesOn := goesOn_of_beginsName begins notBlank
      have whole := spanName_append (c :: rest)
      rw [span] at whole
      refine ⟨_, whole.symm, ?_, by simp, .inr ?_⟩
      · rintro rfl
        simp [spanName, goesOn] at span
      · refine braces_of_isNameChar fun d inside => isNameChar_of_mem_spanName (s := c :: rest) ?_
        rwa [span]

/-- Reading comes to the end of input behind blanks alone. Any other token takes its lexeme off, and this
begins at the place of the token. -/
theorem next_ok {s after : Text} {found : Token} (run : next s = (.ok found, after)) :
    (found.kind = .eof ∧ Text.isBlankText s = true) ∨
      ∃ blanks lexeme, s = blanks ++ found.place ∧ Text.isBlankText blanks = true ∧
        found.place = lexeme ++ after ∧ IsLexeme found.kind lexeme := by
  obtain ⟨blanks, blank, whole⟩ := Text.exists_blank_append_trimStart s
  unfold next at run
  split at run
  · next nothing =>
      simp only [Prod.mk.injEq, Except.ok.injEq] at run
      exact .inl ⟨congrArg Token.kind run.1.symm, Text.trimStart_eq_nil_iff.1 nothing⟩
  · next c rest equal =>
      have notBlank : Text.isBlank c = false := by
        have head := List.head?_dropWhile_not Text.isBlank s
        simp only [Text.trimStart] at equal
        rw [equal] at head
        simpa using head
      rcases read : token c rest with ⟨_ | kind, behind⟩
      · simp [read, Except.map] at run
      · simp only [read, Except.map, Prod.mk.injEq, Except.ok.injEq] at run
        obtain ⟨rfl, rfl⟩ := run
        obtain ⟨lexeme, shape, lexical⟩ := token_ok notBlank read
        exact .inr ⟨blanks, lexeme, by rw [← equal, ← whole], blank, shape, lexical⟩

theorem next_length {s after : Text} {found : Token} (run : next s = (.ok found, after))
    (inside : found.kind ≠ .eof) : after.length < s.length := by
  rcases next_ok run with ⟨atEnd, -⟩ | ⟨blanks, lexeme, whole, -, shape, lexical⟩
  · exact absurd atEnd inside
  · have filled := List.length_pos_iff.2 lexical.filled
    rw [whole, shape, List.length_append, List.length_append]
    omega

end Lexer

end Docblock.TypeExpr
