import Docblock.TypeExpr.Printer
import Docblock.Proofs.Text.Trim
import Docblock.Proofs.TypeExpr.Numeral
import Docblock.Proofs.TypeExpr.Quote

/-!
# Spellings of tokens

What each kind of token is written as is read as that token, whatever follows it; for a name, only
where no name goes on behind it. The statements are equivalences, since a text that is read back must
have been spelled this way.
-/

set_option autoImplicit false

namespace Docblock

theorem Text.splitOnce_eq_some_iff {mark : Char} {s before after : Text} :
    Text.splitOnce mark s = some (before, after) ↔ s = before ++ mark :: after ∧ mark ∉ before := by
  constructor
  · intro found
    refine ⟨Text.splitOnce_eq_some found, ?_⟩
    induction s generalizing before with
    | nil => cases found
    | cons c rest induction =>
        by_cases same : c = mark
        · simp only [Text.splitOnce, same, if_true, Option.some.injEq, Prod.mk.injEq] at found
          rw [← found.1]
          exact List.not_mem_nil
        · simp only [Text.splitOnce, same, if_false, Option.map_eq_some_iff] at found
          obtain ⟨⟨early, late⟩, found, equal⟩ := found
          obtain ⟨rfl, rfl⟩ := Prod.mk.inj equal
          exact List.not_mem_cons_of_ne_of_not_mem (Ne.symm same) (induction found)
  · rintro ⟨rfl, outside⟩
    induction before with
    | nil => simp [Text.splitOnce]
    | cons c before induction =>
        obtain ⟨differ, outside⟩ := List.ne_and_not_mem_of_not_mem_cons outside
        simp [Text.splitOnce, Ne.symm differ, induction outside]

namespace TypeExpr.Lexer

theorem next_of_token {c : Char} {rest after : Text} {kind : Token.Kind}
    (visible : Text.isBlank c = false) (read : token c rest = (.ok kind, after)) :
    next (c :: rest) = (.ok ⟨kind, c :: rest⟩, after) := by
  simp only [next, Text.trimStart_of_visible visible, read]
  rfl

theorem reads_iff_of_next {s after : Text} {token : Token} (read : next s = (.ok token, after))
    (inside : token.kind ≠ .eof) {kinds : List Token.Kind} :
    Reads s kinds ↔ ∃ us, kinds = token.kind :: us ∧ Reads after us := by
  constructor
  · intro reads
    cases reads with
    | last again atEnd =>
        rw [read] at again
        cases again
        exact absurd atEnd inside
    | more again _ others =>
        rw [read] at again
        cases again
        exact ⟨_, rfl, others⟩
  · rintro ⟨us, rfl, others⟩
    exact .more read inside others

theorem reads_cons_iff_of_next {s after : Text} {token : Token} (read : next s = (.ok token, after))
    (inside : token.kind ≠ .eof) {kind : Token.Kind} {us : List Token.Kind} :
    Reads s (kind :: us) ↔ kind = token.kind ∧ Reads after us := by
  rw [reads_iff_of_next read inside]
  constructor
  · rintro ⟨vs, same, others⟩
    obtain ⟨rfl, rfl⟩ := List.cons.inj same
    exact ⟨rfl, others⟩
  · rintro ⟨rfl, others⟩
    exact ⟨us, rfl, others⟩

theorem exists_next_of_reads {s : Text} {kind : Token.Kind} {us : List Token.Kind}
    (reads : Reads s (kind :: us)) : ∃ place after, next s = (.ok ⟨kind, place⟩, after) := by
  cases reads with
  | last read atEnd =>
      rename_i after token
      obtain ⟨kind, place⟩ := token
      cases atEnd
      exact ⟨place, after, read⟩
  | more read _ _ => exact ⟨_, _, read⟩

theorem ofChar?_isBlank {c : Char} {kind : Token.Kind} (single : Token.Kind.ofChar? c = some kind) :
    Text.isBlank c = false ∧ kind ≠ .eof := by
  unfold Token.Kind.ofChar? at single
  split at single <;> first
    | (cases single; exact ⟨by decide, by decide⟩)
    | cases single

theorem reads_mark {c : Char} {kind : Token.Kind} (single : Token.Kind.ofChar? c = some kind)
    (s : Text) {kinds : List Token.Kind} :
    Reads (c :: s) kinds ↔ ∃ us, kinds = kind :: us ∧ Reads s us := by
  obtain ⟨visible, inside⟩ := ofChar?_isBlank single
  refine reads_iff_of_next (next_of_token visible ?_) inside
  simp [token, single]

theorem reads_blanks {blanks : Text} (blank : Text.isBlankText blanks = true) (s : Text)
    {kinds : List Token.Kind} : Reads (blanks ++ s) kinds ↔ Reads s kinds := by
  have same : next (blanks ++ s) = next s := by
    rw [next, Text.trimStart_blank_append blank, ← next]
  constructor
  · intro reads
    cases reads with
    | last read atEnd => exact .last (same ▸ read) atEnd
    | more read inside others => exact .more (same ▸ read) inside others
  · intro reads
    cases reads with
    | last read atEnd => exact .last (same ▸ read) atEnd
    | more read inside others => exact .more (same ▸ read) inside others

theorem reads_blank (s : Text) {kinds : List Token.Kind} : Reads (' ' :: s) kinds ↔ Reads s kinds := by
  have blank : Text.isBlankText [' '] = true := by decide
  exact reads_blanks blank s

theorem reads_ellipsis (s : Text) {kinds : List Token.Kind} :
    Reads ('.' :: '.' :: '.' :: s) kinds ↔ ∃ us, kinds = .ellipsis :: us ∧ Reads s us := by
  have read : token '.' ('.' :: '.' :: s) = (.ok .ellipsis, s) := by
    simp [token, Token.Kind.ofChar?]
  exact reads_iff_of_next (next_of_token (by decide) read) (by simp)

theorem next_quote (value k : Text) : next (StringLiteral.quote value ++ k) =
    (.ok ⟨.string value, StringLiteral.quote value ++ k⟩, k) := by
  have body := StringLiteral.body_quote ('"' :: (value.flatMap StringLiteral.quoteChar ++ '"' :: k)) value k
  have read : token '"' (value.flatMap StringLiteral.quoteChar ++ '"' :: k) = (.ok (.string value), k) := by
    simp [token, Token.Kind.ofChar?, body, Except.map]
  have shape : StringLiteral.quote value ++ k =
      '"' :: (value.flatMap StringLiteral.quoteChar ++ '"' :: k) := by
    simp [StringLiteral.quote]
  rw [shape]
  exact next_of_token (by decide) read

theorem reads_quote (value s : Text) {kinds : List Token.Kind} :
    Reads (StringLiteral.quote value ++ s) kinds ↔ ∃ us, kinds = .string value :: us ∧ Reads s us :=
  reads_iff_of_next (next_quote value s) (by simp)

section Names

variable {x k rest : Text} {c : Char}

theorem goesOn_of_append (goesOn : nameEnds (c :: rest ++ k) = false) : nameEnds (c :: rest) = false := by
  rw [← Bool.not_eq_true, List.cons_append, nameEnds_cons] at goesOn
  rw [← Bool.not_eq_true, nameEnds_cons]
  rintro (⟨dot, angle⟩ | ⟨dot, more, rfl⟩ | ends)
  · cases rest with
    | nil => cases angle
    | cons d more => exact goesOn (.inl ⟨dot, angle⟩)
  · exact goesOn (.inr (.inl ⟨dot, more ++ k, rfl⟩))
  · exact goesOn (.inr (.inr ends))

theorem goesOn_append (goesOn : nameEnds (c :: rest) = false) (stops : Stops k)
    (angle : k.head? = some '<' → (c :: rest).getLast? ≠ some '.') :
    nameEnds (c :: rest ++ k) = false := by
  rw [← Bool.not_eq_true, nameEnds_cons] at goesOn
  rw [← Bool.not_eq_true, List.cons_append, nameEnds_cons]
  have noDot : k.head? ≠ some '.' := fun first => stops.ne first (by decide : isNameChar '.' = true) rfl
  rintro (⟨rfl, opens⟩ | ⟨rfl, more, dots⟩ | ends)
  · cases rest with
    | nil => exact angle opens rfl
    | cons d more => exact goesOn (.inl ⟨rfl, opens⟩)
  · rcases rest with _ | ⟨d, _ | ⟨e, others⟩⟩
    · exact noDot (congrArg List.head? dots)
    · obtain ⟨rfl, behind⟩ := List.cons.inj dots
      exact noDot (congrArg List.head? behind)
    · obtain ⟨rfl, behind⟩ := List.cons.inj dots
      obtain ⟨rfl, -⟩ := List.cons.inj behind
      exact goesOn (.inr (.inl ⟨rfl, others, rfl⟩))
  · exact goesOn (.inr (.inr ends))

theorem spanName_append_stops (whole : spanName x = (x, [])) (stops : Stops k)
    (angle : k.head? = some '<' → x.getLast? ≠ some '.') : spanName (x ++ k) = (x, k) := by
  induction x with
  | nil =>
      cases k with
      | nil => rfl
      | cons c k =>
          have ends : nameEnds (c :: k) = true := nameEnds_cons.2 (.inr (.inr (stops c rfl)))
          simp [spanName, ends]
  | cons c rest induction =>
      cases goesOn : nameEnds (c :: rest) with
      | true => simp [spanName, goesOn] at whole
      | false =>
          simp only [spanName, goesOn, Bool.false_eq_true, if_false, Prod.mk.injEq, List.cons.injEq,
            true_and] at whole
          have others := induction (Prod.ext whole.1 whole.2) fun opens last => by
            refine angle opens ?_
            cases rest with
            | nil => cases last
            | cons => exact last
          have onward := goesOn_append goesOn stops angle
          rw [List.cons_append] at onward ⊢
          simp [spanName, onward, others]

theorem spanName_of_append (whole : spanName (x ++ k) = (x, k)) :
    spanName x = (x, []) ∧ (k.head? = some '<' → x.getLast? ≠ some '.') := by
  induction x with
  | nil => exact ⟨rfl, fun _ last => by cases last⟩
  | cons c rest induction =>
      rw [List.cons_append] at whole
      cases goesOn : nameEnds (c :: (rest ++ k)) with
      | true => simp [spanName, goesOn] at whole
      | false =>
          simp only [spanName, goesOn, Bool.false_eq_true, if_false, Prod.mk.injEq, List.cons.injEq,
            true_and] at whole
          obtain ⟨others, angle⟩ := induction (Prod.ext whole.1 whole.2)
          have here := goesOn_of_append (k := k) (by rwa [List.cons_append])
          refine ⟨by simp [spanName, here, others], fun opens last => ?_⟩
          cases rest with
          | nil =>
              obtain rfl : c = '.' := Option.some.inj last
              rw [List.nil_append, nameEnds_cons.2 (.inl ⟨rfl, opens⟩)] at goesOn
              cases goesOn
          | cons => exact angle opens last

theorem quotedName_eq_name {start after : Text} : quotedName start rest = (.ok (.name x), after) ↔
    ∃ inner, rest = inner ++ '`' :: after ∧ '`' ∉ inner ∧ Text.trim inner = x ∧ x ≠ [] := by
  unfold quotedName
  constructor
  · intro run
    split at run
    · cases run
    · next inner behind found =>
        obtain ⟨whole, outside⟩ := Text.splitOnce_eq_some_iff.1 found
        simp only at run
        split at run
        · cases run
        · next some =>
            obtain ⟨named, rfl⟩ := Prod.mk.inj run
            obtain rfl : Text.trim inner = x := by simpa using named
            exact ⟨inner, whole, outside, rfl, by simpa using some⟩
  · rintro ⟨inner, whole, outside, rfl, some⟩
    rw [Text.splitOnce_eq_some_iff.2 ⟨whole, outside⟩]
    simp [some]

theorem token_eq_name {after : Text} (run : token c rest = (.ok (.name x), after)) :
    (beginsName c rest = true ∧ spanName (c :: rest) = (x, after)) ∨
      (c = '`' ∧ quotedName (c :: rest) rest = (.ok (.name x), after)) := by
  cases scans_of_token run with
  | mark single =>
      unfold Token.Kind.ofChar? at single
      split at single <;> cases single
  | number _ read =>
      obtain ⟨value, same⟩ := number_kind read
      cases same
  | quotedName read => exact .inr ⟨rfl, read⟩
  | name begins span => exact .inl ⟨begins, span⟩

end Names

/-- Whether the text can be spelled as a name, in backticks if need be. -/
def isSpellable (name : Text) : Bool :=
  !name.isEmpty && Text.trim name == name && !name.contains '`'

/-- The text is a name without backticks. -/
structure Plain (x : Text) : Prop where
  begins : ∃ c rest, x = c :: rest ∧ Text.isBlank c = false ∧ beginsName c rest = true
  whole : spanName x = (x, [])

section Plain

variable {x k : Text}

theorem isSpellable_iff : isSpellable x = true ↔ x ≠ [] ∧ Text.trim x = x ∧ '`' ∉ x := by
  simp [isSpellable, and_assoc]

theorem token_of_next {s after place : Text} {kind : Token.Kind}
    (run : next s = (.ok ⟨kind, place⟩, after)) (inside : kind ≠ .eof) :
    ∃ c rest, Text.trimStart s = c :: rest ∧ Text.isBlank c = false ∧
      token c rest = (.ok kind, after) := by
  unfold next at run
  split at run
  · simp only [Prod.mk.injEq, Except.ok.injEq, Token.mk.injEq] at run
    exact absurd run.1.1.symm inside
  · next c rest trimmed =>
      have visible : Text.isBlank c = false := by
        have head := List.head?_dropWhile_not Text.isBlank s
        rw [Text.trimStart] at trimmed
        rw [trimmed] at head
        simpa using head
      refine ⟨c, rest, trimmed, visible, ?_⟩
      rcases read : token c rest with ⟨_ | kind', behind⟩
      · simp [read, Except.map] at run
      · simp only [read, Except.map, Prod.mk.injEq, Except.ok.injEq, Token.mk.injEq] at run
        rw [run.1.1, run.2]

theorem Plain.isNameChar (plain : Plain x) {c : Char} (inside : c ∈ x) :
    Lexer.isNameChar c = true := by
  have spanned := plain.whole
  rw [← (Prod.mk.inj spanned).1] at inside
  exact isNameChar_of_mem_spanName inside

theorem numberFollows_append {rest : Text} (no : numberFollows rest = false) (stops : Stops k) :
    numberFollows (rest ++ k) = false := by
  have noDigit : StringLiteral.beginsWithDigit k = false := by
    cases k with
    | nil => rfl
    | cons c k => exact stops.not_isDigit c rfl
  cases rest with
  | nil =>
      cases k with
      | nil => rfl
      | cons c k =>
          have dot : c ≠ '.' := stops.ne rfl (by decide)
          rw [List.nil_append, numberFollows_cons, if_neg dot]
          exact noDigit
  | cons c rest =>
      rw [numberFollows_cons] at no
      rw [List.cons_append, numberFollows_cons]
      split
      · next dot =>
          rw [if_pos dot] at no
          cases rest with
          | nil => exact noDigit
          | cons => exact no
      · next dot => rwa [if_neg dot] at no

theorem numberFollows_of_append {rest : Text} (no : numberFollows (rest ++ k) = false) :
    numberFollows rest = false := by
  cases rest with
  | nil => rfl
  | cons c rest =>
      rw [List.cons_append, numberFollows_cons] at no
      rw [numberFollows_cons]
      split
      · next dot =>
          rw [if_pos dot] at no
          cases rest with
          | nil => rfl
          | cons => exact no
      · next dot => rwa [if_neg dot] at no

/-- The text begins with a name as far as names go. -/
theorem Plain.next_append (plain : Plain x) (stops : Stops k) : next (x ++ k) =
    (.ok ⟨.name (spanName (x ++ k)).1, x ++ k⟩, (spanName (x ++ k)).2) := by
  obtain ⟨c, rest, rfl, visible, begins⟩ := plain.begins
  have onward : beginsName c (rest ++ k) = true := by
    simp only [beginsName, Bool.and_eq_true, Bool.not_eq_true', Bool.or_eq_false_iff,
      Bool.and_eq_false_iff] at begins ⊢
    exact ⟨begins.1, begins.2.1, begins.2.2.imp_right fun no => numberFollows_append no stops⟩
  exact next_of_token visible (token_of_beginsName onward)

theorem next_plain (plain : Plain x) (stops : Stops k)
    (angle : k.head? = some '<' → x.getLast? ≠ some '.') :
    next (x ++ k) = (.ok ⟨.name x, x ++ k⟩, k) := by
  rw [plain.next_append stops, spanName_append_stops plain.whole stops angle]

theorem plain_of_next {place after : Text} (read : next (x ++ k) = (.ok ⟨.name x, place⟩, after)) :
    Plain x ∧ after = k ∧ (k.head? = some '<' → x.getLast? ≠ some '.') := by
  obtain ⟨c, rest, trimmed, visible, run⟩ := token_of_next read (by simp)
  have untrimmed : ∀ d more, x = d :: more → Text.isBlank d = false → c :: rest = x ++ k := by
    rintro d more rfl visible
    rw [← trimmed]
    exact Text.trimStart_of_visible visible
  rcases token_eq_name run with ⟨begins, spanned⟩ | ⟨rfl, quoted⟩
  · have goesOn := goesOn_of_beginsName begins visible
    have first : ∃ more, x = c :: more := by
      simp only [spanName, goesOn, Bool.false_eq_true, if_false, Prod.mk.injEq] at spanned
      exact ⟨_, spanned.1.symm⟩
    obtain ⟨more, shape⟩ := first
    have whole := untrimmed c more shape visible
    have joined := spanName_append (c :: rest)
    rw [spanned, whole] at joined
    obtain rfl : after = k := List.append_cancel_left joined
    rw [whole] at spanned
    obtain ⟨alone, angle⟩ := spanName_of_append spanned
    refine ⟨⟨⟨c, more, shape, visible, ?_⟩, alone⟩, rfl, angle⟩
    rw [shape, List.cons_append] at whole
    obtain ⟨-, rfl⟩ := List.cons.inj whole
    simp only [beginsName, Bool.and_eq_true, Bool.not_eq_true', Bool.or_eq_false_iff,
      Bool.and_eq_false_iff] at begins ⊢
    exact ⟨begins.1, begins.2.1, begins.2.2.imp_right numberFollows_of_append⟩
  · obtain ⟨inner, whole, outside, trimmedInner, any⟩ := quotedName_eq_name.1 quoted
    obtain ⟨d, more, shape⟩ := List.exists_cons_of_ne_nil any
    have joined := untrimmed d more shape (Text.isBlank_of_trim_eq_cons (trimmedInner.trans shape))
    rw [shape, List.cons_append] at joined
    obtain ⟨rfl, -⟩ := List.cons.inj joined
    refine absurd (Text.mem_of_mem_trim ?_) outside
    rw [trimmedInner, shape]
    exact List.mem_cons_self

theorem isPlainName_iff : isPlainName x = true ↔ Plain x := by
  constructor
  · intro plain
    unfold isPlainName at plain
    split at plain
    · next token after read =>
        obtain ⟨kind, place⟩ := token
        simp only [Bool.and_eq_true, beq_iff_eq] at plain
        obtain rfl := plain.1
        have alone : next (x ++ []) = (.ok ⟨.name x, place⟩, after) := by
          rw [List.append_nil]
          exact read
        exact (plain_of_next alone).1
    · cases plain
  · intro plain
    have read := next_plain (k := []) plain (fun c first => by cases first) (fun first => by cases first)
    rw [List.append_nil] at read
    have ended : next [] = (.ok ⟨.eof, []⟩, []) := rfl
    simp [isPlainName, read, ended]

theorem Plain.spellable (plain : Plain x) : isSpellable x = true := by
  obtain ⟨c, rest, shape, -⟩ := plain.begins
  refine isSpellable_iff.2 ⟨by simp [shape], Text.trim_of_visible fun c inside => ?_, fun inside => ?_⟩
  · have named := plain.isNameChar inside
    simp only [Lexer.isNameChar, Bool.and_eq_true, Bool.not_eq_true'] at named
    exact named.1
  · have named := plain.isNameChar inside
    revert named
    decide

theorem nameText_append_of_not_plain (plain : ¬ isPlainName x = true) (k : Text) :
    nameText x ++ k = '`' :: (x ++ '`' :: k) := by
  rw [nameText, if_neg plain]
  simp

theorem token_tick (rest : Text) : token '`' rest = quotedName ('`' :: rest) rest := by
  simp [token, Token.Kind.ofChar?]

/-- What a name is written as is read as the name, unless its last point is taken together with an angle
behind it. -/
theorem next_nameText (stops : Stops k) (spellable : isSpellable x = true)
    (angle : k.head? = some '<' → isPlainName x = true → x.getLast? ≠ some '.') :
    next (nameText x ++ k) = (.ok ⟨.name x, nameText x ++ k⟩, k) := by
  by_cases plain : isPlainName x = true
  · rw [nameText, if_pos plain]
    exact next_plain (isPlainName_iff.1 plain) stops fun opens => angle opens plain
  · obtain ⟨any, trimmed, outside⟩ := isSpellable_iff.1 spellable
    have read : token '`' (x ++ '`' :: k) = (.ok (.name x), k) := by
      rw [token_tick]
      exact quotedName_eq_name.2 ⟨x, rfl, outside, trimmed, any⟩
    rw [nameText_append_of_not_plain plain]
    exact next_of_token (by decide) read

/-- A name that is read back can be spelled, and its last point stands before no angle. -/
theorem of_next_nameText {place after : Text}
    (read : next (nameText x ++ k) = (.ok ⟨.name x, place⟩, after)) :
    isSpellable x = true ∧ (k.head? = some '<' → isPlainName x = true → x.getLast? ≠ some '.') ∧
      after = k := by
  by_cases plain : isPlainName x = true
  · rw [nameText, if_pos plain] at read
    obtain ⟨spelled, rfl, angle⟩ := plain_of_next read
    exact ⟨spelled.spellable, fun opens _ => angle opens, rfl⟩
  · rw [nameText_append_of_not_plain plain] at read
    obtain ⟨c, rest, trimmed, -, run⟩ := token_of_next read (by simp)
    rw [Text.trimStart_of_visible (by decide)] at trimmed
    obtain ⟨rfl, rfl⟩ := List.cons.inj trimmed
    rw [token_tick] at run
    obtain ⟨inner, whole, outside, trimmedInner, any⟩ := quotedName_eq_name.1 run
    have outsideName : '`' ∉ x := fun inside =>
      outside (Text.mem_of_mem_trim (by rwa [trimmedInner]))
    have cut : Text.splitOnce '`' (x ++ '`' :: k) = some (x, k) :=
      Text.splitOnce_eq_some_iff.2 ⟨rfl, outsideName⟩
    rw [Text.splitOnce_eq_some_iff.2 ⟨whole, outside⟩] at cut
    obtain ⟨rfl, rfl⟩ := Prod.mk.inj (Option.some.inj cut)
    exact ⟨isSpellable_iff.2 ⟨any, trimmedInner, outside⟩, fun _ plain' => absurd plain' plain, rfl⟩

theorem reads_nameText (stops : Stops k) {us : List Token.Kind} :
    Reads (nameText x ++ k) (.name x :: us) ↔
      (isSpellable x = true ∧ (k.head? = some '<' → isPlainName x = true → x.getLast? ≠ some '.')) ∧
        Reads k us := by
  constructor
  · intro reads
    obtain ⟨place, after, read⟩ := exists_next_of_reads reads
    obtain ⟨spellable, angle, rfl⟩ := of_next_nameText read
    exact ⟨⟨spellable, angle⟩, ((reads_cons_iff_of_next read (by simp)).1 reads).2⟩
  · rintro ⟨⟨spellable, angle⟩, others⟩
    have read := next_nameText stops spellable angle
    exact (reads_cons_iff_of_next read (by simp)).2 ⟨rfl, others⟩

end Plain

section Words

variable {x k : Text}

theorem Stops.cons {c : Char} (ends : isNameChar c = false) (s : Text) : Stops (c :: s) := by
  intro d first
  rw [← Option.some.inj first]
  exact ends

theorem reads_plain (plain : isPlainName x = true) (stops : Stops k) (noAngle : k.head? ≠ some '<')
    {kinds : List Token.Kind} : Reads (x ++ k) kinds ↔ ∃ us, kinds = .name x :: us ∧ Reads k us :=
  reads_iff_of_next
    (next_plain (isPlainName_iff.1 plain) stops fun opens => absurd opens noAngle) (by simp)

theorem reads_label {s : Text} {us : List Token.Kind} :
    Reads (x ++ ':' :: s) (.name x :: .colon :: us) ↔ isPlainName x = true ∧ Reads s us := by
  have stops : Stops (':' :: s) := .cons (by decide) s
  have colon : Token.Kind.ofChar? ':' = some .colon := rfl
  constructor
  · intro reads
    obtain ⟨place, after, read⟩ := exists_next_of_reads reads
    obtain ⟨plain, rfl, -⟩ := plain_of_next read
    obtain ⟨vs, same, others⟩ :=
      (reads_mark colon s).1 ((reads_cons_iff_of_next read (by simp)).1 reads).2
    obtain ⟨-, rfl⟩ := List.cons.inj same
    exact ⟨isPlainName_iff.2 plain, others⟩
  · rintro ⟨plain, others⟩
    exact (reads_plain plain stops (by simp)).2 ⟨_, rfl, (reads_mark colon s).2 ⟨us, rfl, others⟩⟩

theorem isNameChar_iff {c : Char} :
    isNameChar c = true ↔ Text.isBlank c = false ∧ c ∉ punctuation := by
  simp [isNameChar]

theorem not_inRanges_of_apart {ranges others : List (Nat × Nat)} {c : Char}
    (apart : (ranges.all fun r => others.all fun o => Nat.blt r.2 o.1 || Nat.blt o.2 r.1) = true)
    (inside : Text.inRanges ranges c = true) : Text.inRanges others c = false := by
  cases both : Text.inRanges others c with
  | false => rfl
  | true =>
      obtain ⟨r, member, lower, upper⟩ := Text.inRanges_iff.1 inside
      obtain ⟨o, member', lower', upper'⟩ := Text.inRanges_iff.1 both
      have disjoint := List.all_eq_true.1 (List.all_eq_true.1 apart r member) o member'
      rw [Bool.or_eq_true, Nat.blt_eq, Nat.blt_eq] at disjoint
      omega

theorem isBlank_of_isAlphanumeric {c : Char} (letter : Text.isAlphanumeric c = true) :
    Text.isBlank c = false := by
  by_cases ascii : c.toNat < 128
  · have every : ∀ n < 128, Text.isAlphanumeric (Char.ofNat n) = true →
        Text.isBlank (Char.ofNat n) = false := by decide +kernel
    have here := every c.toNat ascii
    rw [Char.ofNat_toNat] at here
    exact here letter
  · simp only [Text.isAlphanumeric, Text.isAlphabetic, Text.isNumeric, ascii, if_false,
      Bool.or_eq_true] at letter
    rcases letter with letter | number
    · exact not_inRanges_of_apart (by decide +kernel) letter
    · exact not_inRanges_of_apart (by decide +kernel) number

theorem isNameChar_of_isAlphanumeric {c : Char} (letter : Text.isAlphanumeric c = true) :
    isNameChar c = true := by
  have none : (punctuation.all fun p => !Text.isAlphanumeric p) = true := by decide
  refine isNameChar_iff.2 ⟨isBlank_of_isAlphanumeric letter, fun inside => ?_⟩
  have outside := List.all_eq_true.1 none c inside
  rw [letter] at outside
  cases outside

theorem ofChar?_of_isNameChar {c : Char} (named : isNameChar c = true) :
    Token.Kind.ofChar? c = none := by
  unfold Token.Kind.ofChar?
  split <;> first | rfl | exact absurd named (by decide)

theorem spanName_of_chars (each : ∀ c ∈ x, isNameChar c = true ∧ c ≠ '.') :
    spanName x = (x, []) := by
  induction x with
  | nil => rfl
  | cons c rest induction =>
      obtain ⟨named, dot⟩ := each c List.mem_cons_self
      have goesOn : nameEnds (c :: rest) = false := by
        rw [← Bool.not_eq_true, nameEnds_cons]
        simp [dot, named]
      have others := induction fun d inside => each d (List.mem_cons_of_mem c inside)
      simp [spanName, goesOn, others]

theorem not_isDigit_of_isAlphabetic {c : Char} (letter : Text.isAlphabetic c = true) :
    c.isDigit = false := by
  have none : ∀ n < 10, Text.isAlphabetic (Char.ofNat (48 + n)) = false := by decide
  cases digit : c.isDigit with
  | false => rfl
  | true =>
      have bounds := Decimal.isDigit_bounds digit
      have place : 48 + (c.toNat - 48) = c.toNat := by omega
      have outside := none (c.toNat - 48) (by omega)
      rw [place, Char.ofNat_toNat, letter] at outside
      cases outside

theorem isNameChar_of_identifier {c : Char}
    (letter : Text.isAlphanumeric c = true ∨ c = '_' ∨ c = '$') : isNameChar c = true ∧ c ≠ '.' := by
  rcases letter with letter | rfl | rfl
  · refine ⟨isNameChar_of_isAlphanumeric letter, ?_⟩
    rintro rfl
    revert letter
    decide
  · decide
  · decide

theorem beginsName_of_letter {c : Char} (letter : Text.isAlphabetic c = true ∨ c = '_' ∨ c = '$')
    (rest : Text) : Text.isBlank c = false ∧ beginsName c rest = true := by
  have alphanumeric : Text.isAlphanumeric c = true ∨ c = '_' ∨ c = '$' :=
    letter.imp_left fun letter => by simp [Text.isAlphanumeric, letter]
  have named := isNameChar_of_identifier alphanumeric
  have other : c.isDigit = false ∧ c ≠ '-' ∧ c ≠ '+' := by
    rcases letter with letter | rfl | rfl
    · refine ⟨not_isDigit_of_isAlphabetic letter, ?_, ?_⟩ <;>
        (rintro rfl; exact absurd letter (by decide))
    · decide
    · decide
  have quotes : c ≠ '\'' ∧ c ≠ '"' ∧ c ≠ '`' := by
    refine ⟨?_, ?_, ?_⟩ <;>
      (rintro rfl; exact absurd named.1 (by decide))
  refine ⟨(isNameChar_iff.1 named.1).1, ?_⟩
  simp [beginsName, ofChar?_of_isNameChar named.1, named.2, quotes, other]

theorem plain_of_isIdentifier (identifier : isIdentifier x = true) : isPlainName x = true := by
  cases x with
  | nil => cases identifier
  | cons first more =>
      simp only [isIdentifier, Bool.and_eq_true, Bool.or_eq_true, beq_iff_eq, List.all_eq_true,
        or_assoc] at identifier
      obtain ⟨front, behind⟩ := identifier
      obtain ⟨visible, begins⟩ := beginsName_of_letter front more
      refine isPlainName_iff.2 ⟨⟨first, more, rfl, visible, begins⟩, ?_⟩
      refine spanName_of_chars fun c inside => isNameChar_of_identifier ?_
      rcases List.mem_cons.1 inside with rfl | inside
      · exact front.imp_left fun letter => by simp [Text.isAlphanumeric, letter]
      · exact behind c inside

theorem reads_keyText (key : Text) : ∃ token, Grammar.key? token = some key ∧
    ∀ {k : Text}, Stops k → k.head? ≠ some '<' → ∀ {kinds : List Token.Kind},
      Reads (keyText key ++ k) kinds ↔ ∃ us, kinds = token :: us ∧ Reads k us := by
  by_cases identifier : isIdentifier key = true
  · refine ⟨.name key, rfl, fun stops noAngle kinds => ?_⟩
    rw [keyText, if_pos identifier]
    exact reads_plain (plain_of_isIdentifier identifier) stops noAngle
  · refine ⟨.string key, rfl, fun {k} _ _ kinds => ?_⟩
    rw [keyText, if_neg identifier]
    exact reads_quote key k

theorem next_of_number {c : Char} {rest after : Text} {kind : Token.Kind}
    (begins : beginsNumber c rest = true) (run : number (c :: rest) = (.ok kind, after)) :
    next (c :: rest) = (.ok ⟨kind, c :: rest⟩, after) :=
  next_of_token (isNameChar_iff.1 (isNameChar_of_beginsNumber begins)).1
    (token_of_scans (.number begins run))

theorem reads_write {v : Binary64} (finite : v.isFinite = true) (stops : Stops k) :
    ∃ w, v.same w = true ∧ ∀ {kinds : List Token.Kind},
      Reads (Numeral.write v ++ k) kinds ↔ ∃ us, kinds = .number w :: us ∧ Reads k us := by
  obtain ⟨negative, raw, x, shape, written, same⟩ := Numeral.write_written finite
  refine ⟨_, same, fun {kinds} => ?_⟩
  obtain ⟨plain, signed⟩ := number_of_written written stops
  obtain ⟨c, rest, rfl, digit, -⟩ := written.begins
  cases negative with
  | false =>
      have text : Numeral.write v ++ k = c :: (rest ++ k) := by
        rw [shape]
        rfl
      rw [text]
      exact reads_iff_of_next (next_of_number (by simp [beginsNumber, digit]) plain) (by simp)
  | true =>
      have text : Numeral.write v ++ k = '-' :: (c :: rest ++ k) := by
        rw [shape]
        rfl
      have follows : numberFollows (c :: (rest ++ k)) = true := by
        rw [numberFollows_cons, if_neg (Decimal.ne_of_isDigit digit (by decide)), digit]
      rw [text]
      exact reads_iff_of_next (next_of_number (by simp [beginsNumber, follows]) signed) (by simp)

/-- What is not finite is written as a name. -/
theorem isPlainName_write {v : Binary64} (infinite : v.isFinite = false) :
    isPlainName (Numeral.write v) = true := by
  cases v with
  | nan => decide
  | infinite negative => cases negative <;> decide
  | finite => cases infinite

theorem not_reads_write {v w : Binary64} (infinite : v.isFinite = false) (stops : Stops k)
    (noAngle : k.head? ≠ some '<') {us : List Token.Kind} :
    ¬ Reads (Numeral.write v ++ k) (.number w :: us) := by
  intro reads
  obtain ⟨vs, same, -⟩ := (reads_plain (isPlainName_write infinite) stops noAngle).1 reads
  cases (List.cons.inj same).1

end Words

end TypeExpr.Lexer

end Docblock
