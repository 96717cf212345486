import Docblock.Proofs.TypeExpr.Spelling

/-!
# A token depends on what it takes up

A token stays the same where other text stands behind it, if no name goes on there: `next_local`. So the
tokens of two texts, one behind the other, are those of the first and those of the second.
-/

set_option autoImplicit false

namespace Docblock.TypeExpr.Lexer

/-- The second text can stand where the first does, behind a token. An angle cannot, since a name gives
its last point away to it; behind more than nothing, anything can follow. -/
inductive Replaces : Text → Text → Prop where
  | stops {after k : Text} (stops : Stops k) (noAngle : k.head? ≠ some '<') : Replaces after k
  | longer {after : Text} (filled : after ≠ []) (more : Text) : Replaces after (after ++ more)

section Replaces

variable {after k fraction raw : Text}

theorem Replaces.append (stops : Stops k) (noAngle : k.head? ≠ some '<') (after : Text) :
    Replaces after (after ++ k) := by
  cases after with
  | nil => exact .stops stops noAngle
  | cons c after => exact .longer (by simp) k

theorem Replaces.nil (after : Text) : Replaces after [] :=
  .stops (fun c first => by cases first) (by simp)

theorem Replaces.numberEnds (replaces : Replaces after k) (ends : NumberEnds after) : NumberEnds k := by
  cases replaces with
  | stops stops _ => exact stops.numberEnds
  | longer filled more =>
      obtain ⟨c, rest, rfl⟩ := List.exists_cons_of_ne_nil filled
      exact ends

theorem Stops.no_point (stops : Stops k) : k.head? ≠ some '.' :=
  fun first => stops.ne first (by decide : isNameChar '.' = true) rfl

theorem Fraction.replace (fractional : Fraction fraction after) (replaces : Replaces after k) :
    Fraction fraction k := by
  cases replaces with
  | stops stops _ =>
      cases fractional with
      | none => exact .none fun first => absurd first stops.no_point
      | point decimal => exact .point decimal fun _ => stops.no_point
  | longer filled more =>
      obtain ⟨c, rest, rfl⟩ := List.exists_cons_of_ne_nil filled
      cases fractional with
      | none range =>
          refine .none fun first => ?_
          obtain ⟨others, shape⟩ := range first
          exact ⟨others ++ more, by rw [shape]; rfl⟩
      | point decimal single => exact .point decimal single

theorem Spelled.replace (spelled : Spelled raw after) (replaces : Replaces after k) : Spelled raw k := by
  cases spelled with
  | hexadecimal signed marks any each ends =>
      exact .hexadecimal signed marks any each (replaces.numberEnds ends)
  | decimal signed each fractional powered ends =>
      refine .decimal signed each ?_ powered (replaces.numberEnds ends)
      cases powered with
      | none => exact fractional.replace replaces
      | power marks =>
          have noPoint : ∀ {mark : Char}, mark = 'e' ∨ mark = 'E' → some mark ≠ some '.' := by
            rintro mark (rfl | rfl) <;> decide
          cases fractional with
          | none => exact .none fun first => absurd first (noPoint marks)
          | point decimal => exact .point decimal fun _ => noPoint marks

end Replaces

section Names

variable {c : Char} {x rest after k : Text}

theorem nameEnds_spanName (s : Text) : nameEnds (spanName s).2 = true := by
  induction s with
  | nil => rfl
  | cons c rest induction =>
      rw [spanName]
      split
      · next ends => exact ends
      · exact induction

theorem goesOn_longer (goesOn : nameEnds (c :: rest) = false) (any : rest ≠ []) (noPoint : rest ≠ ['.'])
    (more : Text) : nameEnds (c :: rest ++ more) = false := by
  obtain ⟨d, others, rfl⟩ := List.exists_cons_of_ne_nil any
  rw [← Bool.not_eq_true, nameEnds_cons] at goesOn
  rw [← Bool.not_eq_true, List.cons_append, nameEnds_cons]
  rintro (angle | ⟨dot, behind, dots⟩ | ends)
  · exact goesOn (.inl angle)
  · obtain rfl := (List.cons.inj dots).1
    cases others with
    | nil => exact noPoint rfl
    | cons e others =>
        obtain ⟨rfl, -⟩ := List.cons.inj (List.cons.inj dots).2
        exact goesOn (.inr (.inl ⟨dot, others, rfl⟩))
  · exact goesOn (.inr (.inr ends))

theorem numberFollows_longer (any : rest ≠ []) (noPoint : rest ≠ ['.']) (more : Text) :
    numberFollows (rest ++ more) = numberFollows rest := by
  rcases rest with _ | ⟨c, _ | ⟨d, rest⟩⟩
  · exact absurd rfl any
  · have dot : c ≠ '.' := by
      rintro rfl
      exact noPoint rfl
    rw [List.cons_append, numberFollows_cons, numberFollows_cons, if_neg dot, if_neg dot]
  · rw [List.cons_append, numberFollows_cons, numberFollows_cons]
    rfl

theorem append_ne_point (span : spanName (x ++ after) = (x, after)) (filled : after ≠ []) (front : Text) :
    front ++ after ≠ ['.'] := by
  intro same
  have ends := nameEnds_spanName (x ++ after)
  rw [span] at ends
  rcases List.append_eq_singleton_iff.1 same with ⟨-, rfl⟩ | ⟨-, nothing⟩
  · cases ends
  · exact filled nothing

theorem spanName_replace (span : spanName (x ++ after) = (x, after)) (replaces : Replaces after k) :
    spanName (x ++ k) = (x, k) := by
  cases replaces with
  | stops stops noAngle =>
      exact spanName_append_stops (spanName_of_append span).1 stops fun opens => absurd opens noAngle
  | longer filled more =>
      induction x with
      | nil =>
          have ends := nameEnds_spanName after
          rw [List.nil_append] at span
          rw [span] at ends
          obtain ⟨c, rest, rfl⟩ := List.exists_cons_of_ne_nil filled
          have still : nameEnds (c :: rest ++ more) = true := by
            rw [nameEnds_cons] at ends
            rw [List.cons_append, nameEnds_cons]
            refine ends.imp ?_ (.imp_left ?_)
            · rintro ⟨dot, angle⟩
              obtain ⟨others, rfl⟩ := List.head?_eq_some_iff.1 angle
              exact ⟨dot, rfl⟩
            · rintro ⟨dot, others, rfl⟩
              exact ⟨dot, others ++ more, rfl⟩
          rw [List.nil_append]
          rw [List.cons_append] at still ⊢
          rw [spanName, if_pos still]
      | cons c rest induction =>
          have noPoint := append_ne_point span filled rest
          have any : rest ++ after ≠ [] := List.append_ne_nil_of_right_ne_nil _ filled
          rw [List.cons_append] at span
          cases goesOn : nameEnds (c :: (rest ++ after)) with
          | true => simp [spanName, goesOn] at span
          | false =>
              simp only [spanName, goesOn, Bool.false_eq_true, if_false, Prod.mk.injEq, List.cons.injEq,
                true_and] at span
              have others := induction (Prod.ext span.1 span.2)
              have onward := goesOn_longer goesOn any noPoint more
              rw [List.cons_append, List.append_assoc] at onward
              rw [List.cons_append, spanName, onward, others]
              rfl

theorem beginsName_replace (begins : beginsName c (rest ++ after) = true)
    (span : spanName (c :: rest ++ after) = (c :: rest, after)) (replaces : Replaces after k) :
    beginsName c (rest ++ k) = true := by
  simp only [beginsName, Bool.and_eq_true, Bool.not_eq_true', Bool.or_eq_false_iff,
    Bool.and_eq_false_iff] at begins ⊢
  refine ⟨begins.1, begins.2.1, begins.2.2.imp_right fun no => ?_⟩
  cases replaces with
  | stops stops _ => exact numberFollows_append (numberFollows_of_append no) stops
  | longer filled more =>
      have any : rest ++ after ≠ [] := List.append_ne_nil_of_right_ne_nil _ filled
      rw [← List.append_assoc, numberFollows_longer any (append_ne_point span filled rest)]
      exact no

end Names

section Numbers

variable {c : Char} {rest after : Text}

theorem beginsWithDigit_of_append (digit : StringLiteral.beginsWithDigit (rest ++ after) = true)
    (ends : NumberEnds after) : StringLiteral.beginsWithDigit rest = true := by
  cases rest with
  | cons => exact digit
  | nil =>
      cases after with
      | nil => cases digit
      | cons d after =>
          have other : Decimal.isDigitOf 10 d = false := not_isDigitOf (ends d rfl)
          rw [Decimal.isDigitOf_ten] at other
          rw [List.nil_append, StringLiteral.beginsWithDigit, other] at digit
          cases digit

theorem numberFollows_of_ends (follows : numberFollows (rest ++ after) = true) (any : rest ≠ [])
    (ends : NumberEnds after) : numberFollows rest = true := by
  obtain ⟨c, rest, rfl⟩ := List.exists_cons_of_ne_nil any
  rw [List.cons_append, numberFollows_cons] at follows
  rw [numberFollows_cons]
  split
  · next dot =>
      rw [if_pos dot] at follows
      exact beginsWithDigit_of_append follows ends
  · next dot => rwa [if_neg dot] at follows

theorem beginsNumber_replace (begins : beginsNumber c (rest ++ after) = true) (ends : NumberEnds after)
    (alone : c = '-' ∨ c = '+' → rest ≠ []) (k : Text) : beginsNumber c (rest ++ k) = true := by
  simp only [beginsNumber, Bool.or_eq_true, Bool.and_eq_true, beq_iff_eq] at begins ⊢
  refine begins.imp (.imp_right fun both => ⟨both.1, ?_⟩) fun both => ⟨both.1, ?_⟩
  · have own := numberFollows_of_ends both.2 (alone both.1) ends
    rw [← Bool.not_eq_false]
    intro no
    rw [numberFollows_of_append no] at own
    cases own
  · have own := beginsWithDigit_of_append both.2 ends
    cases rest with
    | nil => cases own
    | cons => exact own

end Numbers

section Tokens

variable {c : Char} {s rest after k : Text} {kind : Token.Kind} {found : Token}

theorem Scans.replace (scans : Scans c rest kind after) (visible : Text.isBlank c = false) :
    ∃ taken, rest = taken ++ after ∧ ∀ k, Replaces after k → Scans c (taken ++ k) kind k := by
  cases scans with
  | mark single => exact ⟨[], rfl, fun k _ => .mark single⟩
  | ellipsis => exact ⟨['.', '.'], rfl, fun k _ => .ellipsis⟩
  | dotLess => exact ⟨['<'], rfl, fun k _ => .dotLess⟩
  | number begins run =>
      obtain ⟨raw, whole, spelled, value, read, rfl⟩ := number_ok run
      have any : raw ≠ [] := by
        rintro rfl
        rw [read_nil] at read
        cases read
      obtain ⟨d, taken, rfl⟩ := List.exists_cons_of_ne_nil any
      obtain ⟨rfl, rfl⟩ := List.cons.inj whole
      have alone : c = '-' ∨ c = '+' → taken ≠ [] := by
        rintro signs rfl
        have nothing : Numeral.read ['-'] = none ∧ Numeral.read ['+'] = none := by decide
        rcases signs with rfl | rfl
        · rw [nothing.1] at read
          cases read
        · rw [nothing.2] at read
          cases read
      refine ⟨taken, rfl, fun k replaces => ?_⟩
      have still := spelled.replace replaces
      refine .number (beginsNumber_replace begins spelled.ends alone k) ?_
      exact still.run.trans (closeNumber_of_ends still.ends read)
  | string quote run =>
      have noEscape : c ≠ '\\' := by
        rcases quote with rfl | rfl <;> decide
      obtain ⟨text, rfl, closes⟩ := StringLiteral.body_ok noEscape run
      exact ⟨text, rfl, fun k _ => .string quote (closes _ k)⟩
  | quotedName run =>
      obtain ⟨inner, rfl, outside, trimmed, any⟩ := quotedName_eq_name.1 run
      refine ⟨inner ++ ['`'], by simp, fun k _ => .quotedName ?_⟩
      exact quotedName_eq_name.2 ⟨inner, by simp, outside, trimmed, any⟩
  | @name _ _ _ name begins span =>
      have goesOn := goesOn_of_beginsName begins visible
      have whole := spanName_append (c :: rest)
      rw [span] at whole
      have first : ∃ taken, name = c :: taken := by
        simp only [spanName, goesOn, Bool.false_eq_true, if_false, Prod.mk.injEq] at span
        exact ⟨_, span.1.symm⟩
      obtain ⟨taken, rfl⟩ := first
      obtain ⟨-, rfl⟩ := List.cons.inj whole
      refine ⟨taken, rfl, fun k replaces => ?_⟩
      have spanned := spanName_replace (x := c :: taken) span replaces
      exact .name (beginsName_replace begins span replaces) spanned

/-- The text `lexeme` is a token of this kind where `after` stands behind it, and also where another text
does that replaces `after`, whatever blanks stand in front. -/
def Lexes (kind : Token.Kind) (lexeme after : Text) : Prop :=
  ∀ blanks k, Text.isBlankText blanks = true → Replaces after k →
    next (blanks ++ lexeme ++ k) = (.ok ⟨kind, lexeme ++ k⟩, k)

theorem next_local (run : next s = (.ok found, after)) (inside : found.kind ≠ .eof) :
    ∃ blanks lexeme, s = blanks ++ lexeme ++ after ∧ Text.isBlankText blanks = true ∧ lexeme ≠ [] ∧
      found.place = lexeme ++ after ∧ Lexes found.kind lexeme after := by
  obtain ⟨kind, place⟩ := found
  obtain ⟨blanks, blank, whole⟩ := Text.exists_blank_append_trimStart s
  obtain ⟨c, rest, trimmed, visible, read⟩ := token_of_next run inside
  obtain ⟨taken, rfl, replaced⟩ := (scans_of_token read).replace visible
  have begins : ∀ blanks k, Text.isBlankText blanks = true → Replaces after k →
      next (blanks ++ (c :: taken) ++ k) = (.ok ⟨kind, c :: taken ++ k⟩, k) := by
    intro blanks k blank replaces
    have again := next_of_token visible (token_of_scans (replaced k replaces))
    have same : next (blanks ++ (c :: (taken ++ k))) = next (c :: (taken ++ k)) := by
      rw [next, Text.trimStart_blank_append blank, ← next]
    rw [List.append_assoc, List.cons_append, same, again]
  have placed : place = c :: taken ++ after := by
    simp only [next, trimmed, read, Except.map, Prod.mk.injEq, Except.ok.injEq, Token.mk.injEq] at run
    exact run.1.2.symm
  refine ⟨blanks, c :: taken, ?_, blank, by simp, placed, begins⟩
  rw [List.append_assoc, List.cons_append, ← trimmed]
  exact whole

/-- Behind a text that is read up to its end, the tokens of another follow. -/
theorem reads_append {front kinds : List Token.Kind} (reads : Reads s (front ++ [.eof])) (stops : Stops k)
    (noAngle : k.head? ≠ some '<') :
    Reads (s ++ k) kinds ↔ ∃ us, kinds = front ++ us ∧ Reads k us := by
  generalize shape : front ++ [Token.Kind.eof] = all at reads
  induction reads generalizing front kinds with
  | last read atEnd =>
      rcases next_ok read with ⟨-, blank⟩ | ⟨_, _, _, _, _, lexical⟩
      · have nothing : front = [] := by
          cases front with
          | nil => rfl
          | cons kind front => simp at shape
        rw [reads_blanks blank, nothing]
        simp
      · exact absurd atEnd lexical.inside
  | @more s after token others read inside _ induction =>
      obtain ⟨blanks, lexeme, rfl, blank, -, -, lexes⟩ := next_local read inside
      have again := lexes blanks (after ++ k) blank (.append stops noAngle after)
      rw [← List.append_assoc] at again
      cases front with
      | nil =>
          obtain ⟨same, -⟩ := List.cons.inj shape
          exact absurd same.symm inside
      | cons kind front =>
          obtain ⟨rfl, tail⟩ := List.cons.inj shape
          rw [reads_iff_of_next again inside]
          constructor
          · rintro ⟨us, rfl, behind⟩
            obtain ⟨vs, rfl, last⟩ := (induction tail).1 behind
            exact ⟨vs, rfl, last⟩
          · rintro ⟨us, rfl, last⟩
            exact ⟨front ++ us, rfl, (induction tail).2 ⟨us, rfl, last⟩⟩

end Tokens

end Docblock.TypeExpr.Lexer
