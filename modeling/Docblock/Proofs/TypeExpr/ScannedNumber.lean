import Docblock.Proofs.TypeExpr.Faults
import Docblock.Proofs.TypeExpr.Numeral

/-!
# Scanned numbers are read

Where the lexer begins a number, a digit follows the sign, or a point and a digit. So what has the shape of a
number there can be read as one, and nothing is wrong with it but what the scan finds by itself.
-/

set_option autoImplicit false

namespace Docblock.TypeExpr.Lexer

variable {c : Char} {s k rest after raw sign whole fraction exponent : Text} {fault : Fault}

section Entry

theorem numberFollows_of_beginsNumber (begins : beginsNumber c rest = true) :
    numberFollows (spanSign (c :: rest)).2 = true := by
  simp only [beginsNumber, Bool.or_eq_true, Bool.and_eq_true, beq_iff_eq] at begins
  rcases begins with (digit | ⟨rfl | rfl, follows⟩) | ⟨rfl, digit⟩
  · have unsigned : ∀ d ∈ (c :: rest).head?, d ≠ '-' ∧ d ≠ '+' := by
      intro d first
      rw [← Option.some.inj first]
      exact ⟨Decimal.ne_of_isDigit digit (by decide), Decimal.ne_of_isDigit digit (by decide)⟩
    have dot : c ≠ '.' := Decimal.ne_of_isDigit digit (by decide)
    have spanned := spanSign_of_sign .none unsigned
    rw [List.nil_append] at spanned
    rw [spanned, numberFollows_cons, if_neg dot, digit]
  · exact follows
  · exact follows
  · exact digit

theorem not_beginsWithDigit (ends : DigitsEnd k) : ¬ StringLiteral.beginsWithDigit k = true := by
  intro begins
  cases k with
  | nil => cases begins
  | cons c k =>
      have other := ends.not_digit c rfl
      rw [Decimal.isDigitOf_ten] at other
      exact Bool.false_ne_true (other.symm.trans begins)

theorem exists_digit (fractional : Fraction fraction k) (ends : DigitsEnd k)
    (follows : numberFollows (whole ++ (fraction ++ k)) = true) :
    whole ≠ [] ∨ ∃ digits, digits ≠ [] ∧ fraction = '.' :: digits := by
  cases whole with
  | cons => exact .inl (by simp)
  | nil =>
      rw [List.nil_append] at follows
      cases fractional with
      | none range =>
          cases k with
          | nil => cases follows
          | cons c k =>
              rw [List.nil_append, numberFollows_cons] at follows
              by_cases dot : c = '.'
              · obtain ⟨more, shape⟩ := range (congrArg some dot)
                obtain ⟨-, rfl⟩ := List.cons.inj shape
                rw [if_pos dot] at follows
                cases follows
              · rw [if_neg dot] at follows
                exact absurd follows (not_beginsWithDigit ends)
      | @point digits _ decimal single =>
          cases digits with
          | nil => exact absurd follows (not_beginsWithDigit ends)
          | cons d digits => exact .inr ⟨d :: digits, by simp, rfl⟩

end Entry

section Reading

theorem splitSign_snd (s : Text) : (Decimal.splitSign s).2 = (spanSign s).2 := by
  unfold Decimal.splitSign spanSign
  split <;> simp_all

theorem isDigit_of_decimal {digits : Text} (decimal : ∀ c ∈ digits, Decimal.isDigitOf 10 c = true)
    (c : Char) (inside : c ∈ digits) : c.isDigit = true := by
  rw [← Decimal.isDigitOf_ten]
  exact decimal c inside

theorem Exponent.exists_read (powered : Exponent exponent) :
    ∃ power, Decimal.readExponent exponent = some power := by
  cases powered with
  | none => exact ⟨0, rfl⟩
  | @power mark sign digits marks signed any decimal =>
      have every : digits.all Char.isDigit = true := List.all_eq_true.2 (isDigit_of_decimal decimal)
      have many : digits.isEmpty = false := by simpa using any
      have ends : DigitsEnd [] := fun c first => by cases first
      have unsigned := ends.not_sign decimal
      rw [List.append_nil] at unsigned
      have split := splitSign_snd (sign ++ digits)
      rw [spanSign_of_sign signed unsigned] at split
      simp [Decimal.readExponent, marks, split, every, many]

theorem exists_readUnsigned (each : ∀ c ∈ whole, Decimal.isDigitOf 10 c = true)
    (fractional : Fraction fraction (exponent ++ k)) (powered : Exponent exponent)
    (ends : DigitsEnd (fraction ++ exponent))
    (digit : whole ≠ [] ∨ ∃ digits, digits ≠ [] ∧ fraction = '.' :: digits) :
    ∃ x, Decimal.readUnsigned (whole ++ (fraction ++ exponent)) = some x := by
  have stops : ∀ {s : Text}, DigitsEnd s → ∀ c ∈ s.head?, c.isDigit = false := by
    intro s ends c first
    rw [← Decimal.isDigitOf_ten]
    exact ends.not_digit c first
  have powerEnds : DigitsEnd exponent := by
    have atEnd := powered.digitsEnd (k := []) fun c first => by cases first
    rwa [List.append_nil] at atEnd
  obtain ⟨power, read⟩ := powered.exists_read
  obtain ⟨taken, dropped⟩ := Text.span_all (isDigit_of_decimal each) (stops ends)
  simp only [Decimal.readUnsigned, taken, dropped]
  cases fractional with
  | none =>
      have any : whole ≠ [] := by
        refine digit.resolve_right ?_
        rintro ⟨digits, -, shape⟩
        cases shape
      have point : ∀ more, exponent ≠ '.' :: more := by
        rintro more rfl
        cases powered with
        | power marks => rcases marks with mark | mark <;> cases mark
      simp [any, read]
  | @point digits _ decimal =>
      have any : ¬ (whole = [] ∧ digits = []) := by
        rintro ⟨rfl, rfl⟩
        simp at digit
      obtain ⟨taken, dropped⟩ := Text.span_all (isDigit_of_decimal decimal) (stops powerEnds)
      simp [taken, dropped, any, read]

theorem exists_decimal {x : Decimal} (read : Decimal.readUnsigned (Decimal.splitSign s).2 = some x) :
    ∃ value, Decimal.read s = some value := by
  simp only [Decimal.read, read]
  split
  · exact ⟨_, rfl⟩
  · split <;> exact ⟨_, rfl⟩

/-- What is spelled where a number begins is read as one. -/
theorem Spelled.exists_read (spelled : Spelled raw k)
    (follows : numberFollows (spanSign (raw ++ k)).2 = true) : ∃ value, Numeral.read raw = some value := by
  have signless : ∀ {sign unsigned : Text}, spanSign raw = (sign, unsigned) →
      (∃ value, Numeral.readUnsigned unsigned = some value) → ∃ value, Numeral.read raw = some value := by
    rintro sign unsigned spanned ⟨value, read⟩
    simp only [Numeral.read, splitSign_snd, spanned, read]
    exact ⟨_, rfl⟩
  cases spelled with
  | @hexadecimal sign digits _ mark signed marks any each ends =>
      have unsigned : ∀ c ∈ ('0' :: mark :: digits).head?, c ≠ '-' ∧ c ≠ '+' := by
        intro c first
        rw [← Option.some.inj first]
        decide
      refine signless (spanSign_of_sign signed unsigned) ?_
      rw [Numeral.readUnsigned_hexadecimal marks any]
      exact Numeral.exists_ofDigits each
  | @decimal sign whole fraction exponent _ signed each fractional powered ends =>
      have behind := powered.digitsEnd ends
      have tail := fractional.digitsEnd behind
      have shape : sign ++ whole ++ fraction ++ exponent ++ k =
          sign ++ (whole ++ (fraction ++ (exponent ++ k))) := by simp
      rw [shape, spanSign_of_sign signed (tail.not_sign each)] at follows
      have digit := exists_digit fractional behind follows
      -- what ends the digits in front of `k` ends them in the numeral by itself too
      rw [← List.append_assoc] at tail
      have inner := tail.of_append
      have unsigned := inner.not_sign each
      have shape' : sign ++ whole ++ fraction ++ exponent = sign ++ (whole ++ (fraction ++ exponent)) := by simp
      rw [shape'] at signless ⊢
      refine signless (spanSign_of_sign signed unsigned) ?_
      refine Numeral.exists_readUnsigned_unmarked (fun _ _ => inner.not_hexadecimal each) ?_
      obtain ⟨x, read⟩ := exists_readUnsigned each fractional powered inner digit
      have plain := spanSign_of_sign .none unsigned
      rw [List.nil_append] at plain
      refine exists_decimal (x := x) ?_
      rw [splitSign_snd, plain, read]

end Reading

theorem number_of_beginsNumber (begins : beginsNumber c rest = true) :
    (∃ cause ∈ numberFaults, ∃ after, number (c :: rest) = (.error ⟨cause, c :: rest⟩, after)) ∨
      ∃ raw value after, c :: rest = raw ++ after ∧ Spelled raw after ∧ Numeral.read raw = some value ∧
        number (c :: rest) = (.ok (.number value), after) := by
  refine (number_cases (c :: rest)).imp_right ?_
  rintro ⟨raw, after, whole, spelled⟩
  have follows := numberFollows_of_beginsNumber begins
  rw [whole] at follows ⊢
  obtain ⟨value, read⟩ := spelled.exists_read follows
  exact ⟨raw, value, after, rfl, spelled, read, by rw [spelled.run, closeNumber_of_ends spelled.ends read]⟩

theorem Fails.readable (fails : Fails c rest fault) (raw : Text) : fault.cause ≠ .unreadableNumber raw := by
  intro unreadable
  cases fails with
  | point => cases unreadable
  | number begins run =>
      rcases number_of_beginsNumber begins with ⟨cause, known, after, failed⟩ | ⟨_, value, after, -, -, -, read⟩
      · rw [failed] at run
        cases run
        rw [show cause = .unreadableNumber raw from unreadable] at known
        simp [numberFaults] at known
      · rw [read] at run
        cases run
  | string run =>
      have known := (StringLiteral.body_error (List.suffix_cons c rest) run).2
      rw [unreadable] at known
      simp [StringLiteral.faults] at known
  | quotedName run =>
      have known := (quotedName_error run).2
      rw [unreadable] at known
      simp [quotedNameFaults] at known

/-- Where a number begins, the scan finds something wrong with it, or what it takes off has the shape of a number
and is read as its value. No text is ever reported as a number that cannot be read. -/
theorem scanned_number_is_read (s : Text) :
    (∀ c rest, Text.trimStart s = c :: rest → beginsNumber c rest = true →
      (∃ cause ∈ numberFaults, ∃ after, next s = (.error ⟨cause, c :: rest⟩, after)) ∨
        ∃ raw value after, c :: rest = raw ++ after ∧ Spelled raw after ∧ Numeral.read raw = some value ∧
          next s = (.ok ⟨.number value, c :: rest⟩, after)) ∧
      ∀ fault after, next s = (.error fault, after) → ∀ raw, fault.cause ≠ .unreadableNumber raw := by
  constructor
  · intro c rest trimmed begins
    have step : next s = ((number (c :: rest)).1.map (⟨·, c :: rest⟩), (number (c :: rest)).2) := by
      simp only [next, trimmed, token_of_beginsNumber begins]
    rcases number_of_beginsNumber begins with ⟨cause, known, after, failed⟩ | ⟨raw, value, after, found⟩
    · exact .inl ⟨cause, known, after, by rw [step, failed]; rfl⟩
    · obtain ⟨whole, spelled, read, run⟩ := found
      exact .inr ⟨raw, value, after, whole, spelled, read, by rw [step, run]; rfl⟩
  · intro fault after failed
    unfold next at failed
    split at failed
    · cases failed
    · next c rest trimmed =>
        have inner : (token c rest).1 = .error fault := eq_error_of_map (Prod.mk.inj failed).1
        exact (fails_of_token (Prod.ext inner rfl)).readable

theorem fraction_before_range_is_read :
    ∃ raw value after, "-.5e+3..x".toList = raw ++ after ∧ Spelled raw after ∧ Numeral.read raw = some value ∧
      next " -.5e+3..x".toList = (.ok ⟨.number value, "-.5e+3..x".toList⟩, after) := by
  have trimmed : Text.trimStart " -.5e+3..x".toList = '-' :: ".5e+3..x".toList := by decide
  have begins : beginsNumber '-' ".5e+3..x".toList = true := by decide
  have read : (next " -.5e+3..x".toList).1.isOk = true := by decide +kernel
  rcases (scanned_number_is_read " -.5e+3..x".toList).1 _ _ trimmed begins with ⟨cause, -, after, failed⟩ | found
  · rw [failed] at read
    cases read
  · exact found

end Docblock.TypeExpr.Lexer
