import Docblock.TypeExpr.Lexer
import Docblock.Proofs.Decimal.Written

/-!
# The shape of numbers

`Spelled raw k`: the text `raw` has the shape of a number where `k` stands behind it. `number` takes the
text that has this shape off, and no other.
-/

set_option autoImplicit false

namespace Docblock.TypeExpr.Lexer

theorem spanDigits_append (base : Nat) (s : Text) :
    (spanDigits base s).1 ++ (spanDigits base s).2 = s :=
  List.takeWhile_append_dropWhile

theorem spanSign_append (s : Text) : (spanSign s).1 ++ (spanSign s).2 = s := by
  unfold spanSign
  split <;> rfl

theorem spanFraction_append (s : Text) : (spanFraction s).1 ++ (spanFraction s).2 = s := by
  unfold spanFraction
  split
  · rfl
  · next rest _ =>
      simp only [List.cons_append, spanDigits_append]
  · rfl

def numeralChars : Text :=
  "0123456789abcdefABCDEF+-.xX".toList

theorem mem_numeralChars_of_isDigitOf {base : Nat} {c : Char} (digit : Decimal.isDigitOf base c = true) :
    c ∈ numeralChars := by
  have shape : c.isDigit = true ∨ ('a' ≤ c ∧ c ≤ 'f') ∨ 'A' ≤ c ∧ c ≤ 'F' := by
    refine Decidable.byContradiction fun other => ?_
    rw [not_or, not_or] at other
    simp [Decimal.isDigitOf, Decimal.digitValue?, other] at digit
  have ascii : c.toNat < 128 := by
    simp only [Char.isDigit, Char.le_def, UInt32.le_iff_toNat_le, Bool.and_eq_true, decide_eq_true_eq] at shape
    rcases shape with ⟨-, upper⟩ | ⟨-, upper⟩ | ⟨-, upper⟩ <;> exact Nat.lt_of_le_of_lt upper (by decide)
  have every : ∀ n < 128, (Char.ofNat n).isDigit = true ∨ ('a' ≤ Char.ofNat n ∧ Char.ofNat n ≤ 'f') ∨
      ('A' ≤ Char.ofNat n ∧ Char.ofNat n ≤ 'F') → Char.ofNat n ∈ numeralChars := by decide +kernel
  have here := every c.toNat ascii
  rw [Char.ofNat_toNat] at here
  exact here shape

theorem isNameChar_of_mem_numeralChars {c : Char} (inside : c ∈ numeralChars) : isNameChar c = true := by
  have every : numeralChars.all isNameChar = true := by decide
  exact List.all_eq_true.1 every c inside

theorem isNameChar_of_isDigitOf {base : Nat} {c : Char} (digit : Decimal.isDigitOf base c = true) :
    isNameChar c = true :=
  isNameChar_of_mem_numeralChars (mem_numeralChars_of_isDigitOf digit)

section Digits

variable {base : Nat} {c : Char} {s digits k : Text}

theorem isDigitOf_of_mem_spanDigits (inside : c ∈ (spanDigits base s).1) :
    Decimal.isDigitOf base c = true :=
  List.all_eq_true.1 List.all_takeWhile c inside

theorem spanDigits_of_digits (each : ∀ c ∈ digits, Decimal.isDigitOf base c = true)
    (stops : ∀ c ∈ k.head?, Decimal.isDigitOf base c = false) :
    spanDigits base (digits ++ k) = (digits, k) := by
  obtain ⟨taken, left⟩ := Text.span_all each stops
  rw [spanDigits, taken, left]

end Digits

/-- No number goes on here, though a second one may begin with a point. -/
def NumberEnds (k : Text) : Prop :=
  ∀ c ∈ k.head?, c = '.' ∨ isNameChar c = false

inductive Sign : Text → Prop where
  | none : Sign []
  | minus : Sign ['-']
  | plus : Sign ['+']

/-- The text is a fraction in front of `k`. Two points are none, but a point is one by itself. -/
inductive Fraction : Text → Text → Prop where
  | none {k : Text} (range : k.head? = some '.' → ∃ more, k = '.' :: '.' :: more) : Fraction [] k
  | point {digits k : Text} (decimal : ∀ c ∈ digits, Decimal.isDigitOf 10 c = true)
      (single : digits = [] → k.head? ≠ some '.') : Fraction ('.' :: digits) k

inductive Exponent : Text → Prop where
  | none : Exponent []
  | power {mark : Char} {sign digits : Text} (marks : mark = 'e' ∨ mark = 'E') (signed : Sign sign)
      (any : digits ≠ []) (decimal : ∀ c ∈ digits, Decimal.isDigitOf 10 c = true) :
      Exponent (mark :: sign ++ digits)

/-- The text has the shape of a number in front of `k`. -/
inductive Spelled : Text → Text → Prop where
  | hexadecimal {sign digits k : Text} {mark : Char} (signed : Sign sign)
      (marks : mark = 'x' ∨ mark = 'X') (any : digits ≠ [])
      (each : ∀ c ∈ digits, Decimal.isDigitOf 16 c = true) (ends : NumberEnds k) :
      Spelled (sign ++ '0' :: mark :: digits) k
  | decimal {sign whole fraction exponent k : Text} (signed : Sign sign)
      (each : ∀ c ∈ whole, Decimal.isDigitOf 10 c = true)
      (fractional : Fraction fraction (exponent ++ k)) (powered : Exponent exponent)
      (ends : NumberEnds k) : Spelled (sign ++ whole ++ fraction ++ exponent) k

def DigitsEnd (k : Text) : Prop :=
  ∀ c ∈ k.head?, c = '.' ∨ c = 'e' ∨ c = 'E' ∨ isNameChar c = false

section Heads

variable {c d : Char} {k fraction exponent : Text}

theorem not_isDigitOf {base : Nat} (other : c = '.' ∨ isNameChar c = false) :
    Decimal.isDigitOf base c = false := by
  cases digit : Decimal.isDigitOf base c with
  | false => rfl
  | true =>
      have named := isNameChar_of_isDigitOf digit
      rcases other with rfl | other
      · simp [Decimal.isDigitOf, Decimal.digitValue?] at digit
      · rw [named] at other
        cases other

theorem NumberEnds.digits (ends : NumberEnds k) : DigitsEnd k :=
  fun c first => (ends c first).imp_right fun other => .inr (.inr other)

theorem DigitsEnd.not_digit (ends : DigitsEnd k) (c : Char) (first : c ∈ k.head?) :
    Decimal.isDigitOf 10 c = false := by
  rcases ends c first with dot | rfl | rfl | other
  · exact not_isDigitOf (.inl dot)
  · decide
  · decide
  · exact not_isDigitOf (.inr other)

theorem DigitsEnd.ne (ends : DigitsEnd k) (first : c ∈ k.head?) (named : isNameChar d = true)
    (apart : d ≠ '.' ∧ d ≠ 'e' ∧ d ≠ 'E') : c ≠ d := by
  rintro rfl
  rcases ends c first with dot | lower | upper | other
  · exact apart.1 dot
  · exact apart.2.1 lower
  · exact apart.2.2 upper
  · rw [named] at other
    cases other

theorem DigitsEnd.of_append {s : Text} (ends : DigitsEnd (s ++ k)) : DigitsEnd s := by
  intro c first
  refine ends c ?_
  rw [List.head?_append, Option.mem_def.1 first]
  rfl

theorem DigitsEnd.not_sign (ends : DigitsEnd k) {whole : Text}
    (each : ∀ c ∈ whole, Decimal.isDigitOf 10 c = true) :
    ∀ c ∈ (whole ++ k).head?, c ≠ '-' ∧ c ≠ '+' := by
  intro c first
  cases whole with
  | nil => exact ⟨ends.ne first (by decide) (by decide), ends.ne first (by decide) (by decide)⟩
  | cons d whole =>
      have digit := each d List.mem_cons_self
      rw [← Option.some.inj first]
      constructor <;> (rintro rfl; exact absurd digit (by decide))

theorem DigitsEnd.not_hexadecimal (ends : DigitsEnd k) {whole rest : Text} {mark : Char}
    (each : ∀ c ∈ whole, Decimal.isDigitOf 10 c = true) (same : whole ++ k = '0' :: mark :: rest) :
    mark ≠ 'x' ∧ mark ≠ 'X' := by
  rcases whole with _ | ⟨d, _ | ⟨e, whole⟩⟩
  · exact absurd rfl (ends.ne (congrArg List.head? same) (by decide) (by decide : '0' ≠ '.' ∧ _))
  · have first := congrArg List.head? (List.cons.inj same).2
    exact ⟨ends.ne first (by decide) (by decide), ends.ne first (by decide) (by decide)⟩
  · have digit := each e (by simp)
    obtain ⟨rfl, -⟩ := List.cons.inj (List.cons.inj same).2
    constructor <;> (rintro rfl; exact absurd digit (by decide))

theorem Exponent.digitsEnd (powered : Exponent exponent) (ends : NumberEnds k) :
    DigitsEnd (exponent ++ k) := by
  cases powered with
  | none => exact ends.digits
  | power marks =>
      intro c first
      rw [← Option.some.inj first]
      exact .inr (marks.imp_right .inl)

theorem Fraction.digitsEnd (fractional : Fraction fraction k) (ends : DigitsEnd k) :
    DigitsEnd (fraction ++ k) := by
  cases fractional with
  | none => exact ends
  | point =>
      intro c first
      exact .inl (Option.some.inj first).symm

end Heads

theorem Spelled.ends {raw k : Text} (spelled : Spelled raw k) : NumberEnds k := by
  cases spelled with
  | hexadecimal signed marks any each ends => exact ends
  | decimal signed each fractional powered ends => exact ends

section Characters

variable {c : Char} {raw sign fraction exponent k : Text}

theorem Sign.mem_numeralChars (signed : Sign sign) (inside : c ∈ sign) : c ∈ numeralChars := by
  cases signed with
  | none => cases inside
  | minus =>
      rw [List.mem_singleton.1 inside]
      decide
  | plus =>
      rw [List.mem_singleton.1 inside]
      decide

theorem Fraction.mem_numeralChars (fractional : Fraction fraction k) (inside : c ∈ fraction) :
    c ∈ numeralChars := by
  cases fractional with
  | none => cases inside
  | point decimal =>
      rcases List.mem_cons.1 inside with rfl | inside
      · decide
      · exact mem_numeralChars_of_isDigitOf (decimal c inside)

theorem Exponent.mem_numeralChars (powered : Exponent exponent) (inside : c ∈ exponent) :
    c ∈ numeralChars := by
  cases powered with
  | none => cases inside
  | power marks signed any decimal =>
      rcases List.mem_append.1 inside with inside | inside
      · rcases List.mem_cons.1 inside with rfl | inside
        · rcases marks with rfl | rfl <;> decide
        · exact signed.mem_numeralChars inside
      · exact mem_numeralChars_of_isDigitOf (decimal c inside)

theorem Spelled.mem_numeralChars (spelled : Spelled raw k) (inside : c ∈ raw) : c ∈ numeralChars := by
  cases spelled with
  | hexadecimal signed marks any each ends =>
      rcases List.mem_append.1 inside with inside | inside
      · exact signed.mem_numeralChars inside
      · rcases List.mem_cons.1 inside with rfl | inside
        · decide
        · rcases List.mem_cons.1 inside with rfl | inside
          · rcases marks with rfl | rfl <;> decide
          · exact mem_numeralChars_of_isDigitOf (each c inside)
  | decimal signed each fractional powered ends =>
      rcases List.mem_append.1 inside with inside | inside
      · rcases List.mem_append.1 inside with inside | inside
        · rcases List.mem_append.1 inside with inside | inside
          · exact signed.mem_numeralChars inside
          · exact mem_numeralChars_of_isDigitOf (each c inside)
        · exact fractional.mem_numeralChars inside
      · exact powered.mem_numeralChars inside

end Characters

section Runs

variable {start raw sign whole fraction exponent k : Text}

theorem spanSign_of_sign (signed : Sign sign) (ends : ∀ c ∈ k.head?, c ≠ '-' ∧ c ≠ '+') :
    spanSign (sign ++ k) = (sign, k) := by
  cases signed with
  | none =>
      rw [List.nil_append, spanSign.eq_3]
      · rintro rest rfl
        exact (ends '-' rfl).1 rfl
      · rintro rest rfl
        exact (ends '+' rfl).2 rfl
  | minus => rfl
  | plus => rfl

theorem spanFraction_of_fraction (fractional : Fraction fraction k) (ends : DigitsEnd k) :
    spanFraction (fraction ++ k) = (fraction, k) := by
  cases fractional with
  | none range =>
      cases k with
      | nil => rfl
      | cons c k =>
          by_cases dot : c = '.'
          · obtain ⟨more, shape⟩ := range (congrArg some dot)
            rw [shape]
            rfl
          · rw [List.nil_append, spanFraction.eq_3]
            · rintro rest same
              exact dot (List.cons.inj same).1
            · rintro rest same
              exact dot (List.cons.inj same).1
  | @point digits _ decimal single =>
      have spanned := spanDigits_of_digits decimal ends.not_digit
      rw [List.cons_append, spanFraction.eq_2, spanned]
      intro rest same
      cases digits with
      | nil => exact single rfl (congrArg List.head? same)
      | cons first more =>
          have digit := decimal first List.mem_cons_self
          obtain ⟨rfl, -⟩ := List.cons.inj same
          revert digit
          decide

theorem exponentPart_of_exponent (powered : Exponent exponent) (ends : NumberEnds k) :
    exponentPart start raw (exponent ++ k) = closeNumber start (raw ++ exponent) k := by
  cases powered with
  | none =>
      cases k with
      | nil => simp [exponentPart]
      | cons c k =>
          have apart : ¬ (c = 'e' ∨ c = 'E') := by
            rintro (rfl | rfl) <;> exact absurd (ends _ rfl) (by decide)
          simp [exponentPart, apart]
  | @power mark sign digits marks signed any decimal =>
      have spanned := spanDigits_of_digits decimal ends.digits.not_digit
      have many : digits.isEmpty = false := by simpa using any
      have taken : spanSign (sign ++ (digits ++ k)) = (sign, digits ++ k) := by
        apply spanSign_of_sign signed
        obtain ⟨first, more, rfl⟩ := List.exists_cons_of_ne_nil any
        have digit := decimal first List.mem_cons_self
        intro c found
        rw [← Option.some.inj found]
        constructor <;> (rintro rfl; exact absurd digit (by decide))
      simp [exponentPart, marks, taken, spanned, many]

theorem Spelled.run (spelled : Spelled raw k) : number (raw ++ k) = closeNumber (raw ++ k) raw k := by
  cases spelled with
  | @hexadecimal sign digits _ mark signed marks any each ends =>
      have many : digits.isEmpty = false := by simpa using any
      have spanned := spanDigits_of_digits each fun c first => not_isDigitOf (ends c first)
      have taken : spanSign (sign ++ ('0' :: mark :: (digits ++ k))) =
          (sign, '0' :: mark :: (digits ++ k)) := by
        apply spanSign_of_sign signed
        intro c found
        rw [← Option.some.inj found]
        decide
      rcases marks with rfl | rfl <;> simp [number, taken, spanned, many]
  | @decimal sign whole fraction exponent _ signed each fractional powered ends =>
      have behind := powered.digitsEnd ends
      have tail := fractional.digitsEnd behind
      have spanned := spanDigits_of_digits each tail.not_digit
      have taken : spanSign (sign ++ (whole ++ (fraction ++ (exponent ++ k)))) =
          (sign, whole ++ (fraction ++ (exponent ++ k))) :=
        spanSign_of_sign signed (tail.not_sign each)
      have shape : sign ++ whole ++ fraction ++ exponent ++ k =
          sign ++ (whole ++ (fraction ++ (exponent ++ k))) := by simp
      rw [shape]
      simp only [number, taken]
      split
      · next same => exact absurd rfl (tail.not_hexadecimal each same).1
      · next same => exact absurd rfl (tail.not_hexadecimal each same).2
      · simp only [spanned, spanFraction_of_fraction fractional behind]
        exact exponentPart_of_exponent powered ends

end Runs

section Shapes

variable {start raw s after : Text} {kind : Token.Kind}

def numberFaults : List Cause :=
  [.noHexDigits, .noExponentDigits, .numberRunsOn]

theorem closeNumber_eq (ends : NumberEnds after) :
    closeNumber start raw after =
      ((Numeral.read raw).elim (.error ⟨.unreadableNumber raw, start⟩) fun value => .ok (.number value),
        after) := by
  cases after with
  | nil =>
      simp only [closeNumber]
      cases Numeral.read raw <;> rfl
  | cons c after =>
      have ended : (c != '.' && isNameChar c) = false := by
        rcases ends c rfl with rfl | other <;> simp [*]
      simp only [closeNumber, ended]
      cases Numeral.read raw <;> rfl

theorem closeNumber_of_ends (ends : NumberEnds after) {value : Binary64}
    (read : Numeral.read raw = some value) :
    closeNumber start raw after = (.ok (.number value), after) := by
  rw [closeNumber_eq ends, read, Option.elim_some]

theorem closeNumber_cases (start raw after : Text) :
    closeNumber start raw after = (.error ⟨.numberRunsOn, start⟩, after) ∨ NumberEnds after := by
  cases after with
  | nil => exact .inr fun c first => by cases first
  | cons c after =>
      by_cases runsOn : (c != '.' && isNameChar c) = true
      · exact .inl (by simp [closeNumber, runsOn])
      · refine .inr fun d first => ?_
        obtain rfl := Option.some.inj first
        simp only [Bool.and_eq_true, bne_iff_ne, not_and, Bool.not_eq_true] at runsOn
        exact Decidable.or_iff_not_imp_left.2 runsOn

theorem sign_spanSign (s : Text) : Sign (spanSign s).1 := by
  unfold spanSign
  split
  · exact .minus
  · exact .plus
  · exact .none

theorem fraction_spanFraction (s : Text) : Fraction (spanFraction s).1 (spanFraction s).2 := by
  unfold spanFraction
  split
  · next rest => exact .none fun _ => ⟨rest, rfl⟩
  · next rest other =>
      refine .point (fun c => isDigitOf_of_mem_spanDigits) fun nothing first => ?_
      have whole := spanDigits_append 10 rest
      rw [nothing, List.nil_append] at whole
      rw [whole] at first
      obtain ⟨more, shape⟩ := List.head?_eq_some_iff.1 first
      exact other more shape
  · next noRange noPoint =>
      refine .none fun first => ?_
      obtain ⟨more, shape⟩ := List.head?_eq_some_iff.1 first
      exact absurd shape (noPoint more)

theorem exponentPart_cases (start raw s : Text) :
    (∃ after, exponentPart start raw s = (.error ⟨.noExponentDigits, start⟩, after)) ∨
      ∃ exponent after, s = exponent ++ after ∧ Exponent exponent ∧
        exponentPart start raw s = closeNumber start (raw ++ exponent) after := by
  cases s with
  | nil => exact .inr ⟨[], [], rfl, .none, by simp [exponentPart]⟩
  | cons mark rest =>
      simp only [exponentPart]
      by_cases marks : mark = 'e' ∨ mark = 'E'
      · rw [if_pos marks]
        by_cases none : (spanDigits 10 (spanSign rest).2).1 = []
        · exact .inl ⟨_, if_pos (by simp [none])⟩
        · refine .inr ⟨mark :: (spanSign rest).1 ++ (spanDigits 10 (spanSign rest).2).1,
            (spanDigits 10 (spanSign rest).2).2, ?_, ?_, ?_⟩
          · simp [spanDigits_append, spanSign_append]
          · exact .power marks (sign_spanSign rest) none fun c => isDigitOf_of_mem_spanDigits
          · simp [none]
      · exact .inr ⟨[], mark :: rest, rfl, .none, by simp [marks]⟩

/-- The scan finds something wrong by itself, or it takes off what has the shape of a number. -/
theorem number_cases (start : Text) :
    (∃ cause ∈ numberFaults, ∃ after, number start = (.error ⟨cause, start⟩, after)) ∨
      ∃ raw after, start = raw ++ after ∧ Spelled raw after := by
  have signed := spanSign_append start
  have hexadecimal : ∀ mark rest, mark = 'x' ∨ mark = 'X' → (spanSign start).2 = '0' :: mark :: rest →
      (∃ cause ∈ numberFaults, ∃ after, number start = (.error ⟨cause, start⟩, after)) ∨
        ∃ raw after, start = raw ++ after ∧ Spelled raw after := by
    intro mark rest marks unsigned
    have run : number start = if (spanDigits 16 rest).1.isEmpty then
          (.error ⟨.noHexDigits, start⟩, (spanDigits 16 rest).2)
        else closeNumber start ((spanSign start).1 ++ '0' :: mark :: (spanDigits 16 rest).1)
          (spanDigits 16 rest).2 := by
      rcases marks with rfl | rfl <;> simp only [number, unsigned]
    by_cases none : (spanDigits 16 rest).1 = []
    · rw [if_pos (by simp [none])] at run
      exact .inl ⟨_, by simp [numberFaults], _, run⟩
    · rw [if_neg (by simp [none])] at run
      rcases closeNumber_cases start _ _ with failed | ends
      · exact .inl ⟨_, by simp [numberFaults], _, run.trans failed⟩
      · refine .inr ⟨_, _, ?_, .hexadecimal (sign_spanSign start) marks none
          (fun c => isDigitOf_of_mem_spanDigits) ends⟩
        rw [unsigned] at signed
        simp [spanDigits_append, signed]
  by_cases marked : ∃ mark rest, (mark = 'x' ∨ mark = 'X') ∧ (spanSign start).2 = '0' :: mark :: rest
  · obtain ⟨mark, rest, marks, unsigned⟩ := marked
    exact hexadecimal mark rest marks unsigned
  · have run : number start = exponentPart start
        ((spanSign start).1 ++ (spanDigits 10 (spanSign start).2).1 ++
          (spanFraction (spanDigits 10 (spanSign start).2).2).1)
        (spanFraction (spanDigits 10 (spanSign start).2).2).2 := by
      simp only [number]
      split
      · next rest unsigned => exact absurd ⟨_, rest, .inl rfl, unsigned⟩ marked
      · next rest unsigned => exact absurd ⟨_, rest, .inr rfl, unsigned⟩ marked
      · rfl
    rcases exponentPart_cases start _ _ with ⟨after, failed⟩ | ⟨exponent, after, shape, powered, closed⟩
    · exact .inl ⟨_, by simp [numberFaults], after, run.trans failed⟩
    · rcases closeNumber_cases start _ after with failed | ends
      · exact .inl ⟨_, by simp [numberFaults], _, (run.trans closed).trans failed⟩
      · have fractional := fraction_spanFraction (spanDigits 10 (spanSign start).2).2
        rw [shape] at fractional
        have whole : ∀ c ∈ (spanDigits 10 (spanSign start).2).1, Decimal.isDigitOf 10 c = true :=
          fun c => isDigitOf_of_mem_spanDigits
        refine .inr ⟨_, after, ?_, .decimal (sign_spanSign start) whole fractional powered ends⟩
        simp only [List.append_assoc, ← shape, spanFraction_append, spanDigits_append, signed]

theorem number_ok (run : number start = (.ok kind, after)) :
    ∃ raw, start = raw ++ after ∧ Spelled raw after ∧
      ∃ value, Numeral.read raw = some value ∧ kind = .number value := by
  rcases number_cases start with ⟨cause, -, behind, failed⟩ | ⟨raw, behind, rfl, spelled⟩
  · rw [failed] at run
    cases run
  · have closed := spelled.run
    rw [run, closeNumber_eq spelled.ends] at closed
    obtain ⟨closed, rfl⟩ := Prod.mk.inj closed
    cases read : Numeral.read raw with
    | none =>
        rw [read] at closed
        cases closed
    | some value =>
        rw [read] at closed
        cases closed
        exact ⟨raw, rfl, spelled, value, read, rfl⟩

end Shapes

end Docblock.TypeExpr.Lexer
