import Docblock.Proofs.TypeExpr.Lexeme
import Docblock.Proofs.Decimal.Written

/-!
# Numbers are read back

A number is written as digits, a fraction and an exponent. What is written so is one token, and its
value is the number.
-/

set_option autoImplicit false

namespace Docblock

namespace TypeExpr

open Decimal (Written toBinary64)

theorem Numeral.isOctal_of_written {raw : Text} {x : Decimal} (written : Written raw x) :
    Numeral.isOctal raw = false := by
  obtain ⟨c, rest, rfl, digit, alone⟩ := written.begins
  unfold Numeral.isOctal
  split
  · next first more same =>
      obtain ⟨rfl, rfl⟩ := List.cons.inj same
      rcases alone rfl first rfl with rfl | rfl <;> simp [Decimal.isDigitOf, Decimal.digitValue?]
  · rfl

section Forms

variable {base : Nat} {mark : Char} {s digits : Text}

theorem Numeral.exists_ofDigits (each : ∀ c ∈ digits, Decimal.isDigitOf base c = true) :
    ∃ value, Numeral.ofDigits base digits = some value := by
  unfold Numeral.ofDigits
  generalize Binary64.ofMagnitude false 0 = start
  induction digits generalizing start with
  | nil => exact ⟨start, rfl⟩
  | cons c digits induction =>
      obtain ⟨digit, known⟩ := Option.isSome_iff_exists.1 (each c List.mem_cons_self)
      simp only [List.foldlM_cons, known, Option.map_some, Option.bind_eq_bind, Option.bind_some]
      exact induction (fun d inside => each d (List.mem_cons_of_mem c inside)) _

theorem Numeral.readUnsigned_hexadecimal (marks : mark = 'x' ∨ mark = 'X') (any : digits ≠ []) :
    Numeral.readUnsigned ('0' :: mark :: digits) = Numeral.ofDigits 16 digits := by
  have many : digits.isEmpty = false := by simpa using any
  rcases marks with rfl | rfl <;> simp [Numeral.readUnsigned, many]

theorem Numeral.readUnsigned_unmarked
    (unmarked : ∀ mark rest, s = '0' :: mark :: rest → mark ≠ 'x' ∧ mark ≠ 'X') :
    Numeral.readUnsigned s =
      if Numeral.isOctal s then Numeral.ofDigits 8 (s.drop 1) else Decimal.read s := by
  unfold Numeral.readUnsigned
  split
  · exact absurd rfl (unmarked _ _ rfl).1
  · exact absurd rfl (unmarked _ _ rfl).2
  · rfl

/-- Octal numbers need not be decimals that are read. -/
theorem Numeral.exists_readUnsigned_unmarked
    (unmarked : ∀ mark rest, s = '0' :: mark :: rest → mark ≠ 'x' ∧ mark ≠ 'X')
    (decimal : ∃ value, Decimal.read s = some value) : ∃ value, Numeral.readUnsigned s = some value := by
  rw [readUnsigned_unmarked unmarked]
  split
  · next octal =>
      unfold isOctal at octal
      split at octal
      · exact exists_ofDigits (List.all_eq_true.1 octal)
      · cases octal
  · exact decimal

theorem Numeral.readUnsigned_octal (any : digits ≠ [])
    (each : ∀ c ∈ digits, Decimal.isDigitOf 8 c = true) :
    Numeral.readUnsigned ('0' :: digits) = Numeral.ofDigits 8 digits := by
  obtain ⟨first, more, rfl⟩ := List.exists_cons_of_ne_nil any
  have octal : Numeral.isOctal ('0' :: first :: more) = true := List.all_eq_true.2 each
  rw [Numeral.readUnsigned_unmarked, if_pos octal, List.drop_one, List.tail_cons]
  intro mark rest same
  obtain ⟨rfl, -⟩ := List.cons.inj (List.cons.inj same).2
  have digit := each first List.mem_cons_self
  constructor <;> (rintro rfl; cases digit)

end Forms

theorem Numeral.readUnsigned_of_written {raw : Text} {x : Decimal} (written : Written raw x) :
    Numeral.readUnsigned raw = some (toBinary64 false x) := by
  rw [readUnsigned_unmarked, isOctal_of_written written, written.read]
  · rfl
  · obtain ⟨c, rest, rfl, digit, alone⟩ := written.begins
    intro mark more same
    obtain ⟨rfl, rfl⟩ := List.cons.inj same
    rcases alone rfl mark rfl with rfl | rfl <;> decide

theorem Numeral.read_of_written {raw : Text} {x : Decimal} (written : Written raw x) :
    Numeral.read raw = some (toBinary64 false x) ∧
      Numeral.read ('-' :: raw) = some (toBinary64 true x) := by
  have value := readUnsigned_of_written written
  constructor
  · obtain ⟨c, rest, rfl, digit, -⟩ := written.begins
    rw [Numeral.read, Decimal.splitSign_of_isDigit digit]
    simp [value]
  · simp [Numeral.read, Decimal.splitSign, value, Decimal.toBinary64_neg]

theorem Numeral.write_written {v : Binary64} (finite : v.isFinite = true) :
    ∃ negative raw x, Numeral.write v = (if negative then ['-'] else []) ++ raw ∧ Written raw x ∧
      v.same (toBinary64 negative x) = true := by
  cases v with
  | nan => cases finite
  | infinite negative => cases finite
  | finite negative magnitude =>
      obtain ⟨raw, x, shape, written, value⟩ := Decimal.write_written Numeral.canonical negative magnitude
      refine ⟨_, raw, x, shape, written, ?_⟩
      rw [value]
      by_cases zero : magnitude.val = 0 <;> simp [Binary64.same, Numeral.canonical, zero]

section NotNan

theorem ofMagnitude_ne_nan (negative : Bool) (k : Nat) : Binary64.ofMagnitude negative k ≠ .nan := by
  unfold Binary64.ofMagnitude
  split <;> exact nofun

theorem timesNat_ne_nan {value : Binary64} {n : Nat} (positive : n ≠ 0) (number : value ≠ .nan) :
    value.timesNat n ≠ .nan := by
  cases value with
  | nan => exact absurd rfl number
  | infinite negative => simp [Binary64.timesNat, positive]
  | finite negative magnitude => exact ofMagnitude_ne_nan _ _

theorem plusNat_ne_nan {value : Binary64} (number : value ≠ .nan) (n : Nat) : value.plusNat n ≠ .nan := by
  cases value with
  | nan => exact absurd rfl number
  | infinite negative => exact nofun
  | finite negative magnitude => exact ofMagnitude_ne_nan _ _

theorem neg_ne_nan {value : Binary64} (number : value ≠ .nan) : value.neg ≠ .nan := by
  cases value with
  | nan => exact absurd rfl number
  | _ => exact nofun

theorem toBinary64_ne_nan (negative : Bool) (x : Decimal) : toBinary64 negative x ≠ .nan := by
  unfold Decimal.toBinary64
  split
  · exact ofMagnitude_ne_nan _ _
  split
  · exact nofun
  split
  · exact ofMagnitude_ne_nan _ _
  · exact ofMagnitude_ne_nan _ _

/-- Digits make a number, however many there are: one that grows too large is infinite. -/
theorem Numeral.ofDigits_ne_nan {base : Nat} (positive : base ≠ 0) {digits : Text} {value : Binary64}
    (read : Numeral.ofDigits base digits = some value) : value ≠ .nan := by
  unfold Numeral.ofDigits at read
  have number := ofMagnitude_ne_nan false 0
  revert read number
  generalize Binary64.ofMagnitude false 0 = start
  intro read number
  induction digits generalizing start with
  | nil =>
      obtain rfl : start = value := by simpa using read
      exact number
  | cons c digits induction =>
      cases digit : Decimal.digitValue? base c with
      | none => simp [digit] at read
      | some n =>
          simp only [List.foldlM_cons, digit, Option.map_some, Option.bind_eq_bind, Option.bind_some] at read
          exact induction _ read (plusNat_ne_nan (timesNat_ne_nan positive number) n)

theorem mem_of_mem_splitSign {s : Text} {c : Char} (inside : c ∈ (Decimal.splitSign s).2) : c ∈ s := by
  unfold Decimal.splitSign at inside
  split at inside
  · exact List.mem_cons_of_mem _ inside
  · exact List.mem_cons_of_mem _ inside
  · exact inside

theorem decimal_ne_nan {s : Text} {value : Binary64} (read : Decimal.read s = some value)
    (noLetter : ∀ c ∈ s, c.toLower ≠ 'n') : value ≠ .nan := by
  rcases signed : Decimal.splitSign s with ⟨negative, unsigned⟩
  have noWord : Decimal.sameWord ['n', 'a', 'n'] unsigned = false := by
    rw [← Bool.not_eq_true, Decimal.sameWord, beq_iff_eq]
    intro same
    have first : 'n' ∈ unsigned.map Char.toLower := same ▸ List.mem_cons_self
    obtain ⟨c, inside, lower⟩ := List.mem_map.1 first
    refine noLetter c (mem_of_mem_splitSign ?_) lower
    rwa [signed]
  rw [Decimal.read, signed] at read
  simp only [noWord, Bool.false_eq_true, if_false] at read
  split at read
  · cases read
    simp
  · obtain ⟨x, -, rfl⟩ := Option.map_eq_some_iff.1 read
    exact toBinary64_ne_nan _ x

theorem Numeral.readUnsigned_ne_nan {s : Text} {value : Binary64}
    (read : Numeral.readUnsigned s = some value) (noLetter : ∀ c ∈ s, c.toLower ≠ 'n') : value ≠ .nan := by
  have hexadecimal : ∀ digits : Text,
      (if digits.isEmpty then none else Numeral.ofDigits 16 digits) = some value → value ≠ .nan := by
    intro digits found
    split at found
    · cases found
    · exact Numeral.ofDigits_ne_nan (by decide) found
  unfold Numeral.readUnsigned at read
  split at read
  · exact hexadecimal _ read
  · exact hexadecimal _ read
  · split at read
    · exact Numeral.ofDigits_ne_nan (by decide) read
    · exact decimal_ne_nan read noLetter

theorem Numeral.read_ne_nan {raw : Text} {value : Binary64} (read : Numeral.read raw = some value)
    (noLetter : ∀ c ∈ raw, c.toLower ≠ 'n') : value ≠ .nan := by
  rcases signed : Decimal.splitSign raw with ⟨negative, s⟩
  rw [Numeral.read, signed] at read
  obtain ⟨unsigned, found, rfl⟩ := Option.map_eq_some_iff.1 read
  have number : unsigned ≠ .nan := by
    apply Numeral.readUnsigned_ne_nan found
    intro c inside
    apply noLetter
    apply mem_of_mem_splitSign
    rwa [signed]
  cases negative with
  | true => exact neg_ne_nan number
  | false => exact number

end NotNan

namespace Lexer

theorem toLower_ne_n {c : Char} (inside : c ∈ numeralChars) : c.toLower ≠ 'n' := by
  have every : numeralChars.all (·.toLower != 'n') = true := by decide
  exact bne_iff_ne.1 (List.all_eq_true.1 every c inside)

theorem number_ne_nan {start after : Text} {value : Binary64}
    (run : number start = (.ok (.number value), after)) : value ≠ .nan := by
  obtain ⟨raw, -, spelled, other, read, same⟩ := number_ok run
  cases same
  exact Numeral.read_ne_nan read fun c inside => toLower_ne_n (spelled.mem_numeralChars inside)

def Stops (k : Text) : Prop :=
  ∀ c ∈ k.head?, isNameChar c = false

theorem Stops.ne {k : Text} (stops : Stops k) {c d : Char} (first : c ∈ k.head?)
    (named : isNameChar d = true) : c ≠ d := by
  rintro rfl
  rw [stops c first] at named
  cases named

theorem isNameChar_of_isDigit {c : Char} (digit : c.isDigit = true) : isNameChar c = true := by
  rw [← Decimal.isDigitOf_ten] at digit
  exact isNameChar_of_isDigitOf digit

theorem Stops.not_isDigit {k : Text} (stops : Stops k) (c : Char) (first : c ∈ k.head?) :
    c.isDigit = false := by
  cases digit : c.isDigit with
  | false => rfl
  | true => exact absurd rfl (stops.ne first (isNameChar_of_isDigit digit))

theorem Stops.numberEnds {k : Text} (stops : Stops k) : NumberEnds k :=
  fun c first => .inr (stops c first)

theorem isDigitOf_ten_of_decimal {digits : Text} (decimal : ∀ c ∈ digits, c.isDigit = true) (c : Char)
    (inside : c ∈ digits) : Decimal.isDigitOf 10 c = true := by
  rw [Decimal.isDigitOf_ten]
  exact decimal c inside

theorem exponent_of_power {power : Text} {exponent : Int} (powered : Decimal.Power power exponent) :
    Exponent power := by
  cases powered with
  | none => exact .none
  | signed signs any decimal =>
      rcases signs with rfl | rfl
      · exact .power (.inl rfl) .minus any (isDigitOf_ten_of_decimal decimal)
      · exact .power (.inl rfl) .plus any (isDigitOf_ten_of_decimal decimal)

theorem spelled_of_written {sign raw k : Text} {x : Decimal} (signed : Sign sign) (written : Written raw x)
    (stops : Stops k) : Spelled (sign ++ raw) k := by
  obtain @⟨whole, fraction, power, exponent, rfl, any, decimal, -, powered, -⟩ := written
  have fractional : Fraction (Decimal.pointed fraction) (power ++ k) := by
    have noPoint : (power ++ k).head? ≠ some '.' := by
      intro first
      cases powered with
      | none => exact stops.ne first (by decide) rfl
      | signed => cases first
    cases fraction with
    | nil => exact .none fun first => absurd first noPoint
    | cons first more =>
        refine .point (isDigitOf_ten_of_decimal fun c inside => ?_) fun _ => noPoint
        exact decimal c (List.mem_append_right _ inside)
  have each : ∀ c ∈ whole, Decimal.isDigitOf 10 c = true :=
    isDigitOf_ten_of_decimal fun c inside => decimal c (List.mem_append_left _ inside)
  have spelled := Spelled.decimal signed each fractional (exponent_of_power powered) stops.numberEnds
  simpa using spelled

/-- What is written for a number is read as its value, with or without a sign in front. -/
theorem number_of_written {raw k : Text} {x : Decimal} (written : Written raw x) (stops : Stops k) :
    number (raw ++ k) = (.ok (.number (toBinary64 false x)), k) ∧
      number ('-' :: raw ++ k) = (.ok (.number (toBinary64 true x)), k) := by
  obtain ⟨plain, negative⟩ := Numeral.read_of_written written
  constructor
  · have run := (spelled_of_written .none written stops).run
    rw [List.nil_append] at run
    rw [run, closeNumber_of_ends stops.numberEnds plain]
  · have run := (spelled_of_written .minus written stops).run
    rw [List.singleton_append] at run
    rw [run, closeNumber_of_ends stops.numberEnds negative]

end Lexer

end TypeExpr

end Docblock
