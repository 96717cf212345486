import Docblock.Decimal.Notation
import Docblock.Decimal.Read
import Docblock.Proofs.Decimal.Shortest
import Docblock.Proofs.Text.Span

/-!
# Written numbers are read back

A number is written as digits, a fraction and an exponent, whatever the notation. What is written so spells
the number, and it is read as the number.
-/

set_option autoImplicit false

namespace Docblock

namespace Decimal

theorem isDigitOf_ten (c : Char) : isDigitOf 10 c = c.isDigit := by
  by_cases digit : c.isDigit = true
  · have bounds : 48 ≤ c.toNat ∧ c.toNat ≤ 57 := by
      simpa [Char.isDigit, UInt32.le_iff_toNat_le] using digit
    have small : c.toNat - 48 < 10 := by omega
    simpa [isDigitOf, digitValue?, digit] using small
  · have plain : c.isDigit = false := by simpa using digit
    simp only [isDigitOf, digitValue?, plain, Bool.false_eq_true, if_false]
    split
    · simp
    · split <;> simp

/-- An exponent as it is written: none, or a sign and digits. -/
inductive Power : Text → Int → Prop where
  | none : Power [] 0
  | signed {sign : Char} {digits : Text} (signs : sign = '-' ∨ sign = '+') (any : digits ≠ [])
      (decimal : ∀ c ∈ digits, c.isDigit = true) :
      Power ('e' :: sign :: digits)
        (if sign = '-' then -(natOfDigits digits : Int) else natOfDigits digits)

def pointed : Text → Text
  | [] => []
  | first :: more => '.' :: first :: more

/-- The text consists of digits, a fraction and an exponent, and spells the decimal. -/
inductive Written (raw : Text) (x : Decimal) : Prop where
  | parts (whole fraction : Text) {power : Text} {exponent : Int}
      (shape : raw = whole ++ (pointed fraction ++ power)) (any : whole ≠ [])
      (decimal : ∀ c ∈ whole ++ fraction, c.isDigit = true)
      (alone : whole.head? = some '0' → whole = ['0']) (powered : Power power exponent)
      (value : x = ⟨natOfDigits (whole ++ fraction), exponent - fraction.length⟩)

theorem Power.head {power : Text} {exponent : Int} (powered : Power power exponent) (c : Char)
    (first : c ∈ power.head?) : c = 'e' := by
  cases powered with
  | none => cases first
  | signed => exact (Option.some.inj first).symm

theorem Power.read {power : Text} {exponent : Int} (powered : Power power exponent) :
    readExponent power = some exponent := by
  cases powered with
  | none => rfl
  | @signed sign digits signs any decimal =>
      have every : digits.all Char.isDigit = true := List.all_eq_true.2 decimal
      have many : digits.isEmpty = false := by simpa using any
      rcases signs with rfl | rfl <;> simp [readExponent, splitSign, every, many]

theorem Power.pointed_head {power : Text} {exponent : Int} (powered : Power power exponent)
    (fraction : Text)
    (c : Char) (first : c ∈ (pointed fraction ++ power).head?) : c.isDigit = false := by
  cases fraction with
  | nil =>
      rw [powered.head c first]
      decide
  | cons d more =>
      rw [← Option.some.inj first]
      decide

theorem Written.readUnsigned {raw : Text} {x : Decimal} (written : Written raw x) :
    Decimal.readUnsigned raw = some x := by
  obtain @⟨whole, fraction, power, exponent, rfl, any, decimal, alone, powered, rfl⟩ := written
  have wholeDecimal : ∀ c ∈ whole, c.isDigit = true :=
    fun c inside => decimal c (List.mem_append_left _ inside)
  obtain ⟨taken, dropped⟩ := Text.span_all wholeDecimal (powered.pointed_head fraction)
  have many : whole.isEmpty = false := by simpa using any
  simp only [Decimal.readUnsigned, taken, dropped, many, Bool.false_and]
  cases fraction with
  | nil =>
      have valued := powered.read
      cases powered <;> simp_all [pointed]
  | cons first more =>
      have fractionDecimal : ∀ c ∈ first :: more, c.isDigit = true :=
        fun c inside => decimal c (List.mem_append_right _ inside)
      have stops : ∀ c ∈ power.head?, c.isDigit = false := fun c found => by
        rw [powered.head c found]
        decide
      obtain ⟨taken, dropped⟩ := Text.span_all fractionDecimal stops
      simp only [pointed, List.cons_append] at taken dropped ⊢
      simp [taken, dropped, powered.read]

theorem pointed_of_ne_nil {fraction : Text} (any : fraction ≠ []) :
    pointed fraction = '.' :: fraction := by
  cases fraction with
  | nil => exact absurd rfl any
  | cons => rfl

section Layout

variable (pointZero : Bool) {digits : Nat} (nonzero : digits ≠ 0)

include nonzero

theorem positional_whole (count : Nat) :
    ∃ y, Written (positional pointZero (natText digits) count) y ∧
      toBinary64 false y = toBinary64 false ⟨digits, count⟩ := by
  have front := natText_head_ne_zero nonzero
  have anyDigit := natText_ne_nil digits
  obtain ⟨places, shape⟩ : ∃ places, positional pointZero (natText digits) (count : Int) =
      (natText digits ++ List.replicate count '0') ++ (pointed (List.replicate places '0') ++ []) := by
    refine ⟨if pointZero then 1 else 0, ?_⟩
    cases pointZero <;> simp [positional, pointed]
  refine ⟨_, .parts _ _ shape (by simp [anyDigit]) ?_ ?_ .none rfl, ?_⟩
  · intro c inside
    rw [List.append_assoc, List.replicate_append_replicate, List.mem_append] at inside
    rcases inside with inside | inside
    · exact isDigit_of_mem_natText inside
    · rw [List.eq_of_mem_replicate inside]
      decide
  · intro zero
    obtain ⟨first, more, digitText⟩ := List.exists_cons_of_ne_nil anyDigit
    rw [digitText] at zero front
    exact absurd zero front
  · have value : natOfDigits (natText digits ++ List.replicate count '0' ++ List.replicate places '0') =
        digits * Nat.pow 10 (count + places) := by
      rw [List.append_assoc, List.replicate_append_replicate, natOfDigits_append, natOfDigits_replicate_zero,
        natOfDigits_natText, List.length_replicate, Nat.add_zero]
    have exponents : (0 : Int) - places + ((count + places : Nat) : Int) = count := by omega
    rw [value, List.length_replicate, toBinary64_mul_pow false nonzero, exponents]

theorem positional_inside {count : Nat} (some : 0 < count)
    (inside : count < (natText digits).length) :
    Written (positional pointZero (natText digits) (-(count : Int))) ⟨digits, -(count : Int)⟩ := by
  have below : ¬ 0 ≤ -(count : Int) := by omega
  have places : (-(-(count : Int))).toNat = count := by omega
  obtain ⟨front, back, split, length⟩ : ∃ front back, natText digits = front ++ back ∧
      back.length = count := by
    refine ⟨_, _, (List.take_append_drop ((natText digits).length - count) _).symm, ?_⟩
    rw [List.length_drop]
    omega
  have cut : (front ++ back).length - count = front.length := by
    rw [List.length_append]
    omega
  have anyFront : front ≠ [] := by
    rintro rfl
    rw [split, List.nil_append] at inside
    omega
  have anyBack : back ≠ [] := by
    rintro rfl
    rw [← length] at some
    exact absurd some (Nat.lt_irrefl 0)
  refine .parts front back ?_ anyFront ?_ ?_ .none ?_
  · rw [positional, if_neg below, places, if_pos inside, split, cut, List.take_left', List.drop_left',
      pointed_of_ne_nil anyBack, List.append_nil] <;> rfl
  · rw [← split]
    exact fun c => isDigit_of_mem_natText
  · intro zero
    refine absurd ?_ (natText_head_ne_zero nonzero)
    obtain ⟨first, more, rfl⟩ := List.exists_cons_of_ne_nil anyFront
    rw [split]
    exact zero
  · rw [← split, natOfDigits_natText, length, Int.zero_sub]

omit nonzero in
theorem positional_below {count : Nat} (some : 0 < count)
    (outside : (natText digits).length ≤ count) :
    Written (positional pointZero (natText digits) (-(count : Int))) ⟨digits, -(count : Int)⟩ := by
  have below : ¬ 0 ≤ -(count : Int) := by omega
  have places : (-(-(count : Int))).toNat = count := by omega
  have anyDigit := natText_ne_nil digits
  refine .parts ['0'] (List.replicate (count - (natText digits).length) '0' ++ natText digits)
    ?_ (by simp) ?_ (fun _ => rfl) .none ?_
  · rw [positional, if_neg below, places, if_neg (by omega), pointed_of_ne_nil (by simp [anyDigit])]
    simp
  · intro c member
    rw [← List.append_assoc, List.mem_append, List.mem_append] at member
    rcases member with (member | member) | member
    · rw [List.mem_singleton.1 member]
      decide
    · rw [List.eq_of_mem_replicate member]
      decide
    · exact isDigit_of_mem_natText member
  · have zero : natOfDigits ['0'] = 0 := rfl
    have length : (List.replicate (count - (natText digits).length) '0' ++ natText digits).length =
        count := by
      rw [List.length_append, List.length_replicate]
      omega
    rw [natOfDigits_append, natOfDigits_append, natOfDigits_replicate_zero, zero, length,
      natOfDigits_natText, Int.zero_sub]
    simp

theorem scientific_written (exponent : Int) :
    Written (scientific (natText digits) (leading ⟨digits, exponent⟩)) ⟨digits, exponent⟩ := by
  have front := natText_head_ne_zero nonzero
  have value := natOfDigits_natText digits
  have decimal : ∀ c ∈ natText digits, c.isDigit = true := fun c => isDigit_of_mem_natText
  have leads : leading ⟨digits, exponent⟩ = exponent + (natText digits).length - 1 := by
    rw [natText_length nonzero]
    rfl
  generalize leading ⟨digits, exponent⟩ = top at leads
  have powered : Power ('e' :: (if top < 0 then '-' else '+') :: natText top.natAbs) top := by
    have decimal : ∀ c ∈ natText top.natAbs, c.isDigit = true := fun c => isDigit_of_mem_natText
    by_cases negative : top < 0
    · have signed := Power.signed (.inl rfl) (natText_ne_nil top.natAbs) decimal
      have absolute : -(top.natAbs : Int) = top := by omega
      rw [if_pos rfl, natOfDigits_natText, absolute] at signed
      rwa [if_pos negative]
    · have signed := Power.signed (.inr rfl) (natText_ne_nil top.natAbs) decimal
      have absolute : (top.natAbs : Int) = top := by omega
      rw [if_neg (by decide), natOfDigits_natText, absolute] at signed
      rwa [if_neg negative]
  rcases shape : natText digits with _ | ⟨first, more⟩
  · exact absurd shape (natText_ne_nil digits)
  · rw [shape] at decimal front value leads
    refine .parts [first] more ?_ (by simp) decimal ?_ powered ?_
    · cases more <;> simp [scientific, pointed]
    · intro zero
      exact absurd zero front
    · have exponents : top - more.length = exponent := by
        rw [List.length_cons] at leads
        omega
      rw [List.singleton_append, value, exponents]

end Layout

/-- Every decimal is written in a spelling of the number it denotes. -/
theorem layout_written (format : Notation) {x : Decimal} (nonzero : x.digits ≠ 0) :
    ∃ y, Written (layout format x) y ∧ toBinary64 false y = toBinary64 false x := by
  obtain ⟨digits, exponent⟩ := x
  rw [layout]
  split
  · by_cases up : 0 ≤ exponent
    · obtain ⟨count, rfl⟩ := Int.eq_ofNat_of_zero_le up
      exact positional_whole format.pointZero nonzero count
    · obtain ⟨count, rfl⟩ : ∃ count : Nat, exponent = -(count : Int) :=
        ⟨(-exponent).toNat, by omega⟩
      have some : 0 < count := by omega
      by_cases inside : count < (natText digits).length
      · exact ⟨_, positional_inside format.pointZero nonzero some inside, rfl⟩
      · exact ⟨_, positional_below format.pointZero some (Nat.le_of_not_lt inside), rfl⟩
  · exact ⟨_, scientific_written nonzero exponent, rfl⟩

theorem isDigit_bounds {c : Char} (digit : c.isDigit = true) : 48 ≤ c.toNat ∧ c.toNat ≤ 57 := by
  simpa [Char.isDigit, UInt32.le_iff_toNat_le] using digit

theorem ne_of_isDigit {c d : Char} (digit : c.isDigit = true) (other : d.isDigit = false) : c ≠ d := by
  rintro rfl
  rw [digit] at other
  cases other

theorem toLower_of_isDigit {c : Char} (digit : c.isDigit = true) : c.toLower = c := by
  have bounds := isDigit_bounds digit
  have notUpper : ¬ (65 ≤ c.toNat ∧ c.toNat ≤ 90) := by omega
  exact dif_neg fun upper => notUpper ⟨upper.1, upper.2⟩

theorem splitSign_of_isDigit {c : Char} (digit : c.isDigit = true) (rest : Text) :
    splitSign (c :: rest) = (false, c :: rest) := by
  unfold splitSign
  split
  · next same => exact absurd (List.cons.inj same).1 (ne_of_isDigit digit (by decide))
  · next same => exact absurd (List.cons.inj same).1 (ne_of_isDigit digit (by decide))
  · rfl

theorem Written.begins {raw : Text} {x : Decimal} (written : Written raw x) :
    ∃ c rest, raw = c :: rest ∧ c.isDigit = true ∧
      (c = '0' → ∀ d ∈ rest.head?, d = '.' ∨ d = 'e') := by
  obtain @⟨whole, fraction, power, exponent, rfl, any, decimal, alone, powered, -⟩ := written
  obtain ⟨c, more, rfl⟩ := List.exists_cons_of_ne_nil any
  refine ⟨c, more ++ (pointed fraction ++ power), rfl, decimal c (by simp), ?_⟩
  rintro rfl d inside
  obtain rfl : more = [] := (List.cons.inj (alone rfl)).2
  cases fraction with
  | nil => exact .inr (powered.head d inside)
  | cons first rest => exact .inl (Option.some.inj inside).symm

/-- What is written for a decimal is read as its value, with or without a sign in front. -/
theorem Written.read_signed {raw : Text} {x : Decimal} (written : Written raw x) (negative : Bool) :
    Decimal.read ((if negative then ['-'] else []) ++ raw) = some (toBinary64 negative x) := by
  have value := written.readUnsigned
  obtain ⟨c, rest, rfl, digit, -⟩ := written.begins
  have word : ∀ (d : Char) (ds : Text), d.isDigit = false → sameWord (d :: ds) (c :: rest) = false := by
    intro d ds other
    have differ : (d == c) = false := by simpa using (ne_of_isDigit digit other).symm
    simp [sameWord, toLower_of_isDigit digit, differ]
  have split : splitSign ((if negative then ['-'] else []) ++ c :: rest) = (negative, c :: rest) := by
    cases negative with
    | false => exact splitSign_of_isDigit digit rest
    | true => rfl
  rw [Decimal.read, split]
  simp only [word _ _ (by decide : 'i'.isDigit = false), word _ _ (by decide : 'n'.isDigit = false),
    Bool.or_self, Bool.false_eq_true, if_false, value, Option.map_some]

theorem Written.read {raw : Text} {x : Decimal} (written : Written raw x) :
    Decimal.read raw = some (toBinary64 false x) :=
  written.read_signed false

theorem write_written (format : Notation) (negative : Bool) (magnitude : Fin Binary64.magnitudes) :
    ∃ raw x, write format (.finite negative magnitude) =
        (if negative && (magnitude.val != 0 || format.signedZero) then ['-'] else []) ++ raw ∧
      Written raw x ∧ ∀ sign, toBinary64 sign x = .finite sign magnitude := by
  rw [write]
  by_cases zero : magnitude.val = 0
  · obtain ⟨places, shape⟩ : ∃ places, positional format.pointZero ['0'] 0 =
        ['0'] ++ (pointed (List.replicate places '0') ++ []) := by
      refine ⟨if format.pointZero then 1 else 0, ?_⟩
      cases format.pointZero <;> rfl
    refine ⟨_, _, by simp [zero], .parts ['0'] _ shape (by simp) ?_ (fun _ => rfl) .none rfl, fun sign => ?_⟩
    · intro c inside
      rw [← List.replicate_one, List.replicate_append_replicate] at inside
      rw [List.eq_of_mem_replicate inside]
      decide
    · have nothing : natOfDigits (['0'] ++ List.replicate places '0') = 0 := by
        rw [← List.replicate_one, List.replicate_append_replicate, natOfDigits_replicate_zero]
      rw [toBinary64, if_pos nothing, Binary64.ofMagnitude, dif_pos (by decide)]
      exact congrArg _ (Fin.ext zero.symm)
  · obtain ⟨nonzero, denotes⟩ := shortest_denotes format.tie (show 0 < magnitude.val by omega)
    obtain ⟨y, written, value⟩ := layout_written format nonzero
    rw [denotes] at value
    refine ⟨_, y, by simp [zero], written, fun sign => ?_⟩
    cases sign with
    | false => exact value
    | true => rw [← toBinary64_neg, value]; rfl

/-! ## Characters -/

theorem Power.chars {power : Text} {exponent : Int} (powered : Power power exponent) :
    ∀ c ∈ power, c.isDigit = true ∨ c ∈ ['e', '-', '+'] := by
  cases powered with
  | none => simp
  | signed signs any decimal =>
      simp only [List.forall_mem_cons]
      refine ⟨by simp, ?_, fun c inside => .inl (decimal c inside)⟩
      rcases signs with rfl | rfl <;> simp

theorem Written.chars {raw : Text} {x : Decimal} (written : Written raw x) :
    ∀ c ∈ raw, c.isDigit = true ∨ c ∈ ['.', 'e', '-', '+'] := by
  obtain @⟨whole, fraction, power, exponent, rfl, -, decimal, -, powered, -⟩ := written
  rw [List.forall_mem_append] at decimal
  simp only [List.forall_mem_append]
  refine ⟨fun c inside => .inl (decimal.1 c inside), ?_, fun c inside => ?_⟩
  · cases fraction with
    | nil => simp [pointed]
    | cons first more =>
        rw [pointed, List.forall_mem_cons]
        exact ⟨by simp, fun c inside => .inl (decimal.2 c inside)⟩
  · exact (powered.chars c inside).imp_right (List.mem_cons_of_mem '.')

end Decimal

end Docblock
