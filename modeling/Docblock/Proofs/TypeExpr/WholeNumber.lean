import Mathlib.Data.List.Induction
import Docblock.Proofs.Binary64.Neighbours
import Docblock.Proofs.TypeExpr.Numeral

/-!
# Whole numbers in three bases

A decimal numeral is rounded once. A hexadecimal or octal one is rounded at every digit, which comes to the
same unless a front of its digits is a tie that is rounded down and what stands behind is not zero.
-/

set_option autoImplicit false

namespace Docblock.TypeExpr.Numeral

open Binary64 (binade magnitudes units one nearestMagnitude ofMagnitude IsEvenTie)

def natOf? (base : Nat) (digits : Text) : Option Nat :=
  digits.foldlM (fun n c => (Decimal.digitValue? base c).map (n * base + ·)) 0

section Digits

variable {base d n : Nat} {c : Char} {digits : Text}

theorem natOf?_concat (base : Nat) (digits : Text) (c : Char) :
    natOf? base (digits ++ [c]) =
      (natOf? base digits).bind fun n => (Decimal.digitValue? base c).map (n * base + ·) := by
  simp [natOf?, List.foldlM_append]

theorem ofDigits_concat (base : Nat) (digits : Text) (c : Char) :
    ofDigits base (digits ++ [c]) = (ofDigits base digits).bind fun value =>
      (Decimal.digitValue? base c).map fun digit => (value.timesNat base).plusNat digit := by
  simp [ofDigits, List.foldlM_append]

theorem lt_of_digitValue? (digit : Decimal.digitValue? base c = some d) : d < base := by
  obtain ⟨-, below⟩ := Option.filter_eq_some_iff.1 digit
  exact of_decide_eq_true below

end Digits

/-- Some front of the digits of `n` is a tie that is rounded down, and what stands behind is not zero. -/
def LosesTie (base n : Nat) : Prop :=
  ∃ count, IsEvenTie (n / base ^ count * one) ∧ n % base ^ count ≠ 0

/-- Magnitude `k` is reached when `n` is read by digits of `b` bits: the front of up to 53 bits is exact, the
digit that goes beyond it is rounded, and those behind count as zeros. -/
inductive Reached (b n k : Nat) : Prop where
  | exact (small : n < 2 * binade) (same : units k = n * one)
  | cut (count : Nat) (large : 2 * binade ≤ n / 2 ^ (b * count))
      (first : n / 2 ^ (b * (count + 1)) < 2 * binade)
      (same : k = nearestMagnitude (n / 2 ^ (b * count) * one) 1 + b * count * binade)

section Steps

variable {b d n k : Nat}

theorem exists_one_eq : ∃ e, one = 2 ^ e :=
  exists_eq.imp fun _ => Binary64.one_eq

theorem exists_units_whole (small : n < 2 * binade) (b : Nat) : ∃ k, units k = n * one * 2 ^ b := by
  obtain ⟨e, unit⟩ := exists_one_eq
  obtain ⟨k, exact⟩ := Binary64.exists_units_eq (Nat.le_of_lt small) (e + b)
  exact ⟨k, by rw [exact, unit, Nat.pow_add, Nat.mul_assoc]⟩

theorem not_isEvenTie_of_lt (small : n < 2 * binade) : ¬ IsEvenTie (n * one) := by
  obtain ⟨k, exact⟩ := exists_units_whole small 0
  rw [Nat.pow_zero, Nat.mul_one] at exact
  rw [← exact]
  exact Binary64.not_isEvenTie_units k

theorem units_nearestMagnitude_of_lt (small : n < 2 * binade) :
    units (nearestMagnitude (n * one) 1) = n * one := by
  obtain ⟨k, exact⟩ := exists_units_whole small 0
  rw [Nat.pow_zero, Nat.mul_one] at exact
  rw [← exact, Binary64.nearestMagnitude_units]

theorem front_succ (digit : d < 2 ^ b) (count : Nat) :
    (n * 2 ^ b + d) / 2 ^ (b * (count + 1)) = n / 2 ^ (b * count) := by
  have front : (n * 2 ^ b + d) / 2 ^ b = n := by
    rw [Nat.add_comm, Nat.add_mul_div_right _ _ (Nat.two_pow_pos b), Nat.div_eq_of_lt digit, Nat.zero_add]
  rw [Nat.mul_succ, Nat.add_comm (b * count), Nat.pow_add, ← Nat.div_div_eq_div_mul, front]

theorem Reached.next (reached : Reached b n k) (digit : d < 2 ^ b) :
    Reached b (n * 2 ^ b + d)
      (nearestMagnitude (units (nearestMagnitude (units k * 2 ^ b) 1) + d * one) 1) := by
  cases reached with
  | exact small same =>
      obtain ⟨l, scaled⟩ := exists_units_whole small b
      have sum : n * one * 2 ^ b + d * one = (n * 2 ^ b + d) * one := by
        rw [Nat.add_mul, Nat.mul_right_comm]
      rw [same, ← scaled, Binary64.nearestMagnitude_units, scaled, sum]
      by_cases small' : n * 2 ^ b + d < 2 * binade
      · exact .exact small' (units_nearestMagnitude_of_lt small')
      · refine .cut 0 ?_ ?_ ?_
        · simpa using small'
        · rw [front_succ digit, Nat.mul_zero, Nat.pow_zero, Nat.div_one]
          exact small
        · simp
  | cut count large first same =>
      obtain ⟨e, unit⟩ := exists_one_eq
      have high : (e + 2) * binade ≤ k := by
        have above := Nat.mul_le_mul_right (2 ^ e) large
        rw [← Binary64.units_binades, ← unit] at above
        rw [same]
        exact (Binary64.le_nearestMagnitude above).trans (Nat.le_add_right _ _)
      rw [unit, Binary64.nearestMagnitude_magnitude_behind high digit]
      refine .cut (count + 1) ?_ ?_ ?_
      · rw [front_succ digit]
        exact large
      · rw [front_succ digit]
        exact first
      · rw [front_succ digit, same, Nat.mul_succ, Nat.add_mul, Nat.add_assoc]

/-- Rounding a number and rounding a front of its binary digits differ only where the front is a tie. -/
theorem nearestMagnitude_front {s : Nat} (large : 2 * binade ≤ n / 2 ^ s) :
    (IsEvenTie (n / 2 ^ s * one) ∧ n % 2 ^ s ≠ 0) ∧
        nearestMagnitude (n * one) 1 = nearestMagnitude (n / 2 ^ s * one) 1 + s * binade + 1 ∨
      ¬ (IsEvenTie (n / 2 ^ s * one) ∧ n % 2 ^ s ≠ 0) ∧
        nearestMagnitude (n * one) 1 = nearestMagnitude (n / 2 ^ s * one) 1 + s * binade := by
  obtain ⟨e, unit⟩ := exists_one_eq
  have behind := Binary64.nearestMagnitude_behind (e := e) large (Nat.mod_lt n (Nat.two_pow_pos s))
  rwa [Nat.div_add_mod', ← unit] at behind

theorem losesTie_iff (count : Nat) (large : 2 * binade ≤ n / 2 ^ (b * count))
    (first : n / 2 ^ (b * (count + 1)) < 2 * binade) :
    LosesTie (2 ^ b) n ↔ IsEvenTie (n / 2 ^ (b * count) * one) ∧ n % 2 ^ (b * count) ≠ 0 := by
  constructor
  · rintro ⟨shorter, tie, rest⟩
    rw [← Nat.pow_mul] at tie rest
    have large' : 2 * binade ≤ n / 2 ^ (b * shorter) :=
      Nat.le_of_not_lt fun small => not_isEvenTie_of_lt small tie
    have order : shorter ≤ count := by
      refine Nat.le_of_not_lt fun longer => ?_
      have power := Nat.pow_le_pow_right Nat.two_pos (Nat.mul_le_mul_left b longer)
      have below := Nat.div_le_div_left (a := n) power (Nat.two_pow_pos _)
      exact absurd (large'.trans below) (Nat.not_le_of_lt first)
    obtain ⟨more, rfl⟩ := Nat.exists_eq_add_of_le order
    have front : n / 2 ^ (b * shorter) / 2 ^ (b * more) = n / 2 ^ (b * (shorter + more)) := by
      rw [Nat.mul_add, Nat.pow_add, Nat.div_div_eq_div_mul]
    have sum : b * (shorter + more) * binade = b * shorter * binade + b * more * binade := by
      rw [Nat.mul_add, Nat.add_mul]
    -- the tie is rounded up because of what stands behind, so the first front cannot have been kept
    obtain ⟨-, lost⟩ := (nearestMagnitude_front large').resolve_right fun kept => kept.1 ⟨tie, rest⟩
    have near := nearestMagnitude_front (front ▸ large)
    rw [front] at near
    rcases nearestMagnitude_front large with ⟨found, -⟩ | ⟨-, taken⟩
    · exact found
    · rcases near with ⟨-, near⟩ | ⟨-, near⟩ <;> omega
  · rintro ⟨tie, rest⟩
    refine ⟨count, ?_, ?_⟩
    · rwa [← Nat.pow_mul]
    · rwa [← Nat.pow_mul]

/-- What is reached is the nearest magnitude, or the one below it if a tie is lost. -/
theorem Reached.nearest (reached : Reached b n k) :
    LosesTie (2 ^ b) n ∧ nearestMagnitude (n * one) 1 = k + 1 ∨
      ¬ LosesTie (2 ^ b) n ∧ nearestMagnitude (n * one) 1 = k := by
  cases reached with
  | exact small same =>
      refine .inr ⟨?_, by rw [← same, Binary64.nearestMagnitude_units]⟩
      rintro ⟨count, tie, -⟩
      exact not_isEvenTie_of_lt (Nat.lt_of_le_of_lt (Nat.div_le_self n _) small) tie
  | cut count large first same =>
      rw [losesTie_iff count large first, same]
      exact nearestMagnitude_front large

end Steps

section Reading

variable {b n k : Nat} {digits : Text}

theorem nearestMagnitude_whole_lt (bounded : n < 2 ^ 1023) : nearestMagnitude (n * one) 1 < magnitudes := by
  obtain ⟨e, scale⟩ : ∃ e, e = 1074 := exists_eq
  have unit : one = 2 ^ e := Binary64.one_eq scale
  have single : binade = 2 ^ 52 := rfl
  have top : ∀ a q, a + e = 52 + q → 2 ^ a * one = units (q * binade + binade) := by
    intro a q sum
    rw [Binary64.units_of_significand (Nat.le_refl _) (by omega), unit, ← Nat.pow_add, sum, Nat.pow_add, single]
  have below : n * one ≤ units (2045 * binade + binade) := by
    rw [← top 1023 2045 (by omega)]
    exact Nat.mul_le_mul_right _ (Nat.le_of_lt bounded)
  have positive := Binary64.binade_pos
  have finite : 2045 * binade + binade < magnitudes := by
    unfold magnitudes
    omega
  exact Nat.lt_of_le_of_lt (Binary64.nearestMagnitude_le below) finite

theorem timesNat_ofMagnitude (finite : k < magnitudes) (n : Nat) :
    (ofMagnitude false k).timesNat n = ofMagnitude false (nearestMagnitude (units k * n) 1) := by
  rw [ofMagnitude, dif_pos finite, Binary64.timesNat]

theorem plusNat_ofMagnitude (finite : k < magnitudes) (n : Nat) :
    (ofMagnitude false k).plusNat n = ofMagnitude false (nearestMagnitude (units k + n * one) 1) := by
  rw [ofMagnitude, dif_pos finite, Binary64.plusNat]

/-- Reading digit by digit reaches a finite magnitude. -/
theorem ofDigits_reached (spelled : natOf? (2 ^ b) digits = some n) (bounded : n < 2 ^ 1023) :
    ∃ k, k < magnitudes ∧ Reached b n k ∧ ofDigits (2 ^ b) digits = some (ofMagnitude false k) := by
  induction digits using List.reverseRecOn generalizing n with
  | nil =>
      obtain rfl : 0 = n := Option.some.inj spelled
      refine ⟨0, by decide, .exact (by decide) ?_, rfl⟩
      rw [Binary64.units_of_lt Binary64.binade_pos, Nat.zero_mul]
  | append_singleton front c induction =>
      rw [natOf?_concat] at spelled
      obtain ⟨m, spelledFront, last⟩ := Option.bind_eq_some_iff.1 spelled
      obtain ⟨d, digit, rfl⟩ := Option.map_eq_some_iff.1 last
      have smaller : m ≤ m * 2 ^ b + d := by
        have wide := Nat.le_mul_of_pos_right m (Nat.two_pow_pos b)
        omega
      obtain ⟨k, finite, reached, read⟩ := induction spelledFront (Nat.lt_of_le_of_lt smaller bounded)
      have next := reached.next (lt_of_digitValue? digit)
      have above := Binary64.le_nearestMagnitude
        (Nat.le_add_right (units (nearestMagnitude (units k * 2 ^ b) 1)) (d * one))
      have finite' := nearestMagnitude_whole_lt bounded
      refine ⟨_, ?_, next, ?_⟩
      · rcases next.nearest with ⟨-, same⟩ | ⟨-, same⟩ <;> omega
      · rw [ofDigits_concat, read, digit, Option.bind_some, Option.map_some, timesNat_ofMagnitude finite,
          plusNat_ofMagnitude]
        rcases next.nearest with ⟨-, same⟩ | ⟨-, same⟩ <;> omega

theorem natOf?_toDigits {base : Nat} (some : 1 < base)
    (each : ∀ d < base, Decimal.digitValue? base (Nat.digitChar d) = Option.some d) (n : Nat) :
    natOf? base (Nat.toDigits base n) = Option.some n := by
  induction n using Nat.strongRecOn with
  | ind n induction =>
      by_cases small : n < base
      · rw [Nat.toDigits_of_lt_base small]
        simp [natOf?, each n small]
      · have front := induction (n / base) (Nat.div_lt_self (by omega) some)
        have last := each (n % base) (Nat.mod_lt n (by omega))
        rw [Nat.toDigits_of_base_le some (by omega), natOf?_concat, front, last, Option.bind_some,
          Option.map_some, Nat.div_add_mod']

theorem isDigitOf_of_natOf? {base : Nat} (spelled : natOf? base digits = some n) :
    ∀ c ∈ digits, Decimal.isDigitOf base c = true := by
  induction digits using List.reverseRecOn generalizing n with
  | nil => simp
  | append_singleton front c induction =>
      rw [natOf?_concat] at spelled
      obtain ⟨m, spelledFront, last⟩ := Option.bind_eq_some_iff.1 spelled
      obtain ⟨d, digit, -⟩ := Option.map_eq_some_iff.1 last
      intro e inside
      rcases List.mem_append.1 inside with inside | inside
      · exact induction spelledFront e inside
      · rw [List.mem_singleton.1 inside, Decimal.isDigitOf, digit, Option.isSome_some]

inductive InBase (n : Nat) : Nat → Text → Prop where
  | hexadecimal {mark : Char} {digits : Text} (marks : mark = 'x' ∨ mark = 'X') (any : digits ≠ [])
      (spelled : natOf? 16 digits = some n) : InBase n 16 ('0' :: mark :: digits)
  | octal {digits : Text} (any : digits ≠ []) (spelled : natOf? 8 digits = some n) :
      InBase n 8 ('0' :: digits)

theorem InBase.toDigits (n : Nat) :
    InBase n 16 ('0' :: 'x' :: Nat.toDigits 16 n) ∧ InBase n 8 ('0' :: Nat.toDigits 8 n) := by
  have sixteen := natOf?_toDigits (by decide) (by decide : ∀ d < 16, _) n
  have eight := natOf?_toDigits (by decide) (by decide : ∀ d < 8, _) n
  exact ⟨.hexadecimal (.inl rfl) Nat.toDigits_ne_nil sixteen, .octal Nat.toDigits_ne_nil eight⟩

theorem InBase.readUnsigned {base : Nat} {s : Text} (inBase : InBase n base s) : ∃ b digits rest,
    base = 2 ^ b ∧ natOf? base digits = some n ∧ s = '0' :: rest ∧
      Numeral.readUnsigned s = ofDigits base digits := by
  cases inBase with
  | hexadecimal marks any spelled =>
      exact ⟨4, _, _, rfl, spelled, rfl, readUnsigned_hexadecimal marks any⟩
  | octal any spelled =>
      exact ⟨3, _, _, rfl, spelled, rfl, readUnsigned_octal any (isDigitOf_of_natOf? spelled)⟩

theorem read_signed (negative : Bool) {c : Char} {rest : Text} (digit : c.isDigit = true)
    (unsigned : Numeral.readUnsigned (c :: rest) = some (ofMagnitude false k)) :
    read ((if negative then ['-'] else []) ++ c :: rest) = some (ofMagnitude negative k) := by
  cases negative with
  | false => simp [read, Decimal.splitSign_of_isDigit digit, unsigned]
  | true => simp [read, Decimal.splitSign, unsigned, Binary64.neg_ofMagnitude]

theorem written_natText (n : Nat) : Decimal.Written (Decimal.natText n) ⟨n, 0⟩ := by
  refine .parts (Decimal.natText n) [] (by simp [Decimal.pointed]) (Decimal.natText_ne_nil n) ?_ ?_ .none ?_
  · rw [List.append_nil]
    exact fun c => Decimal.isDigit_of_mem_natText
  · intro zero
    by_cases nothing : n = 0
    · rw [nothing]
      rfl
    · exact absurd zero (Decimal.natText_head_ne_zero nothing)
  · rw [List.append_nil, Decimal.natOfDigits_natText]
    rfl

theorem toBinary64_whole (bounded : n < 2 ^ 1023) :
    Decimal.toBinary64 false ⟨n, 0⟩ = ofMagnitude false (nearestMagnitude (n * one) 1) := by
  by_cases zero : n = 0
  · have none := Binary64.nearestMagnitude_units 0
    rw [Binary64.units_of_lt Binary64.binade_pos] at none
    rw [Decimal.toBinary64, if_pos zero, zero, Nat.zero_mul, none]
  · obtain ⟨a, eleven⟩ : ∃ a, a = 11 := ⟨11, rfl⟩
    have power : ∀ c, c ≤ 93 * a + 1 → 2 ^ c ≤ Nat.pow 10 (28 * a + 1) := fun c small =>
      (Nat.pow_le_pow_right Nat.two_pos small).trans (Decimal.two_pow_le a)
    have below : n < Nat.pow 10 (28 * a + 1) := Nat.lt_of_lt_of_le bounded (power 1023 (by omega))
    have length := Decimal.digitsOf_length_le below
    have leads : Decimal.leading ⟨n, 0⟩ = 0 + (Decimal.digitsOf n).length - 1 := rfl
    have whole : Nat.pow 10 (0 : Int).toNat = 1 ∧ Nat.pow 10 (-(0 : Int)).toNat = 1 := ⟨rfl, rfl⟩
    have notLarge : ¬ 310 ≤ Decimal.leading ⟨n, 0⟩ := by omega
    have notSmall : ¬ Decimal.leading ⟨n, 0⟩ < -330 := by omega
    simp only [Decimal.toBinary64, zero, notLarge, notSmall, if_false, Binary64.ofRatio, whole, Nat.mul_one]

end Reading

open Binary64 (IsNearest) in
/-- A whole number means the same in every base, the number nearest to it, unless a tie is lost in reading it
digit by digit. Then the number below is read. -/
theorem whole_number_bases_agree_iff {n : Nat} (bounded : n < 2 ^ 1023) :
    ∃ k : Fin magnitudes, IsNearest (n * one) k ∧
      (∀ negative, read ((if negative then ['-'] else []) ++ Decimal.natText n) = some (.finite negative k)) ∧
      InBase n 16 ('0' :: 'x' :: Nat.toDigits 16 n) ∧ InBase n 8 ('0' :: Nat.toDigits 8 n) ∧
      ∀ base s, InBase n base s → ∃ l : Fin magnitudes,
        (∀ negative, read ((if negative then ['-'] else []) ++ s) = some (.finite negative l)) ∧
        (l = k ↔ ¬ LosesTie base n) ∧ (LosesTie base n → l.val + 1 = k.val) := by
  have finite := nearestMagnitude_whole_lt bounded
  have number : ∀ {k} (finite : k < magnitudes) negative,
      ofMagnitude negative k = .finite negative ⟨k, finite⟩ := fun finite negative => dif_pos finite
  refine ⟨⟨_, finite⟩, Binary64.isNearest_nearestMagnitude _, fun negative => ?_, (InBase.toDigits n).1,
    (InBase.toDigits n).2, fun base s inBase => ?_⟩
  · have unsigned := readUnsigned_of_written (written_natText n)
    rw [toBinary64_whole bounded] at unsigned
    obtain ⟨c, rest, shape, digit, -⟩ := (written_natText n).begins
    rw [shape] at unsigned ⊢
    rw [read_signed negative digit unsigned, number finite]
  · obtain ⟨b, digits, rest, rfl, spelled, rfl, digitwise⟩ := inBase.readUnsigned
    obtain ⟨l, finite', reached, value⟩ := ofDigits_reached spelled bounded
    refine ⟨⟨l, finite'⟩, fun negative => ?_, ?_⟩
    · rw [read_signed negative (by decide) (digitwise.trans value), number finite']
    · rw [Fin.mk.injEq]
      rcases reached.nearest with ⟨lost, near⟩ | ⟨kept, near⟩
      · exact ⟨⟨fun same => by omega, fun kept => absurd lost kept⟩, fun _ => near.symm⟩
      · exact ⟨⟨fun _ => kept, fun _ => near.symm⟩, fun lost => absurd lost kept⟩

theorem tie_lost_in_hexadecimal_alone :
    144115188075855897 < 2 ^ 1023 ∧ ∃ k l : Fin magnitudes, l.val + 1 = k.val ∧
      read "144115188075855897".toList = some (.finite false k) ∧
      read "0x200000000000019".toList = some (.finite false l) ∧
      read "-010000000000000000031".toList = some (.finite true k) := by
  have bounded : 144115188075855897 < 2 ^ 1023 := by decide +kernel
  obtain ⟨k, -, decimal, -, -, others⟩ := whole_number_bases_agree_iff bounded
  have spelled : Decimal.natText 144115188075855897 = "144115188075855897".toList := by decide +kernel
  rw [spelled] at decimal
  have hexadecimal : InBase 144115188075855897 16 "0x200000000000019".toList :=
    .hexadecimal (.inl rfl) (by decide) (by decide)
  have octal : InBase 144115188075855897 8 "010000000000000000031".toList :=
    .octal (by decide) (by decide)
  have lost : LosesTie 16 144115188075855897 := ⟨1, by decide +kernel, by decide⟩
  have kept : ¬ LosesTie (2 ^ 3) 144115188075855897 := by
    rw [losesTie_iff 1 (by decide) (by decide)]
    decide +kernel
  obtain ⟨l, read, -, before⟩ := others 16 _ hexadecimal
  obtain ⟨l', read', same, -⟩ := others 8 _ octal
  obtain rfl := same.2 kept
  exact ⟨bounded, l', l, before lost, decimal false, read false, read' true⟩

/-- The front `20000000000001` lies midway between two numbers and is rounded down, whatever stands behind. -/
theorem hexadecimal_digit_behind_tie_is_lost :
    ¬ ∀ n < 2 ^ 1023, read ('0' :: 'x' :: Nat.toDigits 16 n) = read (Decimal.natText n) := by
  intro agree
  have same := agree 144115188075855889 (by decide +kernel)
  revert same
  decide +kernel

end Docblock.TypeExpr.Numeral
