import Docblock.Decimal.Shortest
import Docblock.Proofs.Binary64.Nearest
import Docblock.Proofs.Decimal.Digits

/-!
# Shortest decimals denote their magnitude

Zeros at the end of the digits of a decimal may be moved into its exponent, all digits of a magnitude
denote it, and so does the shortest decimal that is found for it.
-/

set_option autoImplicit false

namespace Docblock.Decimal

open Binary64 (units one magnitudes)

/-- A zero at the end of the digits counts as one more in the exponent. -/
theorem toBinary64_mul_ten (negative : Bool) {digits : Nat} (nonzero : digits ≠ 0) (exponent : Int) :
    toBinary64 negative ⟨digits * 10, exponent⟩ = toBinary64 negative ⟨digits, exponent + 1⟩ := by
  have larger : digits * 10 ≠ 0 := by omega
  have leads : leading ⟨digits * 10, exponent⟩ = leading ⟨digits, exponent + 1⟩ := by
    simp only [leading, digitsOf_mul_ten nonzero, List.length_append, List.length_singleton]
    omega
  have ratio : Binary64.ofRatio negative (digits * 10 * Nat.pow 10 exponent.toNat)
        (Nat.pow 10 (-exponent).toNat) =
      Binary64.ofRatio negative (digits * Nat.pow 10 (exponent + 1).toNat)
        (Nat.pow 10 (-(exponent + 1)).toNat) := by
    by_cases whole : 0 ≤ exponent
    · obtain ⟨e, rfl⟩ := Int.eq_ofNat_of_zero_le whole
      have power : (10 : Nat).pow ((e : Int) + 1).toNat = 10 * Nat.pow 10 e := by
        have next : ((e : Int) + 1).toNat = e + 1 := by omega
        rw [next, Nat.mul_comm]
        rfl
      have unit : ∀ n : Nat, (-((n : Nat) : Int)).toNat = 0 := by
        intro n
        omega
      have unit' : (-((e : Int) + 1)).toNat = 0 := by omega
      rw [power, unit, unit', Int.toNat_natCast, Nat.mul_assoc]
    · obtain ⟨e, rfl⟩ : ∃ e : Nat, exponent = -((e : Int) + 1) :=
        ⟨(-exponent - 1).toNat, by omega⟩
      have power : Nat.pow 10 (-(-((e : Int) + 1))).toNat = 10 * Nat.pow 10 e := by
        have next : (-(-((e : Int) + 1))).toNat = e + 1 := by omega
        rw [next, Nat.mul_comm]
        rfl
      have unit : (-((e : Int) + 1)).toNat = 0 := by omega
      have unit' : (-((e : Int) + 1) + 1).toNat = 0 := by omega
      have rest : (-(-((e : Int) + 1) + 1)).toNat = e := by omega
      have one' : Nat.pow 10 0 = 1 := rfl
      rw [power, unit, unit', rest, one', Nat.mul_one, Nat.mul_one, Nat.mul_comm digits 10]
      exact Binary64.ofRatio_mul negative (by decide) _ _
  simp only [toBinary64, larger, nonzero, if_false, leads, ratio]

theorem toBinary64_mul_pow (negative : Bool) {digits : Nat} (nonzero : digits ≠ 0) (count : Nat)
    (exponent : Int) :
    toBinary64 negative ⟨digits * Nat.pow 10 count, exponent⟩ =
      toBinary64 negative ⟨digits, exponent + count⟩ := by
  induction count generalizing exponent with
  | zero => simp
  | succ count induction =>
      have larger : digits * Nat.pow 10 count ≠ 0 :=
        Nat.mul_ne_zero nonzero (Nat.ne_of_gt (Nat.pow_pos (by decide)))
      have sum : exponent + 1 + (count : Int) = exponent + ((count + 1 : Nat) : Int) := by omega
      have last : digits * Nat.pow 10 (count + 1) = digits * Nat.pow 10 count * 10 :=
        (Nat.mul_assoc _ _ _).symm
      rw [last, toBinary64_mul_ten negative larger, induction, sum]

theorem dropZeros_spec {x : Decimal} (nonzero : x.digits ≠ 0) (negative : Bool) :
    (dropZeros x).digits ≠ 0 ∧ toBinary64 negative (dropZeros x) = toBinary64 negative x := by
  fun_induction dropZeros x with
  | case1 x zero => exact absurd zero nonzero
  | case2 x _ tenfold induction =>
      obtain ⟨digits, exponent⟩ := x
      simp only at nonzero tenfold induction ⊢
      have whole : digits / 10 * 10 = digits := by omega
      have smaller : digits / 10 ≠ 0 := by omega
      obtain ⟨some, same⟩ := induction smaller
      refine ⟨some, ?_⟩
      rw [same, ← toBinary64_mul_ten negative smaller, whole]
  | case3 => exact ⟨nonzero, rfl⟩

theorem toBinary64_neg (x : Decimal) : (toBinary64 false x).neg = toBinary64 true x := by
  unfold toBinary64
  split
  · exact Binary64.neg_ofMagnitude 0
  · split
    · rfl
    · split
      · exact Binary64.neg_ofMagnitude 0
      · exact Binary64.neg_ofMagnitude _

theorem two_pow_le (a : Nat) : Nat.pow 2 (93 * a + 1) ≤ Nat.pow 10 (28 * a + 1) := by
  change 2 ^ (93 * a + 1) ≤ 10 ^ (28 * a + 1)
  rw [Nat.pow_succ, Nat.pow_succ, Nat.pow_mul, Nat.pow_mul]
  exact Nat.mul_le_mul (Nat.pow_le_pow_left (by decide) a) (by decide)

theorem ten_pow_le (a : Nat) : Nat.pow 10 (16 * a + 11) ≤ Nat.pow 5 (23 * a + 16) := by
  change 10 ^ (16 * a + 11) ≤ 5 ^ (23 * a + 16)
  rw [Nat.pow_add, Nat.pow_add, Nat.pow_mul, Nat.pow_mul]
  exact Nat.mul_le_mul (Nat.pow_le_pow_left (by decide) a) (by decide)

theorem units_lt {k : Nat} (finite : k < magnitudes) {top : Nat} (large : 2098 ≤ top) :
    units k < Nat.pow 2 top := by
  change units k < 2 ^ top
  have positive := Binary64.binade_pos
  have double : 2 * Binary64.binade = 2 ^ 53 := rfl
  rcases Binary64.exists_binade k with subnormal | ⟨q, r, offset, rfl⟩
  · rw [Binary64.units_of_lt subnormal]
    have power : 2 ^ 53 ≤ 2 ^ top := Nat.pow_le_pow_right (by decide) (by omega)
    omega
  · rw [Binary64.units_of_binade offset]
    have small : q < 2046 := by
      have whole : magnitudes = 2047 * Binary64.binade := rfl
      have bounded : (q + 1) * Binary64.binade < 2047 * Binary64.binade := by omega
      have below := Nat.lt_of_mul_lt_mul_right bounded
      omega
    calc (r + Binary64.binade) * 2 ^ q < 2 * Binary64.binade * 2 ^ q :=
          (Nat.mul_lt_mul_right (Nat.two_pow_pos q)).2 (by omega)
      _ = 2 ^ (53 + q) := by rw [double, Nat.pow_add]
      _ ≤ 2 ^ top := Nat.pow_le_pow_right (by decide) (by omega)

theorem exact_digits_length {k e low high : Nat} (scale : e = 1074) (lowest : low = 747)
    (highest : high = 1383) (finite : k < magnitudes) (positive : 0 < units k) :
    low < (digitsOf (units k * Nat.pow 5 e)).length ∧
      (digitsOf (units k * Nat.pow 5 e)).length ≤ high := by
  have fives : 0 < 5 ^ e := Nat.pow_pos (by decide)
  constructor
  · have exponents : 16 * 46 + 11 = low ∧ 23 * 46 + 16 = e := by omega
    refine lt_digitsOf_length ?_
    calc Nat.pow 10 low ≤ Nat.pow 5 e := by
          rw [← exponents.1, ← exponents.2]
          exact ten_pow_le 46
      _ ≤ units k * Nat.pow 5 e := Nat.le_mul_of_pos_left _ positive
  · obtain ⟨a, eleven⟩ : ∃ a, a = 11 := ⟨11, rfl⟩
    have exponents : 93 * a + 1 + e = 2098 ∧ 28 * a + 1 + e = high := by omega
    refine digitsOf_length_le ?_
    calc units k * 5 ^ e < 2 ^ (93 * a + 1 + e) * 5 ^ e :=
          (Nat.mul_lt_mul_right fives).2 (units_lt finite (Nat.le_of_eq exponents.1.symm))
      _ = 2 ^ (93 * a + 1) * 10 ^ e := by rw [Nat.pow_add, Nat.mul_assoc, ← Nat.mul_pow]
      _ ≤ 10 ^ (28 * a + 1) * 10 ^ e := Nat.mul_le_mul_right _ (two_pow_le a)
      _ = 10 ^ high := by rw [← Nat.pow_add, exponents.2]

theorem exact_denotes {magnitude : Fin magnitudes} (positive : 0 < magnitude.val) :
    toBinary64 false (exact magnitude.val) = .finite false magnitude := by
  obtain ⟨k, finite⟩ := magnitude
  simp only at positive ⊢
  -- the exponent is kept as a variable, so that no power of it is evaluated
  obtain ⟨e, scale⟩ : ∃ e, e = 1074 := ⟨1074, rfl⟩
  have unit : one = Nat.pow 2 e := Binary64.one_eq scale
  have down : -(e : Int) = -1074 := by omega
  have shape : exact k = ⟨units k * Nat.pow 5 e, -(e : Int)⟩ := by
    rw [down]
    delta exact
    generalize 1074 = n at scale
    rw [scale]
  have someUnits : 0 < units k := by
    have ascending := Binary64.units_lt_succ (k - 1)
    rw [Nat.sub_add_cancel positive] at ascending
    omega
  obtain ⟨long, short⟩ := exact_digits_length scale rfl rfl finite someUnits
  have nonzero : units k * Nat.pow 5 e ≠ 0 :=
    Nat.ne_of_gt (Nat.mul_pos someUnits (Nat.pow_pos (by decide)))
  have leads : leading ⟨units k * Nat.pow 5 e, -(e : Int)⟩ =
      -(e : Int) + (digitsOf (units k * Nat.pow 5 e)).length - 1 := rfl
  have exponents : (-(e : Int)).toNat = 0 ∧ (-(-(e : Int))).toNat = e := by omega
  have rounded :
      Binary64.nearestMagnitude (units k * Nat.pow 5 e * Nat.pow 10 0 * one) (Nat.pow 10 e) = k := by
    refine Binary64.nearestMagnitude_exact (Nat.pow_pos (by decide)) ?_
    have tens : Nat.pow 5 e * Nat.pow 2 e = Nat.pow 10 e := (Nat.mul_pow 5 2 e).symm
    have nothing : Nat.pow 10 0 = 1 := rfl
    rw [nothing, Nat.mul_one, unit, Nat.mul_assoc, tens]
  rw [shape]
  simp only [toBinary64, nonzero, if_false, leads, exponents.1, exponents.2]
  rw [if_neg (by omega), if_neg (by omega), Binary64.ofRatio, rounded, Binary64.ofMagnitude,
    dif_pos finite]

theorem onGrid_denotes {tie : Tie} {magnitude : Fin magnitudes} {exponent : Int} {x : Decimal}
    (found : onGrid tie magnitude exponent = some x) :
    toBinary64 false x = .finite false magnitude := by
  have of_denotes : ∀ y : Decimal, denotes magnitude y = true →
      toBinary64 false y = .finite false magnitude := fun y holds => by
    simpa [denotes] using holds
  simp only [onGrid] at found
  split at found
  · cases found
  · next below _ =>
      cases found
      exact of_denotes _ below
  · next _ above =>
      cases found
      exact of_denotes _ above
  · next below above =>
      split at found
      · cases found
        exact of_denotes _ below
      · split at found
        · cases found
          exact of_denotes _ above
        · cases tie with
          | up =>
              cases found
              exact of_denotes _ above
          | even =>
              simp only at found
              split at found
              · cases found
                exact of_denotes _ below
              · cases found
                exact of_denotes _ above

theorem digits_ne_zero_of_denotes {magnitude : Fin magnitudes} (positive : 0 < magnitude.val)
    {x : Decimal} (holds : toBinary64 false x = .finite false magnitude) : x.digits ≠ 0 := by
  intro zero
  simp only [toBinary64, zero, if_true, Binary64.ofMagnitude] at holds
  split at holds
  · cases holds
    exact absurd positive (Nat.lt_irrefl 0)
  · cases holds

theorem shortest_denotes (tie : Tie) {magnitude : Fin magnitudes} (positive : 0 < magnitude.val) :
    (shortest tie magnitude).digits ≠ 0 ∧
      toBinary64 false (shortest tie magnitude) = .finite false magnitude := by
  have candidate : ∀ found : Option Decimal,
      (∀ x, found = some x → toBinary64 false x = .finite false magnitude) →
      toBinary64 false (found.getD (exact magnitude.val)) = .finite false magnitude := by
    intro found each
    cases found with
    | none => exact exact_denotes positive
    | some x => exact each x rfl
  let grids := (List.range 17).findSome? fun (more : Nat) =>
    onGrid tie magnitude (leadingOf magnitude.val - (more : Int))
  have holds := candidate grids fun x found => by
    obtain ⟨more, _, found⟩ := List.exists_of_findSome?_eq_some found
    exact onGrid_denotes found
  have nonzero := digits_ne_zero_of_denotes positive holds
  obtain ⟨some, same⟩ := dropZeros_spec nonzero false
  exact ⟨some, same.trans holds⟩

end Docblock.Decimal
