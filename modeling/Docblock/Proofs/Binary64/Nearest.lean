import Docblock.Binary64.Rounding

/-!
# Rounding of exact quotients

A quotient that is a magnitude is rounded to it, and rounding depends only on the quotient, not on the
two numbers that it is formed of.
-/

set_option autoImplicit false

namespace Docblock.Binary64

theorem binade_pos : 0 < binade := Nat.pow_pos (by decide)

/-- The exponent is kept as a variable, so that no power of it is evaluated. -/
theorem one_eq {e : Nat} (scale : e = 1074) : one = Nat.pow 2 e := by
  delta one
  generalize 1074 = n at scale ⊢
  rw [scale]

theorem units_of_lt {k : Nat} (subnormal : k < binade) : units k = k := by
  simp [units, subnormal]

theorem units_of_binade {q r : Nat} (offset : r < binade) :
    units ((q + 1) * binade + r) = (r + binade) * Nat.pow 2 q := by
  have positive := binade_pos
  have normal : ¬ (q + 1) * binade + r < binade := by
    rw [Nat.add_mul, Nat.one_mul]
    omega
  have quotient : ((q + 1) * binade + r) / binade = q + 1 := by
    rw [Nat.add_comm, Nat.add_mul_div_right _ _ positive, Nat.div_eq_of_lt offset, Nat.zero_add]
  have remainder : ((q + 1) * binade + r) % binade = r := by
    rw [Nat.add_comm, Nat.add_mul_mod_self_right, Nat.mod_eq_of_lt offset]
  simp only [units, normal, if_false, quotient, remainder, Nat.add_sub_cancel]

theorem exists_binade (k : Nat) :
    k < binade ∨ ∃ q r, r < binade ∧ k = (q + 1) * binade + r := by
  have positive := binade_pos
  by_cases subnormal : k < binade
  · exact .inl subnormal
  · have quotient : 0 < k / binade := Nat.div_pos (Nat.le_of_not_lt subnormal) positive
    refine .inr ⟨k / binade - 1, k % binade, Nat.mod_lt k positive, ?_⟩
    rw [Nat.sub_add_cancel quotient, Nat.mul_comm]
    exact (Nat.div_add_mod k binade).symm

theorem units_lt_succ (k : Nat) : units k < units (k + 1) := by
  have positive := binade_pos
  rcases exists_binade k with subnormal | ⟨q, r, offset, rfl⟩
  · rw [units_of_lt subnormal]
    by_cases next : k + 1 < binade
    · rw [units_of_lt next]
      omega
    · have first : k + 1 = (0 + 1) * binade + 0 := by omega
      rw [first, units_of_binade positive, Nat.pow_eq]
      omega
  · have power : 0 < 2 ^ q := Nat.two_pow_pos q
    rw [units_of_binade offset, Nat.pow_eq]
    by_cases next : r + 1 < binade
    · rw [Nat.add_assoc, units_of_binade next, Nat.pow_eq]
      exact (Nat.mul_lt_mul_right power).2 (by omega)
    · have last : r + 1 = binade := by omega
      have shape : (q + 1) * binade + r + 1 = (q + 1 + 1) * binade + 0 := by
        rw [Nat.add_mul (q + 1) 1, Nat.one_mul]
        omega
      rw [shape, units_of_binade positive, Nat.zero_add, Nat.pow_eq, Nat.pow_succ,
        Nat.mul_comm (2 ^ q) 2, ← Nat.mul_assoc]
      exact (Nat.mul_lt_mul_right power).2 (by omega)

theorem floorMagnitude_units (k : Nat) : floorMagnitude (units k) = k := by
  have positive := binade_pos
  rcases exists_binade k with subnormal | ⟨q, r, offset, rfl⟩
  · have small : k < 2 * binade := by omega
    rw [units_of_lt subnormal, floorMagnitude, if_pos small]
  · rw [units_of_binade offset, Nat.pow_eq]
    cases q with
    | zero =>
        have small : (r + binade) * 2 ^ 0 < 2 * binade := by omega
        rw [floorMagnitude, if_pos small]
        omega
    | succ q =>
        have power : 0 < 2 ^ (q + 1) := Nat.two_pow_pos (q + 1)
        have large : ¬ (r + binade) * 2 ^ (q + 1) < 2 * binade := by
          have twice : binade * 2 ≤ (r + binade) * 2 ^ (q + 1) :=
            Nat.mul_le_mul (Nat.le_add_left _ _) (by rw [Nat.pow_succ]; omega)
          omega
        have logarithm : ((r + binade) * 2 ^ (q + 1)).log2 = 52 + (q + 1) := by
          have lower : 2 ^ (52 + (q + 1)) = binade * 2 ^ (q + 1) := Nat.pow_add 2 52 (q + 1)
          have upper : 2 ^ (52 + (q + 1) + 1) = 2 * binade * 2 ^ (q + 1) := by
            rw [Nat.pow_succ, lower, Nat.mul_comm _ 2, Nat.mul_assoc]
          have nonzero : (r + binade) * 2 ^ (q + 1) ≠ 0 :=
            Nat.ne_of_gt (Nat.mul_pos (by omega) power)
          rw [Nat.log2_eq_iff nonzero, lower, upper]
          exact ⟨Nat.mul_le_mul_right _ (Nat.le_add_left _ _),
            (Nat.mul_lt_mul_right power).2 (by omega)⟩
        simp only [floorMagnitude, large, if_false, logarithm, Nat.add_sub_cancel_left]
        have same : (r + binade) * 2 ^ (q + 1) / Nat.pow 2 (q + 1) = r + binade :=
          Nat.mul_div_cancel _ power
        rw [same, Nat.add_mul (q + 1) 1, Nat.one_mul]
        omega

theorem nearestMagnitude_exact {k num den : Nat} (positive : 0 < den) (same : num = units k * den) :
    nearestMagnitude num den = k := by
  have quotient : num / den = units k := by rw [same, Nat.mul_div_cancel _ positive]
  have ascending := units_lt_succ k
  have below : 2 * num < (units k + units (k + 1)) * den := by
    rw [same, ← Nat.mul_assoc]
    exact (Nat.mul_lt_mul_right positive).2 (by omega)
  simp only [nearestMagnitude, quotient, floorMagnitude_units, below, if_true]

theorem nearestMagnitude_mul (c : Nat) (positive : 0 < c) (num den : Nat) :
    nearestMagnitude (c * num) (c * den) = nearestMagnitude num den := by
  have quotient : c * num / (c * den) = num / den := Nat.mul_div_mul_left num den positive
  have scaled : ∀ a b : Nat, 2 * (c * a) < b * (c * den) ↔ 2 * a < b * den := by
    intro a b
    rw [Nat.mul_left_comm 2 c a, Nat.mul_left_comm b c den]
    exact Nat.mul_lt_mul_left positive
  have scaled' : ∀ a b : Nat, b * (c * den) < 2 * (c * a) ↔ b * den < 2 * a := by
    intro a b
    rw [Nat.mul_left_comm 2 c a, Nat.mul_left_comm b c den]
    exact Nat.mul_lt_mul_left positive
  simp only [nearestMagnitude, quotient, scaled, scaled']

theorem ofRatio_mul (negative : Bool) {c : Nat} (positive : 0 < c) (num den : Nat) :
    ofRatio negative (c * num) (c * den) = ofRatio negative num den := by
  rw [ofRatio, Nat.mul_assoc, nearestMagnitude_mul c positive, ofRatio]

theorem neg_ofMagnitude (k : Nat) : (ofMagnitude false k).neg = ofMagnitude true k := by
  unfold ofMagnitude
  split <;> rfl

end Docblock.Binary64
