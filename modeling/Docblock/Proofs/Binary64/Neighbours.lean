import Mathlib.Data.Nat.Dist
import Mathlib.Order.Monotone.Basic
import Docblock.Proofs.Binary64.Nearest

/-!
# Between two neighbours

A whole number of units lies between two neighbouring magnitudes, and it is rounded to the nearer one. Far
above zero, what stands behind the leading binary digits matters only where these lie midway between the
two: `nearestMagnitude_behind`.
-/

set_option autoImplicit false

namespace Docblock.Binary64

section Units

variable {k q m : Nat}

theorem units_strictMono : StrictMono units :=
  strictMono_nat_of_lt_succ units_lt_succ

/-- The magnitude with the significand `m`. The greatest significand of a binade may be exceeded by one. -/
theorem units_of_significand (lower : binade ≤ m) (upper : m ≤ 2 * binade) :
    units (q * binade + m) = m * 2 ^ q := by
  have positive := binade_pos
  by_cases last : m = 2 * binade
  · have shape : q * binade + m = (q + 1 + 1) * binade + 0 := by
      rw [last, Nat.add_mul, Nat.add_mul]
      omega
    rw [shape, units_of_binade positive, Nat.pow_eq, last, Nat.pow_succ, Nat.zero_add,
      Nat.mul_comm (2 ^ q) 2, ← Nat.mul_assoc, Nat.mul_comm binade 2]
  · have shape : q * binade + m = (q + 1) * binade + (m - binade) := by
      rw [Nat.add_mul]
      omega
    rw [shape, units_of_binade (by omega), Nat.pow_eq, Nat.sub_add_cancel lower]

theorem units_of_le (small : k ≤ 2 * binade) : units k = k := by
  by_cases subnormal : k < binade
  · exact units_of_lt subnormal
  · have exact := units_of_significand (q := 0) (Nat.le_of_not_lt subnormal) small
    simpa using exact

theorem exists_significand (normal : binade ≤ k) :
    ∃ q m, binade ≤ m ∧ m < 2 * binade ∧ k = q * binade + m := by
  rcases exists_binade k with subnormal | ⟨q, r, offset, rfl⟩
  · omega
  · refine ⟨q, r + binade, by omega, by omega, ?_⟩
    rw [Nat.add_mul]
    omega

theorem units_add_binades (normal : binade ≤ k) (s : Nat) : units (k + s * binade) = units k * 2 ^ s := by
  obtain ⟨q, m, lower, upper, rfl⟩ := exists_significand normal
  have shape : q * binade + m + s * binade = (q + s) * binade + m := by
    rw [Nat.add_mul]
    omega
  rw [shape, units_of_significand lower (Nat.le_of_lt upper), units_of_significand lower (Nat.le_of_lt upper),
    Nat.pow_add, Nat.mul_assoc]

theorem two_pow_dvd_units (high : (q + 1) * binade ≤ k) : 2 ^ q ∣ units k := by
  obtain ⟨p, m, lower, upper, rfl⟩ := exists_significand (k := k) (by rw [Nat.add_mul] at high; omega)
  have above : q ≤ p := by
    have bounded : (q + 1) * binade < (p + 2) * binade := by
      rw [Nat.add_mul p]
      omega
    have below := Nat.lt_of_mul_lt_mul_right bounded
    omega
  rw [units_of_significand lower (Nat.le_of_lt upper)]
  exact (Nat.pow_dvd_pow 2 above).mul_left m

theorem exists_units_eq (small : m ≤ 2 * binade) (q : Nat) : ∃ k, units k = m * 2 ^ q := by
  induction q generalizing m with
  | zero => exact ⟨m, by rw [units_of_le small, Nat.pow_zero, Nat.mul_one]⟩
  | succ q induction =>
      by_cases normal : binade ≤ m
      · exact ⟨_, units_of_significand normal small⟩
      · obtain ⟨k, exact⟩ := induction (m := 2 * m) (by omega)
        refine ⟨k, ?_⟩
        rw [exact, Nat.pow_succ, Nat.mul_comm (2 ^ q) 2, ← Nat.mul_assoc, Nat.mul_comm m 2]

end Units

section Rounding

variable {k l u : Nat}

theorem floorMagnitude_spec (u : Nat) :
    units (floorMagnitude u) ≤ u ∧ u < units (floorMagnitude u + 1) := by
  by_cases small : u < 2 * binade
  · rw [floorMagnitude, if_pos small, units_of_le (Nat.le_of_lt small), units_of_le small]
    omega
  · have single : binade = 2 ^ 52 := rfl
    have double : 2 * binade = 2 ^ 53 := rfl
    have nonzero : u ≠ 0 := by omega
    obtain ⟨s, logarithm⟩ : ∃ s, u.log2 = 52 + s := by
      refine Nat.exists_eq_add_of_le ((Nat.le_log2 nonzero).2 ?_)
      omega
    obtain ⟨lower, upper⟩ := (Nat.log2_eq_iff nonzero).1 logarithm
    have power : 0 < 2 ^ s := Nat.two_pow_pos s
    have front : binade ≤ u / 2 ^ s := by
      rw [Nat.le_div_iff_mul_le power, single, ← Nat.pow_add]
      exact lower
    have bounded : u / 2 ^ s < 2 * binade := by
      rw [Nat.div_lt_iff_lt_mul power, double, ← Nat.pow_add]
      rwa [Nat.add_right_comm] at upper
    have floor : floorMagnitude u = s * binade + u / 2 ^ s := by
      simp only [floorMagnitude, small, if_false, logarithm, Nat.add_sub_cancel_left]
      exact Nat.add_comm _ _
    rw [floor, Nat.add_assoc, units_of_significand front (Nat.le_of_lt bounded),
      units_of_significand (Nat.le_succ_of_le front) bounded]
    exact ⟨Nat.div_mul_le_self u _, (Nat.div_lt_iff_lt_mul power).1 (Nat.lt_succ_self _)⟩

theorem floorMagnitude_eq (lower : units k ≤ u) (upper : u < units (k + 1)) : floorMagnitude u = k := by
  obtain ⟨lower', upper'⟩ := floorMagnitude_spec u
  have above := units_strictMono.lt_iff_lt.1 (Nat.lt_of_le_of_lt lower' upper)
  have below := units_strictMono.lt_iff_lt.1 (Nat.lt_of_le_of_lt lower upper')
  omega

theorem nearestMagnitude_below (lower : units k ≤ u) (below : 2 * u < units k + units (k + 1)) :
    nearestMagnitude u 1 = k := by
  have floor := floorMagnitude_eq lower (by omega)
  simp [nearestMagnitude, floor, below]

theorem nearestMagnitude_above (above : units k + units (k + 1) < 2 * u) (upper : u < units (k + 1)) :
    nearestMagnitude u 1 = k + 1 := by
  have floor := floorMagnitude_eq (k := k) (u := u) (by omega) upper
  have notBelow : ¬ 2 * u < units k + units (k + 1) := by omega
  simp [nearestMagnitude, floor, notBelow, above]

theorem nearestMagnitude_midway (middle : 2 * u = units k + units (k + 1)) :
    nearestMagnitude u 1 = if k % 2 = 0 then k else k + 1 := by
  have ascending := units_lt_succ k
  have floor := floorMagnitude_eq (k := k) (u := u) (by omega) (by omega)
  simp [nearestMagnitude, floor, middle]

theorem nearestMagnitude_units (k : Nat) : nearestMagnitude (units k) 1 = k :=
  nearestMagnitude_exact Nat.one_pos (Nat.mul_one _).symm

theorem nearestMagnitude_cases (u : Nat) : ∃ k, units k ≤ u ∧ u < units (k + 1) ∧
    (nearestMagnitude u 1 = k ∧ 2 * u ≤ units k + units (k + 1) ∧
        (2 * u = units k + units (k + 1) → k % 2 = 0) ∨
      nearestMagnitude u 1 = k + 1 ∧ units k + units (k + 1) ≤ 2 * u ∧
        (2 * u = units k + units (k + 1) → k % 2 = 1)) := by
  obtain ⟨lower, upper⟩ := floorMagnitude_spec u
  refine ⟨floorMagnitude u, lower, upper, ?_⟩
  generalize floorMagnitude u = k at lower upper
  rcases Nat.lt_trichotomy (2 * u) (units k + units (k + 1)) with below | middle | above
  · exact .inl ⟨nearestMagnitude_below lower below, by omega, by omega⟩
  · have taken := nearestMagnitude_midway middle
    by_cases even : k % 2 = 0
    · rw [if_pos even] at taken
      exact .inl ⟨taken, by omega, fun _ => even⟩
    · rw [if_neg even] at taken
      exact .inr ⟨taken, by omega, fun _ => by omega⟩
  · exact .inr ⟨nearestMagnitude_above above upper, by omega, by omega⟩

theorem le_nearestMagnitude (above : units k ≤ u) : k ≤ nearestMagnitude u 1 := by
  obtain ⟨l, lower, upper, cases⟩ := nearestMagnitude_cases u
  have order := units_strictMono.lt_iff_lt.1 (Nat.lt_of_le_of_lt above upper)
  rcases cases with ⟨taken, -⟩ | ⟨taken, -⟩ <;> omega

theorem nearestMagnitude_le (below : u ≤ units k) : nearestMagnitude u 1 ≤ k := by
  obtain ⟨l, lower, upper, cases⟩ := nearestMagnitude_cases u
  rcases Nat.lt_or_eq_of_le (units_strictMono.le_iff_le.1 (lower.trans below)) with less | rfl
  · rcases cases with ⟨taken, -⟩ | ⟨taken, -⟩ <;> omega
  · rw [Nat.le_antisymm below lower, nearestMagnitude_units]

/-- No magnitude is nearer to `u` units than magnitude `k`, and if another one is as near, `k` is even. -/
structure IsNearest (u k : Nat) : Prop where
  nearest : ∀ l, Nat.dist (units k) u ≤ Nat.dist (units l) u
  even : ∀ l, l ≠ k → Nat.dist (units l) u = Nat.dist (units k) u → k % 2 = 0

theorem isNearest_nearestMagnitude (u : Nat) : IsNearest u (nearestMagnitude u 1) := by
  obtain ⟨k, lower, upper, cases⟩ := nearestMagnitude_cases u
  -- every other magnitude lies beyond one of the two neighbours
  have beyond : ∀ l, l = k ∨ l = k + 1 ∨ units l < units k ∨ units (k + 1) < units l := by
    intro l
    rcases Nat.lt_or_ge l k with before | after
    · exact .inr (.inr (.inl (units_strictMono before)))
    · rcases Nat.lt_or_ge (k + 1) l with later | within
      · exact .inr (.inr (.inr (units_strictMono later)))
      · omega
  rcases cases with ⟨taken, half, even⟩ | ⟨taken, half, odd⟩
  · rw [taken]
    constructor <;> intro l <;> unfold Nat.dist <;> rcases beyond l with rfl | rfl | out | out <;> omega
  · rw [taken]
    constructor <;> intro l <;> unfold Nat.dist <;> rcases beyond l with rfl | rfl | out | out <;> omega

/-- The number of units lies midway between an even magnitude and the next, and is rounded down. -/
def IsEvenTie (u : Nat) : Prop :=
  ∃ k, k % 2 = 0 ∧ 2 * u = units k + units (k + 1)

theorem isEvenTie_iff : IsEvenTie u ↔ floorMagnitude u % 2 = 0 ∧
    2 * u = units (floorMagnitude u) + units (floorMagnitude u + 1) := by
  constructor
  · rintro ⟨k, even, middle⟩
    have ascending := units_lt_succ k
    rw [floorMagnitude_eq (k := k) (by omega) (by omega)]
    exact ⟨even, middle⟩
  · rintro ⟨even, middle⟩
    exact ⟨_, even, middle⟩

instance (u : Nat) : Decidable (IsEvenTie u) :=
  decidable_of_iff _ isEvenTie_iff.symm

theorem not_isEvenTie_units (k : Nat) : ¬ IsEvenTie (units k) := by
  rintro ⟨l, -, middle⟩
  have ascending := units_lt_succ l
  have lower := units_strictMono.lt_iff_lt.1 (show units l < units k by omega)
  have upper := units_strictMono.lt_iff_lt.1 (show units k < units (l + 1) by omega)
  omega

end Rounding

section Grid

variable {k a b m e : Nat}

/-- The neighbours, and with them their middle, are whole numbers of coarser units. -/
structure OnGrid (unit k a b : Nat) : Prop where
  positive : 0 < unit
  here : units k = 2 * a * unit
  next : units (k + 1) = 2 * b * unit

variable {unit : Nat}

theorem OnGrid.middle (grid : OnGrid unit k a b) : units k + units (k + 1) = 2 * ((a + b) * unit) := by
  rw [grid.here, grid.next, Nat.mul_assoc, Nat.mul_assoc, ← Nat.mul_add, Nat.add_mul]

theorem OnGrid.bounds (grid : OnGrid unit k a b) :
    (units k ≤ m * unit ↔ 2 * a ≤ m) ∧ (m * unit < units (k + 1) ↔ m < 2 * b) := by
  rw [grid.here, grid.next]
  exact ⟨Nat.mul_le_mul_right_iff grid.positive, Nat.mul_lt_mul_right grid.positive⟩

theorem OnGrid.nearestMagnitude_eq (grid : OnGrid unit k a b) (lower : 2 * a ≤ m) (upper : m < 2 * b) :
    nearestMagnitude (m * unit) 1 = if m < a + b ∨ m = a + b ∧ k % 2 = 0 then k else k + 1 := by
  have middle := grid.middle
  have lower' := grid.bounds.1.2 lower
  have upper' := grid.bounds.2.2 upper
  rcases Nat.lt_trichotomy m (a + b) with below | rfl | above
  · have scaled := (Nat.mul_lt_mul_right grid.positive).2 below
    rw [if_pos (.inl below), nearestMagnitude_below lower' (by omega)]
  · rw [nearestMagnitude_midway middle.symm]
    simp
  · have scaled := (Nat.mul_lt_mul_right grid.positive).2 above
    have apart : ¬ (m < a + b ∨ m = a + b ∧ k % 2 = 0) := by omega
    rw [if_neg apart, nearestMagnitude_above (by omega) upper']

theorem OnGrid.isEvenTie_iff (grid : OnGrid unit k a b) (lower : 2 * a ≤ m) (upper : m < 2 * b) :
    IsEvenTie (m * unit) ↔ m = a + b ∧ k % 2 = 0 := by
  have floor := floorMagnitude_eq (grid.bounds.1.2 lower) (grid.bounds.2.2 upper)
  rw [Binary64.isEvenTie_iff, floor, grid.middle, and_comm, Nat.mul_right_inj (by decide),
    Nat.mul_left_inj (Nat.ne_of_gt grid.positive)]

theorem OnGrid.add_binades (grid : OnGrid unit k a b) (normal : binade ≤ k) (s : Nat) :
    OnGrid unit (k + s * binade) (a * 2 ^ s) (b * 2 ^ s) := by
  refine ⟨grid.positive, ?_, ?_⟩
  · rw [units_add_binades normal, grid.here, Nat.mul_right_comm, ← Nat.mul_assoc]
  · rw [Nat.add_right_comm, units_add_binades (Nat.le_succ_of_le normal), grid.next, Nat.mul_right_comm,
      ← Nat.mul_assoc]

theorem exists_onGrid (high : (e + 2) * binade ≤ k) : ∃ a b, OnGrid (2 ^ e) k a b := by
  obtain ⟨a, here⟩ := two_pow_dvd_units (q := e + 1) high
  obtain ⟨b, next⟩ := two_pow_dvd_units (q := e + 1) (Nat.le_succ_of_le high)
  have doubled : ∀ n, 2 ^ (e + 1) * n = 2 * n * 2 ^ e := by
    intro n
    rw [Nat.pow_succ, Nat.mul_right_comm, Nat.mul_assoc, Nat.mul_comm, Nat.mul_comm n]
  exact ⟨a, b, Nat.two_pow_pos e, here.trans (doubled a), next.trans (doubled b)⟩

theorem units_binades (e : Nat) : units ((e + 2) * binade) = 2 * binade * 2 ^ e := by
  rw [Nat.add_mul]
  exact units_of_significand (by omega) (Nat.le_refl _)

theorem binades_le (large : 2 * binade ≤ m) (upper : m * 2 ^ e < units (k + 1)) : (e + 2) * binade ≤ k := by
  have below := Nat.mul_le_mul_right (2 ^ e) large
  rw [← units_binades] at below
  exact Nat.le_of_lt_succ (units_strictMono.lt_iff_lt.1 (Nat.lt_of_le_of_lt below upper))

end Grid

/-- Of a number that begins with the binary digits of `p` and goes on with `s` more, the `s` digits matter
only if `p` lies midway between two neighbours and is rounded down. -/
theorem nearestMagnitude_behind {p t s e : Nat} (large : 2 * binade ≤ p) (small : t < 2 ^ s) :
    (IsEvenTie (p * 2 ^ e) ∧ t ≠ 0) ∧
        nearestMagnitude ((p * 2 ^ s + t) * 2 ^ e) 1 = nearestMagnitude (p * 2 ^ e) 1 + s * binade + 1 ∨
      ¬ (IsEvenTie (p * 2 ^ e) ∧ t ≠ 0) ∧
        nearestMagnitude ((p * 2 ^ s + t) * 2 ^ e) 1 = nearestMagnitude (p * 2 ^ e) 1 + s * binade := by
  obtain ⟨k, lower, upper, -⟩ := nearestMagnitude_cases (p * 2 ^ e)
  have high := binades_le large upper
  have normal : binade ≤ k := (Nat.le_mul_of_pos_left binade (by omega)).trans high
  obtain ⟨a, b, grid⟩ := exists_onGrid high
  have scaled := grid.add_binades normal s
  replace lower := grid.bounds.1.1 lower
  replace upper := grid.bounds.2.1 upper
  have parity : (k + s * binade) % 2 = k % 2 := by
    have even : s * binade % 2 = 0 := by
      rw [Nat.mul_mod]
      exact congrArg (· % 2) (Nat.mul_zero _)
    omega
  have lower' : 2 * (a * 2 ^ s) ≤ p * 2 ^ s + t := by
    have wide := Nat.mul_le_mul_right (2 ^ s) lower
    rw [Nat.mul_assoc] at wide
    omega
  have upper' : p * 2 ^ s + t < 2 * (b * 2 ^ s) := by
    have wide := Nat.mul_le_mul_right (2 ^ s) upper
    rw [Nat.mul_assoc, Nat.succ_mul] at wide
    omega
  rw [grid.isEvenTie_iff lower upper, grid.nearestMagnitude_eq lower upper, scaled.nearestMagnitude_eq lower' upper',
    parity, ← Nat.add_mul]
  rcases Nat.lt_trichotomy p (a + b) with below | rfl | above
  · have wide := Nat.mul_le_mul_right (2 ^ s) below
    rw [Nat.succ_mul] at wide
    have below' : p * 2 ^ s + t < (a + b) * 2 ^ s := by omega
    rw [if_pos (.inl below'), if_pos (.inl below)]
    exact .inr ⟨by omega, rfl⟩
  · by_cases even : k % 2 = 0
    · by_cases nothing : t = 0
      · rw [if_pos (.inr ⟨by omega, even⟩), if_pos (.inr ⟨rfl, even⟩)]
        exact .inr ⟨by omega, rfl⟩
      · rw [if_neg (by omega), if_pos (.inr ⟨rfl, even⟩)]
        exact .inl ⟨⟨⟨rfl, even⟩, nothing⟩, rfl⟩
    · rw [if_neg (by omega), if_neg (by omega)]
      exact .inr ⟨by omega, by omega⟩
  · have wide := Nat.mul_le_mul_right (2 ^ s) above
    rw [Nat.succ_mul] at wide
    have above' : (a + b) * 2 ^ s < p * 2 ^ s + t := by omega
    rw [if_neg (by omega), if_neg (by omega)]
    exact .inr ⟨by omega, by omega⟩

theorem nearestMagnitude_magnitude_behind {k d s e : Nat} (high : (e + 2) * binade ≤ k) (small : d < 2 ^ s) :
    nearestMagnitude (units (nearestMagnitude (units k * 2 ^ s) 1) + d * 2 ^ e) 1 = k + s * binade := by
  have normal : binade ≤ k := (Nat.le_mul_of_pos_left binade (by omega)).trans high
  obtain ⟨a, b, grid⟩ := exists_onGrid high
  have large : 2 * binade ≤ 2 * a := by
    have above := units_strictMono.monotone high
    rw [units_binades, grid.here] at above
    exact Nat.le_of_mul_le_mul_right above grid.positive
  have exact := nearestMagnitude_units (k + s * binade)
  rw [units_add_binades normal] at exact
  have sum : units k * 2 ^ s + d * 2 ^ e = (2 * a * 2 ^ s + d) * 2 ^ e := by
    rw [grid.here, Nat.add_mul, Nat.mul_right_comm]
  rw [exact, units_add_binades normal, sum]
  rcases nearestMagnitude_behind (e := e) large small with ⟨⟨tie, -⟩, -⟩ | ⟨-, same⟩
  · rw [← grid.here] at tie
    exact absurd tie (not_isEvenTie_units k)
  · rw [same, ← grid.here, nearestMagnitude_units]

end Docblock.Binary64
