import Docblock.Decimal.Notation
import Docblock.Decimal.Read

/-!
# Decimal digits

The digits of a natural number, how many they are, and the number that they are read as.
-/

set_option autoImplicit false

namespace Docblock.Decimal

@[simp] theorem digitsOf_zero : digitsOf 0 = [] := by
  simp [digitsOf, lastDigitsFirst]

theorem digitsOf_of_ne_zero {n : Nat} (nonzero : n ≠ 0) :
    digitsOf n = digitsOf (n / 10) ++ [n % 10] := by
  rw [digitsOf, lastDigitsFirst, if_neg nonzero, List.reverse_cons, digitsOf]

theorem digitsOf_ne_nil {n : Nat} (nonzero : n ≠ 0) : digitsOf n ≠ [] := by
  rw [digitsOf_of_ne_zero nonzero]
  simp

theorem lt_ten_of_mem_digitsOf {n d : Nat} (inside : d ∈ digitsOf n) : d < 10 := by
  induction n using Nat.strongRecOn with
  | ind n induction =>
      by_cases zero : n = 0
      · simp [zero] at inside
      · rw [digitsOf_of_ne_zero zero, List.mem_append, List.mem_singleton] at inside
        rcases inside with inside | rfl
        · exact induction (n / 10) (by omega) inside
        · exact Nat.mod_lt n (by decide)

theorem digitsOf_mul_ten {n : Nat} (nonzero : n ≠ 0) : digitsOf (n * 10) = digitsOf n ++ [0] := by
  have larger : n * 10 ≠ 0 := by omega
  rw [digitsOf_of_ne_zero larger, Nat.mul_div_cancel n (by decide), Nat.mul_mod_left]

/-- The number lies below the power of ten of its digits' count, and not below the one before. -/
theorem digitsOf_length_bounds {n : Nat} (nonzero : n ≠ 0) :
    Nat.pow 10 ((digitsOf n).length - 1) ≤ n ∧ n < Nat.pow 10 (digitsOf n).length := by
  change 10 ^ ((digitsOf n).length - 1) ≤ n ∧ n < 10 ^ (digitsOf n).length
  induction n using Nat.strongRecOn with
  | ind n induction =>
      rw [digitsOf_of_ne_zero nonzero, List.length_append, List.length_singleton,
        Nat.add_sub_cancel]
      by_cases small : n / 10 = 0
      · rw [small, digitsOf_zero, List.length_nil]
        omega
      · obtain ⟨lower, upper⟩ := induction (n / 10) (by omega) small
        have some : 0 < (digitsOf (n / 10)).length :=
          List.length_pos_iff.2 (digitsOf_ne_nil small)
        constructor
        · have power : 10 ^ (digitsOf (n / 10)).length =
              10 ^ ((digitsOf (n / 10)).length - 1) * 10 := by
            rw [← Nat.pow_succ, Nat.succ_eq_add_one, Nat.sub_add_cancel some]
          omega
        · rw [Nat.pow_succ]
          omega

theorem digitsOf_length_le {n count : Nat} (below : n < Nat.pow 10 count) :
    (digitsOf n).length ≤ count := by
  by_cases zero : n = 0
  · simp [zero]
  · have lower := (digitsOf_length_bounds zero).1
    have exponents := (Nat.pow_lt_pow_iff_right (by decide)).1 (Nat.lt_of_le_of_lt lower below)
    omega

theorem lt_digitsOf_length {n count : Nat} (above : Nat.pow 10 count ≤ n) :
    count < (digitsOf n).length := by
  have nonzero : n ≠ 0 := Nat.ne_of_gt (Nat.lt_of_lt_of_le (Nat.pow_pos (by decide)) above)
  have upper := (digitsOf_length_bounds nonzero).2
  exact (Nat.pow_lt_pow_iff_right (by decide)).1 (Nat.lt_of_le_of_lt above upper)

theorem digitChar_spec {d : Nat} (small : d < 10) :
    (digitChar d).isDigit = true ∧ (digitChar d).toNat - '0'.toNat = d ∧ (digitChar d = '0' ↔ d = 0) := by
  revert d
  decide

theorem isDigit_of_mem_natText {n : Nat} {c : Char} (inside : c ∈ natText n) : c.isDigit = true := by
  unfold natText at inside
  split at inside
  · rw [List.mem_singleton.1 inside]
    decide
  · obtain ⟨d, member, rfl⟩ := List.mem_map.1 inside
    exact (digitChar_spec (lt_ten_of_mem_digitsOf member)).1

theorem natText_ne_nil (n : Nat) : natText n ≠ [] := by
  unfold natText
  split
  · simp
  · next nonzero => simpa using digitsOf_ne_nil nonzero

theorem natText_length {n : Nat} (nonzero : n ≠ 0) : (natText n).length = (digitsOf n).length := by
  rw [natText, if_neg nonzero, List.length_map]

theorem natText_head_ne_zero {n : Nat} (nonzero : n ≠ 0) : (natText n).head? ≠ some '0' := by
  rw [natText, if_neg nonzero]
  induction n using Nat.strongRecOn with
  | ind n induction =>
      rw [digitsOf_of_ne_zero nonzero, List.map_append]
      by_cases small : n / 10 = 0
      · have digit : n % 10 ≠ 0 := by omega
        have spec := (digitChar_spec (Nat.mod_lt n (by decide : 0 < 10))).2.2
        simp [small, spec, digit]
      · have front := induction (n / 10) (by omega) small
        have some := digitsOf_ne_nil small
        obtain ⟨first, more, shape⟩ := List.exists_cons_of_ne_nil some
        rw [shape] at front ⊢
        simpa using front

theorem natOfDigits_append (front back : Text) :
    natOfDigits (front ++ back) =
      natOfDigits front * Nat.pow 10 back.length + natOfDigits back := by
  have shifted : ∀ (s : Text) (n : Nat),
      s.foldl (fun n c => n * 10 + (c.toNat - '0'.toNat)) n = n * 10 ^ s.length + natOfDigits s := by
    intro s
    induction s with
    | nil => simp [natOfDigits]
    | cons c s induction =>
        intro n
        have here : natOfDigits (c :: s) = (c.toNat - '0'.toNat) * 10 ^ s.length + natOfDigits s := by
          rw [natOfDigits, List.foldl_cons, induction]
          simp
        rw [List.foldl_cons, induction, here, List.length_cons, Nat.pow_succ, Nat.add_mul,
          Nat.mul_comm (10 ^ s.length) 10, Nat.mul_assoc, Nat.add_assoc]
  calc natOfDigits (front ++ back)
      = back.foldl (fun n c => n * 10 + (c.toNat - '0'.toNat)) (natOfDigits front) := by
        rw [natOfDigits, List.foldl_append, natOfDigits]
    _ = natOfDigits front * Nat.pow 10 back.length + natOfDigits back := shifted back _

theorem natOfDigits_replicate_zero (count : Nat) : natOfDigits (List.replicate count '0') = 0 := by
  induction count with
  | zero => rfl
  | succ count induction =>
      rw [List.replicate_succ', natOfDigits_append, induction]
      rfl

theorem natOfDigits_natText (n : Nat) : natOfDigits (natText n) = n := by
  induction n using Nat.strongRecOn with
  | ind n induction =>
      by_cases zero : n = 0
      · simp [zero, natText, natOfDigits]
      · have digit : natOfDigits [digitChar (n % 10)] = n % 10 := by
          have spec := (digitChar_spec (Nat.mod_lt n (by decide : 0 < 10))).2.1
          simpa [natOfDigits] using spec
        rw [natText, if_neg zero, digitsOf_of_ne_zero zero, List.map_append, natOfDigits_append,
          List.map_singleton, digit]
        by_cases small : n / 10 = 0
        · have empty : natOfDigits ([] : Text) = 0 := rfl
          rw [small, digitsOf_zero, List.map_nil, empty]
          omega
        · have front := induction (n / 10) (by omega)
          rw [natText, if_neg small] at front
          rw [front, List.length_singleton, Nat.pow_eq]
          omega

end Docblock.Decimal
