import Docblock.Proofs.TypeExpr.Stream

/-!
# Literals are read back

What `quote` writes for a text is read as the text.
-/

set_option autoImplicit false

namespace Docblock.TypeExpr.StringLiteral

def hexValue (code : Nat) (digits : Text) : Option Nat :=
  digits.foldlM (fun code c => (Decimal.digitValue? 16 c).map (code * 16 + ·)) code

theorem bracedDigits_append {digits : Text} : ∀ {count code value : Nat},
    0 < count + digits.length → count + digits.length ≤ 6 → hexValue code digits = some value →
    ∀ rest, bracedDigits count code (digits ++ '}' :: rest) = (some value, rest) := by
  induction digits with
  | nil =>
      intro count code value some _ valued rest
      have same : code = value := by simpa [hexValue] using valued
      simp only [List.length_nil, Nat.add_zero] at some
      simp [bracedDigits, some, same]
  | cons c digits induction =>
      intro count code value _ few valued rest
      rw [List.length_cons] at few
      cases digit : Decimal.digitValue? 16 c with
      | none => simp [hexValue, digit] at valued
      | some d =>
          have noBrace : c ≠ '}' := by
            rintro rfl
            cases digit
          have enough : count < 6 := by omega
          have others : hexValue (code * 16 + d) digits = some value := by
            simpa [hexValue, digit] using valued
          rw [List.cons_append, bracedDigits]
          simp only [noBrace, false_and, if_false, digit, enough, if_true]
          exact induction (by omega) (by omega) others rest

theorem hexText_of_control {c : Char} (control : Text.isControl c = true) :
    0 < (hexText c.toNat).length ∧ (hexText c.toNat).length ≤ 2 ∧
      hexValue 0 (hexText c.toNat) = some c.toNat := by
  have small : c.toNat < 160 := by
    obtain ⟨range, member, -, upper⟩ := Text.inRanges_iff.1 control
    simp only [List.mem_cons, List.not_mem_nil, or_false] at member
    rcases member with rfl | rfl <;> simp only at upper <;> omega
  have every : ∀ n < 160, 0 < (hexText n).length ∧ (hexText n).length ≤ 2 ∧
      hexValue 0 (hexText n) = some n := by decide +kernel
  exact every c.toNat small

theorem charOf?_toNat (c : Char) : charOf? c.toNat = some c := by
  have valid : c.toNat.isValidChar := c.valid
  rw [charOf?, dif_pos valid]
  exact congrArg some (Char.ext rfl)

/-- An escape stands for the character it is read as. -/
theorem body_escaped {start s : Text} {c : Char} (escape : Text)
    (read : ∀ place, escaped start place (escape ++ s) = (.ok (some c), s)) :
    body '"' start ('\\' :: escape ++ s) =
      ((body '"' start s).1.map (c :: ·), (body '"' start s).2) := by
  rw [List.cons_append, body]
  simp [read]

theorem body_quoteChar (start : Text) (c : Char) (s : Text) :
    body '"' start (quoteChar c ++ s) =
      ((body '"' start s).1.map (c :: ·), (body '"' start s).2) := by
  unfold quoteChar
  split
  · next same =>
      subst same
      exact body_escaped ['"'] fun place => rfl
  split
  · next same =>
      subst same
      exact body_escaped ['\\'] fun place => rfl
  split
  · next same =>
      subst same
      exact body_escaped ['n'] fun place => rfl
  split
  · next same =>
      subst same
      exact body_escaped ['r'] fun place => rfl
  split
  · next same =>
      subst same
      exact body_escaped ['t'] fun place => rfl
  split
  · next control =>
      obtain ⟨some, few, value⟩ := hexText_of_control control
      have digits : ∀ rest, bracedDigits 0 0 (hexText c.toNat ++ '}' :: rest) =
          (Option.some c.toNat, rest) :=
        bracedDigits_append (by omega) (by omega) value
      refine body_escaped ('u' :: '{' :: hexText c.toNat ++ ['}']) fun place => ?_
      simp [escaped, unicodeEscape, digits, charOf?_toNat, Except.map]
  · next noMark noEscape _ _ _ _ =>
      rw [List.cons_append, List.nil_append, body]
      simp [noMark, noEscape]

/-- The literal of a text is read as the text. -/
theorem body_quote (start value k : Text) :
    body '"' start (value.flatMap quoteChar ++ '"' :: k) = (.ok value, k) := by
  induction value with
  | nil =>
      rw [List.flatMap_nil, List.nil_append, body]
      simp
  | cons c value induction =>
      rw [List.flatMap_cons, List.append_assoc, body_quoteChar, induction]
      rfl

end Docblock.TypeExpr.StringLiteral
