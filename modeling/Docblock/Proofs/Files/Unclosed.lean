import Docblock.Proofs.Files.Matching

/-!
# Patterns with a class that is not closed

A bracket opens a class of characters. A pattern where nothing closes it is not accepted.
-/

set_option autoImplicit false

namespace Docblock

namespace Glob

variable {s t : Text} {c : Char}

theorem Reading.slash_of_stars {reading next : Reading} (stars : reading.stars s = (next, true)) :
    s.head? = some '/' := by
  by_contra other
  have kept : (reading.stars s).2 = false := by
    unfold Reading.stars
    simp only [other, decide_false, if_false, false_or]
    repeat' split
    all_goals rfl
  rw [stars] at kept
  cases kept

theorem readClass_unclosed (unclosed : ']' ∉ s) (first : Bool) (k : OpenClass) : readClass first k s = none := by
  induction s generalizing first k with
  | nil => rfl
  | cons c rest induction =>
      rw [List.mem_cons, not_or] at unclosed
      have further : classChar first c k ≠ some none := by
        unfold classChar
        rw [if_neg fun closes => unclosed.1 closes.1.symm]
        repeat' split
        all_goals simp
      rw [readClass]
      split
      · rfl
      · next closes => exact absurd closes further
      · exact induction unclosed.2 false _

theorem openClass_unclosed (unclosed : ']' ∉ s) : openClass s = none := by
  unfold openClass
  split
  · exact readClass_unclosed (fun inside => unclosed (List.mem_cons_of_mem _ inside)) _ _
  · exact readClass_unclosed (fun inside => unclosed (List.mem_cons_of_mem _ inside)) _ _
  · exact readClass_unclosed unclosed _ _

/-- A text with a bracket that opens a class, which nothing closes. -/
def Unclosed (s : Text) : Prop :=
  ∃ front rest, s = front ++ '[' :: rest ∧ '[' ∉ front ∧ '\\' ∉ front ∧ ']' ∉ rest

namespace Unclosed

theorem ne_nil (unclosed : Unclosed s) : s ≠ [] := by
  obtain ⟨front, rest, rfl, -⟩ := unclosed
  simp

theorem cons (unclosed : Unclosed s) (other : c ∉ ['[', '\\']) : Unclosed (c :: s) := by
  obtain ⟨front, rest, rfl, bare, unescaped, unended⟩ := unclosed
  simp only [List.mem_cons, List.not_mem_nil, or_false, not_or] at other
  refine ⟨c :: front, rest, rfl, ?_, ?_, unended⟩
  · simpa using ⟨Ne.symm other.1, bare⟩
  · simpa using ⟨Ne.symm other.2, unescaped⟩

/-- At the beginning stands no backslash, and either the bracket or a character in front of it. -/
theorem uncons (unclosed : Unclosed (c :: s)) : c = '[' ∧ ']' ∉ s ∨ c ∉ ['[', '\\'] ∧ Unclosed s := by
  obtain ⟨front, rest, whole, bare, unescaped, unended⟩ := unclosed
  cases front with
  | nil =>
      obtain ⟨rfl, rfl⟩ := List.cons.inj whole
      exact .inl ⟨rfl, unended⟩
  | cons d front =>
      obtain ⟨rfl, rfl⟩ := List.cons.inj whole
      simp only [List.mem_cons, not_or] at bare unescaped
      refine .inr ⟨?_, front, rest, rfl, bare.2, unescaped.2, unended⟩
      simpa using ⟨Ne.symm bare.1, Ne.symm unescaped.1⟩

theorem tail (unclosed : Unclosed (c :: s)) (other : c ≠ '[') : Unclosed s :=
  unclosed.uncons.elim (fun here => absurd here.1 other) And.right

theorem append (unclosed : Unclosed s) (unended : ']' ∉ t) : Unclosed (s ++ t) := by
  obtain ⟨front, rest, rfl, bare, unescaped, before⟩ := unclosed
  exact ⟨front, rest ++ t, by simp, bare, unescaped, by simp [before, unended]⟩

theorem of_append (unclosed : Unclosed (s ++ t)) (other : '[' ∉ t) : Unclosed s := by
  obtain ⟨front, rest, whole, bare, unescaped, unended⟩ := unclosed
  rcases List.append_eq_append_iff.1 whole with ⟨more, rfl, rfl⟩ | ⟨more, rfl, behind⟩
  · exact absurd (List.mem_append_right more List.mem_cons_self) other
  · cases more with
    | nil =>
        rw [List.nil_append] at behind
        exact absurd (behind ▸ List.mem_cons_self) other
    | cons d more =>
        obtain ⟨rfl, rfl⟩ := List.cons.inj behind
        exact ⟨front, more, rfl, bare, unescaped, fun inside => unended (List.mem_append_left t inside)⟩

theorem readTimes_eq_none (unclosed : Unclosed s) (reading : Reading) (count : Nat) :
    readTimes reading count s = none := by
  fun_induction Glob.readTimes reading count s with
  | case1 => exact absurd rfl unclosed.ne_nil
  | case2 => rfl
  | case3 reading count rest induction => exact induction (unclosed.tail (by decide))
  | case4 reading count rest next slash stars induction =>
      have behind := (unclosed.tail (by decide)).tail (by decide)
      refine induction ?_
      cases slash with
      | false => exact behind
      | true =>
          obtain ⟨more, rfl⟩ := List.head?_eq_some_iff.1 (Reading.slash_of_stars stars)
          exact behind.tail (by decide)
  | case5 reading count rest single induction => exact induction (unclosed.tail (by decide))
  | case6 reading count rest wrong => rw [wrong]
  | case7 reading count rest token more closed =>
      obtain ⟨-, unended⟩ | ⟨other, -⟩ := unclosed.uncons
      · rw [openClass_unclosed unended] at closed
        cases closed
      · exact absurd List.mem_cons_self other
  | case8 reading count rest induction => exact induction (unclosed.tail (by decide))
  | case9 => rfl
  | case10 reading count rest next closed induction => exact induction (unclosed.tail (by decide))
  | case11 =>
      obtain ⟨same, -⟩ | ⟨other, -⟩ := unclosed.uncons
      · exact absurd same (by decide)
      · exact absurd (List.mem_cons_of_mem _ List.mem_cons_self) other
  | case12 => rfl
  | case13 reading count c rest comma =>
      rename_i _ _ noBracket _ _ _ _ _ induction
      rw [if_pos comma]
      exact induction (unclosed.tail noBracket)
  | case14 reading count c rest notComma =>
      rename_i _ _ noBracket _ _ _ _ _ induction
      rw [if_neg notComma]
      exact induction (unclosed.tail noBracket)

end Unclosed

end Glob

namespace Rule

variable {pattern : Text}

theorem globOf?_unclosed (unclosed : Glob.Unclosed pattern) (anchored : Bool) : globOf? anchored pattern = none := by
  have deep : Glob.Unclosed ("**/".toList ++ pattern) :=
    ((unclosed.cons (by decide)).cons (by decide)).cons (by decide)
  have either : ∀ condition : Bool, Glob.Unclosed (if condition then pattern else "**/".toList ++ pattern) := by
    intro condition
    cases condition with
    | true => exact unclosed
    | false => exact deep
  have inside : ∀ pattern, Glob.Unclosed pattern →
      Glob.Unclosed (if "/**".toList.isSuffixOf pattern then pattern ++ ['/', '*'] else pattern) := by
    intro pattern unclosed
    split
    · exact unclosed.append (by decide)
    · exact unclosed
  exact (inside _ (either _)).readTimes_eq_none _ _

theorem ofPattern?_unclosed (unclosed : Glob.Unclosed pattern) (keeps anchored : Bool) :
    ofPattern? keeps anchored pattern = none := by
  unfold ofPattern?
  split
  · next directory cut =>
      rw [Text.stripSuffix_eq_some_iff.1 cut] at unclosed
      have kept := unclosed.of_append (by decide)
      have front : Glob.Unclosed ((Text.stripSuffix ['\\'] directory).getD directory) := by
        cases escaped : Text.stripSuffix ['\\'] directory with
        | none => exact kept
        | some before =>
            rw [Text.stripSuffix_eq_some_iff.1 escaped] at kept
            exact kept.of_append (by decide)
      rw [globOf?_unclosed front]
      rfl
  · rw [globOf?_unclosed unclosed]
    rfl

theorem ofLine?_unclosed (unclosed : Glob.Unclosed pattern) : ofLine? ('!' :: pattern) = none := by
  have anchored : ∀ pattern, Glob.Unclosed pattern → ofAnchored? true pattern = none := by
    intro pattern unclosed
    unfold ofAnchored?
    split
    · exact ofPattern?_unclosed (unclosed.tail (by decide)) true true
    · exact ofPattern?_unclosed unclosed true false
  unfold ofLine?
  rw [if_neg (by simp)]
  split
  · exact anchored pattern unclosed
  · obtain ⟨blanks, blank, whole⟩ := Text.exists_trimEnd_append_blank pattern
    have visible : '[' ∉ blanks := fun inside => absurd (List.all_eq_true.1 blank '[' inside) (by decide)
    rw [Text.trimEnd_cons_of_visible (by decide)]
    rw [whole] at unclosed
    exact anchored _ (unclosed.of_append visible)

end Rule

/-- The walker that knows the ignore files of Git accepts no pattern with a class that is not closed. -/
theorem Walker.gitStyle_refuses_unclosed (fits : List Text → Bool) (globals : GlobalRules) {pattern : Text}
    (unclosed : Glob.Unclosed pattern) : (Walker.gitStyle fits globals).accepts ('!' :: pattern) = false := by
  simp [gitStyle, Rule.ofLine?_unclosed unclosed]

end Docblock
