import Docblock.Proofs.Text.Trim

/-!
# Braces that balance

The braces of a text are counted one by one, whatever stands between them. A text is balanced if it
closes every brace that it opens and no other.
-/

set_option autoImplicit false

namespace Docblock.Text

/-- How many braces are open behind a text, where `depth` are open before it; none if it closes one more
than are open. -/
def braceDepth? (depth : Nat) : Text → Option Nat
  | [] => some depth
  | c :: rest =>
      if c = '{' then braceDepth? (depth + 1) rest
      else if c = '}' then if depth = 0 then none else braceDepth? (depth - 1) rest
      else braceDepth? depth rest

def Balanced (text : Text) : Prop :=
  braceDepth? 0 text = some 0

instance (text : Text) : Decidable (Balanced text) :=
  inferInstanceAs (Decidable (braceDepth? 0 text = some 0))

def braces (text : Text) : Text :=
  text.filter fun c => c == '{' || c == '}'

variable {s t : Text} {c : Char} {depth deeper : Nat}

@[simp] theorem braces_nil : braces [] = [] := rfl

@[simp] theorem braces_append : braces (s ++ t) = braces s ++ braces t :=
  List.filter_append s t

theorem braces_eq_nil_iff : braces s = [] ↔ '{' ∉ s ∧ '}' ∉ s := by
  simp only [braces, List.filter_eq_nil_iff, Bool.or_eq_true, beq_iff_eq, not_or]
  constructor
  · intro none
    exact ⟨fun inside => (none _ inside).1 rfl, fun inside => (none _ inside).2 rfl⟩
  · intro outside c inside
    refine ⟨fun same => ?_, fun same => ?_⟩
    · exact outside.1 (same ▸ inside)
    · exact outside.2 (same ▸ inside)

theorem braces_of_blank (blank : isBlankText s = true) : braces s = [] := by
  have visible : ∀ {c : Char}, isBlank c = false → c ∉ s := by
    intro c visible inside
    rw [List.all_eq_true.1 blank c inside] at visible
    cases visible
  exact braces_eq_nil_iff.2 ⟨visible (by decide), visible (by decide)⟩

theorem braces_trim (s : Text) : braces (trim s) = braces s := by
  obtain ⟨before, blankBefore, front⟩ := exists_blank_append_trimStart s
  obtain ⟨behind, blankBehind, back⟩ := exists_trimEnd_append_blank (trimStart s)
  have whole := congrArg braces front
  rw [back, braces_append, braces_append, braces_of_blank blankBefore, braces_of_blank blankBehind,
    List.nil_append, List.append_nil] at whole
  exact whole.symm

theorem braceDepth?_braces (depth : Nat) (s : Text) : braceDepth? depth (braces s) = braceDepth? depth s := by
  induction s generalizing depth with
  | nil => rfl
  | cons c s induction =>
      by_cases opening : c = '{'
      · subst opening
        exact induction (depth + 1)
      · by_cases closing : c = '}'
        · subst closing
          cases depth with
          | zero => rfl
          | succ depth => exact induction depth
        · have skipped : braces (c :: s) = braces s := by simp [braces, opening, closing]
          rw [skipped, induction, braceDepth?, if_neg opening, if_neg closing]

theorem balanced_congr (same : braces s = braces t) : Balanced s ↔ Balanced t := by
  rw [Balanced, Balanced, ← braceDepth?_braces, same, braceDepth?_braces]

theorem braceDepth?_append (depth : Nat) (s t : Text) :
    braceDepth? depth (s ++ t) = (braceDepth? depth s).bind (braceDepth? · t) := by
  induction s generalizing depth with
  | nil => rfl
  | cons c s induction =>
      by_cases opening : c = '{'
      · simp [braceDepth?, opening, induction]
      · by_cases closing : c = '}'
        · cases depth <;> simp [braceDepth?, closing, induction]
        · simp [braceDepth?, opening, closing, induction]

/-- Braces that are open further out make no difference. -/
theorem braceDepth?_add (found : braceDepth? depth s = some deeper) (outer : Nat) :
    braceDepth? (depth + outer) s = some (deeper + outer) := by
  induction s generalizing depth with
  | nil =>
      cases found
      rfl
  | cons c s induction =>
      by_cases opening : c = '{'
      · simp only [braceDepth?, if_pos opening] at found ⊢
        rw [Nat.add_right_comm]
        exact induction found
      · by_cases closing : c = '}'
        · subst closing
          cases depth with
          | zero => cases found
          | succ depth =>
              rw [Nat.add_right_comm]
              exact induction found
        · simp only [braceDepth?, if_neg opening, if_neg closing] at found ⊢
          exact induction found

namespace Balanced

theorem nil : Balanced [] := rfl

theorem braceDepth? (balanced : Balanced s) (depth : Nat) : braceDepth? depth s = some depth := by
  have found := braceDepth?_add balanced depth
  rwa [Nat.zero_add] at found

theorem append (first : Balanced s) (second : Balanced t) : Balanced (s ++ t) := by
  rw [Balanced, braceDepth?_append, first.braceDepth?]
  exact second

theorem enclosed (inner : Balanced s) : Balanced ('{' :: (s ++ ['}'])) := by
  have closed := inner.braceDepth? 1
  show Text.braceDepth? 1 (s ++ ['}']) = some 0
  rw [braceDepth?_append, closed]
  rfl

end Balanced

end Docblock.Text
