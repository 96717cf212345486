import Mathlib.Data.List.TakeWhile

/-!
# Spans

A span of values that meet a condition ends where what is put behind it could not go on with it.
-/

set_option autoImplicit false

namespace Docblock.Text

variable {α : Type} {inside : α → Bool}

/-- A span ends where it did when what is put behind could not go on with it. -/
theorem span_append (front : List α) {behind : List α} (stops : ∀ value ∈ behind.head?, inside value = false) :
    (front ++ behind).takeWhile inside = front.takeWhile inside ∧
      (front ++ behind).dropWhile inside = front.dropWhile inside ++ behind := by
  induction front with
  | nil =>
      cases behind with
      | nil => exact ⟨rfl, rfl⟩
      | cons value behind =>
          have out := stops value rfl
          exact ⟨by simp [out], by simp [out]⟩
  | cons value front induction =>
      by_cases goesOn : inside value = true
      · exact ⟨by simp [goesOn, induction.1], by simp [goesOn, induction.2]⟩
      · exact ⟨by simp [goesOn], by simp [goesOn]⟩

theorem span_all {front behind : List α} (each : ∀ value ∈ front, inside value = true)
    (stops : ∀ value ∈ behind.head?, inside value = false) :
    (front ++ behind).takeWhile inside = front ∧ (front ++ behind).dropWhile inside = behind := by
  obtain ⟨taken, left⟩ := span_append front stops
  constructor
  · rw [taken, List.takeWhile_eq_self_iff.2 each]
  · rw [left, List.dropWhile_eq_nil_iff.2 each, List.nil_append]

end Docblock.Text
