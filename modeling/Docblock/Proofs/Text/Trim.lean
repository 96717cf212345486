import Docblock.Text.Basic

/-!
# Blanks at the ends of a text

Trimming does not depend on blanks that are put before a text or behind it.
-/

set_option autoImplicit false

namespace Docblock.Text

variable {s t blanks : Text}

@[simp] theorem isBlankText_nil : isBlankText [] = true := rfl

@[simp] theorem isBlankText_append : isBlankText (s ++ t) = (isBlankText s && isBlankText t) := by
  simp [isBlankText]

theorem isBlankText_cons {c : Char} : isBlankText (c :: s) = (isBlank c && isBlankText s) := by
  simp [isBlankText]

theorem isEmpty_of_filled (filled : isBlankText s = false) : s.isEmpty = false := by
  cases s with
  | nil => cases filled
  | cons c s => rfl

theorem trimStart_eq_nil (blank : isBlankText s = true) : trimStart s = [] :=
  trimStart_eq_nil_iff.2 blank

theorem trimEnd_eq_nil (blank : isBlankText s = true) : trimEnd s = [] :=
  trimEnd_eq_nil_iff.2 blank

theorem trimStart_blank_append (blank : isBlankText blanks = true) :
    trimStart (blanks ++ s) = trimStart s := by
  unfold trimStart
  exact List.dropWhile_append_of_pos fun c inside => List.all_eq_true.1 blank c inside

theorem trimStart_append (filled : isBlankText s = false) : trimStart (s ++ t) = trimStart s ++ t := by
  have kept : s.dropWhile isBlank ≠ [] := by
    intro nothing
    rw [trimStart_eq_nil_iff.1 nothing] at filled
    cases filled
  rw [trimStart, List.dropWhile_append, if_neg (by simpa using kept), trimStart]

theorem trimEnd_append_blank (blank : isBlankText blanks = true) :
    trimEnd (s ++ blanks) = trimEnd s := by
  induction s with
  | nil => simp [trimEnd_eq_nil blank, trimEnd]
  | cons c s induction => simp only [List.cons_append, trimEnd, induction]

theorem isBlankText_of_trim_eq_nil (empty : trim s = []) : isBlankText s = true := by
  have blank := trimEnd_eq_nil_iff.1 empty
  induction s with
  | nil => rfl
  | cons c s induction =>
      by_cases first : isBlank c = true
      · have same : trimStart (c :: s) = trimStart s := by simp [trimStart, first]
        rw [same] at blank
        rw [isBlankText_cons, first, induction (trimEnd_eq_nil blank) blank]
        rfl
      · have same : trimStart (c :: s) = c :: s := by simp [trimStart, first]
        rwa [same] at blank

theorem trim_eq_nil_iff : trim s = [] ↔ isBlankText s = true := by
  constructor
  · exact isBlankText_of_trim_eq_nil
  · intro blank
    rw [trim, trimStart_eq_nil blank]
    rfl

theorem trim_blank_append (blank : isBlankText blanks = true) : trim (blanks ++ s) = trim s := by
  rw [trim, trimStart_blank_append blank, trim]

theorem trim_blank_cons {c : Char} (blank : isBlank c = true) : trim (c :: s) = trim s := by
  have alone : isBlankText [c] = true := by simp [isBlankText, blank]
  exact trim_blank_append alone

theorem trim_append_blank (blank : isBlankText blanks = true) : trim (s ++ blanks) = trim s := by
  by_cases empty : isBlankText s = true
  · rw [trim_eq_nil_iff.2 empty, trim_eq_nil_iff.2 (by simp [empty, blank])]
  · have behind : trimStart (s ++ blanks) = trimStart s ++ blanks := trimStart_append (by simpa using empty)
    rw [trim, behind, trimEnd_append_blank blank, trim]

/-- What trimming takes off the beginning. -/
theorem exists_blank_append_trimStart (s : Text) :
    ∃ blanks, isBlankText blanks = true ∧ s = blanks ++ trimStart s := by
  refine ⟨s.takeWhile isBlank, ?_, (List.takeWhile_append_dropWhile).symm⟩
  simp [isBlankText]

theorem exists_trimEnd_append_blank (s : Text) :
    ∃ blanks, isBlankText blanks = true ∧ s = trimEnd s ++ blanks := by
  induction s with
  | nil => exact ⟨[], rfl, rfl⟩
  | cons c s induction =>
      obtain ⟨blanks, blank, whole⟩ := induction
      cases kept : trimEnd s with
      | cons d more =>
          refine ⟨blanks, blank, ?_⟩
          rw [kept] at whole
          simp only [trimEnd, kept]
          rw [List.cons_append, ← whole]
      | nil =>
          by_cases first : isBlank c = true
          · refine ⟨c :: s, ?_, by simp [trimEnd, kept, first]⟩
            rw [isBlankText_cons, first, trimEnd_eq_nil_iff.1 kept]
            rfl
          · refine ⟨s, trimEnd_eq_nil_iff.1 kept, by simp [trimEnd, kept, first]⟩

theorem exists_blanks_around_trim (s : Text) :
    ∃ front back, isBlankText front = true ∧ isBlankText back = true ∧ s = front ++ (trim s ++ back) := by
  obtain ⟨front, blankFront, whole⟩ := exists_blank_append_trimStart s
  obtain ⟨back, blankBack, rest⟩ := exists_trimEnd_append_blank (trimStart s)
  refine ⟨front, back, blankFront, blankBack, ?_⟩
  rw [trim, ← rest]
  exact whole

theorem trimEnd_trimEnd (s : Text) : trimEnd (trimEnd s) = trimEnd s := by
  obtain ⟨blanks, blank, whole⟩ := exists_trimEnd_append_blank s
  have behind : trimEnd (trimEnd s ++ blanks) = trimEnd (trimEnd s) := trimEnd_append_blank blank
  rw [← behind, ← whole]

theorem trimEnd_of_trim_eq (trimmed : trim s = s) : trimEnd s = s := by
  have behind : trimEnd (trim s) = trim s := trimEnd_trimEnd (trimStart s)
  rwa [trimmed] at behind

/-- Trimming the end stops within a text that is not blank. -/
theorem trimEnd_append (filled : isBlankText t = false) : trimEnd (s ++ t) = s ++ trimEnd t := by
  induction s with
  | nil => rfl
  | cons c s induction =>
      have kept : trimEnd t ≠ [] := by
        intro nothing
        rw [trimEnd_eq_nil_iff.1 nothing] at filled
        cases filled
      rw [List.cons_append, trimEnd, induction]
      cases shape : s ++ trimEnd t with
      | nil => exact absurd (List.append_eq_nil_iff.1 shape).2 kept
      | cons d more => rw [List.cons_append, shape]

/-- What is trimmed begins what is trimmed with more behind it. -/
theorem trim_prefix (s t : Text) : trim s <+: trim (s ++ t) := by
  by_cases blank : isBlankText s = true
  · rw [trim_eq_nil_iff.2 blank]
    exact List.nil_prefix
  · rw [Bool.not_eq_true] at blank
    obtain ⟨blanks, -, whole⟩ := exists_trimEnd_append_blank (trimStart s)
    have front : trimEnd (trimStart s) <+: trimStart s := ⟨blanks, whole.symm⟩
    rw [trim, trim, trimStart_append blank]
    by_cases behind : isBlankText t = true
    · exact ⟨[], by rw [List.append_nil, trimEnd_append_blank behind]⟩
    · rw [Bool.not_eq_true] at behind
      rw [trimEnd_append behind]
      exact front.trans (List.prefix_append _ _)

theorem trim_trimEnd (s : Text) : trim (trimEnd s) = trim s := by
  obtain ⟨blanks, blank, whole⟩ := exists_trimEnd_append_blank s
  have behind : trim (trimEnd s ++ blanks) = trim (trimEnd s) := trim_append_blank blank
  rw [← behind, ← whole]

theorem trim_trimStart (s : Text) : trim (trimStart s) = trim s := by
  obtain ⟨blanks, blank, whole⟩ := exists_blank_append_trimStart s
  have before : trim (blanks ++ trimStart s) = trim (trimStart s) := trim_blank_append blank
  rw [← before, ← whole]

@[simp] theorem trim_trim (s : Text) : trim (trim s) = trim s := by
  calc trim (trim s) = trim (trimEnd (trimStart s)) := rfl
    _ = trim (trimStart s) := trim_trimEnd _
    _ = trim s := trim_trimStart s

theorem mem_of_mem_trim {c : Char} (inside : c ∈ trim s) : c ∈ s := by
  obtain ⟨before, _, front⟩ := exists_blank_append_trimStart s
  obtain ⟨behind, _, back⟩ := exists_trimEnd_append_blank (trimStart s)
  rw [front, List.mem_append, back, List.mem_append]
  exact .inr (.inl inside)

theorem mem_trim_of_visible {c : Char} (inside : c ∈ s) (visible : isBlank c = false) : c ∈ trim s := by
  obtain ⟨before, blankBefore, front⟩ := exists_blank_append_trimStart s
  obtain ⟨behind, blankBehind, back⟩ := exists_trimEnd_append_blank (trimStart s)
  rw [front, back, List.mem_append, List.mem_append] at inside
  have outside : ∀ {blanks : Text}, isBlankText blanks = true → c ∉ blanks := by
    intro blanks blank member
    have blankHere := List.all_eq_true.1 blank c member
    rw [visible] at blankHere
    cases blankHere
  rcases inside with member | kept | member
  · exact absurd member (outside blankBefore)
  · exact kept
  · exact absurd member (outside blankBehind)

theorem isBlank_of_head?_trimStart {c : Char} (first : (trimStart s).head? = some c) : isBlank c = false := by
  have head := List.head?_dropWhile_not isBlank s
  rw [trimStart] at first
  rw [first] at head
  exact head

theorem isBlank_of_trim_eq_cons {c : Char} {rest : Text} (shape : trim s = c :: rest) :
    isBlank c = false := by
  obtain ⟨behind, _, back⟩ := exists_trimEnd_append_blank (trimStart s)
  have trimmed : trimEnd (trimStart s) = c :: rest := shape
  rw [trimmed] at back
  exact isBlank_of_head?_trimStart (by rw [back]; rfl)

theorem trimStart_of_visible {c : Char} {rest : Text} (visible : isBlank c = false) :
    trimStart (c :: rest) = c :: rest := by
  simp [trimStart, visible]

theorem trimEnd_of_visible {c : Char} (visible : isBlank c = false) (s : Text) :
    trimEnd (s ++ [c]) = s ++ [c] := by
  induction s with
  | nil => simp [trimEnd, visible]
  | cons d s induction =>
      rw [List.cons_append, trimEnd, induction]
      cases s <;> rfl

theorem trimEnd_cons_of_visible {c : Char} (visible : isBlank c = false) (rest : Text) :
    trimEnd (c :: rest) = c :: trimEnd rest := by
  rw [trimEnd]
  cases trimEnd rest with
  | nil => simp [visible]
  | cons d kept => rfl

/-- A text between what is not blank is trimmed. -/
theorem trim_bracketed {first last : Char} (visible : isBlank first = false)
    (visibleLast : isBlank last = false) (s : Text) :
    trim (first :: (s ++ [last])) = first :: (s ++ [last]) := by
  rw [trim, trimStart_of_visible visible]
  exact trimEnd_of_visible visibleLast (first :: s)

theorem exists_trim_cons {c : Char} (visible : isBlank c = false) (s : Text) :
    ∃ rest, trim (c :: s) = c :: rest := by
  rw [trim, trimStart_of_visible visible, trimEnd]
  cases trimEnd s with
  | nil => exact ⟨[], by simp [visible]⟩
  | cons d kept => exact ⟨d :: kept, rfl⟩

theorem exists_trim_append {c : Char} (visible : isBlank c = false) (s : Text) :
    ∃ front, trim (s ++ [c]) = front ++ [c] := by
  induction s with
  | nil => exact ⟨[], by simp [trim, trimStart, trimEnd, visible]⟩
  | cons d s induction =>
      by_cases blank : isBlank d = true
      · obtain ⟨front, shape⟩ := induction
        refine ⟨front, ?_⟩
        rw [List.cons_append, trim_blank_cons blank, shape]
      · rw [Bool.not_eq_true] at blank
        exact ⟨d :: s, trim_bracketed blank visible s⟩

theorem trim_of_visible (visible : ∀ c ∈ s, isBlank c = false) : trim s = s := by
  have start : trimStart s = s := by
    cases s with
    | nil => rfl
    | cons c rest => exact trimStart_of_visible (visible c List.mem_cons_self)
  rw [trim, start]
  rcases List.eq_nil_or_concat s with rfl | ⟨front, last, rfl⟩
  · rfl
  · rw [List.concat_eq_append] at visible ⊢
    exact trimEnd_of_visible (visible last (by simp)) front

end Docblock.Text
