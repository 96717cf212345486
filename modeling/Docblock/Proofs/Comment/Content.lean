import Docblock.Comment.Line
import Docblock.Proofs.Text.Trim

/-!
# The content of lines

The content of lines is what is left of them without the blank ones and without blanks at their ends.
Cutting texts into lines, joining lines and trimming keep it.
-/

set_option autoImplicit false

namespace Docblock.Comment

open Text

/-- The lines that are not blank, trimmed. -/
def content (lines : List Text) : List Text :=
  (lines.filter (! isBlankText ·)).map trim

def textContent (text : Text) : List Text :=
  content (Text.lines text)

section Lines

variable {line : Text} {lines others : List Text}

@[simp] theorem content_nil : content [] = [] := rfl

@[simp] theorem content_append : content (lines ++ others) = content lines ++ content others := by
  simp [content]

theorem content_cons : content (line :: lines) = content [line] ++ content lines := by
  rw [← content_append]
  rfl

@[simp] theorem content_empty_line : content [[]] = [] := rfl

theorem content_eq_of_trim_eq {other : Text} (same : trim line = trim other) :
    content [line] = content [other] := by
  have blank : isBlankText line = isBlankText other := by
    rw [Bool.eq_iff_iff, ← trim_eq_nil_iff, ← trim_eq_nil_iff, same]
  simp only [content, List.filter_cons, List.filter_nil, blank]
  split
  · simp [same]
  · rfl

theorem content_map {f : Text → Text} (same : ∀ line, trim (f line) = trim line) :
    content (lines.map f) = content lines := by
  induction lines with
  | nil => rfl
  | cons line lines induction =>
      rw [List.map_cons, content_cons, content_eq_of_trim_eq (same line), induction, ← content_cons]

end Lines

section Pieces

variable {line a b : Text} {lines : List Text}

theorem pieces_ne_nil (text : Text) : pieces text ≠ [] := by
  cases text with
  | nil => simp [pieces]
  | cons c rest =>
      simp only [pieces]
      split
      · simp
      · split <;> simp

theorem pieces_append_feed : pieces (a ++ '\n' :: b) = pieces a ++ pieces b := by
  induction a with
  | nil => simp [pieces]
  | cons c a induction =>
      simp only [List.cons_append, pieces, induction]
      split
      · rfl
      · cases shape : pieces a with
        | nil => exact absurd shape (pieces_ne_nil a)
        | cons first more => rfl

theorem pieces_line (noFeed : '\n' ∉ line) : pieces line = [line] := by
  induction line with
  | nil => rfl
  | cons c line induction =>
      simp only [List.mem_cons, not_or] at noFeed
      simp [pieces, Ne.symm noFeed.1, induction noFeed.2]

theorem trim_dropReturn (line : Text) : trim (dropReturn line) = trim line := by
  unfold dropReturn
  cases found : stripSuffix ['\r'] line with
  | none => rfl
  | some kept =>
      rw [stripSuffix_eq_some_iff.1 found]
      exact (trim_append_blank (by decide)).symm

theorem textContent_eq_pieces (text : Text) : textContent text = content (pieces text) := by
  obtain ⟨front, last, shape⟩ : ∃ front last, pieces text = front ++ [last] :=
    ⟨_, _, (List.dropLast_concat_getLast (pieces_ne_nil text)).symm⟩
  have returns : content (front.map dropReturn) = content front := content_map trim_dropReturn
  simp only [textContent, Text.lines, shape, List.getLast?_append, List.getLast?_singleton,
    Option.some_or, List.dropLast_concat]
  cases last with
  | nil => simp [returns]
  | cons c last => simp [returns]

@[simp] theorem textContent_nil : textContent [] = [] := rfl

theorem textContent_line (noFeed : '\n' ∉ line) : textContent line = content [line] := by
  rw [textContent_eq_pieces, pieces_line noFeed]

theorem textContent_append_feed : textContent (a ++ '\n' :: b) = textContent a ++ textContent b := by
  simp only [textContent_eq_pieces, pieces_append_feed, content_append]

theorem textContent_unlines (noFeed : ∀ line ∈ lines, '\n' ∉ line) :
    textContent (unlines lines) = content lines := by
  induction lines with
  | nil => rfl
  | cons line lines induction =>
      have here := noFeed line (by simp)
      have there := induction fun other inside => noFeed other (by simp [inside])
      cases lines with
      | nil => simpa [unlines, join] using textContent_line here
      | cons other lines =>
          have joined : unlines (line :: other :: lines) = line ++ '\n' :: unlines (other :: lines) := by
            simp [unlines, join, List.intercalate]
          rw [joined, textContent_append_feed, textContent_line here, there]
          exact content_cons.symm

theorem exists_first_line (text : Text) :
    '\n' ∉ text ∨ ∃ line rest, text = line ++ '\n' :: rest ∧ '\n' ∉ line := by
  induction text with
  | nil => exact .inl (by simp)
  | cons c text induction =>
      by_cases feed : c = '\n'
      · exact .inr ⟨[], text, by simp [feed], by simp⟩
      · rcases induction with noFeed | ⟨line, rest, rfl, noFeed⟩
        · exact .inl (by simp [Ne.symm feed, noFeed])
        · exact .inr ⟨c :: line, rest, rfl, by simp [Ne.symm feed, noFeed]⟩

theorem exists_last_line (text : Text) :
    '\n' ∉ text ∨ ∃ front line, text = front ++ '\n' :: line ∧ '\n' ∉ line := by
  induction text with
  | nil => exact .inl (by simp)
  | cons c text induction =>
      rcases induction with noFeed | ⟨front, line, rfl, noFeed⟩
      · by_cases feed : c = '\n'
        · exact .inr ⟨[], text, by simp [feed], noFeed⟩
        · exact .inl (by simp [Ne.symm feed, noFeed])
      · exact .inr ⟨c :: front, line, rfl, noFeed⟩

theorem textContent_blank_cons {c : Char} (blank : isBlank c = true) :
    textContent (c :: a) = textContent a := by
  by_cases feed : c = '\n'
  · subst feed
    exact textContent_append_feed (a := [])
  · have first : ∀ {line : Text}, '\n' ∉ line → textContent (c :: line) = textContent line := by
      intro line noFeed
      rw [textContent_line (by simp [Ne.symm feed, noFeed]), textContent_line noFeed]
      exact content_eq_of_trim_eq (trim_blank_cons blank)
    rcases exists_first_line a with noFeed | ⟨line, rest, rfl, noFeed⟩
    · exact first noFeed
    · rw [← List.cons_append, textContent_append_feed, first noFeed, textContent_append_feed]

theorem textContent_append_blank {c : Char} (blank : isBlank c = true) :
    textContent (a ++ [c]) = textContent a := by
  by_cases feed : c = '\n'
  · subst feed
    simp [textContent_append_feed]
  · have last : ∀ {line : Text}, '\n' ∉ line → textContent (line ++ [c]) = textContent line := by
      intro line noFeed
      rw [textContent_line (by simp [Ne.symm feed, noFeed]), textContent_line noFeed]
      exact content_eq_of_trim_eq (trim_append_blank (by simp [isBlankText, blank]))
    rcases exists_last_line a with noFeed | ⟨front, line, rfl, noFeed⟩
    · exact last noFeed
    · rw [List.append_assoc, List.cons_append, textContent_append_feed, last noFeed,
        textContent_append_feed]

theorem textContent_trimStart (text : Text) : textContent (trimStart text) = textContent text := by
  induction text with
  | nil => rfl
  | cons c text induction =>
      by_cases blank : isBlank c = true
      · have dropped : trimStart (c :: text) = trimStart text := by simp [trimStart, blank]
        rw [dropped, induction, textContent_blank_cons blank]
      · have kept : trimStart (c :: text) = c :: text := by simp [trimStart, blank]
        rw [kept]

theorem textContent_trimEnd (text : Text) : textContent (trimEnd text) = textContent text := by
  obtain ⟨blanks, blank, whole⟩ := exists_trimEnd_append_blank text
  have behind : ∀ kept : Text, textContent (kept ++ blanks) = textContent kept := by
    clear whole
    induction blanks with
    | nil => simp
    | cons c blanks induction =>
        intro kept
        rw [isBlankText_cons, Bool.and_eq_true] at blank
        rw [List.append_cons, induction blank.2, textContent_append_blank blank.1]
  rw [← behind, ← whole]

@[simp] theorem textContent_trim (text : Text) : textContent (trim text) = textContent text := by
  rw [trim, textContent_trimEnd, textContent_trimStart]

theorem textContent_paragraph (noFeed : ∀ line ∈ lines, '\n' ∉ line) :
    textContent (Line.paragraph lines) = content lines := by
  rw [Line.paragraph, textContent_trim, textContent_unlines noFeed]

end Pieces

end Docblock.Comment
