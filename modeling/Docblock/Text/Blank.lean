import Docblock.Text.Ranges

/-!
# Blanks

`isBlank` is the Unicode property `White_Space`. Trimming and splitting of text at blanks are
defined on it.
-/

set_option autoImplicit false

namespace Docblock

abbrev Text := List Char

namespace Text

/-- The code points with the property `White_Space`. -/
def blankRanges : List (Nat × Nat) :=
  [(0x9, 0xD), (0x20, 0x20), (0x85, 0x85), (0xA0, 0xA0), (0x1680, 0x1680), (0x2000, 0x200A),
   (0x2028, 0x2029), (0x202F, 0x202F), (0x205F, 0x205F), (0x3000, 0x3000)]

def isBlank (c : Char) : Bool :=
  inRanges blankRanges c

def isControl (c : Char) : Bool :=
  inRanges [(0x0, 0x1F), (0x7F, 0x9F)] c

def trimStart (s : Text) : Text :=
  s.dropWhile isBlank

def trimEnd : Text → Text
  | [] => []
  | c :: rest =>
      match trimEnd rest with
      | [] => if isBlank c then [] else [c]
      | kept => c :: kept

def trim (s : Text) : Text :=
  trimEnd (trimStart s)

def isBlankText (s : Text) : Bool :=
  s.all isBlank

theorem trimStart_eq_nil_iff {s : Text} : trimStart s = [] ↔ isBlankText s = true := by
  induction s with
  | nil => simp [trimStart, isBlankText]
  | cons c rest induction =>
      by_cases blank : isBlank c = true <;> simp_all [trimStart, isBlankText]

theorem trimEnd_eq_nil_iff {s : Text} : trimEnd s = [] ↔ isBlankText s = true := by
  induction s with
  | nil => simp [trimEnd, isBlankText]
  | cons c rest induction =>
      cases kept : trimEnd rest with
      | nil =>
          have blank := induction.1 kept
          simp_all [trimEnd, isBlankText]
      | cons d more =>
          have notBlank : isBlankText rest ≠ true := fun blank => by
            simp [induction.2 blank] at kept
          simp_all [trimEnd, isBlankText]

end Text

end Docblock
