import Docblock.Text.Blank

/-!
# Operations on text

Cutting a text at a given prefix, suffix, character or byte, joining and splitting into lines, and the
number of bytes a text takes in UTF-8.
-/

set_option autoImplicit false

namespace Docblock.Text

def byteSize : Text → Nat
  | [] => 0
  | c :: rest => c.utf8Size + byteSize rest

/-- The text without so many bytes at its beginning, unless they cut a character. -/
def dropBytes? : Text → Nat → Option Text
  | s, 0 => some s
  | [], _ + 1 => none
  | c :: rest, count + 1 =>
      if c.utf8Size ≤ count + 1 then dropBytes? rest (count + 1 - c.utf8Size) else none

def takeBytes? : Text → Nat → Option Text
  | _, 0 => some []
  | [], _ + 1 => none
  | c :: rest, count + 1 =>
      if c.utf8Size ≤ count + 1 then (takeBytes? rest (count + 1 - c.utf8Size)).map (c :: ·) else none

def slice? (s : Text) (start stop : Nat) : Option Text :=
  if start ≤ stop then (s.dropBytes? start).bind fun rest => takeBytes? rest (stop - start) else none

def stripPrefix : Text → Text → Option Text
  | [], s => some s
  | _ :: _, [] => none
  | p :: start, c :: s => if p = c then stripPrefix start s else none

def stripSuffix (ending s : Text) : Option Text :=
  (stripPrefix ending.reverse s.reverse).map List.reverse

def splitOnce (mark : Char) : Text → Option (Text × Text)
  | [] => none
  | c :: rest =>
      if c = mark then some ([], rest)
      else (splitOnce mark rest).map fun halves => (c :: halves.1, halves.2)

def join (separator : Text) (parts : List Text) : Text :=
  separator.intercalate parts

def unlines (parts : List Text) : Text :=
  join ['\n'] parts

/-- The pieces of the text between its line feeds, one more than there are line feeds. -/
def pieces : Text → List Text
  | [] => [[]]
  | c :: rest =>
      if c = '\n' then [] :: pieces rest
      else match pieces rest with
        | [] => [[c]]
        | first :: more => (c :: first) :: more

def dropReturn (piece : Text) : Text :=
  (stripSuffix ['\r'] piece).getD piece

/-- The lines of the text: each ends before a line feed, with or without a carriage return in
front of it, and a last line feed begins no further line. -/
def lines (s : Text) : List Text :=
  let all := pieces s
  match all.getLast? with
  | some [] => all.dropLast.map dropReturn
  | some last => (all.dropLast.map dropReturn) ++ [last]
  | none => []

def words (s : Text) : List Text :=
  (s.splitBy fun a b => isBlank a == isBlank b).filter fun part => !isBlankText part

theorem stripPrefix_eq_some_iff {start s rest : Text} :
    stripPrefix start s = some rest ↔ s = start ++ rest := by
  induction start generalizing s with
  | nil => simp [stripPrefix, eq_comm]
  | cons p start induction =>
      cases s with
      | nil => simp [stripPrefix]
      | cons c s =>
          by_cases same : p = c
          · simp [stripPrefix, same, induction]
          · simp [stripPrefix, same, Ne.symm same]

theorem stripSuffix_eq_some_iff {ending s rest : Text} :
    stripSuffix ending s = some rest ↔ s = rest ++ ending := by
  constructor
  · intro found
    simp only [stripSuffix, Option.map_eq_some_iff] at found
    obtain ⟨reversed, found, rfl⟩ := found
    have := congrArg List.reverse (stripPrefix_eq_some_iff.1 found)
    simpa using this
  · rintro rfl
    simp [stripSuffix, stripPrefix_eq_some_iff.2]

theorem splitOnce_eq_some {mark : Char} {s before after : Text}
    (found : splitOnce mark s = some (before, after)) : s = before ++ mark :: after := by
  induction s generalizing before with
  | nil => simp [splitOnce] at found
  | cons c rest induction =>
      by_cases same : c = mark
      · simp [splitOnce, same] at found
        simp [found, same]
      · simp only [splitOnce, same, if_false, Option.map_eq_some_iff] at found
        obtain ⟨⟨early, late⟩, found, equal⟩ := found
        simp only [Prod.mk.injEq] at equal
        obtain ⟨rfl, rfl⟩ := equal
        simp [induction found]

end Docblock.Text
