import Mathlib.Data.List.Induction
import Docblock.Location
import Docblock.Proofs.Text.Bytes

/-!
# Rows of a text

The position behind a text: the number of its line feeds, and the bytes of its last row. Together with what follows it
a position gives back the number of bytes in front of it.
-/

set_option autoImplicit false

namespace Docblock

namespace Text

variable {s t : Text}

def lastRow (s : Text) : Text :=
  (s.reverse.takeWhile (· != '\n')).reverse

theorem lastRow_concat (s : Text) (c : Char) :
    lastRow (s ++ [c]) = if c = '\n' then [] else lastRow s ++ [c] := by
  by_cases feed : c = '\n'
  · simp [lastRow, feed]
  · simp [lastRow, feed]

/-- The number of bytes in front of a row. -/
def rowStart : Nat → Text → Nat
  | 0, _ => 0
  | _ + 1, [] => 0
  | row + 1, c :: rest => c.utf8Size + if c = '\n' then rowStart row rest else rowStart (row + 1) rest

theorem rowStart_feed (s t : Text) : rowStart (s.count '\n' + 1) (s ++ '\n' :: t) = byteSize (s ++ ['\n']) := by
  induction s with
  | nil => simp [rowStart, byteSize]
  | cons c s induction =>
      by_cases feed : c = '\n'
      · rw [feed, List.count_cons_self, List.cons_append, rowStart, if_pos rfl, induction]
        rfl
      · rw [List.count_cons_of_ne feed, List.cons_append, rowStart, if_neg feed, induction]
        rfl

theorem rowStart_append (s t : Text) : rowStart (s.count '\n') (s ++ t) + byteSize (lastRow s) = byteSize s := by
  induction s using List.reverseRecOn generalizing t with
  | nil => simp [rowStart, lastRow, byteSize]
  | append_singleton s c induction =>
      rw [lastRow_concat, List.append_assoc, List.singleton_append]
      by_cases feed : c = '\n'
      · rw [if_pos feed, feed, List.count_append, List.count_singleton_self, rowStart_feed]
        rfl
      · have same : (s ++ [c]).count '\n' = s.count '\n' := by simp [feed]
        rw [if_neg feed, same, byteSize_append, byteSize_append, ← Nat.add_assoc, induction]

end Text

namespace Position

def behind (s : Text) : Position :=
  ⟨s.count '\n', Text.byteSize (Text.lastRow s)⟩

/-- The number of bytes in front of a position in a source. -/
def byteIn (source : Text) (position : Position) : Nat :=
  Text.rowStart position.line source + position.column

theorem byteIn_behind (before after : Text) : (behind before).byteIn (before ++ after) = Text.byteSize before :=
  Text.rowStart_append before after

end Position

end Docblock
