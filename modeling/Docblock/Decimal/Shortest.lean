import Docblock.Decimal.Basic

/-!
# Shortest decimals

Of the decimals that denote a given magnitude, `shortest` takes one with the fewest digits, and of
these the nearest to it. On each decimal grid only the two neighbours of the magnitude come into
question.
-/

set_option autoImplicit false

namespace Docblock.Decimal

/-- Which of two equally near decimals is taken: the greater one or the one with an even last
digit. -/
inductive Tie where
  | up
  | even
  deriving DecidableEq, Repr

open Binary64 (units one magnitudes)

def denotes (magnitude : Fin magnitudes) (x : Decimal) : Bool :=
  x.toBinary64 false == .finite false magnitude

def leadingOf (magnitude : Nat) : Int :=
  (digitsOf (units magnitude * Nat.pow 10 330 / one)).length - 331

/-- Of the two neighbours of the magnitude on the grid `10 ^ exponent`, the one that denotes it;
the nearer one if both do. -/
def onGrid (tie : Tie) (magnitude : Fin magnitudes) (exponent : Int) : Option Decimal :=
  let num := units magnitude.val * Nat.pow 10 (-exponent).toNat
  let den := one * Nat.pow 10 exponent.toNat
  let below : Decimal := ⟨num / den, exponent⟩
  let above : Decimal := ⟨num / den + 1, exponent⟩
  match denotes magnitude below, denotes magnitude above with
  | false, false => none
  | true, false => some below
  | false, true => some above
  | true, true =>
      let twice := 2 * (num % den)
      if twice < den then some below
      else if den < twice then some above
      else match tie with
        | .up => some above
        | .even => if below.digits % 2 = 0 then some below else some above

def exact (magnitude : Nat) : Decimal :=
  ⟨units magnitude * Nat.pow 5 1074, -1074⟩

def dropZeros (x : Decimal) : Decimal :=
  if x.digits = 0 then ⟨0, 0⟩
  else if x.digits % 10 = 0 then dropZeros ⟨x.digits / 10, x.exponent + 1⟩
  else x
termination_by x.digits

/-- The shortest decimal that denotes a magnitude above zero. Seventeen digits are enough. -/
def shortest (tie : Tie) (magnitude : Fin magnitudes) : Decimal :=
  let leading := leadingOf magnitude.val
  let found := (List.range 17).findSome? fun (more : Nat) =>
    onGrid tie magnitude (leading - (more : Int))
  dropZeros (found.getD (exact magnitude.val))

end Docblock.Decimal
