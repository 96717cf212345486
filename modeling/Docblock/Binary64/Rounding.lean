import Docblock.Binary64.Basic

/-!
# Rounding to binary64

A quotient of natural numbers is rounded to the nearest magnitude, a tie to the one with an even
number. What is nearer to the magnitude after the last finite one than to the last is infinite.
-/

set_option autoImplicit false

namespace Docblock.Binary64

/-- The number of the greatest magnitude that is at most `u` units, counting on above the last
finite one. -/
def floorMagnitude (u : Nat) : Nat :=
  if u < 2 * binade then u
  else
    let shift := u.log2 - 52
    u / Nat.pow 2 shift + shift * binade

/-- The number of the magnitude nearest to `num / den` units, of two equally near ones the even. -/
def nearestMagnitude (num den : Nat) : Nat :=
  let k := floorMagnitude (num / den)
  let middle := (units k + units (k + 1)) * den
  if 2 * num < middle then k
  else if middle < 2 * num then k + 1
  else if k % 2 = 0 then k else k + 1

def ofMagnitude (negative : Bool) (k : Nat) : Binary64 :=
  if finite : k < magnitudes then .finite negative ⟨k, finite⟩ else .infinite negative

def ofRatio (negative : Bool) (num den : Nat) : Binary64 :=
  ofMagnitude negative (nearestMagnitude (num * one) den)

def timesNat (n : Nat) : Binary64 → Binary64
  | .nan => .nan
  | .infinite negative => if n = 0 then .nan else .infinite negative
  | .finite negative magnitude =>
      ofMagnitude negative (nearestMagnitude (units magnitude.val * n) 1)

/-- The number nearest to the sum of a number that is not negative and the natural number `n`. -/
def plusNat (n : Nat) : Binary64 → Binary64
  | .nan => .nan
  | .infinite negative => .infinite negative
  | .finite negative magnitude =>
      ofMagnitude negative (nearestMagnitude (units magnitude.val + n * one) 1)

end Docblock.Binary64
