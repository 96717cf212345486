/-!
# Binary64 numbers

A number of the format is not a number (`nan`), an infinity, or finite. The finite magnitudes are
numbered in ascending order: magnitude 0 is zero, magnitude `k` is the `k`-th one above it. Each of
them is a whole number of units of 2⁻¹⁰⁷⁴, the smallest magnitude above zero, so all that is
computed here is exact arithmetic on natural numbers.
-/

set_option autoImplicit false

namespace Docblock

namespace Binary64

def binade : Nat := Nat.pow 2 52

def magnitudes : Nat := 2047 * binade

/-- The size of magnitude `k` in units of 2⁻¹⁰⁷⁴. -/
def units (k : Nat) : Nat :=
  if k < binade then k else (k % binade + binade) * Nat.pow 2 (k / binade - 1)

def one : Nat := Nat.pow 2 1074

end Binary64

/-- A number of the format binary64. Payloads of `nan` are not told apart. -/
inductive Binary64 where
  | nan
  | infinite (negative : Bool)
  | finite (negative : Bool) (magnitude : Fin Binary64.magnitudes)
  deriving DecidableEq

namespace Binary64

def isFinite : Binary64 → Bool
  | .finite _ _ => true
  | _ => false

def neg : Binary64 → Binary64
  | .nan => .nan
  | .infinite negative => .infinite (!negative)
  | .finite negative magnitude => .finite (!negative) magnitude

/-- Numeric equality: the two zeros are equal, and `nan` differs from every number. -/
def same : Binary64 → Binary64 → Bool
  | .infinite a, .infinite b => a == b
  | .finite a k, .finite b l => k == l && (a == b || k.val == 0)
  | _, _ => false

def signBit : Nat := Nat.pow 2 63

def ofBits (bits : Nat) : Binary64 :=
  let negative := decide (signBit ≤ bits)
  let rest := bits % signBit
  if finite : rest < magnitudes then .finite negative ⟨rest, finite⟩
  else if rest = magnitudes then .infinite negative
  else .nan

def toBits : Binary64 → Nat
  | .nan => 0x7FF8000000000000
  | .infinite negative => (if negative then signBit else 0) + magnitudes
  | .finite negative magnitude => (if negative then signBit else 0) + magnitude.val

end Binary64

end Docblock
