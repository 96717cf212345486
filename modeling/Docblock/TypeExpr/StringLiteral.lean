import Docblock.Text.Basic
import Docblock.Decimal.Read
import Docblock.TypeExpr.Error

/-!
# String literals

`body` reads what follows an opening quote, `quote` writes a literal. Besides its value a read
returns what remains of the text; after a fault, that is what lies behind the characters looked at.
-/

set_option autoImplicit false

namespace Docblock.TypeExpr.StringLiteral

def charOf? (code : Nat) : Option Char :=
  if scalar : code.isValidChar then some (Char.ofNatAux code scalar) else none

/-- The character with the given code; half of a surrogate pair has no character of its own. -/
def charOrReplacement (code : Nat) : Char :=
  (charOf? code).getD '\uFFFD'

def hexDigits : Nat → Nat → Text → Option Nat × Text
  | 0, code, s => (some code, s)
  | _ + 1, _, [] => (none, [])
  | count + 1, code, c :: rest =>
      match Decimal.digitValue? 16 c with
      | some digit => hexDigits count (code * 16 + digit) rest
      | none => (none, c :: rest)

def bracedDigits : Nat → Nat → Text → Option Nat × Text
  | _, _, [] => (none, [])
  | count, code, c :: rest =>
      if c = '}' ∧ 0 < count then (some code, rest)
      else match Decimal.digitValue? 16 c with
        | some digit => if count < 6 then bracedDigits (count + 1) (code * 16 + digit) rest else (none, rest)
        | none => (none, rest)

def octalDigits : Nat → Nat → Text → Nat × Text
  | 0, code, s => (code, s)
  | _ + 1, code, [] => (code, [])
  | count + 1, code, c :: rest =>
      match Decimal.digitValue? 8 c with
      | some digit => octalDigits count (code * 8 + digit) rest
      | none => (code, c :: rest)

def isHighSurrogate (code : Nat) : Bool :=
  0xD800 ≤ code && code < 0xDC00

def isLowSurrogate (code : Nat) : Bool :=
  0xDC00 ≤ code && code < 0xE000

def lowSurrogate : Text → Option (Nat × Text)
  | '\\' :: 'u' :: rest =>
      match hexDigits 4 0 rest with
      | (some low, after) => if isLowSurrogate low then some (low, after) else none
      | (none, _) => none
  | _ => none

def unicodeEscape (escape : Text) : Text → Except Fault Char × Text
  | '{' :: digits =>
      let (code?, after) := bracedDigits 0 0 digits
      match code?.bind charOf? with
      | some c => (.ok c, after)
      | none => (.error ⟨.invalidUnicodeEscape, escape⟩, after)
  | s =>
      match hexDigits 4 0 s with
      | (none, after) => (.error ⟨.invalidEscape, escape⟩, after)
      | (some code, after) =>
          match if isHighSurrogate code then lowSurrogate after else none with
          | some (low, after) =>
              (.ok (charOrReplacement (0x10000 + (code - 0xD800) * 0x400 + (low - 0xDC00))), after)
          | none => (.ok (charOrReplacement code), after)

def beginsWithDigit : Text → Bool
  | c :: _ => c.isDigit
  | [] => false

/-- Reads what follows a backslash; `start` is where the literal begins and `escape` where the
backslash stands. A line break after the backslash stands for no character. -/
def escaped (start escape : Text) : Text → Except Fault (Option Char) × Text
  | [] => (.error ⟨.unterminatedString, start⟩, [])
  | 'n' :: rest => (.ok '\n', rest)
  | 'r' :: rest => (.ok '\r', rest)
  | 't' :: rest => (.ok '\t', rest)
  | 'b' :: rest => (.ok '\x08', rest)
  | 'f' :: rest => (.ok '\x0c', rest)
  | 'v' :: rest => (.ok '\x0b', rest)
  | 'x' :: rest =>
      match hexDigits 2 0 rest with
      | (some code, after) => (.ok (charOrReplacement code), after)
      | (none, after) => (.error ⟨.invalidEscape, escape⟩, after)
  | 'u' :: rest =>
      let (result, after) := unicodeEscape escape rest
      (result.map some, after)
  | '\r' :: '\n' :: rest => (.ok none, rest)
  | c :: rest =>
      if c = '\r' ∨ c = '\n' ∨ c = '\u2028' ∨ c = '\u2029' then (.ok none, rest)
      else if c = '0' ∧ beginsWithDigit rest = false then (.ok '\x00', rest)
      else match Decimal.digitValue? 8 c with
        | some digit =>
            let (code, after) := octalDigits (if digit ≤ 3 then 2 else 1) digit rest
            (.ok (charOrReplacement code), after)
        | none => (.ok c, rest)

theorem hexDigits_suffix (count code : Nat) (s : Text) : (hexDigits count code s).2 <:+ s := by
  induction count generalizing code s with
  | zero => simp [hexDigits]
  | succ count induction =>
      cases s with
      | nil => simp [hexDigits]
      | cons c rest =>
          simp only [hexDigits]
          split
          · exact (induction _ _).trans (List.suffix_cons c rest)
          · exact List.suffix_refl _

theorem bracedDigits_suffix (count code : Nat) (s : Text) : (bracedDigits count code s).2 <:+ s := by
  induction s generalizing count code with
  | nil => simp [bracedDigits]
  | cons c rest induction =>
      simp only [bracedDigits]
      split
      · exact List.suffix_cons c rest
      · split
        · split
          · exact (induction _ _).trans (List.suffix_cons c rest)
          · exact List.suffix_cons c rest
        · exact List.suffix_cons c rest

theorem octalDigits_suffix (count code : Nat) (s : Text) : (octalDigits count code s).2 <:+ s := by
  induction count generalizing code s with
  | zero => simp [octalDigits]
  | succ count induction =>
      cases s with
      | nil => simp [octalDigits]
      | cons c rest =>
          simp only [octalDigits]
          split
          · exact (induction _ _).trans (List.suffix_cons c rest)
          · exact List.suffix_refl _

theorem lowSurrogate_suffix {s after : Text} {low : Nat} (found : lowSurrogate s = some (low, after)) :
    after <:+ s := by
  unfold lowSurrogate at found
  split at found
  · rename_i rest
    have behind := hexDigits_suffix 4 0 rest
    split at found
    · rename_i first remaining equal
      rw [equal] at behind
      split at found
      · simp only [Option.some.injEq, Prod.mk.injEq] at found
        obtain ⟨rfl, rfl⟩ := found
        exact behind.trans ((List.suffix_cons _ _).trans (List.suffix_cons _ _))
      · simp at found
    · simp at found
  · simp at found

theorem unicodeEscape_suffix (escape s : Text) : (unicodeEscape escape s).2 <:+ s := by
  unfold unicodeEscape
  split
  · rename_i digits
    have behind := bracedDigits_suffix 0 0 digits
    have same : ∀ code? : Option Char, (match code? with
        | some c => (Except.ok c, (bracedDigits 0 0 digits).2)
        | none => (Except.error (⟨.invalidUnicodeEscape, escape⟩ : Fault),
            (bracedDigits 0 0 digits).2)).2 = (bracedDigits 0 0 digits).2 := by
      intro code?
      cases code? <;> rfl
    simp only [same]
    exact behind.trans (List.suffix_cons _ _)
  · have behind := hexDigits_suffix 4 0 s
    split
    · rename_i equal
      rwa [equal] at behind
    · rename_i code after equal
      rw [equal] at behind
      split
      · rename_i low remaining found
        split at found
        · exact (lowSurrogate_suffix found).trans behind
        · simp at found
      · exact behind

theorem escaped_suffix (start escape s : Text) : (escaped start escape s).2 <:+ s := by
  unfold escaped
  split
  case h_9 rest => exact (unicodeEscape_suffix escape rest).trans (List.suffix_cons _ _)
  case h_8 rest =>
    have behind := hexDigits_suffix 2 0 rest
    split <;> rename_i equal <;> rw [equal] at behind <;> exact behind.trans (List.suffix_cons _ _)
  case h_10 rest => exact (List.suffix_cons _ _).trans (List.suffix_cons _ _)
  case h_11 c rest _ _ _ _ _ _ _ _ _ =>
    split
    · exact List.suffix_cons _ _
    · split
      · exact List.suffix_cons _ _
      · split
        · rename_i digit _
          exact (octalDigits_suffix (if digit ≤ 3 then 2 else 1) digit rest).trans (List.suffix_cons _ _)
        · exact List.suffix_cons _ _
  case h_1 => exact List.suffix_refl _
  all_goals exact List.suffix_cons _ _

theorem escaped_length (start escape s : Text) : (escaped start escape s).2.length ≤ s.length :=
  (escaped_suffix start escape s).length_le

def body (mark : Char) (start : Text) (s : Text) : Except Fault Text × Text :=
  match s with
  | [] => (.error ⟨.unterminatedString, start⟩, [])
  | c :: rest =>
      if c = mark then (.ok [], rest)
      else if c = '\\' then
        let unit := escaped start (c :: rest) rest
        have _shorter : unit.2.length ≤ rest.length := escaped_length start (c :: rest) rest
        match unit.1 with
        | .error fault => (.error fault, unit.2)
        | .ok char? =>
            let (value, remaining) := body mark start unit.2
            (value.map (char?.toList ++ ·), remaining)
      else
        let (value, remaining) := body mark start rest
        (value.map (c :: ·), remaining)
termination_by s.length
decreasing_by
  · exact Nat.lt_succ_of_le _shorter
  · simp

def hexText (n : Nat) : Text :=
  Nat.toDigits 16 n

def quoteChar (c : Char) : Text :=
  if c = '"' then ['\\', '"']
  else if c = '\\' then ['\\', '\\']
  else if c = '\n' then ['\\', 'n']
  else if c = '\r' then ['\\', 'r']
  else if c = '\t' then ['\\', 't']
  else if Text.isControl c then ['\\', 'u', '{'] ++ hexText c.toNat ++ ['}']
  else [c]

def quote (value : Text) : Text :=
  '"' :: value.flatMap quoteChar ++ ['"']

end Docblock.TypeExpr.StringLiteral
