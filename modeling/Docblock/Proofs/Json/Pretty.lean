import Mathlib.Data.List.Basic
import Docblock.Json.Basic
import Docblock.Proofs.Decimal.Written

/-!
# What is written as JSON is written once

In a lawful format two values with finite numbers that have the same text over several lines are the same value. A
string ends at its closing quote and a number at a comma or a line feed, so the text of a value tells where it ends;
the first character tells the kind of the value.
-/

set_option autoImplicit false

namespace Docblock

namespace Json

def IsNumeral (s : Text) : Prop :=
  s ≠ [] ∧ ∀ c ∈ s, c.isDigit = true ∨ c ∈ ['.', 'e', '-', '+']

/-- Strings are escaped reversibly, up to the closing quote, and a finite number is written as a decimal that reads back
to it. -/
structure Format.Lawful (format : Format) : Prop where
  escape : ∃ readChar : Text → Option (Char × Text),
    (∀ c rest, readChar (format.escape c ++ rest) = some (c, rest)) ∧ ∀ rest, readChar ('"' :: rest) = none
  number : ∃ readNumber : Text → Option Binary64, ∀ value : Binary64, value.isFinite = true →
    IsNumeral (format.number value) ∧ readNumber (format.number value) = some value

/-! ## The standard format -/

def hexadecimal (c : Char) : Nat :=
  (Decimal.digitValue? 16 c).getD 0

def readChar : Text → Option (Char × Text)
  | '\\' :: 'b' :: rest => some ('\x08', rest)
  | '\\' :: 'f' :: rest => some ('\x0c', rest)
  | '\\' :: 'n' :: rest => some ('\n', rest)
  | '\\' :: 'r' :: rest => some ('\r', rest)
  | '\\' :: 't' :: rest => some ('\t', rest)
  | '\\' :: 'u' :: '0' :: '0' :: high :: low :: rest =>
      some (Char.ofNat (16 * hexadecimal high + hexadecimal low), rest)
  | '\\' :: c :: rest => some (c, rest)
  | '"' :: _ => none
  | c :: rest => some (c, rest)
  | [] => none

theorem hexadecimal_digitChar : ∀ digit < 16, hexadecimal (Nat.digitChar digit) = digit := by
  decide

theorem readChar_escape (c : Char) (rest : Text) : readChar (escape c ++ rest) = some (c, rest) := by
  unfold escape
  split
  · next quote => subst quote; rfl
  split
  · next backslash => subst backslash; rfl
  split
  · next backspace => subst backspace; rfl
  split
  · next formFeed => subst formFeed; rfl
  split
  · next lineFeed => subst lineFeed; rfl
  split
  · next carriageReturn => subst carriageReturn; rfl
  split
  · next tab => subst tab; rfl
  split
  · next control =>
      have high := hexadecimal_digitChar (c.toNat / 16) (by omega)
      have low := hexadecimal_digitChar (c.toNat % 16) (by omega)
      have code : 16 * (c.toNat / 16) + c.toNat % 16 = c.toNat := by omega
      simp only [shortHex, List.cons_append, List.nil_append, readChar, high, low, code, Char.ofNat_toNat]
  · next notQuote notBackslash _ _ _ _ _ _ =>
      rw [List.singleton_append]
      unfold readChar
      split <;> simp_all

theorem write_number {value : Binary64} (finite : value.isFinite = true) :
    IsNumeral (Decimal.write numberNotation value) ∧
      Decimal.read (Decimal.write numberNotation value) = some value := by
  cases value with
  | nan => cases finite
  | infinite => cases finite
  | finite negative magnitude =>
      obtain ⟨raw, x, shape, written, denotes⟩ := Decimal.write_written numberNotation negative magnitude
      have sign : (negative && (magnitude.val != 0 || numberNotation.signedZero)) = negative := by
        simp [numberNotation]
      rw [sign] at shape
      rw [shape]
      have read := written.read_signed negative
      refine ⟨⟨fun nothing => ?_, List.forall_mem_append.2 ⟨?_, written.chars⟩⟩, by rw [written.read_signed, denotes]⟩
      · rw [nothing] at read
        cases read
      · cases negative <;> simp

theorem Format.standard_lawful : Format.standard.Lawful where
  escape := ⟨readChar, readChar_escape, fun _ => rfl⟩
  number := ⟨Decimal.read, fun _ finite => write_number finite⟩

/-! ## Strings -/

section Strings

variable {format : Format} {s t k l : Text}

theorem escaped_inj (lawful : format.Lawful)
    (same : s.flatMap format.escape ++ '"' :: k = t.flatMap format.escape ++ '"' :: l) : s = t ∧ k = l := by
  obtain ⟨readChar, escaped, closed⟩ := lawful.escape
  induction s generalizing t with
  | nil =>
      cases t with
      | nil => exact ⟨rfl, (List.cons.inj same).2⟩
      | cons d t =>
          have read := congrArg readChar same
          rw [List.flatMap_cons, List.append_assoc, escaped, List.flatMap_nil, List.nil_append, closed] at read
          cases read
  | cons c s induction =>
      cases t with
      | nil =>
          have read := congrArg readChar same
          rw [List.flatMap_cons, List.append_assoc, escaped, List.flatMap_nil, List.nil_append, closed] at read
          cases read
      | cons d t =>
          have read := congrArg readChar same
          rw [List.flatMap_cons, List.flatMap_cons, List.append_assoc, List.append_assoc, escaped, escaped,
            Option.some.injEq, Prod.mk.injEq] at read
          obtain ⟨rfl, rest⟩ := read
          obtain ⟨rfl, after⟩ := induction rest
          exact ⟨rfl, after⟩

theorem Format.quoted_append (format : Format) (s k : Text) :
    format.quoted s ++ k = '"' :: (s.flatMap format.escape ++ '"' :: k) := by
  simp [quoted]

theorem quoted_inj (lawful : format.Lawful) (same : format.quoted s ++ k = format.quoted t ++ l) : s = t ∧ k = l := by
  rw [format.quoted_append, format.quoted_append] at same
  exact escaped_inj lawful (List.cons.inj same).2

end Strings

/-! ## Lines -/

/-- Nothing or the end of what stands on a line. -/
def Stops (k : Text) : Prop :=
  ∀ c ∈ k.head?, c = ',' ∨ c = '\n'

/-- What is written for one of two things is told from what is written for the other one, and it is known where
it ends. -/
def Told {α : Type} (text : α → Text) (item other : α) : Prop :=
  ∀ k l, Stops k → Stops l → text item ++ k = text other ++ l → item = other ∧ k = l

def OnLine (s : Text) : Prop :=
  ∀ c ∈ s, c ≠ ',' ∧ c ≠ '\n'

theorem told_of_onLine {s t : Text} (onLine : OnLine s) (onLine' : OnLine t) : Told id s t := by
  intro k l stops stops' same
  simp only [id] at same
  induction s generalizing t with
  | nil =>
      cases t with
      | nil => exact ⟨rfl, same⟩
      | cons d t =>
          obtain rfl : k = d :: (t ++ l) := same
          have other := onLine' d List.mem_cons_self
          rcases stops d rfl with rfl | rfl <;> simp at other
  | cons c s induction =>
      cases t with
      | nil =>
          obtain rfl : l = c :: (s ++ k) := same.symm
          have other := onLine c List.mem_cons_self
          rcases stops' c rfl with rfl | rfl <;> simp at other
      | cons d t =>
          obtain ⟨rfl, rest⟩ := List.cons.inj same
          obtain ⟨-, later⟩ := List.forall_mem_cons.1 onLine
          obtain ⟨-, later'⟩ := List.forall_mem_cons.1 onLine'
          obtain ⟨rfl, after⟩ := induction later later' rest
          exact ⟨rfl, after⟩

theorem onLine_of_isNumeral {s : Text} (numeral : IsNumeral s) : OnLine s := by
  intro c inside
  constructor <;> rintro rfl <;> exact absurd (numeral.2 _ inside) (by decide)

/-! ## Values -/

inductive Shape where
  | null
  | bool (value : Bool)
  | number
  | string
  | array
  | object

def shape : Json → Shape
  | .null => .null
  | .bool value => .bool value
  | .nat _ => .number
  | .number _ => .number
  | .string _ => .string
  | .array _ => .array
  | .object _ => .object

def shapeAt : Text → Shape
  | 'n' :: _ => .null
  | 't' :: _ => .bool true
  | 'f' :: _ => .bool false
  | '"' :: _ => .string
  | '[' :: _ => .array
  | '{' :: _ => .object
  | _ => .number

theorem shapeAt_of_isNumeral {s : Text} (numeral : IsNumeral s) (k : Text) : shapeAt (s ++ k) = .number := by
  obtain ⟨c, rest, rfl⟩ := List.exists_cons_of_ne_nil numeral.1
  have first := numeral.2 c List.mem_cons_self
  rw [List.cons_append]
  unfold shapeAt
  split <;> first | rfl | (next same => cases (List.cons.inj same).1; exact absurd first (by decide))

end Json

def Member.value : Member → Json
  | .mk _ value => value

def Member.key : Member → Text
  | .mk key _ => key

namespace Json

/-- All numbers in a value are finite, and none is a count. -/
inductive Finite : Json → Prop where
  | null : Finite .null
  | bool (value : Bool) : Finite (.bool value)
  | number {value : Binary64} (finite : value.isFinite = true) : Finite (.number value)
  | string (value : Text) : Finite (.string value)
  | array {elements : List Json} (each : ∀ element ∈ elements, Finite element) : Finite (.array elements)
  | object {members : List Member} (each : ∀ member ∈ members, Finite member.value) : Finite (.object members)

theorem shapeAt_pretty {format : Format} {value : Json} (lawful : format.Lawful) (finite : value.Finite) (depth : Nat)
    (k : Text) : shapeAt (format.pretty depth value ++ k) = value.shape := by
  obtain ⟨readNumber, numbers⟩ := lawful.number
  cases finite with
  | null => rfl
  | bool value => cases value <;> rfl
  | number finite =>
      rw [Format.pretty]
      exact shapeAt_of_isNumeral (numbers _ finite).1 k
  | string value => rfl
  | array each =>
      rw [Format.pretty]
      rfl
  | object each =>
      rw [Format.pretty]
      rfl

/-! ## Lists on lines -/

theorem prettyAll_eq_map (format : Format) (depth : Nat) (elements : List Json) :
    format.prettyAll depth elements = elements.map (format.pretty depth) := by
  induction elements with
  | nil => rfl
  | cons element elements induction => rw [Format.prettyAll, induction, List.map_cons]

def Format.line (format : Format) (depth : Nat) (member : Member) : Text :=
  format.quoted member.key ++ ':' :: ' ' :: format.pretty depth member.value

theorem prettyMembers_eq_map (format : Format) (depth : Nat) (members : List Member) :
    format.prettyMembers depth members = members.map (format.line depth) := by
  induction members with
  | nil => rfl
  | cons member members induction =>
      obtain ⟨key, value⟩ := member
      rw [Format.prettyMembers, induction, List.map_cons]
      rfl

theorem join_cons (separator first : Text) (rest : List Text) :
    Text.join separator (first :: rest) = first ++ rest.flatMap (separator ++ ·) := by
  induction rest generalizing first with
  | nil => simp [Text.join]
  | cons next rest induction =>
      rw [Text.join, List.intercalate_cons_cons, ← Text.join, induction, List.flatMap_cons, List.append_assoc,
        List.append_assoc]

section Lines

variable {α : Type} {text : α → Text}

def behind (depth : Nat) (text : α → Text) (close : Char) (k : Text) : List α → Text
  | [] => '\n' :: (List.replicate (2 * depth) ' ' ++ close :: k)
  | item :: items =>
      ',' :: '\n' :: (List.replicate (2 * (depth + 1)) ' ' ++ (text item ++ behind depth text close k items))

theorem onLines_cons (depth : Nat) (close : Char) (k : Text) (item : α) (items : List α) :
    Format.onLines depth ((item :: items).map text) ++ close :: k =
      '\n' :: (List.replicate (2 * (depth + 1)) ' ' ++ (text item ++ behind depth text close k items)) := by
  have further : (items.map text).flatMap (',' :: '\n' :: List.replicate (2 * (depth + 1)) ' ' ++ ·) ++
      ('\n' :: List.replicate (2 * depth) ' ' ++ close :: k) = behind depth text close k items := by
    induction items with
    | nil => rfl
    | cons next items induction =>
        rw [List.map_cons, List.flatMap_cons, List.append_assoc, induction, behind]
        simp
  rw [← further, Format.onLines, List.map_cons, List.isEmpty_cons, if_neg Bool.false_ne_true, join_cons]
  simp

theorem stops_behind (depth : Nat) (close : Char) (k : Text) (items : List α) :
    Stops (behind depth text close k items) := by
  cases items with
  | nil => exact fun c first => .inr (Option.some.inj first).symm
  | cons => exact fun c first => .inl (Option.some.inj first).symm

variable {depth : Nat} {close : Char} {k l : Text} {items others : List α}

theorem behind_inj
    (each : ∀ item ∈ items, ∀ other ∈ others, Told text item other)
    (same : behind depth text close k items = behind depth text close l others) :
    items = others ∧ k = l := by
  induction items generalizing others with
  | nil =>
      cases others with
      | nil => exact ⟨rfl, by simpa [behind] using same⟩
      | cons => simp [behind] at same
  | cons item items induction =>
      cases others with
      | nil => simp [behind] at same
      | cons other others =>
          have line : text item ++ behind depth text close k items =
              text other ++ behind depth text close l others := by
            simpa [behind] using same
          obtain ⟨rfl, rest⟩ := each item List.mem_cons_self other List.mem_cons_self _ _
            (stops_behind depth close k items) (stops_behind depth close l others) line
          obtain ⟨rfl, after⟩ := induction (fun item inside other inside' =>
            each item (List.mem_cons_of_mem _ inside) other (List.mem_cons_of_mem _ inside')) rest
          exact ⟨rfl, after⟩

/-- Items on lines are told from the text if each one is told from a text that goes on with a comma or a line
feed. -/
theorem onLines_inj (notFeed : close ≠ '\n')
    (each : ∀ item ∈ items, ∀ other ∈ others, Told text item other)
    (same : Format.onLines depth (items.map text) ++ close :: k =
      Format.onLines depth (others.map text) ++ close :: l) :
    items = others ∧ k = l := by
  cases items with
  | nil =>
      cases others with
      | nil => exact ⟨rfl, by simpa [Format.onLines] using same⟩
      | cons other others =>
          rw [onLines_cons] at same
          exact absurd (List.cons.inj same).1 notFeed
  | cons item items =>
      cases others with
      | nil =>
          rw [onLines_cons] at same
          exact absurd (List.cons.inj same).1.symm notFeed
      | cons other others =>
          rw [onLines_cons, onLines_cons] at same
          have first : text item ++ behind depth text close k items =
              text other ++ behind depth text close l others := by
            simpa using same
          obtain ⟨rfl, rest⟩ := each item List.mem_cons_self other List.mem_cons_self _ _
            (stops_behind depth close k items) (stops_behind depth close l others) first
          obtain ⟨rfl, after⟩ := behind_inj (fun item inside other inside' =>
            each item (List.mem_cons_of_mem _ inside) other (List.mem_cons_of_mem _ inside')) rest
          exact ⟨rfl, after⟩

end Lines

/-! ## Whole values -/

variable {format : Format} {value other : Json} {k l : Text}

theorem shape_eq (lawful : format.Lawful) (finite : value.Finite) (finite' : other.Finite) {depth : Nat}
    (same : format.pretty depth value ++ k = format.pretty depth other ++ l) : value.shape = other.shape := by
  rw [← shapeAt_pretty lawful finite depth k, same, shapeAt_pretty lawful finite']

theorem told_line (lawful : format.Lawful) {member other : Member} {depth : Nat}
    (told : Told (format.pretty depth) member.value other.value) : Told (format.line depth) member other := by
  intro k l stops stops' same
  obtain ⟨key, value⟩ := member
  obtain ⟨key', value'⟩ := other
  simp only [Format.line, List.append_assoc, List.cons_append] at same
  obtain ⟨rfl, behind⟩ := quoted_inj lawful same
  obtain ⟨rfl, after⟩ := told k l stops stops' (List.cons.inj (List.cons.inj behind).2).2
  exact ⟨rfl, after⟩

theorem told_number (lawful : format.Lawful) {value other : Binary64} (finite : value.isFinite = true)
    (finite' : other.isFinite = true) : Told format.number value other := by
  intro k l stops stops' same
  obtain ⟨readNumber, numbers⟩ := lawful.number
  obtain ⟨numeral, read⟩ := numbers value finite
  obtain ⟨numeral', read'⟩ := numbers other finite'
  obtain ⟨text, after⟩ :=
    told_of_onLine (onLine_of_isNumeral numeral) (onLine_of_isNumeral numeral') k l stops stops' same
  rw [text, read'] at read
  exact ⟨(Option.some.inj read).symm, after⟩

/-- Where numbers are finite, the text of a value tells the value and where it ends. -/
theorem told_pretty (lawful : format.Lawful) (finite : value.Finite) (finite' : other.Finite) (depth : Nat) :
    Told (format.pretty depth) value other := by
  induction finite generalizing depth other with
  | null =>
      intro k l stops stops' same
      have shapes := shape_eq lawful .null finite' same
      cases finite' with
      | null => exact ⟨rfl, List.append_cancel_left same⟩
      | _ => cases shapes
  | bool value =>
      intro k l stops stops' same
      have shapes := shape_eq lawful (.bool value) finite' same
      cases finite' with
      | bool value' =>
          obtain rfl : value = value' := Shape.bool.inj shapes
          exact ⟨rfl, List.append_cancel_left same⟩
      | _ => cases shapes
  | number finite =>
      intro k l stops stops' same
      have shapes := shape_eq lawful (.number finite) finite' same
      cases finite' with
      | number finite' =>
          obtain ⟨rfl, after⟩ := told_number lawful finite finite' k l stops stops' same
          exact ⟨rfl, after⟩
      | _ => cases shapes
  | string value =>
      intro k l stops stops' same
      have shapes := shape_eq lawful (.string value) finite' same
      cases finite' with
      | string value' =>
          obtain ⟨rfl, after⟩ := quoted_inj lawful same
          exact ⟨rfl, after⟩
      | _ => cases shapes
  | @array elements each induction =>
      intro k l stops stops' same
      have shapes := shape_eq lawful (.array each) finite' same
      cases finite' with
      | @array elements' each' =>
          simp only [Format.pretty, prettyAll_eq_map, List.cons_append, List.append_assoc, List.cons.injEq,
            true_and] at same
          obtain ⟨rfl, after⟩ := onLines_inj (by decide) (fun element inside element' inside' =>
            induction element inside (each' element' inside') (depth + 1)) same
          exact ⟨rfl, after⟩
      | _ => cases shapes
  | @object members each induction =>
      intro k l stops stops' same
      have shapes := shape_eq lawful (.object each) finite' same
      cases finite' with
      | @object members' each' =>
          simp only [Format.pretty, prettyMembers_eq_map, List.cons_append, List.append_assoc, List.cons.injEq,
            true_and] at same
          obtain ⟨rfl, after⟩ := onLines_inj (by decide) (fun member inside member' inside' =>
            told_line lawful (induction member inside (each' member' inside') (depth + 1))) same
          exact ⟨rfl, after⟩
      | _ => cases shapes

theorem pretty_inj (lawful : format.Lawful) (finite : value.Finite) (finite' : other.Finite) (depth : Nat)
    (same : format.pretty depth value = format.pretty depth other) : value = other := by
  have nothing : Stops [] := fun c first => by cases first
  exact (told_pretty lawful finite finite' depth [] [] nothing nothing (congrArg (· ++ []) same)).1

end Json

end Docblock
