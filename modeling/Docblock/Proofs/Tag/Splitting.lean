import Docblock.Proofs.Tag.TypeBraces
import Docblock.Proofs.Text.Scan

/-!
# Taking the body of a tag apart

The body of a tag is cut into type, name and description without loss. It is malformed in four cases only: a brace
that nothing opens, a type or a name in brackets without an end, and a closing brace in a name.
-/

set_option autoImplicit false

namespace Docblock.Tag

open Text (Scanned scan scan_next stateBehind StopsBehind Brackets Quoting braceStep? braceBalance)

variable {named : Bool} {s t val type rest : Text} {parts : Parts} {fault : Fault}

/-! ## The two scanners -/

theorem scan_braceStep {openBraces : Nat} (any : 0 < openBraces) (s : Text) :
    scan braceStep? (· == 0) openBraces s = .ofHalves (spanBraces openBraces s) := by
  induction s generalizing openBraces with
  | nil => rfl
  | cons c s induction =>
      by_cases opening : c = '{'
      · subst opening
        have stepped : braceStep? openBraces '{' = some (openBraces + 1) := rfl
        rw [spanBraces_opening, scan_next stepped rfl, induction (Nat.succ_pos openBraces)]
        exact (Scanned.ofHalves_map ['{'] _).symm
      · by_cases closing : c = '}'
        · subst closing
          obtain ⟨less, rfl⟩ : ∃ less, openBraces = less + 1 := ⟨openBraces - 1, by omega⟩
          have stepped : braceStep? (less + 1) '}' = some less := rfl
          cases less with
          | zero =>
              rw [spanBraces_last, scan, stepped]
              rfl
          | succ less =>
              rw [spanBraces_closing, scan_next stepped rfl, induction (Nat.succ_pos less)]
              exact (Scanned.ofHalves_map ['}'] _).symm
        · have stepped : braceStep? openBraces c = some openBraces := by
            rw [braceStep?, if_neg opening, if_neg closing]
          have goes : (openBraces == 0) = false := by
            rw [beq_eq_false_iff_ne]
            omega
          rw [spanBraces_other _ _ opening closing, scan_next stepped goes, induction any]
          exact (Scanned.ofHalves_map [c] _).symm

/-- The counter of braces is never taken below zero. -/
theorem scan_braces (opening : s.head? = some '{') :
    scan braceStep? (· == 0) 0 s = .ofHalves (spanBraces 0 s) := by
  obtain ⟨rest, rfl⟩ := List.head?_eq_some_iff.1 opening
  have stepped : braceStep? 0 '{' = some 1 := rfl
  rw [spanBraces_opening, scan_next stepped rfl, scan_braceStep Nat.one_pos rest]
  exact (Scanned.ofHalves_map ['{'] _).symm

def quotingOf : Option Char → Quoting
  | none => .outside
  | some mark => .inside mark

theorem isOpen {state : Brackets} (any : 0 < state.depth) : (state == Brackets.closed) = false := by
  rw [beq_eq_false_iff_ne]
  rintro rfl
  exact absurd any (Nat.lt_irrefl 0)

theorem scan_bracketStep {openBrackets : Nat} (any : 0 < openBrackets) (quote : Option Char) (s : Text) :
    scan Brackets.step? (· == .closed) ⟨openBrackets, quotingOf quote⟩ s =
      .ofHalves (spanBrackets openBrackets quote s) := by
  fun_induction spanBrackets openBrackets quote s with
  | case1 => rfl
  | case2 openBrackets mark =>
      have stepped : Brackets.step? ⟨openBrackets, .inside mark⟩ '\\' = some ⟨openBrackets, .hidden mark⟩ := rfl
      rw [quotingOf, scan_next stepped (isOpen any)]
      rfl
  | case3 openBrackets mark hidden rest induction =>
      have stepped : Brackets.step? ⟨openBrackets, .inside mark⟩ '\\' = some ⟨openBrackets, .hidden mark⟩ := rfl
      have passed : Brackets.step? ⟨openBrackets, .hidden mark⟩ hidden = some ⟨openBrackets, .inside mark⟩ := rfl
      have later := induction any
      rw [quotingOf] at later ⊢
      rw [scan_next stepped (isOpen any), scan_next passed (isOpen any), later, Scanned.behind_behind]
      exact (Scanned.ofHalves_map ['\\', hidden] _).symm
  | case4 openBrackets c rest mark other induction =>
      have stepped : Brackets.step? ⟨openBrackets, .inside mark⟩ c =
          some ⟨openBrackets, quotingOf (if c = mark then none else some mark)⟩ := by
        simp only [Brackets.step?, other, if_false]
        split <;> rfl
      rw [quotingOf, scan_next stepped (isOpen any), induction any]
      exact (Scanned.ofHalves_map [c] _).symm
  | case5 openBrackets c rest closing =>
      obtain ⟨rfl, last⟩ := closing
      obtain rfl : openBrackets = 1 := by omega
      rfl
  | case6 openBrackets c rest notLast deeper quote induction =>
      have still : 0 < deeper := by
        simp only [deeper]
        split
        · omega
        · split
          · next closing => exact Nat.sub_pos_of_lt (Nat.lt_of_not_le fun last => notLast ⟨closing, last⟩)
          · exact any
      have stepped : Brackets.step? ⟨openBrackets, .outside⟩ c = some ⟨deeper, quotingOf quote⟩ := by
        simp only [Brackets.step?, deeper, quote]
        by_cases quotes : c = '\'' ∨ c = '"' ∨ c = '`'
        · have notOpening : c ≠ '[' := by rintro rfl; revert quotes; decide
          have notClosing : c ≠ ']' := by rintro rfl; revert quotes; decide
          simp only [quotes, notOpening, notClosing, if_true, if_false, quotingOf]
        · rw [if_neg quotes, if_neg quotes]
          by_cases opening : c = '['
          · rw [if_pos opening, if_pos opening, quotingOf]
          · rw [if_neg opening, if_neg opening]
            by_cases closing : c = ']'
            · rw [if_pos closing, if_pos closing, if_neg (Nat.ne_of_gt any), quotingOf]
            · rw [if_neg closing, if_neg closing, quotingOf]
      rw [quotingOf, scan_next stepped (isOpen still), induction still]
      exact (Scanned.ofHalves_map [c] _).symm

theorem scan_brackets (opening : s.head? = some '[') :
    scan Brackets.step? (· == .closed) .closed s = .ofHalves (spanBrackets 0 none s) := by
  obtain ⟨rest, rfl⟩ := List.head?_eq_some_iff.1 opening
  have stepped : Brackets.step? .closed '[' = some ⟨1, quotingOf none⟩ := rfl
  have spanned : spanBrackets 0 none ('[' :: rest) =
      (spanBrackets 1 none rest).map fun halves => ('[' :: halves.1, halves.2) := by simp [spanBrackets]
  rw [spanned, scan_next stepped (isOpen Nat.one_pos), scan_bracketStep Nat.one_pos none rest]
  exact (Scanned.ofHalves_map ['['] _).symm

/-! ## The type -/

/-- A type in braces: the last of them is the first one behind which no brace is open. -/
structure IsBraced (type : Text) : Prop where
  opening : type.head? = some '{'
  closing : type.getLast? = some '}'
  balanced : braceBalance type = 0
  within : ∀ front back, type = front ++ back → front ≠ [] → back ≠ [] → 0 < braceBalance front

/-- The type that a body begins with, which is empty where the body begins with no brace. -/
inductive BeginsWith : Text → Text → Text → Prop where
  | nothing {s : Text} (opening : s.head? ≠ some '{') (closing : s.head? ≠ some '}') : BeginsWith s [] s
  | braced {type : Text} (braced : IsBraced type) (rest : Text) : BeginsWith (type ++ rest) type rest

theorem stopsBehind_of_isBraced (braced : IsBraced type) : StopsBehind braceStep? (· == 0) 0 type := by
  have filled : type ≠ [] := fun empty => by cases empty ▸ braced.opening
  have counted : ∀ front, front <+: type → 0 ≤ ((0 : Nat) : Int) + braceBalance front := by
    rintro front ⟨back, rfl⟩
    by_cases none : front = []
    · subst none
      exact Int.le_refl 0
    · by_cases all : back = []
      · subst all
        have balanced := braced.balanced
        rw [List.append_nil] at balanced
        omega
      · have positive := braced.within front back rfl none all
        omega
  refine ⟨filled, ?_, fun front back whole any more => ?_⟩
  · obtain ⟨deeper, passed⟩ := Text.stateBehind_of_balance counted
    have balance := Text.balance_of_stateBehind passed
    rw [braced.balanced] at balance
    exact ⟨deeper, passed, beq_iff_eq.2 (by omega)⟩
  · have inside : front <+: type := ⟨back, whole.symm⟩
    obtain ⟨deeper, passed⟩ :=
      Text.stateBehind_of_balance fun first earlier => counted first (earlier.trans inside)
    have balance := Text.balance_of_stateBehind passed
    have positive := braced.within front back whole any more
    exact ⟨deeper, passed, beq_eq_false_iff_ne.2 (by omega)⟩

theorem isBraced_of_stopsBehind (opening : type.head? = some '{')
    (stopsBehind : StopsBehind braceStep? (· == 0) 0 type) : IsBraced type := by
  obtain ⟨filled, ⟨depth, passed, stopped⟩, within⟩ := stopsBehind
  have balance := Text.balance_of_stateBehind passed
  have closed : depth = 0 := beq_iff_eq.1 stopped
  have positive : ∀ front back, type = front ++ back → front ≠ [] → back ≠ [] → 0 < braceBalance front := by
    intro front back whole any more
    obtain ⟨deeper, passed, goes⟩ := within front back whole any more
    have balance := Text.balance_of_stateBehind passed
    have isOpen : deeper ≠ 0 := beq_eq_false_iff_ne.1 goes
    omega
  refine ⟨opening, ?_, by omega, positive⟩
  obtain ⟨front, last, rfl⟩ : ∃ front last, type = front ++ [last] := by
    rcases List.eq_nil_or_concat type with empty | ⟨front, last, shape⟩
    · exact absurd empty filled
    · exact ⟨front, last, shape.trans List.concat_eq_append⟩
  rw [Text.braceBalance_append] at balance
  have counted := Text.braceBalance_cons last []
  have nothing : braceBalance [] = 0 := rfl
  rw [List.getLast?_concat, Option.some.injEq]
  by_contra other
  rw [if_neg other] at counted
  by_cases none : front = []
  · subst none
    obtain rfl : last = '{' := by simpa using opening
    rw [if_pos rfl] at counted
    omega
  · -- a last character that closes no brace would leave the balance positive
    have before := positive front [last] rfl none (List.cons_ne_nil last [])
    split at counted <;> omega

theorem splitType_eq_ok_iff : splitType s = .ok (type, rest) ↔ BeginsWith s type rest := by
  constructor
  · intro parted
    unfold splitType at parted
    split at parted
    · next inner =>
        split at parted
        · next halves spanned =>
            cases parted
            have scanned := scan_braces (s := '{' :: inner) rfl
            rw [spanned] at scanned
            obtain ⟨whole, stopsBehind⟩ := Text.stopsBehind_of_scan scanned
            have opening : type.head? = some '{' := by
              obtain ⟨c, more, rfl⟩ := List.exists_cons_of_ne_nil stopsBehind.filled
              rw [(List.cons.inj whole).1]
              rfl
            rw [whole]
            exact .braced (isBraced_of_stopsBehind opening stopsBehind) rest
        · cases parted
    · cases parted
    · next notOpening notClosing =>
        cases parted
        apply BeginsWith.nothing
        · intro opening
          obtain ⟨inner, rfl⟩ := List.head?_eq_some_iff.1 opening
          exact notOpening inner rfl
        · intro closing
          obtain ⟨inner, rfl⟩ := List.head?_eq_some_iff.1 closing
          exact notClosing inner rfl
  · intro begins
    cases begins with
    | nothing opening closing =>
        unfold splitType
        split
        · exact absurd rfl opening
        · exact absurd rfl closing
        · rfl
    | braced braced =>
        obtain ⟨inner, rfl⟩ := List.head?_eq_some_iff.1 braced.opening
        have scanned := Text.scan_of_stopsBehind (stopsBehind_of_isBraced braced) rest
        rw [scan_braces rfl, Scanned.ofHalves_eq_stopped_iff] at scanned
        rw [List.cons_append] at scanned ⊢
        simp only [splitType, scanned]

inductive MalformedType : Text → Fault → Prop where
  | missingOpening {s : Text} (closing : s.head? = some '}') : MalformedType s .missingOpening
  | unbalanced {s : Text} (opening : s.head? = some '{')
      (endless : ∀ front, front <+: s → front ≠ [] → braceBalance front ≠ 0) : MalformedType s (.unbalanced s)

theorem splitType_eq_error_iff : splitType s = .error fault ↔ MalformedType s fault := by
  constructor
  · intro failed
    unfold splitType at failed
    split at failed
    · next inner =>
        split at failed
        · cases failed
        · next spanned =>
            cases failed
            have scanned := scan_braces (s := '{' :: inner) rfl
            rw [spanned] at scanned
            refine .unbalanced rfl fun front inside any balanced => ?_
            obtain ⟨depth, passed, goes⟩ := Text.scan_eq_ended_iff.1 scanned front inside any
            have balance := Text.balance_of_stateBehind passed
            have isOpen : depth ≠ 0 := beq_eq_false_iff_ne.1 goes
            omega
    · cases failed
      exact .missingOpening rfl
    · cases failed
  · intro malformed
    cases malformed with
    | missingOpening closing =>
        obtain ⟨inner, rfl⟩ := List.head?_eq_some_iff.1 closing
        rfl
    | unbalanced opening endless =>
        obtain ⟨inner, rfl⟩ := List.head?_eq_some_iff.1 opening
        cases spanned : spanBraces 0 ('{' :: inner) with
        | none => simp only [splitType, spanned]
        | some halves =>
            obtain ⟨type, rest⟩ := halves
            have parted : splitType ('{' :: inner) = .ok (type, rest) := by simp only [splitType, spanned]
            generalize '{' :: inner = s at *
            exfalso
            cases splitType_eq_ok_iff.1 parted with
            | nothing notOpening => exact notOpening opening
            | braced braced =>
                have filled : type ≠ [] := fun empty => by cases empty ▸ braced.opening
                exact endless type ⟨rest, rfl⟩ filled braced.balanced

/-! ## The name -/

/-- A name in brackets without an end, or one with a closing brace in it. -/
inductive MalformedName : Text → Fault → Prop where
  | unterminated {s : Text} (opening : s.head? = some '[')
      (endless : ∀ front, front <+: s → front ≠ [] →
        stateBehind Brackets.step? .closed front ≠ some .closed) :
      MalformedName s (.unterminatedName (Text.trimEnd s))
  | closing {s : Text} (plain : s.head? ≠ some '[') (inside : '}' ∈ s.takeWhile (! Text.isBlank ·)) :
      MalformedName s .closingInName

/-- The name that a text without leading blanks begins with: brackets up to the one that closes the first, or the
characters in front of the first blank. -/
inductive Names : Text → Text → Text → Prop where
  | bracketed {name : Text} (opening : name.head? = some '[')
      (closes : StopsBehind Brackets.step? (· == .closed) .closed name) (rest : Text) : Names (name ++ rest) name rest
  | plain {name rest : Text} (plain : name.head? ≠ some '[')
      (inside : ∀ c ∈ name, Text.isBlank c = false ∧ c ≠ '}')
      (stops : ∀ c, rest.head? = some c → Text.isBlank c = true) : Names (name ++ rest) name rest

theorem splitName_eq_error_iff : splitName s = .error fault ↔ MalformedName (Text.trimStart s) fault := by
  unfold splitName
  generalize Text.trimStart s = t
  simp only []
  constructor
  · intro failed
    split at failed
    · next inner =>
        split at failed
        · next spanned =>
            cases failed
            have scanned := scan_brackets (s := '[' :: inner) rfl
            rw [spanned] at scanned
            refine .unterminated rfl fun front inside any closed => ?_
            obtain ⟨state, passed, goes⟩ := Text.scan_eq_ended_iff.1 scanned front inside any
            obtain rfl : state = .closed := Option.some.inj (passed.symm.trans closed)
            cases goes
        · cases failed
    · next notOpening =>
        split at failed
        · next inside =>
            cases failed
            refine .closing (fun opening => ?_) (List.contains_iff_mem.1 inside)
            obtain ⟨inner, rfl⟩ := List.head?_eq_some_iff.1 opening
            exact notOpening inner rfl
        · cases failed
  · intro malformed
    cases malformed with
    | unterminated opening endless =>
        obtain ⟨inner, rfl⟩ := List.head?_eq_some_iff.1 opening
        cases spanned : spanBrackets 0 none ('[' :: inner) with
        | none => rfl
        | some halves =>
            have scanned := scan_brackets (s := '[' :: inner) rfl
            rw [spanned] at scanned
            obtain ⟨whole, filled, ⟨state, passed, stopped⟩, -⟩ := Text.stopsBehind_of_scan scanned
            exact absurd (passed.trans (congrArg some (eq_of_beq stopped)))
              (endless halves.1 ⟨halves.2, whole.symm⟩ filled)
    | closing plain inside =>
        split
        · exact absurd rfl plain
        · simp [inside]

theorem names_of_splitName {name : Text} (parted : splitName s = .ok (name, rest)) :
    Text.trimStart s = name ++ rest ∧ Names (Text.trimStart s) name rest := by
  unfold splitName at parted
  generalize Text.trimStart s = t at parted
  simp only [] at parted
  split at parted
  · next inner =>
      split at parted
      · cases parted
      · next halves spanned =>
          cases parted
          have scanned := scan_brackets (s := '[' :: inner) rfl
          rw [spanned] at scanned
          obtain ⟨whole, closes⟩ := Text.stopsBehind_of_scan scanned
          have opening : name.head? = some '[' := by
            obtain ⟨c, more, rfl⟩ := List.exists_cons_of_ne_nil closes.filled
            rw [(List.cons.inj whole).1]
            rfl
          refine ⟨whole, ?_⟩
          rw [whole]
          exact .bracketed opening closes rest
  · next notOpening =>
      split at parted
      · cases parted
      · next outside =>
          cases parted
          have whole := List.takeWhile_append_dropWhile (p := (! Text.isBlank ·)) (l := t)
          refine ⟨whole.symm, ?_⟩
          conv => arg 1; rw [← whole]
          apply Names.plain
          · intro opening
            obtain ⟨more, shape⟩ := List.head?_eq_some_iff.1 opening
            rw [shape, List.cons_append] at whole
            exact notOpening _ whole.symm
          · intro c inside
            refine ⟨by simpa using List.mem_takeWhile_imp inside, ?_⟩
            rintro rfl
            exact outside (List.contains_iff_mem.2 inside)
          · intro c first
            have stopped := List.head?_dropWhile_not (! Text.isBlank ·) t
            rw [first] at stopped
            simpa using stopped

/-! ## The whole body -/

/-- What makes the body of a tag malformed; it begins with no blank. -/
inductive Malformed (named : Bool) : Text → Fault → Prop where
  | type {s : Text} {fault : Fault} (malformed : MalformedType s fault) : Malformed named s fault
  | name {s type rest : Text} {fault : Fault} (allowed : named = true) (begins : BeginsWith s type rest)
      (malformed : MalformedName (Text.trimStart rest) fault) : Malformed named s fault

def Describes (rest description : Text) : Prop :=
  (∃ kept, Text.trim rest = kept ++ ['}', '}'] ∧ description = Text.trim kept) ∨
    (¬ ['}', '}'] <:+ Text.trim rest) ∧ description = Text.trim rest

/-- The parts of a body, with the blanks between them and the text of the description, make up the body. -/
structure Apart (named : Bool) (val : Text) (parts : Parts) (before between separator rest : Text) : Prop where
  whole : val = before ++ (parts.rawType ++ (between ++ (parts.name ++ (separator ++ rest))))
  blankBefore : Text.isBlankText before = true
  blankBetween : Text.isBlankText between = true
  blankSeparator : Text.isBlankText separator = true ∧ separator.length ≤ 1
  type : parts.rawType = [] ∨ IsBraced parts.rawType
  unnamed : named = false → parts.name = []
  name : named = true → Names (parts.name ++ (separator ++ rest)) parts.name (separator ++ rest)
  description : Describes rest parts.description

theorem describes_trimDescription (rest : Text) : Describes rest (trimDescription rest) := by
  simp only [trimDescription]
  cases cut : Text.stripSuffix ['}', '}'] (Text.trim rest) with
  | some kept => exact .inl ⟨kept, Text.stripSuffix_eq_some_iff.1 cut, rfl⟩
  | none =>
      refine .inr ⟨?_, rfl⟩
      rintro ⟨kept, whole⟩
      rw [Text.stripSuffix_eq_some_iff.2 whole.symm] at cut
      cases cut

theorem exists_separator (rest : Text) : ∃ separator later, rest = separator ++ later ∧
    Text.isBlankText separator = true ∧ separator.length ≤ 1 ∧ trimDescription rest = trimDescription later := by
  cases rest with
  | nil => exact ⟨[], [], rfl, rfl, Nat.zero_le 1, rfl⟩
  | cons c rest =>
      by_cases blank : Text.isBlank c = true
      · refine ⟨[c], rest, rfl, by simp [Text.isBlankText, blank], Nat.le_refl 1, ?_⟩
        rw [trimDescription, trimDescription, Text.trim_blank_cons blank]
      · exact ⟨[], c :: rest, rfl, rfl, Nat.zero_le 1, rfl⟩

theorem split_of_filled (filled : Text.isBlankText val = false) : split named val =
    (splitType (Text.trimStart val)).bind fun halves =>
      (if named then splitName halves.2 else .ok ([], halves.2)).map fun more =>
        some ⟨halves.1, more.1, trimDescription more.2⟩ := by
  simp only [split, filled, Bool.false_eq_true, if_false, bind, Except.bind, pure, Except.pure]
  cases splitType (Text.trimStart val) with
  | error fault => rfl
  | ok halves =>
      cases named with
      | false => rfl
      | true => cases splitName halves.2 <;> rfl

theorem split_eq_error_iff (filled : Text.isBlankText val = false) :
    split named val = .error fault ↔ Malformed named (Text.trimStart val) fault := by
  rw [split_of_filled filled]
  constructor
  · intro failed
    cases parted : splitType (Text.trimStart val) with
    | error first =>
        rw [parted] at failed
        cases failed
        exact .type (splitType_eq_error_iff.1 parted)
    | ok halves =>
        obtain ⟨type, rest⟩ := halves
        rw [parted] at failed
        cases named with
        | false => cases failed
        | true =>
            refine .name rfl (splitType_eq_ok_iff.1 parted) (splitName_eq_error_iff.1 ?_)
            cases word : splitName rest with
            | error second => simpa [word, Except.bind, Except.map] using failed
            | ok halves => simp [word, Except.bind, Except.map] at failed
  · intro malformed
    cases malformed with
    | type malformed =>
        rw [splitType_eq_error_iff.2 malformed]
        rfl
    | name allowed begins malformed =>
        subst allowed
        simp only [splitType_eq_ok_iff.2 begins, Except.bind, if_true, splitName_eq_error_iff.2 malformed, Except.map]

theorem exists_apart_of_split {parts? : Option Parts} (filled : Text.isBlankText val = false)
    (parted : split named val = .ok parts?) : ∃ parts before between separator rest,
      parts? = some parts ∧ Apart named val parts before between separator rest := by
  rw [split_of_filled filled] at parted
  obtain ⟨before, blankBefore, front⟩ := Text.exists_blank_append_trimStart val
  cases typed : splitType (Text.trimStart val) with
  | error fault =>
      rw [typed] at parted
      cases parted
  | ok halves =>
      obtain ⟨type, behind⟩ := halves
      rw [typed] at parted
      have typeCases : Text.trimStart val = type ++ behind ∧ (type = [] ∨ IsBraced type) := by
        have begins := splitType_eq_ok_iff.1 typed
        generalize Text.trimStart val = s at begins
        cases begins with
        | nothing => exact ⟨rfl, .inl rfl⟩
        | braced braced => exact ⟨rfl, .inr braced⟩
      cases named with
      | false =>
          cases parted
          obtain ⟨separator, rest, whole, blank, short, same⟩ := exists_separator behind
          refine ⟨_, before, [], separator, rest, rfl, ?_⟩
          refine ⟨?_, blankBefore, rfl, ⟨blank, short⟩, typeCases.2, fun _ => rfl,
            fun never => absurd never Bool.false_ne_true, ?_⟩
          · rw [List.nil_append, List.nil_append, ← whole, ← typeCases.1, ← front]
          · rw [same]
            exact describes_trimDescription rest
      | true =>
          cases word : splitName behind with
          | error fault => simp [word, Except.bind, Except.map] at parted
          | ok halves =>
              obtain ⟨name, later⟩ := halves
              simp only [Except.bind, if_true, word, Except.map, Except.ok.injEq] at parted
              subst parted
              obtain ⟨between, blankBetween, middle⟩ := Text.exists_blank_append_trimStart behind
              obtain ⟨whole, names⟩ := names_of_splitName word
              obtain ⟨separator, rest, shape, blank, short, same⟩ := exists_separator later
              refine ⟨_, before, between, separator, rest, rfl, ?_⟩
              refine ⟨?_, blankBefore, blankBetween, ⟨blank, short⟩, typeCases.2,
                fun never => absurd never.symm Bool.false_ne_true, ?_, ?_⟩
              · rw [← shape, ← whole, ← middle, ← typeCases.1, ← front]
              · intro _
                rw [← shape, ← whole]
                exact names
              · rw [same]
                exact describes_trimDescription rest

/-- The body of a tag that is not blank is malformed in one of four ways, each of which is told apart, or its parts
make it up without loss. A scan that fails where it would take a counter of braces or brackets below zero finds the
same ends of types and names. -/
theorem body_malformed_or_apart (named : Bool) (filled : Text.isBlankText val = false) :
    (∀ fault, split named val = .error fault ↔ Malformed named (Text.trimStart val) fault) ∧
      (∀ parts?, split named val = .ok parts? → ∃ parts before between separator rest,
        parts? = some parts ∧ Apart named val parts before between separator rest) ∧
      (∀ s, s.head? = some '{' → scan braceStep? (· == 0) 0 s = .ofHalves (spanBraces 0 s)) ∧
      ∀ s, s.head? = some '[' →
        scan Brackets.step? (· == .closed) .closed s = .ofHalves (spanBrackets 0 none s) := by
  refine ⟨fun fault => ?_, fun parts? => ?_, fun s => ?_, fun s => ?_⟩
  · exact split_eq_error_iff filled
  · exact exists_apart_of_split filled
  · exact scan_braces
  · exact scan_brackets

theorem nested_body_apart : ∃ before between separator rest,
    Apart true " \x7ba: \x7bb\x7d\x7d [c=']'] d".toList
      ⟨"\x7ba: \x7bb\x7d\x7d".toList, "[c=']']".toList, ['d']⟩ before between separator rest := by
  have parted : split true " \x7ba: \x7bb\x7d\x7d [c=']'] d".toList =
      .ok (some ⟨"\x7ba: \x7bb\x7d\x7d".toList, "[c=']']".toList, ['d']⟩) := by decide +kernel
  obtain ⟨parts, before, between, separator, rest, same, apart⟩ :=
    (body_malformed_or_apart true (by decide +kernel)).2.1 _ parted
  cases same
  exact ⟨before, between, separator, rest, apart⟩

end Docblock.Tag
