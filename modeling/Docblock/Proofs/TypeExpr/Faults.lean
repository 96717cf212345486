import Docblock.Proofs.TypeExpr.Tiling

/-!
# Faults of the lexer

What cannot be read as a token is reported where its text begins, or, inside a string, at the backslash of
an escape. Only a lone point is called unexpected, and it is reported at the point.
-/

set_option autoImplicit false

namespace Docblock.TypeExpr

/-- Whether a literal, or a name between backticks, is reported with this cause. -/
def Cause.ofLiteral : Cause → Bool
  | .emptyQuotedName | .unterminatedQuotedName => true
  | .noHexDigits | .noExponentDigits | .numberRunsOn | .unreadableNumber _ => true
  | .unterminatedString | .invalidEscape | .invalidUnicodeEscape => true
  | _ => false

def StringLiteral.faults : List Cause :=
  [.unterminatedString, .invalidEscape, .invalidUnicodeEscape]

def Lexer.quotedNameFaults : List Cause :=
  [.emptyQuotedName, .unterminatedQuotedName]

theorem ofLiteral_of_mem {cause : Cause}
    (inside : cause ∈ StringLiteral.faults ++ Lexer.quotedNameFaults ++ Lexer.numberFaults) :
    cause.ofLiteral = true := by
  have every : ∀ cause ∈ StringLiteral.faults ++ Lexer.quotedNameFaults ++ Lexer.numberFaults,
      cause.ofLiteral = true := by decide
  exact every cause inside

theorem eq_error_of_map {α β : Type} {f : α → β} {value : Except Fault α} {fault : Fault}
    (failed : value.map f = .error fault) : value = .error fault := by
  cases value with
  | error other => exact congrArg Except.error (Except.error.inj failed)
  | ok a => cases failed

namespace StringLiteral

variable {mark : Char} {start escape s after : Text} {fault : Fault}

theorem unicodeEscape_error (run : unicodeEscape escape s = (.error fault, after)) :
    fault.place = escape ∧ fault.cause ∈ faults := by
  unfold unicodeEscape at run
  split at run
  · next digits =>
      cases code : (bracedDigits 0 0 digits).1.bind charOf? with
      | none =>
          simp only [code] at run
          cases run
          exact ⟨rfl, by simp [faults]⟩
      | some c => simp [code] at run
  · rcases digits : hexDigits 4 0 s with ⟨_ | code, behind⟩
    · simp only [digits] at run
      cases run
      exact ⟨rfl, by simp [faults]⟩
    · simp only [digits] at run
      split at run <;> cases run

theorem escaped_error (run : escaped start escape s = (.error fault, after)) :
    (fault.place = start ∨ fault.place = escape) ∧ fault.cause ∈ faults := by
  unfold escaped at run
  split at run
  case h_1 =>
    cases run
    exact ⟨.inl rfl, by simp [faults]⟩
  case h_8 rest =>
    rcases digits : hexDigits 2 0 rest with ⟨_ | code, behind⟩
    · simp only [digits] at run
      cases run
      exact ⟨.inr rfl, by simp [faults]⟩
    · simp [digits] at run
  case h_9 rest =>
    have failed : (unicodeEscape escape rest).1 = .error fault := eq_error_of_map (Prod.mk.inj run).1
    obtain ⟨place, inside⟩ := unicodeEscape_error (Prod.ext failed rfl)
    exact ⟨.inr place, inside⟩
  case h_11 c rest _ _ _ _ _ _ _ _ _ =>
    split at run
    · cases run
    · split at run
      · cases run
      · cases digit : Decimal.digitValue? 8 c <;> simp [digit] at run
  all_goals cases run

theorem body_error (behind : s <:+ start) (run : body mark start s = (.error fault, after)) :
    fault.place <:+ start ∧ fault.cause ∈ faults := by
  fun_induction body mark start s generalizing after with
  | case1 =>
      cases run
      exact ⟨List.suffix_rfl, by simp [faults]⟩
  | case2 =>
      cases run
  | case3 rest fault' different unit shorter =>
      rename_i failed
      cases run
      obtain ⟨place, inside⟩ := escaped_error (Prod.ext failed rfl)
      refine ⟨?_, inside⟩
      rcases place with place | place
      · exact place ▸ List.suffix_rfl
      · exact place ▸ behind
  | case4 rest char? value remaining different unit _ read others =>
      rename_i induction
      have inner : value = .error fault := eq_error_of_map (Prod.mk.inj run).1
      subst inner
      have later : unit.2 <:+ start :=
        (escaped_suffix _ _ rest).trans ((List.suffix_cons _ rest).trans behind)
      exact induction later others
  | case5 c rest different plain value remaining others induction =>
      have inner : value = .error fault := eq_error_of_map (Prod.mk.inj run).1
      subst inner
      exact induction ((List.suffix_cons c rest).trans behind) others

end StringLiteral

namespace Lexer

variable {c : Char} {start raw s rest after : Text} {fault : Fault}

theorem quotedName_error (run : quotedName start s = (.error fault, after)) :
    fault.place = start ∧ fault.cause ∈ quotedNameFaults := by
  simp only [quotedName] at run
  split at run
  · cases run
    exact ⟨rfl, by simp [quotedNameFaults]⟩
  · split at run
    · cases run
      exact ⟨rfl, by simp [quotedNameFaults]⟩
    · cases run

theorem number_error (run : number start = (.error fault, after)) :
    fault.place = start ∧ fault.cause.ofLiteral = true := by
  rcases number_cases start with ⟨cause, inside, behind, failed⟩ | ⟨raw, behind, rfl, spelled⟩
  · rw [failed] at run
    cases run
    exact ⟨rfl, ofLiteral_of_mem (by simp [inside])⟩
  · rw [spelled.run, closeNumber_eq spelled.ends] at run
    cases read : Numeral.read raw <;> rw [read] at run <;> cases run
    exact ⟨rfl, rfl⟩

inductive Fails : Char → Text → Fault → Prop where
  | point {rest : Text} : Fails '.' rest ⟨.strayDot, '.' :: rest⟩
  | number {c : Char} {rest after : Text} {fault : Fault} (begins : beginsNumber c rest = true)
      (run : number (c :: rest) = (.error fault, after)) : Fails c rest fault
  | string {c : Char} {rest after : Text} {fault : Fault}
      (run : StringLiteral.body c (c :: rest) rest = (.error fault, after)) : Fails c rest fault
  | quotedName {rest after : Text} {fault : Fault}
      (run : quotedName ('`' :: rest) rest = (.error fault, after)) : Fails '`' rest fault

theorem fails_of_token (run : token c rest = (.error fault, after)) : Fails c rest fault := by
  simp only [token] at run
  split at run
  · cases run
  split at run
  · next dot =>
      subst dot
      split at run
      · cases run
      · cases run
      · split at run
        · next digit => exact .number (by simp [beginsNumber, digit]) run
        · cases run
          exact .point
  split at run
  · exact .string (Prod.ext (eq_error_of_map (Prod.mk.inj run).1) rfl)
  split at run
  · next tick =>
      subst tick
      exact .quotedName run
  split at run
  · next begins => exact .number (by simp only [beginsNumber, begins, Bool.true_or]) run
  · cases run

/-- The lexer reports this where it reads the text: a lone point, or a literal. -/
inductive Blames (s : Text) : Fault → Prop where
  | point {rest : Text} (inside : '.' :: rest <:+ s) : Blames s ⟨.strayDot, '.' :: rest⟩
  | literal {fault : Fault} (inside : fault.place <:+ s) (literal : fault.cause.ofLiteral = true) : Blames s fault

theorem blames_of_token (run : token c rest = (.error fault, after)) : Blames (c :: rest) fault := by
  cases fails_of_token run with
  | point => exact .point List.suffix_rfl
  | number begins read =>
      obtain ⟨place, literal⟩ := number_error read
      exact .literal (place ▸ List.suffix_rfl) literal
  | string read =>
      obtain ⟨inside, known⟩ := StringLiteral.body_error (List.suffix_cons c rest) read
      exact .literal inside (ofLiteral_of_mem (by simp [known]))
  | quotedName read =>
      obtain ⟨place, known⟩ := quotedName_error read
      exact .literal (place ▸ List.suffix_rfl) (ofLiteral_of_mem (by simp [known]))

theorem blames_of_next (run : next s = (.error fault, after)) : Blames s fault := by
  obtain ⟨blanks, -, whole⟩ := Text.exists_blank_append_trimStart s
  unfold next at run
  split at run
  · cases run
  · next c rest trimmed =>
      have inside : c :: rest <:+ s := ⟨blanks, by rw [← trimmed]; exact whole.symm⟩
      have failed : (token c rest).1 = .error fault := eq_error_of_map (Prod.mk.inj run).1
      cases blames_of_token (Prod.ext failed rfl) with
      | point within => exact .point (within.trans inside)
      | literal within literal => exact .literal (within.trans inside) literal

end Lexer

end Docblock.TypeExpr
