import Docblock.TypeExpr.StringLiteral

/-!
# What a string literal takes up

A literal that is read ends with its quote, and nothing behind the quote has a part in it: `body_ok`. An
escape alone is not so independent: `\0` and octal digits look at the next character, and the first half of a
surrogate pair looks for the second one. `Alike` says what of the text behind it an escape depends on.
-/

set_option autoImplicit false

namespace Docblock.TypeExpr.StringLiteral

section Digits

variable {count code n : Nat} {s after : Text}

theorem hexDigits_ok (run : hexDigits count code s = (some n, after)) :
    ∃ digits, s = digits ++ after ∧ ∀ k, hexDigits count code (digits ++ k) = (some n, k) := by
  induction count generalizing code s with
  | zero =>
      simp only [hexDigits, Prod.mk.injEq, Option.some.injEq] at run
      obtain ⟨rfl, rfl⟩ := run
      exact ⟨[], rfl, fun k => rfl⟩
  | succ count induction =>
      cases s with
      | nil => simp [hexDigits] at run
      | cons c rest =>
          simp only [hexDigits] at run
          cases digit : Decimal.digitValue? 16 c with
          | none => simp [digit] at run
          | some d =>
              simp only [digit] at run
              obtain ⟨digits, rfl, others⟩ := induction run
              refine ⟨c :: digits, rfl, fun k => ?_⟩
              simp [hexDigits, digit, others]

theorem bracedDigits_ok (run : bracedDigits count code s = (some n, after)) :
    ∃ digits, s = digits ++ after ∧ ∀ k, bracedDigits count code (digits ++ k) = (some n, k) := by
  induction s generalizing count code with
  | nil => simp [bracedDigits] at run
  | cons c rest induction =>
      rw [bracedDigits] at run
      split at run
      · next closes =>
          simp only [Prod.mk.injEq, Option.some.injEq] at run
          obtain ⟨rfl, rfl⟩ := run
          exact ⟨[c], rfl, fun k => by simp [bracedDigits, closes]⟩
      · next open' =>
          cases digit : Decimal.digitValue? 16 c with
          | none => simp [digit] at run
          | some d =>
              simp only [digit] at run
              split at run
              · next few =>
                  obtain ⟨digits, rfl, others⟩ := induction run
                  refine ⟨c :: digits, rfl, fun k => ?_⟩
                  rw [List.cons_append, bracedDigits, if_neg open']
                  simp [digit, few, others]
              · simp at run

theorem octalDigits_ok (run : octalDigits count code s = (n, after)) :
    ∃ digits, s = digits ++ after ∧
      ∀ k, k.head? = after.head? → octalDigits count code (digits ++ k) = (n, k) := by
  induction count generalizing code s with
  | zero =>
      simp only [octalDigits, Prod.mk.injEq] at run
      obtain ⟨rfl, rfl⟩ := run
      exact ⟨[], rfl, fun k same => rfl⟩
  | succ count induction =>
      cases s with
      | nil =>
          simp only [octalDigits, Prod.mk.injEq] at run
          obtain ⟨rfl, rfl⟩ := run
          refine ⟨[], rfl, fun k same => ?_⟩
          obtain rfl := List.head?_eq_none_iff.1 same
          rfl
      | cons c rest =>
          simp only [octalDigits] at run
          cases digit : Decimal.digitValue? 8 c with
          | none =>
              simp only [digit, Prod.mk.injEq] at run
              obtain ⟨rfl, rfl⟩ := run
              refine ⟨[], rfl, fun k same => ?_⟩
              obtain ⟨more, rfl⟩ := List.head?_eq_some_iff.1 same
              simp [octalDigits, digit]
          | some d =>
              simp only [digit] at run
              obtain ⟨digits, rfl, others⟩ := induction run
              refine ⟨c :: digits, rfl, fun k same => ?_⟩
              simp [octalDigits, digit, others k same]

theorem lowSurrogate_ok (found : lowSurrogate s = some (n, after)) :
    ∃ pair, s = '\\' :: 'u' :: pair ++ after ∧ isLowSurrogate n = true ∧
      ∀ k, hexDigits 4 0 (pair ++ k) = (some n, k) := by
  unfold lowSurrogate at found
  split at found
  · split at found
    · next low behind digits =>
        split at found
        · next half =>
            simp only [Option.some.injEq, Prod.mk.injEq] at found
            obtain ⟨rfl, rfl⟩ := found
            obtain ⟨pair, rfl, exact⟩ := hexDigits_ok digits
            exact ⟨pair, rfl, half, exact⟩
        · cases found
    · cases found
  · cases found

theorem lowSurrogate_pair {pair : Text} (half : isLowSurrogate n = true)
    (exact : ∀ k, hexDigits 4 0 (pair ++ k) = (some n, k)) (k : Text) :
    lowSurrogate ('\\' :: 'u' :: pair ++ k) = some (n, k) := by
  simp [lowSurrogate, exact, half]

end Digits

structure Alike (s k : Text) : Prop where
  head : k.head? = s.head?
  alone : lowSurrogate s = none → lowSurrogate k = none

section Escapes

variable {start escape s after : Text}

theorem unicodeEscape_pair {code low : Nat} {rest : Text} (digits : hexDigits 4 0 s = (some code, after))
    (high : isHighSurrogate code = true) (pair : lowSurrogate after = some (low, rest)) :
    unicodeEscape escape s =
      (.ok (charOrReplacement (0x10000 + (code - 0xD800) * 0x400 + (low - 0xDC00))), rest) := by
  unfold unicodeEscape
  split
  · simp [hexDigits, Decimal.digitValue?] at digits
  · simp [digits, high, pair]

theorem unicodeEscape_single {code : Nat} (digits : hexDigits 4 0 s = (some code, after))
    (alone : isHighSurrogate code = true → lowSurrogate after = none) :
    unicodeEscape escape s = (.ok (charOrReplacement code), after) := by
  unfold unicodeEscape
  split
  · simp [hexDigits, Decimal.digitValue?] at digits
  · by_cases high : isHighSurrogate code = true
    · simp [digits, high, alone high]
    · simp [digits, high]

theorem unicodeEscape_ok {c : Char} (run : unicodeEscape escape s = (.ok c, after)) :
    ∃ unit, s = unit ++ after ∧
      ∀ escape k, Alike after k → unicodeEscape escape (unit ++ k) = (.ok c, k) := by
  unfold unicodeEscape at run
  split at run
  · next digits =>
      rcases braced : bracedDigits 0 0 digits with ⟨_ | code, behind⟩
      · simp [braced] at run
      · cases valid : charOf? code with
        | none => simp [braced, valid] at run
        | some d =>
            simp only [braced, Option.bind_some, valid, Prod.mk.injEq, Except.ok.injEq] at run
            obtain ⟨rfl, rfl⟩ := run
            obtain ⟨unit, rfl, exact⟩ := bracedDigits_ok braced
            exact ⟨'{' :: unit, rfl, fun escape k alike => by simp [unicodeEscape, exact, valid]⟩
  · next noBrace =>
      rcases digits : hexDigits 4 0 s with ⟨_ | code, behind⟩
      · simp [digits] at run
      · obtain ⟨unit, rfl, exact⟩ := hexDigits_ok digits
        simp only [digits] at run
        split at run
        · next low remaining pair =>
            split at pair
            · next high =>
                simp only [Prod.mk.injEq, Except.ok.injEq] at run
                obtain ⟨rfl, rfl⟩ := run
                obtain ⟨second, rfl, half, whole⟩ := lowSurrogate_ok pair
                refine ⟨unit ++ '\\' :: 'u' :: second, by simp, fun escape k alike => ?_⟩
                have paired := lowSurrogate_pair half whole k
                rw [List.append_assoc, unicodeEscape_pair (exact _) high paired]
            · cases pair
        · next single =>
            simp only [Prod.mk.injEq, Except.ok.injEq] at run
            obtain ⟨rfl, rfl⟩ := run
            refine ⟨unit, rfl, fun escape k alike => ?_⟩
            apply unicodeEscape_single (exact k)
            intro high
            rw [if_pos high] at single
            exact alike.alone single

theorem beginsWithDigit_congr {k : Text} (same : k.head? = s.head?) :
    beginsWithDigit k = beginsWithDigit s := by
  cases s with
  | nil => rw [List.head?_eq_none_iff.1 same]
  | cons c s =>
      obtain ⟨more, rfl⟩ := List.head?_eq_some_iff.1 same
      rfl

theorem escaped_ok {char? : Option Char} (run : escaped start escape s = (.ok char?, after)) :
    ∃ unit, s = unit ++ after ∧
      ∀ start escape k, Alike after k → escaped start escape (unit ++ k) = (.ok char?, k) := by
  unfold escaped at run
  split at run
  case h_1 => simp at run
  case h_8 rest =>
    rcases digits : hexDigits 2 0 rest with ⟨_ | code, behind⟩
    · simp [digits] at run
    · simp only [digits, Prod.mk.injEq, Except.ok.injEq] at run
      obtain ⟨rfl, rfl⟩ := run
      obtain ⟨unit, rfl, exact⟩ := hexDigits_ok digits
      exact ⟨'x' :: unit, rfl, fun start escape k alike => by simp [escaped, exact]⟩
  case h_9 rest =>
    rcases unicode : unicodeEscape escape rest with ⟨_ | c, behind⟩
    · simp [unicode, Except.map] at run
    · simp only [unicode, Except.map, Prod.mk.injEq, Except.ok.injEq] at run
      obtain ⟨rfl, rfl⟩ := run
      obtain ⟨unit, rfl, exact⟩ := unicodeEscape_ok unicode
      refine ⟨'u' :: unit, rfl, fun start escape k alike => ?_⟩
      simp [escaped, exact _ k alike, Except.map]
  case h_10 rest =>
    cases run
    exact ⟨['\r', '\n'], rfl, fun start escape k alike => rfl⟩
  case h_11 c rest n r t b f v x u crlf =>
    -- which of the last cases it is can depend on the character behind `c`, and no more of the text
    have other : ∀ k, k.head? = rest.head? → ∀ more, c = '\r' → k ≠ '\n' :: more := by
      intro k same more carriage shape
      rw [shape] at same
      obtain ⟨others, shape⟩ := List.head?_eq_some_iff.1 same.symm
      exact crlf others carriage shape
    have equation := fun start escape k (same : k.head? = rest.head?) =>
      escaped.eq_11 start escape c k n r t b f v x u (other k same)
    split at run
    · next breaks =>
        cases run
        refine ⟨[c], rfl, fun start escape k alike => ?_⟩
        rw [List.singleton_append, equation start escape k alike.head, if_pos breaks]
    · next noBreak =>
        split at run
        · next zero =>
            cases run
            refine ⟨[c], rfl, fun start escape k alike => ?_⟩
            rw [← beginsWithDigit_congr alike.head] at zero
            rw [List.singleton_append, equation start escape k alike.head, if_neg noBreak, if_pos zero]
        · next noZero =>
            cases digit : Decimal.digitValue? 8 c with
            | none =>
                simp only [digit, Prod.mk.injEq, Except.ok.injEq] at run
                obtain ⟨rfl, rfl⟩ := run
                refine ⟨[c], rfl, fun start escape k alike => ?_⟩
                rw [← beginsWithDigit_congr alike.head] at noZero
                rw [List.singleton_append, equation start escape k alike.head, if_neg noBreak,
                  if_neg noZero]
                simp only [digit]
            | some d =>
                rcases octal : octalDigits (if d ≤ 3 then 2 else 1) d rest with ⟨code, behind⟩
                simp only [digit, octal, Prod.mk.injEq, Except.ok.injEq] at run
                obtain ⟨rfl, rfl⟩ := run
                obtain ⟨digits, rfl, exact⟩ := octalDigits_ok octal
                refine ⟨c :: digits, rfl, fun start escape k alike => ?_⟩
                have same : (digits ++ k).head? = (digits ++ behind).head? := by
                  rw [List.head?_append, List.head?_append, alike.head]
                rw [← beginsWithDigit_congr same] at noZero
                rw [List.cons_append, equation start escape _ same, if_neg noBreak, if_neg noZero]
                simp only [digit, exact k alike.head]
  all_goals
    cases run
    exact ⟨[_], rfl, fun start escape k alike => rfl⟩

end Escapes

/-- The text is the rest of a literal with its closing quote, and the literal goes on with `value`. -/
def Closes (mark : Char) (text value : Text) : Prop :=
  ∀ start k, body mark start (text ++ k) = (.ok value, k)

section Bodies

variable {mark : Char} {start s after text value : Text}

theorem body_suffix (mark : Char) (start s : Text) : (body mark start s).2 <:+ s := by
  fun_induction body mark start s with
  | case1 => exact List.suffix_refl _
  | case2 => exact List.suffix_cons _ _
  | case3 rest fault different unit shorter _ =>
      exact (escaped_suffix _ _ rest).trans (List.suffix_cons _ _)
  | case4 rest char? value remaining different unit shorter _ run induction =>
      rw [run] at induction
      exact induction.trans ((escaped_suffix _ _ rest).trans (List.suffix_cons _ _))
  | case5 c rest different plain value remaining run induction =>
      rw [run] at induction
      exact induction.trans (List.suffix_cons _ _)

theorem Closes.ne_nil (closes : Closes mark text value) : text ≠ [] := by
  rintro rfl
  have nothing := closes [] []
  rw [List.nil_append, body] at nothing
  cases nothing

/-- The second half of a surrogate pair stands in a literal as a whole or not at all. -/
theorem Closes.lowSurrogate_prefix (closes : Closes mark text value) (noEscape : mark ≠ '\\')
    {pair rest k : Text} {low : Nat} (half : isLowSurrogate low = true)
    (whole : ∀ k, hexDigits 4 0 (pair ++ k) = (some low, k))
    (shape : text ++ k = '\\' :: 'u' :: pair ++ rest) : ∃ more, text = '\\' :: 'u' :: pair ++ more := by
  have low' : isHighSurrogate low = false := by
    simp only [isLowSurrogate, isHighSurrogate, Bool.and_eq_true, Bool.and_eq_false_iff,
      decide_eq_true_eq, decide_eq_false_iff_not] at half ⊢
    omega
  have escape : ∀ start place,
      escaped start place ('u' :: (pair ++ rest)) = (.ok (some (charOrReplacement low)), rest) := by
    intro start place
    have unicode : unicodeEscape place (pair ++ rest) = (.ok (charOrReplacement low), rest) := by
      apply unicodeEscape_single (whole rest)
      intro high
      rw [low'] at high
      cases high
    simp [escaped, unicode, Except.map]
  -- the literal closes behind the escape, so the escape lies within it
  have read := closes [] k
  rw [shape, List.cons_append, body, if_neg (Ne.symm noEscape), if_pos rfl] at read
  simp only [List.cons_append, escape] at read
  have behind := body_suffix mark [] rest
  rw [(Prod.mk.inj read).2] at behind
  have shorter : ('\\' :: 'u' :: pair).length ≤ text.length := by
    have lengths := congrArg List.length shape
    have bound := behind.length_le
    simp only [List.length_append, List.length_cons] at lengths ⊢
    omega
  have front : '\\' :: 'u' :: pair <+: text ++ k := shape ▸ List.prefix_append _ rest
  obtain ⟨more, same⟩ := List.prefix_of_prefix_length_le front (List.prefix_append text k) shorter
  exact ⟨more, same.symm⟩

theorem Closes.alike (closes : Closes mark text value) (noEscape : mark ≠ '\\') (s k : Text) :
    Alike (text ++ s) (text ++ k) := by
  refine ⟨?_, fun alone => ?_⟩
  · obtain ⟨c, more, rfl⟩ := List.exists_cons_of_ne_nil closes.ne_nil
    rfl
  · cases found : lowSurrogate (text ++ k) with
    | none => rfl
    | some second =>
        obtain ⟨pair, shape, half, whole⟩ := lowSurrogate_ok found
        obtain ⟨more, rfl⟩ := closes.lowSurrogate_prefix noEscape half whole shape
        rw [List.append_assoc, lowSurrogate_pair half whole] at alone
        cases alone

/-- A literal that is read takes up a text that is read the same in front of any other. -/
theorem body_ok (noEscape : mark ≠ '\\') (run : body mark start s = (.ok value, after)) :
    ∃ text, s = text ++ after ∧ Closes mark text value := by
  fun_induction body mark start s generalizing value after with
  | case1 =>
      cases run
  | case2 rest =>
      cases run
      exact ⟨[mark], rfl, fun start k => by simp [body]⟩
  | case3 =>
      cases run
  | case4 rest char? inner remaining different unit _ read others =>
      rename_i induction
      obtain ⟨inner', rfl⟩ : ∃ value, inner = .ok value := by
        cases inner with
        | error => cases run
        | ok value => exact ⟨value, rfl⟩
      simp only [Except.map, Prod.mk.injEq, Except.ok.injEq] at run
      obtain ⟨rfl, rfl⟩ := run
      obtain ⟨text, shape, closes⟩ := induction others
      obtain ⟨escape, whole, exact⟩ := escaped_ok (Prod.ext read shape)
      refine ⟨'\\' :: escape ++ text, by simp [whole], fun start k => ?_⟩
      have alike := closes.alike noEscape remaining k
      rw [List.cons_append, List.cons_append, List.append_assoc, body, if_neg different, if_pos rfl]
      simp [exact _ _ _ alike, closes start k, Except.map]
  | case5 c rest different plain inner remaining others induction =>
      obtain ⟨inner', rfl⟩ : ∃ value, inner = .ok value := by
        cases inner with
        | error => cases run
        | ok value => exact ⟨value, rfl⟩
      simp only [Except.map, Prod.mk.injEq, Except.ok.injEq] at run
      obtain ⟨rfl, rfl⟩ := run
      obtain ⟨text, rfl, closes⟩ := induction others
      refine ⟨c :: text, rfl, fun start k => ?_⟩
      rw [List.cons_append, body, if_neg different, if_neg plain]
      simp [closes start k, Except.map]

end Bodies

end Docblock.TypeExpr.StringLiteral
