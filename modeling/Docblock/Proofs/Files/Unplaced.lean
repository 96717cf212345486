import Docblock.Proofs.Files.Walking
import Docblock.Proofs.Text.Trim

/-!
# Patterns that say nothing about the place

A pattern without a slash is matched at any depth: it is read as a glob that begins with two stars and then
matches the last name of a path only. What it says about a path is what it says about this name.
-/

set_option autoImplicit false

namespace Docblock

namespace Glob

mutual

/-- Whether a token matches no slash. -/
def Token.isFlat : Token → Bool
  | .literal c => c != '/'
  | .any => true
  | .star => true
  | .leading => false
  | .trailing => false
  | .between => false
  | .oneOf negated ranges => inSomeRange ranges '/' == negated
  | .branches branches => flatBranches branches

def flat : List Token → Bool
  | [] => true
  | token :: tokens => token.isFlat && flat tokens

def flatBranches : List (List Token) → Bool
  | [] => true
  | branch :: branches => flat branch && flatBranches branches

end

theorem flat_cons {token : Token} {tokens : List Token} :
    flat (token :: tokens) = true ↔ token.isFlat = true ∧ flat tokens = true := by
  rw [flat, Bool.and_eq_true]

theorem flat_iff {tokens : List Token} : flat tokens = true ↔ ∀ token ∈ tokens, token.isFlat = true := by
  induction tokens with
  | nil => simp [flat]
  | cons token tokens induction => simp [flat, induction]

theorem flatBranches_iff {branches : List (List Token)} :
    flatBranches branches = true ↔ ∀ branch ∈ branches, flat branch = true := by
  induction branches with
  | nil => simp [flatBranches]
  | cons branch branches induction => simp [flatBranches, induction]

theorem flat_literals {spelled : Text} (slashless : '/' ∉ spelled) : flat (spelled.map .literal) = true := by
  rw [flat_iff, List.forall_mem_map]
  intro c inside
  rw [Token.isFlat, bne_iff_ne]
  rintro rfl
  exact slashless inside

/-! ## Matching -/

theorem slashless_of_afterChar {isChar : Char → Bool} {behind : Text → Bool} {s : Text}
    (notSlash : isChar '/' = false) (ends : ∀ rest, behind rest = true → '/' ∉ rest)
    (found : afterChar isChar behind s = true) : '/' ∉ s := by
  cases s with
  | nil => simp
  | cons c rest =>
      rw [afterChar, Bool.and_eq_true] at found
      rw [List.mem_cons, not_or]
      refine ⟨?_, ends rest found.2⟩
      rintro rfl
      rw [notSlash] at found
      exact absurd found.1 Bool.false_ne_true

theorem slashless_of_afterSome {inFront : Char → Bool} {behind : Text → Bool} {s : Text}
    (notSlash : inFront '/' = false) (ends : ∀ rest, behind rest = true → '/' ∉ rest)
    (found : afterSome inFront behind s = true) : '/' ∉ s := by
  induction s with
  | nil => simp
  | cons c rest induction =>
      rw [afterSome, Bool.or_eq_true, Bool.and_eq_true] at found
      rcases found with here | ⟨front, further⟩
      · exact ends _ here
      · rw [List.mem_cons, not_or]
        refine ⟨?_, induction further⟩
        rintro rfl
        rw [notSlash] at front
        exact absurd front Bool.false_ne_true

mutual

theorem slashless_of_matchToken {behind : Text → Bool} (ends : ∀ rest, behind rest = true → '/' ∉ rest)
    (token : Token) (isFlat : token.isFlat = true) (s : Text) (found : matchToken behind token s = true) :
    '/' ∉ s := by
  match token with
  | .literal c =>
      rw [matchToken] at found
      rw [Token.isFlat, bne_iff_ne] at isFlat
      exact slashless_of_afterChar (by simpa using Ne.symm isFlat) ends found
  | .any =>
      rw [matchToken] at found
      exact slashless_of_afterChar (by decide) ends found
  | .star =>
      rw [matchToken] at found
      exact slashless_of_afterSome (by decide) ends found
  | .leading => simp [Token.isFlat] at isFlat
  | .trailing => simp [Token.isFlat] at isFlat
  | .between => simp [Token.isFlat] at isFlat
  | .oneOf negated ranges =>
      rw [matchToken] at found
      rw [Token.isFlat, beq_iff_eq] at isFlat
      exact slashless_of_afterChar (by simp [isFlat]) ends found
  | .branches branches =>
      rw [matchToken] at found
      rw [Token.isFlat] at isFlat
      exact slashless_of_matchBranches ends false branches isFlat s found

theorem slashless_of_matchTokens {behind : Text → Bool} (ends : ∀ rest, behind rest = true → '/' ∉ rest)
    (tokens : List Token) (isFlat : flat tokens = true) (s : Text)
    (found : matchTokens behind tokens s = true) : '/' ∉ s := by
  match tokens with
  | [] =>
      rw [matchTokens] at found
      exact ends s found
  | token :: tokens =>
      rw [matchTokens] at found
      rw [flat, Bool.and_eq_true] at isFlat
      exact slashless_of_matchToken
        (fun rest => slashless_of_matchTokens ends tokens isFlat.2 rest) token isFlat.1 s found

theorem slashless_of_matchBranches {behind : Text → Bool} (ends : ∀ rest, behind rest = true → '/' ∉ rest)
    (filled : Bool) (branches : List (List Token)) (isFlat : flatBranches branches = true) (s : Text)
    (found : matchBranches behind filled branches s = true) : '/' ∉ s := by
  match branches with
  | [] =>
      rw [matchBranches, Bool.and_eq_true] at found
      exact ends s found.2
  | [] :: branches =>
      rw [matchBranches] at found
      rw [flatBranches, Bool.and_eq_true] at isFlat
      exact slashless_of_matchBranches ends filled branches isFlat.2 s found
  | (token :: tokens) :: branches =>
      rw [matchBranches, Bool.or_eq_true] at found
      rw [flatBranches, flat, Bool.and_eq_true, Bool.and_eq_true] at isFlat
      rcases found with here | later
      · exact slashless_of_matchToken
          (fun rest => slashless_of_matchTokens ends tokens isFlat.1.2 rest) token isFlat.1.1 s here
      · exact slashless_of_matchBranches ends true branches isFlat.2 s later

end

theorem matchTokens_literals {behind : Text → Bool} (spelled : Text) (tokens : List Token) (s : Text) :
    matchTokens behind (spelled.map .literal ++ tokens) s = true ↔
      ∃ rest, s = spelled ++ rest ∧ matchTokens behind tokens rest = true := by
  induction spelled generalizing s with
  | nil => simp
  | cons c spelled induction =>
      rw [List.map_cons, List.cons_append, matchTokens, matchToken]
      cases s with
      | nil => simp [afterChar]
      | cons d s =>
          rw [afterChar, Bool.and_eq_true, beq_iff_eq, induction]
          simp only [List.cons_append, List.cons.injEq, and_assoc, exists_and_left]

theorem matchTokens_literals_self (spelled : Text) :
    matchTokens List.isEmpty (spelled.map .literal) spelled = true := by
  rw [← List.append_nil (spelled.map Token.literal), matchTokens_literals]
  exact ⟨[], by simp, by rw [matchTokens]; rfl⟩

/-- What matches no slash is looked for behind the first slash, if there is one. -/
theorem afterSlash_append_slash {behind : Text → Bool} (ends : ∀ rest, behind rest = true → '/' ∉ rest)
    (front rest : Text) :
    (behind (front ++ '/' :: rest) || afterSlash behind (front ++ '/' :: rest)) =
      (behind rest || afterSlash behind rest) := by
  have never : ∀ front, behind (front ++ '/' :: rest) = false := by
    intro front
    rw [← Bool.not_eq_true]
    exact fun found => ends _ found (by simp)
  rw [never, Bool.false_or]
  induction front with
  | nil => rw [List.nil_append, afterSlash, beq_self_eq_true, Bool.true_and]
  | cons c front induction => rw [List.cons_append, afterSlash, never, Bool.and_false, Bool.false_or, induction]

theorem isMatch_leading_cons {token : Token} {tokens : List Token} {s : Text} :
    isMatch (.leading :: token :: tokens) s = (matchTokens List.isEmpty (token :: tokens) s ||
      afterSlash (matchTokens List.isEmpty (token :: tokens)) s) := by
  simp only [isMatch]
  rw [matchTokens, matchToken]

/-- Two stars and then tokens that match no slash say about a path what they say about its last name. -/
theorem isMatch_leading {tokens : List Token} (isFlat : flat tokens = true) (place : List Text) (name : Text) :
    isMatch (.leading :: tokens) (Text.join ['/'] (place ++ [name])) = isMatch (.leading :: tokens) name := by
  cases tokens with
  | nil => rfl
  | cons token tokens =>
      have ends : ∀ rest, matchTokens List.isEmpty (token :: tokens) rest = true → '/' ∉ rest :=
        slashless_of_matchTokens (by simp) (token :: tokens) isFlat
      rw [isMatch_leading_cons, isMatch_leading_cons]
      induction place with
      | nil => rw [List.nil_append, Text.join, List.intercalate_singleton]
      | cons first place induction =>
          obtain ⟨next, more, shape⟩ : ∃ next more, place ++ [name] = next :: more :=
            List.exists_cons_of_ne_nil (by simp)
          rw [← induction, List.cons_append, shape, Text.join, Text.join, List.intercalate_cons_cons,
            List.append_assoc, List.singleton_append, afterSlash_append_slash ends]

/-! ## Reading -/

namespace Reading

def IsFlat : List (List (List Token) × List Token) → List (List Token) → List Token → Prop
  | [], branches, tokens =>
      flatBranches branches = true ∧ ∃ front, tokens = front ++ [.leading] ∧ flat front = true
  | (around, before) :: braces, branches, tokens =>
      flatBranches branches = true ∧ flat tokens = true ∧ IsFlat braces around before

variable {reading : Reading} {token : Token} {c : Char}

/-- What has been read is flat, and the last character was a slash only at the beginning. -/
structure Flat (reading : Reading) : Prop where
  tokens : IsFlat reading.braces reading.branches reading.tokens
  slash : reading.last = some '/' → reading.tokens = [.leading] ∧ reading.braces = []

theorem Flat.push (isFlat : reading.Flat) (tokenFlat : token.isFlat = true) (notSlash : c ≠ '/') :
    (reading.push token c).Flat := by
  obtain ⟨braces, branches, tokens, last⟩ := reading
  refine ⟨?_, fun slash => absurd (Option.some.inj slash) notSlash⟩
  have before := isFlat.tokens
  cases braces with
  | nil =>
      obtain ⟨branchesFlat, front, rfl, frontFlat⟩ := before
      exact ⟨branchesFlat, token :: front, rfl, flat_cons.2 ⟨tokenFlat, frontFlat⟩⟩
  | cons =>
      obtain ⟨branchesFlat, tokensFlat, outside⟩ := before
      exact ⟨branchesFlat, flat_cons.2 ⟨tokenFlat, tokensFlat⟩, outside⟩

theorem Flat.openBrace (isFlat : reading.Flat) : reading.openBrace.Flat :=
  ⟨⟨rfl, rfl, isFlat.tokens⟩, fun slash => absurd (Option.some.inj slash) (by decide)⟩

theorem flatBranches_append_reverse {branches : List (List Token)} {tokens : List Token}
    (branchesFlat : flatBranches branches = true) (tokensFlat : flat tokens = true) :
    flatBranches (branches ++ [tokens.reverse]) = true := by
  rw [flatBranches_iff] at branchesFlat ⊢
  rw [flat_iff] at tokensFlat
  simp only [List.mem_append, List.mem_singleton, or_imp, forall_and, forall_eq, flat_iff, List.mem_reverse]
  exact ⟨fun branch inside => flat_iff.1 (branchesFlat branch inside), tokensFlat⟩

theorem Flat.nextBranch (isFlat : reading.Flat) (inside : reading.braces ≠ []) : reading.nextBranch.Flat := by
  obtain ⟨braces, branches, tokens, last⟩ := reading
  obtain ⟨⟨around, before⟩, braces, rfl⟩ := List.exists_cons_of_ne_nil inside
  obtain ⟨branchesFlat, tokensFlat, outside⟩ := isFlat.tokens
  exact ⟨⟨flatBranches_append_reverse branchesFlat tokensFlat, rfl, outside⟩,
    fun slash => absurd (Option.some.inj slash) (by decide)⟩

theorem Flat.closeBrace? {next : Reading} (isFlat : reading.Flat) (closed : reading.closeBrace? = some next) :
    next.Flat := by
  obtain ⟨braces, branches, tokens, last⟩ := reading
  cases braces with
  | nil => cases closed
  | cons brace braces =>
      cases closed
      obtain ⟨branchesFlat, tokensFlat, outside⟩ := isFlat.tokens
      have token : (Token.branches (branches ++ [tokens.reverse])).isFlat = true := by
        rw [Token.isFlat]
        exact flatBranches_append_reverse branchesFlat tokensFlat
      have around : Flat ⟨braces, brace.1, brace.2, some '}'⟩ :=
        ⟨outside, fun slash => absurd (Option.some.inj slash) (by decide)⟩
      exact around.push token (by decide)

theorem Flat.tokens_ne_nil (isFlat : reading.Flat) (outside : reading.braces = []) : reading.tokens ≠ [] := by
  have tokens := isFlat.tokens
  rw [outside] at tokens
  obtain ⟨-, front, shape, -⟩ := tokens
  simp [shape]

/-- Without a slash behind them two stars are read as two single ones, unless nothing but the beginning stands
in front of them, or nothing at all. In an open brace nothing can follow then. -/
theorem Flat.stars (isFlat : reading.Flat) {rest : Text} (slashless : '/' ∉ rest) :
    ∃ next, reading.stars rest = (next, false) ∧ (next.Flat ∨ rest = [] ∧ next.braces ≠ []) := by
  have star : Token.star.isFlat = true := by rw [Token.isFlat]
  have plain : ((reading.push .star '*').push .star '*').Flat :=
    (isFlat.push star (by decide)).push star (by decide)
  have noSlash : rest.head? ≠ some '/' := fun first => slashless (List.mem_of_head? first)
  unfold Reading.stars
  simp only [noSlash, if_false, false_or, decide_false]
  split
  · next empty =>
      split
      · next none =>
          exact ⟨_, rfl, .inr ⟨List.head?_eq_none_iff.1 none, fun outside =>
            isFlat.tokens_ne_nil outside (List.isEmpty_iff.1 empty)⟩⟩
      · exact ⟨_, rfl, .inl plain⟩
  · split
    · exact ⟨_, rfl, .inl plain⟩
    · next slash =>
        obtain ⟨onlyLeading, outside⟩ := isFlat.slash (Classical.not_not.1 slash)
        split
        · rw [onlyLeading]
          refine ⟨_, rfl, .inl ⟨?_, fun slash => absurd (Option.some.inj slash) (by decide)⟩⟩
          have tokens := isFlat.tokens
          rwa [onlyLeading] at tokens
        · exact ⟨_, rfl, .inl plain⟩

theorem finish?_eq_some {tokens : List Token} (done : reading.finish? = some tokens) :
    reading.braces = [] ∧ reading.tokens.reverse = tokens := by
  unfold finish? at done
  split at done
  · next outside => exact ⟨List.isEmpty_iff.1 outside, Option.some.inj done⟩
  · cases done

/-- What is read from a plain text behind flat tokens begins with two stars and is flat behind them. -/
theorem Flat.readTimes (isFlat : reading.Flat) {count : Nat} {s : Text} {tokens : List Token}
    (plain : Pattern.IsPlain s) (done : readTimes reading count s = some tokens) :
    ∃ rest, tokens = .leading :: rest ∧ flat rest = true := by
  have literal : ∀ c, c ≠ '/' → (Token.literal c).isFlat = true := by
    intro c notSlash
    rw [Token.isFlat, bne_iff_ne]
    exact notSlash
  fun_induction Glob.readTimes reading count s with
  | case1 count reading =>
      obtain ⟨outside, rfl⟩ := finish?_eq_some done
      have tokens := isFlat.tokens
      rw [outside] at tokens
      obtain ⟨-, front, shape, frontFlat⟩ := tokens
      refine ⟨front.reverse, by simp [shape], flat_iff.2 fun token inside => ?_⟩
      exact flat_iff.1 frontFlat token (List.mem_reverse.1 inside)
  | case2 => cases done
  | case3 reading count rest induction =>
      exact induction (isFlat.push (by rw [Token.isFlat]) (by decide)) plain.tail done
  | case4 reading count rest next slash stars induction =>
      obtain ⟨next', read, further⟩ := isFlat.stars plain.tail.tail.slashless
      obtain ⟨rfl, rfl⟩ := Prod.mk.inj (stars.symm.trans read)
      rcases further with nextFlat | ⟨rfl, inside⟩
      · exact induction nextFlat plain.tail.tail (by simpa [stars] using done)
      · have finished : Glob.readTimes next count [] = some tokens := by simpa using done
        rw [Glob.readTimes] at finished
        exact absurd (finish?_eq_some finished).1 inside
  | case5 reading count rest single induction =>
      exact induction (isFlat.push (by rw [Token.isFlat]) (by decide)) plain.tail (by simpa using done)
  | case6 => exact absurd rfl (plain.head).2
  | case7 => exact absurd rfl (plain.head).2
  | case8 reading count rest induction => exact induction isFlat.openBrace plain.tail done
  | case9 => cases done
  | case10 reading count rest next closed induction =>
      exact induction (isFlat.closeBrace? closed) plain.tail (by simpa [closed] using done)
  | case11 reading count escaped rest induction =>
      exact induction (isFlat.push (literal _ plain.tail.head.1) plain.tail.head.1) plain.tail.tail done
  | case12 => cases done
  | case13 reading count c rest comma =>
      rename_i induction
      exact induction (isFlat.nextBranch (by simpa using comma.2)) plain.tail (by simpa [comma] using done)
  | case14 reading count c rest notComma =>
      rename_i induction
      rw [if_neg notComma] at done
      exact induction (isFlat.push (literal _ plain.head.1) plain.head.1) plain.tail done

end Reading

end Glob

namespace Rule

theorem globOf?_plain {pattern : Text} (plain : Pattern.IsPlain pattern) (notStars : pattern ≠ "**".toList) :
    globOf? false pattern = Glob.read ("**/".toList ++ pattern) := by
  have noSlash : pattern.contains '/' = false := by simpa using plain.slashless
  have notDeep : ("**/".toList.isPrefixOf pattern || pattern == "**".toList) = false := by
    rw [Bool.or_eq_false_iff, beq_eq_false_iff_ne, ← Bool.not_eq_true, List.isPrefixOf_iff_prefix]
    refine ⟨fun ⟨rest, shape⟩ => plain.slashless ?_, notStars⟩
    simp [← shape]
  have notEnd : "/**".toList.isSuffixOf ("**/".toList ++ pattern) = false := by
    rw [← Bool.not_eq_true, List.isSuffixOf_iff_suffix]
    rintro ⟨front, shape⟩
    match front, shape with
    | [_, _], shape =>
        cases shape
        exact notStars rfl
    | _ :: _ :: _ :: front, shape =>
        cases shape
        exact plain.slashless (by simp)
  simp only [globOf?, noSlash, notDeep, notEnd, Bool.or_self, Bool.false_eq_true, if_false]

theorem exists_of_globOf?_plain {pattern : Text} {glob : List Glob.Token} (plain : Pattern.IsPlain pattern)
    (read : globOf? false pattern = some glob) :
    ∃ tokens, glob = .leading :: tokens ∧ Glob.flat tokens = true := by
  by_cases stars : pattern = "**".toList
  · subst stars
    cases read
    exact ⟨[], rfl, rfl⟩
  · rw [globOf?_plain plain stars] at read
    have started : Glob.Reading.Flat ⟨[], [], [.leading], some '/'⟩ :=
      ⟨⟨rfl, [], rfl, rfl⟩, fun _ => ⟨rfl, rfl⟩⟩
    exact started.readTimes plain read

theorem ofAnchored?_unplaced {pattern : Text} (unplaced : Pattern.IsUnplaced pattern) (keeps : Bool) :
    ofAnchored? keeps pattern = ofPattern? keeps false pattern := by
  unfold ofAnchored?
  split
  · next rest =>
      obtain ⟨name, plain, rfl | ⟨filled, shape⟩⟩ := unplaced
      · exact absurd rfl plain.head.1
      · obtain ⟨c, more, rfl⟩ := List.exists_cons_of_ne_nil filled
        obtain ⟨rfl, -⟩ := List.cons.inj shape
        exact absurd rfl plain.head.1
  · rfl

/-- The glob of a pattern that says nothing about the place begins with two stars and matches no slash behind
them. -/
theorem exists_glob_of_unplaced {pattern : Text} {keeps : Bool} {rule : Rule} (unplaced : Pattern.IsUnplaced pattern)
    (read : ofAnchored? keeps pattern = some rule) :
    ∃ tokens, rule.glob = .leading :: tokens ∧ Glob.flat tokens = true := by
  rw [ofAnchored?_unplaced unplaced, ofPattern?] at read
  obtain ⟨name, plain, shape⟩ := unplaced
  split at read
  · next directory cut =>
      obtain ⟨glob, readGlob, rfl⟩ := Option.map_eq_some_iff.1 read
      have front : directory <+: name := by
        rw [Text.stripSuffix_eq_some_iff] at cut
        rcases shape with rfl | ⟨-, rfl⟩
        · exact ⟨_, cut.symm⟩
        · exact (List.append_left_inj _).1 cut ▸ List.prefix_rfl
      have front' : (Text.stripSuffix ['\\'] directory).getD directory <+: directory := by
        cases escaped : Text.stripSuffix ['\\'] directory with
        | none => exact List.prefix_rfl
        | some before => exact ⟨_, (Text.stripSuffix_eq_some_iff.1 escaped).symm⟩
      exact exists_of_globOf?_plain (plain.of_prefix (front'.trans front)) readGlob
  · next uncut =>
      obtain ⟨glob, readGlob, rfl⟩ := Option.map_eq_some_iff.1 read
      rcases shape with rfl | ⟨-, rfl⟩
      · exact exists_of_globOf?_plain plain readGlob
      · rw [Text.stripSuffix_eq_some_iff.2 rfl] at uncut
        cases uncut

theorem exists_ofLine?_eq (pattern : Text) :
    ∃ front, front <+: pattern ∧ ofLine? ('!' :: pattern) = ofAnchored? true front := by
  unfold ofLine?
  rw [if_neg (by simp)]
  split
  · exact ⟨pattern, List.prefix_rfl, rfl⟩
  · obtain ⟨blanks, -, whole⟩ := Text.exists_trimEnd_append_blank pattern
    refine ⟨Text.trimEnd pattern, ⟨blanks, whole.symm⟩, ?_⟩
    rw [Text.trimEnd_cons_of_visible (by decide)]
    rfl

end Rule

end Docblock
