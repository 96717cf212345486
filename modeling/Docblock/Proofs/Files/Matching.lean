import Docblock.Proofs.Files.Unplaced

/-!
# What patterns match

The patterns of the walker that knows the ignore files of Git match what is asked of a walker's patterns: letters are
read as they stand, a star stands for the front of a name, and two stars behind a slash for what is below.
-/

set_option autoImplicit false

namespace Docblock

namespace Glob

variable {s t : Text} {c : Char}

def IsSpelled (c : Char) : Prop :=
  c ∉ ['?', '*', '[', '{', '}', '\\', ',']

instance (c : Char) : Decidable (IsSpelled c) :=
  inferInstanceAs (Decidable (¬ _))

def Reading.spell (reading : Reading) (spelled : Text) : Reading :=
  spelled.foldl (fun reading c => reading.push (.literal c) c) reading

theorem Reading.tokens_spell (reading : Reading) (spelled : Text) :
    (reading.spell spelled).tokens = (spelled.map .literal).reverse ++ reading.tokens := by
  induction spelled generalizing reading with
  | nil => rfl
  | cons c spelled induction =>
      rw [spell, List.foldl_cons, ← spell, induction, List.map_cons, List.reverse_cons, List.append_assoc]
      rfl

theorem Reading.braces_spell (reading : Reading) (spelled : Text) :
    (reading.spell spelled).braces = reading.braces ∧ (reading.spell spelled).branches = reading.branches := by
  induction spelled generalizing reading with
  | nil => exact ⟨rfl, rfl⟩
  | cons c spelled induction => exact induction (reading.push (.literal c) c)

theorem readTimes_spelled_cons (reading : Reading) (count : Nat) (spelled : IsSpelled c) :
    readTimes reading (count + 1) (c :: s) = readTimes (reading.push (.literal c) c) count s := by
  simp only [IsSpelled, List.mem_cons, List.not_mem_nil, or_false, not_or] at spelled
  obtain ⟨any, star, opens, brace, closes, escape, comma⟩ := spelled
  rw [readTimes]
  · rw [if_neg fun separates => comma separates.1]
  all_goals
    intros
    simp_all

theorem readTimes_spelled (reading : Reading) (count : Nat) {spelled : Text} (each : ∀ c ∈ spelled, IsSpelled c) :
    readTimes reading (count + spelled.length) (spelled ++ s) = readTimes (reading.spell spelled) count s := by
  induction spelled generalizing reading with
  | nil => rfl
  | cons c spelled induction =>
      obtain ⟨here, later⟩ := List.forall_mem_cons.1 each
      rw [List.cons_append, List.length_cons, ← Nat.add_assoc, readTimes_spelled_cons reading _ here, induction _ later]
      rfl

theorem readTimes_spelled_end {reading : Reading} {count : Nat} {spelled : Text} (each : ∀ c ∈ spelled, IsSpelled c)
    (outside : reading.braces = []) :
    readTimes reading (count + spelled.length) spelled = some (reading.tokens.reverse ++ spelled.map .literal) := by
  have read : readTimes reading (count + spelled.length) (spelled ++ []) = _ := readTimes_spelled reading count each
  rw [List.append_nil] at read
  rw [read, readTimes, Reading.finish?, (reading.braces_spell spelled).1, outside, reading.tokens_spell]
  simp

theorem afterSome_append {inFront : Char → Bool} {behind : Text → Bool} (front : ∀ c ∈ s, inFront c = true)
    (found : behind t = true) : afterSome inFront behind (s ++ t) = true := by
  induction s with
  | nil =>
      rw [List.nil_append]
      cases t with
      | nil => exact found
      | cons c t => rw [afterSome, found, Bool.true_or]
  | cons c s induction =>
      obtain ⟨here, later⟩ := List.forall_mem_cons.1 front
      rw [List.cons_append, afterSome, here, induction later, Bool.true_and, Bool.or_true]

end Glob

namespace Pattern

theorem spelled_of_isLetter {c : Char} (letter : isLetter c = true) :
    Text.isBlank c = false ∧ Glob.IsSpelled c ∧ c ≠ '/' := by
  have ascii : c.toNat < 128 := by
    delta isLetter Char.isAlphanum Char.isAlpha Char.isUpper Char.isLower Char.isDigit at letter
    simp only [Bool.or_eq_true, Bool.and_eq_true, decide_eq_true_eq, beq_iff_eq] at letter
    rcases letter with ((range | rfl) | rfl) | rfl
    · simp [UInt32.le_iff_toNat_le] at range
      omega
    all_goals decide
  have every : ∀ n < 128, isLetter (Char.ofNat n) = true →
      Text.isBlank (Char.ofNat n) = false ∧ Glob.IsSpelled (Char.ofNat n) ∧ Char.ofNat n ≠ '/' := by
    decide
  have here := every c.toNat ascii
  rw [Char.ofNat_toNat] at here
  exact here letter

variable {name : Text}

theorem IsLiteral.spelled (literal : IsLiteral name) : ∀ c ∈ name, Glob.IsSpelled c :=
  fun c inside => (spelled_of_isLetter (literal.2 c inside)).2.1

/-- Whether the first character of a pattern is no slash and the last one is visible and no slash. -/
structure IsBare (pattern : Text) : Prop where
  first : ∀ c ∈ pattern.head?, c ≠ '/'
  last : ∃ front c, pattern = front ++ [c] ∧ Text.isBlank c = false ∧ c ≠ '/'

theorem IsLiteral.last (literal : IsLiteral name) (front : Text) :
    ∃ before c, front ++ name = before ++ [c] ∧ Text.isBlank c = false ∧ c ≠ '/' := by
  have letter := literal.2 _ (List.getLast_mem literal.1)
  refine ⟨front ++ name.dropLast, name.getLast literal.1, ?_, (spelled_of_isLetter letter).1,
    (spelled_of_isLetter letter).2.2⟩
  rw [List.append_assoc, List.dropLast_append_getLast]

theorem IsLiteral.first (literal : IsLiteral name) (rest : Text) : ∀ c ∈ (name ++ rest).head?, c ≠ '/' := by
  obtain ⟨c, more, rfl⟩ := List.exists_cons_of_ne_nil literal.1
  rintro d ⟨⟩
  exact (spelled_of_isLetter (literal.2 _ List.mem_cons_self)).2.2

theorem IsLiteral.ne_stars (literal : IsLiteral name) (front : Text) : front ++ name ≠ "**".toList := by
  intro shape
  obtain ⟨c, more, rfl⟩ := List.exists_cons_of_ne_nil literal.1
  have star : c ∈ "**".toList := shape ▸ List.mem_append_right front List.mem_cons_self
  obtain rfl : c = '*' := by simpa using star
  exact absurd (literal.spelled '*' List.mem_cons_self) (by decide)

end Pattern

namespace Rule

variable {pattern name : Text} {rule : Rule}

theorem ofLine?_bare (bare : Pattern.IsBare pattern) :
    ofLine? ('!' :: pattern) = (globOf? false pattern).map (⟨·, true, false⟩) := by
  obtain ⟨front, c, shape, visible, noSlash⟩ := bare.last
  have whole : Text.trimEnd ('!' :: pattern) = '!' :: pattern := by
    rw [shape, ← List.cons_append]
    exact Text.trimEnd_of_visible visible _
  have unmarked : Text.stripSuffix ['/'] pattern = none := by
    rw [Option.eq_none_iff_forall_ne_some]
    intro rest cut
    rw [Text.stripSuffix_eq_some_iff, shape] at cut
    exact noSlash (List.singleton_inj.1 (List.append_inj' cut rfl).2)
  have relative : ofAnchored? true pattern = ofPattern? true false pattern := by
    unfold ofAnchored?
    split
    · exact absurd rfl (bare.first '/' rfl)
    · rfl
  unfold ofLine?
  rw [if_neg (by simp), whole, ite_self]
  simp only
  rw [relative, ofPattern?, unmarked]

theorem keeps_of_ofPattern? {keeps anchored : Bool} (read : ofPattern? keeps anchored pattern = some rule) :
    rule.keeps = keeps := by
  unfold ofPattern? at read
  split at read
  all_goals
    obtain ⟨glob, -, rfl⟩ := Option.map_eq_some_iff.1 read
    rfl

theorem keeps_of_ofAnchored? {keeps : Bool} (read : ofAnchored? keeps pattern = some rule) : rule.keeps = keeps := by
  unfold ofAnchored? at read
  split at read
  · exact keeps_of_ofPattern? read
  · exact keeps_of_ofPattern? read

/-- Negated patterns keep what they match as rules, and no others do. -/
theorem keeps_of_ofLine? (read : ofLine? pattern = some rule) : rule.keeps = Pattern.isNegated pattern := by
  unfold ofLine? at read
  split at read
  · cases read
  · have isPrefix : (if "\\ ".toList.isSuffixOf pattern then pattern else Text.trimEnd pattern) <+: pattern := by
      split
      · exact List.prefix_rfl
      · obtain ⟨blanks, -, whole⟩ := Text.exists_trimEnd_append_blank pattern
        exact ⟨blanks, whole.symm⟩
    simp only at read
    generalize (if "\\ ".toList.isSuffixOf pattern then pattern else Text.trimEnd pattern) = shown at read isPrefix
    obtain ⟨blanks, rfl⟩ := isPrefix
    split at read
    · cases read
    · exact keeps_of_ofPattern? read
    · exact keeps_of_ofPattern? read
    · exact keeps_of_ofAnchored? read
    · next filled _ _ unmarked =>
        rw [keeps_of_ofAnchored? read]
        cases shown with
        | nil => exact absurd rfl filled
        | cons c rest =>
            have plain : c ≠ '!' := by
              rintro rfl
              exact unmarked rest rfl
            simp [Pattern.isNegated, plain]

theorem ofLine?_literal (literal : Pattern.IsLiteral name) :
    ofLine? ('!' :: name) = some ⟨.leading :: name.map .literal, true, false⟩ := by
  have bare : Pattern.IsBare name := ⟨by simpa using literal.first [], literal.last []⟩
  rw [ofLine?_bare bare, globOf?_plain literal.isPlain (literal.ne_stars [])]
  have read : Glob.readTimes ⟨[], [], [.leading], some '/'⟩ (2 + name.length) name = _ :=
    Glob.readTimes_spelled_end literal.spelled rfl
  rw [Nat.add_comm] at read
  have started : Glob.read ("**/".toList ++ name) =
      Glob.readTimes ⟨[], [], [.leading], some '/'⟩ (name.length + 2) name := rfl
  rw [started, read]
  rfl

theorem ofLine?_ending (literal : Pattern.IsLiteral name) :
    ofLine? ('!' :: '*' :: name) = some ⟨.leading :: .star :: name.map .literal, true, false⟩ := by
  have bare : Pattern.IsBare ('*' :: name) := ⟨by simp, literal.last ['*']⟩
  have plain : Pattern.IsPlain ('*' :: name) :=
    List.forall_mem_cons.2 ⟨by decide, literal.isPlain⟩
  have read : Glob.readTimes ⟨[], [], [.star, .leading], some '*'⟩ (2 + name.length) name = _ :=
    Glob.readTimes_spelled_end literal.spelled rfl
  have started : Glob.read ("**/".toList ++ '*' :: name) =
      Glob.readTimes ⟨[], [], [.star, .leading], some '*'⟩ (name.length + 2) name := by
    obtain ⟨c, more, rfl⟩ := List.exists_cons_of_ne_nil literal.1
    have single : c ≠ '*' := by
      rintro rfl
      exact absurd (literal.spelled '*' List.mem_cons_self) (by decide)
    have behind : Glob.readTimes ⟨[], [], [.leading], some '/'⟩ (more.length + 1 + 2 + 1) ('*' :: c :: more) =
        Glob.readTimes ⟨[], [], [.star, .leading], some '*'⟩ (more.length + 1 + 2) (c :: more) := by
      rw [Glob.readTimes]
      · rfl
      · intro rest shape
        exact single (List.cons.inj shape).1
    exact behind
  rw [ofLine?_bare bare, globOf?_plain plain (literal.ne_stars ['*']), started, Nat.add_comm, read]
  rfl

theorem ofLine?_below (literal : Pattern.IsLiteral name) :
    ofLine? ('!' :: (name ++ "/**".toList)) = some ⟨name.map .literal ++ [.between, .star], true, false⟩ := by
  have bare : Pattern.IsBare (name ++ "/**".toList) := ⟨literal.first _, name ++ "/*".toList, '*', by simp, by decide⟩
  have below : globOf? false (name ++ "/**".toList) = Glob.read (name ++ "/**/*".toList) := by
    have slash : (name ++ "/**".toList).contains '/' = true := by simp
    have inside : "/**".toList.isSuffixOf (name ++ "/**".toList) = true := by simp
    simp only [globOf?, slash, inside, Bool.or_true, Bool.true_or, if_true, List.append_assoc]
    rfl
  have read : Glob.readTimes .start (5 + name.length) (name ++ "/**/*".toList) = _ :=
    Glob.readTimes_spelled .start 5 literal.spelled
  have length : (name ++ "/**/*".toList).length = 5 + name.length := by simp [Nat.add_comm]
  obtain ⟨braces, branches⟩ := Glob.Reading.start.braces_spell name
  have tokens := Glob.Reading.start.tokens_spell name
  rw [ofLine?_bare bare, below, Glob.read, length, read]
  generalize Glob.Reading.spell .start name = reading at braces branches tokens
  obtain ⟨_, _, _, last⟩ := reading
  simp only at braces branches tokens
  subst braces branches tokens
  have behind : Glob.readTimes ⟨[], [], (name.map .literal).reverse ++ [], last⟩ 5 "/**/*".toList =
      some (.star :: .between :: ((name.map .literal).reverse ++ [])).reverse := rfl
  rw [Glob.Reading.start, behind]
  simp

end Rule

/-! ## Matching -/

def Rule.globMatches (pattern : Text) (place : List Text) (isDirectory : Bool) : Bool :=
  (Rule.ofLine? pattern).any fun rule =>
    (isDirectory || !rule.onlyDirectories) && Glob.isMatch rule.glob (Text.join ['/'] place)

namespace Rule

variable {pattern name base : Text} {front : List Text} {rule : Rule} {patterns : List Text} {place : List Text}
  {isDirectory : Bool}

theorem globMatches_eq (read : ofLine? pattern = some rule) : globMatches pattern place isDirectory =
    ((isDirectory || !rule.onlyDirectories) && Glob.isMatch rule.glob (Text.join ['/'] place)) := by
  rw [globMatches, read, Option.any_some]

/-- As overrides, rules say the opposite of what they say in an ignore file. -/
theorem overrides_eq (accepted : ∀ pattern ∈ patterns, (ofLine? pattern).isSome = true) :
    overrides (patterns.filterMap ofLine?) = Pattern.lastDecides globMatches patterns := by
  funext place isDirectory
  have last : (patterns.filterMap ofLine?).reverse.find? (fun rule =>
      (isDirectory || !rule.onlyDirectories) && Glob.isMatch rule.glob (Text.join ['/'] place)) =
        (patterns.reverse.find? (globMatches · place isDirectory)).bind ofLine? := by
    rw [← List.filterMap_reverse, List.find?_filterMap]
    rfl
  have plain : (patterns.filterMap ofLine?).any (! ·.keeps) = patterns.any (! Pattern.isNegated ·) := by
    rw [List.any_filterMap, Bool.eq_iff_iff, List.any_eq_true, List.any_eq_true]
    refine exists_congr fun pattern => and_congr_right fun inside => ?_
    obtain ⟨rule, read⟩ := Option.isSome_iff_exists.1 (accepted pattern inside)
    simp only [read, keeps_of_ofLine? read]
  unfold overrides verdict Pattern.lastDecides
  rw [last, plain]
  cases found : patterns.reverse.find? (globMatches · place isDirectory) with
  | none => rfl
  | some pattern =>
      have inside := List.mem_reverse.1 (List.mem_of_find?_eq_some found)
      obtain ⟨rule, read⟩ := Option.isSome_iff_exists.1 (accepted pattern inside)
      rw [Option.bind_some, read, Option.map_some, keeps_of_ofLine? read]
      cases negated : Pattern.isNegated pattern <;> simp [negated]

theorem globMatches_literal (literal : Pattern.IsLiteral name) :
    globMatches ('!' :: name) (front ++ [name]) isDirectory = true := by
  have isFlat := Glob.flat_literals literal.isPlain.slashless
  have whole := Glob.matchTokens_literals_self name
  rw [globMatches_eq (ofLine?_literal literal), Glob.isMatch_leading isFlat]
  obtain ⟨c, more, rfl⟩ := List.exists_cons_of_ne_nil literal.1
  rw [List.map_cons, Glob.isMatch_leading_cons, ← List.map_cons, whole]
  simp

theorem globMatches_ending (literal : Pattern.IsLiteral name) (slashless : '/' ∉ base) :
    globMatches ('!' :: '*' :: name) (front ++ [base ++ name]) isDirectory = true := by
  have star : Glob.Token.star.isFlat = true := by rw [Glob.Token.isFlat]
  have isFlat : Glob.flat (.star :: name.map .literal) = true :=
    Glob.flat_cons.2 ⟨star, Glob.flat_literals literal.isPlain.slashless⟩
  have inFront : ∀ c ∈ base, (c != '/') = true := by
    intro c inside
    rw [bne_iff_ne]
    rintro rfl
    exact slashless inside
  have starred := Glob.afterSome_append inFront (Glob.matchTokens_literals_self name)
  rw [globMatches_eq (ofLine?_ending literal), Glob.isMatch_leading isFlat, Glob.isMatch_leading_cons, Glob.matchTokens,
    Glob.matchToken, starred]
  simp

theorem eq_of_globMatches_below (literal : Pattern.IsLiteral name) {first : Text} {rest : List Text}
    (each : ∀ part ∈ first :: rest, Path.IsName part)
    (found : globMatches ('!' :: (name ++ "/**".toList)) (first :: rest) isDirectory = true) : first = name := by
  have split := Path.parts_join (List.cons_ne_nil first rest) fun part inside => (each part inside).slashless
  rw [globMatches_eq (ofLine?_below literal), Bool.and_eq_true] at found
  replace found := found.2
  generalize Text.join ['/'] (first :: rest) = path at found split
  obtain ⟨behind, rfl⟩ : ∃ behind, path = name ++ '/' :: behind := by
    obtain ⟨c, more, rfl⟩ := List.exists_cons_of_ne_nil literal.1
    obtain ⟨behind, rfl, below⟩ := (Glob.matchTokens_literals (c :: more) [.between, .star] path).1 found
    rw [Glob.matchTokens, Glob.matchToken] at below
    cases behind with
    | nil => cases below
    | cons d behind =>
        rw [Glob.afterChar, Bool.and_eq_true, beq_iff_eq] at below
        exact ⟨behind, by rw [below.1]⟩
  rw [Path.parts_append_slash, Path.parts_of_slashless literal.isPlain.slashless] at split
  exact (List.cons.inj split).1.symm

/-- A pattern that says nothing about the place matches what has a last name that it matches. -/
theorem globMatches_unplaced (unplaced : Pattern.IsUnplaced pattern) :
    globMatches ('!' :: pattern) (front ++ [name]) isDirectory = globMatches ('!' :: pattern) [name] isDirectory := by
  unfold globMatches
  cases read : ofLine? ('!' :: pattern) with
  | none => rfl
  | some rule =>
      obtain ⟨kept, isPrefix, same⟩ := exists_ofLine?_eq pattern
      obtain ⟨tokens, glob, isFlat⟩ := exists_glob_of_unplaced (unplaced.of_prefix isPrefix) (same.symm.trans read)
      have last := Glob.isMatch_leading isFlat [] name
      rw [List.nil_append] at last
      simp only [Option.any_some, glob, Glob.isMatch_leading isFlat front, last]

end Rule

/-- The patterns of the walker that knows the ignore files of Git match as it is asked of a walker's patterns. -/
theorem Walker.gitStyle_matches (fits : List Text → Bool) (globals : GlobalRules) :
    (Walker.gitStyle fits globals).Matches Rule.globMatches where
  build patterns judge accepted built := by
    simp only [Walker.gitStyle, Option.ite_none_right_eq_some, Option.some.injEq] at built
    rw [← built.2, Rule.overrides_eq accepted]
  literal name literal := ⟨by simp [Walker.gitStyle, Rule.ofLine?_literal literal],
    fun _ _ => Rule.globMatches_literal literal⟩
  ending ending literal := ⟨by simp [Walker.gitStyle, Rule.ofLine?_ending literal],
    fun _ _ _ slashless => Rule.globMatches_ending literal slashless⟩
  below _ literal _ _ _ each found := Rule.eq_of_globMatches_below literal each found
  unplaced _ unplaced _ _ _ _ := Rule.globMatches_unplaced unplaced

end Docblock
