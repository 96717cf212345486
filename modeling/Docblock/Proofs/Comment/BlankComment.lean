import Docblock.Proofs.Comment.Wrapping

/-!
# Blank comments

A comment that holds nothing but blanks and at most one star in each line has an empty outline. There is one exception:
in `/**/` the longer opening delimiter takes in the star of the closing one, and a slash is left to be described.
-/

set_option autoImplicit false

namespace Docblock.Comment

open Text Line

/-- The line holds blanks and at most one star. -/
structure IsBare (line : Text) : Prop where
  blank : ∀ c ∈ line, isBlank c = true ∨ c = '*'
  once : line.count '*' ≤ 1

instance (line : Text) : Decidable (IsBare line) :=
  decidable_of_iff ((line.all fun c => isBlank c || c == '*') = true ∧ line.count '*' ≤ 1)
    ⟨fun bare => ⟨by simpa using bare.1, bare.2⟩, fun bare => ⟨by simpa using bare.blank, bare.once⟩⟩

inductive Opener where
  | double
  | single

def Opener.text : Opener → Text
  | .double => ['/', '*', '*']
  | .single => ['/', '*']

/-- A comment without content. -/
structure BlankComment where
  before : Text
  opener : Opener
  lines : List Text
  behind : Text
  before_blank : isBlankText before = true
  lines_bare : ∀ line ∈ lines, IsBare line
  lines_feedless : Feedless lines
  behind_blank : isBlankText behind = true

namespace BlankComment

def body (comment : BlankComment) : Text :=
  unlines comment.lines

def delimited (comment : BlankComment) : Text :=
  comment.opener.text ++ comment.body ++ ['*', '/']

def text (comment : BlankComment) : Text :=
  comment.before ++ (comment.delimited ++ comment.behind)

end BlankComment

/-! ## Bare lines -/

variable {line body : Text} {lines : List Text}

theorem IsBare.tail {c : Char} (bare : IsBare (c :: line)) : IsBare line where
  blank := fun d inside => bare.blank d (List.mem_cons_of_mem c inside)
  once := (List.sublist_cons_self c line).count_le '*' |>.trans bare.once

theorem IsBare.blank_of_starless (bare : IsBare line) (starless : '*' ∉ line) : isBlankText line = true := by
  refine List.all_eq_true.2 fun c inside => ?_
  rcases bare.blank c inside with blank | rfl
  · exact blank
  · exact absurd inside starless

theorem IsBare.blank_stripMarker (bare : IsBare line) : isBlankText (stripMarker line) = true := by
  obtain ⟨blanks, blank, whole⟩ := exists_blank_append_trimStart line
  cases start : trimStart line with
  | nil =>
      have empty := trimStart_eq_nil_iff.1 start
      rwa [stripMarker_of_blank empty]
  | cons c rest =>
      have inside : c ∈ line := by
        rw [whole, start]
        simp
      have visible := isBlank_of_head?_trimStart (s := line) (congrArg List.head? start)
      rcases bare.blank c inside with blankHere | rfl
      · rw [visible] at blankHere
        cases blankHere
      -- no other star follows this one
      have once := bare.once
      rw [whole, start, List.count_append, List.count_cons_self] at once
      have starless : '*' ∉ rest := List.count_eq_zero.1 (by omega)
      have later : IsBare rest := by
        constructor
        · intro d member
          exact bare.blank d (by rw [whole, start]; simp [member])
        · omega
      have blankRest := later.blank_of_starless starless
      unfold stripMarker
      rw [start]
      split
      · next same =>
          cases same
          rw [isBlankText_cons, Bool.and_eq_true] at blankRest
          exact blankRest.2
      · next same =>
          cases same
          exact blankRest
      · next other => exact absurd rfl (other rest)

theorem ofLines_empty (count : Nat) : Outline.ofLines (List.replicate count []) = ⟨[], [], [], []⟩ := by
  have none := Outline.ofLines_append_empty [] count
  rw [List.nil_append] at none
  rw [none, Outline.ofLines, Prose.read_nil]
  rfl

theorem ofBody_bare (bare : ∀ line ∈ pieces body, IsBare line) :
    Outline.ofBody true body = ⟨[], [], [], []⟩ := by
  have blank : ∀ line ∈ (pieces body).map (unmarked true), isBlankText line = true := by
    intro line inside
    obtain ⟨piece, member, rfl⟩ := List.mem_map.1 inside
    exact (bare piece member).blank_stripMarker
  have empty : tidy ((pieces body).map (unmarked true)) = List.replicate (pieces body).length [] := by
    have surrounded : tidy ((pieces body).map (unmarked true) ++ [] ++ []) = _ := tidy_surrounded blank (by simp)
    simpa [tidy] using surrounded
  obtain ⟨count, prepared⟩ := exists_prepare_append true body
  calc Outline.ofBody true body
      = Outline.ofLines (prepare true body ++ List.replicate count []) :=
        (Outline.ofLines_append_empty _ _).symm
    _ = ⟨[], [], [], []⟩ := by rw [prepared, empty, ofLines_empty]

theorem bare_behind_star (bare : ∀ line ∈ pieces ('*' :: body), IsBare line) :
    ∀ line ∈ pieces body, IsBare line := by
  cases shape : pieces body with
  | nil => exact absurd shape (pieces_ne_nil body)
  | cons first more =>
      have whole : pieces ('*' :: body) = ('*' :: first) :: more := by
        rw [pieces, if_neg (by decide), shape]
      rw [whole, List.forall_mem_cons] at bare
      rw [List.forall_mem_cons]
      exact ⟨bare.1.tail, bare.2⟩

/-! ## Delimiters -/

theorem stripDelimiters_trim (text : Text) : stripDelimiters (trim text) = stripDelimiters text := by
  simp only [stripDelimiters, trim_trim]

theorem trim_delimited (opener : Opener) (body : Text) :
    trim (opener.text ++ body ++ ['*', '/']) = opener.text ++ body ++ ['*', '/'] := by
  have slash : isBlank '/' = false := by decide
  cases opener with
  | double =>
      have trimmed := trim_bracketed slash slash (['*', '*'] ++ body ++ ['*'])
      simpa [Opener.text] using trimmed
  | single =>
      have trimmed := trim_bracketed slash slash (['*'] ++ body ++ ['*'])
      simpa [Opener.text] using trimmed

theorem stripDelimiters_single (other : (body ++ ['*', '/']).head? ≠ some '*') :
    stripDelimiters (['/', '*'] ++ body ++ ['*', '/']) = body := by
  have trimmed : trim (['/', '*'] ++ body ++ ['*', '/']) = ['/', '*'] ++ body ++ ['*', '/'] :=
    trim_delimited .single body
  have longer : stripPrefix ['/', '*', '*'] (['/', '*'] ++ body ++ ['*', '/']) = none := by
    rw [Option.eq_none_iff_forall_not_mem]
    intro rest found
    have shape := stripPrefix_eq_some_iff.1 found
    simp only [List.cons_append, List.nil_append, List.cons.injEq, true_and] at shape
    exact other (by rw [shape]; rfl)
  have opened : stripPrefix ['/', '*'] (['/', '*'] ++ body ++ ['*', '/']) = some (body ++ ['*', '/']) :=
    stripPrefix_eq_some_iff.2 (by simp)
  have closed : stripSuffix ['*', '/'] (body ++ ['*', '/']) = some body := stripSuffix_eq_some_iff.2 rfl
  simp only [stripDelimiters, trimmed, longer, opened, Option.none_or, Option.getD_some, closed]

namespace BlankComment

variable (comment : BlankComment)

theorem trim_text : trim comment.text = comment.delimited := by
  rw [text, trim_blank_append comment.before_blank, trim_append_blank comment.behind_blank, delimited, trim_delimited]

theorem bare_body : ∀ line ∈ pieces comment.body, IsBare line := by
  by_cases none : comment.lines = []
  · intro line inside
    rw [body, none] at inside
    cases List.mem_singleton.1 inside
    exact ⟨by simp, by simp⟩
  · rw [body, pieces_unlines comment.lines_feedless none]
    exact comment.lines_bare

/-- What is left without the delimiters has bare lines, but for the shortest comment. -/
theorem bare_stripDelimiters (other : comment.delimited ≠ "/**/".toList) :
    ∀ line ∈ pieces (stripDelimiters comment.delimited), IsBare line := by
  have bare := comment.bare_body
  rw [delimited] at other ⊢
  generalize comment.body = body at bare other ⊢
  cases opener : comment.opener with
  | double =>
      rw [Opener.text, stripDelimiters_surrounded]
      exact bare
  | single =>
      rw [opener, Opener.text] at other
      rw [Opener.text]
      cases body with
      | nil => exact absurd rfl other
      | cons c body =>
          by_cases star : c = '*'
          · -- this star and the opening delimiter are taken for the longer one
            rw [star] at bare ⊢
            have longer : stripDelimiters (['/', '*'] ++ '*' :: body ++ ['*', '/']) = body :=
              stripDelimiters_surrounded body
            rw [longer]
            exact bare_behind_star bare
          · have shorter : stripDelimiters (['/', '*'] ++ c :: body ++ ['*', '/']) = c :: body :=
              stripDelimiters_single (by simpa using star)
            rw [shorter]
            exact bare

end BlankComment

/-- A blank comment has an empty outline if and only if it is not `/**/`, with or without blanks around it. -/
theorem blank_comment_outline_empty_iff (comment : BlankComment) :
    Outline.ofComment comment.text = ⟨[], [], [], []⟩ ↔ trim comment.text ≠ "/**/".toList := by
  rw [Outline.ofComment, ← stripDelimiters_trim]
  constructor
  · intro empty same
    have slash : (Outline.ofBody true (stripDelimiters "/**/".toList)).description = ['/'] := by decide +kernel
    rw [← same, empty] at slash
    cases slash
  · intro other
    rw [comment.trim_text] at other ⊢
    exact ofBody_bare (comment.bare_stripDelimiters other)

theorem starred_lines_describe_nothing :
    ∃ comment : BlankComment, comment.text = " /**\n *\n\t\n */".toList ∧
      Outline.ofComment comment.text = ⟨[], [], [], []⟩ := by
  have bare : ∀ line ∈ [[], " *".toList, "\t".toList, " ".toList], IsBare line := by decide
  let comment : BlankComment :=
    ⟨[' '], .double, [[], " *".toList, "\t".toList, " ".toList], [], by decide, bare, by simp [Feedless], rfl⟩
  have text : comment.text = " /**\n *\n\t\n */".toList := rfl
  exact ⟨comment, text, (blank_comment_outline_empty_iff comment).2 (by rw [text]; decide)⟩

/-- The shortest comment is blank, and a slash is taken for its description. -/
theorem shortest_comment_describes_slash :
    ∃ comment : BlankComment, comment.text = "/**/".toList ∧
      Outline.ofComment comment.text ≠ ⟨[], [], [], []⟩ ∧
      (Outline.ofComment comment.text).description = "/".toList := by
  have slash : (Outline.ofComment "/**/".toList).description = "/".toList := by decide +kernel
  refine ⟨⟨[], .single, [], [], rfl, by simp, by simp [Feedless], rfl⟩, rfl, ?_, slash⟩
  intro empty
  have same := congrArg Outline.description empty
  have other : (Outline.ofComment "/**/".toList).description = [] := same
  rw [slash] at other
  cases other

end Docblock.Comment
