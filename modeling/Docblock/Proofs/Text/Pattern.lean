import Docblock.Text.Blank

/-!
# Patterns

A pattern is a regular expression with groups. `Pattern.runs` tries it at the beginning of a text and gives all ways
in which it fits, the ones preferred first, so that the match of the pattern is the first of them. What can be taken
does not depend on preferences: `Pattern.mem_runs_iff`.
-/

set_option autoImplicit false

namespace Docblock.Text

inductive Pattern where
  | one (allowed : Char → Bool)
  /-- Characters that are allowed, rather many than few if the pattern is greedy. -/
  | many (greedy : Bool) (allowed : Char → Bool)
  | both (first second : Pattern)
  /-- The inner pattern if it can be had, or nothing. -/
  | maybe (inner : Pattern)
  | group (number : Nat) (inner : Pattern)

namespace Pattern

structure Run where
  taken : Text
  groups : List (Nat × Text)
  rest : Text

def Run.groupText (run : Run) (number : Nat) : Text :=
  (run.groups.lookup number).getD []

/-- The ways to part a text behind allowed characters, the one that takes none first. -/
def splits (allowed : Char → Bool) : Text → List (Text × Text)
  | [] => [([], [])]
  | c :: rest =>
      ([], c :: rest) ::
        if allowed c then (splits allowed rest).map fun halves => (c :: halves.1, halves.2) else []

/-- The ways in which a pattern fits the beginning of a text, in the order in which they are tried. -/
def runs : Pattern → Text → List Run
  | .one _, [] => []
  | .one allowed, c :: rest => if allowed c then [⟨[c], [], rest⟩] else []
  | .many greedy allowed, s =>
      (if greedy then (splits allowed s).reverse else splits allowed s).map fun halves => ⟨halves.1, [], halves.2⟩
  | .both first second, s =>
      (first.runs s).flatMap fun early =>
        (second.runs early.rest).map fun late => ⟨early.taken ++ late.taken, early.groups ++ late.groups, late.rest⟩
  | .maybe inner, s => inner.runs s ++ [⟨[], [], s⟩]
  | .group number inner, s =>
      (inner.runs s).map fun run => { run with groups := (number, run.taken) :: run.groups }

/-- The pattern describes the text as a whole, and its groups take these parts of it. -/
def Describes : Pattern → Text → List (Nat × Text) → Prop
  | .one allowed, s, groups => ∃ c, allowed c = true ∧ s = [c] ∧ groups = []
  | .many _ allowed, s, groups => (∀ c ∈ s, allowed c = true) ∧ groups = []
  | .both first second, s, groups => ∃ front early, first.Describes front early ∧
      ∃ back late, second.Describes back late ∧ s = front ++ back ∧ groups = early ++ late
  | .maybe inner, s, groups => inner.Describes s groups ∨ s = [] ∧ groups = []
  | .group number inner, s, groups => ∃ more, inner.Describes s more ∧ groups = (number, s) :: more

theorem mem_splits_iff {allowed : Char → Bool} {s taken rest : Text} :
    (taken, rest) ∈ splits allowed s ↔ s = taken ++ rest ∧ ∀ c ∈ taken, allowed c = true := by
  induction s generalizing taken with
  | nil =>
      simp only [splits, List.mem_singleton, Prod.mk.injEq, List.nil_eq, List.append_eq_nil_iff]
      constructor
      · rintro ⟨rfl, rfl⟩
        simp
      · exact And.left
  | cons c s induction =>
      rw [splits, List.mem_cons]
      cases taken with
      | nil =>
          have more : ([], rest) ∉
              if allowed c then (splits allowed s).map fun halves => (c :: halves.1, halves.2) else [] := by
            split <;> simp
          simp only [more, or_false, Prod.mk.injEq, true_and, List.nil_append, List.not_mem_nil, false_implies,
            implies_true, and_true]
          exact eq_comm
      | cons d taken =>
          by_cases fits : allowed c = true
          · simp only [fits, if_true, Prod.mk.injEq, reduceCtorEq, false_and, false_or, List.mem_map, Prod.exists,
              List.cons_append, List.cons.injEq, List.forall_mem_cons]
            constructor
            · rintro ⟨early, late, inside, ⟨rfl, rfl⟩, rfl⟩
              obtain ⟨whole, each⟩ := induction.1 inside
              exact ⟨⟨rfl, whole⟩, fits, each⟩
            · rintro ⟨⟨rfl, whole⟩, -, each⟩
              exact ⟨taken, rest, induction.2 ⟨whole, each⟩, ⟨rfl, rfl⟩, rfl⟩
          · simp only [fits, Bool.false_eq_true, if_false, List.not_mem_nil, Prod.mk.injEq, reduceCtorEq, false_and,
              or_false, List.cons_append, List.cons.injEq, List.forall_mem_cons, false_iff]
            rintro ⟨⟨rfl, -⟩, allowed, -⟩
            exact fits allowed

/-- The runs of a pattern on a text are the ways to part the text behind what the pattern describes. -/
theorem mem_runs_iff {pattern : Pattern} {s taken rest : Text} {groups : List (Nat × Text)} :
    ⟨taken, groups, rest⟩ ∈ pattern.runs s ↔ s = taken ++ rest ∧ pattern.Describes taken groups := by
  induction pattern generalizing s taken groups rest with
  | one allowed =>
      simp only [Describes]
      constructor
      · intro inside
        cases s with
        | nil => cases inside
        | cons c s =>
            simp only [runs] at inside
            split at inside
            · next fits =>
                cases List.mem_singleton.1 inside
                exact ⟨rfl, c, fits, rfl, rfl⟩
            · cases inside
      · rintro ⟨rfl, c, fits, rfl, rfl⟩
        simp [runs, fits]
  | many greedy allowed =>
      have ways : ∀ halves, halves ∈ (if greedy then (splits allowed s).reverse else splits allowed s) ↔
          halves ∈ splits allowed s := by
        intro halves
        cases greedy <;> simp
      simp only [runs, Describes, List.mem_map, ways, Prod.exists, mem_splits_iff]
      constructor
      · rintro ⟨early, late, ⟨whole, each⟩, same⟩
        cases same
        exact ⟨whole, each, rfl⟩
      · rintro ⟨whole, each, rfl⟩
        exact ⟨taken, rest, ⟨whole, each⟩, rfl⟩
  | both first second inductionFirst inductionSecond =>
      simp only [runs, Describes, List.mem_flatMap, List.mem_map]
      constructor
      · rintro ⟨⟨front, early, behind⟩, fits, ⟨back, late, left⟩, follows, same⟩
        cases same
        obtain ⟨rfl, described⟩ := inductionFirst.1 fits
        obtain ⟨rfl, later⟩ := inductionSecond.1 follows
        exact ⟨(List.append_assoc ..).symm, front, early, described, back, late, later, rfl, rfl⟩
      · rintro ⟨rfl, front, early, described, back, late, later, rfl, rfl⟩
        rw [List.append_assoc]
        exact ⟨⟨front, early, back ++ rest⟩, inductionFirst.2 ⟨rfl, described⟩, ⟨back, late, rest⟩,
          inductionSecond.2 ⟨rfl, later⟩, rfl⟩
  | maybe inner induction =>
      rw [runs, List.mem_append, List.mem_singleton, induction, Describes]
      constructor
      · rintro (⟨whole, described⟩ | same)
        · exact ⟨whole, .inl described⟩
        · cases same
          exact ⟨rfl, .inr ⟨rfl, rfl⟩⟩
      · rintro ⟨rfl, described | ⟨rfl, rfl⟩⟩
        · exact .inl ⟨rfl, described⟩
        · exact .inr rfl
  | group number inner induction =>
      simp only [runs, Describes, List.mem_map]
      constructor
      · rintro ⟨⟨front, more, behind⟩, fits, same⟩
        cases same
        obtain ⟨whole, described⟩ := induction.1 fits
        exact ⟨whole, more, described, rfl⟩
      · rintro ⟨whole, more, described, rfl⟩
        exact ⟨⟨taken, more, rest⟩, induction.2 ⟨whole, described⟩, rfl⟩

end Pattern

end Docblock.Text
