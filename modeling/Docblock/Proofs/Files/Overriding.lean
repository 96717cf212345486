import Docblock.Proofs.Files.Walkers

/-!
# What overrides leave out

An exclusion leaves out what one of its patterns matches, if its overrides can be built; what is always left out is
among them. Ignore files can leave out more, but they take nothing back.
-/

set_option autoImplicit false

namespace Docblock

namespace Exclusion

variable {walker : Walker} {globMatches : Text → List Text → Bool → Bool} {exclusion : Exclusion}
  {name base ending : Text} {front names place : List Text} {isDirectory : Bool} {said : Option Verdict}

def Builds (exclusion : Exclusion) (walker : Walker) : Prop :=
  (exclusion.overrides? walker).isSome = true

/-- Whether overrides leave out a place that no ignore file says anything about. -/
def leavesOut (exclusion : Exclusion) (walker : Walker) (place : List Text) (isDirectory : Bool) : Bool :=
  (exclusion.walkSettings walker).leavesOut none place isDirectory

theorem overrides?_eq : exclusion.overrides? walker =
    walker.build? ((exclusion.allPatterns.filter fun pattern => walker.accepts ('!' :: pattern)).map ('!' :: ·)) := by
  rw [overrides?, List.filter_map]
  rfl

def hits (exclusion : Exclusion) (walker : Walker) (globMatches : Text → List Text → Bool → Bool)
    (place : List Text) (isDirectory : Bool) : Bool :=
  exclusion.allPatterns.any fun pattern =>
    walker.accepts ('!' :: pattern) && globMatches ('!' :: pattern) place isDirectory

theorem hits_iff : exclusion.hits walker globMatches place isDirectory = true ↔
    ∃ pattern ∈ exclusion.allPatterns, walker.accepts ('!' :: pattern) = true ∧
      globMatches ('!' :: pattern) place isDirectory = true := by
  simp only [hits, List.any_eq_true, Bool.and_eq_true]

theorem judge_eq (laws : walker.Matches globMatches) {judge : Judge}
    (built : exclusion.overrides? walker = some judge) :
    judge place isDirectory =
      if exclusion.hits walker globMatches place isDirectory then some .ignore else none := by
  rw [overrides?_eq] at built
  rw [laws.build _ _ ?_ built, Pattern.lastDecides_negated, List.any_filter]
  · rfl
  · simp only [List.mem_map, List.mem_filter]
    rintro _ ⟨pattern, ⟨-, accepted⟩, rfl⟩
    exact accepted

theorem leavesOut_iff (laws : walker.Matches globMatches) : exclusion.leavesOut walker place isDirectory = true ↔
    exclusion.Builds walker ∧ exclusion.hits walker globMatches place isDirectory = true := by
  simp only [leavesOut, WalkSettings.leavesOut, walkSettings, Builds, Option.or_none, Bool.false_and]
  cases built : exclusion.overrides? walker with
  | none => simp
  | some judge =>
      rw [Option.bind_some, judge_eq laws built]
      cases exclusion.hits walker globMatches place isDirectory <;> simp

/-- What ignore files ignore is left out besides; they take nothing back. -/
theorem leavesOut_said (laws : walker.Matches globMatches) :
    (exclusion.walkSettings walker).leavesOut said place isDirectory =
      (exclusion.leavesOut walker place isDirectory || said == some .ignore) := by
  simp only [leavesOut, WalkSettings.leavesOut, walkSettings, Option.or_none, Bool.false_and]
  cases built : exclusion.overrides? walker with
  | none => rcases said with _ | _ | _ <;> rfl
  | some judge =>
      rw [Option.bind_some, judge_eq laws built]
      cases exclusion.hits walker globMatches place isDirectory <;> rcases said with _ | _ | _ <;> rfl

/-! ## What is always left out -/

theorem isLiteral_usualDirectories : ∀ name ∈ usualDirectories, Pattern.IsLiteral name := by
  decide

/-- How the names of files end that are always left out. -/
def usualEndings : List Text :=
  [".min.js", ".bundle.js"].map String.toList

theorem usual_ending : ∀ ending ∈ usualEndings, '*' :: ending ∈ usualFiles ∧ Pattern.IsLiteral ending := by
  decide

theorem leavesOut_usual (laws : walker.Matches globMatches) (builds : exclusion.Builds walker)
    (usual : name ∈ usualDirectories) (front : List Text) (isDirectory : Bool) :
    exclusion.leavesOut walker (front ++ [name]) isDirectory = true := by
  obtain ⟨accepted, found⟩ := laws.literal name (isLiteral_usualDirectories name usual)
  refine (leavesOut_iff laws).2 ⟨builds, hits_iff.2 ⟨name, ?_, accepted, found front isDirectory⟩⟩
  simp only [allPatterns, List.mem_append, List.mem_flatMap]
  exact .inl (.inl ⟨name, usual, by simp⟩)

theorem leavesOut_usual_ending (laws : walker.Matches globMatches) (builds : exclusion.Builds walker)
    (usual : ending ∈ usualEndings) (slashless : '/' ∉ base) (front : List Text) (isDirectory : Bool) :
    exclusion.leavesOut walker (front ++ [base ++ ending]) isDirectory = true := by
  obtain ⟨given, literal⟩ := usual_ending ending usual
  obtain ⟨accepted, found⟩ := laws.ending ending literal
  refine (leavesOut_iff laws).2
    ⟨builds, hits_iff.2 ⟨'*' :: ending, ?_, accepted, found front base isDirectory slashless⟩⟩
  simp only [allPatterns, List.mem_append]
  exact .inl (.inr given)

/-- On an allowed way lies no directory that is always left out. -/
theorem not_usual_of_allows (laws : walker.Matches globMatches) (builds : exclusion.Builds walker)
    (allowed : allows (exclusion.leavesOut walker) isDirectory front names = true) :
    ∀ name ∈ names, name ∉ usualDirectories := by
  intro name inside usual
  obtain ⟨before, after, shape⟩ := List.append_of_mem inside
  have kept := forall_of_allows allowed before name after shape
  rw [leavesOut_usual laws builds usual] at kept
  cases kept

theorem not_usual_ending_of_allows (laws : walker.Matches globMatches) (builds : exclusion.Builds walker)
    (allowed : allows (exclusion.leavesOut walker) isDirectory front names = true)
    (last : name ∈ names.getLast?) (slashless : '/' ∉ name) : ∀ ending ∈ usualEndings, ¬ ending <:+ name := by
  rintro ending usual ⟨base, rfl⟩
  obtain ⟨before, rfl⟩ := List.getLast?_eq_some_iff.1 last
  have kept := forall_of_allows allowed before _ [] rfl
  have bare : '/' ∉ base := fun inside => slashless (List.mem_append_left ending inside)
  rw [leavesOut_usual_ending laws builds usual bare] at kept
  cases kept

end Exclusion

end Docblock
