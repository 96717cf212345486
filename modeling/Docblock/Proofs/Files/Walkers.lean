import Docblock.Files.Walker
import Docblock.Proofs.Files.Trees

/-!
# What is asked of a walker

A walker finds what no override and no ignore file leaves out on the way; an override goes before what ignore files say,
and a directory that is left out is not entered. Its overrides are globs of the kind that ignore files have.
-/

set_option autoImplicit false

namespace Docblock

/-! ## Patterns -/

namespace Pattern

def isLetter (c : Char) : Bool :=
  c.isAlphanum || c == '.' || c == '_' || c == '-'

/-- A name that stands for itself as a pattern. -/
def IsLiteral (name : Text) : Prop :=
  name ≠ [] ∧ ∀ c ∈ name, isLetter c = true

instance (name : Text) : Decidable (IsLiteral name) :=
  decidable_of_iff (name ≠ [] ∧ name.all isLetter = true) (by simp [IsLiteral])

/-- Nothing in the pattern is a slash or opens a class. -/
def IsPlain (pattern : Text) : Prop :=
  ∀ c ∈ pattern, c ≠ '/' ∧ c ≠ '['

instance (pattern : Text) : Decidable (IsPlain pattern) :=
  decidable_of_iff ((pattern.all fun c => c != '/' && c != '[') = true) (by simp [IsPlain])

/-- Whether a pattern says nothing about the place: it is plain but for a slash behind it. -/
def IsUnplaced (pattern : Text) : Prop :=
  ∃ name, IsPlain name ∧ (pattern = name ∨ name ≠ [] ∧ pattern = name ++ ['/'])

theorem IsLiteral.isPlain {name : Text} (literal : IsLiteral name) : IsPlain name := by
  refine fun c inside => ⟨?_, ?_⟩
  all_goals
    rintro rfl
    exact absurd (literal.2 _ inside) (by decide)

section IsPlain

variable {c : Char} {pattern front : Text}

theorem IsPlain.head (plain : IsPlain (c :: pattern)) : c ≠ '/' ∧ c ≠ '[' :=
  plain c List.mem_cons_self

theorem IsPlain.tail (plain : IsPlain (c :: pattern)) : IsPlain pattern :=
  fun d inside => plain d (List.mem_cons_of_mem c inside)

theorem IsPlain.slashless (plain : IsPlain pattern) : '/' ∉ pattern :=
  fun inside => (plain '/' inside).1 rfl

theorem IsPlain.of_prefix (plain : IsPlain pattern) (isPrefix : front <+: pattern) : IsPlain front :=
  fun c inside => plain c (isPrefix.subset inside)

theorem IsUnplaced.of_prefix (unplaced : IsUnplaced pattern) (isPrefix : front <+: pattern) : IsUnplaced front := by
  obtain ⟨name, plain, rfl | ⟨filled, rfl⟩⟩ := unplaced
  · exact ⟨front, plain.of_prefix isPrefix, .inl rfl⟩
  · rcases List.prefix_concat_iff.1 isPrefix with rfl | isPrefix
    · exact ⟨name, plain, .inr ⟨filled, rfl⟩⟩
    · exact ⟨front, plain.of_prefix isPrefix, .inl rfl⟩

end IsPlain

def isNegated (pattern : Text) : Bool :=
  pattern.head? == some '!'

/-- What overrides say: the last one that matches decides. What it matches is ignored if it is negated, and kept
otherwise. If some are not negated, a file that none of them matches is ignored. -/
def lastDecides (globMatches : Text → List Text → Bool → Bool) (patterns : List Text) : Judge :=
  fun place isDirectory =>
    match patterns.reverse.find? (globMatches · place isDirectory) with
    | some pattern => some (if isNegated pattern then .ignore else .keep)
    | none => if !isDirectory && patterns.any (! isNegated ·) then some .ignore else none

/-- Where all are negated it does not matter which one is the last. -/
theorem lastDecides_negated (globMatches : Text → List Text → Bool → Bool) (patterns : List Text)
    (place : List Text) (isDirectory : Bool) :
    lastDecides globMatches (patterns.map ('!' :: ·)) place isDirectory =
      if patterns.any (fun pattern => globMatches ('!' :: pattern) place isDirectory) then some .ignore else none := by
  have negated : ∀ pattern ∈ patterns.map ('!' :: ·), isNegated pattern = true := by
    simp [isNegated]
  have mapped : patterns.any (fun pattern => globMatches ('!' :: pattern) place isDirectory) =
      (patterns.map ('!' :: ·)).any (globMatches · place isDirectory) := by
    rw [List.any_map]
    rfl
  rw [mapped]
  generalize patterns.map ('!' :: ·) = patterns at negated
  unfold lastDecides
  cases found : patterns.reverse.find? (globMatches · place isDirectory) with
  | none =>
      have unmatched := List.find?_eq_none.1 found
      have none : patterns.any (! isNegated ·) = false := by simpa using negated
      simp only [none, Bool.and_false, Bool.false_eq_true, if_false]
      rw [if_neg]
      simpa using unmatched
  | some pattern =>
      have inside := List.mem_reverse.1 (List.mem_of_find?_eq_some found)
      simp only [negated pattern inside, if_true]
      rw [if_pos (List.any_eq_true.2 ⟨pattern, inside, List.find?_some found⟩)]

end Pattern

/-! ## Ways -/

/-- Whether nothing is left out on the way along names, which goes on from `front`. All but the last place are
directories; `isDirectory` tells whether the last one is. -/
def allows (leavesOut : List Text → Bool → Bool) (isDirectory : Bool) (front : List Text) : List Text → Bool
  | [] => true
  | name :: names =>
      !leavesOut (front ++ [name]) (isDirectory || !names.isEmpty) &&
        allows leavesOut isDirectory (front ++ [name]) names

section Allows

variable {leavesOut other : List Text → Bool → Bool} {isDirectory : Bool} {front names inner : List Text}

theorem allows_append (further : inner ≠ []) : allows leavesOut isDirectory front (names ++ inner) =
    (allows leavesOut true front names && allows leavesOut isDirectory (front ++ names) inner) := by
  induction names generalizing front with
  | nil => simp [allows]
  | cons name names induction =>
      have goesOn : (!(names ++ inner).isEmpty) = true := by simp [further]
      rw [List.cons_append, allows, allows, induction, goesOn, Bool.or_true, Bool.true_or, Bool.and_assoc,
        List.append_assoc, List.singleton_append]

theorem allows_mono (less : ∀ place isDirectory, leavesOut place isDirectory = true → other place isDirectory = true)
    (allowed : allows other isDirectory front names = true) : allows leavesOut isDirectory front names = true := by
  induction names generalizing front with
  | nil => rfl
  | cons name names induction =>
      rw [allows, Bool.and_eq_true, Bool.not_eq_true'] at allowed ⊢
      refine ⟨?_, induction allowed.2⟩
      rw [← Bool.not_eq_true]
      intro left
      rw [less _ _ left] at allowed
      cases allowed.1

theorem forall_of_allows (allowed : allows leavesOut isDirectory front names = true) :
    ∀ before name after, names = before ++ name :: after →
      leavesOut (front ++ before ++ [name]) (isDirectory || !after.isEmpty) = false := by
  rintro before name after rfl
  rw [allows_append (List.cons_ne_nil _ _), Bool.and_eq_true, allows, Bool.and_eq_true, Bool.not_eq_true'] at allowed
  exact allowed.2.1

end Allows

/-! ## Laws -/

structure IgnoreFiles where
  plain : Disk → Text → Judge
  gitIgnore : Disk → Text → Judge
  gitExclude : Disk → Text → Judge
  gitGlobal : Disk → Text → Judge

namespace IgnoreFiles

variable (files : IgnoreFiles) (settings : WalkSettings) (disk : Disk) (directory : Text)

/-- What ignore files say about a place; those of Git go last. -/
def verdict : Judge := fun place isDirectory =>
  (files.plain disk directory place isDirectory).or
    (settings.git (files.gitIgnore disk directory place isDirectory)
      (files.gitExclude disk directory place isDirectory) (files.gitGlobal disk directory place isDirectory))

def leavesOut (place : List Text) (isDirectory : Bool) : Bool :=
  settings.leavesOut (files.verdict settings disk directory place isDirectory) place isDirectory

/-- On the disk no ignore file says anything. -/
def Silent : Prop :=
  ∀ directory place isDirectory,
    files.plain disk directory place isDirectory = none ∧ files.gitIgnore disk directory place isDirectory = none ∧
      files.gitExclude disk directory place isDirectory = none ∧ files.gitGlobal disk directory place isDirectory = none

end IgnoreFiles

/-- On a disk with proper names a walker finds what it can get to, each entry once. -/
structure Walker.Visits (walker : Walker) (files : IgnoreFiles) : Prop where
  finds : ∀ disk directory settings entry, disk.tree.Proper →
    (some entry ∈ walker.walk disk directory settings ↔
      ∃ tree inner, disk.find directory = .ok tree ∧ tree.descend? entry.place = some inner ∧ inner.kind = entry.kind ∧
        allows (files.leavesOut settings disk directory) inner.isDirectory [] entry.place = true)
  once : ∀ disk directory settings, disk.tree.Proper →
    ((walker.walk disk directory settings).filterMap id).Nodup

/-- Of several overrides the last one that matches decides. A negated pattern is matched without its mark: a literal
name matches what has it at any depth, a star stands for any front of a name, two stars for what is below, and a pattern
that says nothing about the place asks for the last name only. -/
structure Walker.Matches (walker : Walker) (globMatches : Text → List Text → Bool → Bool) : Prop where
  build : ∀ patterns judge, (∀ pattern ∈ patterns, walker.accepts pattern = true) →
    walker.build? patterns = some judge → judge = Pattern.lastDecides globMatches patterns
  literal : ∀ name, Pattern.IsLiteral name → walker.accepts ('!' :: name) = true ∧
    ∀ front isDirectory, globMatches ('!' :: name) (front ++ [name]) isDirectory = true
  ending : ∀ ending, Pattern.IsLiteral ending → walker.accepts ('!' :: '*' :: ending) = true ∧
    ∀ front base isDirectory, '/' ∉ base →
      globMatches ('!' :: '*' :: ending) (front ++ [base ++ ending]) isDirectory = true
  below : ∀ name, Pattern.IsLiteral name → ∀ first rest isDirectory, (∀ part ∈ first :: rest, Path.IsName part) →
    globMatches ('!' :: (name ++ "/**".toList)) (first :: rest) isDirectory = true → first = name
  unplaced : ∀ pattern, Pattern.IsUnplaced pattern → ∀ front name isDirectory,
    (∀ part ∈ front ++ [name], Path.IsName part) →
      globMatches ('!' :: pattern) (front ++ [name]) isDirectory = globMatches ('!' :: pattern) [name] isDirectory

end Docblock
