import Mathlib.Data.List.Basic
import Docblock.Language
import Docblock.Files.Path

/-!
# Names in paths

The components of a path through directories are those of the directory it starts from and then the names
it leads through. The language of a file is known from the components of its path.
-/

set_option autoImplicit false

namespace Docblock.Path

/-- A text that can name an entry of a directory. -/
structure IsName (name : Text) : Prop where
  filled : name ≠ []
  notHere : name ≠ ['.']
  notUp : name ≠ ['.', '.']
  slashless : '/' ∉ name

instance (name : Text) : Decidable (IsName name) :=
  decidable_of_iff (name ≠ [] ∧ name ≠ ['.'] ∧ name ≠ ['.', '.'] ∧ '/' ∉ name)
    ⟨fun ⟨filled, notHere, notUp, slashless⟩ => ⟨filled, notHere, notUp, slashless⟩,
      fun ⟨filled, notHere, notUp, slashless⟩ => ⟨filled, notHere, notUp, slashless⟩⟩

variable {directory path name : Text} {names : List Text}

theorem parts_ne_nil (path : Text) : parts path ≠ [] := by
  cases path with
  | nil => simp [parts]
  | cons c rest =>
      rw [parts]
      split
      · simp
      · split <;> simp

theorem parts_append_slash (front rest : Text) :
    parts (front ++ '/' :: rest) = parts front ++ parts rest := by
  induction front with
  | nil => simp [parts]
  | cons c front induction =>
      rw [List.cons_append, parts, parts, induction]
      split
      · rfl
      · obtain ⟨first, more, shape⟩ := List.exists_cons_of_ne_nil (parts_ne_nil front)
        rw [shape]
        rfl

theorem parts_of_slashless (slashless : '/' ∉ path) : parts path = [path] := by
  induction path with
  | nil => rfl
  | cons c rest induction =>
      rw [List.mem_cons, not_or] at slashless
      rw [parts, if_neg (Ne.symm slashless.1), induction slashless.2]

theorem parts_join (any : names ≠ []) (each : ∀ name ∈ names, '/' ∉ name) :
    parts (Text.join ['/'] names) = names := by
  induction names with
  | nil => exact absurd rfl any
  | cons name names induction =>
      have here := parts_of_slashless (each name List.mem_cons_self)
      cases names with
      | nil => simpa [Text.join] using here
      | cons next names =>
          have later := induction (by simp) fun name inside => each name (List.mem_cons_of_mem _ inside)
          rw [Text.join, List.intercalate_cons_cons, List.append_assoc, List.singleton_append,
            parts_append_slash, here]
          exact congrArg (name :: ·) later

namespace Component

theorem names_injective : Function.Injective (List.map Component.name) :=
  List.map_injective_iff.2 fun _ _ => Component.name.inj

theorem exists_append_of_prefix {names reached : List Text}
    (isPrefix : names.map Component.name <+: reached.map .name) : ∃ inner, reached = names ++ inner := by
  obtain ⟨rest, shape⟩ := isPrefix
  obtain ⟨front, inner, rfl, same, -⟩ := List.map_eq_append_iff.1 shape.symm
  exact ⟨inner, by rw [names_injective same]⟩

end Component

def later (parts : List Text) : List Component :=
  (parts.filter fun part => !part.isEmpty && part != ['.']).map componentOf

theorem components_append_slash (filled : directory ≠ []) (rest : Text) :
    components (directory ++ '/' :: rest) = components directory ++ later (parts rest) := by
  obtain ⟨first, more, shape⟩ := List.exists_cons_of_ne_nil (parts_ne_nil directory)
  have absolute : isAbsolute (directory ++ '/' :: rest) = isAbsolute directory := by
    cases directory with
    | nil => exact absurd rfl filled
    | cons => rfl
  simp only [components, countedParts, parts_append_slash, shape, List.cons_append, absolute, later]
  rw [List.map_append, ← List.cons_append, List.filter_append, List.map_append]
  congr 1
  rw [List.filter_map, List.map_map]
  rfl

/-- What is seen from a directory has the components of the directory in front. -/
theorem components_join (filled : directory ≠ []) (relative : isAbsolute path = false) :
    components (join directory path) = components directory ++ later (parts path) := by
  have some : directory.isEmpty = false := by simpa using filled
  simp only [join, relative, some, Bool.or_self, Bool.false_eq_true, if_false]
  split
  · next slash =>
      obtain ⟨front, rfl⟩ := List.getLast?_eq_some_iff.1 slash
      by_cases top : front = []
      · subst top
        have split : parts ('/' :: path) = [] :: parts path := by rw [parts, if_pos rfl]
        simp only [List.nil_append, List.singleton_append, components, countedParts, split, later]
        rw [List.filter_cons_of_pos (by simp [isAbsolute]), List.map_cons, List.filter_map, List.map_map]
        rfl
      · have nothing : later (parts []) = [] := rfl
        rw [List.append_assoc, List.singleton_append, components_append_slash top,
          components_append_slash top, nothing, List.append_nil]
  · exact components_append_slash filled path

theorem componentOf_name (named : IsName name) : componentOf name = .name name := by
  have filled : name.isEmpty = false := by simpa using named.filled
  rw [componentOf, filled, if_neg named.notHere, if_neg named.notUp]
  rfl

theorem later_names (each : ∀ name ∈ names, IsName name) : later names = names.map .name := by
  have counted : (names.filter fun part => !part.isEmpty && part != ['.']) = names := by
    refine List.filter_eq_self.2 fun name inside => ?_
    have filled := (each name inside).filled
    have notHere := (each name inside).notHere
    simp [filled, notHere]
  rw [later, counted]
  exact List.map_congr_left fun name inside => componentOf_name (each name inside)

theorem components_through (filled : directory ≠ []) (each : ∀ name ∈ names, IsName name) :
    components (through directory names) = components directory ++ names.map .name := by
  cases names with
  | nil => simp [through]
  | cons name names =>
      have named := each name List.mem_cons_self
      obtain ⟨c, rest, shape⟩ := List.exists_cons_of_ne_nil named.filled
      have relative : isAbsolute (Text.join ['/'] (name :: names)) = false := by
        have other : c ≠ '/' := by
          rintro rfl
          exact named.slashless (shape ▸ List.mem_cons_self)
        cases names <;> simp [Text.join, List.intercalate, isAbsolute, shape, other]
      have split := parts_join (List.cons_ne_nil name names) fun name inside => (each name inside).slashless
      rw [through, List.isEmpty_cons, if_neg Bool.false_ne_true, components_join filled relative, split,
        later_names each]

end Docblock.Path

namespace Docblock.Language

theorem ofPath?_congr {path other : Text} (same : Path.components path = Path.components other) :
    ofPath? path = ofPath? other := by
  simp only [ofPath?, pathSuffix?, Path.fileName?, same]

end Docblock.Language
