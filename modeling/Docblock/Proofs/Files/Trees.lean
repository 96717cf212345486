import Mathlib.Data.List.Nodup
import Docblock.Files.Tree
import Docblock.Proofs.Files.PathNames

/-!
# What names lead to

In a tree whose entries have proper names, no two of a directory the same one, names lead to at most one place.
-/

set_option autoImplicit false

namespace Docblock.FileTree

/-- Entries have names, and no two entries of a directory have the same one. -/
inductive Proper : FileTree → Prop where
  | file (content : ByteArray) : Proper (.file content)
  | closed (kind : FileKind) : Proper (.closed kind)
  | directory {entries : List (Text × FileTree)} (named : ∀ entry ∈ entries, Path.IsName entry.1)
      (distinct : (entries.map Prod.fst).Nodup) (each : ∀ entry ∈ entries, Proper entry.2) :
      Proper (.directory entries)

variable {tree inner : FileTree} {entries : List (Text × FileTree)} {name : Text} {names : List Text}

theorem mem_of_child? (found : tree.child? name = some inner) : (name, inner) ∈ tree.entries := by
  obtain ⟨⟨name', inner'⟩, first, rfl⟩ := Option.map_eq_some_iff.1 found
  have same : name' = name := by simpa using List.find?_some first
  exact same ▸ List.mem_of_find?_eq_some first

theorem child?_eq_some_iff (distinct : (entries.map Prod.fst).Nodup) :
    (directory entries).child? name = some inner ↔ (name, inner) ∈ entries := by
  refine ⟨mem_of_child?, fun inside => ?_⟩
  induction entries with
  | nil => cases inside
  | cons entry rest induction =>
      obtain ⟨other, later⟩ := List.nodup_cons.1 distinct
      rcases List.mem_cons.1 inside with rfl | inside
      · simp [child?, FileTree.entries]
      · have differs : (entry.1 == name) = false := by
          rw [beq_eq_false_iff_ne]
          rintro rfl
          exact other (List.mem_map.2 ⟨_, inside, rfl⟩)
        have skipped : (directory (entry :: rest)).child? name = (directory rest).child? name := by
          simp [child?, FileTree.entries, differs]
        rw [skipped, induction later inside]

theorem descend?_append (front : List Text) :
    tree.descend? (front ++ names) = (tree.descend? front).bind (·.descend? names) := by
  induction front generalizing tree with
  | nil => rfl
  | cons name front induction =>
      rw [List.cons_append, descend?, descend?, Option.bind_assoc]
      exact congrArg _ (funext fun inner => induction)

theorem descend?_of_entries_eq_nil (empty : tree.entries = []) :
    tree.descend? names = some inner ↔ names = [] ∧ inner = tree := by
  cases names with
  | nil => simp [descend?, eq_comm]
  | cons => simp [descend?, child?, empty]

theorem isDirectory_of_descend? (found : tree.descend? names = some inner) :
    tree.isDirectory = (inner.isDirectory || !names.isEmpty) := by
  cases names with
  | nil =>
      cases found
      simp
  | cons name names =>
      cases tree with
      | directory => simp [isDirectory, kind]
      | file => cases found
      | closed => cases found

/-- What is below a proper tree is proper, and proper names lead to it. -/
theorem Proper.descend? (proper : tree.Proper) (found : tree.descend? names = some inner) :
    inner.Proper ∧ ∀ name ∈ names, Path.IsName name := by
  induction names generalizing tree with
  | nil =>
      cases found
      exact ⟨proper, by simp⟩
  | cons name names induction =>
      obtain ⟨child, here, below⟩ := Option.bind_eq_some_iff.1 found
      have entry := mem_of_child? here
      cases proper with
      | file => cases entry
      | closed => cases entry
      | directory named distinct each =>
          obtain ⟨proper, further⟩ := induction (each _ entry) below
          exact ⟨proper, List.forall_mem_cons.2 ⟨named _ entry, further⟩⟩

end Docblock.FileTree

namespace Docblock.Disk

variable {disk : Disk} {path : Text} {found : FileTree}

theorem find_eq_ok_iff : disk.find path = .ok found ↔
    ∃ place, disk.locate path = .ok place ∧ disk.tree.descend? place = some found := by
  unfold Disk.find
  cases disk.locate path with
  | error fault => simp [bind, Except.bind]
  | ok place => cases found : disk.tree.descend? place <;> simp [bind, Except.bind, found]

theorem ne_nil_of_find (here : disk.find path = .ok found) : path ≠ [] := by
  rintro rfl
  obtain ⟨place, located, -⟩ := find_eq_ok_iff.1 here
  cases located

theorem proper_of_find (proper : disk.tree.Proper) (here : disk.find path = .ok found) : found.Proper := by
  obtain ⟨place, -, below⟩ := find_eq_ok_iff.1 here
  exact (proper.descend? below).1

end Docblock.Disk
