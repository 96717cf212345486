import Docblock.Files.Walk
import Docblock.Proofs.Files.Walkers

/-!
# What walks find

The walker that knows the ignore files of Git finds every entry once that nothing leaves out on the way. What ignore
files say about a place is what those in the directories above it say.
-/

set_option autoImplicit false

namespace Docblock

namespace FileTree

def ruleFiles : List (List String) :=
  [[".ignore"], [".gitignore"], [".git", "info", "exclude"]]

inductive Unruled : FileTree → Prop where
  | file (content : ByteArray) : Unruled (.file content)
  | closed (kind : FileKind) : Unruled (.closed kind)
  | directory {entries : List (Text × FileTree)}
      (silent : ∀ names ∈ ruleFiles, ∀ content,
        (directory entries).descend? (names.map String.toList) ≠ some (.file content))
      (each : ∀ entry ∈ entries, Unruled entry.2) : Unruled (.directory entries)

variable {tree inner : FileTree} {names : List Text}

theorem Unruled.each (unruled : tree.Unruled) : ∀ entry ∈ tree.entries, entry.2.Unruled := by
  cases unruled with
  | file => simp [entries]
  | closed => simp [entries]
  | directory silent each => exact each

end FileTree

namespace LocalRules

/-- The rules of a directory that says nothing. -/
def IsSilent (rules : LocalRules) : Prop :=
  rules.ignore = [] ∧ rules.gitignore = [] ∧ rules.gitExclude = []

variable {tree inner : FileTree} {levels : List LocalRules} {depth : Nat} {front names place : List Text}
  {isDirectory : Bool}

theorem rulesAt_eq_nil (unruled : tree.Unruled) {names : List String} (inside : names ∈ FileTree.ruleFiles) :
    rulesAt tree names = [] := by
  unfold rulesAt
  have elsewhere : tree.entries = [] → tree.descend? (names.map String.toList) = none := by
    intro empty
    rw [Option.eq_none_iff_forall_not_mem]
    intro inner found
    obtain ⟨nowhere, -⟩ := (FileTree.descend?_of_entries_eq_nil empty).1 found
    rw [List.map_eq_nil_iff.1 nowhere] at inside
    exact absurd inside (by decide)
  cases unruled with
  | file => rw [elsewhere rfl]; rfl
  | closed => rw [elsewhere rfl]; rfl
  | directory silent =>
      cases found : FileTree.descend? _ (names.map String.toList) with
      | none => rfl
      | some inner =>
          cases inner with
          | directory => rfl
          | closed => rfl
          | file content => exact absurd found (silent names inside content)

theorem isSilent_ofDirectory (unruled : tree.Unruled) (depth : Nat) : (ofDirectory depth tree).IsSilent := by
  have silent : ∀ names ∈ FileTree.ruleFiles, rulesAt tree names = [] :=
    fun names => rulesAt_eq_nil unruled
  simp only [FileTree.ruleFiles, List.mem_cons, List.not_mem_nil, or_false, forall_eq_or_imp, forall_eq] at silent
  exact silent

theorem isSilent_of_mem_above (unruled : tree.Unruled) (silent : ∀ rules ∈ levels, rules.IsSilent) :
    ∀ rules ∈ above levels depth names tree, rules.IsSilent := by
  induction names generalizing tree levels depth with
  | nil => exact silent
  | cons name names induction =>
      rw [above]
      split
      · exact silent
      · next inner found =>
          exact induction (unruled.each _ (FileTree.mem_of_child? found))
            (List.forall_mem_cons.2 ⟨isSilent_ofDirectory unruled depth, silent⟩)

theorem verdictOf_eq_none (kind : LocalRules → List Rule) (silent : ∀ rules ∈ levels, kind rules = []) :
    verdictOf kind levels place isDirectory = none := by
  rw [verdictOf, List.findSome?_eq_none_iff]
  intro rules inside
  rw [silent rules inside]
  rfl

theorem mem_of_mem_inRepository {rules : LocalRules} (inside : rules ∈ inRepository levels) : rules ∈ levels := by
  induction levels with
  | nil => exact inside
  | cons first above induction =>
      rw [inRepository] at inside
      split at inside
      · rw [List.mem_singleton.1 inside]
        exact List.mem_cons_self
      · exact (List.mem_cons.1 inside).elim (fun here => here ▸ List.mem_cons_self)
          fun later => List.mem_cons_of_mem _ (induction later)

theorem gitVerdictOf_eq_none (kind : LocalRules → List Rule) (silent : ∀ rules ∈ levels, kind rules = []) :
    gitVerdictOf kind levels place isDirectory = none := by
  refine verdictOf_eq_none kind fun rules inside => ?_
  split at inside
  · exact silent rules (mem_of_mem_inRepository inside)
  · cases inside

theorem above_append (found : tree.descend? front = some inner) : above levels depth (front ++ names) tree =
    above (above levels depth front tree) (depth + front.length) names inner := by
  induction front generalizing tree levels depth with
  | nil =>
      cases found
      rfl
  | cons name front induction =>
      obtain ⟨child, here, below⟩ := Option.bind_eq_some_iff.1 found
      rw [List.cons_append, above, above, here]
      simp only
      rw [induction below, List.length_cons, Nat.add_right_comm, Nat.add_assoc]

theorem above_concat {name : Text} (found : tree.descend? front = some inner)
    (entry : (inner.child? name).isSome = true) :
    above [] 0 (front ++ [name]) tree = ofDirectory front.length inner :: above [] 0 front tree := by
  obtain ⟨child, here⟩ := Option.isSome_iff_exists.1 entry
  rw [above_append found, above, here]
  simp only [above, Nat.zero_add]

end LocalRules

/-- What is said about places below the directory of a path by the rules in the directories above them. -/
def LocalRules.said (judge : List LocalRules → Judge) (disk : Disk) (directory : Text) : Judge :=
  fun place isDirectory =>
    match disk.locate directory with
    | .error _ => none
    | .ok names => judge (above [] 0 (names ++ place) disk.tree) (names ++ place) isDirectory

def GlobalRules.ignoreFiles (globals : GlobalRules) : IgnoreFiles where
  plain := LocalRules.said (LocalRules.verdictOf LocalRules.ignore)
  gitIgnore := LocalRules.said (LocalRules.gitVerdictOf LocalRules.gitignore)
  gitExclude := LocalRules.said (LocalRules.gitVerdictOf LocalRules.gitExclude)
  gitGlobal := LocalRules.said globals.verdict

theorem GlobalRules.silent_ignoreFiles {globals : GlobalRules} {disk : Disk} (unruled : disk.tree.Unruled)
    (none : globals.rules = []) : globals.ignoreFiles.Silent disk := by
  intro directory place isDirectory
  have nothing : ∀ judge : List LocalRules → Judge, (∀ levels place isDirectory,
      (∀ rules ∈ levels, rules.IsSilent) → judge levels place isDirectory = .none) →
        LocalRules.said judge disk directory place isDirectory = .none := by
    intro judge silent
    unfold LocalRules.said
    split
    · rfl
    · exact silent _ _ _ (LocalRules.isSilent_of_mem_above unruled (by simp))
  refine ⟨nothing _ ?_, nothing _ ?_, nothing _ ?_, nothing _ ?_⟩ <;> intro levels place isDirectory silent
  · exact LocalRules.verdictOf_eq_none _ fun rules inside => (silent rules inside).1
  · exact LocalRules.gitVerdictOf_eq_none _ fun rules inside => (silent rules inside).2.1
  · exact LocalRules.gitVerdictOf_eq_none _ fun rules inside => (silent rules inside).2.2
  · simp [GlobalRules.verdict, none, Rule.verdict]

/-- Whether an entry is found at a place or below it, where a tree is, and nothing is left out on the way there. -/
def Reaches (leavesOut : List Text → Bool → Bool) (place : List Text) (tree : FileTree) (entry : WalkEntry) : Prop :=
  ∃ names inner, entry.place = place ++ names ∧ tree.descend? names = some inner ∧ inner.kind = entry.kind ∧
    allows leavesOut inner.isDirectory place names = true

section Reaches

variable {leavesOut : List Text → Bool → Bool} {place : List Text} {tree : FileTree}
  {entries : List (Text × FileTree)} {entry : WalkEntry}

theorem reaches_leaf_iff (empty : tree.entries = []) :
    Reaches leavesOut place tree entry ↔ entry = ⟨place, tree.kind⟩ := by
  obtain ⟨reached, kind⟩ := entry
  simp only [Reaches, FileTree.descend?_of_entries_eq_nil empty, WalkEntry.mk.injEq]
  constructor
  · rintro ⟨_, _, rfl, ⟨rfl, rfl⟩, rfl, -⟩
    exact ⟨List.append_nil _, rfl⟩
  · rintro ⟨rfl, rfl⟩
    exact ⟨[], tree, (List.append_nil _).symm, ⟨rfl, rfl⟩, rfl, rfl⟩

theorem reaches_directory_iff (distinct : (entries.map Prod.fst).Nodup) :
    Reaches leavesOut place (.directory entries) entry ↔ entry = ⟨place, .directory⟩ ∨
      ∃ child ∈ entries, leavesOut (place ++ [child.1]) child.2.isDirectory = false ∧
        Reaches leavesOut (place ++ [child.1]) child.2 entry := by
  obtain ⟨reached, kind⟩ := entry
  constructor
  · rintro ⟨names, inner, rfl, found, rfl, allowed⟩
    cases names with
    | nil =>
        cases found
        exact .inl (by simp [FileTree.kind])
    | cons name names =>
        obtain ⟨child, here, below⟩ := Option.bind_eq_some_iff.1 found
        rw [allows, Bool.and_eq_true, Bool.not_eq_true', ← FileTree.isDirectory_of_descend? below] at allowed
        exact .inr ⟨(name, child), FileTree.mem_of_child? here, allowed.1, names, inner, by simp, below, rfl, allowed.2⟩
  · rintro (same | ⟨⟨name, child⟩, inside, kept, names, inner, shape, below, same, allowed⟩)
    · cases same
      exact ⟨[], _, by simp, rfl, rfl, rfl⟩
    · have here := (FileTree.child?_eq_some_iff distinct).2 inside
      refine ⟨name :: names, inner, by simpa using shape, ?_, same, ?_⟩
      · rw [FileTree.descend?, here]
        exact below
      · rw [FileTree.isDirectory_of_descend? below] at kept
        rw [allows, allowed, kept]
        rfl

end Reaches

namespace Walk

variable {walk : Walk} {levels : List LocalRules} {place : List Text} {tree top : FileTree}
  {entries : List (Text × FileTree)} {entry : WalkEntry} {found : Option WalkEntry}

/-- A walk through a directory goes from entry to entry. -/
theorem mem_entriesAmong : found ∈ entriesAmong walk levels place entries ↔
    ∃ entry ∈ entries, walk.leavesOut levels (place ++ [entry.1]) entry.2.isDirectory = false ∧
      found ∈ entriesAt walk levels (place ++ [entry.1]) entry.2 := by
  induction entries with
  | nil => simp [entriesAmong]
  | cons entry rest induction =>
      obtain ⟨name, inner⟩ := entry
      rw [entriesAmong, List.mem_append, induction, List.exists_mem_cons_iff]
      refine or_congr ?_ Iff.rfl
      cases walk.leavesOut levels (place ++ [name]) inner.isDirectory <;> simp

theorem mem_entriesAt_closed {kind : FileKind} : some entry ∈ entriesAt walk levels place (.closed kind) ↔
    entry = ⟨place, kind⟩ := by
  rw [entriesAt]
  split <;> simp

def leavesOutBelow (walk : Walk) (top : FileTree) (place : List Text) (isDirectory : Bool) : Bool :=
  walk.leavesOut (LocalRules.above [] 0 (walk.root ++ place) top) place isDirectory

/-- A walk finds what nothing leaves out on the way. -/
theorem mem_entriesAt_iff (proper : tree.Proper) (here : top.descend? (walk.root ++ place) = some tree) :
    some entry ∈ entriesAt walk (LocalRules.above [] 0 (walk.root ++ place) top) place tree ↔
      Reaches (walk.leavesOutBelow top) place tree entry := by
  induction proper generalizing place with
  | file content =>
      rw [reaches_leaf_iff rfl, entriesAt, List.mem_singleton, Option.some.injEq]
      rfl
  | closed kind =>
      rw [reaches_leaf_iff rfl, mem_entriesAt_closed]
      rfl
  | @directory entries named distinct each induction =>
      rw [reaches_directory_iff distinct, entriesAt, List.mem_cons, Option.some.injEq, mem_entriesAmong]
      refine or_congr_right (exists_congr fun ⟨name, tree⟩ => and_congr_right fun inside => ?_)
      have child := (FileTree.child?_eq_some_iff distinct).2 inside
      have levels := LocalRules.above_concat here (by rw [child]; rfl : (FileTree.child? name _).isSome = true)
      have there : top.descend? (walk.root ++ (place ++ [name])) = some tree := by
        rw [← List.append_assoc, FileTree.descend?_append, here]
        simp [FileTree.descend?, child]
      rw [← levels, List.append_assoc, induction _ inside there]
      rfl

theorem prefix_of_mem_entriesAt (proper : tree.Proper) (met : some entry ∈ entriesAt walk levels place tree) :
    place <+: entry.place := by
  induction proper generalizing levels place with
  | file content =>
      rw [entriesAt, List.mem_singleton, Option.some.injEq] at met
      exact met ▸ List.prefix_rfl
  | closed kind => exact mem_entriesAt_closed.1 met ▸ List.prefix_rfl
  | @directory entries named distinct each induction =>
      rw [entriesAt, List.mem_cons, Option.some.injEq, mem_entriesAmong] at met
      rcases met with rfl | ⟨child, inside, -, met⟩
      · exact List.prefix_rfl
      · exact (List.prefix_append _ _).trans (induction child inside met)

theorem exists_of_mem_entriesAmong (proper : ∀ child ∈ entries, child.2.Proper)
    (met : some entry ∈ entriesAmong walk levels place entries) :
    ∃ child ∈ entries, place ++ [child.1] <+: entry.place := by
  obtain ⟨child, inside, -, met⟩ := mem_entriesAmong.1 met
  exact ⟨child, inside, prefix_of_mem_entriesAt (proper child inside) met⟩

theorem nodup_entriesAmong (distinct : (entries.map Prod.fst).Nodup) (proper : ∀ child ∈ entries, child.2.Proper)
    (each : ∀ child ∈ entries, ∀ place, ((entriesAt walk levels place child.2).filterMap id).Nodup) :
    ((entriesAmong walk levels place entries).filterMap id).Nodup := by
  induction entries with
  | nil => exact List.nodup_nil
  | cons entry rest induction =>
      obtain ⟨name, inner⟩ := entry
      obtain ⟨other, later⟩ := List.nodup_cons.1 distinct
      rw [List.forall_mem_cons] at proper each
      have behind := induction later proper.2 each.2
      rw [entriesAmong, List.filterMap_append]
      split
      · exact behind
      · refine (each.1 _).append behind fun entry here there => ?_
        have first := prefix_of_mem_entriesAt proper.1 (by simpa using here)
        obtain ⟨child, inside, second⟩ := exists_of_mem_entriesAmong proper.2 (by simpa using there)
        have same : place ++ [name] = place ++ [child.1] :=
          List.prefix_or_prefix_of_prefix first second |>.elim (List.IsPrefix.eq_of_length · (by simp))
            fun shorter => (shorter.eq_of_length (by simp)).symm
        rw [List.append_cancel_left_eq, List.singleton_inj] at same
        exact other (List.mem_map.2 ⟨child, inside, same.symm⟩)

theorem nodup_entriesAt (proper : tree.Proper) : ((entriesAt walk levels place tree).filterMap id).Nodup := by
  induction proper generalizing levels place with
  | file content => simp [entriesAt]
  | closed kind =>
      rw [entriesAt]
      split <;> simp
  | @directory entries named distinct each induction =>
      rw [entriesAt]
      refine List.nodup_cons.2 ⟨fun met => ?_,
        nodup_entriesAmong distinct each fun child inside place => induction child inside⟩
      obtain ⟨child, -, longer⟩ := exists_of_mem_entriesAmong each (by simpa using met)
      have shorter := longer.length_le
      rw [List.length_append, List.length_singleton] at shorter
      exact Nat.not_succ_le_self _ shorter

end Walk

/-- The walker that knows the ignore files of Git goes through directories as it is asked of walkers. -/
theorem Walker.gitStyle_visits (fits : List Text → Bool) (globals : GlobalRules) :
    (Walker.gitStyle fits globals).Visits globals.ignoreFiles where
  finds disk directory settings entry proper := by
    simp only [Walker.gitStyle, Disk.find_eq_ok_iff]
    cases located : disk.locate directory with
    | error fault => simp
    | ok names =>
        cases found : disk.tree.descend? names with
        | none => simp [found]
        | some tree =>
            have here : disk.tree.descend? (names ++ []) = some tree := by rw [List.append_nil, found]
            have leaves : Walk.leavesOutBelow ⟨names, settings, globals⟩ disk.tree =
                globals.ignoreFiles.leavesOut settings disk directory := by
              funext place isDirectory
              simp only [Walk.leavesOutBelow, Walk.leavesOut, IgnoreFiles.leavesOut, IgnoreFiles.verdict,
                GlobalRules.ignoreFiles, LocalRules.said, located]
              rfl
            have met : some entry ∈ Walk.entriesAt ⟨names, settings, globals⟩
                (LocalRules.above [] 0 (names ++ []) disk.tree) [] tree ↔ _ :=
              Walk.mem_entriesAt_iff (proper.descend? found).1 here
            rw [List.append_nil, leaves] at met
            simp [met, Reaches, found]
  once disk directory settings proper := by
    simp only [Walker.gitStyle]
    split
    · exact List.nodup_nil
    · split
      · exact List.nodup_nil
      · next tree found => exact Walk.nodup_entriesAt (proper.descend? found).1

end Docblock
