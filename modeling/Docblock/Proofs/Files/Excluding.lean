import Docblock.Proofs.Files.Collecting
import Docblock.Proofs.Files.Overriding
import Docblock.Proofs.Files.Unclosed

/-!
# Exclusions only take away

A pattern more, or respect for what Git ignores, takes files away from what a walk finds and adds none, as long as the
overrides can be built. What is always left out is left out then whatever the ignore files say.
-/

set_option autoImplicit false

namespace Docblock

namespace Exclusion

variable {walker : Walker} {files : IgnoreFiles} {globMatches : Text → List Text → Bool → Bool}
  {exclusion narrow wide : Exclusion} {disk : Disk} {directory pattern : Text} {place : List Text}
  {isDirectory g : Bool} {P Q : List Text}

theorem verdict_walkSettings : files.verdict (exclusion.walkSettings walker) disk directory place isDirectory =
    (files.plain disk directory place isDirectory).or
      (if exclusion.respectGitignore then
        ((files.gitIgnore disk directory place isDirectory).or (files.gitExclude disk directory place isDirectory)).or
          (files.gitGlobal disk directory place isDirectory)
      else none) := by
  have all : ∀ said : Option Verdict, said.filter (fun _ => true) = said := by
    intro said
    cases said <;> rfl
  simp only [IgnoreFiles.verdict, WalkSettings.git, walkSettings]
  cases exclusion.respectGitignore <;> simp [all]

theorem ignores_of_respects (git : wide.respectGitignore = true → narrow.respectGitignore = true)
    (ignored : files.verdict (wide.walkSettings walker) disk directory place isDirectory = some .ignore) :
    files.verdict (narrow.walkSettings walker) disk directory place isDirectory = some .ignore := by
  rw [verdict_walkSettings] at ignored ⊢
  by_cases respects : wide.respectGitignore = true
  · rw [if_pos respects] at ignored
    rwa [if_pos (git respects)]
  · rw [if_neg respects, Option.or_none] at ignored
    rw [ignored, Option.some_or]

theorem hits_mono (patterns : P ⊆ Q) (hit : hits ⟨P, g⟩ walker globMatches place isDirectory = true) :
    hits ⟨Q, g⟩ walker globMatches place isDirectory = true := by
  obtain ⟨pattern, given, found⟩ := hits_iff.1 hit
  refine hits_iff.2 ⟨pattern, ?_, found⟩
  rw [allPatterns, List.mem_append] at given ⊢
  exact given.imp_right fun own => patterns own

/-- With more patterns more is left out, if the overrides can be built with all of them. -/
theorem leavesOut_mono (laws : walker.Matches globMatches) (patterns : P ⊆ Q)
    (builds : Builds ⟨P, g⟩ walker → Builds ⟨Q, g⟩ walker) (left : leavesOut ⟨P, g⟩ walker place isDirectory = true) :
    leavesOut ⟨Q, g⟩ walker place isDirectory = true := by
  rw [leavesOut_iff laws] at left ⊢
  exact ⟨builds left.1, hits_mono patterns left.2⟩

theorem overrides?_of_refused (refused : walker.accepts ('!' :: pattern) = false) :
    overrides? ⟨P ++ pattern :: Q, g⟩ walker = overrides? ⟨P ++ Q, g⟩ walker := by
  simp [overrides?, allPatterns, refused]

end Exclusion

namespace Disk

open Docblock.Path (components)

variable {disk : Disk} {walker : Walker} {files : IgnoreFiles} {globMatches : Text → List Text → Bool → Bool}
  {exclusion narrow wide : Exclusion} {directory path : Text} {names : List Text}

theorem sourcesBelow_subset (visits : walker.Visits files) (laws : walker.Matches globMatches)
    (proper : disk.tree.Proper)
    (less : ∀ place isDirectory, wide.leavesOut walker place isDirectory = true →
      narrow.leavesOut walker place isDirectory = true)
    (git : wide.respectGitignore = true → narrow.respectGitignore = true) :
    disk.sourcesBelow narrow directory walker ⊆ disk.sourcesBelow wide directory walker := by
  intro path inside
  rw [mem_sourcesBelow_iff visits proper] at inside ⊢
  obtain ⟨tree, names, inner, here, below, isFile, allowed, spelled⟩ := inside
  refine ⟨tree, names, inner, here, below, isFile, allows_mono (fun place isDirectory left => ?_) allowed, spelled⟩
  rw [IgnoreFiles.leavesOut, Exclusion.leavesOut_said laws, Bool.or_eq_true, beq_iff_eq] at left ⊢
  exact left.imp (less place isDirectory) (Exclusion.ignores_of_respects git)

theorem sourcesBelow_congr (visits : walker.Visits files) (laws : walker.Matches globMatches)
    (proper : disk.tree.Proper)
    (same : ∀ place isDirectory, narrow.leavesOut walker place isDirectory = wide.leavesOut walker place isDirectory)
    (git : narrow.respectGitignore = wide.respectGitignore) :
    disk.sourcesBelow narrow directory walker = disk.sourcesBelow wide directory walker := by
  refine Path.Ascending.eq_of_mem_iff (ascending_sourcesBelow visits proper narrow directory)
    (ascending_sourcesBelow visits proper wide directory) fun path => ⟨fun inside => ?_, fun inside => ?_⟩
  · exact sourcesBelow_subset visits laws proper (fun _ _ left => (same _ _).trans left)
      (fun respects => git.trans respects) inside
  · exact sourcesBelow_subset visits laws proper (fun _ _ left => (same _ _).symm.trans left)
      (fun respects => git.symm.trans respects) inside

/-- If overrides cannot be built it does not matter of what. -/
theorem sourcesBelow_of_not_builds (unbuilt : ¬ narrow.Builds walker) (unbuilt' : ¬ wide.Builds walker)
    (git : narrow.respectGitignore = wide.respectGitignore) :
    disk.sourcesBelow narrow directory walker = disk.sourcesBelow wide directory walker := by
  simp only [Exclusion.Builds, Option.isSome_iff_ne_none, ne_eq, not_not] at unbuilt unbuilt'
  simp only [sourcesBelow, Exclusion.walkSettings, unbuilt, unbuilt', git]

theorem allows_of_allows_said (laws : walker.Matches globMatches) {isDirectory : Bool}
    (allowed : allows (files.leavesOut (exclusion.walkSettings walker) disk directory) isDirectory [] names = true) :
    allows (exclusion.leavesOut walker) isDirectory [] names = true := by
  refine allows_mono (fun place isDirectory left => ?_) allowed
  rw [IgnoreFiles.leavesOut, Exclusion.leavesOut_said laws, left, Bool.true_or]

/-- A source below a directory is a file there. No directory that is always left out lies on the way to it, and its
name does not end like the name of a file that is. -/
theorem usual_of_mem_sourcesBelow (visits : walker.Visits files) (laws : walker.Matches globMatches)
    (proper : disk.tree.Proper) (builds : exclusion.Builds walker)
    (inside : path ∈ disk.sourcesBelow exclusion directory walker) :
    ∃ tree inner file, disk.find directory = .ok tree ∧ tree.descend? inner = some file ∧ file.kind = .file ∧
      components path = components directory ++ inner.map .name ∧
      (∀ name ∈ inner, name ∉ Exclusion.usualDirectories) ∧
      ∀ last ∈ inner.getLast?, ∀ ending ∈ Exclusion.usualEndings, ¬ ending <:+ last := by
  obtain ⟨tree, inner, file, here, below, isFile, allowed, rfl, -⟩ := (mem_sourcesBelow_iff visits proper).1 inside
  have named := ((proper_of_find proper here).descend? below).2
  have free := allows_of_allows_said laws allowed
  refine ⟨tree, inner, file, here, below, isFile, Path.components_through (ne_nil_of_find here) named,
    Exclusion.not_usual_of_allows laws builds free, fun last isLast => ?_⟩
  exact Exclusion.not_usual_ending_of_allows laws builds free isLast
    (named last (List.mem_of_getLast? isLast)).slashless

/-- Exclusions only take away. As long as the overrides can be built, more patterns leave a part of what fewer leave,
in any order and however often they are given; a pattern that is not accepted changes nothing. Where Git is respected a
part is left of what is left where it is not. What is always left out is left out whatever the ignore files say. -/
theorem exclusion_only_removes (visits : walker.Visits files) (laws : walker.Matches globMatches) (disk : Disk)
    (proper : disk.tree.Proper) (directory : Text) :
    (∀ P Q g, Exclusion.Builds ⟨P ++ Q, g⟩ walker →
      disk.sourcesBelow ⟨P ++ Q, g⟩ directory walker ⊆ disk.sourcesBelow ⟨P, g⟩ directory walker) ∧
    (∀ P Q g, (∀ pattern, pattern ∈ P ↔ pattern ∈ Q) →
      (Exclusion.Builds ⟨P, g⟩ walker ↔ Exclusion.Builds ⟨Q, g⟩ walker) →
        disk.sourcesBelow ⟨P, g⟩ directory walker = disk.sourcesBelow ⟨Q, g⟩ directory walker) ∧
    (∀ P Q g pattern, walker.accepts ('!' :: pattern) = false →
      disk.sourcesBelow ⟨P ++ pattern :: Q, g⟩ directory walker = disk.sourcesBelow ⟨P ++ Q, g⟩ directory walker) ∧
    (∀ P, disk.sourcesBelow ⟨P, true⟩ directory walker ⊆ disk.sourcesBelow ⟨P, false⟩ directory walker) ∧
    (∀ exclusion, exclusion.Builds walker → ∀ path ∈ disk.sourcesBelow exclusion directory walker,
      ∃ tree inner file, disk.find directory = .ok tree ∧ tree.descend? inner = some file ∧ file.kind = .file ∧
        components path = components directory ++ inner.map .name ∧
        (∀ name ∈ inner, name ∉ Exclusion.usualDirectories) ∧
        ∀ last ∈ inner.getLast?, ¬ ".min.js".toList <:+ last ∧ ¬ ".bundle.js".toList <:+ last) := by
  refine ⟨?_, ?_, ?_, ?_, ?_⟩
  · intro P Q g builds
    exact sourcesBelow_subset visits laws proper
      (fun _ _ => Exclusion.leavesOut_mono laws (List.subset_append_left P Q) fun _ => builds) id
  · intro P Q g same builds
    refine sourcesBelow_congr visits laws proper (fun place isDirectory => ?_) rfl
    rw [Bool.eq_iff_iff]
    exact ⟨Exclusion.leavesOut_mono laws (fun pattern => (same pattern).1) builds.1,
      Exclusion.leavesOut_mono laws (fun pattern => (same pattern).2) builds.2⟩
  · intro P Q g pattern refused
    simp only [sourcesBelow, Exclusion.walkSettings, Exclusion.overrides?_of_refused refused]
  · intro P
    exact sourcesBelow_subset visits laws proper (fun _ _ left => left) (fun never => absurd never Bool.false_ne_true)
  · intro exclusion builds path inside
    obtain ⟨tree, inner, file, here, below, isFile, spelled, directories, endings⟩ :=
      usual_of_mem_sourcesBelow visits laws proper builds inside
    refine ⟨tree, inner, file, here, below, isFile, spelled, directories, fun last isLast => ?_⟩
    exact ⟨endings last isLast _ (by decide), endings last isLast _ (by decide)⟩

def repository : Disk where
  tree := .directory [(".git".toList, .directory []), (".gitignore".toList, .file "!dist\n!*.min.js\n".toUTF8),
    ("dist".toList, .directory [("a.js".toList, .file ⟨#[]⟩)]), ("b.min.js".toList, .file ⟨#[]⟩),
    ("c.js".toList, .file ⟨#[]⟩)]
  current := "/".toList

theorem repository_proper : repository.tree.Proper := by
  have dist : FileTree.Proper (.directory [("a.js".toList, .file ⟨#[]⟩)]) :=
    .directory (by decide) (by decide) (by simpa using FileTree.Proper.file _)
  have git : FileTree.Proper (.directory []) := .directory (by decide) (by decide) (by simp)
  refine .directory (by decide) (by decide) ?_
  simpa [List.forall_mem_cons] using ⟨git, FileTree.Proper.file _, dist, FileTree.Proper.file _⟩

theorem repository_sources :
    repository.sourcesBelow ⟨["*.test.js".toList], true⟩ "/".toList = ["/c.js".toList] := by
  have met : Walker.standard.walk repository "/".toList
        (Exclusion.walkSettings ⟨["*.test.js".toList], true⟩ .standard) =
      [some ⟨[], .directory⟩, some ⟨[".gitignore".toList], .file⟩, some ⟨["c.js".toList], .file⟩] := by
    decide +kernel
  exact sourcesBelow_eq_singleton met (by decide +kernel)

/-- The ignore file keeps the directory and the file, and still they are left out. -/
theorem negated_usual_stays_out :
    (GlobalRules.ignoreFiles {}).gitIgnore repository "/".toList ["dist".toList] true = some .keep ∧
    repository.sourcesBelow ⟨["*.test.js".toList] ++ ["[a".toList, "c.js".toList], true⟩ "/".toList ⊆
      ["/c.js".toList] ∧
    repository.sourcesBelow ⟨["*.test.js".toList, "*.test.js".toList], true⟩ "/".toList = ["/c.js".toList] ∧
    repository.sourcesBelow ⟨["*.test.js".toList] ++ "[a".toList :: [], true⟩ "/".toList = ["/c.js".toList] ∧
    ["/c.js".toList] ⊆ repository.sourcesBelow ⟨["*.test.js".toList], false⟩ "/".toList ∧
    ∃ tree inner file, repository.find "/".toList = .ok tree ∧ tree.descend? inner = some file ∧ file.kind = .file ∧
      components "/c.js".toList = components "/".toList ++ inner.map .name ∧
      (∀ name ∈ inner, name ∉ Exclusion.usualDirectories) ∧
      ∀ last ∈ inner.getLast?, ¬ ".min.js".toList <:+ last ∧ ¬ ".bundle.js".toList <:+ last := by
  have sources := repository_sources
  have builds : ∀ exclusion : Exclusion, exclusion.Builds .standard := fun _ => rfl
  have unclosed : Glob.Unclosed "[a".toList := ⟨[], ['a'], rfl, by decide, by decide, by decide⟩
  have visits : Walker.standard.Visits (GlobalRules.ignoreFiles {}) := Walker.gitStyle_visits _ _
  have laws : Walker.standard.Matches Rule.globMatches := Walker.gitStyle_matches _ _
  obtain ⟨fewer, repeated, invalid, git, usual⟩ :=
    exclusion_only_removes visits laws repository repository_proper "/".toList
  refine ⟨by decide +kernel, ?_, ?_, ?_, ?_, ?_⟩
  · rw [← sources]
    exact fewer _ _ true (builds _)
  · rw [← sources]
    exact repeated _ _ true (by simp) (iff_of_true (builds _) (builds _))
  · rw [← sources]
    exact invalid _ _ true _ (Walker.gitStyle_refuses_unclosed _ _ unclosed)
  · rw [← sources]
    exact git _
  · exact usual ⟨["*.test.js".toList], true⟩ (builds _) _ (by rw [sources]; exact List.mem_singleton_self _)

end Disk

end Docblock
