import Docblock.Proofs.Files.Collecting
import Docblock.Proofs.Files.Matching
import Docblock.Proofs.Files.Overriding

/-!
# What a directory selects of what the root selects

A walk matches patterns against paths from the directory that it begins in. So a directory that is named
selects its part of the whole if the patterns say the same about the paths from there as about those from
the root, and otherwise it does not. Patterns that say nothing about the place do.
-/

set_option autoImplicit false

namespace Docblock

/-! ## Patterns that say nothing about the place -/

namespace Exclusion

variable {walker : Walker} {globMatches : Text → List Text → Bool → Bool} {exclusion : Exclusion}
  {front other names : List Text} {name : Text} {isDirectory : Bool}

/-- Whether names do not begin with a directory that is always left out. -/
def Enters (names : List Text) : Prop :=
  ∀ first ∈ names.head?, first ∉ usualDirectories

theorem enters_nil : Enters [] :=
  fun _ none => nomatch none

theorem Enters.concat (enters : Enters front) (unusual : name ∉ usualDirectories) : Enters (front ++ [name]) := by
  cases front with
  | cons first front => exact enters
  | nil =>
      rintro first ⟨⟩
      exact unusual

theorem isPlain_usualFiles : ∀ pattern ∈ usualFiles, Pattern.IsPlain pattern := by
  decide

theorem hits_of_hits_append (laws : walker.Matches globMatches)
    (unplaced : ∀ pattern ∈ exclusion.patterns, Pattern.IsUnplaced pattern) (enters : Enters (front ++ [name]))
    (each : ∀ part ∈ front ++ [name], Path.IsName part) (each' : ∀ part ∈ other ++ [name], Path.IsName part)
    (hit : exclusion.hits walker globMatches (front ++ [name]) isDirectory = true) :
    exclusion.hits walker globMatches (other ++ [name]) isDirectory = true := by
  obtain ⟨pattern, given, accepted, found⟩ := hits_iff.1 hit
  have general (plain : Pattern.IsUnplaced pattern) :
      exclusion.hits walker globMatches (other ++ [name]) isDirectory = true := by
    refine hits_iff.2 ⟨pattern, given, accepted, ?_⟩
    rw [laws.unplaced _ plain _ _ _ each']
    rwa [laws.unplaced _ plain _ _ _ each] at found
  simp only [allPatterns, List.mem_append, List.mem_flatMap, List.mem_cons, List.not_mem_nil, or_false] at given
  rcases given with (⟨directory, usual, rfl | rfl⟩ | file) | own
  · obtain ⟨first, rest, shape⟩ := List.exists_cons_of_ne_nil (List.concat_ne_nil name front)
    rw [shape] at each enters found
    have same := laws.below directory (isLiteral_usualDirectories directory usual) first rest isDirectory each found
    exact absurd usual (same ▸ enters first rfl)
  · exact general ⟨_, (isLiteral_usualDirectories _ usual).isPlain, .inl rfl⟩
  · exact general ⟨_, isPlain_usualFiles _ file, .inl rfl⟩
  · exact general (unplaced _ own)

theorem leavesOut_append_congr (laws : walker.Matches globMatches) (builds : exclusion.Builds walker)
    (unplaced : ∀ pattern ∈ exclusion.patterns, Pattern.IsUnplaced pattern)
    (enters : Enters front) (enters' : Enters other)
    (each : ∀ part ∈ front ++ [name], Path.IsName part) (each' : ∀ part ∈ other ++ [name], Path.IsName part) :
    exclusion.leavesOut walker (front ++ [name]) isDirectory =
      exclusion.leavesOut walker (other ++ [name]) isDirectory := by
  by_cases usual : name ∈ usualDirectories
  · rw [leavesOut_usual laws builds usual, leavesOut_usual laws builds usual]
  · rw [Bool.eq_iff_iff, leavesOut_iff laws, leavesOut_iff laws]
    exact and_congr_right fun _ =>
      ⟨hits_of_hits_append laws unplaced (enters.concat usual) each each',
        hits_of_hits_append laws unplaced (enters'.concat usual) each' each⟩

theorem not_usual_of_kept (laws : walker.Matches globMatches) (builds : exclusion.Builds walker)
    (kept : exclusion.leavesOut walker (front ++ [name]) isDirectory = false) : name ∉ usualDirectories := by
  intro usual
  rw [leavesOut_usual laws builds usual] at kept
  cases kept

/-- Patterns that say nothing about the place allow the same from everywhere. -/
theorem allows_congr (laws : walker.Matches globMatches)
    (unplaced : ∀ pattern ∈ exclusion.patterns, Pattern.IsUnplaced pattern)
    (enters : exclusion.Builds walker → Enters front) (enters' : exclusion.Builds walker → Enters other)
    (each : ∀ part ∈ front ++ names, Path.IsName part) (each' : ∀ part ∈ other ++ names, Path.IsName part) :
    allows (exclusion.leavesOut walker) isDirectory front names =
      allows (exclusion.leavesOut walker) isDirectory other names := by
  induction names generalizing front other with
  | nil => rfl
  | cons name names induction =>
      rw [← List.singleton_append, ← List.append_assoc] at each each'
      have same : ∀ isDirectory, exclusion.leavesOut walker (front ++ [name]) isDirectory =
          exclusion.leavesOut walker (other ++ [name]) isDirectory := by
        intro isDirectory
        by_cases builds : exclusion.Builds walker
        · exact leavesOut_append_congr laws builds unplaced (enters builds) (enters' builds)
            (List.forall_mem_append.1 each).1 (List.forall_mem_append.1 each').1
        · rw [Bool.eq_iff_iff, leavesOut_iff laws, leavesOut_iff laws]
          simp [builds]
      rw [allows, allows, same]
      cases kept : exclusion.leavesOut walker (other ++ [name]) (isDirectory || !names.isEmpty) with
      | true => rfl
      | false =>
          have further := induction
            (fun builds => (enters builds).concat (not_usual_of_kept laws builds kept))
            (fun builds => (enters' builds).concat (not_usual_of_kept laws builds kept)) each each'
          rw [further]

theorem enters_of_allows (laws : walker.Matches globMatches) (builds : exclusion.Builds walker)
    (allowed : allows (exclusion.leavesOut walker) isDirectory [] names = true) : Enters names :=
  fun first isFirst => not_usual_of_allows laws builds allowed first (List.mem_of_head? isFirst)

end Exclusion

/-! ## Directories -/

namespace Disk

open Docblock.Path (components Ascending)

variable {disk : Disk} {walker : Walker} {files : IgnoreFiles} {globMatches : Text → List Text → Bool → Bool}
  {exclusion : Exclusion} {directory root path : Text} {names place : List Text} {tree : FileTree}
  {part whole : List Text} {spelled : List Path.Component}

theorem leavesOut_of_silent (silent : files.Silent disk) :
    files.leavesOut (exclusion.walkSettings walker) disk directory = exclusion.leavesOut walker := by
  funext place isDirectory
  obtain ⟨plain, gitIgnore, gitExclude, gitGlobal⟩ := silent directory place isDirectory
  simp [IgnoreFiles.leavesOut, IgnoreFiles.verdict, plain, gitIgnore, gitExclude, gitGlobal, WalkSettings.git,
    Exclusion.leavesOut]

theorem mem_map_sourcesBelow_iff (visits : walker.Visits files) (silent : files.Silent disk) (proper : disk.tree.Proper)
    (here : disk.find directory = .ok tree) : spelled ∈ (disk.sourcesBelow exclusion directory walker).map components ↔
      ∃ names inner, tree.descend? names = some inner ∧ inner.kind = .file ∧
        allows (exclusion.leavesOut walker) false [] names = true ∧ spelled = components directory ++ names.map .name ∧
        (Language.ofPath? (Path.through directory names)).isSome = true := by
  have through : ∀ {names inner}, tree.descend? names = some inner →
      components (Path.through directory names) = components directory ++ names.map .name := fun below =>
    Path.components_through (ne_nil_of_find here) ((proper_of_find proper here).descend? below).2
  simp only [List.mem_map, mem_sourcesBelow_iff visits proper, leavesOut_of_silent silent]
  constructor
  · rintro ⟨_, ⟨tree', names, inner, here', below, isFile, allowed, rfl, supported⟩, rfl⟩
    obtain rfl : tree = tree' := Except.ok.inj (here.symm.trans here')
    exact ⟨names, inner, below, isFile, allowed, through below, supported⟩
  · rintro ⟨names, inner, below, isFile, allowed, rfl, supported⟩
    exact ⟨_, ⟨tree, names, inner, here, below, isFile, allowed, rfl, supported⟩, through below⟩

def isUnder (directory path : Text) : Bool :=
  (components directory).isPrefixOf (components path)

theorem mem_map_filter_isUnder {paths : List Text} :
    spelled ∈ (paths.filter (isUnder directory)).map components ↔
      spelled ∈ paths.map components ∧ components directory <+: spelled := by
  simp only [List.mem_map, List.mem_filter, isUnder, List.isPrefixOf_iff_prefix]
  constructor
  · rintro ⟨file, ⟨inside, under⟩, rfl⟩
    exact ⟨⟨file, inside, rfl⟩, under⟩
  · rintro ⟨⟨file, inside, rfl⟩, under⟩
    exact ⟨file, ⟨inside, under⟩, rfl⟩

theorem mem_map_collect_directory_iff (visits : walker.Visits files) (silent : files.Silent disk)
    (proper : disk.tree.Proper) (here : disk.find (Path.join root path) = .ok tree)
    (isDirectory : tree.kind = .directory)
    (selected : disk.collect exclusion root [path] walker = .ok part) : spelled ∈ part.map components ↔
      ∃ names inner, tree.descend? names = some inner ∧ inner.kind = .file ∧
        allows (exclusion.leavesOut walker) false [] names = true ∧
        spelled = components (Path.join root path) ++ names.map .name ∧
        (Language.ofPath? (Path.through (Path.join root path) names)).isSome = true := by
  rw [mem_collect_iff (List.cons_ne_nil path []) selected, ← mem_map_sourcesBelow_iff visits silent proper here]
  simp [sourcesAt_directory here isDirectory]

/-- What the root selects below a directory that it allows, up to how it is spelled. -/
theorem mem_map_filter_isUnder_iff (visits : walker.Visits files) (silent : files.Silent disk)
    (proper : disk.tree.Proper) (rooted : disk.locate root = .ok place)
    (located : disk.locate directory = .ok (place ++ names))
    (below : components directory = components root ++ names.map .name)
    (found : disk.tree.descend? (place ++ names) = some tree) (isDirectory : tree.kind = .directory)
    (allowed : allows (exclusion.leavesOut walker) true [] names = true) :
    spelled ∈ ((disk.sourcesBelow exclusion root walker).filter (isUnder directory)).map components ↔
      ∃ inner file, tree.descend? inner = some file ∧ file.kind = .file ∧
        allows (exclusion.leavesOut walker) false names inner = true ∧
        spelled = components directory ++ inner.map .name ∧
        (Language.ofPath? (Path.through directory inner)).isSome = true := by
  have filled := ne_nil_of_find (find_eq_ok_iff.2 ⟨_, located, found⟩)
  rw [FileTree.descend?_append] at found
  obtain ⟨top, atRoot, found⟩ := Option.bind_eq_some_iff.1 found
  have rootFound : disk.find root = .ok top := find_eq_ok_iff.2 ⟨_, rooted, atRoot⟩
  have properRoot := (proper.descend? atRoot).1
  have goesOn : ∀ inner, top.descend? (names ++ inner) = tree.descend? inner := by
    intro inner
    rw [FileTree.descend?_append, found]
    rfl
  have samePath : ∀ inner file, top.descend? (names ++ inner) = some file →
      components (Path.through root (names ++ inner)) = components (Path.through directory inner) := by
    intro inner file there
    have named := (properRoot.descend? there).2
    rw [Path.components_through (ne_nil_of_find rootFound) named,
      Path.components_through filled (List.forall_mem_append.1 named).2, below, List.map_append, List.append_assoc]
  have further : ∀ inner file, tree.descend? inner = some file → file.kind = .file →
      allows (exclusion.leavesOut walker) false [] (names ++ inner) =
        allows (exclusion.leavesOut walker) false names inner := by
    intro inner file there isFile
    have some : inner ≠ [] := by
      rintro rfl
      cases there
      cases isFile.symm.trans isDirectory
    rw [allows_append some, allowed, Bool.true_and, List.nil_append]
  rw [mem_map_filter_isUnder, mem_map_sourcesBelow_iff visits silent proper rootFound, below]
  constructor
  · rintro ⟨⟨reached, file, there, isFile, free, rfl, supported⟩, under⟩
    rw [List.prefix_append_right_inj] at under
    obtain ⟨inner, rfl⟩ := Path.Component.exists_append_of_prefix under
    rw [Language.ofPath?_congr (samePath inner file there)] at supported
    rw [goesOn] at there
    rw [further inner file there isFile] at free
    exact ⟨inner, file, there, isFile, free, by simp, supported⟩
  · rintro ⟨inner, file, there, isFile, free, rfl, supported⟩
    rw [← further inner file there isFile] at free
    rw [← goesOn] at there
    rw [← Language.ofPath?_congr (samePath inner file there)] at supported
    exact ⟨⟨names ++ inner, file, there, isFile, free, by simp, supported⟩, by simp⟩

theorem map_components_collect_directory_iff (visits : walker.Visits files) (silent : files.Silent disk)
    (proper : disk.tree.Proper) (rooted : disk.locate root = .ok place)
    (located : disk.locate (Path.join root path) = .ok (place ++ names))
    (spelled : components (Path.join root path) = components root ++ names.map .name)
    (found : disk.tree.descend? (place ++ names) = some tree) (isDirectory : tree.kind = .directory)
    (allowed : allows (exclusion.leavesOut walker) true [] names = true)
    (selected : disk.collect exclusion root [path] walker = .ok part)
    (all : disk.collect exclusion root [] walker = .ok whole) :
    part.map components = (whole.filter (isUnder (Path.join root path))).map components ↔
      ∀ inner file, tree.descend? inner = some file → file.kind = .file →
        (Language.ofPath? (Path.through (Path.join root path) inner)).isSome = true →
          allows (exclusion.leavesOut walker) false [] inner =
            allows (exclusion.leavesOut walker) false names inner := by
  cases all
  have here : disk.find (Path.join root path) = .ok tree := find_eq_ok_iff.2 ⟨_, located, found⟩
  have inPart : ∀ place, place ∈ part.map components ↔ _ := fun place =>
    mem_map_collect_directory_iff visits silent proper here isDirectory selected
  have inWhole : ∀ place, place ∈ ((disk.sourcesBelow exclusion root walker).filter
      (isUnder (Path.join root path))).map components ↔ _ := fun place =>
    mem_map_filter_isUnder_iff visits silent proper rooted located spelled found isDirectory allowed
  constructor
  · intro same inner file there isFile supported
    rw [Bool.eq_iff_iff]
    have single : ∀ free : List Text → Bool,
        (∃ inner' file, tree.descend? inner' = some file ∧ file.kind = .file ∧ free inner' = true ∧
          components (Path.join root path) ++ inner.map .name =
            components (Path.join root path) ++ inner'.map .name ∧
          (Language.ofPath? (Path.through (Path.join root path) inner')).isSome = true) ↔ free inner = true := by
      intro free
      constructor
      · rintro ⟨inner', _, -, -, allowed, equal, -⟩
        rwa [Path.Component.names_injective (List.append_cancel_left equal)]
      · exact fun allowed => ⟨inner, file, there, isFile, allowed, rfl, supported⟩
    rw [← single, ← single (allows (exclusion.leavesOut walker) false names), ← inPart, ← inWhole, same]
  · intro agree
    refine Ascending.map_components_eq (ascending_collect visits (by simp) selected)
      ((ascending_sourcesBelow visits proper exclusion root).filter _) fun place => ?_
    rw [inPart, inWhole]
    refine exists_congr fun inner => exists_congr fun file =>
      and_congr_right fun there => and_congr_right fun isFile => ?_
    constructor <;> rintro ⟨free, shape, supported⟩ <;> refine ⟨?_, shape, supported⟩
    · rwa [← agree inner file there isFile supported]
    · rwa [agree inner file there isFile supported]

/-- Where no ignore file says anything, a directory that the root allows selects its part of what the root selects just
when the patterns say the same about its files from there as from the root. Patterns that say nothing about the place
do. -/
theorem directory_selects_part_iff (visits : walker.Visits files) (silent : files.Silent disk)
    (laws : walker.Matches globMatches) (proper : disk.tree.Proper) (rooted : disk.locate root = .ok place)
    (located : disk.locate (Path.join root path) = .ok (place ++ names))
    (spelled : components (Path.join root path) = components root ++ names.map .name)
    (found : disk.tree.descend? (place ++ names) = some tree) (isDirectory : tree.kind = .directory)
    (allowed : allows (exclusion.leavesOut walker) true [] names = true) :
    ∃ part whole, disk.collect exclusion root [path] walker = .ok part ∧
      disk.collect exclusion root [] walker = .ok whole ∧
      (part.map components = (whole.filter (isUnder (Path.join root path))).map components ↔
        ∀ inner file, tree.descend? inner = some file → file.kind = .file →
          (Language.ofPath? (Path.through (Path.join root path) inner)).isSome = true →
            allows (exclusion.leavesOut walker) false [] inner =
              allows (exclusion.leavesOut walker) false names inner) ∧
      ((∀ pattern ∈ exclusion.patterns, Pattern.IsUnplaced pattern) →
        part.map components = (whole.filter (isUnder (Path.join root path))).map components) := by
  obtain ⟨part, selected⟩ : ∃ part, disk.collect exclusion root [path] walker = .ok part := by
    refine (exists_collect_iff (List.cons_ne_nil path [])).2 fun given inside => ?_
    rw [List.mem_singleton.1 inside]
    exact ⟨_, sourcesAt_directory (find_eq_ok_iff.2 ⟨_, located, found⟩) isDirectory⟩
  have agree := map_components_collect_directory_iff visits silent proper rooted located spelled found isDirectory
    allowed selected rfl
  refine ⟨part, _, selected, rfl, agree, fun unplaced => agree.2 fun inner file there _ _ => ?_⟩
  obtain ⟨properBelow, above⟩ := proper.descend? found
  have inside := (properBelow.descend? there).2
  exact Exclusion.allows_congr laws unplaced (fun _ => Exclusion.enters_nil)
    (fun builds => Exclusion.enters_of_allows laws builds allowed) inside
    (List.forall_mem_append.2 ⟨(List.forall_mem_append.1 above).2, inside⟩)

def library : Disk where
  tree := .directory [("lib".toList, .directory [("a.js".toList, .file ⟨#[]⟩)])]
  current := "/".toList

theorem library_proper : library.tree.Proper := by
  have inside : FileTree.Proper (.directory [("a.js".toList, .file ⟨#[]⟩)]) :=
    .directory (by decide) (by decide) (by simpa using FileTree.Proper.file _)
  exact .directory (by decide) (by decide) (by simpa using inside)

theorem library_unruled : library.tree.Unruled := by
  have silent : ∀ tree : FileTree,
      (∀ names ∈ FileTree.ruleFiles, (tree.descend? (names.map String.toList)).isNone = true) →
        ∀ names ∈ FileTree.ruleFiles, ∀ content,
          tree.descend? (names.map String.toList) ≠ some (.file content) := by
    intro tree none names given content found
    have nothing := none names given
    simp [found] at nothing
  have inside : FileTree.Unruled (.directory [("a.js".toList, .file ⟨#[]⟩)]) :=
    .directory (silent _ (by decide)) (by simpa using FileTree.Unruled.file _)
  exact .directory (silent _ (by decide)) (by simpa using inside)

theorem library_silent : (GlobalRules.ignoreFiles {}).Silent library :=
  GlobalRules.silent_ignoreFiles library_unruled rfl

theorem unplaced_pattern_selects_part : ∃ part whole,
    library.collect ⟨["*.test.js".toList], true⟩ "/".toList ["lib".toList] = .ok part ∧
    library.collect ⟨["*.test.js".toList], true⟩ "/".toList [] = .ok whole ∧
      part.map components = (whole.filter (isUnder "/lib".toList)).map components := by
  have rooted : library.locate "/".toList = .ok [] := rfl
  have located : library.locate (Path.join "/".toList "lib".toList) = .ok ([] ++ ["lib".toList]) := rfl
  have spelled : components (Path.join "/".toList "lib".toList) =
      components "/".toList ++ ["lib".toList].map .name := rfl
  have found : library.tree.descend? ([] ++ ["lib".toList]) =
      some (.directory [("a.js".toList, .file ⟨#[]⟩)]) := rfl
  have allowed : allows (Exclusion.leavesOut ⟨["*.test.js".toList], true⟩ .standard) true [] ["lib".toList] = true := by
    decide +kernel
  obtain ⟨part, whole, selected, all, -, same⟩ :=
    directory_selects_part_iff (Walker.gitStyle_visits _ _) library_silent (Walker.gitStyle_matches _ _) library_proper
      rooted located spelled found rfl allowed
  refine ⟨part, whole, selected, all, same fun pattern given => ?_⟩
  rw [List.mem_singleton.1 given]
  exact ⟨_, by decide, .inl rfl⟩

/-- A pattern that begins with a slash is matched from the directory that is named and not from the root: it
leaves out a file below the directory that it does not leave out below the root. -/
theorem anchored_pattern_selects_other_part :
    library.tree.Proper ∧ library.tree.Unruled ∧ library.locate "/".toList = .ok [] ∧
      library.locate (Path.join "/".toList "lib".toList) = .ok ["lib".toList] ∧
      allows (Exclusion.leavesOut ⟨["/*.js".toList], true⟩ .standard) true [] ["lib".toList] = true ∧
      library.collect ⟨["/*.js".toList], true⟩ "/".toList ["lib".toList] = .ok [] ∧
      library.collect ⟨["/*.js".toList], true⟩ "/".toList [] = .ok ["/lib/a.js".toList] ∧
      isUnder (Path.join "/".toList "lib".toList) "/lib/a.js".toList = true := by
  have rooted : library.locate "/".toList = .ok [] := rfl
  have located : library.locate (Path.join "/".toList "lib".toList) = .ok ["lib".toList] := rfl
  have found : library.find (Path.join "/".toList "lib".toList) =
      .ok (.directory [("a.js".toList, .file ⟨#[]⟩)]) := rfl
  have part : Walker.standard.walk library "/lib".toList (Exclusion.walkSettings ⟨["/*.js".toList], true⟩ .standard) =
      [some ⟨[], .directory⟩] := by decide +kernel
  have whole : Walker.standard.walk library "/".toList (Exclusion.walkSettings ⟨["/*.js".toList], true⟩ .standard) =
      [some ⟨[], .directory⟩, some ⟨["lib".toList], .directory⟩, some ⟨["lib".toList, "a.js".toList], .file⟩] := by
    decide +kernel
  refine ⟨library_proper, library_unruled, rooted, located, by decide +kernel, ?_, ?_, by decide +kernel⟩
  · have below : library.sourcesBelow ⟨["/*.js".toList], true⟩ "/lib".toList = [] := by
      unfold sourcesBelow
      rw [part]
      exact List.mergeSort_nil
    have named : library.sourcesAt ⟨["/*.js".toList], true⟩ (Path.join "/".toList "lib".toList) = .ok _ :=
      sourcesAt_directory found rfl
    have gathered : library.gather .standard ⟨["/*.js".toList], true⟩ "/".toList ["lib".toList] = .ok [] :=
      gather_cons_eq_ok_iff.2 ⟨[], [], named.trans (congrArg _ below), rfl, rfl⟩
    exact (collect_eq_ok_iff (List.cons_ne_nil _ [])).2
      ⟨[], gathered, congrArg Path.dropRepeated List.mergeSort_nil⟩
  · exact congrArg Except.ok (sourcesBelow_eq_singleton whole (by decide +kernel))

end Disk

end Docblock
