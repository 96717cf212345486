import Docblock.Files.Collect
import Docblock.Proofs.Files.PathOrder
import Docblock.Proofs.Files.Walking

/-!
# What paths select

Paths select the union of what each of them names, in order and each file once. The first path that names
nothing, or a file in no known language, is the one that is refused.
-/

set_option autoImplicit false

namespace Docblock

open Docblock.Path (components Ascending)

namespace Disk

/-- What refuses a path: no file or directory is there, or a file in no known language. -/
inductive Refuses (disk : Disk) (path : Text) : CollectError → Prop where
  | notFound {fault : FileTree.Fault} (nothing : disk.find path = .error fault) :
      Refuses disk path (.notFound path)
  | other {found : FileTree} (here : disk.find path = .ok found) (isOther : found.kind = .other) :
      Refuses disk path (.notFound path)
  | unsupported {found : FileTree} (here : disk.find path = .ok found) (isFile : found.kind = .file)
      (unknown : Language.ofPath? path = none) : Refuses disk path (.unsupported path)

variable {disk : Disk} {walker : Walker} {ignoreFiles : IgnoreFiles} {exclusion : Exclusion} {root path file : Text}
  {paths others sources sources' : List Text} {refusal : CollectError}

/-! ## One path -/

theorem refuses_iff_of_error {fault : FileTree.Fault} (nothing : disk.find path = .error fault) :
    disk.Refuses path refusal ↔ .notFound path = refusal := by
  constructor
  · rintro (- | ⟨here, -⟩ | ⟨here, -, -⟩)
    · rfl
    all_goals cases nothing.symm.trans here
  · rintro rfl
    exact .notFound nothing

theorem refuses_iff_of_ok {found : FileTree} (here : disk.find path = .ok found) :
    disk.Refuses path refusal ↔ found.kind = .other ∧ .notFound path = refusal ∨
      found.kind = .file ∧ Language.ofPath? path = none ∧ .unsupported path = refusal := by
  constructor
  · rintro (nothing | ⟨here', isOther⟩ | ⟨here', isFile, unknown⟩)
    · cases here.symm.trans nothing
    · obtain rfl := Except.ok.inj (here.symm.trans here')
      exact .inl ⟨isOther, rfl⟩
    · obtain rfl := Except.ok.inj (here.symm.trans here')
      exact .inr ⟨isFile, unknown, rfl⟩
  · rintro (⟨isOther, rfl⟩ | ⟨isFile, unknown, rfl⟩)
    · exact .other here isOther
    · exact .unsupported here isFile unknown

theorem sourcesAt_eq_error_iff :
    disk.sourcesAt exclusion path walker = .error refusal ↔ disk.Refuses path refusal := by
  unfold sourcesAt
  cases here : disk.find path with
  | error fault => simp [refuses_iff_of_error here, Except.toOption]
  | ok found =>
      rw [refuses_iff_of_ok here]
      cases kind : found.kind with
      | file => cases known : Language.ofPath? path <;> simp [Except.toOption, kind]
      | directory => simp [Except.toOption, kind]
      | other => simp [Except.toOption, kind]

theorem supported_of_mem_sourcesBelow (inside : file ∈ disk.sourcesBelow exclusion path walker) :
    (Language.ofPath? file).isSome = true :=
  (List.mem_filter.1 (Path.mem_sort.1 inside)).2

theorem supported_of_mem_sourcesAt (named : disk.sourcesAt exclusion path walker = .ok sources) :
    ∀ file ∈ sources, (Language.ofPath? file).isSome = true := by
  unfold sourcesAt at named
  split at named
  · cases named
    exact fun file => supported_of_mem_sourcesBelow
  · split at named
    · next known =>
        cases named
        exact fun file inside => List.mem_singleton.1 inside ▸ known
    · cases named
  · cases named

theorem sourcesAt_directory {found : FileTree} (here : disk.find path = .ok found)
    (isDirectory : found.kind = .directory) :
    disk.sourcesAt exclusion path walker = .ok (disk.sourcesBelow exclusion path walker) := by
  simp only [sourcesAt, here, Except.toOption, Option.map_some, isDirectory]

/-- The sources below a directory are the files in known languages that nothing leaves out on the way from there. -/
theorem mem_sourcesBelow_iff (visits : walker.Visits ignoreFiles) (proper : disk.tree.Proper) :
    file ∈ disk.sourcesBelow exclusion path walker ↔
      ∃ tree place inner, disk.find path = .ok tree ∧ tree.descend? place = some inner ∧ inner.kind = .file ∧
        allows (ignoreFiles.leavesOut (exclusion.walkSettings walker) disk path) false [] place = true ∧
        file = Path.through path place ∧ (Language.ofPath? file).isSome = true := by
  simp only [sourcesBelow, Path.mem_sort, List.mem_filter, List.mem_map, List.mem_filterMap, id, exists_eq_right]
  constructor
  · rintro ⟨⟨⟨place, kind⟩, ⟨met, isFile⟩, rfl⟩, supported⟩
    obtain ⟨tree, inner, here, below, rfl, allowed⟩ := (visits.finds _ _ _ _ proper).1 met
    have kind : inner.kind = .file := by simpa using isFile
    have isDirectory : inner.isDirectory = false := by rw [FileTree.isDirectory, kind]; rfl
    rw [isDirectory] at allowed
    exact ⟨tree, place, inner, here, below, kind, allowed, rfl, supported⟩
  · rintro ⟨tree, place, inner, here, below, kind, allowed, rfl, supported⟩
    have isDirectory : inner.isDirectory = false := by rw [FileTree.isDirectory, kind]; rfl
    refine ⟨⟨⟨place, .file⟩, ⟨(visits.finds _ _ _ _ proper).2 ⟨tree, inner, here, below, kind, ?_⟩, rfl⟩, rfl⟩,
      supported⟩
    rwa [isDirectory]

theorem ascending_sourcesBelow (visits : walker.Visits ignoreFiles) (proper : disk.tree.Proper) (exclusion : Exclusion)
    (directory : Text) : Ascending (disk.sourcesBelow exclusion directory walker) := by
  refine Path.ascending_sort (List.Nodup.sublist (List.filter_sublist.map components) ?_)
  rw [List.map_map]
  refine List.Nodup.map_on ?_ ((visits.once disk directory _ proper).filter _)
  rintro ⟨place, kind⟩ inside ⟨place', kind'⟩ inside' same
  simp only [List.mem_filter, List.mem_filterMap, id, exists_eq_right, beq_iff_eq] at inside inside'
  obtain ⟨met, rfl⟩ := inside
  obtain ⟨met', rfl⟩ := inside'
  obtain ⟨tree, inner, here, below, -⟩ := (visits.finds _ _ _ _ proper).1 met
  obtain ⟨tree', inner', here', below', -⟩ := (visits.finds _ _ _ _ proper).1 met'
  have filled := ne_nil_of_find here
  simp only [Function.comp_apply, Path.components_through filled ((proper_of_find proper here).descend? below).2,
    Path.components_through filled ((proper_of_find proper here').descend? below').2] at same
  rw [Path.Component.names_injective (List.append_cancel_left same)]

/-! ## Several paths -/

def gather (disk : Disk) (walker : Walker) (exclusion : Exclusion) (root : Text) (paths : List Text) :
    Except CollectError (List Text) :=
  (paths.mapM fun path => disk.sourcesAt exclusion (Path.join root path) walker).map List.flatten

theorem gather_cons : disk.gather walker exclusion root (path :: paths) =
    (disk.sourcesAt exclusion (Path.join root path) walker).bind fun found =>
      (disk.gather walker exclusion root paths).map (found ++ ·) := by
  unfold gather
  rw [List.mapM_cons]
  cases disk.sourcesAt exclusion (Path.join root path) walker with
  | error e => rfl
  | ok found => cases paths.mapM fun path => disk.sourcesAt exclusion (Path.join root path) walker <;> rfl

theorem collect_eq (some : paths ≠ []) : disk.collect exclusion root paths walker =
    (disk.gather walker exclusion root paths).map fun found => Path.dropRepeated (Path.sort found) := by
  have filled : paths.isEmpty = false := by simpa using some
  unfold collect gather
  rw [filled, if_neg Bool.false_ne_true]
  cases paths.mapM fun path => disk.sourcesAt exclusion (Path.join root path) walker <;> rfl

theorem gather_cons_eq_error_iff : disk.gather walker exclusion root (path :: paths) = .error refusal ↔
    disk.Refuses (Path.join root path) refusal ∨
      (∀ refusal, ¬ disk.Refuses (Path.join root path) refusal) ∧
        disk.gather walker exclusion root paths = .error refusal := by
  have refused : ∀ refusal, disk.Refuses (Path.join root path) refusal ↔
      disk.sourcesAt exclusion (Path.join root path) walker = .error refusal :=
    fun _ => sourcesAt_eq_error_iff.symm
  simp only [gather_cons, refused]
  cases disk.sourcesAt exclusion (Path.join root path) walker with
  | error e => simp [Except.bind]
  | ok found => cases disk.gather walker exclusion root paths <;> simp [Except.bind, Except.map]

theorem gather_eq_error_iff : disk.gather walker exclusion root paths = .error refusal ↔
    ∃ before path after, paths = before ++ path :: after ∧ disk.Refuses (Path.join root path) refusal ∧
      ∀ earlier ∈ before, ∀ refusal, ¬ disk.Refuses (Path.join root earlier) refusal := by
  induction paths with
  | nil =>
      constructor
      · intro failed
        cases failed
      · rintro ⟨before, path, after, split, -⟩
        cases before <;> cases split
  | cons first paths induction =>
      rw [gather_cons_eq_error_iff, induction]
      constructor
      · rintro (refused | ⟨accepted, before, path, after, rfl, refused, earlier⟩)
        · exact ⟨[], first, paths, rfl, refused, by simp⟩
        · exact ⟨first :: before, path, after, rfl, refused, List.forall_mem_cons.2 ⟨accepted, earlier⟩⟩
      · rintro ⟨before, path, after, split, refused, earlier⟩
        cases before with
        | nil =>
            obtain ⟨rfl, -⟩ := List.cons.inj split
            exact .inl refused
        | cons =>
            obtain ⟨rfl, rfl⟩ := List.cons.inj split
            obtain ⟨accepted, earlier⟩ := List.forall_mem_cons.1 earlier
            exact .inr ⟨accepted, _, path, after, rfl, refused, earlier⟩

theorem gather_cons_eq_ok_iff {found : List Text} : disk.gather walker exclusion root (path :: paths) = .ok found ↔
    ∃ here later, disk.sourcesAt exclusion (Path.join root path) walker = .ok here ∧
      disk.gather walker exclusion root paths = .ok later ∧ found = here ++ later := by
  rw [gather_cons]
  cases disk.sourcesAt exclusion (Path.join root path) walker with
  | error e => simp [Except.bind]
  | ok here => cases disk.gather walker exclusion root paths <;> simp [Except.bind, Except.map, eq_comm]

theorem exists_gather_iff : (∃ found, disk.gather walker exclusion root paths = .ok found) ↔
    ∀ path ∈ paths, ∃ files, disk.sourcesAt exclusion (Path.join root path) walker = .ok files := by
  induction paths with
  | nil => exact ⟨fun _ _ inside => absurd inside List.not_mem_nil, fun _ => ⟨[], rfl⟩⟩
  | cons path paths induction =>
      rw [List.forall_mem_cons, ← induction]
      constructor
      · rintro ⟨found, gathered⟩
        obtain ⟨here, later, named, gathered, -⟩ := gather_cons_eq_ok_iff.1 gathered
        exact ⟨⟨here, named⟩, later, gathered⟩
      · rintro ⟨⟨here, named⟩, later, gathered⟩
        exact ⟨here ++ later, gather_cons_eq_ok_iff.2 ⟨here, later, named, gathered, rfl⟩⟩

theorem mem_gather_iff {found : List Text} (gathered : disk.gather walker exclusion root paths = .ok found) :
    file ∈ found ↔ ∃ path ∈ paths, ∃ files,
      disk.sourcesAt exclusion (Path.join root path) walker = .ok files ∧ file ∈ files := by
  induction paths generalizing found with
  | nil =>
      cases gathered
      simp
  | cons path paths induction =>
      obtain ⟨here, later, named, behind, rfl⟩ := gather_cons_eq_ok_iff.1 gathered
      rw [List.mem_append, induction behind, List.exists_mem_cons_iff, named]
      simp

theorem collect_eq_ok_iff (some : paths ≠ []) : disk.collect exclusion root paths walker = .ok sources ↔
    ∃ found, disk.gather walker exclusion root paths = .ok found ∧
      Path.dropRepeated (Path.sort found) = sources := by
  rw [collect_eq some]
  cases disk.gather walker exclusion root paths <;> simp [Except.map]

/-- Up to how they are spelled, the files that paths select are those that some path of them names. -/
theorem mem_collect_iff {place : List Path.Component} (some : paths ≠ [])
    (success : disk.collect exclusion root paths walker = .ok sources) :
    place ∈ sources.map components ↔ ∃ path ∈ paths, ∃ named,
      disk.sourcesAt exclusion (Path.join root path) walker = .ok named ∧ place ∈ named.map components := by
  obtain ⟨found, gathered, rfl⟩ := (collect_eq_ok_iff some).1 success
  rw [Path.mem_map_dropRepeated, List.mem_map]
  constructor
  · rintro ⟨file, inside, rfl⟩
    obtain ⟨path, given, named, names, member⟩ := (mem_gather_iff gathered).1 (Path.mem_sort.1 inside)
    exact ⟨path, given, named, names, List.mem_map_of_mem member⟩
  · rintro ⟨path, given, named, names, inside⟩
    obtain ⟨file, member, rfl⟩ := List.mem_map.1 inside
    exact ⟨file, Path.mem_sort.2 ((mem_gather_iff gathered).2 ⟨path, given, named, names, member⟩), rfl⟩

theorem exists_collect_iff (some : paths ≠ []) : (∃ sources, disk.collect exclusion root paths walker = .ok sources) ↔
    ∀ path ∈ paths, ∃ named, disk.sourcesAt exclusion (Path.join root path) walker = .ok named := by
  simp [collect_eq_ok_iff some, ← exists_gather_iff]

theorem supported_of_mem_collect (success : disk.collect exclusion root paths walker = .ok sources) :
    ∀ file ∈ sources, (Language.ofPath? file).isSome = true := by
  intro file selected
  by_cases none : paths = []
  · subst none
    cases success
    exact supported_of_mem_sourcesBelow selected
  · obtain ⟨found, gathered, rfl⟩ := (collect_eq_ok_iff none).1 success
    have inside := Path.mem_sort.1 (Path.mem_of_mem_dropRepeated selected)
    obtain ⟨path, -, named, names, member⟩ := (mem_gather_iff gathered).1 inside
    exact supported_of_mem_sourcesAt names file member

/-- What is selected is ascending. Without paths this rests on the names of the tree, as nothing is dropped
then. -/
theorem ascending_collect (visits : walker.Visits ignoreFiles) (walked : paths = [] → disk.tree.Proper)
    (success : disk.collect exclusion root paths walker = .ok sources) : Ascending sources := by
  by_cases none : paths = []
  · subst none
    cases success
    exact ascending_sourcesBelow visits (walked rfl) exclusion root
  · obtain ⟨found, gathered, rfl⟩ := (collect_eq_ok_iff none).1 success
    exact Path.ascending_dropRepeated (Path.sort_pairwise found)

theorem collect_eq_error_iff : disk.collect exclusion root paths walker = .error refusal ↔
    ∃ before path after, paths = before ++ path :: after ∧ disk.Refuses (Path.join root path) refusal ∧
      ∀ earlier ∈ before, ∀ refusal, ¬ disk.Refuses (Path.join root earlier) refusal := by
  have decided : disk.gather walker exclusion root paths = .error refusal ↔ _ := gather_eq_error_iff
  rw [← decided]
  by_cases none : paths = []
  · subst none
    constructor <;> intro failed <;> cases failed
  · rw [collect_eq none]
    cases disk.gather walker exclusion root paths <;> simp [Except.map]

/-- The files that paths select are, up to how they are spelled, the union of what each path names: paths that
are put together select what each part selects, and neither the order of the paths nor a repeated one
matters. They come in order, each once, all in known languages. The first path that names nothing, or a file
in no known language, is the one that is refused; there is no other failure. -/
theorem collect_unites_paths (visits : walker.Visits ignoreFiles) (disk : Disk) (exclusion : Exclusion) (root : Text) :
    (∀ paths others sources sources', paths ≠ [] → others ≠ [] →
      disk.collect exclusion root paths walker = .ok sources →
      disk.collect exclusion root others walker = .ok sources' →
        ∃ merged, disk.collect exclusion root (paths ++ others) walker = .ok merged ∧ Ascending merged ∧
          ∀ place, place ∈ merged.map components ↔
            place ∈ sources.map components ∨ place ∈ sources'.map components) ∧
    (∀ paths others sources, paths ≠ [] → (∀ path, path ∈ paths ↔ path ∈ others) →
      disk.collect exclusion root paths walker = .ok sources →
        ∃ sources', disk.collect exclusion root others walker = .ok sources' ∧
          sources'.map components = sources.map components) ∧
    (∀ paths sources, (paths = [] → disk.tree.Proper) → disk.collect exclusion root paths walker = .ok sources →
      Ascending sources ∧ ∀ file ∈ sources, (Language.ofPath? file).isSome = true) ∧
    (∀ paths refusal, disk.collect exclusion root paths walker = .error refusal ↔
      ∃ before path after, paths = before ++ path :: after ∧ disk.Refuses (Path.join root path) refusal ∧
        ∀ earlier ∈ before, ∀ refusal, ¬ disk.Refuses (Path.join root earlier) refusal) := by
  refine ⟨?_, ?_, fun paths sources walked success => ?_, fun _ _ => collect_eq_error_iff⟩
  · intro paths others sources sources' some some' success success'
    have any : paths ++ others ≠ [] := by simp [some]
    have accepted := (exists_collect_iff some).1 ⟨sources, success⟩
    have accepted' := (exists_collect_iff some').1 ⟨sources', success'⟩
    obtain ⟨merged, together⟩ := (exists_collect_iff any).2 fun path inside =>
      (List.mem_append.1 inside).elim (accepted path) (accepted' path)
    refine ⟨merged, together, ascending_collect visits (fun none => absurd none any) together, fun place => ?_⟩
    rw [mem_collect_iff any together, mem_collect_iff some success, mem_collect_iff some' success']
    simp only [List.mem_append, or_and_right, exists_or]
  · intro paths others sources some same success
    have some' : others ≠ [] := by
      obtain ⟨first, more, rfl⟩ := List.exists_cons_of_ne_nil some
      exact List.ne_nil_of_mem ((same first).1 List.mem_cons_self)
    have accepted := (exists_collect_iff some).1 ⟨sources, success⟩
    obtain ⟨sources', success'⟩ := (exists_collect_iff some').2 fun path inside =>
      accepted path ((same path).2 inside)
    refine ⟨sources', success', Ascending.map_components_eq ?_ ?_ fun place => ?_⟩
    · exact ascending_collect visits (fun none => absurd none some') success'
    · exact ascending_collect visits (fun none => absurd none some) success
    · rw [mem_collect_iff some success, mem_collect_iff some' success']
      simp only [same]
  · exact ⟨ascending_collect visits walked success, supported_of_mem_collect success⟩

theorem collect_singleton (named : disk.sourcesAt exclusion (Path.join root path) walker = .ok [file]) :
    disk.collect exclusion root [path] walker = .ok [file] := by
  have gathered : disk.gather walker exclusion root [path] = .ok [file] :=
    gather_cons_eq_ok_iff.2 ⟨[file], [], named, rfl, rfl⟩
  exact (collect_eq_ok_iff (List.cons_ne_nil _ [])).2
    ⟨[file], gathered, congrArg Path.dropRepeated (List.mergeSort_singleton file)⟩

theorem sourcesBelow_eq_singleton {entries : List (Option WalkEntry)}
    (walked : walker.walk disk path (exclusion.walkSettings walker) = entries)
    (named : (((entries.filterMap id).filter (·.kind == .file)).map fun entry =>
      Path.through path entry.place).filter (fun path => (Language.ofPath? path).isSome) = [file]) :
    disk.sourcesBelow exclusion path walker = [file] := by
  subst walked
  exact (congrArg Path.sort named).trans (List.mergeSort_singleton file)

def pair : Disk where
  tree := .directory [("a.js".toList, .file ⟨#[]⟩), ("b.ts".toList, .file ⟨#[]⟩)]
  current := "/".toList

theorem two_paths_united :
    (∃ merged, pair.collect ⟨[], true⟩ "/".toList (["b.ts".toList] ++ ["./a.js".toList]) = .ok merged ∧
      Ascending merged ∧ ∀ place, place ∈ merged.map components ↔
        place ∈ ["/b.ts".toList].map components ∨ place ∈ ["/./a.js".toList].map components) ∧
    (∃ repeated, pair.collect ⟨[], true⟩ "/".toList ["b.ts".toList, "b.ts".toList] = .ok repeated ∧
      repeated.map components = ["/b.ts".toList].map components) ∧
    Ascending ["/b.ts".toList] ∧
    pair.collect ⟨[], true⟩ "/".toList ["b.ts".toList, "c.js".toList] = .error (.notFound "/c.js".toList) := by
  have first : pair.collect ⟨[], true⟩ "/".toList ["b.ts".toList] = .ok ["/b.ts".toList] :=
    collect_singleton (by decide +kernel)
  have second : pair.collect ⟨[], true⟩ "/".toList ["./a.js".toList] = .ok ["/./a.js".toList] :=
    collect_singleton (by decide +kernel)
  obtain ⟨union, same, ascending, refused⟩ :=
    collect_unites_paths (Walker.gitStyle_visits (fun _ => true) {}) pair ⟨[], true⟩ "/".toList
  refine ⟨union _ _ _ _ (List.cons_ne_nil _ _) (List.cons_ne_nil _ _) first second,
    same _ _ _ (List.cons_ne_nil _ _) (by simp) first, (ascending _ _ (by simp) first).1,
    (refused _ _).2 ⟨["b.ts".toList], "c.js".toList, [], rfl, .notFound (rfl : pair.find _ = .error .notFound), ?_⟩⟩
  intro earlier inside refusal refuses
  rw [List.mem_singleton.1 inside] at refuses
  have named : pair.sourcesAt ⟨[], true⟩ "/b.ts".toList = .ok ["/b.ts".toList] := by decide +kernel
  cases (sourcesAt_eq_error_iff.2 refuses).symm.trans named

end Disk

end Docblock
