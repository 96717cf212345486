import Docblock.Files.Rule

/-!
# Walks

A walker for directories with ignore files: what is below a directory, without what is left out. A directory is
left out with all that is in it. Overrides are matched against paths from the directory that the walk begins in.
-/

set_option autoImplicit false

namespace Docblock

structure LocalRules where
  depth : Nat
  ignore : List Rule
  gitignore : List Rule
  gitExclude : List Rule
  hasGit : Bool

namespace LocalRules

def rulesAt (tree : FileTree) (names : List String) : List Rule :=
  ((tree.descend? (names.map String.toList)).map Rule.ofFile).getD []

def ofDirectory (depth : Nat) (tree : FileTree) : LocalRules where
  depth := depth
  ignore := rulesAt tree [".ignore"]
  gitignore := rulesAt tree [".gitignore"]
  gitExclude := rulesAt tree [".git", "info", "exclude"]
  hasGit := (tree.child? ".git".toList).isSome

/-- The directories up to the top of the repository they are in. -/
def inRepository : List LocalRules → List LocalRules
  | [] => []
  | rules :: above => if rules.hasGit then [rules] else rules :: inRepository above

/-- What the rules of one kind say about a place; those of the innermost directory go first. -/
def verdictOf (kind : LocalRules → List Rule) (levels : List LocalRules) : Judge := fun place isDirectory =>
  levels.findSome? fun rules =>
    Rule.verdict (kind rules) (Text.join ['/'] (place.drop rules.depth)) isDirectory

/-- What the rules of one kind of Git say about a place. They hold inside a repository only. -/
def gitVerdictOf (kind : LocalRules → List Rule) (levels : List LocalRules) : Judge :=
  verdictOf kind (if levels.any hasGit then inRepository levels else [])

/-- The rules in the directories that names go through before the last one, the innermost first; `depth` names
lead to the tree. -/
def above (levels : List LocalRules) (depth : Nat) : List Text → FileTree → List LocalRules
  | [], _ => levels
  | name :: names, tree =>
      match tree.child? name with
      | none => levels
      | some inner => above (ofDirectory depth tree :: levels) (depth + 1) names inner

end LocalRules

structure GlobalRules where
  rules : List Rule := []
  directory : List Text := []

namespace GlobalRules

def verdict (globals : GlobalRules) (levels : List LocalRules) : Judge := fun place isDirectory =>
  let inner := if globals.directory.isPrefixOf place then place.drop globals.directory.length else place
  if levels.any LocalRules.hasGit then Rule.verdict globals.rules (Text.join ['/'] inner) isDirectory
  else none

end GlobalRules

structure Walk where
  root : List Text
  settings : WalkSettings
  globals : GlobalRules

namespace Walk

def verdict (walk : Walk) (levels : List LocalRules) : Judge := fun place isDirectory =>
  (LocalRules.verdictOf LocalRules.ignore levels place isDirectory).or
    (walk.settings.git (LocalRules.gitVerdictOf LocalRules.gitignore levels place isDirectory)
      (LocalRules.gitVerdictOf LocalRules.gitExclude levels place isDirectory)
      (walk.globals.verdict levels place isDirectory))

def leavesOut (walk : Walk) (levels : List LocalRules) (place : List Text) (isDirectory : Bool) : Bool :=
  walk.settings.leavesOut (walk.verdict levels (walk.root ++ place) isDirectory) place isDirectory

mutual

/-- What is found at a place below the directory of the walk. A directory that is closed is found but cannot be read. -/
def entriesAt (walk : Walk) (levels : List LocalRules) (place : List Text) :
    FileTree → List (Option WalkEntry)
  | .file _ => [some ⟨place, .file⟩]
  | .closed kind => some ⟨place, kind⟩ :: if kind = .directory then [none] else []
  | .directory entries =>
      let rules := LocalRules.ofDirectory (walk.root ++ place).length (.directory entries)
      some ⟨place, .directory⟩ :: entriesAmong walk (rules :: levels) place entries

def entriesAmong (walk : Walk) (levels : List LocalRules) (place : List Text) :
    List (Text × FileTree) → List (Option WalkEntry)
  | [] => []
  | (name, tree) :: rest =>
      (if walk.leavesOut levels (place ++ [name]) tree.isDirectory then []
        else entriesAt walk levels (place ++ [name]) tree) ++
        entriesAmong walk levels place rest

end

end Walk

/-- What rules say as overrides: what they match is kept, or ignored if it is negated. If some are not negated, a file
that none of them matches is ignored. -/
def Rule.overrides (rules : List Rule) : Judge := fun place isDirectory =>
  match Rule.verdict rules (Text.join ['/'] place) isDirectory with
  | some .keep => some .ignore
  | some .ignore => some .keep
  | none => if !isDirectory && rules.any (! ·.keeps) then some .ignore else none

namespace Walker

/-- The walker that knows the ignore files of Git, with the rules that hold for all repositories. Overrides can be
built of patterns that `fits` allows. -/
def gitStyle (fits : List Text → Bool) (globals : GlobalRules) : Walker where
  accepts pattern := (Rule.ofLine? pattern).isSome
  build? patterns := if fits patterns then some (Rule.overrides (patterns.filterMap Rule.ofLine?)) else none
  walk disk path settings :=
    match disk.locate path with
    | .error _ => [none]
    | .ok names =>
        match disk.tree.descend? names with
        | none => [none]
        | some tree => Walk.entriesAt ⟨names, settings, globals⟩ (LocalRules.above [] 0 names disk.tree) [] tree

def standard : Walker :=
  gitStyle (fun _ => true) {}

end Walker

end Docblock
