import Docblock.Files.Tree
import Docblock.Settings

/-!
# Walkers

What goes through directories is a parameter of the program: it takes patterns that override the ignore files,
and gives what it finds on its way. What the exclusion says is handed to it as such patterns.
-/

set_option autoImplicit false

namespace Docblock

inductive Verdict where
  | ignore
  | keep
  deriving DecidableEq, Repr

/-- What is said about a place that names lead to, which is a directory or not. -/
abbrev Judge := List Text → Bool → Option Verdict

structure WalkSettings where
  gitIgnore : Bool
  gitGlobal : Bool
  gitExclude : Bool
  hidden : Bool
  overrides : Option Judge

namespace WalkSettings

/-- What the ignore files of Git say where they are asked for; those that hold for all repositories go last. -/
def git (settings : WalkSettings) (ignored excluded global : Option Verdict) : Option Verdict :=
  ((ignored.filter fun _ => settings.gitIgnore).or (excluded.filter fun _ => settings.gitExclude)).or
    (global.filter fun _ => settings.gitGlobal)

/-- Whether a place is left out that the ignore files say something about, or nothing. Overrides go first. -/
def leavesOut (settings : WalkSettings) (said : Option Verdict) (place : List Text) (isDirectory : Bool) :
    Bool :=
  match (settings.overrides.bind fun judge => judge place isDirectory).or said with
  | some verdict => verdict == .ignore
  | none => settings.hidden && (place.getLast?.bind List.head?) == some '.'

end WalkSettings

structure WalkEntry where
  place : List Text
  kind : FileKind
  deriving DecidableEq

structure Walker where
  /-- Whether a pattern can be one of the overrides. -/
  accepts : Text → Bool
  /-- The overrides of patterns that are accepted, if they can be built. -/
  build? : List Text → Option Judge
  /-- What is found below the directory of a path; nothing stands for an entry that cannot be read. -/
  walk : Disk → Text → WalkSettings → List (Option WalkEntry)

namespace Exclusion

def usualDirectories : List Text :=
  ["node_modules", ".git", "dist", "build", "coverage", ".next", ".nuxt", ".turbo", ".cache",
    "bower_components"].map String.toList

def usualFiles : List Text :=
  ["*.min.js", "*.bundle.js"].map String.toList

def allPatterns (exclusion : Exclusion) : List Text :=
  (usualDirectories.flatMap fun name => [name ++ "/**".toList, name]) ++ usualFiles ++
    exclusion.patterns

/-- The overrides of an exclusion. A pattern that is not accepted is passed over. Overrides include what they match, so
each pattern is negated. -/
def overrides? (exclusion : Exclusion) (walker : Walker) : Option Judge :=
  walker.build? ((exclusion.allPatterns.map ('!' :: ·)).filter walker.accepts)

/-- How a walk goes. If the overrides cannot be built there are none, not even those for what is usual. -/
def walkSettings (exclusion : Exclusion) (walker : Walker) : WalkSettings where
  gitIgnore := exclusion.respectGitignore
  gitGlobal := exclusion.respectGitignore
  gitExclude := exclusion.respectGitignore
  hidden := false
  overrides := exclusion.overrides? walker

end Exclusion

end Docblock
