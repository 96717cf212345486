import Docblock.Files.Walk
import Docblock.Language

/-!
# Collecting sources

The source files that paths name: a path is a source itself or a directory that is walked. Without
paths the root is walked.
-/

set_option autoImplicit false

namespace Docblock

inductive CollectError where
  | notFound (path : Text)
  | unsupported (path : Text)
  deriving DecidableEq

namespace CollectError

def message : CollectError → Text
  | notFound path => "Path not found: ".toList ++ path
  | unsupported path => "Unsupported file type: ".toList ++ path

end CollectError

namespace Disk

/-- The source files that a walk through a directory finds. What cannot be read is passed over. -/
def sourcesBelow (disk : Disk) (exclusion : Exclusion) (directory : Text)
    (walker : Walker := .standard) : List Text :=
  let entries := (walker.walk disk directory (exclusion.walkSettings walker)).filterMap id
  let files := entries.filter (·.kind == .file)
  let paths := files.map fun entry => Path.through directory entry.place
  Path.sort (paths.filter fun path => (Language.ofPath? path).isSome)

def sourcesAt (disk : Disk) (exclusion : Exclusion) (path : Text) (walker : Walker := .standard) :
    Except CollectError (List Text) :=
  match (disk.find path).toOption.map FileTree.kind with
  | some .directory => .ok (disk.sourcesBelow exclusion path walker)
  | some .file => if (Language.ofPath? path).isSome then .ok [path] else .error (.unsupported path)
  | _ => .error (.notFound path)

/-- The source files that paths name, seen from the root, in order and each once. -/
def collect (disk : Disk) (exclusion : Exclusion) (root : Text) (paths : List Text)
    (walker : Walker := .standard) : Except CollectError (List Text) :=
  if paths.isEmpty then .ok (disk.sourcesBelow exclusion root walker)
  else do
    let found ← paths.mapM fun path => disk.sourcesAt exclusion (Path.join root path) walker
    return Path.dropRepeated (Path.sort found.flatten)

end Disk

end Docblock
