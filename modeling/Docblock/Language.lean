import Docblock.Files.Path

/-!
# Languages

The language of a source file is known from the suffix of its name.
-/

set_option autoImplicit false

namespace Docblock

inductive Language where
  | javascript
  | typescript
  | tsx
  deriving DecidableEq

namespace Language

/-- What stands behind the last point of a file name; a point at its beginning does not count. -/
def suffix? (fileName : Text) : Option Text :=
  let ending := (fileName.reverse.takeWhile (· != '.')).reverse
  if ending.length + 1 < fileName.length then some ending else none

def suffixes : List (Language × List Text) :=
  [(javascript, ["js", "mjs", "cjs", "jsx"].map String.toList),
   (typescript, ["ts", "mts", "cts"].map String.toList),
   (tsx, ["tsx"].map String.toList)]

def pathSuffix? (path : Text) : Option Text :=
  (Path.fileName? path).bind suffix?

def ofPath? (path : Text) : Option Language :=
  (pathSuffix? path).bind fun ending =>
    (suffixes.find? fun row => row.2.contains ending).map Prod.fst

end Language

end Docblock
