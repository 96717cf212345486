import Docblock.Text.Basic

/-!
# Paths

A path is a text. Its components decide what it names and how paths are ordered: slashes in a row count
as one, and a single point counts only at the very beginning.
-/

set_option autoImplicit false

namespace Docblock.Path

inductive Component where
  | root
  | here
  | up
  | name (name : Text)
  deriving DecidableEq

def isAbsolute (path : Text) : Bool :=
  path.head? == some '/'

def parts : Text → List Text
  | [] => [[]]
  | c :: rest =>
      if c = '/' then [] :: parts rest
      else match parts rest with
        | [] => [[c]]
        | first :: more => (c :: first) :: more

/-- The parts of a path, each with whether it counts as a component. -/
def countedParts (path : Text) : List (Text × Bool) :=
  match parts path with
  | [] => []
  | first :: rest =>
      (first, !first.isEmpty || isAbsolute path) ::
        rest.map fun part => (part, !part.isEmpty && part != ['.'])

def componentOf (part : Text) : Component :=
  if part.isEmpty then .root
  else if part = ['.'] then .here
  else if part = ['.', '.'] then .up
  else .name part

def components (path : Text) : List Component :=
  ((countedParts path).filter Prod.snd).map fun part => componentOf part.1

def fileName? (path : Text) : Option Text :=
  match (components path).getLast? with
  | some (.name name) => some name
  | _ => none

/-- The names that an absolute path leads through, if two points lead back to where the name before them
came from. -/
def names (path : Text) : List Text :=
  (components path).foldl (fun names component => match component with
    | .name name => names ++ [name]
    | .up => names.dropLast
    | _ => names) []

def join (directory path : Text) : Text :=
  if isAbsolute path || directory.isEmpty then path
  else if directory.getLast? = some '/' then directory ++ path
  else directory ++ '/' :: path

/-- The path of what names lead to from a directory; without names it is the path of the directory. -/
def through (directory : Text) (names : List Text) : Text :=
  if names.isEmpty then directory else join directory (Text.join ['/'] names)

def dropCounted : Nat → List (Text × Bool) → List (Text × Bool)
  | 0, parts => parts
  | _ + 1, [] => []
  | count + 1, part :: rest => dropCounted (if part.2 then count else count + 1) rest

/-- The path without the components of a directory that it begins with, or the path itself. -/
def below (directory path : Text) : Text :=
  let front := components directory
  if front.isPrefixOf (components path) then
    let rest := (dropCounted front.length (countedParts path)).dropWhile (! ·.2)
    Text.join ['/'] ((rest.reverse.dropWhile (! ·.2)).reverse.map Prod.fst)
  else path

namespace Component

def rank : Component → Nat
  | root => 0
  | here => 1
  | up => 2
  | name _ => 3

/-- Whether a component stands before another one: names are ordered by their characters. -/
def before (a b : Component) : Bool :=
  match a, b with
  | name s, name t => decide (s.map Char.toNat < t.map Char.toNat)
  | _, _ => decide (a.rank < b.rank)

end Component

def notAfter : List Component → List Component → Bool
  | [], _ => true
  | _ :: _, [] => false
  | a :: as, b :: bs => a.before b || (a == b && notAfter as bs)

def sort (paths : List Text) : List Text :=
  paths.mergeSort fun a b => notAfter (components a) (components b)

/-- The list without the paths that have the components of the one before them. -/
def dropRepeated : List Text → List Text
  | [] => []
  | [path] => [path]
  | path :: next :: rest =>
      if components path = components next then
        match dropRepeated (next :: rest) with
        | [] => [path]
        | _ :: kept => path :: kept
      else path :: dropRepeated (next :: rest)

end Docblock.Path
