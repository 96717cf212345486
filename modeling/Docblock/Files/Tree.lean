import Docblock.Files.Path

/-!
# Files

A tree of directories and files, and the files that paths lead to in it.
-/

set_option autoImplicit false

namespace Docblock

inductive FileKind where
  | file
  | directory
  /-- A link, a device or the like. -/
  | other
  deriving DecidableEq

inductive FileTree where
  | file (content : ByteArray)
  | directory (entries : List (Text × FileTree))
  /-- What cannot be opened. -/
  | closed (kind : FileKind)

namespace FileTree

def entries : FileTree → List (Text × FileTree)
  | directory entries => entries
  | _ => []

def kind : FileTree → FileKind
  | file _ => .file
  | directory _ => .directory
  | closed kind => kind

def isDirectory (tree : FileTree) : Bool :=
  tree.kind == .directory

def child? (name : Text) (tree : FileTree) : Option FileTree :=
  (tree.entries.find? (·.1 == name)).map Prod.snd

def descend? (tree : FileTree) : List Text → Option FileTree
  | [] => some tree
  | name :: names => (tree.child? name).bind fun inner => inner.descend? names

def put (content : FileTree) : List Text → FileTree → FileTree
  | [], _ => content
  | name :: names, tree =>
      let inner := (tree.child? name).getD (directory [])
      directory (tree.entries.filter (·.1 != name) ++ [(name, put content names inner)])

inductive Fault where
  | notFound
  | notDirectory
  | isDirectory
  | denied
  | notUnicode
  deriving DecidableEq, Repr

namespace Fault

def message : Fault → Text
  | notFound => "No such file or directory (os error 2)".toList
  | notDirectory => "Not a directory (os error 20)".toList
  | isDirectory => "Is a directory (os error 21)".toList
  | denied => "Permission denied (os error 13)".toList
  | notUnicode => "stream did not contain valid UTF-8".toList

end Fault

/-- The names that parts of a path lead to, from a place given by the names above it, the last one first.
A part can only be followed in a directory. -/
def follow (tree : FileTree) : List Text → List Text → Except Fault (List Text)
  | place, [] => .ok place
  | place, part :: rest =>
      match tree.descend? place.reverse with
      | none => .error .notFound
      | some (directory _) =>
          if part.isEmpty || part == ['.'] then tree.follow place rest
          else if part = ['.', '.'] then tree.follow place.tail rest
          else tree.follow (part :: place) rest
      | some (closed .directory) => .error .denied
      | some _ => .error .notDirectory

end FileTree

def decode? (content : ByteArray) : Option Text :=
  (String.fromUTF8? content).map String.toList

/-- All files and the directory that a program is started in, which has an absolute path. -/
structure Disk where
  tree : FileTree
  current : Text

namespace Disk

def locate (disk : Disk) (path : Text) : Except FileTree.Fault (List Text) :=
  if path.isEmpty then .error .notFound
  else (disk.tree.follow [] (Path.parts (Path.join disk.current path))).map List.reverse

def find (disk : Disk) (path : Text) : Except FileTree.Fault FileTree := do
  match disk.tree.descend? (← disk.locate path) with
  | some found => .ok found
  | none => .error .notFound

def readText (disk : Disk) (path : Text) : Except FileTree.Fault Text := do
  match ← disk.find path with
  | .directory _ => .error .isDirectory
  | .closed _ => .error .denied
  | .file content =>
      match decode? content with
      | some text => .ok text
      | none => .error .notUnicode

end Disk

end Docblock
