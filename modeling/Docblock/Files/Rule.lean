import Docblock.Files.Glob
import Docblock.Files.Walker

/-!
# Ignore rules

A line of an ignore file is a rule: a glob and what follows when a path matches it. Of several rules
the last one that matches decides.
-/

set_option autoImplicit false

namespace Docblock

structure Rule where
  glob : List Glob.Token
  /-- Whether paths that match are kept and not ignored. -/
  keeps : Bool
  onlyDirectories : Bool

namespace Rule

/-- The glob of a pattern. One without a slash is matched at any depth, and one that ends with two stars
matches what is inside a directory but not the directory. -/
def globOf? (anchored : Bool) (pattern : Text) : Option (List Glob.Token) :=
  let deep := "**/".toList.isPrefixOf pattern || pattern == "**".toList
  let pattern :=
    if anchored || pattern.contains '/' || deep then pattern else "**/".toList ++ pattern
  Glob.read (if "/**".toList.isSuffixOf pattern then pattern ++ ['/', '*'] else pattern)

/-- The rule of a pattern behind the mark that says whether it keeps. A slash at the end, which a backslash
may stand in front of, makes it a rule for directories. -/
def ofPattern? (keeps anchored : Bool) (pattern : Text) : Option Rule :=
  match Text.stripSuffix ['/'] pattern with
  | some directory =>
      (globOf? anchored ((Text.stripSuffix ['\\'] directory).getD directory)).map (⟨·, keeps, true⟩)
  | none => (globOf? anchored pattern).map (⟨·, keeps, false⟩)

def ofAnchored? (keeps : Bool) : Text → Option Rule
  | '/' :: pattern => ofPattern? keeps true pattern
  | pattern => ofPattern? keeps false pattern

/-- The rule of a line. Comments, blank lines and lines without a proper glob are none. -/
def ofLine? (line : Text) : Option Rule :=
  if line.head? = some '#' then none
  else
    let line := if "\\ ".toList.isSuffixOf line then line else Text.trimEnd line
    match line with
    | [] => none
    | '\\' :: '!' :: rest => ofPattern? false false ('!' :: rest)
    | '\\' :: '#' :: rest => ofPattern? false false ('#' :: rest)
    | '!' :: rest => ofAnchored? true rest
    | _ => ofAnchored? false line

def verdict (rules : List Rule) (path : Text) (isDirectory : Bool) : Option Verdict :=
  (rules.reverse.find? fun rule =>
    (isDirectory || !rule.onlyDirectories) && Glob.isMatch rule.glob path).map fun rule =>
      if rule.keeps then .keep else .ignore

def byteLines : List UInt8 → List (List UInt8)
  | [] => []
  | byte :: rest =>
      if byte = 10 then [] :: byteLines rest
      else match byteLines rest with
        | [] => [[byte]]
        | first :: more => (byte :: first) :: more

/-- The texts of lines up to the first one that is not valid UTF-8. -/
def decodeLines : List (List UInt8) → List Text
  | [] => []
  | line :: rest =>
      match decode? ⟨line.toArray⟩ with
      | some text => Text.dropReturn text :: decodeLines rest
      | none => []

/-- The first line without marks of byte order at its beginning, and the other lines. -/
def dropMark : List Text → List Text
  | [] => []
  | line :: rest => line.dropWhile (· == '\uFEFF') :: rest

def ofFile : FileTree → List Rule
  | .file content => (dropMark (decodeLines (byteLines content.data.toList))).filterMap ofLine?
  | _ => []

end Rule

end Docblock
