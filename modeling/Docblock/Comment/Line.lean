import Docblock.Text.Basic

/-!
# Lines of a comment

`strip` takes the delimiters off a comment, `prepare` cuts its body into lines without markers, without
the indentation that all of them share and without blanks at their ends. The tests below tell
what a prepared line begins.
-/

set_option autoImplicit false

namespace Docblock.Comment

def stripDelimiters (text : Text) : Text :=
  let text := Text.trim text
  let text :=
    ((Text.stripPrefix ['/', '*', '*'] text).or (Text.stripPrefix ['/', '*'] text)).getD text
  (Text.stripSuffix ['*', '/'] text).getD text

namespace Line

def codeIndent : Nat := 4

def isIndent (c : Char) : Bool :=
  c == ' ' || c == '\t'

def indentation (line : Text) : Nat :=
  (line.takeWhile isIndent).length

/-- The line without at most `n` of the spaces and tabs it begins with. -/
def dedent : Nat → Text → Text
  | 0, line => line
  | _ + 1, [] => []
  | n + 1, c :: rest => if isIndent c then dedent n rest else c :: rest

/-- The line without the star that marks it as part of a comment, and without one space behind the
star. -/
def stripMarker (line : Text) : Text :=
  match Text.trimStart line with
  | '*' :: ' ' :: rest => rest
  | '*' :: rest => rest
  | _ => line

/-- The least indentation of the lines that are not blank. -/
def baseline (lines : List Text) : Nat :=
  (((lines.filter (! Text.isBlankText ·)).map indentation).min?).getD 0

/-- The lines of a body. Markers are taken off only from wrapped lines; blank lines become empty. -/
def prepare (wrapped : Bool) (body : Text) : List Text :=
  let lines := if wrapped then (Text.lines body).map stripMarker else Text.lines body
  lines.map fun line =>
    if Text.isBlankText line then [] else Text.trimEnd (dedent (baseline lines) line)

def tag? (line : Text) : Option (Text × Text) :=
  if indentation line < codeIndent then
    match Text.trim line with
    | '@' :: rest =>
        let endsKey (c : Char) := Text.isBlank c || c == '{'
        let key := rest.takeWhile (! endsKey ·)
        if key.isEmpty then none
        else some (key, (rest.dropWhile (! endsKey ·)).dropWhile isIndent)
    | _ => none
  else none

def opensFence (line : Text) : Bool :=
  (Text.stripPrefix ['`', '`', '`'] (Text.trimStart line)).isSome

/-- Whether the line closes a fence: three backticks or more, and nothing else. -/
def closesFence (line : Text) : Bool :=
  let trimmed := Text.trim line
  (Text.stripPrefix ['`', '`', '`'] trimmed).isSome &&
    Text.isBlankText (trimmed.dropWhile (· == '`'))

def paragraph (lines : List Text) : Text :=
  Text.trim (Text.unlines lines)

end Line

end Docblock.Comment
