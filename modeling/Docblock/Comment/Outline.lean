import Docblock.Tag.Basic
import Docblock.Comment.Example

/-!
# Outline of a comment

The lines of a comment are read in two parts. Before the first tag they are prose and examples;
from the first tag on every line belongs to a tag, until a footer begins.
-/

set_option autoImplicit false

namespace Docblock.Comment

open Line

/-- A comment cut into its parts, with the tags as they stand. -/
structure Outline where
  description : Text
  footer : Text
  examples : List Example
  tags : List RawTag

def Outline.same (a b : Outline) : Bool :=
  a.description == b.description && a.footer == b.footer &&
    a.examples.length == b.examples.length && (a.examples.zip b.examples).all (fun p => p.1.same p.2) &&
    a.tags.length == b.tags.length && (a.tags.zip b.tags).all (fun p => p.1.same p.2)

structure Prose where
  paragraphs : List Text
  /-- The lines since the last example. -/
  pending : List Text
  examples : List Example

namespace Prose

def addParagraph (paragraphs : List Text) (paragraph : Text) : List Text :=
  if paragraph.isEmpty then paragraphs else paragraphs ++ [paragraph]

/-- Parts the pending lines before an example into those that are kept as description of the comment
and the paragraph that describes the example. The paragraph right before the example is adopted if at
most one blank line lies between them and there is an earlier example or earlier prose. -/
def adopt (hasPrevious : Bool) (pending : List Text) : List Text × List Text :=
  let (content, gap) := Block.splitBlankTail pending
  let last := (content.reverse.takeWhile (! ·.isEmpty)).reverse
  let earlier := (content.reverse.dropWhile (! ·.isEmpty)).reverse
  if !content.isEmpty && gap.length ≤ 1 && (hasPrevious || earlier.any (! ·.isEmpty)) then
    (earlier, last)
  else (content, [])

def addLine (prose : Prose) (line : Text) : Prose :=
  { prose with pending := prose.pending ++ [line] }

def addExample (prose : Prose) (kind : ExampleKind) (lineNo : Nat) (first : Text)
    (more : List Text) : Prose :=
  let (kept, adopted) := adopt (!prose.examples.isEmpty) prose.pending
  { paragraphs := addParagraph prose.paragraphs (paragraph kept)
    pending := []
    examples := prose.examples ++ [Block.build kind lineNo first more (paragraph adopted)] }

/-- The description of the comment: without examples, all of its paragraphs. -/
def description (prose : Prose) : Text :=
  Text.join ['\n', '\n']
    (if prose.examples.isEmpty then addParagraph prose.paragraphs (paragraph prose.pending)
     else prose.paragraphs)

def footer (prose : Prose) : Text :=
  if prose.examples.isEmpty then [] else paragraph prose.pending

inductive Start where
  | tag
  | block (kind : ExampleKind)
  | line

/-- What a line begins that follows the pending lines. Indented code begins only where no prose goes
on. -/
def startOf (pending : List Text) (line : Text) : Start :=
  if indentation line < codeIndent then
    match tag? line with
    | some (key, _) => if key == "example".toList then .block .javadoc else .tag
    | none => if opensFence line then .block .fenced else .line
  else if ((pending.getLast?).getD []).isEmpty then .block .indented
  else .line

/-- Reads lines up to the first tag; `lineNo` is the number of the first of them. Gives what has been
read, and the lines from the first tag on with the number of the first of these. -/
def read (prose : Prose) (lineNo : Nat) (lines : List Text) : Prose × Nat × List Text :=
  match lines with
  | [] => (prose, lineNo, [])
  | line :: rest =>
      match startOf prose.pending line with
      | .tag => (prose, lineNo, line :: rest)
      | .line => read (prose.addLine line) (lineNo + 1) rest
      | .block kind =>
          let halves := Block.cut kind rest
          have _shorter : halves.2.length ≤ rest.length := by
            have whole := congrArg List.length (Block.cut_append kind rest)
            rw [List.length_append] at whole
            exact Nat.le_of_add_left_le (Nat.le_of_eq whole)
          read (prose.addExample kind lineNo line halves.1) (lineNo + 1 + halves.1.length) halves.2
termination_by lines.length
decreasing_by
  · simp
  · exact Nat.lt_succ_of_le _shorter

end Prose

structure OpenTag where
  key : Text
  val : List Text
  raw : List Text
  start : Position
  stop : Position

namespace OpenTag

def ofLine (key val line : Text) (lineNo : Nat) : OpenTag :=
  ⟨key, [val], [Text.trim line], ⟨lineNo, indentation line⟩, ⟨lineNo, Text.byteSize line⟩⟩

def push (tag : OpenTag) (line : Text) (lineNo : Nat) : OpenTag :=
  { tag with
    val := tag.val ++ [line]
    raw := tag.raw ++ [line]
    stop := if line.isEmpty then tag.stop else ⟨lineNo, Text.byteSize line⟩ }

def close (tag : OpenTag) : RawTag :=
  ⟨Text.trimEnd (Text.unlines tag.raw), tag.key, paragraph tag.val, ⟨tag.start, tag.stop⟩⟩

end OpenTag

/-- Reads the lines from the first tag on; `lineNo` is the number of the first of them and `blanks` how
many blank lines precede it. Gives the tags and the footer, which begins at a line without indentation
behind two or more blank ones. -/
def readTags (current : Option OpenTag) (blanks lineNo : Nat) : List Text → List RawTag × Text
  | [] => (current.toList.map OpenTag.close, [])
  | line :: rest =>
      match tag? line with
      | some (key, val) =>
          let (tags, footer) :=
            readTags (some (OpenTag.ofLine key val line lineNo)) 0 (lineNo + 1) rest
          (current.toList.map OpenTag.close ++ tags, footer)
      | none =>
          if line.isEmpty then
            readTags (current.map (·.push line lineNo)) (blanks + 1) (lineNo + 1) rest
          else if 2 ≤ blanks ∧ indentation line = 0 then
            (current.toList.map OpenTag.close, paragraph (line :: rest))
          else readTags (current.map (·.push line lineNo)) 0 (lineNo + 1) rest

def joinFooters (first second : Text) : Text :=
  if second.isEmpty then first
  else if first.isEmpty then second
  else first ++ ['\n', '\n'] ++ second

def Outline.ofLines (lines : List Text) : Outline :=
  let (prose, lineNo, rest) := Prose.read ⟨[], [], []⟩ 0 lines
  let (tags, footer) := readTags none 0 lineNo rest
  ⟨prose.description, joinFooters prose.footer footer, prose.examples, tags⟩

def Outline.ofBody (wrapped : Bool) (body : Text) : Outline :=
  Outline.ofLines (prepare wrapped body)

def Outline.ofComment (text : Text) : Outline :=
  Outline.ofBody true (stripDelimiters text)

end Docblock.Comment
