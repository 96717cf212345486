import Docblock.Tag.Body
import Docblock.Comment.Inline
import Docblock.Comment.Outline

/-!
# Comments

A comment is its outline with the tags read, the captions of examples taken out where that is asked
for, and the inline tags of its descriptions collected and, where that is asked for, replaced.
-/

set_option autoImplicit false

namespace Docblock

structure ReadOptions where
  unwrap : Bool := true
  strict : Bool := false
  /-- Whether captions are taken out of examples. -/
  jsdoc : Bool := false
  /-- How inline tags in descriptions are replaced. -/
  replace : Option InlineTag.Replacer := none

structure Comment where
  description : Text
  footer : Text
  examples : List Example
  tags : List Tag
  inlineTags : List InlineTag

namespace Comment

/-- Whether two comments agree; locations are left out of account. -/
def same (a b : Comment) : Bool :=
  a.description == b.description && a.footer == b.footer &&
    a.examples.length == b.examples.length && (a.examples.zip b.examples).all (fun p => p.1.same p.2) &&
    a.tags.length == b.tags.length && (a.tags.zip b.tags).all (fun p => p.1.same p.2) &&
    a.inlineTags == b.inlineTags

def splitAt? (mark : Text) : Text → Option (Text × Text)
  | [] => (Text.stripPrefix mark []).map fun after => ([], after)
  | c :: rest =>
      match Text.stripPrefix mark (c :: rest) with
      | some after => some ([], after)
      | none => (splitAt? mark rest).map fun halves => (c :: halves.1, halves.2)

/-- The caption that a text begins with, and the text without it, without the blanks behind it and
without one line feed. -/
def splitCaption? (text : Text) : Option (Text × Text) := do
  let inside ← Text.stripPrefix "<caption>".toList (Text.trimStart text)
  let (caption, after) ← splitAt? "</caption>".toList inside
  let after := after.dropWhile Line.isIndent
  return (Text.trim caption, (Text.stripPrefix ['\n'] after).getD after)

def exampleTitle : Text := "example".toList

def captionTag (tag : Tag) : Tag :=
  if tag.title == exampleTitle then
    match splitCaption? tag.description with
    | some (caption, rest) => { tag with caption := some caption, description := rest }
    | none => tag
  else tag

def captionExample (piece : Example) : Example :=
  if piece.kind == .javadoc then
    match splitCaption? piece.val with
    | some (caption, rest) => { piece with caption := some caption, val := rest }
    | none => piece
  else piece

/-- Reads one tag of an outline; a tag without a body is kept as it is. -/
def readTag (options : ReadOptions) (raw : RawTag) : Except CommentError (Option Tag) :=
  if raw.val.isEmpty then .ok (some (.bare raw))
  else do
    let tag? ← Tag.ofRaw options.strict (Tag.takesName raw.key) raw
    return tag?.map fun tag => if options.jsdoc then captionTag tag else tag

def ofOutline (options : ReadOptions) (outline : Outline) : Except CommentError Comment := do
  let tags := (← outline.tags.mapM (readTag options)).filterMap id
  let replaced (text : Text) : Text := match options.replace with
    | some replacer => InlineTag.replace replacer.substitute text
    | none => text
  return {
    description := replaced outline.description
    footer := outline.footer
    examples := if options.jsdoc then outline.examples.map captionExample else outline.examples
    tags := tags.map fun tag => { tag with description := replaced tag.description }
    inlineTags := InlineTag.collect outline.description ++
      tags.flatMap fun tag => InlineTag.collect tag.description }

def read (options : ReadOptions) (text : Text) : Except CommentError Comment :=
  let body := if options.unwrap then stripDelimiters text else text
  ofOutline options (Outline.ofBody options.unwrap body)

end Comment

end Docblock
