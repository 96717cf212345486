import Docblock.Text.Basic
import Docblock.Text.Letter

/-!
# Inline tags

An inline tag stands in running text: `{@name}` or `{@name value}`, where the value holds no brace.
One scan cuts a text into single characters and inline tags; collecting and replacing both go by it.
-/

set_option autoImplicit false

namespace Docblock

structure InlineTag where
  raw : Text
  name : Text
  value : Text
  deriving DecidableEq

namespace InlineTag

def isNameChar (c : Char) : Bool :=
  Text.isWord c || c == '.' || c == '-'

def isPlain (c : Char) : Bool :=
  c != '{' && c != '}'

def isValue : Text → Bool
  | [] => true
  | c :: _ => Text.isBlank c

def read? : Text → Option (InlineTag × Text)
  | '{' :: '@' :: first :: rest =>
      if first.isAlpha then
        let name := first :: rest.takeWhile isNameChar
        let afterName := rest.dropWhile isNameChar
        let value := afterName.takeWhile isPlain
        match afterName.dropWhile isPlain with
        | '}' :: after =>
            if isValue value then
              some (⟨'{' :: '@' :: name ++ value ++ ['}'], name, Text.trim value⟩, after)
            else none
        | _ => none
      else none
  | _ => none

theorem read?_append {s after : Text} {tag : InlineTag} (found : read? s = some (tag, after)) :
    s = tag.raw ++ after := by
  unfold read? at found
  split at found
  · rename_i first rest
    split at found
    · simp only at found
      split at found
      · rename_i remaining closing
        split at found
        · simp only [Option.some.injEq, Prod.mk.injEq] at found
          obtain ⟨rfl, rfl⟩ := found
          simp only [List.append_assoc, List.cons_append, List.nil_append, List.cons.injEq, true_and]
          rw [← closing, List.takeWhile_append_dropWhile, List.takeWhile_append_dropWhile]
        · simp at found
      · simp at found
    · simp at found
  · simp at found

theorem read?_raw_ne_nil {s after : Text} {tag : InlineTag} (found : read? s = some (tag, after)) :
    tag.raw ≠ [] := by
  unfold read? at found
  split at found
  · split at found
    · simp only at found
      split at found
      · split at found
        · simp only [Option.some.injEq, Prod.mk.injEq] at found
          obtain ⟨rfl, rfl⟩ := found
          simp
        · simp at found
      · simp at found
    · simp at found
  · simp at found

inductive Piece where
  | char (c : Char)
  | tag (tag : InlineTag)

/-- The text as single characters and inline tags, each tag taken where it begins first. -/
def pieces (s : Text) : List Piece :=
  match s with
  | [] => []
  | c :: rest =>
      match _found : read? (c :: rest) with
      | some (tag, after) => .tag tag :: pieces after
      | none => .char c :: pieces rest
termination_by s.length
decreasing_by
  · have whole := congrArg List.length (read?_append _found)
    have filled := List.length_pos_iff.2 (read?_raw_ne_nil _found)
    simp only [List.length_cons, List.length_append] at whole ⊢
    omega
  · simp

def collect (s : Text) : List InlineTag :=
  (pieces s).filterMap fun
    | .tag tag => some tag
    | .char _ => none

def replace (substitute : InlineTag → Text) (s : Text) : Text :=
  (pieces s).flatMap fun
    | .tag tag => substitute tag
    | .char c => [c]

/-- The tag as a Handlebars expression: `{{name}}`, or `{{name "value"}}`. -/
def handlebars (tag : InlineTag) : Text :=
  if tag.value.isEmpty then '{' :: '{' :: tag.name ++ ['}', '}']
  else
    '{' :: '{' :: tag.name ++ ' ' :: '"' ::
      tag.value.flatMap (fun c => if c = '"' then ['\\', '"'] else [c]) ++ ['"', '}', '}']

inductive Replacer where
  | handlebars
  | custom (substitute : InlineTag → Text)

namespace Replacer

def substitute : Replacer → InlineTag → Text
  | .handlebars => InlineTag.handlebars
  | .custom substitute => substitute

def ofName? (name : Text) : Option Replacer :=
  if name == "handlebars".toList then some .handlebars else none

end Replacer

end InlineTag

end Docblock
