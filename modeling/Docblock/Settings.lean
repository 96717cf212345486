import Docblock.Comment.Basic
import Docblock.Toml.Document

/-!
# Settings

How comments are read and which files are left out, from a settings file and from the flags of a
command. Flags only switch things on; their patterns are added to those of the file.
-/

set_option autoImplicit false

namespace Docblock

structure ReadSettings where
  strict : Bool := false
  jsdoc : Bool := false
  unwrap : Bool := true
  replaceInlineTag : Option Text := none
  deriving DecidableEq

structure Settings where
  exclude : List Text := []
  reading : ReadSettings := {}
  deriving DecidableEq

structure Flags where
  strict : Bool := false
  jsdoc : Bool := false
  noUnwrap : Bool := false
  handlebars : Bool := false
  noGitignore : Bool := false
  exclude : List Text := []
  deriving DecidableEq

structure Exclusion where
  patterns : List Text := []
  respectGitignore : Bool := true
  deriving DecidableEq

namespace ReadSettings

/-- How comments are read under the settings. A replacer that is not known by its name is none. -/
def options (settings : ReadSettings) : ReadOptions where
  unwrap := settings.unwrap
  strict := settings.strict
  jsdoc := settings.jsdoc
  replace := settings.replaceInlineTag.bind InlineTag.Replacer.ofName?

end ReadSettings

namespace Flags

def readOptions (flags : Flags) (settings : ReadSettings) : ReadOptions :=
  let base := settings.options
  { unwrap := base.unwrap && !flags.noUnwrap
    strict := base.strict || flags.strict
    jsdoc := base.jsdoc || flags.jsdoc
    replace := if flags.handlebars then some .handlebars else base.replace }

/-- What is left out: the patterns of the settings, and then those of the flags. -/
def exclusion (flags : Flags) (patterns : List Text) : Exclusion where
  patterns := patterns ++ flags.exclude
  respectGitignore := !flags.noGitignore

end Flags

namespace Settings

def fileName : Text := "parse-comments.toml".toList

open Toml

def text? : Item → Option Text
  | .text value => some value
  | _ => none

def boolean? : Item → Option Bool
  | .boolean value => some value
  | _ => none

def texts? : Item → Option (List Text)
  | .array items => items.mapM text?
  | _ => none

/-- What an item says, if it is there; if it is not, `default` holds. An item of the wrong kind is an
error. -/
def orDefault {α : Type} (default : α) (decode : Item → Option α) : Option Item → Option α
  | none => some default
  | some item => decode item

def readingOf? (find? : Nat → Text → Option Item) : Option ReadSettings := do
  let defaults : ReadSettings := {}
  return {
    strict := ← orDefault defaults.strict boolean? (find? 0 "strict".toList)
    jsdoc := ← orDefault defaults.jsdoc boolean? (find? 1 "jsdoc".toList)
    unwrap := ← orDefault defaults.unwrap boolean? (find? 2 "unwrap".toList)
    replaceInlineTag := ←
      orDefault none (fun item => (text? item).map some) (find? 3 "replace_inline_tag".toList) }

/-- The settings for reading: a table of them, or a list of them in their order. -/
def reading? : Item → Option ReadSettings
  | .table _ entries => readingOf? fun _ key => Entries.find? key entries
  | .array items => readingOf? fun place _ => items[place]?
  | .tables all =>
      readingOf? fun place _ => (all[place]?).map fun entries => .table .header entries
  | _ => none

/-- The settings that a document says. Keys that are not known are passed over. -/
def ofEntries? (entries : Entries) : Option Settings := do
  let defaults : Settings := {}
  return {
    exclude := ← orDefault defaults.exclude texts? (entries.find? "exclude".toList)
    reading := ← orDefault defaults.reading reading? (entries.find? "parse".toList) }

/-- The settings in a file with the given text. A file with an error in it says nothing. -/
def ofText (document : Text) : Settings :=
  ((Toml.read document).bind ofEntries?).getD {}

end Settings

end Docblock
