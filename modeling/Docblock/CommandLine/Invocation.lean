import Docblock.CommandLine.Level
import Docblock.Settings

/-!
# Invocations

The three commands with their options: `parse` reads the comments of files, `type` one type
expression, `tokenize` one comment.
-/

set_option autoImplicit false

namespace Docblock

inductive Command where
  | parse (paths : List Text) (flags : Flags) (compact : Bool)
  | type (expression : Text) (json : Bool)
  | tokenize (input : Option Text)
  deriving DecidableEq

structure Invocation where
  root : Option Text
  verbose : Bool
  command : Command
  deriving DecidableEq

namespace CommandLine

def switch (long : String) : Choice :=
  ⟨long.toList, none, .switch⟩

def everywhere : List Choice :=
  [⟨"root".toList, some 'r', .value true false⟩,
   ⟨"verbose".toList, some 'v', .switch⟩,
   ⟨"help".toList, some 'h', .help⟩,
   ⟨"version".toList, some 'V', .version⟩]

def parseLevel : Level where
  choices := everywhere ++ ["strict", "jsdoc", "no-unwrap", "handlebars", "no-gitignore", "compact"].map switch ++
    [⟨"exclude".toList, none, .value false true⟩]
  operands := .paths
  subcommands := []

/-- The arguments of `type`. A type expression may begin with a hyphen. -/
def typeLevel : Level where
  choices := everywhere ++ [switch "json"]
  operands := .one false true
  subcommands := []

def tokenizeLevel : Level where
  choices := everywhere
  operands := .one true false
  subcommands := []

def helpName : Text := "help".toList

def commandLevels : List (Text × Level) :=
  [("parse".toList, parseLevel), ("type".toList, typeLevel), ("tokenize".toList, tokenizeLevel)]

def rootLevel : Level where
  choices := everywhere
  operands := .none
  subcommands := commandLevels.map Prod.fst ++ [helpName]

def helpOn (names : List Text) : Refusal :=
  match names with
  | [] => .displayHelp
  | [name] => if rootLevel.subcommands.contains name then .displayHelp else .invalidSubcommand
  | _ => .invalidSubcommand

def commandOf (name : Text) (reading : Reading) : Except Refusal Command :=
  if name = "type".toList then
    match reading.operands with
    | [] => .error .missingRequiredArgument
    | expression :: _ => .ok (.type expression (reading.isOn "json".toList))
  else if name = "tokenize".toList then .ok (.tokenize reading.operands.head?)
  else
    .ok (.parse reading.operands
      { strict := reading.isOn "strict".toList
        jsdoc := reading.isOn "jsdoc".toList
        noUnwrap := reading.isOn "no-unwrap".toList
        handlebars := reading.isOn "handlebars".toList
        noGitignore := reading.isOn "no-gitignore".toList
        exclude := reading.valuesOf "exclude".toList }
      (reading.isOn "compact".toList))

/-- Reads the arguments of a program. What a command is given for its root goes before what stands in
front of the command. -/
def read (arguments : List Text) : Except Refusal Invocation := do
  let (outer, rest) ← rootLevel.read false {} arguments
  match rest with
  | [] =>
      let outer ← outer.settle
      if outer.isEmpty then .error .displayHelpOnMissingArgumentOrSubcommand
      else .error .missingSubcommand
  | name :: rest =>
      match commandLevels.find? (·.1 == name) with
      | none => .error (helpOn rest)
      | some (_, level) =>
          let (inner, _) ← level.read false {} rest
          let inner ← inner.settle
          let command ← commandOf name inner
          let outer ← outer.settle
          let root := "root".toList
          let verbose := "verbose".toList
          return ⟨(inner.value? root).or (outer.value? root), inner.isOn verbose || outer.isOn verbose,
            command⟩

end CommandLine

end Docblock
