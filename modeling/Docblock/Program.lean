import Docblock.CommandLine.Invocation
import Docblock.Report
import Docblock.TypeExpr.Printer

/-!
# The program

What the program writes for its arguments, the files and its input, and the code it ends with: zero
unless something is wrong.
-/

set_option autoImplicit false

namespace Docblock

structure Outcome where
  code : Nat
  output : Text
  errors : Text
  deriving DecidableEq

/-- What the program takes from elsewhere. -/
structure Tools where
  parser : SyntaxParser := Script.parser
  walker : Walker := .standard
  format : Json.Format := .standard

namespace Program

def withFeeds (lines : List Text) : Text :=
  lines.flatMap fun line => line ++ ['\n']

def success (output : Text) : Outcome :=
  ⟨0, withFeeds [output], []⟩

def errorLine (message : Text) : Text :=
  "Error: ".toList ++ message

def failure (message : Text) : Outcome :=
  ⟨1, [], withFeeds [errorLine message]⟩

def renderType (expression : Text) (json : Bool) (format : Json.Format := .standard) :
    Except TypeExpr.SyntaxError Text :=
  (TypeExpr.parseType expression).map fun node =>
    if json then format.pretty 0 node.toJson else node.render

def typeFailure (expression : Text) (e : TypeExpr.SyntaxError) : Text :=
  "Invalid type expression `".toList ++ expression ++ "`: ".toList ++ e.message

def runType (format : Json.Format) (expression : Text) (json : Bool) : Outcome :=
  match renderType expression json format with
  | .ok text => success text
  | .error e => failure (typeFailure expression e)

def renderOutline (text : Text) (format : Json.Format := .standard) : Text :=
  format.pretty 0 (Comment.Outline.ofComment text).toJson

/-- Carries out `tokenize`. Without a file, and for a hyphen, the comment is what is put in. -/
def runTokenize (disk : Disk) (format : Json.Format) (root : Text) (file : Option Text) (input : ByteArray) :
    Outcome :=
  let fromInput := match decode? input with
    | some text => success (renderOutline text format)
    | none =>
        failure ("Failed to read from stdin: ".toList ++ FileTree.Fault.notUnicode.message)
  match file with
  | none => fromInput
  | some file =>
      if file = ['-'] then fromInput
      else
        let path := Path.join root file
        match disk.readText path with
        | .ok text => success (renderOutline text format)
        | .error fault =>
            failure ("Failed to read input file ".toList ++ path ++ ": ".toList ++ fault.message)

/-- The settings of a directory. A file of settings that cannot be read says nothing. -/
def settingsOf (disk : Disk) (root : Text) : Settings :=
  match disk.readText (Path.join root Settings.fileName) with
  | .ok document => Settings.ofText document
  | .error _ => {}

structure Summary where
  reports : List FileReport
  faults : List (Text × FileFault)

namespace Summary

def ofFiles (disk : Disk) (options : ReadOptions) (root : Text) (parser : SyntaxParser) : List Text → Summary
  | [] => ⟨[], []⟩
  | path :: paths =>
      let rest := ofFiles disk options root parser paths
      match disk.report options root path parser with
      | .ok report => { rest with reports := report :: rest.reports }
      | .error fault => { rest with faults := (path, fault) :: rest.faults }

def addUp (count : FileReport → Nat) : List FileReport → Nat
  | [] => 0
  | report :: reports => count report + addUp count reports

def total (summary : Summary) : Nat :=
  addUp (fun report => report.comments.length) summary.reports

def failed (summary : Summary) : Nat :=
  addUp FileReport.failures summary.reports

def toJson (summary : Summary) : Json :=
  .array (summary.reports.map (·.toJson))

def faultLines (summary : Summary) : List Text :=
  summary.faults.map fun (path, fault) =>
    "Error processing ".toList ++ path ++ ": ".toList ++ fault.message path

def commentLines (summary : Summary) : List Text :=
  summary.reports.flatMap fun report => report.comments.filterMap fun comment =>
    comment.error?.map fun e =>
      "ERROR [".toList ++ report.file ++ [':'] ++
        Decimal.natText (comment.location.start.line + 1) ++ "]: ".toList ++ e.message

/-- The line that counts what could not be read, if there is anything. -/
def failure? (summary : Summary) : Option Text :=
  if summary.failed = 0 ∧ summary.faults.isEmpty then none
  else some (Decimal.natText summary.failed ++ " of ".toList ++ Decimal.natText summary.total ++
    " comments failed to parse, ".toList ++ Decimal.natText summary.faults.length ++
    " files could not be read".toList)

end Summary

def runParse (disk : Disk) (tools : Tools) (root : Text) (verbose : Bool) (paths : List Text)
    (flags : Flags) (compact : Bool) : Outcome :=
  let settings := settingsOf disk root
  match disk.collect (flags.exclusion settings.exclude) root paths tools.walker with
  | .error e => failure e.message
  | .ok files =>
      let summary := Summary.ofFiles disk (flags.readOptions settings.reading) root tools.parser files
      let begun := "Parsing doc comments in ".toList ++ Decimal.natText files.length ++
        " files...".toList
      let done := "Parsed ".toList ++ Decimal.natText (summary.total - summary.failed) ++
        " comments in ".toList ++ Decimal.natText summary.reports.length ++ " files (".toList ++
        Decimal.natText summary.failed ++ " failed)".toList
      let json := summary.toJson
      { code := if summary.failure?.isSome then 1 else 0
        output := withFeeds [if compact then tools.format.compact json else tools.format.pretty 0 json]
        errors := withFeeds ((if verbose then [begun] else []) ++ summary.faultLines ++
          summary.commentLines ++ (if verbose then [done] else []) ++
          (summary.failure?.map errorLine).toList) }

/-- The paths of all files and directories that a command reads, the directories first. -/
def reads (root : Text) : Command → List Text
  | .parse paths _ _ =>
      (if paths.isEmpty then [root] else paths.map (Path.join root)) ++
        [Path.join root Settings.fileName]
  | .type _ _ => []
  | .tokenize file => file.toList.map (Path.join root)

def readsInput : Command → Bool
  | .tokenize none => true
  | .tokenize (some file) => file == ['-']
  | _ => false

def execute (disk : Disk) (input : ByteArray) (invocation : Invocation) (tools : Tools := {}) :
    Outcome :=
  let root := invocation.root.getD disk.current
  match invocation.command with
  | .parse paths flags compact => runParse disk tools root invocation.verbose paths flags compact
  | .type expression json => runType tools.format expression json
  | .tokenize file => runTokenize disk tools.format root file input

def usage : Text :=
  "Usage: parse-comments [--root <ROOT>] [--verbose] <parse|type|tokenize|help>".toList

/-- What arguments that are not carried out come to: help and the version are no failures. -/
def refuse : CommandLine.Refusal → Outcome
  | .displayHelp => ⟨0, withFeeds [usage], []⟩
  | .displayVersion => ⟨0, withFeeds ["parse-comments 0.4.0".toList], []⟩
  | _ => ⟨2, [], withFeeds [usage]⟩

def run (disk : Disk) (input : ByteArray) (arguments : List Text) (tools : Tools := {}) : Outcome :=
  match CommandLine.read arguments with
  | .ok invocation => execute disk input invocation tools
  | .error refusal => refuse refusal

end Program

end Docblock
