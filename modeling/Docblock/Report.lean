import Docblock.Files.Collect
import Docblock.Json.Encode
import Docblock.Script.Node

/-!
# Reports

What reading the documentation comments of a source file comes to: each comment with its place in the
file, read or with the error in it. A comment that cannot be read hides none of the others.
-/

set_option autoImplicit false

namespace Docblock

structure CommentReport where
  location : Location
  context : Option Text
  outcome : Except CommentError Comment

structure FileReport where
  file : Text
  comments : List CommentReport

inductive FileFault where
  | unsupported (suffix : Text)
  | unreadable (fault : FileTree.Fault)
  | unextracted (fault : ExtractFault)

/-- Why a file has no report. What lies behind a fault is named once more behind it. -/
def FileFault.message (path : Text) (fault : FileFault) : Text :=
  "Failed to extract comments from ".toList ++ path ++ ": ".toList ++
    match fault with
    | unsupported suffix => "Unsupported file extension: ".toList ++ suffix
    | unreadable fault =>
        "Failed to read file: ".toList ++ fault.message ++ ": ".toList ++ fault.message
    | unextracted (.grammar message) =>
        (ExtractFault.grammar message).message ++ ": ".toList ++ message
    | unextracted .noTree => ExtractFault.noTree.message

namespace CommentReport

/-- Reads a documentation comment of a file. The locations of its examples count lines from the
beginning of the file. -/
def ofDoc (options : ReadOptions) (doc : DocComment) : CommentReport where
  location := doc.location
  context := doc.context
  outcome := (Comment.read options doc.text).map fun comment =>
    { comment with examples := comment.examples.map fun piece =>
        { piece with location := piece.location.down doc.location.start.line } }

def error? (report : CommentReport) : Option CommentError :=
  match report.outcome with
  | .error e => some e
  | .ok _ => none

def toJson (report : CommentReport) : Json :=
  .object (Json.member "loc" report.location.toJson ::
    (Json.member? "context" (report.context.map .string) ++
      match report.outcome with
      | .ok comment => [Json.member "comment" comment.toJson]
      | .error e => [Json.member "error" (.string e.message)]))

end CommentReport

namespace FileReport

def ofDocs (options : ReadOptions) (file : Text) (docs : List DocComment) : FileReport :=
  ⟨file, docs.map (CommentReport.ofDoc options)⟩

def failures (report : FileReport) : Nat :=
  (report.comments.filter fun comment => comment.error?.isSome).length

def toJson (report : FileReport) : Json :=
  .object [Json.member "file" (.string report.file),
    Json.member "comments" (.array (report.comments.map (·.toJson)))]

end FileReport

namespace Disk

def extract (disk : Disk) (parser : SyntaxParser) (path : Text) : Except FileFault (List DocComment) :=
  match Language.ofPath? path with
  | none => .error (.unsupported ((Language.pathSuffix? path).getD []))
  | some language =>
      match disk.readText path with
      | .error fault => .error (.unreadable fault)
      | .ok text => (parser.extract language text).mapError .unextracted

/-- The report on a file, which is named by its path below the root. -/
def report (disk : Disk) (options : ReadOptions) (root path : Text)
    (parser : SyntaxParser := Script.parser) : Except FileFault FileReport :=
  (disk.extract parser path).map (.ofDocs options (Path.below root path))

variable {disk : Disk} {parser : SyntaxParser} {options : ReadOptions} {root path : Text} {docs : List DocComment}
  {report : FileReport}

theorem extract_eq_ok_iff : disk.extract parser path = .ok docs ↔
    ∃ language text, Language.ofPath? path = some language ∧ disk.readText path = .ok text ∧
      parser.extract language text = .ok docs := by
  unfold extract
  cases Language.ofPath? path with
  | none => simp
  | some language =>
      cases disk.readText path with
      | error fault => simp
      | ok text =>
          delta Except.mapError
          cases extracted : parser.extract language text <;> simp [extracted]

theorem report_eq_ok_iff : disk.report options root path parser = .ok report ↔
    ∃ docs, disk.extract parser path = .ok docs ∧ .ofDocs options (Path.below root path) docs = report := by
  unfold Disk.report
  cases disk.extract parser path <;> simp [Except.map]

end Disk

end Docblock
