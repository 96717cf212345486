import Mathlib.Data.List.Forall2
import Docblock.Program
import Docblock.Proofs.Files.Collecting
import Docblock.Proofs.Script.Nodes

/-!
# What `parse` accounts for

Every file that is selected is reported or counted as missing, and every comment of a reported file has an
entry, read or with its error. The code and the last message follow from what is written.
-/

set_option autoImplicit false

namespace Docblock

namespace Json

def elements : Json → List Json
  | .array values => values
  | _ => []

def get? (key : String) : Json → Option Json
  | .object members => members.findSome? fun
      | .mk name value => if name = key.toList then some value else none
  | _ => none

/-- The entries for comments in an array of reports on files. -/
def entries (reports : Json) : List Json :=
  reports.elements.flatMap fun report => ((report.get? "comments").map elements).getD []

def isError (entry : Json) : Bool :=
  (entry.get? "error").isSome

end Json

/-- Each source that has a tree has one whose comments are those of a grammar. -/
def SyntaxParser.FollowsGrammar (parser : SyntaxParser) : Prop :=
  ∀ language source root, parser.parse? language source = some root → ∃ isComment, root.Follows source isComment

theorem Script.parser_followsGrammar : Script.parser.FollowsGrammar := by
  rintro language source root ⟨⟩
  exact ⟨_, rootOf_follows _ source⟩

/-- A report holds the comments of a file that can be read and that there is a tree of, one by one and in order. -/
def FileReport.Covers (disk : Disk) (parser : SyntaxParser) (options : ReadOptions) (root path : Text)
    (report : FileReport) : Prop :=
  ∃ language text docs, Language.ofPath? path = some language ∧ disk.readText path = .ok text ∧
    parser.extract language text = .ok docs ∧ report.file = Path.below root path ∧
    report.comments = docs.map (CommentReport.ofDoc options) ∧
    (parser.FollowsGrammar → docs.Pairwise fun doc next =>
      doc.location.stop.byteIn text ≤ next.location.start.byteIn text)

theorem SyntaxParser.pairwise_of_extract {parser : SyntaxParser} {language : Language} {text : Text}
    {docs : List DocComment} (follows : parser.FollowsGrammar) (extracted : parser.extract language text = .ok docs) :
    docs.Pairwise fun doc next => doc.location.stop.byteIn text ≤ next.location.start.byteIn text := by
  unfold extract at extracted
  split at extracted
  · cases extracted
  · split at extracted
    · cases extracted
    · next root parsed =>
        cases extracted
        obtain ⟨isComment, follows⟩ := follows language text root parsed
        exact DocComment.pairwise_visitAll_root follows

theorem CommentReport.isError_toJson (report : CommentReport) :
    report.toJson.isError = report.error?.isSome := by
  obtain ⟨location, context, outcome⟩ := report
  cases context <;> cases outcome <;> rfl

namespace Disk

variable {disk : Disk} {parser : SyntaxParser} {options : ReadOptions} {root path : Text} {report : FileReport}

theorem covers_of_report (reported : disk.report options root path parser = .ok report) :
    report.Covers disk parser options root path := by
  obtain ⟨docs, read, rfl⟩ := report_eq_ok_iff.1 reported
  obtain ⟨language, text, known, decoded, extracted⟩ := extract_eq_ok_iff.1 read
  exact ⟨language, text, docs, known, decoded, extracted, rfl, rfl,
    fun follows => SyntaxParser.pairwise_of_extract follows extracted⟩

theorem isOk_report : (disk.report options root path parser).isOk = (disk.extract parser path).isOk := by
  unfold Disk.report
  cases disk.extract parser path <;> rfl

end Disk

namespace Program

namespace Summary

variable {disk : Disk} {parser : SyntaxParser} {options : ReadOptions} {root : Text} {files : List Text}

/-- The files whose comments can be extracted have their reports, in order, and the others their faults. -/
theorem ofFiles_accounts : List.Forall₂ (fun file report => report.Covers disk parser options root file)
      (files.filter fun file => (disk.extract parser file).isOk) (ofFiles disk options root parser files).reports ∧
    (ofFiles disk options root parser files).reports.length +
      (ofFiles disk options root parser files).faults.length = files.length := by
  induction files with
  | nil => exact ⟨.nil, rfl⟩
  | cons file files induction =>
      obtain ⟨covered, counted⟩ := induction
      have readable : (disk.report options root file parser).isOk = (disk.extract parser file).isOk := Disk.isOk_report
      rw [ofFiles]
      cases reported : disk.report options root file parser with
      | ok report =>
          rw [List.filter_cons_of_pos (by rw [← readable, reported]; rfl)]
          refine ⟨.cons (Disk.covers_of_report reported) covered, ?_⟩
          simp only [List.length_cons]
          omega
      | error fault =>
          rw [List.filter_cons_of_neg (by rw [← readable, reported]; simp [Except.isOk, Except.toBool])]
          refine ⟨covered, ?_⟩
          simp only [List.length_cons]
          omega

theorem entries_toJson (summary : Summary) : summary.toJson.entries =
    summary.reports.flatMap fun report => report.comments.map (·.toJson) := by
  rw [Summary.toJson, Json.entries, Json.elements, List.flatMap_map]
  rfl

theorem addUp_eq_countP {count : FileReport → Nat} {isCounted : Json → Bool}
    (counts : ∀ report, count report = (report.comments.map (·.toJson)).countP isCounted) (summary : Summary) :
    addUp count summary.reports = summary.toJson.entries.countP isCounted := by
  rw [entries_toJson]
  induction summary.reports with
  | nil => rfl
  | cons report reports induction =>
      rw [addUp, induction, counts, List.flatMap_cons, List.countP_append]

theorem total_eq (summary : Summary) : summary.total = summary.toJson.entries.length := by
  have counted : summary.total = summary.toJson.entries.countP fun _ => true :=
    addUp_eq_countP (fun report => by simp) summary
  rw [counted, List.countP_true]

theorem failed_eq (summary : Summary) : summary.failed = summary.toJson.entries.countP Json.isError := by
  refine addUp_eq_countP (fun report => ?_) summary
  rw [List.countP_map, FileReport.failures, ← List.countP_eq_length_filter]
  exact List.countP_congr fun comment _ => by rw [Function.comp_apply, CommentReport.isError_toJson]

end Summary

def failureMessage (errors comments missing : Nat) : Text :=
  Decimal.natText errors ++ " of ".toList ++ Decimal.natText comments ++
    " comments failed to parse, ".toList ++ Decimal.natText missing ++ " files could not be read".toList

section RunParse

variable {disk : Disk} {tools : Tools} {root : Text} {verbose compact : Bool} {paths files : List Text} {flags : Flags}

theorem runParse_of_error {refusal : CollectError}
    (refused : disk.collect (flags.exclusion (settingsOf disk root).exclude) root paths tools.walker = .error refusal) :
    runParse disk tools root verbose paths flags compact = failure refusal.message := by
  simp only [runParse, refused]

/-- What a run comes to, up to the messages before the last one. -/
theorem exists_runParse_of_ok
    (selected : disk.collect (flags.exclusion (settingsOf disk root).exclude) root paths tools.walker = .ok files) :
    let summary := Summary.ofFiles disk (flags.readOptions (settingsOf disk root).reading) root tools.parser files
    ∃ before, runParse disk tools root verbose paths flags compact =
      { code := if summary.failure?.isSome then 1 else 0
        output := withFeeds
          [if compact then tools.format.compact summary.toJson else tools.format.pretty 0 summary.toJson]
        errors := withFeeds (before ++ (summary.failure?.map errorLine).toList) } := by
  simp only [runParse, selected]
  exact ⟨_, rfl⟩

end RunParse

namespace Summary

theorem failure?_eq (summary : Summary) : summary.failure? =
    if summary.failed = 0 ∧ summary.faults.length = 0 then none
    else some (failureMessage summary.failed summary.total summary.faults.length) := by
  simp only [failure?, List.isEmpty_iff, List.length_eq_zero_iff]
  rfl

end Summary

/-- `parse` accounts for every selected file and every comment in it. What is written is the array of the
reports on the files whose comments can be extracted, each with one entry for each comment, in order. The code is
zero if all selected files are reported and no entry is an error; otherwise it is one, and the last message counts
the errors and the entries that are written and the files that are missing there. If the paths are refused,
nothing is written and the code is one. -/
theorem parse_accounts_for_files (disk : Disk) (tools : Tools) (input : ByteArray) (root : Option Text)
    (verbose compact : Bool) (paths : List Text) (flags : Flags) :
    let place := root.getD disk.current
    let settings := settingsOf disk place
    let options := flags.readOptions settings.reading
    let selection := disk.collect (flags.exclusion settings.exclude) place paths tools.walker
    let outcome := execute disk input ⟨root, verbose, .parse paths flags compact⟩ tools
    (∀ refusal, selection = .error refusal → outcome.output = [] ∧ outcome.code = 1) ∧
    (∀ files, selection = .ok files → ∃ reports : List FileReport, ∃ written : Json,
      written = .array (reports.map (·.toJson)) ∧
      outcome.output = (if compact then tools.format.compact written else tools.format.pretty 0 written) ++ ['\n'] ∧
      List.Forall₂ (fun file report => report.Covers disk tools.parser options place file)
        (files.filter fun file => (disk.extract tools.parser file).isOk) reports ∧
      (outcome.code = 0 ∨ outcome.code = 1) ∧
      (outcome.code = 0 ↔
        (∀ file ∈ files, (disk.extract tools.parser file).isOk = true) ∧
          ∀ entry ∈ written.entries, entry.isError = false) ∧
      (outcome.code = 1 → ∃ before, outcome.errors = withFeeds (before ++
        [errorLine (failureMessage (written.entries.countP Json.isError) written.entries.length
          (files.length - written.elements.length))]))) := by
  intro place settings options selection outcome
  constructor
  · intro refusal refused
    have failed : outcome = failure refusal.message := runParse_of_error refused
    rw [failed]
    exact ⟨rfl, rfl⟩
  · intro files selected
    obtain ⟨before, run⟩ : ∃ before, outcome = _ := exists_runParse_of_ok selected
    generalize reported : Summary.ofFiles disk _ place tools.parser files = summary at run
    obtain ⟨covered, counted⟩ : List.Forall₂ (fun file report => report.Covers disk tools.parser options place file)
        (files.filter fun file => (disk.extract tools.parser file).isOk) summary.reports ∧
        summary.reports.length + summary.faults.length = files.length := by
      rw [← reported]
      exact Summary.ofFiles_accounts
    have missing : files.length - summary.toJson.elements.length = summary.faults.length := by
      have written : summary.toJson.elements.length = summary.reports.length := List.length_map _
      omega
    have allRead : summary.faults.length = 0 ↔ ∀ file ∈ files, (disk.extract tools.parser file).isOk = true := by
      rw [← List.length_filter_eq_length_iff, covered.length_eq]
      omega
    have noError : summary.failed = 0 ↔ ∀ entry ∈ summary.toJson.entries, entry.isError = false := by
      rw [Summary.failed_eq, List.countP_eq_zero]
      simp only [Bool.not_eq_true]
    refine ⟨summary.reports, summary.toJson, rfl, ?_, covered, ?_, ?_, ?_⟩
    · rw [run]
      exact List.append_nil _
    · rw [run]
      exact (ite_eq_or_eq _ _ _).symm
    · rw [run, ← allRead, ← noError, and_comm (b := summary.failed = 0), Summary.failure?_eq]
      by_cases clean : summary.failed = 0 ∧ summary.faults.length = 0
      · simp [clean]
      · simp only [clean, if_false, Option.isSome_some, if_true, Nat.one_ne_zero]
    · rw [run, missing, ← Summary.failed_eq, ← Summary.total_eq, Summary.failure?_eq]
      by_cases clean : summary.failed = 0 ∧ summary.faults.length = 0
      · simp [clean]
      · intro _
        rw [if_neg clean]
        exact ⟨before, rfl⟩

def mixed : Disk where
  tree := .directory [("a.js".toList, .file "/** Sum. */".toUTF8), ("b.js".toList, .file ⟨#[255]⟩)]
  current := "/".toList

theorem undecodable_file_counted_missing :
    let outcome := fun path => execute mixed ⟨#[]⟩ ⟨none, false, .parse [path] {} false⟩
    Script.parser.FollowsGrammar ∧ (outcome "c.js".toList).output = [] ∧ (outcome "c.js".toList).code = 1 ∧
      (outcome "b.js".toList).code = 1 ∧
      (∃ before, (outcome "b.js".toList).errors =
        withFeeds (before ++ [errorLine "0 of 0 comments failed to parse, 1 files could not be read".toList])) ∧
      (outcome "a.js".toList).output ≠ [] := by
  intro outcome
  have account : ∀ path, _ := fun path => parse_accounts_for_files mixed {} ⟨#[]⟩ none false false [path] {}
  have missing : mixed.collect {} "/".toList ["c.js".toList] = .error (.notFound "/c.js".toList) := rfl
  have undecodable : mixed.collect {} "/".toList ["b.js".toList] = .ok ["/b.js".toList] :=
    Disk.collect_singleton (by decide +kernel)
  have readable : mixed.collect {} "/".toList ["a.js".toList] = .ok ["/a.js".toList] :=
    Disk.collect_singleton (by decide +kernel)
  have none : (mixed.extract Script.parser "/b.js".toList).isOk = false := by decide +kernel
  obtain ⟨refused, -⟩ := account "c.js".toList
  obtain ⟨-, reported⟩ := account "b.js".toList
  obtain ⟨reports, written, rfl, -, covered, either, clean, last⟩ := reported _ undecodable
  rw [List.filter_cons_of_neg (by rw [none]; exact Bool.false_ne_true), List.filter_nil] at covered
  cases covered
  have code : (outcome "b.js".toList).code = 1 :=
    either.resolve_left fun zero => by cases none.symm.trans ((clean.1 zero).1 _ (List.mem_singleton_self _))
  obtain ⟨before, errors⟩ := last code
  have message : failureMessage 0 0 1 = "0 of 0 comments failed to parse, 1 files could not be read".toList := by
    decide +kernel
  obtain ⟨-, reported'⟩ := account "a.js".toList
  obtain ⟨reports, written, -, output, -⟩ := reported' _ readable
  refine ⟨Script.parser_followsGrammar, (refused _ missing).1, (refused _ missing).2, code,
    ⟨before, errors.trans ?_⟩, ?_⟩
  · exact congrArg (fun text => withFeeds (before ++ [errorLine text])) message
  · rw [output]
    simp

end Program

end Docblock
