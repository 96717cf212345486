import Docblock.Report
import Docblock.Proofs.Comment.Placement
import Docblock.Proofs.Script.Nodes

/-!
# Examples in the lines of a file

A report counts the lines of examples from the beginning of the file. They are counted in the lines of the
comment first; the comment is cut out of the source, and its row is the number of line feeds before it.
-/

set_option autoImplicit false

namespace Docblock

open Text

/-- The row of each comment in a tree is the number of line feeds in front of the comment. -/
def SyntaxParser.CountsRows (parser : SyntaxParser) : Prop :=
  ∀ language source root, parser.parse? language source = some root → ∀ node ∈ root.comments,
    ∀ before after, source = before ++ after → byteSize before = node.extent.startByte →
      node.extent.startPosition.line = before.count '\n'

theorem Script.parser_countsRows : Script.parser.CountsRows := by
  rintro language source root ⟨⟩ node met before after whole size
  obtain ⟨front, text, behind, whole', extent, -⟩ := (rootOf_follows _ source).placed node met
  rw [extent] at size ⊢
  obtain ⟨rfl, -⟩ := append_inj_of_byteSize (whole.symm.trans whole') size
  rfl

theorem SyntaxParser.exists_append_of_mem_extract {parser : SyntaxParser} {language : Language} {source : Text}
    {docs : List DocComment} {doc : DocComment} (counts : parser.CountsRows)
    (extracted : parser.extract language source = .ok docs) (inside : doc ∈ docs) :
    DocComment.isDoc doc.text = true ∧
      ∃ before after, source = before ++ (doc.text ++ after) ∧
        doc.location.start.line = before.count '\n' := by
  unfold extract at extracted
  split at extracted
  · cases extracted
  · split at extracted
    · cases extracted
    · next root parsed =>
        cases extracted
        obtain ⟨comment, met, found⟩ := DocComment.exists_of_mem_visitAll_root inside
        obtain ⟨⟨before, after, whole, start, -⟩, isDoc, located⟩ := DocComment.found?_eq_some_iff.1 found
        refine ⟨isDoc, before, after, whole, ?_⟩
        rw [located]
        exact counts language source root parsed comment met before _ whole start.symm

namespace Comment

/-- Nothing but the opening delimiter is taken off the front of a documentation comment. -/
theorem exists_append_stripDelimiters {text : Text} (isDoc : DocComment.isDoc text = true) :
    ∃ after, text = ['/', '*', '*'] ++ (stripDelimiters text ++ after) := by
  simp only [DocComment.isDoc, Bool.and_eq_true] at isDoc
  obtain ⟨rest, rfl⟩ := List.isPrefixOf_iff_prefix.1 isDoc.1
  have slash : isBlank '/' = false := by decide
  have star : isBlank '*' = false := by decide
  have trimmed : trim ("/**".toList ++ rest) = ['/', '*', '*'] ++ trimEnd rest := by
    calc trim ('/' :: '*' :: '*' :: rest) = trimEnd ('/' :: '*' :: '*' :: rest) := by
          rw [trim, trimStart_of_visible slash]
      _ = '/' :: '*' :: '*' :: trimEnd rest := by
          rw [trimEnd_cons_of_visible slash, trimEnd_cons_of_visible star, trimEnd_cons_of_visible star]
  obtain ⟨blanks, -, kept⟩ := exists_trimEnd_append_blank rest
  have stripped : stripDelimiters ("/**".toList ++ rest) =
      (stripSuffix ['*', '/'] (trimEnd rest)).getD (trimEnd rest) := by
    simp only [stripDelimiters, trimmed, stripPrefix_eq_some_iff.2 rfl, Option.some_or, Option.getD_some]
  rw [stripped]
  cases closed : stripSuffix ['*', '/'] (trimEnd rest) with
  | none => exact ⟨blanks, congrArg ("/**".toList ++ ·) kept⟩
  | some body =>
      refine ⟨['*', '/'] ++ blanks, ?_⟩
      rw [stripSuffix_eq_some_iff.1 closed, List.append_assoc] at kept
      exact congrArg ("/**".toList ++ ·) kept

theorem within_body (options : ReadOptions) {text : Text} (isDoc : DocComment.isDoc text = true) :
    Within 0 (pieces (if options.unwrap then stripDelimiters text else text)) (pieces text) := by
  by_cases unwrap : options.unwrap = true
  · rw [if_pos unwrap]
    obtain ⟨after, whole⟩ := exists_append_stripDelimiters isDoc
    have within := within_pieces ['/', '*', '*'] (stripDelimiters text) after
    rw [← whole] at within
    exact within
  · rw [if_neg unwrap]
    have within : Within 0 (pieces text) ([] ++ (pieces text ++ [])) := Within.of_append
    rwa [List.nil_append, List.append_nil] at within

end Comment

namespace CommentReport

/-- The examples of a comment that is read in place stand in the lines of the source. -/
theorem standsIn_ofDoc {options : ReadOptions} {source before after : Text} {doc : DocComment} {comment : Comment}
    (isDoc : DocComment.isDoc doc.text = true) (whole : source = before ++ (doc.text ++ after))
    (line : doc.location.start.line = before.count '\n') (success : (ofDoc options doc).outcome = .ok comment) :
    ∀ piece ∈ comment.examples, Comment.StandsIn (pieces source) piece := by
  obtain ⟨read, run, rfl⟩ := Comment.exists_of_map_eq_ok success
  intro piece member
  obtain ⟨original, ofComment, rfl⟩ := List.mem_map.1 member
  have stands := (Comment.standsIn_read run original ofComment).down (Comment.within_body options isDoc)
  have outer := Comment.within_pieces before doc.text after
  rw [← whole, ← line] at outer
  exact stands.down outer

end CommentReport

/-- The location of an example in the report on a file names the lines of the file that the example stands
in: as many as it has, and each line of the example, trimmed, is a part of the line of the file. -/
theorem report_locates_examples {parser : SyntaxParser} (counts : parser.CountsRows) {disk : Disk}
    {options : ReadOptions} {root path : Text} {report : FileReport}
    (reported : disk.report options root path parser = .ok report) :
    ∃ source, disk.readText path = .ok source ∧
      ∀ entry ∈ report.comments, ∀ comment, entry.outcome = .ok comment → ∀ piece ∈ comment.examples,
        piece.location.start.line ≤ piece.location.stop.line ∧
        piece.rawLines.length = piece.location.stop.line - piece.location.start.line + 1 ∧
        ∀ j line, piece.rawLines[j]? = some line →
          ∃ fileLine, (pieces source)[piece.location.start.line + j]? = some fileLine ∧
            trim line <:+: fileLine := by
  obtain ⟨docs, read, rfl⟩ := Disk.report_eq_ok_iff.1 reported
  obtain ⟨language, source, -, text, extracted⟩ := Disk.extract_eq_ok_iff.1 read
  refine ⟨source, text, fun entry inside comment success piece member => ?_⟩
  obtain ⟨doc, among, rfl⟩ := List.mem_map.1 inside
  obtain ⟨isDoc, before, after, whole, line⟩ := SyntaxParser.exists_append_of_mem_extract counts extracted among
  have stands := CommentReport.standsIn_ofDoc isDoc whole line success piece member
  refine ⟨stands.ordered, stands.count, fun j line here => ?_⟩
  obtain ⟨fileLine, found, part⟩ := stands.within j line here
  exact ⟨fileLine, found, (Comment.Line.isInfix_trim line).trans part⟩

theorem decode?_toUTF8 (source : String) : decode? source.toUTF8 = some source.toList := by
  simp [decode?, String.fromUTF8?, String.fromUTF8, source.isValidUTF8]

theorem second_line_of_example_located :
    let source := "sum\n/**\n * @example\n *   sum()\n */"
    let disk : Disk := ⟨.directory [("a.js".toList, .file source.toUTF8)], "/".toList⟩
    ∃ report, disk.report {} [] "a.js".toList = .ok report ∧
      ∃ entry ∈ report.comments, ∃ comment, entry.outcome = .ok comment ∧ ∃ piece ∈ comment.examples,
        piece.location = .ofLines 2 3 7 ∧ piece.rawLines.length = 2 ∧
          ∀ line, piece.rawLines[1]? = some line → trim line <:+: " *   sum()".toList := by
  intro source disk
  have found : disk.find "a.js".toList = .ok (.file source.toUTF8) := rfl
  have text : disk.readText "a.js".toList = .ok source.toList := by
    simp only [Disk.readText, found, bind, Except.bind, decode?_toUTF8]
  have language : Language.ofPath? "a.js".toList = some .javascript := by decide +kernel
  let report := FileReport.ofDocs {} (Path.below [] "a.js".toList) (DocComment.ofSource .javascript source.toList)
  have reported : disk.report {} [] "a.js".toList = .ok report := by
    simp only [Disk.report, Disk.extract, language, text, Script.extract_parser, report]
    rfl
  have located : (report.comments.any fun entry => entry.outcome.toOption.any fun comment =>
      comment.examples.any (·.location == .ofLines 2 3 7)) = true := by decide +kernel
  obtain ⟨same, again, inLines⟩ := report_locates_examples Script.parser_countsRows reported
  rw [text] at again
  cases again
  obtain ⟨entry, inside, here⟩ := List.any_eq_true.1 located
  refine ⟨report, reported, entry, inside, ?_⟩
  cases read : entry.outcome with
  | error fault => simp [read, Except.toOption] at here
  | ok comment =>
      simp only [read, Except.toOption, Option.any_some, List.any_eq_true, beq_iff_eq] at here
      obtain ⟨piece, member, place⟩ := here
      obtain ⟨-, count, each⟩ := inLines entry inside comment read piece member
      rw [place] at count each
      refine ⟨comment, rfl, piece, member, place, count, ?_⟩
      intro line second
      obtain ⟨fileLine, number, part⟩ := each 1 line second
      have fourth : (pieces source.toList)[(Location.ofLines 2 3 7).start.line + 1]? =
          some " *   sum()".toList := by decide +kernel
      rw [fourth] at number
      cases number
      exact part

end Docblock
