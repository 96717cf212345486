import Mathlib.Data.List.Nodup
import Docblock.Proofs.Script.Nodes

/-!
# Extraction

Of a source whose tree has the comments of its grammar, in order and where they stand, all the block comments that are
documentation are extracted, each once and as it stands in the source.
-/

set_option autoImplicit false

namespace Docblock

/-- The documentation comments of a source are slices of it, each behind the ones before it, between the bytes that
their locations name. Each begins with a slash and two stars, is not the shortest of comments and ends where a comment
first can. They are comments of the grammar, and all the comments of the grammar of that kind, each once. -/
theorem SyntaxParser.extraction_exact (parser : SyntaxParser) {language : Language} {source : Text}
    {root : Syntax.Node} {isComment : Nat → Nat → Prop} (loaded : parser.refusal? language = none)
    (parsed : parser.parse? language source = some root) (follows : root.Follows source isComment) :
    ∃ docs, parser.extract language source = .ok docs ∧
      docs.Pairwise (fun doc next =>
        doc.location.stop.byteIn source ≤ next.location.start.byteIn source) ∧
      (∀ doc ∈ docs, ∃ before after, doc.StandsIn source before after ∧
        doc.location.start.byteIn source < doc.location.stop.byteIn source ∧
        source.utf8Encode.extract (doc.location.start.byteIn source) (doc.location.stop.byteIn source) =
          doc.text.utf8Encode ∧
        ¬ "/**/".toList <+: doc.text ∧
        (∃ body, doc.text = "/**".toList ++ (body ++ "*/".toList) ∧ Syntax.Uncut body) ∧
        isComment (doc.location.start.byteIn source) (doc.location.stop.byteIn source)) ∧
      ∀ start stop text, isComment start stop → Text.Slice source start stop text →
        "/**".toList <+: text → ¬ "/**/".toList <+: text →
          (docs.map fun doc => (doc.location.start.byteIn source, doc.text)).count (start, text) = 1 := by
  refine ⟨DocComment.visitAll source [root], ?_, DocComment.pairwise_visitAll_root follows, ?_, ?_⟩
  · simp only [extract, loaded, parsed]
  · intro doc inside
    obtain ⟨⟨before, after, stands⟩, isDoc, isText, isComment⟩ := DocComment.exists_standsIn_of_mem follows inside
    obtain ⟨stars, filled⟩ := DocComment.isDoc_iff.1 isDoc
    exact ⟨before, after, stands, stands.byteIn_lt isDoc, stands.slice, filled, isText.exists_body stars filled,
      isComment⟩
  · intro start stop text here slice stars filled
    obtain ⟨doc, inside, rfl, rfl⟩ :=
      DocComment.exists_mem_of_isComment follows here slice (DocComment.isDoc_iff.2 ⟨stars, filled⟩)
    exact List.count_eq_one_of_mem (DocComment.nodup_map_visitAll_root follows) (List.mem_map_of_mem inside)

/-- A source with what looks like comments in a regular expression, a template and a string. -/
def disguised : Text :=
  "x=/[/**]/+\x60/** a */$\x7b'/**/'\x7d\x60//** b */\n/** c */".toList

theorem SyntaxParser.disguised_comments_passed_over :
    Script.parser.refusal? .javascript = none ∧
    Script.parser.parse? .javascript disguised = some (Script.rootOf ⟨false, true⟩ disguised) ∧
    (Script.rootOf ⟨false, true⟩ disguised).Follows disguised (Script.CommentAt ⟨false, true⟩ disguised) ∧
    Script.CommentAt ⟨false, true⟩ disguised 39 47 ∧
    ∃ docs, Script.parser.extract .javascript disguised = .ok docs ∧
      (docs.map fun doc => (doc.location.start.byteIn disguised, doc.text)).count (39, "/** c */".toList) = 1 ∧
      docs.length = 1 ∧ ∀ doc ∈ docs, ∃ body, doc.text = "/**".toList ++ (body ++ "*/".toList) ∧ Syntax.Uncut body := by
  have follows := Script.rootOf_follows ⟨false, true⟩ disguised
  have last : Script.CommentAt ⟨false, true⟩ disguised 39 47 := by
    unfold Script.CommentAt
    decide +kernel
  have slice : Text.Slice disguised 39 47 "/** c */".toList := ⟨disguised.take 39, [], by decide, by decide, by decide⟩
  obtain ⟨docs, extracted, -, each, all⟩ :=
    extraction_exact Script.parser (rfl : Script.parser.refusal? .javascript = none) rfl follows
  have only : docs.length = 1 := by
    have counted : (Script.parser.extract .javascript disguised).toOption.map List.length = some 1 := by decide +kernel
    rw [extracted] at counted
    exact Option.some.inj counted
  refine ⟨rfl, rfl, follows, last, docs, extracted, all 39 47 _ last slice (by decide) (by decide), only, ?_⟩
  intro doc inside
  obtain ⟨before, after, -, -, -, -, body, -⟩ := each doc inside
  exact body

end Docblock
