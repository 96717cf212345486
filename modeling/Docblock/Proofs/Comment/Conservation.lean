import Docblock.Comment.Outline
import Docblock.Proofs.Comment.Content

/-!
# No line of a comment is lost or repeated

Every line of a body that is not blank goes into exactly one part of its outline: the description, an
example or the text that describes it, a tag, or the footer. Within a part the lines keep their order.
-/

set_option autoImplicit false

namespace Docblock.Comment

open Text Line

def Feedless (lines : List Text) : Prop :=
  ∀ line ∈ lines, '\n' ∉ line

namespace Feedless

variable {lines others : List Text}

theorem append_iff : Feedless (lines ++ others) ↔ Feedless lines ∧ Feedless others := by
  simp [Feedless, or_imp, forall_and]

theorem cons_iff {line : Text} : Feedless (line :: lines) ↔ '\n' ∉ line ∧ Feedless lines := by
  simp [Feedless]

theorem map {f : Text → Text} (part : ∀ line c, c ∈ f line → c ∈ line) (feedless : Feedless lines) :
    Feedless (lines.map f) := by
  intro line inside
  obtain ⟨original, member, rfl⟩ := List.mem_map.1 inside
  exact fun feed => feedless original member (part _ _ feed)

end Feedless

namespace Line

theorem mem_of_mem_dedent (n : Nat) (line : Text) (c : Char) (inside : c ∈ dedent n line) :
    c ∈ line := by
  fun_induction dedent n line <;> simp_all

theorem trim_dedent (n : Nat) (line : Text) : trim (dedent n line) = trim line := by
  fun_induction dedent n line with
  | case1 | case2 => rfl
  | case3 n c rest indent induction =>
      have blank : isBlank c = true := by
        rcases (by simpa [isIndent] using indent : c = ' ' ∨ c = '\t') with rfl | rfl <;> decide
      rw [induction, trim_blank_cons blank]
  | case4 => rfl

theorem mem_of_mem_stripMarker (line : Text) (c : Char) (inside : c ∈ stripMarker line) : c ∈ line := by
  have start : ∀ c, c ∈ trimStart line → c ∈ line := fun c inside =>
    (List.dropWhile_sublist isBlank).subset inside
  unfold stripMarker at inside
  split at inside
  · next shape => exact start c (by simp [shape, inside])
  · next shape => exact start c (by simp [shape, inside])
  · exact inside

theorem mem_of_mem_trimEnd (line : Text) (c : Char) (inside : c ∈ trimEnd line) : c ∈ line := by
  obtain ⟨blanks, -, whole⟩ := exists_trimEnd_append_blank line
  rw [whole]
  exact List.mem_append_left _ inside

theorem feedless_pieces (text : Text) : Feedless (pieces text) := by
  induction text with
  | nil => simp [Feedless, pieces]
  | cons c text induction =>
      simp only [pieces]
      split
      · exact Feedless.cons_iff.2 ⟨by simp, induction⟩
      · next noFeed =>
          split
          · exact Feedless.cons_iff.2 ⟨by simp [Ne.symm noFeed], by simp [Feedless]⟩
          · next first more shape =>
              rw [shape, Feedless.cons_iff] at induction
              exact Feedless.cons_iff.2 ⟨by simp [Ne.symm noFeed, induction.1], induction.2⟩

theorem mem_of_mem_dropReturn (line : Text) (c : Char) (inside : c ∈ dropReturn line) : c ∈ line := by
  unfold dropReturn at inside
  cases found : stripSuffix ['\r'] line with
  | none => simpa [found] using inside
  | some kept =>
      rw [stripSuffix_eq_some_iff.1 found]
      simp only [found, Option.getD_some] at inside
      exact List.mem_append_left _ inside

theorem feedless_lines (text : Text) : Feedless (Text.lines text) := by
  obtain ⟨front, last, shape⟩ : ∃ front last, pieces text = front ++ [last] :=
    ⟨_, _, (List.dropLast_concat_getLast (pieces_ne_nil text)).symm⟩
  have feedless := feedless_pieces text
  rw [shape, Feedless.append_iff] at feedless
  have returns := feedless.1.map mem_of_mem_dropReturn
  simp only [Text.lines, shape, List.getLast?_append, List.getLast?_singleton, Option.some_or,
    List.dropLast_concat]
  cases last with
  | nil => exact returns
  | cons c last => exact Feedless.append_iff.2 ⟨returns, feedless.2⟩

theorem feedless_prepare (wrapped : Bool) (body : Text) : Feedless (prepare wrapped body) := by
  unfold prepare
  refine Feedless.map (fun line c inside => ?_) ?_
  · split at inside
    · simp at inside
    · exact mem_of_mem_dedent _ _ _ (mem_of_mem_trimEnd _ _ inside)
  · split
    · exact (feedless_lines body).map mem_of_mem_stripMarker
    · exact feedless_lines body

end Line

namespace Block

variable {lines more : List Text} {first : Text}

theorem textContent_append_withFeedBefore {a : Text} (feedless : Feedless lines) :
    textContent (a ++ withFeedBefore lines) = textContent a ++ content lines := by
  induction lines generalizing a with
  | nil => simp [withFeedBefore]
  | cons line lines induction =>
      rw [Feedless.cons_iff] at feedless
      have shape : withFeedBefore (line :: lines) = '\n' :: (line ++ withFeedBefore lines) := by
        simp [withFeedBefore]
      rw [shape, textContent_append_feed, induction feedless.2, textContent_line feedless.1,
        ← content_append, List.singleton_append]

theorem textContent_withFeedBehind (feedless : Feedless lines) :
    textContent (withFeedBehind lines) = content lines := by
  induction lines with
  | nil => rfl
  | cons line lines induction =>
      rw [Feedless.cons_iff] at feedless
      have shape : withFeedBehind (line :: lines) = line ++ '\n' :: withFeedBehind lines := by
        simp [withFeedBehind]
      rw [shape, textContent_append_feed, induction feedless.2, textContent_line feedless.1,
        ← content_append, List.singleton_append]

theorem textContent_raw_build (kind : ExampleKind) (lineNo : Nat) (description : Text)
    (feedless : Feedless (first :: more)) :
    textContent (build kind lineNo first more description).raw = content (first :: more) := by
  cases kind with
  | javadoc => exact textContent_withFeedBehind feedless
  | indented => exact textContent_withFeedBehind feedless
  | fenced =>
      have dedented := feedless.map (mem_of_mem_dedent (indentation first))
      rw [List.map_cons, Feedless.cons_iff] at dedented
      calc textContent (dedent (indentation first) first ++
            withFeedBefore (more.map (dedent (indentation first))))
          = content [dedent (indentation first) first] ++
              content (more.map (dedent (indentation first))) := by
            rw [textContent_append_withFeedBefore dedented.2, textContent_line dedented.1]
        _ = content ((first :: more).map (dedent (indentation first))) := content_cons.symm
        _ = content (first :: more) := content_map (trim_dedent (indentation first))

theorem description_build (kind : ExampleKind) (lineNo : Nat) (first : Text) (more : List Text)
    (description : Text) :
    (build kind lineNo first more description).description = description := by
  cases kind <;> rfl

theorem splitBlankTail_blanks (lines : List Text) : ∀ line ∈ (splitBlankTail lines).2, line = [] := by
  fun_induction splitBlankTail lines <;> simp_all <;> assumption

theorem content_splitBlankTail (lines : List Text) :
    content (splitBlankTail lines).1 = content lines := by
  have blanks := splitBlankTail_blanks lines
  have none : content (splitBlankTail lines).2 = [] := by
    simp only [content, List.map_eq_nil_iff, List.filter_eq_nil_iff]
    intro line inside
    simp [blanks line inside]
  have whole := congrArg content (splitBlankTail_append lines)
  rwa [content_append, none, List.append_nil] at whole

end Block

def Outline.parts (outline : Outline) : List Text :=
  outline.description :: outline.footer ::
    outline.examples.flatMap (fun piece => [piece.description, piece.raw]) ++
      outline.tags.map RawTag.raw

namespace Prose

/-- The content of an example: of the paragraph that describes it, and of its lines. -/
def exampleContent (piece : Example) : List Text :=
  textContent piece.description ++ textContent piece.raw

/-- What has been read holds the content of the lines that have been seen, each in one place and in
their order. -/
structure Holds (prose : Prose) (seen : List Text) : Prop where
  feedless : Feedless prose.pending
  whole : (prose.paragraphs.flatMap textContent ++ content prose.pending ++
    prose.examples.flatMap exampleContent).Perm (content seen)
  text : (prose.paragraphs.flatMap textContent ++ content prose.pending).Sublist (content seen)
  examples : ∀ piece ∈ prose.examples, (textContent piece.description).Sublist (content seen) ∧
    (textContent piece.raw).Sublist (content seen)

theorem holds_start : Holds ⟨[], [], []⟩ [] := by
  refine ⟨?_, ?_, ?_, ?_⟩ <;> simp [Feedless]

variable {prose : Prose} {seen : List Text}

theorem content_addParagraph (paragraphs : List Text) (paragraph : Text) :
    (addParagraph paragraphs paragraph).flatMap textContent =
      paragraphs.flatMap textContent ++ textContent paragraph := by
  unfold addParagraph
  split
  · next empty => simp [List.isEmpty_iff.1 empty]
  · simp

/-- The pending lines before an example are kept or adopted, but for blank ones behind them. -/
theorem adopt_append (hasPrevious : Bool) (pending : List Text) :
    (adopt hasPrevious pending).1 ++ (adopt hasPrevious pending).2 =
      (Block.splitBlankTail pending).1 := by
  rcases shape : Block.splitBlankTail pending with ⟨content, gap⟩
  simp only [adopt, shape]
  split
  · rw [← List.reverse_append, List.takeWhile_append_dropWhile, List.reverse_reverse]
  · simp

theorem feedless_adopt {pending : List Text} (hasPrevious : Bool) (feedless : Feedless pending) :
    Feedless (adopt hasPrevious pending).1 ∧ Feedless (adopt hasPrevious pending).2 := by
  have whole := Block.splitBlankTail_append pending
  rw [← whole, Feedless.append_iff, ← adopt_append hasPrevious, Feedless.append_iff] at feedless
  exact feedless.1

theorem holds_addLine (holds : prose.Holds seen) {line : Text} (noFeed : '\n' ∉ line) :
    (prose.addLine line).Holds (seen ++ [line]) where
  feedless := Feedless.append_iff.2 ⟨holds.feedless, by simpa [Feedless] using noFeed⟩
  whole := by
    let paragraphs := prose.paragraphs.flatMap textContent
    let examples := prose.examples.flatMap exampleContent
    calc paragraphs ++ content (prose.pending ++ [line]) ++ examples
        = paragraphs ++ content prose.pending ++ (content [line] ++ examples) := by simp
      List.Perm _ (paragraphs ++ content prose.pending ++ (examples ++ content [line])) :=
          List.perm_append_comm.append_left _
      _ = paragraphs ++ content prose.pending ++ examples ++ content [line] := by simp
      List.Perm _ (content seen ++ content [line]) := holds.whole.append_right _
      _ = content (seen ++ [line]) := content_append.symm
  text := by
    simp only [addLine, content_append, ← List.append_assoc]
    exact holds.text.append (List.Sublist.refl _)
  examples := by
    intro piece inside
    obtain ⟨description, raw⟩ := holds.examples piece inside
    rw [content_append]
    exact ⟨description.trans (List.sublist_append_left _ _), raw.trans (List.sublist_append_left _ _)⟩

theorem holds_addExample (holds : prose.Holds seen) (kind : ExampleKind) (lineNo : Nat) {first : Text}
    {more : List Text} (feedless : Feedless (first :: more)) :
    (prose.addExample kind lineNo first more).Holds (seen ++ first :: more) := by
  let halves := adopt (!prose.examples.isEmpty) prose.pending
  obtain ⟨keptFeedless, adoptedFeedless⟩ := feedless_adopt (!prose.examples.isEmpty) holds.feedless
  have pending : content prose.pending = content halves.1 ++ content halves.2 := by
    rw [← content_append, adopt_append, Block.content_splitBlankTail]
  have kept : (addParagraph prose.paragraphs (paragraph halves.1)).flatMap textContent =
      prose.paragraphs.flatMap textContent ++ content halves.1 := by
    rw [content_addParagraph, textContent_paragraph keptFeedless]
  have described : textContent (paragraph halves.2) = content halves.2 :=
    textContent_paragraph adoptedFeedless
  have raw := Block.textContent_raw_build kind lineNo (paragraph halves.2) feedless
  have description := Block.description_build kind lineNo first more (paragraph halves.2)
  have before := List.sublist_append_left (content seen) (content (first :: more))
  have added : exampleContent (Block.build kind lineNo first more (paragraph halves.2)) =
      content halves.2 ++ content (first :: more) := by
    rw [exampleContent, description, described, raw]
  constructor
  case feedless => simp [addExample, Feedless]
  case whole =>
    let paragraphs := prose.paragraphs.flatMap textContent
    let examples := prose.examples.flatMap exampleContent
    have whole : (paragraphs ++ content prose.pending ++ examples).Perm (content seen) := holds.whole
    rw [pending] at whole
    calc (addParagraph prose.paragraphs (paragraph halves.1)).flatMap textContent ++ content [] ++
          (prose.examples ++ [Block.build kind lineNo first more (paragraph halves.2)]).flatMap
            exampleContent
        = paragraphs ++ content halves.1 ++ (examples ++ content halves.2 ++
            content (first :: more)) := by simp [kept, added, paragraphs, examples]
      List.Perm _ (paragraphs ++ content halves.1 ++ (content halves.2 ++ examples ++
            content (first :: more))) :=
          (List.perm_append_comm.append_right _).append_left _
      _ = paragraphs ++ (content halves.1 ++ content halves.2) ++ examples ++
            content (first :: more) := by simp
      List.Perm _ (content seen ++ content (first :: more)) := whole.append_right _
      _ = content (seen ++ first :: more) := content_append.symm
  case text =>
    have text := holds.text
    rw [pending, ← List.append_assoc] at text
    rw [content_append]
    simp only [addExample, content_nil, List.append_nil]
    rw [kept]
    exact (List.sublist_append_left _ _).trans (text.trans before)
  case examples =>
    intro piece inside
    rw [content_append]
    simp only [addExample, List.mem_append, List.mem_singleton] at inside
    rcases inside with inside | rfl
    · obtain ⟨ofDescription, ofRaw⟩ := holds.examples piece inside
      exact ⟨ofDescription.trans before, ofRaw.trans before⟩
    · rw [description, described, raw]
      have adopted : (content halves.2).Sublist (content seen) := by
        have text := holds.text
        rw [pending] at text
        exact ((List.sublist_append_right _ _).trans (List.sublist_append_right _ _)).trans text
      exact ⟨adopted.trans before, List.sublist_append_right _ _⟩

theorem isSome_tag?_of_startOf {pending : List Text} {line : Text} (start : startOf pending line = .tag) :
    (tag? line).isSome = true := by
  unfold startOf at start
  cases found : tag? line with
  | some value => rfl
  | none =>
      rw [found] at start
      simp only at start
      split at start
      · split at start <;> cases start
      · split at start <;> cases start

/-- The lines that reading prose leaves are all that it has not passed, and the first begins a tag. -/
theorem holds_read (lineNo : Nat) {lines : List Text} (holds : prose.Holds seen)
    (feedless : Feedless lines) :
    ∃ passed, passed ++ (read prose lineNo lines).2.2 = lines ∧
      (read prose lineNo lines).1.Holds (seen ++ passed) ∧
      ∀ line rest, (read prose lineNo lines).2.2 = line :: rest → (tag? line).isSome = true := by
  fun_induction read prose lineNo lines generalizing seen with
  | case1 prose lineNo => exact ⟨[], rfl, by simpa using holds, by simp⟩
  | case2 prose lineNo line rest start =>
      refine ⟨[], rfl, by simpa using holds, ?_⟩
      intro first others shape
      cases shape
      exact isSome_tag?_of_startOf start
  | case3 prose lineNo line rest start induction =>
      rw [Feedless.cons_iff] at feedless
      obtain ⟨passed, whole, holds, tagged⟩ :=
        induction (holds_addLine holds feedless.1) feedless.2
      refine ⟨line :: passed, by rw [List.cons_append, whole], ?_, tagged⟩
      simpa using holds
  | case4 prose lineNo line rest kind start halves shorter =>
      rename_i induction
      have cut := Block.cut_append kind rest
      rw [Feedless.cons_iff, ← cut, Feedless.append_iff] at feedless
      obtain ⟨noFeed, ofBlock, ofRest⟩ := feedless
      obtain ⟨passed, whole, holds, tagged⟩ :=
        induction (holds_addExample holds kind lineNo (Feedless.cons_iff.2 ⟨noFeed, ofBlock⟩)) ofRest
      refine ⟨line :: halves.1 ++ passed, ?_, ?_, tagged⟩
      · rw [List.append_assoc, whole, List.cons_append, cut]
      · simpa using holds

end Prose

namespace OpenTag

theorem textContent_close {tag : OpenTag} (feedless : Feedless tag.raw) :
    textContent tag.close.raw = content tag.raw := by
  rw [close, textContent_trimEnd, textContent_unlines feedless]

theorem content_ofLine (key val line : Text) (lineNo : Nat) :
    content (ofLine key val line lineNo).raw = content [line] :=
  content_eq_of_trim_eq (trim_trim line)

theorem feedless_ofLine {line : Text} (key val : Text) (lineNo : Nat) (noFeed : '\n' ∉ line) :
    Feedless (ofLine key val line lineNo).raw := by
  refine Feedless.cons_iff.2 ⟨fun feed => noFeed ?_, by simp [Feedless]⟩
  exact (List.dropWhile_sublist isBlank).subset (Line.mem_of_mem_trimEnd _ _ feed)

end OpenTag

/-- The tags and the footer behind them hold what the lines of an open tag and those after it hold,
in this order. -/
theorem content_readTags {tag : OpenTag} {lines : List Text} (blanks lineNo : Nat)
    (ofTag : Feedless tag.raw) (feedless : Feedless lines) :
    (readTags (some tag) blanks lineNo lines).1.flatMap (textContent ·.raw) ++
        textContent (readTags (some tag) blanks lineNo lines).2 =
      content tag.raw ++ content lines := by
  induction lines generalizing tag blanks lineNo with
  | nil => simp [readTags, OpenTag.textContent_close ofTag]
  | cons line rest induction =>
      have noFeed := (Feedless.cons_iff.1 feedless).1
      have ofRest := (Feedless.cons_iff.1 feedless).2
      have pushed : Feedless (tag.push line lineNo).raw :=
        Feedless.append_iff.2 ⟨ofTag, by simpa [Feedless] using noFeed⟩
      have goesOn : ∀ blanks, (readTags (some (tag.push line lineNo)) blanks (lineNo + 1) rest).1.flatMap
            (textContent ·.raw) ++
          textContent (readTags (some (tag.push line lineNo)) blanks (lineNo + 1) rest).2 =
            content tag.raw ++ content (line :: rest) := by
        intro blanks
        rw [induction blanks (lineNo + 1) pushed ofRest]
        have split : content (line :: rest) = content [line] ++ content rest := content_cons
        simp [OpenTag.push, split]
      cases found : tag? line with
      | some value =>
          obtain ⟨key, val⟩ := value
          have next := induction 0 (lineNo + 1) (OpenTag.feedless_ofLine key val lineNo noFeed) ofRest
          simp only [readTags, found, Option.toList_some, List.map_cons, List.map_nil,
            List.flatMap_append, List.flatMap_cons, List.flatMap_nil, List.append_nil,
            List.append_assoc]
          rw [next, OpenTag.textContent_close ofTag, OpenTag.content_ofLine, ← content_cons]
      | none =>
          simp only [readTags, found]
          split
          · exact goesOn _
          · split
            · simp [OpenTag.textContent_close ofTag, textContent_paragraph feedless]
            · exact goesOn _

theorem textContent_join (paragraphs : List Text) :
    textContent (Text.join ['\n', '\n'] paragraphs) = paragraphs.flatMap textContent := by
  induction paragraphs with
  | nil => rfl
  | cons paragraph paragraphs induction =>
      cases paragraphs with
      | nil => simp [Text.join]
      | cons other paragraphs =>
          have joined : Text.join ['\n', '\n'] (paragraph :: other :: paragraphs) =
              paragraph ++ '\n' :: ([] ++ '\n' :: Text.join ['\n', '\n'] (other :: paragraphs)) := by
            simp [Text.join, List.intercalate]
          rw [joined, textContent_append_feed, textContent_append_feed, induction]
          simp

theorem textContent_joinFooters (first second : Text) :
    textContent (joinFooters first second) = textContent first ++ textContent second := by
  unfold joinFooters
  split
  · next empty => simp [List.isEmpty_iff.1 empty]
  · split
    · next empty => simp [List.isEmpty_iff.1 empty]
    · have joined : first ++ ['\n', '\n'] ++ second = first ++ '\n' :: ([] ++ '\n' :: second) := by simp
      rw [joined, textContent_append_feed, textContent_append_feed]
      simp

namespace Prose

variable {prose : Prose}

theorem content_description_footer (feedless : Feedless prose.pending) :
    textContent prose.description ++ textContent prose.footer =
      prose.paragraphs.flatMap textContent ++ content prose.pending := by
  unfold description footer
  rw [textContent_join]
  split
  · simp [content_addParagraph, textContent_paragraph feedless]
  · rw [textContent_paragraph feedless]

end Prose

theorem content_readTags_none {lines : List Text} (lineNo : Nat)
    (tagged : ∀ line rest, lines = line :: rest → (tag? line).isSome = true)
    (feedless : Feedless lines) :
    (readTags none 0 lineNo lines).1.flatMap (textContent ·.raw) ++
        textContent (readTags none 0 lineNo lines).2 = content lines := by
  cases lines with
  | nil => rfl
  | cons line rest =>
      obtain ⟨⟨key, val⟩, found⟩ := Option.isSome_iff_exists.1 (tagged line rest rfl)
      rw [Feedless.cons_iff] at feedless
      have next := content_readTags 0 (lineNo + 1)
        (OpenTag.feedless_ofLine key val lineNo feedless.1) feedless.2
      simp only [readTags, found, Option.toList_none, List.map_nil, List.nil_append]
      rw [next, OpenTag.content_ofLine, ← content_cons]

theorem parts_ofLines {lines : List Text} (feedless : Feedless lines) :
    ((Outline.ofLines lines).parts.flatMap textContent).Perm (content lines) ∧
      ∀ part ∈ (Outline.ofLines lines).parts, (textContent part).Sublist (content lines) := by
  obtain ⟨passed, whole, holds, tagged⟩ := Prose.holds_read 0 Prose.holds_start feedless
  rcases shape : Prose.read ⟨[], [], []⟩ 0 lines with ⟨prose, lineNo, rest⟩
  simp only [shape, List.nil_append] at whole holds tagged
  rw [← whole, Feedless.append_iff] at feedless
  have tail := content_readTags_none lineNo tagged feedless.2
  rcases tagShape : readTags none 0 lineNo rest with ⟨tags, footer⟩
  rw [tagShape] at tail
  have outline : Outline.ofLines lines =
      ⟨prose.description, joinFooters prose.footer footer, prose.examples, tags⟩ := by
    simp only [Outline.ofLines, shape, tagShape]
  have text := Prose.content_description_footer holds.feedless
  have early : content lines = content passed ++ content rest := by rw [← content_append, whole]
  have fromProse := List.sublist_append_left (content passed) (content rest)
  rw [outline, early]
  constructor
  · let described := textContent prose.description
    let ending := textContent prose.footer
    let fromTags := tags.flatMap (textContent ·.raw)
    have each : ∀ piece, Prose.exampleContent piece = [piece.description, piece.raw].flatMap textContent :=
      fun piece => by simp [Prose.exampleContent]
    have parted := holds.whole
    rw [← text, funext each, ← List.flatMap_assoc] at parted
    let examples := (prose.examples.flatMap fun piece => [piece.description, piece.raw]).flatMap textContent
    calc (Outline.parts ⟨prose.description, joinFooters prose.footer footer, prose.examples,
            tags⟩).flatMap textContent
        = described ++ ending ++ (textContent footer ++ (examples ++ fromTags)) := by
          simp [Outline.parts, textContent_joinFooters, List.flatMap_map, described, ending, examples,
            fromTags]
      List.Perm _ (described ++ ending ++ ((examples ++ fromTags) ++ textContent footer)) :=
          List.perm_append_comm.append_left _
      _ = described ++ ending ++ examples ++ (fromTags ++ textContent footer) := by simp
      List.Perm _ (content passed ++ (fromTags ++ textContent footer)) := parted.append_right _
      _ = content passed ++ content rest := by rw [← tail]
  · intro part inside
    simp only [Outline.parts, List.cons_append, List.mem_cons, List.mem_append, List.mem_flatMap,
      List.mem_map, List.not_mem_nil, or_false] at inside
    have ofText := holds.text
    rw [← text] at ofText
    rcases inside with rfl | rfl | ⟨piece, inside, rfl | rfl⟩ | ⟨tag, inside, rfl⟩
    · exact ((List.sublist_append_left _ _).trans ofText).trans fromProse
    · rw [textContent_joinFooters, ← tail]
      exact ((List.sublist_append_right _ _).trans ofText).append (List.sublist_append_right _ _)
    · exact (holds.examples piece inside).1.trans fromProse
    · exact (holds.examples piece inside).2.trans fromProse
    · have ofTag : (textContent tag.raw).Sublist (tags.flatMap (textContent ·.raw)) :=
        List.sublist_flatten_of_mem (List.mem_map_of_mem inside)
      rw [← tail]
      exact (ofTag.trans (List.sublist_append_left _ _)).trans (List.sublist_append_right _ _)

/-- Each line of a body that is not blank goes into exactly one part of the outline of the body, and
within each part the lines keep the order that they have in the body. -/
theorem parts_conserve_content (wrapped : Bool) (body : Text) :
    ((Outline.ofBody wrapped body).parts.flatMap textContent).Perm (content (prepare wrapped body)) ∧
      ∀ part ∈ (Outline.ofBody wrapped body).parts,
        (textContent part).Sublist (content (prepare wrapped body)) :=
  parts_ofLines (feedless_prepare wrapped body)

end Docblock.Comment
