import Mathlib.Data.List.Forall2
import Docblock.Proofs.Comment.Strictness

/-!
# Captions and replaced inline tags

Two options change a comment after its tags have been read: captions are taken out of examples, and inline
tags are replaced. Neither has a say in whether the comment can be read, and each changes its own fields.
-/

set_option autoImplicit false

namespace Docblock.Comment

open Text

/-! ## Where a caption stands -/

/-- That a text begins, behind blanks, with a caption, and what follows the caption without the spaces and
tabs behind it and without one line feed behind these. The caption ends where it is closed first. -/
inductive Captioned : Text → Text → Text → Prop
  | intro {white inner indents feed rest : Text} (blank : isBlankText white = true)
      (first : ¬ "</caption>".toList <:+: inner) (indent : ∀ c ∈ indents, Line.isIndent c = true)
      (stops : feed = ['\n'] ∨
        feed = [] ∧ ∀ c ∈ rest.head?, Line.isIndent c = false ∧ c ≠ '\n') :
      Captioned
        (white ++ ("<caption>".toList ++ (inner ++ ("</caption>".toList ++ (indents ++ (feed ++ rest))))))
        (trim inner) rest

theorem closing_eq : "</caption>".toList = '<' :: "/caption>".toList := rfl

section SplitAt

variable {c : Char} {mark s before after : Text}

theorem splitAt?_cons (single : c ∉ mark) (first : ¬ c :: mark <:+: before) :
    splitAt? (c :: mark) (before ++ (c :: mark ++ after)) = some (before, after) := by
  induction before with
  | nil =>
      have here : stripPrefix (c :: mark) (c :: (mark ++ after)) = some after :=
        stripPrefix_eq_some_iff.2 rfl
      simp only [List.nil_append, List.cons_append, splitAt?, here]
  | cons d before induction =>
      have later := induction fun inside => first (inside.trans (List.suffix_cons d before).isInfix)
      have notHere : stripPrefix (c :: mark) (d :: (before ++ (c :: mark ++ after))) = none := by
        cases found : stripPrefix (c :: mark) (d :: (before ++ (c :: mark ++ after))) with
        | none => rfl
        | some rest =>
            -- the mark would have to end within `before`, for its first character does not come again
            have whole := stripPrefix_eq_some_iff.1 found
            simp only [List.cons_append, List.cons.injEq] at whole
            obtain ⟨rfl, whole⟩ := whole
            rcases List.append_eq_append_iff.1 whole with ⟨more, rfl, tail⟩ | ⟨more, rfl, -⟩
            · cases more with
              | nil =>
                  rw [List.append_nil] at first
                  exact absurd (List.infix_rfl) first
              | cons e more =>
                  rw [List.cons_append, List.cons.injEq] at tail
                  exact absurd (by simp [tail.1]) single
            · exact absurd (List.prefix_append (d :: mark) more).isInfix first
      rw [List.cons_append, splitAt?, notHere, later]
      rfl

theorem splitAt?_spec (found : splitAt? (c :: mark) s = some (before, after)) :
    s = before ++ (c :: mark ++ after) ∧ ¬ c :: mark <:+: before := by
  induction s generalizing before with
  | nil => simp [splitAt?, stripPrefix] at found
  | cons d s induction =>
      cases here : stripPrefix (c :: mark) (d :: s) with
      | some rest =>
          simp only [splitAt?, here, Option.some.injEq, Prod.mk.injEq] at found
          obtain ⟨rfl, rfl⟩ := found
          have whole := stripPrefix_eq_some_iff.1 here
          exact ⟨whole, by simp⟩
      | none =>
          simp only [splitAt?, here, Option.map_eq_some_iff, Prod.mk.injEq] at found
          obtain ⟨⟨early, late⟩, found, rfl, rfl⟩ := found
          obtain ⟨whole, first⟩ := induction found
          refine ⟨by rw [whole]; rfl, ?_⟩
          intro inside
          rcases List.infix_cons_iff.1 inside with ⟨more, atStart⟩ | later
          · have starts : stripPrefix (c :: mark) (d :: s) = some (more ++ (c :: mark ++ late)) := by
              apply stripPrefix_eq_some_iff.2
              rw [whole, ← List.cons_append, ← atStart, List.append_assoc]
            rw [here] at starts
            cases starts
          · exact first later

end SplitAt

theorem captioned_of_splitCaption? {text caption rest : Text}
    (found : splitCaption? text = some (caption, rest)) : Captioned text caption rest := by
  obtain ⟨white, blank, front⟩ := exists_blank_append_trimStart text
  simp only [splitCaption?, Option.bind_eq_bind, Option.bind_eq_some_iff, Option.pure_def,
    Option.some.injEq, Prod.mk.injEq] at found
  obtain ⟨inside, opened, ⟨inner, after⟩, closed, rfl, rfl⟩ := found
  rw [closing_eq] at closed
  obtain ⟨whole, first⟩ := splitAt?_spec closed
  rw [← closing_eq] at whole first
  have parts : after = after.takeWhile Line.isIndent ++ after.dropWhile Line.isIndent :=
    List.takeWhile_append_dropWhile.symm
  have indent : ∀ c ∈ after.takeWhile Line.isIndent, Line.isIndent c = true :=
    fun c member => List.all_eq_true.1 List.all_takeWhile c member
  rw [front, stripPrefix_eq_some_iff.1 opened, whole]
  cases feed : stripPrefix ['\n'] (after.dropWhile Line.isIndent) with
  | some rest =>
      rw [stripPrefix_eq_some_iff.1 feed] at parts
      rw [parts]
      exact .intro blank first indent (.inl rfl)
  | none =>
      have stops : ∀ c ∈ (after.dropWhile Line.isIndent).head?, Line.isIndent c = false ∧ c ≠ '\n' := by
        intro c member
        have head : (after.dropWhile Line.isIndent).head? = some c := member
        have beyond := List.head?_dropWhile_not Line.isIndent after
        rw [head] at beyond
        refine ⟨by simpa using beyond, ?_⟩
        rintro rfl
        obtain ⟨rest, shape⟩ := List.head?_eq_some_iff.1 head
        rw [shape] at feed
        simp [stripPrefix] at feed
      have split := @Captioned.intro _ _ _ [] _ blank first indent (.inr ⟨rfl, stops⟩)
      rw [List.nil_append, ← parts] at split
      exact split

theorem splitCaption?_of_captioned {text caption rest : Text} (split : Captioned text caption rest) :
    splitCaption? text = some (caption, rest) := by
  cases split with
  | @intro white inner indents feed rest blank first indent stops =>
      have trimmed : trimStart (white ++ ("<caption>".toList ++
          (inner ++ ("</caption>".toList ++ (indents ++ (feed ++ rest)))))) =
          "<caption>".toList ++ (inner ++ ("</caption>".toList ++ (indents ++ (feed ++ rest)))) := by
        rw [trimStart_blank_append blank]
        exact trimStart_of_visible (by decide)
      have opened := stripPrefix_eq_some_iff.2 trimmed
      have closed : splitAt? "</caption>".toList
          (inner ++ ("</caption>".toList ++ (indents ++ (feed ++ rest)))) =
          some (inner, indents ++ (feed ++ rest)) := by
        rw [closing_eq] at first ⊢
        exact splitAt?_cons (by decide) first
      have dropped : (indents ++ (feed ++ rest)).dropWhile Line.isIndent = feed ++ rest := by
        rw [List.dropWhile_append_of_pos indent]
        rcases stops with rfl | ⟨rfl, stops⟩
        · rfl
        · cases rest with
          | nil => rfl
          | cons c rest => exact List.dropWhile_cons_of_neg (by simp [(stops c rfl).1])
      have left : (stripPrefix ['\n'] (feed ++ rest)).getD (feed ++ rest) = rest := by
        rcases stops with rfl | ⟨rfl, stops⟩
        · rfl
        · cases rest with
          | nil => rfl
          | cons c rest => simp [stripPrefix, Ne.symm (stops c rfl).2]
      simp only [splitCaption?, opened, closed, dropped, left,
        Option.bind_eq_bind, Option.bind_some, Option.pure_def]

theorem splitCaption?_eq_some_iff {text caption rest : Text} :
    splitCaption? text = some (caption, rest) ↔ Captioned text caption rest :=
  ⟨captioned_of_splitCaption?, splitCaption?_of_captioned⟩

example : splitCaption? " <caption> Sum </caption>\t\n\nadd()</caption>".toList =
    some ("Sum".toList, "\nadd()</caption>".toList) := by decide

/-- That a caption has been taken out of a text of `before`, if `before` is an example and the text begins
with one; and that nothing has been changed otherwise. -/
def CaptionTaken {α : Type} (isExample : Prop) (text : Text) (take : Text → Text → α) (before after : α) :
    Prop :=
  (isExample ∧ ∃ caption rest, Captioned text caption rest ∧ after = take caption rest) ∨
    (isExample → ∀ caption rest, ¬ Captioned text caption rest) ∧ after = before

theorem captionTaken_split {α : Type} {isExample : Prop} [Decidable isExample] (text : Text)
    (take : Text → Text → α) (before : α) :
    CaptionTaken isExample text take before
      (if isExample then
        match splitCaption? text with
        | some (caption, rest) => take caption rest
        | none => before
      else before) := by
  by_cases example? : isExample
  · rw [if_pos example?]
    cases split : splitCaption? text with
    | some parts => exact .inl ⟨example?, parts.1, parts.2, splitCaption?_eq_some_iff.1 split, rfl⟩
    | none =>
        refine .inr ⟨?_, rfl⟩
        intro _ caption rest captioned
        rw [splitCaption?_eq_some_iff.2 captioned] at split
        cases split
  · rw [if_neg example?]
    exact .inr ⟨fun yes => absurd yes example?, rfl⟩

def TagCaptionTaken (before after : Tag) : Prop :=
  CaptionTaken (before.title = exampleTitle) before.description
    (fun caption rest => { before with caption := some caption, description := rest }) before after

def ExampleCaptionTaken (before after : Example) : Prop :=
  CaptionTaken (before.kind = .javadoc) before.val
    (fun caption rest => { before with caption := some caption, val := rest }) before after

theorem captionTag_taken (tag : Tag) : TagCaptionTaken tag (captionTag tag) := by
  unfold captionTag
  simp only [beq_iff_eq]
  apply captionTaken_split

theorem captionExample_taken (piece : Example) : ExampleCaptionTaken piece (captionExample piece) := by
  unfold captionExample
  simp only [beq_iff_eq]
  apply captionTaken_split

/-! ## Reading with captions and without -/

section Reading

variable (options : ReadOptions)

theorem captionTag_bare (raw : RawTag) : captionTag (.bare raw) = .bare raw := by
  have none : splitCaption? [] = none := by decide
  have empty : (Tag.bare raw).description = [] := rfl
  unfold captionTag
  rw [empty, none]
  split <;> rfl

theorem readTag_captions (jsdoc : Bool) (replace : Option InlineTag.Replacer) (raw : RawTag) :
    readTag { options with jsdoc := jsdoc, replace := replace } raw =
      (readTag { options with jsdoc := false, replace := none } raw).map
        (·.map fun tag => if jsdoc then captionTag tag else tag) := by
  by_cases empty : raw.val = []
  · rw [readTag_of_empty empty, readTag_of_empty empty]
    cases jsdoc with
    | false => rfl
    | true => exact congrArg (fun tag => Except.ok (some tag)) (captionTag_bare raw).symm
  · rw [readTag_of_filled empty, readTag_of_filled empty]
    cases Tag.ofRaw options.strict (Tag.takesName raw.key) raw with
    | error error => rfl
    | ok tag? => cases tag? <;> rfl

theorem readAll_captions (jsdoc : Bool) (replace : Option InlineTag.Replacer) (raws : List RawTag) :
    readAll { options with jsdoc := jsdoc, replace := replace } raws =
      (readAll { options with jsdoc := false, replace := none } raws).map
        (·.map fun tag => if jsdoc then captionTag tag else tag) := by
  induction raws with
  | nil => rfl
  | cons raw raws induction =>
      rw [readAll_cons, readAll_cons, readTag_captions, induction]
      cases readTag { options with jsdoc := false, replace := none } raw with
      | error error => rfl
      | ok tag? =>
          cases readAll { options with jsdoc := false, replace := none } raws with
          | error error => rfl
          | ok tags => cases tag? <;> rfl

/-- What the two options do to a comment that is read without them. -/
theorem read_captions (jsdoc : Bool) (replace : Option InlineTag.Replacer) (text : Text) :
    read { options with jsdoc := jsdoc, replace := replace } text =
      (readAll { options with jsdoc := false, replace := none } (outline options text).tags).map fun tags =>
        assemble { options with jsdoc := jsdoc, replace := replace } (outline options text)
          (tags.map fun tag => if jsdoc then captionTag tag else tag) := by
  have whole : read { options with jsdoc := jsdoc, replace := replace } text =
      (readAll { options with jsdoc := jsdoc, replace := replace } (outline options text).tags).map
        (assemble { options with jsdoc := jsdoc, replace := replace } (outline options text)) :=
    ofOutline_eq _ _
  rw [whole, readAll_captions]
  cases readAll { options with jsdoc := false, replace := none } (outline options text).tags <;> rfl

end Reading

def mapDescriptions (change : Text → Text) (comment : Comment) : Comment :=
  { comment with
    description := change comment.description
    tags := comment.tags.map fun tag => { tag with description := change tag.description } }

/-- Taking captions out and replacing inline tags make no reading fail and let none succeed. Replacing
changes the descriptions alone; the inline tags of the comment are those that stood there before. Taking
captions out changes the examples that begin with one, and the inline tags are then those that are left. -/
theorem options_change_their_own_fields (options : ReadOptions) (text : Text) :
    (∀ jsdoc jsdoc' replace replace' error,
      read { options with jsdoc := jsdoc, replace := replace } text = .error error ↔
        read { options with jsdoc := jsdoc', replace := replace' } text = .error error) ∧
    (∀ jsdoc replacer,
      read { options with jsdoc := jsdoc, replace := some replacer } text =
        (read { options with jsdoc := jsdoc, replace := none } text).map
          (mapDescriptions (InlineTag.replace replacer.substitute))) ∧
    ∀ plain, read { options with jsdoc := false, replace := none } text = .ok plain →
      ∃ captioned, read { options with jsdoc := true, replace := none } text = .ok captioned ∧
        captioned.description = plain.description ∧ captioned.footer = plain.footer ∧
        List.Forall₂ TagCaptionTaken plain.tags captioned.tags ∧
        List.Forall₂ ExampleCaptionTaken plain.examples captioned.examples ∧
        captioned.inlineTags = InlineTag.collect captioned.description ++
          captioned.tags.flatMap fun tag => InlineTag.collect tag.description := by
  refine ⟨?_, ?_, ?_⟩
  · intro jsdoc jsdoc' replace replace' error
    rw [read_captions options jsdoc replace, read_captions options jsdoc' replace']
    cases readAll { options with jsdoc := false, replace := none } (outline options text).tags with
    | error fault => exact Iff.rfl
    | ok tags => simp [Except.map]
  · intro jsdoc replacer
    rw [read_captions options jsdoc (some replacer), read_captions options jsdoc none]
    cases readAll { options with jsdoc := false, replace := none } (outline options text).tags with
    | error fault => rfl
    | ok tags => simp [Except.map, assemble, mapDescriptions]
  · intro plain success
    rw [read_captions options false none] at success
    obtain ⟨tags, run, rfl⟩ := exists_of_map_eq_ok success
    rw [read_captions options true none, run]
    refine ⟨_, rfl, rfl, rfl, ?_, ?_, ?_⟩
    · simp only [assemble, List.map_id', if_true, Bool.false_eq_true, if_false]
      exact List.forall₂_map_right_iff.2 (List.forall₂_same.2 fun tag _ => captionTag_taken tag)
    · simp only [assemble, if_true, Bool.false_eq_true, if_false]
      exact List.forall₂_map_right_iff.2 (List.forall₂_same.2 fun piece _ => captionExample_taken piece)
    · simp [assemble, List.flatMap_map]

theorem captions_taken_before_and_behind_tag :
    let text := "@example <caption>One</caption>\none()\n@since 1\n@example <caption>Two</caption>\ntwo()".toList
    ∃ plain captioned, read { jsdoc := false } text = .ok plain ∧
      read { jsdoc := true } text = .ok captioned ∧
      captioned.examples.map Example.caption = [some "One".toList] ∧
      captioned.tags.map Tag.caption = [none, some "Two".toList] ∧
      List.Forall₂ TagCaptionTaken plain.tags captioned.tags ∧
      List.Forall₂ ExampleCaptionTaken plain.examples captioned.examples := by
  intro text
  obtain ⟨sameErrors, -, captions⟩ := options_change_their_own_fields {} text
  have taken : (read { jsdoc := true } text).toOption.map (fun comment =>
      (comment.examples.map Example.caption, comment.tags.map Tag.caption)) =
      some ([some "One".toList], [none, some "Two".toList]) := by decide +kernel
  cases run : read { jsdoc := false } text with
  | error fault =>
      have failed : read { jsdoc := true } text = .error fault := (sameErrors false true none none fault).1 run
      rw [failed] at taken
      cases taken
  | ok plain =>
      obtain ⟨captioned, success, -, -, tags, examples, -⟩ := captions plain run
      rw [success] at taken
      have parts := Prod.mk.inj (Option.some.inj taken)
      exact ⟨plain, captioned, rfl, success, parts.1, parts.2, tags, examples⟩

end Docblock.Comment
