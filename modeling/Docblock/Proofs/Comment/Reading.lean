import Docblock.Comment.Basic
import Docblock.Proofs.Text.Trim

/-!
# From outlines to comments

A comment is put together from the tags that are read and from the rest of its outline. How strict the
reading is shows only in the tags, and where a tag stands shows nowhere.
-/

set_option autoImplicit false

namespace Docblock.Comment

variable {options : ReadOptions} {raw : RawTag} {raws : List RawTag}

def readAll (options : ReadOptions) (raws : List RawTag) : Except CommentError (List Tag) :=
  (raws.mapM (readTag options)).map (·.filterMap id)

def assemble (options : ReadOptions) (outline : Outline) (tags : List Tag) : Comment :=
  let replaced (text : Text) : Text := match options.replace with
    | some replacer => InlineTag.replace replacer.substitute text
    | none => text
  { description := replaced outline.description
    footer := outline.footer
    examples := if options.jsdoc then outline.examples.map captionExample else outline.examples
    tags := tags.map fun tag => { tag with description := replaced tag.description }
    inlineTags := InlineTag.collect outline.description ++
      tags.flatMap fun tag => InlineTag.collect tag.description }

theorem exists_of_map_eq_ok {α β : Type} {run : Except CommentError α} {f : α → β} {b : β}
    (success : run.map f = .ok b) : ∃ a, run = .ok a ∧ b = f a := by
  cases run with
  | error fault => cases success
  | ok a =>
      cases success
      exact ⟨a, rfl, rfl⟩

theorem ofOutline_eq (options : ReadOptions) (outline : Outline) :
    ofOutline options outline = (readAll options outline.tags).map (assemble options outline) := by
  unfold ofOutline readAll
  cases outline.tags.mapM (readTag options) <;> rfl

theorem readAll_cons : readAll options (raw :: raws) =
    (readTag options raw).bind fun tag? =>
      (readAll options raws).map fun tags => tag?.toList ++ tags := by
  simp only [readAll, List.mapM_cons]
  cases readTag options raw with
  | error error => rfl
  | ok tag? =>
      cases raws.mapM (readTag options) with
      | error error => rfl
      | ok tags? => cases tag? <;> rfl

theorem readTag_of_empty (empty : raw.val = []) : readTag options raw = .ok (some (.bare raw)) := by
  simp [readTag, empty]

theorem readTag_of_filled (filled : raw.val ≠ []) : readTag options raw =
    (Tag.ofRaw options.strict (Tag.takesName raw.key) raw).map
      (·.map fun tag => if options.jsdoc then captionTag tag else tag) := by
  have notEmpty : raw.val.isEmpty = false := by simp [filled]
  simp only [readTag, notEmpty, Bool.false_eq_true, if_false]
  cases Tag.ofRaw options.strict (Tag.takesName raw.key) raw <;> rfl

end Docblock.Comment

namespace Docblock.Tag

variable {named : Bool} {raw : RawTag}

theorem split_eq_none_iff {val : Text} : split named val = .ok none ↔ Text.isBlankText val = true := by
  by_cases blank : Text.isBlankText val = true
  · simp [split, blank, pure, Except.pure]
  · simp only [split, blank, Bool.false_eq_true, if_false, iff_false]
    intro parted
    cases typed : splitType (Text.trimStart val) with
    | error fault => simp [typed, bind, Except.bind] at parted
    | ok halves =>
        cases named with
        | false => simp [typed, bind, Except.bind, pure, Except.pure] at parted
        | true =>
            cases word : splitName halves.2 <;>
              simp [typed, word, bind, Except.bind, pure, Except.pure] at parted

/-- A tag that is built keeps its key and its text, and nothing but its type can be at fault. -/
theorem build_spec (raw : RawTag) (parts : Parts) :
    (∃ tag, build raw parts = .ok tag ∧ tag.title = raw.key ∧ tag.raw = raw.raw) ∨
      ∃ error, build raw parts = .error (.typeError error) := by
  simp only [build]
  cases readType (readName parts.name).2.2 parts.rawType with
  | error error => exact .inr ⟨error, rfl⟩
  | ok type => exact .inl ⟨_, rfl, rfl, rfl⟩

/-- Whether the body of a tag is malformed, so that a strict reading rejects it for its braces or
brackets. -/
def isMalformed (raw : RawTag) : Bool :=
  match ofRaw true (takesName raw.key) raw with
  | .error (.malformedTag _ _) => true
  | _ => false

/-- What reading a tag can come to. -/
theorem ofRaw_cases (named : Bool) (raw : RawTag) :
    (Text.isBlankText raw.val = true ∧ ∀ strict, ofRaw strict named raw = .ok none) ∨
    (∃ tag, tag.title = raw.key ∧ tag.raw = raw.raw ∧
      ∀ strict, ofRaw strict named raw = .ok (some tag)) ∨
    (∃ error, ∀ strict, ofRaw strict named raw = .error (.typeError error)) ∨
    ∃ fault, ofRaw true named raw = .error (.malformedTag raw.raw fault) ∧
      ofRaw false named raw = .ok none := by
  cases parted : split named raw.val with
  | error fault => exact .inr (.inr (.inr ⟨fault, by simp [ofRaw, parted]⟩))
  | ok parts? =>
      cases parts? with
      | none => exact .inl ⟨split_eq_none_iff.1 parted, fun strict => by simp [ofRaw, parted]⟩
      | some parts =>
          rcases build_spec raw parts with ⟨tag, built, title, text⟩ | ⟨error, built⟩
          · refine .inr (.inl ⟨tag, title, text, fun strict => ?_⟩)
            simp [ofRaw, parted, built, Except.map]
          · refine .inr (.inr (.inl ⟨error, fun strict => ?_⟩))
            simp [ofRaw, parted, built, Except.map]

end Docblock.Tag
