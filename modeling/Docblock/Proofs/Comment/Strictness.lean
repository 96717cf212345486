import Docblock.Proofs.Comment.Reading

/-!
# Strict and lenient reading

A lenient reading of a comment is the strict reading of what is left of it without the malformed tags.
So the two can differ only where a strict reading fails at a malformed tag.
-/

set_option autoImplicit false

namespace Docblock.Comment

open Text Line

def outline (options : ReadOptions) (text : Text) : Outline :=
  Outline.ofBody options.unwrap (if options.unwrap then stripDelimiters text else text)

/-! ## Bodies of tags are trimmed -/

theorem exists_open_of_mem_readTags {current : Option OpenTag} {blanks lineNo : Nat}
    {lines : List Text} {raw : RawTag} (inside : raw ∈ (readTags current blanks lineNo lines).1) :
    ∃ tag : OpenTag, raw = tag.close := by
  have closed : ∀ {current : Option OpenTag}, raw ∈ current.toList.map OpenTag.close →
      ∃ tag : OpenTag, raw = tag.close := by
    intro current member
    obtain ⟨tag, -, equal⟩ := List.mem_map.1 member
    exact ⟨tag, equal.symm⟩
  induction lines generalizing current blanks lineNo with
  | nil => exact closed inside
  | cons line rest induction =>
      cases found : tag? line with
      | some parts =>
          simp only [readTags, found, List.mem_append] at inside
          rcases inside with early | late
          · exact closed early
          · exact induction late
      | none =>
          simp only [readTags, found] at inside
          split at inside
          · exact induction inside
          · split at inside
            · exact closed inside
            · exact induction inside

theorem trim_val_of_mem_outline {options : ReadOptions} {text : Text} {raw : RawTag}
    (inside : raw ∈ (outline options text).tags) : trim raw.val = raw.val := by
  obtain ⟨tag, rfl⟩ := exists_open_of_mem_readTags inside
  exact trim_trim _

/-! ## One tag -/

theorem readTag_cases (options : ReadOptions) {raw : RawTag} (trimmed : trim raw.val = raw.val) :
    (∃ tag, tag.title = raw.key ∧ tag.raw = raw.raw ∧ Tag.isMalformed raw = false ∧
      ∀ strict, readTag { options with strict := strict } raw = .ok (some tag)) ∨
    (∃ error, Tag.isMalformed raw = false ∧
      ∀ strict, readTag { options with strict := strict } raw = .error (.typeError error)) ∨
    ∃ fault, Tag.isMalformed raw = true ∧
      readTag { options with strict := true } raw = .error (.malformedTag raw.raw fault) ∧
      readTag { options with strict := false } raw = .ok none := by
  have outcomes := Tag.ofRaw_cases (Tag.takesName raw.key) raw
  by_cases empty : raw.val = []
  · have blank : isBlankText raw.val = true := by simp [empty]
    have none : Tag.ofRaw true (Tag.takesName raw.key) raw = .ok none := by
      simp [Tag.ofRaw, Tag.split_eq_none_iff.2 blank]
    exact .inl ⟨.bare raw, rfl, rfl, by simp [Tag.isMalformed, none],
      fun strict => readTag_of_empty empty⟩
  · rcases outcomes with ⟨blank, -⟩ | ⟨tag, title, text, run⟩ | ⟨error, run⟩ | ⟨fault, strictly, leniently⟩
    · -- a blank body that is trimmed is empty
      rw [← trim_eq_nil_iff, trimmed] at blank
      exact absurd blank empty
    · have kept : ∀ tag : Tag, (captionTag tag).title = tag.title ∧ (captionTag tag).raw = tag.raw := by
        intro tag
        unfold captionTag
        split
        · split <;> exact ⟨rfl, rfl⟩
        · exact ⟨rfl, rfl⟩
      refine .inl ⟨if options.jsdoc then captionTag tag else tag, ?_, ?_, ?_, ?_⟩
      · split
        · exact (kept tag).1.trans title
        · exact title
      · split
        · exact (kept tag).2.trans text
        · exact text
      · simp [Tag.isMalformed, run]
      · intro strict
        rw [readTag_of_filled empty, run]
        rfl
    · refine .inr (.inl ⟨error, by simp [Tag.isMalformed, run], fun strict => ?_⟩)
      rw [readTag_of_filled empty, run]
      rfl
    · refine .inr (.inr ⟨fault, by simp [Tag.isMalformed, strictly], ?_, ?_⟩)
      · rw [readTag_of_filled empty, strictly]
        rfl
      · rw [readTag_of_filled empty, leniently]
        rfl

/-! ## All tags -/

section Tags

variable (options : ReadOptions) {raws : List RawTag}

/-- Reading leniently is reading strictly what is left without the malformed tags. -/
theorem readAll_lenient (trimmed : ∀ raw ∈ raws, trim raw.val = raw.val) :
    readAll { options with strict := false } raws =
      readAll { options with strict := true } (raws.filter (! Tag.isMalformed ·)) := by
  induction raws with
  | nil => rfl
  | cons raw raws induction =>
      have rest := induction fun other inside => trimmed other (List.mem_cons_of_mem raw inside)
      rcases readTag_cases options (trimmed raw List.mem_cons_self) with
        ⟨tag, -, -, well, run⟩ | ⟨error, well, run⟩ | ⟨fault, ill, -, run⟩
      · rw [List.filter_cons_of_pos (by simp [well]), readAll_cons, readAll_cons, run, run, rest]
      · rw [List.filter_cons_of_pos (by simp [well]), readAll_cons, readAll_cons, run, run]
        rfl
      · rw [List.filter_cons_of_neg (by simp [ill]), readAll_cons, run, rest]
        cases readAll { options with strict := true } (raws.filter (! Tag.isMalformed ·)) <;> rfl

/-- What a strict reading comes to: every tag is read and none is malformed, or it fails at the first
tag that a lenient reading fails at as well, or at a malformed one. -/
theorem readAll_strict_cases (trimmed : ∀ raw ∈ raws, trim raw.val = raw.val) :
    (∃ tags, readAll { options with strict := true } raws = .ok tags ∧
      (∀ raw ∈ raws, Tag.isMalformed raw = false) ∧
      tags.map (fun tag => (tag.title, tag.raw)) = raws.map fun raw => (raw.key, raw.raw)) ∨
    (∃ error, readAll { options with strict := true } raws = .error (.typeError error) ∧
      readAll { options with strict := false } raws = .error (.typeError error)) ∨
    ∃ raw ∈ raws, Tag.isMalformed raw = true ∧
      ∃ fault, readAll { options with strict := true } raws = .error (.malformedTag raw.raw fault) := by
  induction raws with
  | nil => exact .inl ⟨[], rfl, by simp, rfl⟩
  | cons raw raws induction =>
      have rest := induction fun other inside => trimmed other (List.mem_cons_of_mem raw inside)
      rcases readTag_cases options (trimmed raw List.mem_cons_self) with
        ⟨tag, title, text, well, run⟩ | ⟨error, -, run⟩ | ⟨fault, ill, run, -⟩
      · rcases rest with ⟨tags, all, none, same⟩ | ⟨error, strictly, leniently⟩ |
          ⟨other, inside, ill, fault, strictly⟩
        · refine .inl ⟨tag :: tags, ?_, ?_, ?_⟩
          · rw [readAll_cons, run, all]
            rfl
          · intro other inside
            rcases List.mem_cons.1 inside with rfl | inside
            · exact well
            · exact none other inside
          · simp [title, text, same]
        · refine .inr (.inl ⟨error, ?_, ?_⟩)
          · rw [readAll_cons, run, strictly]
            rfl
          · rw [readAll_cons, run, leniently]
            rfl
        · refine .inr (.inr ⟨other, List.mem_cons_of_mem raw inside, ill, fault, ?_⟩)
          rw [readAll_cons, run, strictly]
          rfl
      · refine .inr (.inl ⟨error, ?_, ?_⟩)
        · rw [readAll_cons, run]
          rfl
        · rw [readAll_cons, run]
          rfl
      · refine .inr (.inr ⟨raw, List.mem_cons_self, ill, fault, ?_⟩)
        rw [readAll_cons, run]
        rfl

theorem readAll_lenient_cases (trimmed : ∀ raw ∈ raws, trim raw.val = raw.val) :
    (∃ tags, readAll { options with strict := false } raws = .ok tags ∧
      tags.map (fun tag => (tag.title, tag.raw)) =
        (raws.filter (! Tag.isMalformed ·)).map fun raw => (raw.key, raw.raw)) ∨
    ∃ error, readAll { options with strict := false } raws = .error (.typeError error) := by
  have wellFormed : ∀ raw ∈ raws.filter (! Tag.isMalformed ·), Tag.isMalformed raw = false := by
    intro raw inside
    simpa using (List.mem_filter.1 inside).2
  have trimmedLeft : ∀ raw ∈ raws.filter (! Tag.isMalformed ·), trim raw.val = raw.val := by
    intro raw inside
    exact trimmed raw (List.mem_filter.1 inside).1
  rw [readAll_lenient options trimmed]
  rcases readAll_strict_cases options trimmedLeft with
    ⟨tags, all, -, same⟩ | ⟨error, strictly, -⟩ | ⟨raw, inside, ill, -⟩
  · exact .inl ⟨tags, all, same⟩
  · exact .inr ⟨error, strictly⟩
  · rw [wellFormed raw inside] at ill
    cases ill

end Tags

/-! ## Whole comments -/

theorem titles_assemble (options : ReadOptions) (outline : Outline) (tags : List Tag) :
    (assemble options outline tags).tags.map (fun tag => (tag.title, tag.raw)) =
      tags.map fun tag => (tag.title, tag.raw) := by
  simp [assemble, Function.comp_def]

section Texts

variable (options : ReadOptions) (text : Text)

theorem read_eq_map (strict : Bool) : read { options with strict := strict } text =
    (readAll { options with strict := strict } (outline options text).tags).map
      (assemble options (outline options text)) :=
  ofOutline_eq _ _

theorem read_strict_cases :
    (∃ comment, read { options with strict := true } text = .ok comment ∧
      read { options with strict := false } text = .ok comment ∧
      comment.tags.map (fun tag => (tag.title, tag.raw)) =
        (outline options text).tags.map fun raw => (raw.key, raw.raw)) ∨
    (∃ error, read { options with strict := true } text = .error (.typeError error) ∧
      read { options with strict := false } text = .error (.typeError error)) ∨
    ∃ raw fault, read { options with strict := true } text = .error (.malformedTag raw fault) := by
  have trimmed : ∀ raw ∈ (outline options text).tags, trim raw.val = raw.val :=
    fun raw inside => trim_val_of_mem_outline inside
  rw [read_eq_map, read_eq_map]
  rcases readAll_strict_cases options trimmed with
    ⟨tags, all, none, same⟩ | ⟨error, strictly, leniently⟩ | ⟨raw, -, -, fault, strictly⟩
  · have kept : (outline options text).tags.filter (! Tag.isMalformed ·) = (outline options text).tags :=
      List.filter_eq_self.2 fun raw inside => by simp [none raw inside]
    have lenient := readAll_lenient options trimmed
    rw [kept, all] at lenient
    rw [all, lenient]
    exact .inl ⟨_, rfl, rfl, (titles_assemble _ _ _).trans same⟩
  · rw [strictly, leniently]
    exact .inr (.inl ⟨error, rfl, rfl⟩)
  · rw [strictly]
    exact .inr (.inr ⟨raw.raw, fault, rfl⟩)

theorem read_lenient_cases :
    (∃ comment, read { options with strict := false } text = .ok comment ∧
      comment.tags.map (fun tag => (tag.title, tag.raw)) =
        ((outline options text).tags.filter (! Tag.isMalformed ·)).map fun raw => (raw.key, raw.raw)) ∨
    ∃ error, read { options with strict := false } text = .error (.typeError error) := by
  rw [read_eq_map]
  rcases readAll_lenient_cases options fun raw inside => trim_val_of_mem_outline inside with
    ⟨tags, all, same⟩ | ⟨error, failed⟩
  · rw [all]
    exact .inl ⟨_, rfl, (titles_assemble _ _ _).trans same⟩
  · rw [failed]
    exact .inr ⟨error, rfl⟩

end Texts

/-- A strict and a lenient reading of a text differ by malformed tags only. A strict reading that
succeeds is also what a lenient one gives, and has each tag of the outline. A strict reading that fails
at a type fails in the same way leniently. A lenient reading fails at no malformed tag; where it
succeeds it has the tags of the outline but for those that are malformed. -/
theorem strict_and_lenient_differ_by_malformed (options : ReadOptions) (text : Text) :
    (∀ comment, read { options with strict := true } text = .ok comment →
      read { options with strict := false } text = .ok comment ∧
        comment.tags.map (fun tag => (tag.title, tag.raw)) =
          (outline options text).tags.map fun raw => (raw.key, raw.raw)) ∧
    (∀ error, read { options with strict := true } text = .error (.typeError error) →
      read { options with strict := false } text = .error (.typeError error)) ∧
    (∀ raw fault, read { options with strict := true } text = .error (.malformedTag raw fault) →
      (∃ comment, read { options with strict := false } text = .ok comment) ∨
        ∃ error, read { options with strict := false } text = .error (.typeError error)) ∧
    (∀ raw fault, read { options with strict := false } text ≠ .error (.malformedTag raw fault)) ∧
    ∀ comment, read { options with strict := false } text = .ok comment →
      comment.tags.map (fun tag => (tag.title, tag.raw)) =
        ((outline options text).tags.filter (! Tag.isMalformed ·)).map fun raw => (raw.key, raw.raw) := by
  have leniently := read_lenient_cases options text
  refine ⟨?_, ?_, ?_, ?_, ?_⟩
  · intro comment success
    rcases read_strict_cases options text with
      ⟨found, strictly, same⟩ | ⟨error, strictly, -⟩ | ⟨raw, fault, strictly⟩
    · rw [strictly] at success
      cases success
      exact same
    · rw [strictly] at success
      cases success
    · rw [strictly] at success
      cases success
  · intro error failure
    rcases read_strict_cases options text with
      ⟨found, strictly, -⟩ | ⟨error, strictly, same⟩ | ⟨raw, fault, strictly⟩
    · rw [strictly] at failure
      cases failure
    · rw [strictly] at failure
      cases failure
      exact same
    · rw [strictly] at failure
      cases failure
  · intro raw fault _
    rcases leniently with ⟨comment, success, -⟩ | failed
    · exact .inl ⟨comment, success⟩
    · exact .inr failed
  · intro raw fault failure
    rcases leniently with ⟨comment, success, -⟩ | ⟨error, failed⟩
    · rw [success] at failure
      cases failure
    · rw [failed] at failure
      cases failure
  · intro comment success
    rcases leniently with ⟨found, read, same⟩ | ⟨error, failed⟩
    · rw [read] at success
      cases success
      exact same
    · rw [failed] at success
      cases success

end Docblock.Comment
