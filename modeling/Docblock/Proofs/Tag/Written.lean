import Docblock.Proofs.Tag.Splitting

/-!
# Tags written from their parts

A tag that is written as a type in braces, a name and a description is read as these parts. The default of an
optional name can hold whatever the scan of brackets and quotes passes over.
-/

set_option autoImplicit false

namespace Docblock.Tag

open Text (stateBehind StopsBehind Brackets)

variable {t name description x d inner : Text} {type : Option TypeExpr.Node}

/-- The body that is made up of a type, a name as it is written and a description. -/
def written (type name description : Text) : Text :=
  braced type ++ ' ' :: (name ++ ' ' :: description)

def withDefault (name default : Text) : Text :=
  '[' :: ((name ++ '=' :: default) ++ [']'])

def withoutDefault (name : Text) : Text :=
  '[' :: (name ++ [']'])

/-- What braces hold: nothing but blanks, or a type expression. -/
inductive Holds (t : Text) : Option TypeExpr.Node → Prop where
  | nothing (blank : Text.isBlankText t = true) : Holds t none
  | type {node : TypeExpr.Node} (accepted : TypeExpr.parseType t = .ok node) : Holds t (some node)

def madeOptional (node : TypeExpr.Node) : TypeExpr.Node :=
  if node.isOptional then node else .optional node none

/-! ## Names -/

theorem splitName_bracketed (closes : stateBehind Brackets.step? .closed inner = some .closed) (rest : Text) :
    splitName (' ' :: ('[' :: (inner ++ [']']) ++ rest)) = .ok ('[' :: (inner ++ [']']), rest) := by
  have space : Text.isBlank ' ' = true := by decide
  have bracket : Text.isBlank '[' = false := by decide
  have start : Text.trimStart (' ' :: ('[' :: (inner ++ [']']) ++ rest)) = '[' :: (inner ++ [']']) ++ rest := by
    rw [List.cons_append]
    simp [Text.trimStart, space, bracket]
  have scanned := Text.scan_of_stopsBehind (Brackets.stopsBehind_enclosed closes) rest
  rw [scan_brackets rfl, Text.Scanned.ofHalves_eq_stopped_iff] at scanned
  rw [splitName, start]
  rw [List.cons_append] at scanned ⊢
  simp only [scanned]

theorem splitName_word (filled : name ≠ []) (visible : ∀ c ∈ name, Text.isBlank c = false) (closeless : '}' ∉ name)
    (unbracketed : name.head? ≠ some '[') (rest : Text) :
    splitName (' ' :: (name ++ ' ' :: rest)) = .ok (name, ' ' :: rest) := by
  refine splitName_plain filled visible closeless unbracketed ?_
  rintro c ⟨⟩
  decide

theorem readName_bracketed (inner : Text) : readName ('[' :: (inner ++ [']'])) =
    ((TypeExpr.splitDefault inner).1, (TypeExpr.splitDefault inner).2, true) := by
  have front : Text.stripPrefix ['['] ('[' :: (inner ++ [']'])) = some (inner ++ [']']) :=
    Text.stripPrefix_eq_some_iff.2 rfl
  have back : Text.stripSuffix [']'] (inner ++ [']']) = some inner := Text.stripSuffix_eq_some_iff.2 rfl
  rw [readName, front, Option.bind_some, back]

theorem splitDefault_with (trimmed : Text.trim x = x) (outside : '=' ∉ x) (trimmedDefault : Text.trim d = d)
    (filled : d ≠ []) : TypeExpr.splitDefault (x ++ '=' :: d) = (x, some d) := by
  have some : d.isEmpty = false := by simpa using filled
  rw [TypeExpr.splitDefault, Text.splitOnce_eq_some_iff.2 ⟨rfl, outside⟩]
  simp [trimmed, trimmedDefault, some]

theorem splitDefault_without (trimmed : Text.trim x = x) (outside : '=' ∉ x) :
    TypeExpr.splitDefault x = (x, none) := by
  have uncut : Text.splitOnce '=' x = none := by
    rw [Option.eq_none_iff_forall_not_mem]
    rintro ⟨before, after⟩ cut
    rw [(Text.splitOnce_eq_some_iff.1 cut).1] at outside
    exact outside (List.mem_append_right before List.mem_cons_self)
  rw [TypeExpr.splitDefault, uncut, trimmed]

/-! ## The other parts -/

theorem trimDescription_spaced (trimmed : Text.trim description = description)
    (closeless : ¬ ['}', '}'] <:+ description) : trimDescription (' ' :: description) = description := by
  have space : Text.isBlank ' ' = true := by decide
  have uncut : Text.stripSuffix ['}', '}'] description = none := by
    rw [Option.eq_none_iff_forall_not_mem]
    intro kept cut
    exact closeless ⟨kept, (Text.stripSuffix_eq_some_iff.1 cut).symm⟩
  simp only [trimDescription, Text.trim_blank_cons space, trimmed, uncut]

theorem readType_of_holds (holds : Holds t type) (isOptional : Bool) : readType isOptional (braced t) =
    .ok (if isOptional then type.map madeOptional else type) := by
  rw [readType, innerType_braced]
  cases holds with
  | nothing blank =>
      rw [blank]
      cases isOptional <;> rfl
  | @type node accepted =>
      simp only [TypeExpr.not_blank_of_parseType accepted, accepted, Bool.false_eq_true, if_false]
      cases isOptional with
      | false => rfl
      | true => cases optional : node.isOptional <;> simp [madeOptional, optional, bind, Except.bind, pure, Except.pure]

/-! ## The whole tag -/

section Whole

variable (balanced : Text.Balanced t) (holds : Holds t type) (trimmed : Text.trim description = description)
  (closeless : ¬ ['}', '}'] <:+ description) (raw : RawTag)

include balanced trimmed closeless in
theorem split_written
    (word : splitName (' ' :: (name ++ ' ' :: description)) = .ok (name, ' ' :: description)) :
    split true (written t name description) = .ok (some ⟨braced t, name, description⟩) := by
  have opening : Text.isBlank '{' = false := by decide
  have shape : written t name description = '{' :: (t ++ '}' :: ' ' :: (name ++ ' ' :: description)) := by
    simp [written, braced]
  have filled : Text.isBlankText ('{' :: (t ++ '}' :: ' ' :: (name ++ ' ' :: description))) = false := by
    rw [Text.isBlankText_cons, opening, Bool.false_and]
  have typed := splitType_of_balanced balanced (' ' :: (name ++ ' ' :: description))
  rw [shape, split_of_filled filled, Text.trimStart_of_visible opening, typed]
  simp only [Except.bind, if_true, word, Except.map, trimDescription_spaced trimmed closeless]
  rfl

include balanced holds trimmed closeless in
theorem ofRaw_written {named : Text} {default : Option Text} {isOptional : Bool}
    (word : splitName (' ' :: (name ++ ' ' :: description)) = .ok (name, ' ' :: description))
    (read : readName name = (named, default, isOptional)) :
    ofRaw true true { raw with val := written t name description } =
      .ok (some ⟨raw.key, raw.raw, braced t, named, description, default,
        if isOptional then type.map madeOptional else type, none⟩) := by
  rw [ofRaw, split_written balanced trimmed closeless word]
  simp only [build, read, readType_of_holds holds]
  rfl

include balanced holds trimmed closeless in
/-- A tag written from a type that is blank or a type expression, from a name and from a trimmed description that two
braces do not end, is read as these parts. The name is an optional one with a default that the scan of brackets and
quotes passes over, an optional one without a default, or a plain word. -/
theorem written_tag_reads_as_parts :
    (∀ x d, Text.trim x = x → (∀ c ∈ x, c ∉ '=' :: Brackets.marks) → Text.trim d = d → d ≠ [] →
      stateBehind Brackets.step? .closed d = some .closed →
        ofRaw true true { raw with val := written t (withDefault x d) description } =
          .ok (some ⟨raw.key, raw.raw, braced t, x, description, some d, type.map madeOptional, none⟩)) ∧
    (∀ x, Text.trim x = x → (∀ c ∈ x, c ∉ '=' :: Brackets.marks) →
        ofRaw true true { raw with val := written t (withoutDefault x) description } =
          .ok (some ⟨raw.key, raw.raw, braced t, x, description, none, type.map madeOptional, none⟩)) ∧
    ∀ x, x ≠ [] → (∀ c ∈ x, Text.isBlank c = false) → '}' ∉ x → x.head? ≠ some '[' →
        ofRaw true true { raw with val := written t x description } =
          .ok (some ⟨raw.key, raw.raw, braced t, x, description, none, type, none⟩) := by
  refine ⟨?_, ?_, ?_⟩
  · intro x d trimmedName plain trimmedDefault filled passes
    have outside : '=' ∉ x := fun inside => plain '=' inside List.mem_cons_self
    have walked : stateBehind Brackets.step? .closed x = some .closed :=
      Brackets.stateBehind_plain (fun c inside marked => plain c inside (List.mem_cons_of_mem _ marked)) 0
    have closes : stateBehind Brackets.step? .closed (x ++ '=' :: d) = some .closed := by
      rw [Text.stateBehind_append walked]
      exact passes
    have read : readName (withDefault x d) = (x, some d, true) := by
      rw [withDefault, readName_bracketed, splitDefault_with trimmedName outside trimmedDefault filled]
    exact ofRaw_written balanced holds trimmed closeless raw (splitName_bracketed closes _) read
  · intro x trimmedName plain
    have outside : '=' ∉ x := fun inside => plain '=' inside List.mem_cons_self
    have closes : stateBehind Brackets.step? .closed x = some .closed :=
      Brackets.stateBehind_plain (fun c inside marked => plain c inside (List.mem_cons_of_mem _ marked)) 0
    have read : readName (withoutDefault x) = (x, none, true) := by
      rw [withoutDefault, readName_bracketed, splitDefault_without trimmedName outside]
    exact ofRaw_written balanced holds trimmed closeless raw (splitName_bracketed closes _) read
  · intro x filled visible closing unbracketed
    exact ofRaw_written balanced holds trimmed closeless raw
      (splitName_word filled visible closing unbracketed _) (readName_plain filled unbracketed)

end Whole

theorem optional_record_with_quoted_brackets_reads : ∃ node, TypeExpr.parseType "\x7ba: b\x7d".toList = .ok node ∧
    ofRaw true true (RawTag.ofParts "param".toList "\x7b\x7ba: b\x7d\x7d [c=['[', \"\\\"]\"]] d".toList) =
      .ok (some ⟨"param".toList, "@param \x7b\x7ba: b\x7d\x7d [c=['[', \"\\\"]\"]] d".toList,
        braced "\x7ba: b\x7d".toList, ['c'], ['d'], some "['[', \"\\\"]\"]".toList, some (.optional node none),
        none⟩) := by
  obtain ⟨node, accepted, unmarked⟩ := TypeExpr.exists_parsed_of_any "\x7ba: b\x7d".toList
    (fun node => !node.isOptional) (by decide +kernel)
  have trimmed : Text.trim ['d'] = ['d'] := by decide
  have reads := (written_tag_reads_as_parts (by decide) (.type accepted) trimmed (by decide)
    (RawTag.ofParts "param".toList "\x7b\x7ba: b\x7d\x7d [c=['[', \"\\\"]\"]] d".toList)).1 ['c']
      "['[', \"\\\"]\"]".toList (by decide +kernel) (by simp [Brackets.marks]) (by decide +kernel) (by decide)
      (by decide +kernel)
  refine ⟨node, accepted, reads.trans ?_⟩
  rw [Bool.not_eq_true'] at unmarked
  simp only [Option.map_some, madeOptional, unmarked]
  rfl

end Docblock.Tag
