import Docblock.Proofs.TypeExpr.RoundTrip

/-!
# The first token of what is written

A quoted text is one token, whatever stands behind it, so texts and the keys of records are read back as they
are. A name that was written is one token where no name goes on behind it, unless an angle takes its last point.
-/

set_option autoImplicit false

namespace Docblock.TypeExpr

section Quoted

variable {entries : List (Text × Option Text)} {other : Node}

def stringFields (entries : List (Text × Option Text)) : List Field :=
  entries.map fun entry => .mk entry.1 (entry.2.map .string)

theorem layered_stringFields (entries : List (Text × Option Text)) :
    Layered .type (.record (stringFields entries)) := by
  refine .type (.trailed (.record fun field inside value found => ?_))
  obtain ⟨⟨key, text⟩, -, rfl⟩ := List.mem_map.1 inside
  obtain ⟨content, -, rfl⟩ := Option.map_eq_some_iff.1 found
  exact .type (.trailed (.string content))

theorem fits_stringFields (entries : List (Text × Option Text)) :
    (Node.record (stringFields entries)).Fits maxDepth := by
  have each : Node.fieldsReadable (stringFields entries) = true ∧
      Node.nestingFields (stringFields entries) ≤ 1 := by
    induction entries with
    | nil => exact ⟨rfl, Nat.zero_le 1⟩
    | cons entry entries induction =>
        obtain ⟨readable, flat⟩ := induction
        obtain ⟨key, _ | text⟩ := entry
        · exact ⟨readable, Nat.max_le.2 ⟨Nat.zero_le 1, flat⟩⟩
        · exact ⟨readable, Nat.max_le.2 ⟨Nat.le_refl 1, flat⟩⟩
  exact ⟨each.1, (Nat.succ_le_succ each.2).trans (by decide)⟩

theorem same_stringField_iff {key : Text} {text : Option Text} {right : Field} :
    Field.Same (.mk key (text.map .string)) right ↔ right = .mk key (text.map .string) := by
  obtain ⟨key', value⟩ := right
  have same : Node.sameOption (text.map .string) value = true ↔ value = text.map .string := by
    cases text with
    | none => exact Node.sameOption_none_iff
    | some text => simp [Node.sameOption_some_iff, Node.same_string_iff]
  rw [Field.Same, Field.mk.injEq, eq_comm (a := key')]
  exact and_congr_right fun _ => same

theorem sameFields_stringFields_iff {others : List Field} :
    Node.sameFields (stringFields entries) others = true ↔ others = stringFields entries := by
  rw [Node.sameFields_iff]
  induction entries generalizing others with
  | nil => exact List.forall₂_nil_left_iff
  | cons entry entries induction =>
      rw [stringFields, List.map_cons, ← stringFields, List.forall₂_cons_left_iff]
      simp only [same_stringField_iff, induction]
      constructor
      · rintro ⟨_, _, rfl, rfl, whole⟩
        exact whole
      · exact fun whole => ⟨_, _, rfl, rfl, whole⟩

theorem same_stringFields_iff :
    (Node.record (stringFields entries)).same other = true ↔ other = .record (stringFields entries) := by
  rw [Node.same_record_iff]
  simp only [sameFields_stringFields_iff]
  constructor
  · rintro ⟨_, whole, rfl⟩
    exact whole
  · exact fun whole => ⟨_, whole, rfl⟩

/-- A quoted text is read as one token in front of any other text. Read as a whole it gives a text, and what is
written for entries with any keys gives the entries. -/
theorem quoted_text_is_one_token :
    (∀ value k, Lexer.next (StringLiteral.quote value ++ k) =
      (.ok ⟨.string value, StringLiteral.quote value ++ k⟩, k)) ∧
    (∀ value, parseType (StringLiteral.quote value) = .ok (.string value)) ∧
    ∀ entries, parseType (Node.record (stringFields entries)).render =
      .ok (.record (stringFields entries)) := by
  refine ⟨Lexer.next_quote, fun value => ?_, fun entries => ?_⟩
  · have layered : Layered .type (.string value) := .type (.trailed (.string value))
    have fits : (Node.string value).Fits maxDepth := ⟨rfl, by simp [Node.nesting, maxDepth]⟩
    obtain ⟨other, parsed, same⟩ := (Rooted.type layered).parseType_iff.2 fits
    rw [Node.same_string_iff.1 same] at parsed
    exact parsed
  · obtain ⟨other, parsed, same⟩ :=
      (Rooted.type (layered_stringFields entries)).parseType_iff.2 (fits_stringFields entries)
    rw [same_stringFields_iff.1 same] at parsed
    exact parsed

end Quoted

namespace Lexer

section Names

variable {name k front : Text}

/-- The last point of the name and the angle behind it are one token. -/
def LosesPoint (name k : Text) : Prop :=
  isPlainName name = true ∧ name.getLast? = some '.' ∧ k.head? = some '<'

instance (name k : Text) : Decidable (LosesPoint name k) :=
  inferInstanceAs (Decidable (_ ∧ _ ∧ _))

theorem spanName_before_angle (more : Text) (whole : spanName (front ++ ['.']) = (front ++ ['.'], [])) :
    spanName (front ++ '.' :: '<' :: more) = (front, '.' :: '<' :: more) := by
  induction front with
  | nil => rfl
  | cons c front induction =>
      rw [List.cons_append] at whole ⊢
      cases goesOn : nameEnds (c :: (front ++ ['.'])) with
      | true => simp [spanName, goesOn] at whole
      | false =>
          simp only [spanName, goesOn, Bool.false_eq_true, if_false, Prod.mk.injEq, List.cons.injEq,
            true_and] at whole
          -- before its last point the name goes on as it did alone: the angle makes no new `.<` or `...` there
          have onward : nameEnds (c :: (front ++ '.' :: '<' :: more)) = false := by
            rw [← Bool.not_eq_true, nameEnds_cons] at goesOn ⊢
            rintro (⟨dot, angle⟩ | ⟨dot, behind, dots⟩ | ends)
            · cases front with
              | nil => cases angle
              | cons d front => exact goesOn (.inl ⟨dot, angle⟩)
            · rcases front with _ | ⟨d, _ | ⟨e, front⟩⟩
              · cases dots
              · obtain ⟨rfl, -⟩ := List.cons.inj dots
                exact goesOn (.inr (.inl ⟨dot, [], rfl⟩))
              · obtain ⟨rfl, others⟩ := List.cons.inj dots
                obtain ⟨rfl, -⟩ := List.cons.inj others
                exact goesOn (.inr (.inl ⟨dot, _, rfl⟩))
            · exact goesOn (.inr (.inr ends))
          simp [spanName, onward, induction (Prod.ext whole.1 whole.2)]

theorem next_of_losesPoint (loses : LosesPoint name k) :
    next (nameText name ++ k) = (.ok ⟨.name name.dropLast, name ++ k⟩, '.' :: k) := by
  obtain ⟨plain, point, angle⟩ := loses
  obtain ⟨more, rfl⟩ := List.head?_eq_some_iff.1 angle
  obtain ⟨front, rfl⟩ := List.getLast?_eq_some_iff.1 point
  have spelled := isPlainName_iff.1 plain
  have stops : Stops ('<' :: more) := .cons (by decide) more
  have spanned := spanName_before_angle more spelled.whole
  rw [nameText, if_pos plain, spelled.next_append stops, List.append_assoc, List.singleton_append, spanned,
    List.dropLast_concat]

/-- Where nothing, a blank or punctuation stands behind it, a written name is read as one token, unless its last
point stands before an angle. Then the name without the point is read. -/
theorem written_name_is_one_token_iff (any : name ≠ []) (trimmed : Text.trim name = name)
    (unticked : '`' ∉ name) (ends : ∀ c ∈ k.head?, Text.isBlank c = true ∨ c ∈ punctuation) :
    (next (nameText name ++ k) = (.ok ⟨.name name, nameText name ++ k⟩, k) ↔ ¬ LosesPoint name k) ∧
      (LosesPoint name k →
        next (nameText name ++ k) = (.ok ⟨.name name.dropLast, name ++ k⟩, '.' :: k)) := by
  have stops : Stops k := fun c first => by
    rcases ends c first with blank | mark
    · simp [isNameChar, blank]
    · simp [isNameChar, mark]
  refine ⟨⟨fun read loses => ?_, fun keeps => ?_⟩, next_of_losesPoint⟩
  · exact (of_next_nameText read).2.1 loses.2.2 loses.1 loses.2.1
  · refine next_nameText stops (isSpellable_iff.2 ⟨any, trimmed, unticked⟩) fun angle plain point => ?_
    exact keeps ⟨plain, point, angle⟩

theorem ends_before_angle (rest : Text) :
    ∀ c ∈ ('<' :: rest).head?, Text.isBlank c = true ∨ c ∈ punctuation := by
  intro c first
  rw [← Option.some.inj first]
  exact .inr (by decide)

theorem name_with_blank_is_one_token :
    next (nameText "a b.".toList ++ "<C>".toList) =
      (.ok ⟨.name "a b.".toList, "`a b.`<C>".toList⟩, "<C>".toList) := by
  have ends := ends_before_angle "C>".toList
  have some : "a b.".toList ≠ [] ∧ Text.trim "a b.".toList = "a b.".toList ∧ '`' ∉ "a b.".toList := by decide
  exact (written_name_is_one_token_iff some.1 some.2.1 some.2.2 ends).1.2 (by decide)

theorem plain_name_before_angle_loses_point :
    ¬ ∀ name k : Text, name ≠ [] → Text.trim name = name → '`' ∉ name →
      (∀ c ∈ k.head?, Text.isBlank c = true ∨ c ∈ punctuation) →
      next (nameText name ++ k) = (.ok ⟨.name name, nameText name ++ k⟩, k) := by
  intro kept
  have read := kept "a.".toList "<B>".toList (by decide) (by decide) (by decide) (ends_before_angle _)
  rw [next_of_losesPoint (by decide)] at read
  exact absurd (Prod.mk.inj read).2 (by decide)

end Names

end Lexer

end Docblock.TypeExpr
