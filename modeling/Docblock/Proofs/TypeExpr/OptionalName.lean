import Docblock.Proofs.Text.Trim
import Docblock.Proofs.TypeExpr.ReadBack

/-!
# Optional names in brackets

A text in brackets is an optional name if what stands before its first `=` is a bare name. A list is
never spelled so: its first element is followed by a comma, and no spelling has a bare name before `=`.
-/

set_option autoImplicit false

namespace Docblock.TypeExpr

/-- What can be a name in brackets: the text before the first `=`, trimmed. -/
def bracketName (inner : Text) : Text :=
  Text.trim (inner.takeWhile (· != '='))

theorem takeWhile_of_not_mem {mark : Char} {before : Text} (outside : mark ∉ before) (behind : Text) :
    (before ++ behind).takeWhile (· != mark) = before ++ behind.takeWhile (· != mark) := by
  refine List.takeWhile_append_of_pos fun c inside => bne_iff_ne.2 ?_
  rintro rfl
  exact outside inside

theorem splitDefault_fst (inner : Text) : (splitDefault inner).1 = bracketName inner := by
  unfold splitDefault bracketName
  cases cut : Text.splitOnce '=' inner with
  | none =>
      have outside : '=' ∉ inner := by
        intro inside
        obtain ⟨before, after, shape, early⟩ := List.eq_append_cons_of_mem inside
        rw [Text.splitOnce_eq_some_iff.2 ⟨shape, early⟩] at cut
        cases cut
      have whole := takeWhile_of_not_mem outside []
      rw [List.append_nil] at whole
      simp [whole]
  | some halves =>
      obtain ⟨before, after⟩ := halves
      obtain ⟨rfl, outside⟩ := Text.splitOnce_eq_some_iff.1 cut
      rw [takeWhile_of_not_mem outside]
      simp

theorem optionalName?_eq_some_iff {source : Text} {node : Node} : optionalName? source = some node ↔
    ∃ inner, Text.trim source = '[' :: (inner ++ [']']) ∧ isBareName (bracketName inner) = true ∧
      node = .optional (.name (bracketName inner)) (splitDefault inner).2 := by
  constructor
  · intro found
    simp only [optionalName?, Option.bind_eq_bind, Option.bind_eq_some_iff] at found
    obtain ⟨opened, front, inner, back, found⟩ := found
    have shape := Text.stripPrefix_eq_some_iff.1 front
    rw [Text.stripSuffix_eq_some_iff.1 back] at shape
    rw [splitDefault_fst] at found
    split at found
    · next bare => exact ⟨inner, shape, bare, (Option.some.inj found).symm⟩
    · cases found
  · rintro ⟨inner, shape, bare, rfl⟩
    have front : Text.stripPrefix ['['] (Text.trim source) = some (inner ++ [']']) :=
      Text.stripPrefix_eq_some_iff.2 shape
    have back : Text.stripSuffix [']'] (inner ++ [']']) = some inner :=
      Text.stripSuffix_eq_some_iff.2 rfl
    simp [optionalName?, front, back, splitDefault_fst, bare]

theorem optionalName?_of_opens {text : Text} (opens : Opens '[' text) : optionalName? text = none := by
  obtain ⟨c, rest, rfl, visible, differs⟩ := opens
  rw [Option.eq_none_iff_forall_ne_some]
  intro node found
  obtain ⟨inner, shape, -⟩ := optionalName?_eq_some_iff.1 found
  obtain ⟨more, trimmed⟩ := Text.exists_trim_cons visible rest
  rw [trimmed] at shape
  exact differs (List.cons.inj shape).1

theorem optionalName?_of_last {c : Char} (visible : Text.isBlank c = false) (differs : c ≠ ']')
    (text : Text) : optionalName? (text ++ [c]) = none := by
  rw [Option.eq_none_iff_forall_ne_some]
  intro node found
  obtain ⟨inner, shape, -⟩ := optionalName?_eq_some_iff.1 found
  obtain ⟨front, trimmed⟩ := Text.exists_trim_append visible text
  rw [trimmed, ← List.cons_append] at shape
  exact differs (List.append_inj_right' shape rfl |> List.cons.inj).1

def Unlabelled (inner : Text) : Prop :=
  isBareName (bracketName inner) = false

theorem optionalName?_of_unlabelled {inner : Text} (unlabelled : Unlabelled inner) :
    optionalName? ('[' :: (inner ++ [']'])) = none := by
  rw [Option.eq_none_iff_forall_ne_some]
  intro node found
  obtain ⟨other, shape, bare, -⟩ := optionalName?_eq_some_iff.1 found
  rw [Text.trim_bracketed (by decide) (by decide)] at shape
  obtain rfl := List.append_cancel_right (List.cons.inj shape).2
  rw [unlabelled] at bare
  cases bare

section Unlabelled

theorem Unlabelled.nil : Unlabelled [] :=
  rfl

theorem isNameChar_of_isBareName {name : Text} {c : Char} (bare : isBareName name = true)
    (inside : c ∈ name) : Lexer.isNameChar c = true := by
  cases name with
  | nil => cases inside
  | cons first more =>
      simp only [isBareName, Bool.and_eq_true, Bool.or_eq_true, beq_iff_eq, List.all_eq_true,
        or_assoc] at bare
      obtain ⟨front, behind⟩ := bare
      have character : Text.isAlphanumeric c = true ∨ c = '_' ∨ c = '$' ∨ c = '.' ∨ c = '-' := by
        rcases List.mem_cons.1 inside with rfl | inside
        · rcases front with letter | rfl | rfl
          · exact .inl (by simp [Text.isAlphanumeric, letter])
          · simp
          · simp
        · exact behind c inside
      rcases character with letter | rfl | rfl | rfl | rfl
      · exact Lexer.isNameChar_of_isAlphanumeric letter
      all_goals decide

theorem Unlabelled.mark {mark : Char} (punctuated : mark ∈ Lexer.punctuation) (differs : mark ≠ '=')
    {before : Text} (outside : '=' ∉ before) (behind : Text) : Unlabelled (before ++ mark :: behind) := by
  have each : (Lexer.punctuation.all fun p => !Text.isBlank p) = true := by decide
  have visible : Text.isBlank mark = false := by
    simpa using List.all_eq_true.1 each mark punctuated
  have inside : mark ∈ bracketName (before ++ mark :: behind) := by
    refine Text.mem_trim_of_visible ?_ visible
    rw [takeWhile_of_not_mem outside]
    simp [differs]
  rw [Unlabelled, ← Bool.not_eq_true]
  intro bare
  exact (Lexer.isNameChar_iff.1 (isNameChar_of_isBareName bare inside)).2 punctuated

theorem Unlabelled.front {first : Char} (visible : Text.isBlank first = false)
    (other : (Text.isAlphabetic first || first == '_' || first == '$') = false) (rest : Text) :
    Unlabelled (first :: rest) := by
  unfold Unlabelled bracketName
  by_cases same : first = '='
  · subst same
    rfl
  · obtain ⟨more, trimmed⟩ := Text.exists_trim_cons visible (rest.takeWhile (· != '='))
    rw [List.takeWhile_cons_of_pos (by simpa using same), trimmed, isBareName, other, Bool.false_and]

variable {mark : Char} (punctuated : mark ∈ Lexer.punctuation) (differs : mark ≠ '=') (k : Text)

include punctuated differs

theorem Unlabelled.plain {text : Text} (plain : isPlainName text = true) :
    Unlabelled (text ++ mark :: k) := by
  refine .mark punctuated differs (fun inside => ?_) k
  have named := (Lexer.isPlainName_iff.1 plain).isNameChar inside
  revert named
  decide

theorem Unlabelled.nameText (text : Text) : Unlabelled (nameText text ++ mark :: k) := by
  unfold TypeExpr.nameText
  split
  · next plain => exact .plain punctuated differs k plain
  · exact .front (by decide) (by decide) _

theorem Unlabelled.write (value : Binary64) : Unlabelled (Numeral.write value ++ mark :: k) := by
  by_cases finite : value.isFinite = true
  · obtain ⟨negative, raw, x, shape, written, -⟩ := Numeral.write_written finite
    obtain ⟨c, rest, rfl, digit, -⟩ := written.begins
    rw [shape]
    cases negative with
    | false =>
        refine .front (Lexer.isNameChar_iff.1 (Lexer.isNameChar_of_isDigit digit)).1 ?_ _
        have noLetter : Text.isAlphabetic c = false := by
          cases letter : Text.isAlphabetic c with
          | false => rfl
          | true =>
              rw [Lexer.not_isDigit_of_isAlphabetic letter] at digit
              cases digit
        simp [noLetter, Decimal.ne_of_isDigit digit]
    | true => exact .front (by decide) (by decide) _
  · exact .plain punctuated differs k (Lexer.isPlainName_write (by simpa using finite))

theorem Unlabelled.word {node : Node} {text : Text} (word : node.word? = some text) :
    Unlabelled (node.render ++ mark :: k) := by
  rw [Node.render_word word]
  exact .plain punctuated differs k (isPlainName_word word)

/-- What an expression is spelled as is no bare name, whatever mark follows. -/
theorem Layered.unlabelled {layer : Layer} {node : Node} (layered : Layered layer node)
    (typed : layer = .type ∨ layer = .trailed ∨ layer = .basic) :
    Unlabelled (node.render ++ mark :: k) := by
  induction layered generalizing mark k with
  | nullableLiteral => exact .front (by decide) (by decide) _
  | nonNullableLiteral => exact .front (by decide) (by decide) _
  | leadingNullable => exact .front (by decide) (by decide) _
  | leadingNonNullable => exact .front (by decide) (by decide) _
  | type _ induction => exact induction punctuated differs k (by simp)
  | trailed _ induction => exact induction punctuated differs k (by simp)
  -- behind a mark of the node itself any other may follow
  | nullable _ _ induction =>
      rw [Node.render_nullable, List.append_assoc]
      exact induction (by decide) (by decide) (mark :: k) (by simp)
  | nonNullable _ _ induction =>
      rw [Node.render_nonNullable, List.append_assoc]
      exact induction (by decide) (by decide) (mark :: k) (by simp)
  | all => exact .front (by decide) (by decide) _
  | null => exact .word punctuated differs k rfl
  | undefined => exact .word punctuated differs k rfl
  | void => exact .word punctuated differs k rfl
  | boolean value => cases value <;> exact .word punctuated differs k rfl
  | string value => exact .front (by decide) (by decide) _
  | number value => exact .write punctuated differs k value
  | name text => exact .nameText punctuated differs k text
  | union =>
      rw [Node.render_union]
      exact .front (by decide) (by decide) _
  | array =>
      rw [Node.render_array]
      exact .front (by decide) (by decide) _
  | arrayRest =>
      rw [Node.render_array]
      exact .front (by decide) (by decide) _
  | record =>
      rw [Node.render_record]
      exact .front (by decide) (by decide) _
  | application =>
      rw [Node.render_application, List.append_assoc]
      exact .nameText (by decide) (by decide) _ _
  | function =>
      rw [Node.render_function, List.append_assoc]
      exact .mark (by decide) (by decide) (by decide) _
  | _ => simp at typed

end Unlabelled

theorem optionalName?_array {nodes : List Node} (each : ∀ node ∈ nodes, Layered .type node) :
    optionalName? (Node.array nodes).render = none := by
  rw [Node.render_array]
  cases nodes with
  | nil => exact optionalName?_of_unlabelled .nil
  | cons first more =>
      have layered := each first List.mem_cons_self
      have named := fun k => layered.unlabelled (show ',' ∈ Lexer.punctuation by decide) (by decide) k (.inl rfl)
      cases more with
      | nil =>
          have whole := optionalName?_of_unlabelled (named [])
          simpa [Node.listEnd, layered.not_rest] using whole
      | cons second more =>
          have whole := optionalName?_of_unlabelled
            (named (' ' :: Text.join Node.commaBlank ((second :: more).map Node.render)))
          simpa [Node.listEnd, Text.join_cons_cons, Node.commaBlank] using whole

theorem optionalName?_arrayRest {nodes : List Node} {last : Node}
    (each : ∀ node ∈ nodes, Layered .type node) :
    optionalName? (Node.array (nodes ++ [.rest last])).render = none := by
  rw [Node.render_array]
  cases nodes with
  | nil =>
      have unlabelled : Unlabelled ('.' :: '.' :: '.' :: last.render) :=
        .front (by decide) (by decide) _
      have whole := optionalName?_of_unlabelled unlabelled
      simpa [Node.listEnd, Node.isRest, Node.render_rest] using whole
  | cons first more =>
      have layered := each first List.mem_cons_self
      have named := fun k => layered.unlabelled (show ',' ∈ Lexer.punctuation by decide) (by decide) k (.inl rfl)
      obtain ⟨second, others, shape⟩ : ∃ second others, more ++ [.rest last] = second :: others :=
        List.exists_cons_of_ne_nil (by simp)
      have whole := optionalName?_of_unlabelled
        (named (' ' :: Text.join Node.commaBlank ((second :: others).map Node.render)))
      rw [List.cons_append, shape]
      simpa [Node.listEnd, Text.join_cons_cons, Node.commaBlank] using whole

theorem Layered.optionalName?_eq_none {node : Node} (layered : Layered .type node) :
    optionalName? node.render = none := by
  cases layered with
  | nullableLiteral => exact optionalName?_of_opens ⟨'?', [], rfl, by decide, by decide⟩
  | nonNullableLiteral => exact optionalName?_of_opens ⟨'!', [], rfl, by decide, by decide⟩
  | leadingNullable => exact optionalName?_of_opens ⟨'?', _, rfl, by decide, by decide⟩
  | leadingNonNullable => exact optionalName?_of_opens ⟨'!', _, rfl, by decide, by decide⟩
  | type inner =>
      cases inner with
      | nullable =>
          rw [Node.render_nullable]
          exact optionalName?_of_last (by decide) (by decide) _
      | nonNullable =>
          rw [Node.render_nonNullable]
          exact optionalName?_of_last (by decide) (by decide) _
      | trailed inner =>
          cases inner with
          | all => exact optionalName?_of_opens ⟨'*', [], rfl, by decide, by decide⟩
          | null => exact optionalName?_of_opens (.word rfl rfl)
          | undefined => exact optionalName?_of_opens (.word rfl rfl)
          | void => exact optionalName?_of_opens (.word rfl rfl)
          | boolean value => cases value <;> exact optionalName?_of_opens (.word rfl rfl)
          | string => exact optionalName?_of_opens ⟨'"', _, rfl, by decide, by decide⟩
          | number value => exact optionalName?_of_opens (.write rfl value)
          | name text => exact optionalName?_of_opens (.nameText rfl text)
          | union =>
              exact optionalName?_of_opens ⟨'(', _, Node.render_union _, by decide, by decide⟩
          | array each => exact optionalName?_array each
          | arrayRest each => exact optionalName?_arrayRest each
          | record =>
              exact optionalName?_of_opens ⟨'{', _, Node.render_record _, by decide, by decide⟩
          | application =>
              rw [Node.render_application]
              exact optionalName?_of_opens ((Opens.nameText rfl _).append _)
          | function =>
              rw [Node.render_function]
              exact optionalName?_of_opens ⟨'f', _, rfl, by decide, by decide⟩

/-- An optional name with a default is read back by its brackets alone. -/
theorem optionalName?_defaulted {text default : Text} (bare : isBareName text = true)
    (any : default ≠ []) (trimmed : Text.trim default = default) :
    optionalName? (Node.optional (.name text) (some default)).render =
      some (.optional (.name text) (some default)) := by
  have named := fun c (inside : c ∈ text) => Lexer.isNameChar_iff.1 (isNameChar_of_isBareName bare inside)
  have outside : '=' ∉ text := fun inside => (named '=' inside).2 (by decide)
  have itself : Text.trim text = text := Text.trim_of_visible fun c inside => (named c inside).1
  have name : bracketName (text ++ '=' :: default) = text := by
    rw [bracketName, takeWhile_of_not_mem outside]
    simpa using itself
  have cut : (splitDefault (text ++ '=' :: default)).2 = some default := by
    rw [splitDefault, Text.splitOnce_eq_some_iff.2 ⟨rfl, outside⟩]
    simp [trimmed, any, Option.filter]
  refine optionalName?_eq_some_iff.2 ⟨text ++ '=' :: default, ?_, ?_, ?_⟩
  · rw [Node.render_defaulted, ← Text.trim_bracketed (by decide) (by decide)]
    simp
  · rw [name]
    exact bare
  · rw [name, cut]

theorem rooted_of_optionalName? {source : Text} {node : Node} (found : optionalName? source = some node) :
    Rooted node := by
  obtain ⟨inner, -, bare, rfl⟩ := optionalName?_eq_some_iff.1 found
  cases default : (splitDefault inner).2 with
  | none => exact .optional (.type (.trailed (.name _)))
  | some value =>
      unfold splitDefault at default
      split at default
      · simp only [Option.filter_eq_some_iff, Option.some.injEq] at default
        obtain ⟨rfl, any⟩ := default
        exact .defaulted bare (by simpa using any) (Text.trim_trim _)
      · cases default

end Docblock.TypeExpr
