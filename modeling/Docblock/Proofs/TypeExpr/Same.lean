import Mathlib.Data.List.Forall2
import Docblock.Proofs.TypeExpr.Shape

/-!
# Nodes that are the same

Which nodes are the same as a node, told by its constructor, and what they have in common with it.
-/

set_option autoImplicit false

namespace Docblock.TypeExpr

def Field.Same (field other : Field) : Prop :=
  field.key = other.key ∧ Node.sameOption field.value other.value = true

namespace Node

theorem sameList_iff {nodes others : List Node} :
    sameList nodes others = true ↔ List.Forall₂ (fun a b => same a b = true) nodes others := by
  induction nodes generalizing others with
  | nil => cases others <;> simp [sameList]
  | cons node nodes induction => cases others <;> simp [sameList, induction]

theorem sameFields_iff {fields others : List Field} :
    sameFields fields others = true ↔ List.Forall₂ Field.Same fields others := by
  induction fields generalizing others with
  | nil => cases others <;> simp [sameFields]
  | cons field fields induction =>
      obtain ⟨key, value⟩ := field
      rcases others with _ | ⟨⟨key', value'⟩, others⟩ <;>
        simp [sameFields, Field.Same, Field.key, Field.value, induction]

theorem sameOption_none_iff {other : Option Node} : sameOption none other = true ↔ other = none := by
  cases other <;> simp [sameOption]

theorem sameOption_some_iff {node : Node} {other : Option Node} :
    sameOption (some node) other = true ↔ ∃ right, other = some right ∧ same node right = true := by
  cases other <;> simp [sameOption]

section Constructors

variable {other : Node}

theorem same_word_iff {node : Node} {text : Text} (word : node.word? = some text) :
    same node other = true ↔ other = node := by
  unfold word? at word
  split at word <;> first
    | (cases word; done)
    | (cases other <;> rw [same.eq_def] <;> simp)

theorem same_all_iff : same .all other = true ↔ other = .all := by
  cases other <;> rw [same.eq_def] <;> simp

theorem same_nullableLiteral_iff : same .nullableLiteral other = true ↔ other = .nullableLiteral := by
  cases other <;> rw [same.eq_def] <;> simp

theorem same_nonNullableLiteral_iff :
    same .nonNullableLiteral other = true ↔ other = .nonNullableLiteral := by
  cases other <;> rw [same.eq_def] <;> simp

theorem same_name_iff {text : Text} : same (.name text) other = true ↔ other = .name text := by
  cases other <;> rw [same.eq_def] <;> simp
  exact eq_comm

theorem same_string_iff {value : Text} : same (.string value) other = true ↔ other = .string value := by
  cases other <;> rw [same.eq_def] <;> simp
  exact eq_comm

theorem same_number_iff {value : Binary64} : same (.number value) other = true ↔
    ∃ right, other = .number right ∧ value.same right = true := by
  cases other <;> rw [same.eq_def] <;> simp

theorem same_union_iff {nodes : List Node} : same (.union nodes) other = true ↔
    ∃ others, other = .union others ∧ sameList nodes others = true := by
  cases other <;> rw [same.eq_def] <;> simp

theorem same_array_iff {nodes : List Node} : same (.array nodes) other = true ↔
    ∃ others, other = .array others ∧ sameList nodes others = true := by
  cases other <;> rw [same.eq_def] <;> simp

theorem same_record_iff {fields : List Field} : same (.record fields) other = true ↔
    ∃ others, other = .record others ∧ sameFields fields others = true := by
  cases other <;> rw [same.eq_def] <;> simp

theorem same_optional_iff {node : Node} {default : Option Text} :
    same (.optional node default) other = true ↔
      ∃ right, other = .optional right default ∧ same node right = true := by
  cases other <;> rw [same.eq_def] <;> simp
  exact ⟨fun both => ⟨both.2.symm, both.1⟩, fun both => ⟨both.2, both.1.symm⟩⟩

theorem same_nullable_iff {node : Node} {leading : Bool} :
    same (.nullable node leading) other = true ↔
      ∃ right, other = .nullable right leading ∧ same node right = true := by
  cases other <;> rw [same.eq_def] <;> simp
  exact ⟨fun both => ⟨both.2.symm, both.1⟩, fun both => ⟨both.2, both.1.symm⟩⟩

theorem same_nonNullable_iff {node : Node} {leading : Bool} :
    same (.nonNullable node leading) other = true ↔
      ∃ right, other = .nonNullable right leading ∧ same node right = true := by
  cases other <;> rw [same.eq_def] <;> simp
  exact ⟨fun both => ⟨both.2.symm, both.1⟩, fun both => ⟨both.2, both.1.symm⟩⟩

theorem same_rest_iff {node : Node} : same (.rest node) other = true ↔
    ∃ right, other = .rest right ∧ same node right = true := by
  cases other <;> rw [same.eq_def] <;> simp

theorem same_parameter_iff {text : Text} {node : Node} :
    same (.parameter text node) other = true ↔
      ∃ right, other = .parameter text right ∧ same node right = true := by
  cases other <;> rw [same.eq_def] <;> simp
  exact fun _ => eq_comm

theorem same_application_iff {head : Node} {nodes : List Node} :
    same (.application head nodes) other = true ↔
      ∃ head' others, other = .application head' others ∧ same head head' = true ∧
        sameList nodes others = true := by
  cases other <;> rw [same.eq_def] <;> simp

theorem same_function_iff {params : List Node} {result this new : Option Node} :
    same (.function params result this new) other = true ↔
      ∃ params' result' this' new', other = .function params' result' this' new' ∧
        sameList params params' = true ∧ sameOption result result' = true ∧
        sameOption this this' = true ∧ sameOption new new' = true := by
  cases other <;> rw [same.eq_def] <;> simp [and_assoc]

theorem same_optional_right {node : Node} {default : Option Text}
    (equal : same node (.optional other default) = true) :
    ∃ left, node = .optional left default ∧ same left other = true := by
  cases node <;> rw [same.eq_def] at equal <;> simp at equal
  obtain ⟨inner, rfl⟩ := equal
  exact ⟨_, rfl, inner⟩

theorem same_rest_right {node : Node} (equal : same node (.rest other) = true) :
    ∃ left, node = .rest left ∧ same left other = true := by
  cases node <;> rw [same.eq_def] at equal <;> simp at equal
  exact ⟨_, rfl, equal⟩

theorem same_parameter_right {node : Node} {text : Text}
    (equal : same node (.parameter text other) = true) :
    ∃ left, node = .parameter text left ∧ same left other = true := by
  cases node <;> rw [same.eq_def] at equal <;> simp at equal
  obtain ⟨rfl, inner⟩ := equal
  exact ⟨_, rfl, inner⟩

end Constructors

theorem sameOption_isSome {left right : Option Node} (equal : sameOption left right = true) :
    right.isSome = left.isSome := by
  cases left <;> cases right <;> first | rfl | simp [sameOption] at equal

theorem isArray_iff {node : Node} : node.isArray = true ↔ node = .name "Array".toList := by
  cases node <;> simp [isArray]

theorem same_isArray {node other : Node} (equal : same node other = true) :
    other.isArray = node.isArray := by
  rw [Bool.eq_iff_iff, isArray_iff, isArray_iff]
  constructor
  · rintro rfl
    cases node <;> rw [same.eq_def] at equal <;> simp at equal
    rw [equal]
    rfl
  · rintro rfl
    exact same_name_iff.1 equal

/-- What nodes have in common that are the same. -/
structure Alike (node other : Node) : Prop where
  leading : other.isLeading = node.isLeading
  result : other.hasResult = node.hasResult
  lefts : other.lefts = node.lefts

theorem Alike.of_eq {node other : Node} (equal : other = node) : Alike node other := by
  subst equal
  exact ⟨rfl, rfl, rfl⟩

theorem alike_of_same {node other : Node} (equal : same node other = true) : Alike node other := by
  have first : ∀ nodes others, (∀ a ∈ nodes, ∀ b, same a b = true → lefts b = lefts a) →
      sameList nodes others = true → leftsFirst others = leftsFirst nodes := by
    intro nodes others each equal
    cases nodes <;> cases others <;> simp_all [sameList, leftsFirst]
  cases node with
  | name text => exact .of_eq (same_name_iff.1 equal)
  | all => exact .of_eq (same_all_iff.1 equal)
  | nullableLiteral => exact .of_eq (same_nullableLiteral_iff.1 equal)
  | nonNullableLiteral => exact .of_eq (same_nonNullableLiteral_iff.1 equal)
  | undefined => exact .of_eq ((same_word_iff rfl).1 equal)
  | void => exact .of_eq ((same_word_iff rfl).1 equal)
  | null => exact .of_eq ((same_word_iff rfl).1 equal)
  | string value => exact .of_eq (same_string_iff.1 equal)
  | number value =>
      obtain ⟨right, rfl, -⟩ := same_number_iff.1 equal
      exact ⟨rfl, rfl, by simp [lefts]⟩
  | boolean value => cases value <;> exact .of_eq ((same_word_iff rfl).1 equal)
  | union nodes =>
      obtain ⟨others, rfl, members⟩ := same_union_iff.1 equal
      refine ⟨rfl, rfl, ?_⟩
      rw [lefts, lefts]
      exact first nodes others (fun a member b inner => (alike_of_same inner).lefts) members
  | optional node default =>
      obtain ⟨right, rfl, -⟩ := same_optional_iff.1 equal
      exact ⟨rfl, rfl, by simp [lefts]⟩
  | nullable node leading =>
      obtain ⟨right, rfl, inner⟩ := same_nullable_iff.1 equal
      refine ⟨rfl, rfl, ?_⟩
      cases leading with
      | false => simpa [lefts] using (alike_of_same inner).lefts
      | true => simp [lefts]
  | nonNullable node leading =>
      obtain ⟨right, rfl, inner⟩ := same_nonNullable_iff.1 equal
      refine ⟨rfl, rfl, ?_⟩
      cases leading with
      | false => simpa [lefts] using (alike_of_same inner).lefts
      | true => simp [lefts]
  | rest node =>
      obtain ⟨right, rfl, -⟩ := same_rest_iff.1 equal
      exact ⟨rfl, rfl, by simp [lefts]⟩
  | array nodes =>
      obtain ⟨others, rfl, -⟩ := same_array_iff.1 equal
      exact ⟨rfl, rfl, by simp [lefts]⟩
  | record fields =>
      obtain ⟨others, rfl, -⟩ := same_record_iff.1 equal
      exact ⟨rfl, rfl, by simp [lefts]⟩
  | function params result this new =>
      obtain ⟨params', result', this', new', rfl, -, equal, -⟩ := same_function_iff.1 equal
      exact ⟨rfl, sameOption_isSome equal, by simp [lefts]⟩
  | parameter text node =>
      obtain ⟨right, rfl, -⟩ := same_parameter_iff.1 equal
      exact ⟨rfl, rfl, by simp [lefts]⟩
  | application head nodes =>
      obtain ⟨head', others, rfl, heads, arguments⟩ := same_application_iff.1 equal
      refine ⟨rfl, rfl, ?_⟩
      have inner := first nodes others (fun a member b inner => (alike_of_same inner).lefts) arguments
      rw [lefts, lefts, same_isArray heads, inner]
termination_by sizeOf node

end Node

end Docblock.TypeExpr
