import Docblock.Json.Encode
import Docblock.Proofs.Json.Pretty
import Docblock.Proofs.TypeExpr.Height

/-!
# The JSON of a type expression tells the type expression

The object of a node names its kind, and for each kind its members tell the parts: what can be absent is
`null` or left out, and no object is `null`. So the printed text of a tree tells the tree.
-/

set_option autoImplicit false

namespace Docblock.TypeExpr

open Json (member member?)

namespace Node

/-- What holds of a node when it holds of its parts holds of all nodes. -/
theorem induction_parts {holds : Node → Prop}
    (step : ∀ node, (∀ part ∈ node.parts, holds part) → holds node) (node : Node) : holds node := by
  have below : ∀ bound node, node.height ≤ bound → holds node := by
    intro bound
    induction bound with
    | zero => exact fun node low => absurd low (Nat.not_le_of_gt node.height_pos)
    | succ bound induction =>
        exact fun node low => step node fun part inside => induction part (height_le_iff.1 low part inside)
  exact below _ node (Nat.le_refl _)

inductive Finite : Node → Prop where
  | intro {node : Node} (here : ∀ value, node = .number value → value.isFinite = true)
      (below : ∀ part ∈ node.parts, Finite part) : Finite node

variable {node other : Node} {nodes others : List Node} {fields fields' : List Field}

theorem toJsonAll_eq_map (nodes : List Node) : toJsonAll nodes = nodes.map toJson := by
  induction nodes with
  | nil => rfl
  | cons node nodes induction => rw [toJsonAll, induction, List.map_cons]

theorem exists_object (node : Node) : ∃ members, node.toJson = object node.kind members := by
  cases node <;> exact ⟨_, rfl⟩

/-! ## Finite numbers -/

theorem finite_object_iff {kind : String} {members : List Member} :
    (object kind members).Finite ↔ ∀ member ∈ members, member.value.Finite := by
  constructor
  · rintro ⟨⟩
    next each => exact (List.forall_mem_cons.1 each).2
  · exact fun each => .object (List.forall_mem_cons.2 ⟨.string _, each⟩)

theorem finite_toJsonAll (each : ∀ node ∈ nodes, node.toJson.Finite) : (Json.array (toJsonAll nodes)).Finite := by
  rw [toJsonAll_eq_map]
  exact .array (by simpa using each)

theorem finite_toJsonOption {node? : Option Node} (each : ∀ node ∈ node?, node.toJson.Finite) :
    ∀ value ∈ toJsonOption node?, value.Finite := by
  cases node? with
  | none => simp [toJsonOption]
  | some node => simpa [toJsonOption] using each

theorem finite_getD {value? : Option Json} (each : ∀ value ∈ value?, value.Finite) :
    (value?.getD .null).Finite := by
  cases value? with
  | none => exact .null
  | some value => exact each value rfl

theorem finite_member? {name : String} {value? : Option Json} (each : ∀ value ∈ value?, value.Finite) :
    ∀ member ∈ member? name value?, member.value.Finite := by
  cases value? with
  | none => simp [member?]
  | some value => simpa [member?, member, Member.value] using each value rfl

theorem finite_toJsonFields (each : ∀ field ∈ fields, ∀ node ∈ field.value, node.toJson.Finite) :
    ∀ value ∈ toJsonFields fields, value.Finite := by
  induction fields with
  | nil => simp [toJsonFields]
  | cons field fields induction =>
      obtain ⟨key, value⟩ := field
      obtain ⟨here, later⟩ := List.forall_mem_cons.1 each
      rw [toJsonFields, List.forall_mem_cons, finite_object_iff]
      have written : ((toJsonOption value).getD .null).Finite := finite_getD (finite_toJsonOption here)
      exact ⟨by simpa [member, Member.value, Json.Finite.string] using written, induction later⟩

theorem Finite.toJson (finite : node.Finite) : node.toJson.Finite := by
  induction finite with
  | @intro node here below induction =>
      cases node <;> rw [Node.toJson, finite_object_iff] <;>
        simp only [member, Member.value, List.forall_mem_cons, Json.Finite.string, Json.Finite.bool, true_and,
          and_true, List.not_mem_nil, false_implies, implies_true]
      case number value => exact .number (here value rfl)
      case union elements => exact finite_toJsonAll induction
      case array elements => exact finite_toJsonAll induction
      case rest expression => exact induction expression List.mem_cons_self
      case nullable expression leading => exact induction expression List.mem_cons_self
      case nonNullable expression leading => exact induction expression List.mem_cons_self
      case parameter text expression => exact induction expression List.mem_cons_self
      case optional expression default =>
        refine ⟨induction expression List.mem_cons_self, finite_member? ?_⟩
        cases default <;> simp [Json.Finite.string]
      case application head applications =>
        obtain ⟨first, further⟩ := List.forall_mem_cons.1 induction
        exact ⟨first, finite_toJsonAll further⟩
      case record fields =>
        refine .array (finite_toJsonFields fun field inside node value => induction node ?_)
        exact List.mem_filterMap.2 ⟨field, inside, value⟩
      case function params result this new =>
        simp only [parts, List.forall_mem_append, Option.mem_toList] at induction
        obtain ⟨⟨⟨listed, returned⟩, this⟩, new⟩ := induction
        refine ⟨finite_toJsonAll listed, finite_getD (finite_toJsonOption returned), List.forall_mem_append.2 ?_⟩
        exact ⟨finite_member? (finite_toJsonOption this), finite_member? (finite_toJsonOption new)⟩

/-! ## Members tell parts -/

/-- No other tree has the object of this one. -/
def IsTold (node : Node) : Prop :=
  ∀ other : Node, node.toJson = other.toJson → node = other

theorem toJsonAll_inj (each : ∀ node ∈ nodes, node.IsTold)
    (same : toJsonAll nodes = toJsonAll others) : nodes = others := by
  induction nodes generalizing others with
  | nil =>
      cases others with
      | nil => rfl
      | cons => cases same
  | cons node nodes induction =>
      cases others with
      | nil => cases same
      | cons other others =>
          obtain ⟨here, later⟩ := List.forall_mem_cons.1 each
          obtain ⟨first, rest⟩ := List.cons.inj same
          rw [here other first, induction later rest]

theorem toJson_ne_null (node : Node) : node.toJson ≠ .null := by
  obtain ⟨members, shape⟩ := node.exists_object
  rw [shape]
  exact Json.noConfusion

section Absent

variable {node? other? : Option Node}

theorem toJsonOption_inj (each : ∀ node ∈ node?, node.IsTold)
    (same : toJsonOption node? = toJsonOption other?) : node? = other? := by
  cases node? with
  | none =>
      cases other? with
      | none => rfl
      | some => cases same
  | some node =>
      cases other? with
      | none => cases same
      | some other => rw [each node rfl other (Option.some.inj same)]

/-- `null` stands for what is absent only. -/
theorem toJsonOption_of_getD (same : (toJsonOption node?).getD .null = (toJsonOption other?).getD .null) :
    toJsonOption node? = toJsonOption other? := by
  cases node? with
  | none =>
      cases other? with
      | none => rfl
      | some other => exact absurd same.symm other.toJson_ne_null
  | some node =>
      cases other? with
      | none => exact absurd same node.toJson_ne_null
      | some other => exact congrArg some same

end Absent

theorem toJsonFields_inj
    (each : ∀ field ∈ fields, ∀ node ∈ field.value, node.IsTold)
    (same : toJsonFields fields = toJsonFields fields') : fields = fields' := by
  induction fields generalizing fields' with
  | nil =>
      cases fields' with
      | nil => rfl
      | cons field' fields' =>
          cases field'
          cases same
  | cons field fields induction =>
      obtain ⟨key, value⟩ := field
      cases fields' with
      | nil => cases same
      | cons field' fields' =>
          obtain ⟨key', value'⟩ := field'
          obtain ⟨here, later⟩ := List.forall_mem_cons.1 each
          obtain ⟨first, rest⟩ := List.cons.inj same
          simp only [object, member, Json.object.injEq, List.cons.injEq, Member.mk.injEq, Json.string.injEq,
            true_and, and_true] at first
          obtain ⟨rfl, first⟩ := first
          have values : value = value' := toJsonOption_inj here (toJsonOption_of_getD first)
          rw [values, induction later rest]

theorem member?_pair_inj {name name' : String} (apart : name ≠ name') {a b c d : Option Json}
    (same : member? name a ++ member? name' b = member? name c ++ member? name' d) : a = c ∧ b = d := by
  have apart' : name.toList ≠ name'.toList := fun same => apart (String.toList_inj.1 same)
  cases a <;> cases b <;> cases c <;> cases d <;> simp_all [member?, member]

theorem object_inj {name name' : String} {members members' : List Member}
    (same : object name members = object name' members') : name = name' ∧ members = members' := by
  simp only [object, member, Json.object.injEq, List.cons.injEq, Member.mk.injEq, Json.string.injEq,
    true_and] at same
  exact ⟨String.toList_inj.1 same.1, same.2⟩

theorem function_inj {params params' : List Node} {result this new result' this' new' : Option Node}
    (each : ∀ part ∈ (function params result this new).parts, part.IsTold)
    (same : (function params result this new).toJson = (function params' result' this' new').toJson) :
    function params result this new = function params' result' this' new' := by
  obtain ⟨listed, returned, bound⟩ : toJsonAll params = toJsonAll params' ∧
      (toJsonOption result).getD .null = (toJsonOption result').getD .null ∧
      member? "this" (toJsonOption this) ++ member? "new" (toJsonOption new) =
        member? "this" (toJsonOption this') ++ member? "new" (toJsonOption new') := by
    simpa [toJson, object, member] using same
  obtain ⟨thisBound, newBound⟩ := member?_pair_inj (by decide) bound
  simp only [parts, List.forall_mem_append, Option.mem_toList] at each
  obtain ⟨⟨⟨eachParam, ofResult⟩, ofThis⟩, ofNew⟩ := each
  rw [toJsonAll_inj eachParam listed, toJsonOption_inj ofResult (toJsonOption_of_getD returned),
    toJsonOption_inj ofThis thisBound, toJsonOption_inj ofNew newBound]

theorem isTold (node : Node) : node.IsTold := by
  induction node using induction_parts with
  | step node induction =>
      intro other same
      have kinds : node.kind = other.kind := by
        obtain ⟨members, shape⟩ := node.exists_object
        obtain ⟨members', shape'⟩ := other.exists_object
        rw [shape, shape'] at same
        exact (object_inj same).1
      -- nodes of two kinds are told by the names of the kinds; what is left are two nodes of one kind
      cases node <;> cases other <;> try first | rfl | (simp [kind] at kinds; done)
      case name.name text text' => simpa [toJson, object, member] using same
      case string.string value value' => simpa [toJson, object, member] using same
      case number.number value value' => simpa [toJson, object, member] using same
      case boolean.boolean value value' => simpa [toJson, object, member] using same
      case union.union elements elements' =>
        have written : toJsonAll elements = toJsonAll elements' := by
          simpa [toJson, object, member] using same
        exact congrArg union (toJsonAll_inj induction written)
      case array.array elements elements' =>
        have written : toJsonAll elements = toJsonAll elements' := by
          simpa [toJson, object, member] using same
        exact congrArg array (toJsonAll_inj induction written)
      case rest.rest expression expression' =>
        have written : expression.toJson = expression'.toJson := by
          simpa [toJson, object, member] using same
        rw [induction expression List.mem_cons_self _ written]
      case nullable.nullable expression leading expression' leading' =>
        obtain ⟨written, rfl⟩ : expression.toJson = expression'.toJson ∧ leading = leading' := by
          simpa [toJson, object, member] using same
        rw [induction expression List.mem_cons_self _ written]
      case nonNullable.nonNullable expression leading expression' leading' =>
        obtain ⟨written, rfl⟩ : expression.toJson = expression'.toJson ∧ leading = leading' := by
          simpa [toJson, object, member] using same
        rw [induction expression List.mem_cons_self _ written]
      case parameter.parameter text expression text' expression' =>
        obtain ⟨rfl, written⟩ : text = text' ∧ expression.toJson = expression'.toJson := by
          simpa [toJson, object, member] using same
        rw [induction expression List.mem_cons_self _ written]
      case application.application head applications head' applications' =>
        obtain ⟨first, written⟩ :
            head.toJson = head'.toJson ∧ toJsonAll applications = toJsonAll applications' := by
          simpa [toJson, object, member] using same
        obtain ⟨here, below⟩ := List.forall_mem_cons.1 induction
        rw [here _ first, toJsonAll_inj below written]
      case optional.optional expression default expression' default' =>
        obtain ⟨written, absent⟩ : expression.toJson = expression'.toJson ∧
            member? "default" (default.map .string) = member? "default" (default'.map .string) := by
          simpa [toJson, object, member] using same
        have defaults : default = default' := by
          cases default <;> cases default' <;> simp_all [member?, member]
        rw [induction expression List.mem_cons_self _ written, defaults]
      case record.record fields fields' =>
        have written : toJsonFields fields = toJsonFields fields' := by
          simpa [toJson, object, member] using same
        refine congrArg record (toJsonFields_inj (fun field inside node value => induction node ?_) written)
        exact List.mem_filterMap.2 ⟨field, inside, value⟩
      case function.function params result this new params' result' this' new' =>
        exact function_inj induction same

end Node

/-- Trees with finite numbers that are printed alike in a lawful format are the same, even to the sign of a zero. -/
theorem printed_tree_determines_tree {format : Json.Format} (lawful : format.Lawful) {node other : Node}
    (finite : node.Finite) (finite' : other.Finite)
    (same : format.pretty 0 node.toJson = format.pretty 0 other.toJson) : node = other :=
  node.isTold other (Json.pretty_inj lawful finite.toJson finite'.toJson 0 same)

theorem printed_list_of_zero_determines_tree :
    let zero : Node := .number (.finite false ⟨0, by decide⟩)
    (Node.arrayOf zero).Finite ∧ Json.Format.standard.pretty 0 (Node.arrayOf zero).toJson =
        Json.Format.standard.pretty 0 (Node.application (.name "Array".toList) [zero]).toJson ∧
      Node.arrayOf zero = .application (.name "Array".toList) [zero] := by
  intro zero
  have finite : zero.Finite :=
    .intro (fun value same => Node.number.inj same ▸ rfl) (by simp [zero, Node.parts])
  have named : (Node.name "Array".toList).Finite :=
    .intro (fun value same => by cases same) (by simp [Node.parts])
  have list : (Node.arrayOf zero).Finite :=
    .intro (fun value same => by cases same) (by simpa [Node.arrayOf, Node.parts] using ⟨named, finite⟩)
  exact ⟨list, rfl, printed_tree_determines_tree Json.Format.standard_lawful list list rfl⟩

end Docblock.TypeExpr
