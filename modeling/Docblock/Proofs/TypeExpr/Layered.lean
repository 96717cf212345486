import Docblock.TypeExpr.Parser
import Docblock.Proofs.TypeExpr.Phrase
import Docblock.Proofs.TypeExpr.Spelling

/-!
# Layered trees

The trees in which every mark stands where the grammar has it. Everything that is derived is layered;
what a layered tree needs besides, so that its spelling is read back as the tree, is `isReadable`.
-/

set_option autoImplicit false

namespace Docblock.TypeExpr

/-- The kinds of nodes by what they may carry: a type, an expression without a leading mark, one without
any mark, and the parameters of functions without marks, with `=` and with `...`. -/
inductive Layer where
  | type
  | trailed
  | basic
  | bare
  | marked
  | param

namespace Node

/-- Whether the node is a function with a result, which no mark can follow. -/
def hasResult : Node → Bool
  | .function _ result _ _ => result.isSome
  | _ => false

def word? : Node → Option Text
  | .null => some "null".toList
  | .undefined => some "undefined".toList
  | .void => some "void".toList
  | .boolean true => some "true".toList
  | .boolean false => some "false".toList
  | _ => none

/-- Whether the node is a name whose last point is lost in front of an angle. -/
def losesPoint : Node → Bool
  | .name text => isPlainName text && text.getLast? == some '.'
  | _ => false

def isArray : Node → Bool
  | .name text => text == "Array".toList
  | _ => false

/-- Whether the first parameter is read as the type of `this` or of `new`. -/
def bindsFirst : List Node → Bool
  | .parameter text _ :: _ | .optional (.parameter text _) _ :: _ =>
      text == "new".toList || text == "this".toList
  | _ => false

mutual

/-- Whether every part of the expression has a spelling that is read back: names that can be spelled and
are no literals, finite numbers, plain names of parameters, and no bindings among the parameters. -/
def isReadable : Node → Bool
  | .name text => Lexer.isSpellable text && (Grammar.literal? text).isNone
  | .all | .nullableLiteral | .nonNullableLiteral | .undefined | .void | .null => true
  | .string _ => true
  | .number value => value.isFinite
  | .boolean _ => true
  | .union elements => areReadable elements
  | .optional (.name _) (some _) => true
  | .optional expression _ => isReadable expression
  | .nullable expression _ => isReadable expression
  | .nonNullable expression _ => isReadable expression
  | .rest expression => isReadable expression
  | .array elements => areReadable elements
  | .record fields => fieldsReadable fields
  | .function params result this new =>
      areReadable params && optionReadable result && optionReadable this && optionReadable new &&
        (this.isSome || new.isSome || !bindsFirst params)
  | .parameter text expression => isPlainName text && isReadable expression
  | .application expression applications =>
      isReadable expression && !expression.losesPoint && areReadable applications

def areReadable : List Node → Bool
  | [] => true
  | node :: nodes => isReadable node && areReadable nodes

def optionReadable : Option Node → Bool
  | none => true
  | some node => isReadable node

def fieldsReadable : List Field → Bool
  | [] => true
  | .mk _ value :: fields => optionReadable value && fieldsReadable fields

end

mutual

/-- How many types the spelling of the expression nests in one another. -/
def nesting : Node → Nat
  | .name _ | .all | .nullableLiteral | .nonNullableLiteral | .undefined | .void | .null => 1
  | .string _ | .number _ | .boolean _ => 1
  | .union elements => nestingAll elements + 1
  | .optional expression _ => nesting expression
  | .nullable expression _ => nesting expression
  | .nonNullable expression _ => nesting expression
  | .rest expression => nesting expression
  | .array elements => nestingAll elements + 1
  | .record fields => nestingFields fields + 1
  | .function params result this new =>
      max (max (nestingAll params) (nestingOption result))
        (max (nestingOption this) (nestingOption new)) + 1
  | .parameter _ expression => nesting expression
  | .application _ applications => nestingAll applications + 1

def nestingAll : List Node → Nat
  | [] => 0
  | node :: nodes => max (nesting node) (nestingAll nodes)

def nestingOption : Option Node → Nat
  | none => 0
  | some node => nesting node

def nestingFields : List Field → Nat
  | [] => 0
  | .mk _ value :: fields => max (nestingOption value) (nestingFields fields)

end

mutual

/-- How many unions and lists begin where the expression begins, if it is spelled with delimiters. -/
def lefts : Node → Nat
  | .union elements => leftsFirst elements
  | .nullable expression false => lefts expression
  | .nonNullable expression false => lefts expression
  | .application head applications => if head.isArray then leftsFirst applications else 0
  | _ => 0

/-- One more than begins with the first of a list. -/
def leftsFirst : List Node → Nat
  | [] => 0
  | node :: _ => lefts node + 1

end

end Node

theorem literal?_eq_some_iff {name : Text} {node : Node} :
    Grammar.literal? name = some node ↔ node.word? = some name := by
  unfold Grammar.literal?
  constructor
  · intro found
    repeat' split at found
    all_goals first
      | (cases found; done)
      | next word =>
          cases found
          rw [beq_iff_eq.1 word]
          rfl
  · intro spelled
    unfold Node.word? at spelled
    split at spelled <;> cases spelled <;> rfl

theorem isPlainName_word {node : Node} {text : Text} (word : node.word? = some text) :
    isPlainName text = true := by
  unfold Node.word? at word
  split at word <;> cases word <;> decide

inductive Layered : Layer → Node → Prop where
  | nullableLiteral : Layered .type .nullableLiteral
  | nonNullableLiteral : Layered .type .nonNullableLiteral
  | leadingNullable {node : Node} (inner : Layered .trailed node) :
      Layered .type (.nullable node true)
  | leadingNonNullable {node : Node} (inner : Layered .trailed node) :
      Layered .type (.nonNullable node true)
  | type {node : Node} (inner : Layered .trailed node) : Layered .type node
  | nullable {node : Node} (inner : Layered .trailed node) (closed : node.hasResult = false) :
      Layered .trailed (.nullable node false)
  | nonNullable {node : Node} (inner : Layered .trailed node) (closed : node.hasResult = false) :
      Layered .trailed (.nonNullable node false)
  | trailed {node : Node} (inner : Layered .basic node) : Layered .trailed node
  | all : Layered .basic .all
  | null : Layered .basic .null
  | undefined : Layered .basic .undefined
  | void : Layered .basic .void
  | boolean (value : Bool) : Layered .basic (.boolean value)
  | string (value : Text) : Layered .basic (.string value)
  | number (value : Binary64) : Layered .basic (.number value)
  | name (text : Text) : Layered .basic (.name text)
  | union {nodes : List Node} (each : ∀ node ∈ nodes, Layered .type node) :
      Layered .basic (.union nodes)
  | array {nodes : List Node} (each : ∀ node ∈ nodes, Layered .type node) :
      Layered .basic (.array nodes)
  | arrayRest {nodes : List Node} {last : Node} (each : ∀ node ∈ nodes, Layered .type node)
      (rest : Layered .type last) : Layered .basic (.array (nodes ++ [.rest last]))
  | record {fields : List Field}
      (each : ∀ field ∈ fields, ∀ value ∈ field.value, Layered .type value) :
      Layered .basic (.record fields)
  | application {text : Text} {nodes : List Node} (any : nodes ≠ [])
      (each : ∀ node ∈ nodes, Layered .type node) :
      Layered .basic (.application (.name text) nodes)
  | function {params : List Node} {result this new : Option Node}
      (each : ∀ param ∈ params, Layered .param param)
      (resulting : ∀ node ∈ result, Layered .type node) (bound : ∀ node ∈ this, Layered .type node)
      (created : ∀ node ∈ new, Layered .type node) (one : this = none ∨ new = none) :
      Layered .basic (.function params result this new)
  | bare {node : Node} (inner : Layered .type node) : Layered .bare node
  | named (text : Text) {node : Node} (inner : Layered .type node) :
      Layered .bare (.parameter text node)
  | marked {node : Node} (inner : Layered .bare node) : Layered .marked node
  | optional {node : Node} (inner : Layered .bare node) : Layered .marked (.optional node none)
  | param {node : Node} (inner : Layered .marked node) : Layered .param node
  | rest {node : Node} (inner : Layered .marked node) : Layered .param (.rest node)

theorem Layered.word {node : Node} {text : Text} (word : node.word? = some text) :
    Layered .basic node ∧ node.hasResult = false := by
  unfold Node.word? at word
  split at word
  · exact ⟨.null, rfl⟩
  · exact ⟨.undefined, rfl⟩
  · exact ⟨.void, rfl⟩
  · exact ⟨.boolean true, rfl⟩
  · exact ⟨.boolean false, rfl⟩
  · cases word

/-- The trees that whole texts are read as. -/
inductive Rooted : Node → Prop where
  | type {node : Node} (inner : Layered .type node) : Rooted node
  | optional {node : Node} (inner : Layered .type node) : Rooted (.optional node none)
  | rest {node : Node} (inner : Layered .type node) : Rooted (.rest node)
  | restOptional {node : Node} (inner : Layered .type node) : Rooted (.rest (.optional node none))
  | defaulted {text default : Text} (bare : isBareName text = true) (any : default ≠ [])
      (trimmed : Text.trim default = default) : Rooted (.optional (.name text) (some default))

namespace Phrase

def Makes {α : Type} (item : Phrase α) (P : α → Prop) : Prop :=
  ∀ ⦃ts us : List Token.Kind⦄ ⦃a : α⦄, item ts us a → P a

section Members

variable {α : Type} {item : Phrase α} {P : α → Prop} (holds : Makes item P)

include holds

theorem Separated.forall {separator : Token.Kind} {ts us : List Token.Kind} {as : List α}
    (derived : Separated item separator ts us as) : ∀ a ∈ as, P a := by
  induction derived with
  | last only => simpa using holds only
  | more first _ induction => simpa using ⟨holds first, induction⟩

theorem Ended.forall {ts us : List Token.Kind} {as : List α} (derived : Ended item ts us as) :
    ∀ a ∈ as, P a := by
  induction derived with
  | none => simp
  | more first _ induction => simpa using ⟨holds first, induction⟩

theorem Listed.forall {ts us : List Token.Kind} {as : List α} (derived : Listed item ts us as) :
    ∀ a ∈ as, P a := by
  cases derived with
  | empty => simp
  | items separated _ => exact separated.forall holds

end Members

theorem Separated.ne_nil {α : Type} {item : Phrase α} {separator : Token.Kind}
    {ts us : List Token.Kind} {as : List α} (derived : Separated item separator ts us as) :
    as ≠ [] := by
  cases derived <;> simp

section Layered

variable {type : Phrase Node} (inner : Makes type (Layered .type))

include inner

theorem Union.layered : Makes (Union type) (Layered .type) := by
  intro ts us node derived
  cases derived with
  | single only => exact inner only
  | several head tail =>
      refine .type (.trailed (.union fun node member => ?_))
      rcases List.mem_cons.1 member with rfl | member
      · exact inner head
      · exact tail.forall inner node member

theorem Bare.layered : Makes (Bare type) (Layered .bare) := by
  intro ts us node derived
  cases derived with
  | named value => exact .named _ (inner value)
  | union value => exact .bare (Union.layered inner value)

theorem Marked.layered : Makes (Marked (Bare type)) (Layered .marked) := by
  intro ts us node derived
  cases derived with
  | plain bare => exact .marked (Bare.layered inner bare)
  | optional bare => exact .optional (Bare.layered inner bare)

theorem Param.layered : Makes (Param type) (Layered .param) := by
  intro ts us node derived
  cases derived with
  | plain marked => exact .param (Marked.layered inner marked)
  | rest marked => exact .rest (Marked.layered inner marked)

theorem Binding.layered {ts us : List Token.Kind} {bindings : Option Node × Option Node}
    (derived : Binding type ts us bindings) :
    (∀ node ∈ bindings.1, Layered .type node) ∧ (∀ node ∈ bindings.2, Layered .type node) ∧
      (bindings.1 = none ∨ bindings.2 = none) := by
  cases derived with
  | this value => simpa using inner value
  | new value => simpa using inner value

theorem Signature.layered {ts us : List Token.Kind} {params : List Node}
    {result this new : Option Node} (resulting : ∀ node ∈ result, Layered .type node)
    (derived : Signature type ts us (params, this, new)) :
    Layered .basic (.function params result this new) := by
  cases derived with
  | unbound _ all =>
      exact .function (all.forall (Param.layered inner)) resulting (by simp) (by simp) (.inl rfl)
  | bound binding =>
      obtain ⟨bound, created, one⟩ := binding.layered inner
      exact .function (by simp) resulting bound created one
  | both binding all =>
      obtain ⟨bound, created, one⟩ := binding.layered inner
      exact .function (all.forall (Param.layered inner)) resulting bound created one

theorem Entry.layered :
    Makes (Entry type) fun field => ∀ value ∈ field.value, Layered .type value := by
  intro ts us field derived
  cases derived with
  | alone => simp [Field.value]
  | typed _ value => simpa [Field.value] using inner value

theorem Basic.layered : Makes (Basic type) (Layered .basic) := by
  intro ts us node derived
  cases derived with
  | all => exact .all
  | string => exact .string _
  | number => exact .number _
  | parenthesized members =>
      cases members with
      | empty => exact .union (by simp)
      | several separated => exact .union (separated.forall inner)
  | array elements =>
      cases elements with
      | listed all => exact .array (all.forall inner)
      | rest front last _ => exact .arrayRest (front.forall inner) (inner last)
  | record entries =>
      cases entries with
      | comma => exact .record (by simp)
      | listed all =>
          exact .record (all.forall (Entry.layered inner))
  | literal word => exact (Layered.word (literal?_eq_some_iff.1 word)).1
  | name => exact .name _
  | application _ _ arguments =>
      exact .application arguments.ne_nil (arguments.forall (Union.layered inner))
  | function signature => exact signature.layered inner (by simp)

theorem Trailed.layered {ts us : List Token.Kind} {node : Node} (derived : Trailed type ts us node) :
    Layered .trailed node ∧ node.hasResult = false := by
  induction derived with
  | basic basic =>
      refine ⟨.trailed (Basic.layered inner basic), ?_⟩
      cases basic with
      | literal word => exact (Layered.word (literal?_eq_some_iff.1 word)).2
      | _ => rfl
  | bang _ induction => exact ⟨.nonNullable induction.1 induction.2, rfl⟩
  | question _ induction => exact ⟨.nullable induction.1 induction.2, rfl⟩
  | brackets _ induction =>
      refine ⟨.trailed (.application (by simp) ?_), rfl⟩
      simpa using Layered.type induction.1

theorem Postfixed.layered : Makes (Postfixed type) (Layered .trailed) := by
  intro ts us node derived
  cases derived with
  | trailed trailed => exact (trailed.layered inner).1
  | result signature value =>
      exact .trailed (signature.layered inner (by simpa using inner value))

theorem Prefixed.layered : Makes (Prefixed type) (Layered .type) := by
  intro ts us node derived
  cases derived with
  | questionAlone => exact .nullableLiteral
  | question value => exact .leadingNullable (Postfixed.layered inner value)
  | bangAlone => exact .nonNullableLiteral
  | bang value => exact .leadingNonNullable (Postfixed.layered inner value)
  | plain value => exact .type (Postfixed.layered inner value)

end Layered

/-- Whatever is derived is layered. -/
theorem Expression.layered (room : Nat) : Makes (Expression room) (Layered .type) := by
  induction room with
  | zero => exact fun _ _ _ derived => derived.elim
  | succ room induction => exact Prefixed.layered induction

theorem Top.rooted {room : Nat} {ts us : List Token.Kind} {node : Node}
    (derived : Top room ts us node) : Rooted node := by
  have union := Union.layered (Expression.layered room)
  cases derived with
  | plain marked =>
      cases marked with
      | plain bare => exact .type (union bare)
      | optional bare => exact .optional (union bare)
  | rest marked =>
      cases marked with
      | plain bare => exact .rest (union bare)
      | optional bare => exact .restOptional (union bare)

end Phrase

end Docblock.TypeExpr
