import Docblock.TypeExpr.Parser

/-!
# The grammar of type expressions

A kind of phrase relates the tokens from the beginning of a phrase on, the tokens behind it, and its
value. Every kind is defined over the kind of the expressions nested in it, as the productions of
the parser are; `Expression` closes the level over itself, `Top` is a whole text.

```
top   := ['...'] U ['=']
U     := T ('|' T)*
T     := ('?' | '!') [P] | P
P     := B ('!' | '?' | '[' ']')* | fn ':' T
B     := '*' | '(' [T ('|' T)*] ')' | '[' list(T) ']' | '[' (T ',')* '...' T [','] ']'
       | '{' list(field) '}' | '{' ',' '}' | word | name [('<' | '.<') U (',' U)* '>']
       | fn | string | number
field := (name | string | number) [':' T]
fn    := 'function' '(' (list(param) | bind | bind ',' list(param)) ')'
bind  := ('this' | 'new') ':' T
param := ['...'] (name ':' T | U) ['=']
list(x) := [x (',' x)* [',']]
```
-/

set_option autoImplicit false

namespace Docblock.TypeExpr

/-- A kind of phrase: the tokens from a phrase on, the tokens behind it, and its value. -/
abbrev Phrase (α : Type) := List Token.Kind → List Token.Kind → α → Prop

namespace Phrase

section Lists

variable {α : Type} (item : Phrase α)

inductive Maybe (token : Token.Kind) : List Token.Kind → List Token.Kind → Prop where
  | absent {ts : List Token.Kind} : Maybe token ts ts
  | present {ts : List Token.Kind} : Maybe token (token :: ts) ts

inductive Separated (separator : Token.Kind) : Phrase (List α) where
  | last {ts us : List Token.Kind} {a : α} (only : item ts us a) : Separated separator ts us [a]
  | more {ts us vs : List Token.Kind} {a : α} {as : List α}
      (first : item ts (separator :: us) a) (others : Separated separator us vs as) :
      Separated separator ts vs (a :: as)

/-- Any number of items, each with a comma behind it. -/
inductive Ended : Phrase (List α) where
  | none {ts : List Token.Kind} : Ended ts ts []
  | more {ts us vs : List Token.Kind} {a : α} {as : List α}
      (first : item ts (.comma :: us) a) (others : Ended us vs as) : Ended ts vs (a :: as)

/-- Any number of items with commas between them; a comma may stand behind the last. -/
inductive Listed : Phrase (List α) where
  | empty {ts : List Token.Kind} : Listed ts ts []
  | items {ts us vs : List Token.Kind} {as : List α}
      (separated : Separated item .comma ts us as) (comma : Maybe .comma us vs) : Listed ts vs as

end Lists

section Marks

variable (item : Phrase Node)

inductive Marked : Phrase Node where
  | plain {ts us : List Token.Kind} {node : Node} (bare : item ts us node) : Marked ts us node
  | optional {ts us : List Token.Kind} {node : Node} (bare : item ts (.equal :: us) node) :
      Marked ts us (.optional node none)

inductive Spread : Phrase Node where
  | plain {ts us : List Token.Kind} {node : Node} (bare : item ts us node) : Spread ts us node
  | rest {ts us : List Token.Kind} {node : Node} (bare : item ts us node) :
      Spread (.ellipsis :: ts) us (.rest node)

end Marks

section Level

variable (type : Phrase Node)

inductive Union : Phrase Node where
  | single {ts us : List Token.Kind} {node : Node} (only : type ts us node) : Union ts us node
  | several {ts us vs : List Token.Kind} {first : Node} {more : List Node}
      (head : type ts (.pipe :: us) first) (tail : Separated type .pipe us vs more) :
      Union ts vs (.union (first :: more))

inductive Members : Phrase (List Node) where
  | empty {ts : List Token.Kind} : Members ts ts []
  | several {ts us : List Token.Kind} {nodes : List Node}
      (separated : Separated type .pipe ts us nodes) : Members ts us nodes

inductive Elements : Phrase (List Node) where
  | listed {ts us : List Token.Kind} {nodes : List Node} (all : Listed type ts us nodes) :
      Elements ts us nodes
  | rest {ts us vs ws : List Token.Kind} {nodes : List Node} {node : Node}
      (front : Ended type ts (.ellipsis :: us) nodes) (last : type us vs node)
      (comma : Maybe .comma vs ws) : Elements ts ws (nodes ++ [.rest node])

inductive Entry : Phrase Field where
  | alone {ts : List Token.Kind} {token : Token.Kind} {key : Text}
      (spelled : Grammar.key? token = some key) : Entry (token :: ts) ts (.mk key none)
  | typed {ts us : List Token.Kind} {token : Token.Kind} {key : Text} {node : Node}
      (spelled : Grammar.key? token = some key) (value : type ts us node) :
      Entry (token :: .colon :: ts) us (.mk key (some node))

/-- The entries of a record; a lone comma stands for none. -/
inductive Entries : Phrase (List Field) where
  | comma {ts : List Token.Kind} : Entries (.comma :: ts) ts []
  | listed {ts us : List Token.Kind} {fields : List Field} (all : Listed (Entry type) ts us fields) :
      Entries ts us fields

inductive Bare : Phrase Node where
  | named {ts us : List Token.Kind} {name : Text} {node : Node} (value : type ts us node) :
      Bare (.name name :: .colon :: ts) us (.parameter name node)
  | union {ts us : List Token.Kind} {node : Node} (value : Union type ts us node) : Bare ts us node

abbrev Param : Phrase Node := Spread (Marked (Bare type))

/-- The type of `this` or of `new`; the value holds the former and the latter. -/
inductive Binding : Phrase (Option Node × Option Node) where
  | this {ts us : List Token.Kind} {node : Node} (value : type ts us node) :
      Binding (.name "this".toList :: .colon :: ts) us (some node, none)
  | new {ts us : List Token.Kind} {node : Node} (value : type ts us node) :
      Binding (.name "new".toList :: .colon :: ts) us (none, some node)

/-- Whether `this :` or `new :` stands here. -/
def bindsHere : List Token.Kind → Bool
  | .name name :: .colon :: _ => name == "new".toList || name == "this".toList
  | _ => false

inductive Signature : Phrase (List Node × Option Node × Option Node) where
  | unbound {ts us : List Token.Kind} {params : List Node} (free : bindsHere ts = false)
      (all : Listed (Param type) ts (.rightParen :: us) params) :
      Signature (.name "function".toList :: .leftParen :: ts) us (params, none, none)
  | bound {ts us : List Token.Kind} {bindings : Option Node × Option Node}
      (binding : Binding type ts (.rightParen :: us) bindings) :
      Signature (.name "function".toList :: .leftParen :: ts) us ([], bindings)
  | both {ts us vs : List Token.Kind} {bindings : Option Node × Option Node} {params : List Node}
      (binding : Binding type ts (.comma :: us) bindings)
      (all : Listed (Param type) us (.rightParen :: vs) params) :
      Signature (.name "function".toList :: .leftParen :: ts) vs (params, bindings)

/-- An expression that carries no mark of its own. The words of literals are no names, and
`function` is one only where no parenthesis follows. -/
inductive Basic : Phrase Node where
  | all {ts : List Token.Kind} : Basic (.star :: ts) ts .all
  | string {ts : List Token.Kind} {value : Text} : Basic (.string value :: ts) ts (.string value)
  | number {ts : List Token.Kind} {value : Binary64} :
      Basic (.number value :: ts) ts (.number value)
  | parenthesized {ts us : List Token.Kind} {nodes : List Node}
      (members : Members type ts (.rightParen :: us) nodes) :
      Basic (.leftParen :: ts) us (.union nodes)
  | array {ts us : List Token.Kind} {nodes : List Node}
      (elements : Elements type ts (.rightBracket :: us) nodes) :
      Basic (.leftBracket :: ts) us (.array nodes)
  | record {ts us : List Token.Kind} {fields : List Field}
      (entries : Entries type ts (.rightBrace :: us) fields) :
      Basic (.leftBrace :: ts) us (.record fields)
  | literal {ts : List Token.Kind} {name : Text} {node : Node}
      (word : Grammar.literal? name = some node) : Basic (.name name :: ts) ts node
  | name {ts : List Token.Kind} {name : Text} (free : Grammar.literal? name = none)
      (noCall : name = "function".toList → ts.head? ≠ some .leftParen) :
      Basic (.name name :: ts) ts (.name name)
  | application {ts us : List Token.Kind} {name : Text} {token : Token.Kind} {nodes : List Node}
      (free : Grammar.literal? name = none) (opens : token = .less ∨ token = .dotLess)
      (arguments : Separated (Union type) .comma ts (.greater :: us) nodes) :
      Basic (.name name :: token :: ts) us (.application (.name name) nodes)
  | function {ts us : List Token.Kind} {params : List Node} {this new : Option Node}
      (signature : Signature type ts us (params, this, new)) :
      Basic ts us (.function params none this new)

/-- A basic expression and the marks that follow it. -/
inductive Trailed : Phrase Node where
  | basic {ts us : List Token.Kind} {node : Node} (basic : Basic type ts us node) :
      Trailed ts us node
  | bang {ts us : List Token.Kind} {node : Node} (inner : Trailed ts (.bang :: us) node) :
      Trailed ts us (.nonNullable node false)
  | question {ts us : List Token.Kind} {node : Node} (inner : Trailed ts (.question :: us) node) :
      Trailed ts us (.nullable node false)
  | brackets {ts us : List Token.Kind} {node : Node}
      (inner : Trailed ts (.leftBracket :: .rightBracket :: us) node) :
      Trailed ts us (.arrayOf node)

/-- An expression without a leading mark: one with trailing marks, or a function with a result. -/
inductive Postfixed : Phrase Node where
  | trailed {ts us : List Token.Kind} {node : Node} (trailed : Trailed type ts us node) :
      Postfixed ts us node
  | result {ts us vs : List Token.Kind} {params : List Node} {this new : Option Node}
      {result : Node} (signature : Signature type ts (.colon :: us) (params, this, new))
      (value : type us vs result) : Postfixed ts vs (.function params (some result) this new)

/-- An expression, with or without a leading mark. -/
inductive Prefixed : Phrase Node where
  | questionAlone {ts : List Token.Kind} : Prefixed (.question :: ts) ts .nullableLiteral
  | question {ts us : List Token.Kind} {node : Node} (inner : Postfixed type ts us node) :
      Prefixed (.question :: ts) us (.nullable node true)
  | bangAlone {ts : List Token.Kind} : Prefixed (.bang :: ts) ts .nonNullableLiteral
  | bang {ts us : List Token.Kind} {node : Node} (inner : Postfixed type ts us node) :
      Prefixed (.bang :: ts) us (.nonNullable node true)
  | plain {ts us : List Token.Kind} {node : Node} (inner : Postfixed type ts us node) :
      Prefixed ts us node

theorem Listed.cons {α : Type} {item : Phrase α} {ts us vs : List Token.Kind} {a : α} {as : List α}
    (first : item ts (.comma :: us) a) (others : Listed item us vs as) :
    Listed item ts vs (a :: as) := by
  cases others with
  | empty => exact .items (.last first) .present
  | items separated comma => exact .items (.more first separated) comma

theorem Listed.single {α : Type} {item : Phrase α} {ts us : List Token.Kind} {a : α}
    (only : item ts us a) : Listed item ts us [a] :=
  .items (.last only) .absent

variable {type}

theorem Elements.cons {ts us vs : List Token.Kind} {node : Node} {nodes : List Node}
    (first : type ts (.comma :: us) node) (others : Elements type us vs nodes) :
    Elements type ts vs (node :: nodes) := by
  cases others with
  | listed all => exact .listed (.cons first all)
  | rest front last comma => exact .rest (.more first front) last comma

end Level

/-- A type expression with at most `room` of them nested in one another, itself included. -/
def Expression : Nat → Phrase Node
  | 0 => fun _ _ _ => False
  | room + 1 => Prefixed (Expression room)

abbrev Top (room : Nat) : Phrase Node := Spread (Marked (Union (Expression room)))

/-- The marks from a place on, and what they make of the node before them. -/
inductive Trail : List Token.Kind → List Token.Kind → Node → Node → Prop where
  | none {ts : List Token.Kind} {node : Node} : Trail ts ts node node
  | bang {ts us : List Token.Kind} {node result : Node}
      (others : Trail ts us (.nonNullable node false) result) : Trail (.bang :: ts) us node result
  | question {ts us : List Token.Kind} {node result : Node}
      (others : Trail ts us (.nullable node false) result) : Trail (.question :: ts) us node result
  | brackets {ts us : List Token.Kind} {node result : Node}
      (others : Trail ts us (.arrayOf node) result) :
      Trail (.leftBracket :: .rightBracket :: ts) us node result

theorem Trail.trans {ts us vs : List Token.Kind} {a b c : Node} (first : Trail ts us a b)
    (second : Trail us vs b c) : Trail ts vs a c := by
  induction first with
  | none => exact second
  | bang _ induction => exact .bang (induction second)
  | question _ induction => exact .question (induction second)
  | brackets _ induction => exact .brackets (induction second)

theorem Trailed.exists_trail {type : Phrase Node} {ts us : List Token.Kind} {node : Node}
    (derived : Trailed type ts us node) :
    ∃ vs inner, Basic type ts vs inner ∧ Trail vs us inner node := by
  induction derived with
  | basic basic => exact ⟨_, _, basic, .none⟩
  | bang _ induction =>
      obtain ⟨vs, inner, basic, trail⟩ := induction
      exact ⟨vs, inner, basic, trail.trans (.bang .none)⟩
  | question _ induction =>
      obtain ⟨vs, inner, basic, trail⟩ := induction
      exact ⟨vs, inner, basic, trail.trans (.question .none)⟩
  | brackets _ induction =>
      obtain ⟨vs, inner, basic, trail⟩ := induction
      exact ⟨vs, inner, basic, trail.trans (.brackets .none)⟩

def beginsBasic : Token.Kind → Bool
  | .star | .leftParen | .leftBracket | .leftBrace | .string _ | .number _ | .name _ => true
  | _ => false

def beginsType (kind : Token.Kind) : Bool :=
  beginsBasic kind || kind == .question || kind == .bang

def extendsName : Token.Kind → Bool
  | .less | .dotLess | .leftParen | .leftBracket | .question | .bang => true
  | _ => false

section Heads

variable {type : Phrase Node} {ts us : List Token.Kind} {node : Node}

theorem Signature.begins {value : List Node × Option Node × Option Node}
    (derived : Signature type ts us value) :
    ∃ more, ts = .name "function".toList :: .leftParen :: more := by
  cases derived <;> exact ⟨_, rfl⟩

theorem Basic.begins (derived : Basic type ts us node) :
    ∃ kind more, ts = kind :: more ∧ beginsBasic kind = true := by
  cases derived with
  | function signature =>
      obtain ⟨more, rfl⟩ := signature.begins
      exact ⟨_, _, rfl, rfl⟩
  | _ => exact ⟨_, _, rfl, rfl⟩

theorem Trailed.begins (derived : Trailed type ts us node) :
    ∃ kind more, ts = kind :: more ∧ beginsBasic kind = true := by
  induction derived with
  | basic basic => exact basic.begins
  | _ => assumption

theorem Postfixed.begins (derived : Postfixed type ts us node) :
    ∃ kind more, ts = kind :: more ∧ beginsBasic kind = true := by
  cases derived with
  | trailed trailed => exact trailed.begins
  | result signature _ =>
      obtain ⟨more, rfl⟩ := signature.begins
      exact ⟨_, _, rfl, rfl⟩

theorem Prefixed.begins (derived : Prefixed type ts us node) :
    ∃ kind more, ts = kind :: more ∧ beginsType kind = true := by
  cases derived with
  | plain inner =>
      obtain ⟨kind, more, rfl, begins⟩ := inner.begins
      exact ⟨kind, more, rfl, by simp [beginsType, begins]⟩
  | _ => exact ⟨_, _, rfl, rfl⟩

theorem Trailed.alone {name : Text} {kind : Token.Kind} (apart : extendsName kind = false)
    (derived : Trailed type (.name name :: kind :: ts) us node) : us = kind :: ts := by
  generalize shape : Token.Kind.name name :: kind :: ts = kinds at derived
  induction derived with
  | basic basic =>
      cases basic with
      | literal _ => exact (List.cons.inj shape).2.symm
      | name _ _ => exact (List.cons.inj shape).2.symm
      | application _ opens _ =>
          obtain ⟨rfl, -⟩ := List.cons.inj (List.cons.inj shape).2
          rcases opens with rfl | rfl <;> cases apart
      | function signature =>
          obtain ⟨more, rfl⟩ := signature.begins
          obtain ⟨rfl, -⟩ := List.cons.inj (List.cons.inj shape).2
          cases apart
      | _ => simp at shape
  | bang _ induction =>
      obtain ⟨rfl, -⟩ := List.cons.inj (induction shape)
      cases apart
  | question _ induction =>
      obtain ⟨rfl, -⟩ := List.cons.inj (induction shape)
      cases apart
  | brackets _ induction =>
      obtain ⟨rfl, -⟩ := List.cons.inj (induction shape)
      cases apart

theorem Prefixed.alone {name : Text} {kind : Token.Kind} (apart : extendsName kind = false)
    (derived : Prefixed type (.name name :: kind :: ts) us node) : us = kind :: ts := by
  cases derived with
  | plain inner =>
      cases inner with
      | trailed trailed => exact trailed.alone apart
      | result signature _ =>
          obtain ⟨more, equal⟩ := signature.begins
          obtain ⟨rfl, -⟩ := List.cons.inj (List.cons.inj equal).2
          cases apart

end Heads

theorem Marked.begins {item : Phrase Node} {ts us : List Token.Kind} {node : Node}
    (heads : ∀ {ts us : List Token.Kind} {node : Node}, item ts us node →
      ∃ kind more, ts = kind :: more ∧ beginsType kind = true) (derived : Marked item ts us node) :
    ∃ kind more, ts = kind :: more ∧ beginsType kind = true := by
  cases derived with
  | plain bare => exact heads bare
  | optional bare => exact heads bare

/-- What phrases of expressions have in common, however deep they are nested. -/
structure IsType (type : Phrase Node) : Prop where
  begins : ∀ {ts us : List Token.Kind} {node : Node}, type ts us node →
    ∃ kind more, ts = kind :: more ∧ beginsType kind = true
  alone : ∀ {name : Text} {kind : Token.Kind} {ts us : List Token.Kind} {node : Node},
    extendsName kind = false → type (.name name :: kind :: ts) us node → us = kind :: ts

theorem Expression.isType (room : Nat) : IsType (Expression room) := by
  cases room with
  | zero => exact ⟨fun derived => derived.elim, fun _ derived => derived.elim⟩
  | succ room => exact ⟨Prefixed.begins, Prefixed.alone⟩

section

variable {type : Phrase Node} (isType : IsType type)

include isType

theorem Union.begins {ts us : List Token.Kind} {node : Node} (derived : Union type ts us node) :
    ∃ kind more, ts = kind :: more ∧ beginsType kind = true := by
  cases derived with
  | single only => exact isType.begins only
  | several head _ => exact isType.begins head

theorem Separated.begins {separator : Token.Kind} {ts us : List Token.Kind} {nodes : List Node}
    (derived : Separated type separator ts us nodes) :
    ∃ kind more, ts = kind :: more ∧ beginsType kind = true := by
  cases derived with
  | last only => exact isType.begins only
  | more first _ => exact isType.begins first

theorem Union.unlabelled {name : Text} {ts us : List Token.Kind} {node : Node}
    (derived : Union type (.name name :: .colon :: ts) us node) : us = .colon :: ts := by
  cases derived with
  | single only => exact isType.alone rfl only
  | several head _ => cases isType.alone rfl head

theorem Bare.begins {ts us : List Token.Kind} {node : Node} (derived : Bare type ts us node) :
    ∃ kind more, ts = kind :: more ∧ beginsType kind = true := by
  cases derived with
  | named _ => exact ⟨_, _, rfl, rfl⟩
  | union value => exact value.begins isType

theorem Param.begins {ts us : List Token.Kind} {node : Node} (derived : Param type ts us node) :
    ∃ kind more, ts = kind :: more ∧ (beginsType kind = true ∨ kind = .ellipsis) := by
  cases derived with
  | plain marked =>
      obtain ⟨kind, more, rfl, begins⟩ := marked.begins (Bare.begins isType)
      exact ⟨kind, more, rfl, .inl begins⟩
  | rest _ => exact ⟨_, _, rfl, .inr rfl⟩

end

end Phrase

end Docblock.TypeExpr
