import Docblock.Proofs.TypeExpr.Proper
import Docblock.Proofs.TypeExpr.RoundTrip

/-!
# Where the nodes of a parsed tree stand

Types stand anywhere. Rest types, optional types and named parameters stand only at a few places, which
`Placed` tells by their paths. From this the shape of parsed trees follows: `parsed_tree_shaped`.
-/

set_option autoImplicit false

namespace Docblock.TypeExpr

/-- What stands right below a type. -/
inductive Below : Place → Node → Prop where
  | type {place : Place} {node : Node} (layered : Layered .type node) : Below place node
  | param {node : Node} (layered : Layered .param node) : Below .param node
  | rest {node : Node} (layered : Layered .type node) : Below .lastElement (.rest node)

/-- What stands at the end of a path in a parsed tree. -/
inductive Placed : List Place → Node → Prop where
  | root {node : Node} (rooted : Rooted node) : Placed [] node
  | underRoot {node : Node} (layered : Layered .type node) : Placed [.underRest] (.optional node none)
  | below {place : Place} {outer : List Place} {node : Node} (below : Below place node) :
      Placed (place :: outer) node
  | underRest {outer : List Place} {node : Node} (layered : Layered .marked node) :
      Placed (.underRest :: .param :: outer) node
  | underOptional {outer : List Place} {node : Node} (layered : Layered .bare node) :
      Placed (.underOptional :: .param :: outer) node
  | underBoth {outer : List Place} {node : Node} (layered : Layered .bare node) :
      Placed (.underOptional :: .underRest :: .param :: outer) node

section Steps

variable {place : Place} {path outer : List Place} {parent part root : Node}

theorem Layered.basic_holds (layered : Layered .basic parent) (holds : Holds parent place part) :
    Below place part := by
  cases layered with
  | union each =>
      cases holds with
      | member inside => exact .type (each part inside)
  | array each =>
      cases holds with
      | element shape _ => exact .type (each part (by simp [shape]))
      | lastElement shape => exact .type (each part (by simp [shape]))
  | @arrayRest nodes last each rest =>
      cases holds with
      | @element _ before after _ shape more =>
          -- the rest element is the last one, so this is another
          have inside : part ∈ nodes := by
            have ended : after.dropLast ++ [after.getLast more] = after := List.dropLast_append_getLast more
            rw [← ended, ← List.cons_append, ← List.append_assoc] at shape
            rw [List.append_inj_left' shape rfl]
            simp
          exact .type (each part inside)
      | lastElement shape =>
          obtain rfl := List.singleton_inj.1 (List.append_inj_right' shape rfl)
          exact .rest rest
  | record each =>
      cases holds with
      | value inside => exact .type (each _ inside part rfl)
  | application any each =>
      cases holds with
      | head => exact .type (.type (.trailed (.name _)))
      | argument inside => exact .type (each part inside)
  | function each resulting bound created one =>
      cases holds with
      | param inside => exact .param (each part inside)
      | result => exact .type (resulting part rfl)
      | this => exact .type (bound part rfl)
      | new => exact .type (created part rfl)
  | _ => cases holds

theorem Layered.type_holds (layered : Layered .type parent) (holds : Holds parent place part) :
    Below place part := by
  have trailed : ∀ {parent : Node}, Layered .trailed parent → Holds parent place part → Below place part := by
    intro parent layered holds
    cases layered with
    | nullable inner _ =>
        cases holds
        exact .type (.type inner)
    | nonNullable inner _ =>
        cases holds
        exact .type (.type inner)
    | trailed inner => exact inner.basic_holds holds
  cases layered with
  | leadingNullable inner =>
      cases holds
      exact .type (.type inner)
  | leadingNonNullable inner =>
      cases holds
      exact .type (.type inner)
  | type inner => exact trailed inner holds
  | nullableLiteral => cases holds
  | nonNullableLiteral => cases holds

theorem Layered.bare_holds (layered : Layered .bare parent) (holds : Holds parent place part) :
    Below place part := by
  cases layered with
  | bare inner => exact inner.type_holds holds
  | named text inner =>
      cases holds
      exact .type inner

theorem Rooted.holds (rooted : Rooted parent) (holds : Holds parent place part) : Placed [place] part := by
  cases rooted with
  | type inner => exact .below (inner.type_holds holds)
  | optional inner =>
      cases holds
      exact .below (.type inner)
  | rest inner =>
      cases holds
      exact .below (.type inner)
  | restOptional inner =>
      cases holds
      exact .underRoot inner
  | defaulted =>
      cases holds
      exact .below (.type (.type (.trailed (.name _))))

theorem Below.holds {above : Place} (below : Below above parent) (holds : Holds parent place part) :
    Placed (place :: above :: outer) part := by
  cases below with
  | type layered => exact .below (layered.type_holds holds)
  | rest layered =>
      cases holds
      exact .below (.type layered)
  | param layered =>
      cases layered with
      | rest inner =>
          cases holds
          exact .underRest inner
      | param inner =>
          cases inner with
          | optional inner =>
              cases holds
              exact .underOptional inner
          | marked inner => exact .below (inner.bare_holds holds)

theorem Placed.holds (placed : Placed path parent) (holds : Holds parent place part) :
    Placed (place :: path) part := by
  cases placed with
  | root rooted => exact rooted.holds holds
  | underRoot layered =>
      cases holds
      exact .below (.type layered)
  | below below => exact below.holds holds
  | underRest layered =>
      cases layered with
      | optional inner =>
          cases holds
          exact .underBoth inner
      | marked inner => exact .below (inner.bare_holds holds)
  | underOptional layered => exact .below (layered.bare_holds holds)
  | underBoth layered => exact .below (layered.bare_holds holds)

theorem Occurs.placed (rooted : Rooted root) (occurs : Occurs root path part) : Placed path part := by
  induction occurs with
  | root => exact .root rooted
  | part _ holds induction => exact induction.holds holds

end Steps

/-! ## What stands at a place -/

section Kinds

variable {path : List Place} {node inner : Node} {text : Text} {default : Option Text}

theorem Layered.bare_not_rest (layered : Layered .bare (.rest inner)) : False := by
  cases (Layered.marked layered).marked_not_rest

theorem Layered.bare_not_optional (layered : Layered .bare (.optional inner default)) : False := by
  cases layered.not_optional

theorem Layered.no_default (layered : Layered .marked (.optional inner (some text))) : False := by
  cases layered with
  | marked bare => exact bare.bare_not_optional

theorem Placed.of_rest (placed : Placed path (.rest inner)) :
    path = [] ∨ path.head? = some .lastElement ∨ path.head? = some .param := by
  cases placed with
  | root => exact .inl rfl
  | below below =>
      cases below with
      | type layered => exact (Layered.bare layered).bare_not_rest.elim
      | param => exact .inr (.inr rfl)
      | rest => exact .inr (.inl rfl)
  | underRest layered => cases layered.marked_not_rest
  | underOptional layered => exact layered.bare_not_rest.elim
  | underBoth layered => exact layered.bare_not_rest.elim

theorem Placed.of_optional (placed : Placed path (.optional inner default)) :
    path = [] ∨ path = [.underRest] ∨ path.head? = some .param ∨
      ∃ outer, path = .underRest :: .param :: outer := by
  cases placed with
  | root => exact .inl rfl
  | underRoot => exact .inr (.inl rfl)
  | below below =>
      cases below with
      | type layered => exact (Layered.bare layered).bare_not_optional.elim
      | param => exact .inr (.inr (.inl rfl))
  | underRest => exact .inr (.inr (.inr ⟨_, rfl⟩))
  | underOptional layered => exact layered.bare_not_optional.elim
  | underBoth layered => exact layered.bare_not_optional.elim

theorem Placed.of_default (placed : Placed path (.optional inner (some text))) :
    path = [] ∧ ∃ name, inner = .name name := by
  cases placed with
  | root rooted =>
      cases rooted with
      | type layered => exact (Layered.bare layered).bare_not_optional.elim
      | defaulted => exact ⟨rfl, _, rfl⟩
  | below below =>
      cases below with
      | type layered => exact (Layered.bare layered).bare_not_optional.elim
      | param layered =>
          cases layered with
          | param marked => exact marked.no_default.elim
  | underRest layered => exact layered.no_default.elim
  | underOptional layered => exact layered.bare_not_optional.elim
  | underBoth layered => exact layered.bare_not_optional.elim

theorem Placed.of_parameter (placed : Placed path (.parameter text inner)) : ∃ marks outer,
    path = marks ++ .param :: outer ∧
      marks ∈ [[], [.underOptional], [.underRest], [.underOptional, .underRest]] := by
  cases placed with
  | root rooted =>
      cases rooted with
      | type layered => exact layered.not_parameter.elim
  | @below place outer _ below =>
      cases below with
      | type layered => exact layered.not_parameter.elim
      | param => exact ⟨[], outer, rfl, by simp⟩
  | @underRest outer => exact ⟨[.underRest], outer, rfl, by simp⟩
  | @underOptional outer => exact ⟨[.underOptional], outer, rfl, by simp⟩
  | @underBoth outer => exact ⟨[.underOptional, .underRest], outer, rfl, by simp⟩

def Node.isLabelled : Node → Bool
  | .rest _ | .optional _ _ | .parameter _ _ => true
  | _ => false

theorem Layered.of_bare (layered : Layered .bare node) (plain : node.isLabelled = false) :
    Layered .type node := by
  cases layered with
  | bare inner => exact inner
  | named => cases plain

theorem Layered.of_marked (layered : Layered .marked node) (plain : node.isLabelled = false) :
    Layered .type node := by
  cases layered with
  | marked inner => exact inner.of_bare plain
  | optional => cases plain

theorem Below.layered {place : Place} (below : Below place node) (plain : node.isLabelled = false) :
    Layered .type node := by
  cases below with
  | type layered => exact layered
  | rest => cases plain
  | param layered =>
      cases layered with
      | param inner => exact inner.of_marked plain
      | rest => cases plain

/-- Whatever carries no mark or label is a type. -/
theorem Placed.layered (placed : Placed path node) (plain : node.isLabelled = false) :
    Layered .type node := by
  cases placed with
  | root rooted =>
      cases rooted with
      | type layered => exact layered
      | _ => cases plain
  | underRoot => cases plain
  | below below => exact below.layered plain
  | underRest layered => exact layered.of_marked plain
  | underOptional layered => exact layered.of_bare plain
  | underBoth layered => exact layered.of_bare plain

theorem Layered.of_application {head : Node} {arguments : List Node}
    (layered : Layered .type (.application head arguments)) : (∃ name, head = .name name) ∧ arguments ≠ [] := by
  cases layered with
  | type inner =>
      cases inner with
      | trailed inner =>
          cases inner with
          | application any _ => exact ⟨⟨_, rfl⟩, any⟩

theorem Layered.of_function {params : List Node} {result this new : Option Node}
    (layered : Layered .type (.function params result this new)) : this = none ∨ new = none := by
  cases layered with
  | type inner =>
      cases inner with
      | trailed inner =>
          cases inner with
          | function _ _ _ _ one => exact one

theorem Layered.of_leading
    (layered : Layered .type (.nullable inner true) ∨ Layered .type (.nonNullable inner true)) :
    inner.isLeading = false := by
  rcases layered with layered | layered
  · cases layered with
    | leadingNullable inner => exact inner.not_leading
    | type inner =>
        cases inner with
        | trailed inner => cases inner
  · cases layered with
    | leadingNonNullable inner => exact inner.not_leading
    | type inner =>
        cases inner with
        | trailed inner => cases inner

theorem Layered.of_trailing
    (layered : Layered .type (.nullable inner false) ∨ Layered .type (.nonNullable inner false)) :
    inner.isLeading = false ∧ inner.hasResult = false := by
  rcases layered with layered | layered
  · cases layered with
    | type inner =>
        cases inner with
        | nullable inner closed => exact ⟨inner.not_leading, closed⟩
        | trailed inner => cases inner
  · cases layered with
    | type inner =>
        cases inner with
        | nonNullable inner closed => exact ⟨inner.not_leading, closed⟩
        | trailed inner => cases inner

end Kinds

/-! ## Parsed trees -/

def literalWords : List Text :=
  ["null".toList, "undefined".toList, "void".toList, "true".toList, "false".toList]

/-- What stands where in a parsed tree, and what its names and numbers are. -/
structure Shaped (root : Node) : Prop where
  rest : ∀ {path : List Place} {inner : Node}, Occurs root path (.rest inner) →
    path = [] ∨ path.head? = some .lastElement ∨ path.head? = some .param
  optional : ∀ {path : List Place} {inner : Node} {default : Option Text},
    Occurs root path (.optional inner default) → path = [] ∨ path = [.underRest] ∨
      path.head? = some .param ∨ ∃ outer, path = .underRest :: .param :: outer
  default : ∀ {path : List Place} {inner : Node} {text : Text},
    Occurs root path (.optional inner (some text)) → path = [] ∧ ∃ name, inner = .name name
  parameter : ∀ {path : List Place} {text : Text} {inner : Node}, Occurs root path (.parameter text inner) →
    ∃ marks outer, path = marks ++ .param :: outer ∧
      marks ∈ [[], [.underOptional], [.underRest], [.underOptional, .underRest]]
  application : ∀ {path : List Place} {head : Node} {arguments : List Node},
    Occurs root path (.application head arguments) → (∃ name, head = .name name) ∧ arguments ≠ []
  function : ∀ {path : List Place} {params : List Node} {result this new : Option Node},
    Occurs root path (.function params result this new) → this = none ∨ new = none
  leading : ∀ {path : List Place} {inner : Node},
    Occurs root path (.nullable inner true) ∨ Occurs root path (.nonNullable inner true) →
      inner.isLeading = false
  trailing : ∀ {path : List Place} {inner : Node},
    Occurs root path (.nullable inner false) ∨ Occurs root path (.nonNullable inner false) →
      inner.isLeading = false ∧ inner.hasResult = false
  name : ∀ {path : List Place} {text : Text},
    Occurs root path (.name text) ∨ (∃ inner, Occurs root path (.parameter text inner)) →
      text ≠ [] ∧ Text.trim text = text ∧ '`' ∉ text
  word : ∀ {path : List Place} {text : Text}, Occurs root path (.name text) → text ∈ literalWords →
    path = [.underOptional]
  number : ∀ {path : List Place} {value : Binary64}, Occurs root path (.number value) → value ≠ .nan

section Shaped

variable {source : Text} {root : Node}

theorem isSome_literal?_of_mem {text : Text} (word : text ∈ literalWords) :
    (Grammar.literal? text).isSome = true := by
  revert text
  decide

theorem occurs_optional_name {path : List Place} {name : Text} {default : Option Text} {part : Node}
    (occurs : Occurs (.optional (.name name) default) path part) :
    path = [] ∧ part = .optional (.name name) default ∨ path = [.underOptional] ∧ part = .name name := by
  induction occurs with
  | root => exact .inl ⟨rfl, rfl⟩
  | part _ holds induction =>
      rcases induction with ⟨rfl, rfl⟩ | ⟨rfl, rfl⟩
      · cases holds
        exact .inr ⟨rfl, rfl⟩
      · cases holds

theorem named_of_parseType (parsed : parseType source = .ok root) : Throughout Node.Proper root ∨
    ∃ name default, root = .optional (.name name) default ∧ Lexer.isSpellable name = true := by
  rcases named_or_reads_of_parseType parsed with named | reads
  · obtain ⟨inner, -, bare, rfl⟩ := optionalName?_eq_some_iff.1 named
    have any : bracketName inner ≠ [] := by
      intro empty
      rw [empty] at bare
      cases bare
    have spellable := Lexer.isSpellable_of_isNameChar any fun c inside => isNameChar_of_isBareName bare inside
    exact .inr ⟨_, _, rfl, spellable⟩
  · exact .inl reads.proper

/-- Every node of a parsed tree stands where its kind may stand, every name is one, and so is every number. -/
theorem parsed_tree_shaped (parsed : parseType source = .ok root) : Shaped root := by
  have rooted := rooted_of_parseType parsed
  have proper := named_of_parseType parsed
  constructor
  case rest =>
    intro path inner occurs
    exact (occurs.placed rooted).of_rest
  case optional =>
    intro path inner default occurs
    exact (occurs.placed rooted).of_optional
  case default =>
    intro path inner text occurs
    exact (occurs.placed rooted).of_default
  case parameter =>
    intro path text inner occurs
    exact (occurs.placed rooted).of_parameter
  case application =>
    intro path head arguments occurs
    exact ((occurs.placed rooted).layered rfl).of_application
  case function =>
    intro path params result this new occurs
    exact ((occurs.placed rooted).layered rfl).of_function
  case leading =>
    intro path inner occurs
    apply Layered.of_leading
    exact occurs.imp (fun occurs => (occurs.placed rooted).layered rfl) fun occurs =>
      (occurs.placed rooted).layered rfl
  case trailing =>
    intro path inner occurs
    apply Layered.of_trailing
    exact occurs.imp (fun occurs => (occurs.placed rooted).layered rfl) fun occurs =>
      (occurs.placed rooted).layered rfl
  case name =>
    intro path text occurs
    apply Lexer.isSpellable_iff.1
    rcases proper with proper | ⟨name, default, rfl, spellable⟩
    · rcases occurs with occurs | ⟨inner, occurs⟩
      · exact (proper.occurs occurs).here.1
      · exact (proper.occurs occurs).here
    · rcases occurs with occurs | ⟨inner, occurs⟩
      · rcases occurs_optional_name occurs with ⟨-, same⟩ | ⟨-, same⟩
        · cases same
        · cases same
          exact spellable
      · rcases occurs_optional_name occurs with ⟨-, same⟩ | ⟨-, same⟩
        · cases same
        · cases same
  case word =>
    intro path text occurs word
    rcases proper with proper | ⟨name, default, rfl, spellable⟩
    · have free := (proper.occurs occurs).here.2
      have spelled := isSome_literal?_of_mem word
      rw [free] at spelled
      cases spelled
    · rcases occurs_optional_name occurs with ⟨-, same⟩ | ⟨under, -⟩
      · cases same
      · exact under
  case number =>
    intro path value occurs
    rcases proper with proper | ⟨name, default, rfl, spellable⟩
    · exact (proper.occurs occurs).here
    · rcases occurs_optional_name occurs with ⟨-, same⟩ | ⟨-, same⟩
      · cases same
      · cases same

theorem parsed_function_shaped :
    ∃ root, parseType "function(new: a.b, c: D=, ...e: [F, ...?G[]]=): 0x1F!".toList = .ok root ∧
      root.kind = "FunctionType" ∧ Shaped root := by
  obtain ⟨root, parsed, checked⟩ := exists_parsed_of_any
    "function(new: a.b, c: D=, ...e: [F, ...?G[]]=): 0x1F!".toList
    (fun root => root.kind == "FunctionType") (by decide +kernel)
  exact ⟨root, parsed, beq_iff_eq.1 checked, parsed_tree_shaped parsed⟩

end Shaped

end Docblock.TypeExpr
