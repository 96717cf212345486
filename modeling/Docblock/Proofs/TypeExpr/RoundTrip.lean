import Docblock.Proofs.TypeExpr.FunctionReadBack
import Docblock.Proofs.TypeExpr.OptionalName
import Docblock.Proofs.TypeExpr.Acceptance

/-!
# Spelling and reading again

What a tree is spelled as is read back as the tree if and only if the tree is readable and not nested too
deeply. This holds of every layered tree, and of every tree that a text is read as.
-/

set_option autoImplicit false

namespace Docblock.TypeExpr

open Phrase (Expression Makes Prefixed)

namespace Layered

variable {node : Node}

theorem not_leading (layered : Layered .trailed node) : node.isLeading = false := by
  cases layered with
  | trailed inner => cases inner <;> rfl
  | _ => rfl

theorem not_optional (layered : Layered .bare node) : node.isOptional = false := by
  cases layered with
  | named => rfl
  | bare inner =>
      cases inner with
      | type inner =>
          cases inner with
          | trailed inner => cases inner <;> rfl
          | _ => rfl
      | _ => rfl

theorem marked_not_rest (layered : Layered .marked node) : node.isRest = false := by
  cases layered with
  | optional => rfl
  | marked inner =>
      cases inner with
      | named => rfl
      | bare inner => exact inner.not_rest

end Layered

/-- The phrases that nodes of a layer are read as. -/
def Layer.phrase (room : Nat) : Layer → Phrase Node
  | .type | .trailed | .basic => Expression room
  | .bare => Phrase.Bare (Expression room)
  | .marked => Phrase.Marked (Phrase.Bare (Expression room))
  | .param => Phrase.Param (Expression room)

theorem readsBack_zero (node : Node) : ReadsBack 0 (Expression 0) node := by
  intro k us follows
  constructor
  · rintro ⟨ts, other, read, derives, same⟩
    exact derives.elim
  · rintro ⟨fits, others⟩
    have positive := node.nesting_pos
    have deep := fits.2
    omega

theorem readsBack_expression {node : Node}
    (step : ∀ room, ReadsBack (room + 1) (Prefixed (Expression room)) node) (room : Nat) :
    ReadsBack room (Expression room) node := by
  cases room with
  | zero => exact readsBack_zero node
  | succ room => exact step room

theorem Layered.readsBack_union {node : Node} (layered : Layered .type node) {room : Nat}
    (inner : ReadsBack room (Expression room) node) :
    ReadsBack room (Phrase.Union (Expression room)) node :=
  readsBack_union_of_type (layered.leftsFrom (.inl rfl) room) inner

/-- Every layered node is read back as what its layer is read as. -/
theorem Layered.readsBack {layer : Layer} {node : Node} (layered : Layered layer node) (room : Nat) :
    ReadsBack room (layer.phrase room) node := by
  have makes : ∀ room, Makes (Expression room) (Layered .type) := Phrase.Expression.layered
  -- on the layers: what is nested in delimiters is read back with one level of room less
  induction layered generalizing room with
  | nullableLiteral => exact readsBack_expression (fun _ => readsBack_nullableLiteral) room
  | nonNullableLiteral => exact readsBack_expression (fun _ => readsBack_nonNullableLiteral) room
  | leadingNullable inner induction =>
      refine readsBack_expression (fun room => ?_) room
      exact readsBack_leadingNullable inner.not_leading (induction (room + 1))
  | leadingNonNullable inner induction =>
      refine readsBack_expression (fun room => ?_) room
      exact readsBack_leadingNonNullable inner.not_leading (induction (room + 1))
  | type _ induction => exact induction room
  | nullable inner closed induction =>
      refine readsBack_expression (fun room => ?_) room
      exact readsBack_nullable inner.not_leading closed (induction (room + 1))
  | nonNullable inner closed induction =>
      refine readsBack_expression (fun room => ?_) room
      exact readsBack_nonNullable inner.not_leading closed (induction (room + 1))
  | trailed _ induction => exact induction room
  | all => exact readsBack_expression (fun _ => readsBack_all) room
  | null => exact readsBack_expression (fun _ => readsBack_word rfl) room
  | undefined => exact readsBack_expression (fun _ => readsBack_word rfl) room
  | void => exact readsBack_expression (fun _ => readsBack_word rfl) room
  | boolean value =>
      cases value with
      | false => exact readsBack_expression (fun _ => readsBack_word rfl) room
      | true => exact readsBack_expression (fun _ => readsBack_word rfl) room
  | string value => exact readsBack_expression (fun _ => readsBack_string value) room
  | number value => exact readsBack_expression (fun _ => readsBack_number value) room
  | name text => exact readsBack_expression (fun _ => readsBack_name text) room
  | union _ induction =>
      refine readsBack_expression (fun room => ?_) room
      exact TypeExpr.readsBack_union fun node inside => induction node inside room
  | array each induction =>
      refine readsBack_expression (fun room => ?_) room
      exact readsBack_array (fun node inside => (each node inside).not_rest)
        fun node inside => induction node inside room
  | arrayRest _ _ induction inductionRest =>
      refine readsBack_expression (fun room => ?_) room
      exact readsBack_arrayRest (makes room) (fun node inside => induction node inside room)
        (inductionRest room)
  | record _ induction =>
      refine readsBack_expression (fun room => ?_) room
      exact readsBack_record fun field inside value present => induction field inside value present room
  | application any each induction =>
      refine readsBack_expression (fun room => ?_) room
      refine readsBack_application any ?_ fun node inside => ?_
      · exact (Layered.application any each).leftsFrom (.inr (.inr rfl)) (room + 1)
      · exact (each node inside).readsBack_union (induction node inside room)
  | function _ _ _ _ one each resulting bound created =>
      refine readsBack_expression (fun room => ?_) room
      exact readsBack_function (Phrase.Expression.isType room) one
        (fun param inside => each param inside room) (fun node inside => resulting node inside room)
        (fun node inside => bound node inside room) fun node inside => created node inside room
  | bare inner induction => exact readsBack_bare inner (inner.readsBack_union (induction room))
  | named text _ induction => exact readsBack_parameter (makes room) text (induction room)
  | marked inner induction => exact readsBack_unmarked inner.not_optional (induction room)
  | optional _ induction =>
      refine readsBack_optional (fun ts us node derived => ?_) (induction room)
      exact (Phrase.Bare.layered (makes room) derived).not_optional
  | param inner induction => exact readsBack_unspread inner.marked_not_rest (induction room)
  | rest _ induction =>
      refine readsBack_rest (fun ts us node derived => ?_) (induction room)
      exact (Phrase.Marked.layered (makes room) derived).marked_not_rest

theorem rooted_of_parseType {source : Text} {node : Node} (parsed : parseType source = .ok node) :
    Rooted node := by
  rcases named_or_reads_of_parseType parsed with named | reads
  · exact rooted_of_optionalName? named
  · obtain ⟨kinds, -, derived⟩ := ReadsAs.iff_top.1 reads
    exact derived.rooted

theorem ReadsBack.parseType_iff {node : Node} (reads : ReadsBack maxDepth (Phrase.Top maxDepth) node)
    (unnamed : optionalName? node.render = none) :
    (∃ other, parseType node.render = .ok other ∧ node.same other = true) ↔ node.Fits maxDepth := by
  have ended : Lexer.Reads [] [.eof] := .last rfl rfl
  have spells := reads (k := []) [.eof] .nil
  rw [Spells, List.append_nil] at spells
  simp only [parseType_eq_ok_iff unnamed, ReadsAs.iff_top]
  constructor
  · rintro ⟨other, ⟨kinds, read, derived⟩, same⟩
    exact (spells.1 ⟨kinds, other, read, derived, same⟩).1
  · intro fits
    obtain ⟨kinds, other, read, derived, same⟩ := spells.2 ⟨fits, ended⟩
    exact ⟨other, ⟨kinds, read, derived⟩, same⟩

theorem Rooted.parseType_iff {node : Node} (rooted : Rooted node) :
    (∃ other, parseType node.render = .ok other ∧ node.same other = true) ↔ node.Fits maxDepth := by
  have makes := Phrase.Union.layered (Expression.layered maxDepth)
  have single : Makes (Phrase.Marked (Phrase.Union (Expression maxDepth))) fun node =>
      node.isRest = false := by
    intro ts us node derived
    cases derived with
    | plain bare => exact (makes bare).not_rest
    | optional bare => rfl
  have union : ∀ {node : Node}, Layered .type node →
      ReadsBack maxDepth (Phrase.Union (Expression maxDepth)) node :=
    fun layered => layered.readsBack_union (layered.readsBack maxDepth)
  have plain : ∀ {node : Node}, Layered .type node →
      ReadsBack maxDepth (Phrase.Marked (Phrase.Union (Expression maxDepth))) node :=
    fun layered => readsBack_unmarked layered.bare.not_optional (union layered)
  have optional : ∀ {node : Node}, Layered .type node →
      ReadsBack maxDepth (Phrase.Marked (Phrase.Union (Expression maxDepth))) (.optional node none) :=
    fun layered => readsBack_optional (fun _ _ _ bare => (makes bare).bare.not_optional) (union layered)
  cases rooted with
  | type layered =>
      exact (readsBack_unspread layered.not_rest (plain layered)).parseType_iff
        layered.optionalName?_eq_none
  | optional layered =>
      refine (readsBack_unspread rfl (optional layered)).parseType_iff ?_
      rw [Node.render_optional]
      exact optionalName?_of_last (by decide) (by decide) _
  | rest layered =>
      refine (readsBack_rest single (plain layered)).parseType_iff ?_
      exact optionalName?_of_opens ⟨'.', _, Node.render_rest _, by decide, by decide⟩
  | restOptional layered =>
      refine (readsBack_rest single (optional layered)).parseType_iff ?_
      exact optionalName?_of_opens ⟨'.', _, Node.render_rest _, by decide, by decide⟩
  | @defaulted text default bare any trimmed =>
      -- the brackets are recognised before anything is parsed
      have itself : (Node.optional (.name text) (some default)).same
          (.optional (.name text) (some default)) = true := by
        simp [Node.same]
      have parsed : parseType (Node.optional (.name text) (some default)).render =
          .ok (.optional (.name text) (some default)) := by
        rw [parseType, optionalName?_defaulted bare any trimmed]
      have fits : (Node.optional (.name text) (some default)).Fits maxDepth := by
        simp [Node.Fits, Node.isReadable, Node.nesting, maxDepth]
      exact ⟨fun _ => fits, fun _ => ⟨_, parsed, itself⟩⟩

/-- Spelling a layered tree and reading it gives the tree if and only if all of its names, numbers and
parameters have a spelling and its types are nested no deeper than the parser goes. -/
theorem layered_tree_reads_back_iff {node : Node} (layered : Layered .type node) :
    (∃ other, parseType node.render = .ok other ∧ node.same other = true) ↔
      node.isReadable = true ∧ node.nesting ≤ maxDepth :=
  (Rooted.type layered).parseType_iff

theorem layered_union_with_list_reads_back :
    ∃ node other, node = .nullable (.union [.name "A.b".toList, .array [.rest (.string ['c'])]]) true ∧
      Layered .type node ∧ parseType node.render = .ok other ∧ node.same other = true := by
  have list : Layered .basic (.array ([] ++ [.rest (.string ['c'])])) :=
    .arrayRest (by simp) (.type (.trailed (.string _)))
  have union : Layered .basic (.union [.name "A.b".toList, .array [.rest (.string ['c'])]]) := by
    refine .union fun node inside => ?_
    rcases List.mem_pair.1 inside with rfl | rfl
    · exact .type (.trailed (.name _))
    · exact .type (.trailed list)
  have layered := Layered.leadingNullable (.trailed union)
  obtain ⟨other, parsed, same⟩ := (layered_tree_reads_back_iff layered).2 (by decide +kernel)
  exact ⟨_, other, rfl, layered, parsed, same⟩

theorem layered_name_loses_point :
    ∃ node, node = .application (.name "a.".toList) [.name "B".toList] ∧ Layered .type node ∧
      ¬ ∃ other, parseType node.render = .ok other ∧ node.same other = true := by
  have layered : Layered .type (.application (.name "a.".toList) [.name "B".toList]) := by
    refine .type (.trailed (.application (by simp) fun node inside => ?_))
    obtain rfl := List.mem_singleton.1 inside
    exact .type (.trailed (.name _))
  refine ⟨_, rfl, layered, fun reads => ?_⟩
  have readable := ((Rooted.type layered).parseType_iff.1 reads).1
  revert readable
  decide +kernel

/-- Spelling what a text is read as and reading it again gives the same tree if and only if all of its
names, numbers and parameters have a spelling and its types are nested no deeper than the parser goes. -/
theorem parsed_tree_reads_back_iff {source : Text} {node : Node}
    (parsed : parseType source = .ok node) :
    (∃ other, parseType node.render = .ok other ∧ node.same other = true) ↔
      node.isReadable = true ∧ node.nesting ≤ maxDepth :=
  (rooted_of_parseType parsed).parseType_iff

theorem parsed_list_reads_back :
    ∃ node other, parseType "...?(a.b|C[])|function(this: D, e: F=): 1.5e3".toList = .ok node ∧
      parseType node.render = .ok other ∧ node.same other = true := by
  obtain ⟨node, parsed, checked⟩ := exists_parsed_of_any
    "...?(a.b|C[])|function(this: D, e: F=): 1.5e3".toList
    (fun node => node.isReadable && Nat.ble node.nesting maxDepth) (by decide +kernel)
  rw [Bool.and_eq_true, Nat.ble_eq] at checked
  obtain ⟨other, again, same⟩ := (parsed_tree_reads_back_iff parsed).2 checked
  exact ⟨node, other, parsed, again, same⟩

theorem parsed_name_loses_point :
    ∃ node, parseType "a..<B>".toList = .ok node ∧ node.render = "a.<B>".toList ∧
      ¬ ∃ other, parseType node.render = .ok other ∧ node.same other = true := by
  obtain ⟨node, parsed, checked⟩ := exists_parsed_of_any "a..<B>".toList
    (fun node => node.render == "a.<B>".toList && !node.isReadable) (by decide +kernel)
  rw [Bool.and_eq_true, beq_iff_eq, Bool.not_eq_true'] at checked
  refine ⟨node, parsed, checked.1, fun reads => ?_⟩
  have readable := ((rooted_of_parseType parsed).parseType_iff.1 reads).1
  rw [checked.2] at readable
  cases readable

end Docblock.TypeExpr
