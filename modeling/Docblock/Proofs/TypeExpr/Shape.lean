import Docblock.Proofs.TypeExpr.Layered

/-!
# Derivations by their value

Which tokens an expression is derived from, told by the node that it makes; and which nodes are equal to
a node, told by its constructor.
-/

set_option autoImplicit false

namespace Docblock.TypeExpr

namespace Node

/-- Whether the node carries a leading mark, or is a mark that stands alone. -/
def isLeading : Node → Bool
  | .nullableLiteral | .nonNullableLiteral => true
  | .nullable _ leading | .nonNullable _ leading => leading
  | _ => false

/-- Whether the node can be made by a basic expression only. -/
def isUnmarked : Node → Bool
  | .nullableLiteral | .nonNullableLiteral | .nullable _ _ | .nonNullable _ _ => false
  | .application _ _ => false
  | .function _ result _ _ => result.isNone
  | _ => true

end Node

namespace Phrase

inductive Result (type : Phrase Node) : Phrase (Option Node) where
  | absent {ts : List Token.Kind} : Result type ts ts none
  | present {ts us : List Token.Kind} {node : Node} (value : type ts us node) :
      Result type (.colon :: ts) us (some node)

section

variable {type : Phrase Node} {ts us : List Token.Kind}

section Marks

variable {node : Node}

theorem Postfixed.not_leading (derived : Postfixed type ts us node) : node.isLeading = false := by
  cases derived with
  | trailed trailed =>
      cases trailed with
      | basic basic =>
          cases basic with
          | literal word =>
              have spelled := literal?_eq_some_iff.1 word
              unfold Node.word? at spelled
              split at spelled <;> first | rfl | cases spelled
          | _ => rfl
      | _ => rfl
  | result => rfl

theorem Prefixed.postfixed_iff (plain : node.isLeading = false) :
    Prefixed type ts us node ↔ Postfixed type ts us node := by
  constructor
  · intro derived
    cases derived with
    | plain inner => exact inner
    | _ => cases plain
  · exact .plain

theorem Postfixed.trailed_iff (closed : node.hasResult = false) :
    Postfixed type ts us node ↔ Trailed type ts us node := by
  constructor
  · intro derived
    cases derived with
    | trailed trailed => exact trailed
    | result => cases closed
  · exact .trailed

theorem Prefixed.basic_iff (unmarked : node.isUnmarked = true) :
    Prefixed type ts us node ↔ Basic type ts us node := by
  constructor
  · intro derived
    cases derived with
    | plain inner =>
        cases inner with
        | trailed trailed =>
            cases trailed with
            | basic basic => exact basic
            | _ => cases unmarked
        | result => cases unmarked
    | _ => cases unmarked
  · exact fun basic => .plain (.trailed (.basic basic))

theorem Prefixed.question_iff :
    Prefixed type ts us (.nullable node true) ↔
      ∃ vs, ts = .question :: vs ∧ Postfixed type vs us node := by
  constructor
  · intro derived
    cases derived with
    | question inner => exact ⟨_, rfl, inner⟩
    | plain inner => cases inner.not_leading
  · rintro ⟨vs, rfl, inner⟩
    exact .question inner

theorem Prefixed.bang_iff :
    Prefixed type ts us (.nonNullable node true) ↔
      ∃ vs, ts = .bang :: vs ∧ Postfixed type vs us node := by
  constructor
  · intro derived
    cases derived with
    | bang inner => exact ⟨_, rfl, inner⟩
    | plain inner => cases inner.not_leading
  · rintro ⟨vs, rfl, inner⟩
    exact .bang inner

theorem Prefixed.questionAlone_iff :
    Prefixed type ts us .nullableLiteral ↔ ts = .question :: us := by
  constructor
  · intro derived
    cases derived with
    | questionAlone => rfl
    | plain inner => cases inner.not_leading
  · rintro rfl
    exact .questionAlone

theorem Prefixed.bangAlone_iff :
    Prefixed type ts us .nonNullableLiteral ↔ ts = .bang :: us := by
  constructor
  · intro derived
    cases derived with
    | bangAlone => rfl
    | plain inner => cases inner.not_leading
  · rintro rfl
    exact .bangAlone

theorem Trailed.question_iff :
    Trailed type ts us (.nullable node false) ↔ Trailed type ts (.question :: us) node := by
  constructor
  · intro derived
    cases derived with
    | question inner => exact inner
    | basic basic =>
        cases basic with
        | literal word => cases literal?_eq_some_iff.1 word
  · exact .question

theorem Trailed.bang_iff :
    Trailed type ts us (.nonNullable node false) ↔ Trailed type ts (.bang :: us) node := by
  constructor
  · intro derived
    cases derived with
    | bang inner => exact inner
    | basic basic =>
        cases basic with
        | literal word => cases literal?_eq_some_iff.1 word
  · exact .bang

end Marks

section Basic

theorem Basic.word_iff {node : Node} {text : Text} (word : node.word? = some text) :
    Basic type ts us node ↔ ts = .name text :: us := by
  constructor
  · intro derived
    cases derived with
    | literal spelled =>
        rw [literal?_eq_some_iff, word] at spelled
        rw [Option.some.inj spelled]
    | _ => cases word
  · rintro rfl
    exact .literal (literal?_eq_some_iff.2 word)

theorem Basic.all_iff : Basic type ts us .all ↔ ts = .star :: us := by
  constructor
  · intro derived
    cases derived with
    | all => rfl
    | literal word => cases literal?_eq_some_iff.1 word
  · rintro rfl
    exact .all

theorem Basic.string_iff {value : Text} :
    Basic type ts us (.string value) ↔ ts = .string value :: us := by
  constructor
  · intro derived
    cases derived with
    | string => rfl
    | literal word => cases literal?_eq_some_iff.1 word
  · rintro rfl
    exact .string

theorem Basic.number_iff {value : Binary64} :
    Basic type ts us (.number value) ↔ ts = .number value :: us := by
  constructor
  · intro derived
    cases derived with
    | number => rfl
    | literal word => cases literal?_eq_some_iff.1 word
  · rintro rfl
    exact .number

theorem Basic.union_iff {nodes : List Node} : Basic type ts us (.union nodes) ↔
    ∃ vs, ts = .leftParen :: vs ∧ Members type vs (.rightParen :: us) nodes := by
  constructor
  · intro derived
    cases derived with
    | parenthesized members => exact ⟨_, rfl, members⟩
    | literal word => cases literal?_eq_some_iff.1 word
  · rintro ⟨vs, rfl, members⟩
    exact .parenthesized members

theorem Basic.array_iff {nodes : List Node} : Basic type ts us (.array nodes) ↔
    ∃ vs, ts = .leftBracket :: vs ∧ Elements type vs (.rightBracket :: us) nodes := by
  constructor
  · intro derived
    cases derived with
    | array elements => exact ⟨_, rfl, elements⟩
    | literal word => cases literal?_eq_some_iff.1 word
  · rintro ⟨vs, rfl, elements⟩
    exact .array elements

theorem Basic.record_iff {fields : List Field} : Basic type ts us (.record fields) ↔
    ∃ vs, ts = .leftBrace :: vs ∧ Entries type vs (.rightBrace :: us) fields := by
  constructor
  · intro derived
    cases derived with
    | record entries => exact ⟨_, rfl, entries⟩
    | literal word => cases literal?_eq_some_iff.1 word
  · rintro ⟨vs, rfl, entries⟩
    exact .record entries

theorem Basic.name_iff {text : Text} : Basic type ts us (.name text) ↔
    ts = .name text :: us ∧ Grammar.literal? text = none ∧
      (text = "function".toList → us.head? ≠ some .leftParen) := by
  constructor
  · intro derived
    cases derived with
    | name free noCall => exact ⟨rfl, free, noCall⟩
    | literal word => cases literal?_eq_some_iff.1 word
  · rintro ⟨rfl, free, noCall⟩
    exact .name free noCall

end Basic

theorem Prefixed.application_iff {text : Text} {nodes : List Node} :
    Prefixed type ts us (.application (.name text) nodes) ↔
      (∃ token vs, ts = .name text :: token :: vs ∧ Grammar.literal? text = none ∧
        (token = .less ∨ token = .dotLess) ∧
        Separated (Union type) .comma vs (.greater :: us) nodes) ∨
      ∃ node, .application (.name text) nodes = Node.arrayOf node ∧
        Trailed type ts (.leftBracket :: .rightBracket :: us) node := by
  constructor
  · intro derived
    cases derived with
    | plain inner =>
        cases inner with
        | trailed trailed =>
            cases trailed with
            | basic basic =>
                cases basic with
                | application free opens arguments => exact .inl ⟨_, _, rfl, free, opens, arguments⟩
                | literal word => cases literal?_eq_some_iff.1 word
            | brackets inner => exact .inr ⟨_, rfl, inner⟩
  · rintro (⟨token, vs, rfl, free, opens, arguments⟩ | ⟨node, same, inner⟩)
    · exact .plain (.trailed (.basic (.application free opens arguments)))
    · exact same ▸ .plain (.trailed (.brackets inner))

theorem Prefixed.function_iff {params : List Node} {result this new : Option Node} :
    Prefixed type ts us (.function params result this new) ↔
      ∃ vs, Signature type ts vs (params, this, new) ∧ Result type vs us result := by
  constructor
  · intro derived
    cases derived with
    | plain inner =>
        cases inner with
        | trailed trailed =>
            cases trailed with
            | basic basic =>
                cases basic with
                | function signature => exact ⟨_, signature, .absent⟩
                | literal word => cases literal?_eq_some_iff.1 word
        | result signature value => exact ⟨_, signature, .present value⟩
  · rintro ⟨vs, signature, ending⟩
    cases ending with
    | absent => exact .plain (.trailed (.basic (.function signature)))
    | present value => exact .plain (.result signature value)

end

end Phrase

end Docblock.TypeExpr
