import Docblock.Proofs.TypeExpr.Phrase

/-!
# Phrases in other surroundings

A phrase is one wherever it stands, and also where expressions may be nested deeper: `Expression.carries`.
What stands behind it takes no part, but for a parenthesis, which makes a call of the word `function`.
-/

set_option autoImplicit false

namespace Docblock.TypeExpr

namespace Phrase

def NoCall (ts : List Token.Kind) : Prop :=
  ts.head? ≠ some .leftParen

theorem NoCall.cons {kind : Token.Kind} (other : kind ≠ .leftParen) (ts : List Token.Kind) :
    NoCall (kind :: ts) :=
  fun first => other (Option.some.inj first)

/-- What is one phrase is another also, and in front of any tokens. -/
def Carries {α : Type} (item item' : Phrase α) : Prop :=
  ∀ {ts us : List Token.Kind} {a : α}, item ts us a →
    ∃ front, ts = front ++ us ∧ ∀ {vs}, NoCall vs → item' (front ++ vs) vs a

theorem Maybe.carries {token : Token.Kind} {ts us : List Token.Kind} (derived : Maybe token ts us) :
    ∃ front, ts = front ++ us ∧ ∀ vs, Maybe token (front ++ vs) vs := by
  cases derived with
  | absent => exact ⟨[], rfl, fun vs => .absent⟩
  | present => exact ⟨[token], rfl, fun vs => .present⟩

theorem Maybe.noCall {front vs : List Token.Kind} (derived : Maybe .comma (front ++ vs) vs)
    (noCall : NoCall vs) : NoCall (front ++ vs) := by
  generalize whole : front ++ vs = ts at derived ⊢
  cases derived with
  | absent => exact noCall
  | present => exact .cons (by decide) _

section Lists

variable {α : Type} {item item' : Phrase α} (below : Carries item item')

include below

theorem Separated.carries {separator : Token.Kind} (other : separator ≠ .leftParen) :
    Carries (Separated item separator) (Separated item' separator) := by
  intro ts us as derived
  induction derived with
  | last only =>
      obtain ⟨front, rfl, only'⟩ := below only
      exact ⟨front, rfl, fun noCall => .last (only' noCall)⟩
  | more first _ induction =>
      obtain ⟨front, rfl, first'⟩ := below first
      obtain ⟨behind, rfl, others'⟩ := induction
      refine ⟨front ++ separator :: behind, by simp, fun noCall => ?_⟩
      rw [List.append_assoc]
      exact .more (first' (.cons other _)) (others' noCall)

theorem Ended.carries : Carries (Ended item) (Ended item') := by
  intro ts us as derived
  induction derived with
  | none => exact ⟨[], rfl, fun _ => .none⟩
  | more first _ induction =>
      obtain ⟨front, rfl, first'⟩ := below first
      obtain ⟨behind, rfl, others'⟩ := induction
      refine ⟨front ++ .comma :: behind, by simp, fun noCall => ?_⟩
      rw [List.append_assoc]
      exact .more (first' (.cons (by decide) _)) (others' noCall)

theorem Listed.carries : Carries (Listed item) (Listed item') := by
  intro ts us as derived
  cases derived with
  | empty => exact ⟨[], rfl, fun _ => .empty⟩
  | items separated comma =>
      obtain ⟨front, rfl, separated'⟩ := Separated.carries below (by decide) separated
      obtain ⟨behind, rfl, comma'⟩ := comma.carries
      refine ⟨front ++ behind, by simp, fun {vs} noCall => ?_⟩
      rw [List.append_assoc]
      exact .items (separated' ((comma' vs).noCall noCall)) (comma' vs)

end Lists

section Marks

variable {item item' : Phrase Node} (below : Carries item item')

include below

theorem Marked.carries : Carries (Marked item) (Marked item') := by
  intro ts us node derived
  cases derived with
  | plain bare =>
      obtain ⟨front, rfl, bare'⟩ := below bare
      exact ⟨front, rfl, fun noCall => .plain (bare' noCall)⟩
  | optional bare =>
      obtain ⟨front, rfl, bare'⟩ := below bare
      refine ⟨front ++ [.equal], by simp, fun _ => ?_⟩
      rw [List.append_assoc]
      exact .optional (bare' (.cons (by decide) _))

theorem Spread.carries : Carries (Spread item) (Spread item') := by
  intro ts us node derived
  cases derived with
  | plain bare =>
      obtain ⟨front, rfl, bare'⟩ := below bare
      exact ⟨front, rfl, fun noCall => .plain (bare' noCall)⟩
  | rest bare =>
      obtain ⟨front, rfl, bare'⟩ := below bare
      exact ⟨.ellipsis :: front, rfl, fun noCall => .rest (bare' noCall)⟩

end Marks

section Level

variable {type type' : Phrase Node} (below : Carries type type')

include below

theorem Union.carries : Carries (Union type) (Union type') := by
  intro ts us node derived
  cases derived with
  | single only =>
      obtain ⟨front, rfl, only'⟩ := below only
      exact ⟨front, rfl, fun noCall => .single (only' noCall)⟩
  | several head tail =>
      obtain ⟨front, rfl, head'⟩ := below head
      obtain ⟨behind, rfl, tail'⟩ := Separated.carries below (by decide) tail
      refine ⟨front ++ .pipe :: behind, by simp, fun noCall => ?_⟩
      rw [List.append_assoc]
      exact .several (head' (.cons (by decide) _)) (tail' noCall)

theorem Members.carries : Carries (Members type) (Members type') := by
  intro ts us nodes derived
  cases derived with
  | empty => exact ⟨[], rfl, fun _ => .empty⟩
  | several separated =>
      obtain ⟨front, rfl, separated'⟩ := Separated.carries below (by decide) separated
      exact ⟨front, rfl, fun noCall => .several (separated' noCall)⟩

theorem Elements.carries : Carries (Elements type) (Elements type') := by
  intro ts us nodes derived
  cases derived with
  | listed all =>
      obtain ⟨front, rfl, all'⟩ := Listed.carries below all
      exact ⟨front, rfl, fun noCall => .listed (all' noCall)⟩
  | rest front last comma =>
      obtain ⟨early, rfl, front'⟩ := Ended.carries below front
      obtain ⟨late, rfl, last'⟩ := below last
      obtain ⟨end', rfl, comma'⟩ := comma.carries
      refine ⟨early ++ .ellipsis :: (late ++ end'), by simp, fun {vs} noCall => ?_⟩
      rw [List.append_assoc, List.cons_append, List.append_assoc]
      exact .rest (front' (.cons (by decide) _)) (last' ((comma' vs).noCall noCall)) (comma' vs)

theorem Entry.carries : Carries (Entry type) (Entry type') := by
  intro ts us field derived
  cases derived with
  | @alone _ token key spelled => exact ⟨[token], rfl, fun _ => .alone spelled⟩
  | @typed _ _ token key node spelled value =>
      obtain ⟨front, rfl, value'⟩ := below value
      exact ⟨token :: .colon :: front, rfl, fun noCall => .typed spelled (value' noCall)⟩

theorem Entries.carries : Carries (Entries type) (Entries type') := by
  intro ts us fields derived
  cases derived with
  | comma => exact ⟨[.comma], rfl, fun _ => .comma⟩
  | listed all =>
      obtain ⟨front, rfl, all'⟩ := Listed.carries (Entry.carries below) all
      exact ⟨front, rfl, fun noCall => .listed (all' noCall)⟩

theorem Bare.carries : Carries (Bare type) (Bare type') := by
  intro ts us node derived
  cases derived with
  | @named _ _ name _ value =>
      obtain ⟨front, rfl, value'⟩ := below value
      exact ⟨.name name :: .colon :: front, rfl, fun noCall => .named (value' noCall)⟩
  | union value =>
      obtain ⟨front, rfl, value'⟩ := Union.carries below value
      exact ⟨front, rfl, fun noCall => .union (value' noCall)⟩

theorem Param.carries : Carries (Param type) (Param type') :=
  Spread.carries (Marked.carries (Bare.carries below))

theorem Binding.carries : Carries (Binding type) (Binding type') := by
  intro ts us bindings derived
  cases derived with
  | this value =>
      obtain ⟨front, rfl, value'⟩ := below value
      exact ⟨.name "this".toList :: .colon :: front, rfl, fun noCall => .this (value' noCall)⟩
  | new value =>
      obtain ⟨front, rfl, value'⟩ := below value
      exact ⟨.name "new".toList :: .colon :: front, rfl, fun noCall => .new (value' noCall)⟩

omit below in
/-- Whether a binding stands in parentheses is decided within them. -/
theorem bindsHere_append (front us vs : List Token.Kind) :
    bindsHere (front ++ .rightParen :: us) = bindsHere (front ++ .rightParen :: vs) := by
  rcases front with _ | ⟨first, _ | ⟨second, front⟩⟩
  · rfl
  · cases first <;> rfl
  · cases first <;> cases second <;> rfl

theorem Signature.carries : Carries (Signature type) (Signature type') := by
  intro ts us value derived
  cases derived with
  | unbound free all =>
      obtain ⟨front, rfl, all'⟩ := Listed.carries (Param.carries below) all
      refine ⟨.name "function".toList :: .leftParen :: (front ++ [.rightParen]), by simp, fun {vs} _ => ?_⟩
      rw [bindsHere_append front us vs] at free
      rw [List.cons_append, List.cons_append, List.append_assoc]
      exact .unbound free (all' (.cons (by decide) _))
  | bound binding =>
      obtain ⟨front, rfl, binding'⟩ := Binding.carries below binding
      refine ⟨.name "function".toList :: .leftParen :: (front ++ [.rightParen]), by simp, fun _ => ?_⟩
      rw [List.cons_append, List.cons_append, List.append_assoc]
      exact .bound (binding' (.cons (by decide) _))
  | both binding all =>
      obtain ⟨front, rfl, binding'⟩ := Binding.carries below binding
      obtain ⟨behind, rfl, all'⟩ := Listed.carries (Param.carries below) all
      refine ⟨.name "function".toList :: .leftParen :: (front ++ .comma :: (behind ++ [.rightParen])), by simp,
        fun _ => ?_⟩
      rw [List.cons_append, List.cons_append, List.append_assoc, List.cons_append, List.append_assoc]
      exact .both (binding' (.cons (by decide) _)) (all' (.cons (by decide) _))

theorem Basic.carries : Carries (Basic type) (Basic type') := by
  intro ts us node derived
  cases derived with
  | all => exact ⟨[.star], rfl, fun _ => .all⟩
  | @string _ value => exact ⟨[.string value], rfl, fun _ => .string⟩
  | @number _ value => exact ⟨[.number value], rfl, fun _ => .number⟩
  | parenthesized members =>
      obtain ⟨front, rfl, members'⟩ := Members.carries below members
      refine ⟨.leftParen :: (front ++ [.rightParen]), by simp, fun _ => ?_⟩
      rw [List.cons_append, List.append_assoc]
      exact .parenthesized (members' (.cons (by decide) _))
  | array elements =>
      obtain ⟨front, rfl, elements'⟩ := Elements.carries below elements
      refine ⟨.leftBracket :: (front ++ [.rightBracket]), by simp, fun _ => ?_⟩
      rw [List.cons_append, List.append_assoc]
      exact .array (elements' (.cons (by decide) _))
  | record entries =>
      obtain ⟨front, rfl, entries'⟩ := Entries.carries below entries
      refine ⟨.leftBrace :: (front ++ [.rightBrace]), by simp, fun _ => ?_⟩
      rw [List.cons_append, List.append_assoc]
      exact .record (entries' (.cons (by decide) _))
  | @literal _ name _ word => exact ⟨[.name name], rfl, fun _ => .literal word⟩
  | @name _ name free _ => exact ⟨[.name name], rfl, fun noCall => .name free fun _ => noCall⟩
  | @application _ _ name token _ free opens arguments =>
      obtain ⟨front, rfl, arguments'⟩ := Separated.carries (Union.carries below) (by decide) arguments
      refine ⟨.name name :: token :: (front ++ [.greater]), by simp, fun _ => ?_⟩
      rw [List.cons_append, List.cons_append, List.append_assoc]
      exact .application free opens (arguments' (.cons (by decide) _))
  | function signature =>
      obtain ⟨front, rfl, signature'⟩ := Signature.carries below signature
      exact ⟨front, rfl, fun noCall => .function (signature' noCall)⟩

theorem Trailed.carries : Carries (Trailed type) (Trailed type') := by
  intro ts us node derived
  induction derived with
  | basic basic =>
      obtain ⟨front, rfl, basic'⟩ := Basic.carries below basic
      exact ⟨front, rfl, fun noCall => .basic (basic' noCall)⟩
  | bang _ induction =>
      obtain ⟨front, rfl, inner'⟩ := induction
      refine ⟨front ++ [.bang], by simp, fun _ => ?_⟩
      rw [List.append_assoc]
      exact .bang (inner' (.cons (by decide) _))
  | question _ induction =>
      obtain ⟨front, rfl, inner'⟩ := induction
      refine ⟨front ++ [.question], by simp, fun _ => ?_⟩
      rw [List.append_assoc]
      exact .question (inner' (.cons (by decide) _))
  | brackets _ induction =>
      obtain ⟨front, rfl, inner'⟩ := induction
      refine ⟨front ++ [.leftBracket, .rightBracket], by simp, fun _ => ?_⟩
      rw [List.append_assoc]
      exact .brackets (inner' (.cons (by decide) _))

theorem Postfixed.carries : Carries (Postfixed type) (Postfixed type') := by
  intro ts us node derived
  cases derived with
  | trailed trailed =>
      obtain ⟨front, rfl, trailed'⟩ := Trailed.carries below trailed
      exact ⟨front, rfl, fun noCall => .trailed (trailed' noCall)⟩
  | result signature value =>
      obtain ⟨front, rfl, signature'⟩ := Signature.carries below signature
      obtain ⟨behind, rfl, value'⟩ := below value
      refine ⟨front ++ .colon :: behind, by simp, fun noCall => ?_⟩
      rw [List.append_assoc]
      exact .result (signature' (.cons (by decide) _)) (value' noCall)

theorem Prefixed.carries : Carries (Prefixed type) (Prefixed type') := by
  intro ts us node derived
  cases derived with
  | questionAlone => exact ⟨[.question], rfl, fun _ => .questionAlone⟩
  | bangAlone => exact ⟨[.bang], rfl, fun _ => .bangAlone⟩
  | question inner =>
      obtain ⟨front, rfl, inner'⟩ := Postfixed.carries below inner
      exact ⟨.question :: front, rfl, fun noCall => .question (inner' noCall)⟩
  | bang inner =>
      obtain ⟨front, rfl, inner'⟩ := Postfixed.carries below inner
      exact ⟨.bang :: front, rfl, fun noCall => .bang (inner' noCall)⟩
  | plain inner =>
      obtain ⟨front, rfl, inner'⟩ := Postfixed.carries below inner
      exact ⟨front, rfl, fun noCall => .plain (inner' noCall)⟩

end Level

/-- An expression is one in front of any tokens, and where there is more room. -/
theorem Expression.carries {room more : Nat} (enough : room ≤ more) :
    Carries (Expression room) (Expression more) := by
  induction room generalizing more with
  | zero =>
      intro ts us node derived
      exact derived.elim
  | succ room induction =>
      obtain ⟨more, rfl⟩ : ∃ m, more = m + 1 := ⟨more - 1, by omega⟩
      exact Prefixed.carries (induction (Nat.le_of_succ_le_succ enough))

end Phrase

end Docblock.TypeExpr
