import Docblock.Proofs.TypeExpr.Listing
import Docblock.Proofs.TypeExpr.Rendering

/-!
# What an expression begins with

An expression that is read where a node is spelled begins with at least as many unions and lists as the
node. So a union in parentheses is not read as the first member of a union without them, and a list with
its argument in angles not as the list of what stands before brackets.
-/

set_option autoImplicit false

namespace Docblock.TypeExpr

open Lexer (Reads reads_mark)

namespace Lexer

theorem token_eq_rightParen {c : Char} {rest after : Text}
    (run : token c rest = (.ok .rightParen, after)) : c = ')' := by
  cases scans_of_token run with
  | mark single =>
      unfold Token.Kind.ofChar? at single
      split at single <;> first | rfl | cases single
  | number _ read =>
      obtain ⟨value, same⟩ := number_kind read
      cases same

end Lexer

/-- The text begins with what is neither a blank nor the mark. -/
def Opens (mark : Char) (text : Text) : Prop :=
  ∃ c rest, text = c :: rest ∧ Text.isBlank c = false ∧ c ≠ mark

section Opens

variable {mark : Char} {text : Text}

theorem Opens.append (opens : Opens mark text) (k : Text) : Opens mark (text ++ k) := by
  obtain ⟨c, rest, rfl, front⟩ := opens
  exact ⟨c, rest ++ k, rfl, front⟩

theorem Opens.plain (single : (Token.Kind.ofChar? mark).isSome = true)
    (plain : isPlainName text = true) : Opens mark text := by
  obtain ⟨c, rest, shape, visible, begins⟩ := (Lexer.isPlainName_iff.1 plain).begins
  refine ⟨c, rest, shape, visible, ?_⟩
  rintro rfl
  have none := Lexer.ofChar?_of_beginsName begins
  rw [none] at single
  cases single

theorem Opens.nameText (single : (Token.Kind.ofChar? mark).isSome = true) (text : Text) :
    Opens mark (nameText text) := by
  unfold TypeExpr.nameText
  split
  · next plain => exact .plain single plain
  · refine ⟨'`', text ++ ['`'], rfl, by decide, ?_⟩
    rintro rfl
    cases single

theorem Opens.write (single : (Token.Kind.ofChar? mark).isSome = true) (value : Binary64) :
    Opens mark (Numeral.write value) := by
  by_cases finite : value.isFinite = true
  · obtain ⟨negative, raw, x, shape, written, -⟩ := Numeral.write_written finite
    obtain ⟨c, rest, rfl, digit, -⟩ := written.begins
    have named := Lexer.isNameChar_of_isDigit digit
    rw [shape]
    cases negative with
    | false =>
        refine ⟨c, rest, rfl, (Lexer.isNameChar_iff.1 named).1, ?_⟩
        rintro rfl
        rw [Lexer.ofChar?_of_isNameChar named] at single
        cases single
    | true =>
        refine ⟨'-', c :: rest, rfl, by decide, ?_⟩
        rintro rfl
        cases single
  · exact .plain single (Lexer.isPlainName_write (by simpa using finite))

theorem Opens.word (single : (Token.Kind.ofChar? mark).isSome = true) {node : Node}
    (word : node.word? = some text) : Opens mark node.render := by
  rw [Node.render_word word]
  exact .plain single (isPlainName_word word)

end Opens

theorem Layered.opens {layer : Layer} {node : Node} (layered : Layered layer node)
    (typed : layer = .type ∨ layer = .trailed ∨ layer = .basic) : Opens ')' node.render := by
  induction layered with
  | nullableLiteral => exact ⟨'?', [], rfl, by decide, by decide⟩
  | nonNullableLiteral => exact ⟨'!', [], rfl, by decide, by decide⟩
  | leadingNullable => exact ⟨'?', _, rfl, by decide, by decide⟩
  | leadingNonNullable => exact ⟨'!', _, rfl, by decide, by decide⟩
  | type _ induction => exact induction (by simp)
  | trailed _ induction => exact induction (by simp)
  | nullable _ _ induction => exact (induction (by simp)).append ['?']
  | nonNullable _ _ induction => exact (induction (by simp)).append ['!']
  | all => exact ⟨'*', [], rfl, by decide, by decide⟩
  | null => exact .word rfl rfl
  | undefined => exact .word rfl rfl
  | void => exact .word rfl rfl
  | boolean value => cases value <;> exact .word rfl rfl
  | string value => exact ⟨'"', _, rfl, by decide, by decide⟩
  | number value => exact .write rfl value
  | name text => exact .nameText rfl text
  | union => exact ⟨'(', _, Node.render_union _, by decide, by decide⟩
  | array => exact ⟨'[', _, Node.render_array _, by decide, by decide⟩
  | arrayRest => exact ⟨'[', _, Node.render_array _, by decide, by decide⟩
  | record => exact ⟨'{', _, Node.render_record _, by decide, by decide⟩
  | application =>
      rw [Node.render_application]
      exact (Opens.nameText rfl _).append _
  | function =>
      rw [Node.render_function]
      exact ⟨'f', _, rfl, by decide, by decide⟩
  | _ => simp at typed

theorem Opens.not_reads_rightParen {text : Text} (opens : Opens ')' text) {us : List Token.Kind} :
    ¬ Reads text (.rightParen :: us) := by
  obtain ⟨c, rest, rfl, visible, differs⟩ := opens
  intro reads
  obtain ⟨place, after, read⟩ := Lexer.exists_next_of_reads reads
  obtain ⟨d, more, trimmed, -, run⟩ := Lexer.token_of_next read (by simp)
  rw [Text.trimStart_of_visible visible] at trimmed
  obtain ⟨rfl, -⟩ := List.cons.inj trimmed
  exact differs (Lexer.token_eq_rightParen run)

theorem lefts_arrayOf (node : Node) : (Node.arrayOf node).lefts = node.lefts + 1 := by
  simp [Node.arrayOf, Node.lefts, Node.leftsFirst, Node.isArray]

namespace Phrase

theorem Trail.lefts_le {ts us : List Token.Kind} {node other : Node} (trail : Trail ts us node other) :
    node.lefts ≤ other.lefts := by
  induction trail with
  | none => exact Nat.le_refl _
  | bang _ induction => simpa [Node.lefts] using induction
  | question _ induction => simpa [Node.lefts] using induction
  | brackets _ induction =>
      rw [lefts_arrayOf] at induction
      omega

def NoAngle (us : List Token.Kind) : Prop :=
  ∀ kind ∈ us.head?, kind ≠ .less ∧ kind ≠ .dotLess

theorem NoAngle.cons {kind : Token.Kind} (less : kind ≠ .less) (dotLess : kind ≠ .dotLess)
    (us : List Token.Kind) : NoAngle (kind :: us) := by
  intro other first
  rw [← Option.some.inj first]
  exact ⟨less, dotLess⟩

/-- Everything that is read here begins with as many unions and lists. -/
def LeftsFrom (type : Phrase Node) (text : Text) (bound : Nat) : Prop :=
  ∀ ⦃k : Text⦄ ⦃ts us : List Token.Kind⦄ ⦃other : Node⦄,
    Reads (text ++ k) ts → type ts us other → NoAngle us → bound ≤ other.lefts

section

variable {type : Phrase Node} {text : Text} {bound : Nat}

theorem LeftsFrom.append (lefts : LeftsFrom type text bound) (more : Text) :
    LeftsFrom type (text ++ more) bound := by
  intro k ts us other reads
  rw [List.append_assoc] at reads
  exact lefts reads

theorem LeftsFrom.zero : LeftsFrom type text 0 :=
  fun _ _ _ _ _ _ _ => Nat.zero_le _

theorem LeftsFrom.union (lefts : LeftsFrom type text bound) : LeftsFrom (Union type) text bound := by
  intro k ts us other reads derived noAngle
  cases derived with
  | single only => exact lefts reads only noAngle
  | several head tail =>
      have first := lefts reads head (.cons (by simp) (by simp) _)
      simp only [Node.lefts, Node.leftsFirst]
      omega

theorem LeftsFrom.separated (lefts : LeftsFrom type text bound) {separator : Token.Kind}
    (less : separator ≠ .less) (dotLess : separator ≠ .dotLess) {k : Text} {ts us : List Token.Kind}
    {nodes : List Node} (reads : Reads (text ++ k) ts) (derived : Separated type separator ts us nodes)
    (noAngle : NoAngle us) : bound + 1 ≤ Node.leftsFirst nodes := by
  cases derived with
  | last only =>
      have first := lefts reads only noAngle
      simp only [Node.leftsFirst]
      omega
  | more head _ =>
      have first := lefts reads head (.cons less dotLess _)
      simp only [Node.leftsFirst]
      omega

theorem LeftsFrom.parenthesized (lefts : LeftsFrom type text bound) (opens : Opens ')' text) :
    LeftsFrom (Prefixed type) ('(' :: text) (bound + 1) := by
  intro k ts us other reads derived noAngle
  obtain ⟨vs, rfl, behind⟩ := (reads_mark rfl _).1 reads
  cases derived with
  | plain inner =>
      cases inner with
      | result signature _ =>
          obtain ⟨more, same⟩ := signature.begins
          cases same
      | trailed trailed =>
          obtain ⟨ws, node, basic, trail⟩ := trailed.exists_trail
          refine Nat.le_trans ?_ trail.lefts_le
          cases basic with
          | function signature =>
              obtain ⟨more, same⟩ := signature.begins
              cases same
          | parenthesized members =>
              cases members with
              | empty => exact absurd behind (opens.append k).not_reads_rightParen
              | several separated =>
                  rw [Node.lefts]
                  exact lefts.separated (by simp) (by simp) behind separated
                    (.cons (by simp) (by simp) _)

theorem LeftsFrom.angled (lefts : LeftsFrom type text bound) :
    LeftsFrom (Prefixed type) ("Array".toList ++ '<' :: text) (bound + 1) := by
  intro k ts us other reads derived noAngle
  have plain : isPlainName "Array".toList = true := by decide
  have read := Lexer.next_plain (k := '<' :: (text ++ k)) (Lexer.isPlainName_iff.1 plain)
    (.cons (by decide) _) (fun _ => by decide)
  rw [List.append_assoc] at reads
  obtain ⟨_, rfl, angle⟩ := (Lexer.reads_iff_of_next read (by simp)).1 reads
  obtain ⟨vs, rfl, behind⟩ := (reads_mark rfl _).1 angle
  have noTrail : ∀ {node : Node}, ¬ Trail (.less :: vs) us node other := by
    intro node trail
    cases trail
    exact (noAngle .less rfl).1 rfl
  cases derived with
  | plain inner =>
      cases inner with
      | result signature _ =>
          obtain ⟨more, same⟩ := signature.begins
          cases same
      | trailed trailed =>
          obtain ⟨ws, node, basic, trail⟩ := trailed.exists_trail
          cases basic with
          | literal => exact absurd trail noTrail
          | name => exact absurd trail noTrail
          | function signature =>
              obtain ⟨more, same⟩ := signature.begins
              cases same
          | application _ _ arguments =>
              refine Nat.le_trans ?_ trail.lefts_le
              have array : (Node.name "Array".toList).isArray = true := by decide
              rw [Node.lefts, if_pos array]
              exact lefts.union.separated (by simp) (by simp) behind arguments
                (.cons (by simp) (by simp) _)

end

end Phrase

theorem exists_join_map_cons (gap : Text) (node : Node) (nodes : List Node) :
    ∃ k, Text.join gap ((node :: nodes).map Node.render) = node.render ++ k := by
  cases nodes with
  | nil => exact ⟨[], by simp⟩
  | cons other nodes =>
      exact ⟨_, by rw [List.map_cons, List.map_cons, Text.join_cons_cons, List.append_assoc]⟩

open Phrase (Expression LeftsFrom)

/-- An expression that is read where a node is spelled begins with as many unions and lists as the
node. -/
theorem Layered.leftsFrom {layer : Layer} {node : Node} (layered : Layered layer node)
    (typed : layer = .type ∨ layer = .trailed ∨ layer = .basic) (room : Nat) :
    LeftsFrom (Expression room) node.render node.lefts := by
  -- only what stands first is followed, with one level of room less in each list
  induction layered generalizing room with
  | type _ induction => exact induction (by simp) room
  | trailed _ induction => exact induction (by simp) room
  | nullable _ _ induction =>
      rw [Node.render_nullable, Node.lefts]
      exact (induction (by simp) room).append ['?']
  | nonNullable _ _ induction =>
      rw [Node.render_nonNullable, Node.lefts]
      exact (induction (by simp) room).append ['!']
  | @union nodes each induction =>
      rw [Node.lefts]
      cases nodes with
      | nil => exact .zero
      | cons first more =>
          cases room with
          | zero => exact fun _ _ _ _ _ derived => derived.elim
          | succ room =>
              obtain ⟨k, shape⟩ := exists_join_map_cons ['|'] first more
              have inner := induction first List.mem_cons_self (by simp) room
              have opens := (each first List.mem_cons_self).opens (by simp)
              have whole := (inner.parenthesized opens).append (k ++ [')'])
              rw [Node.render_union, shape, Node.leftsFirst, Expression]
              simpa using whole
  | @application text nodes any each induction =>
      rw [Node.lefts]
      split
      · next array =>
          obtain rfl : text = "Array".toList := by simpa using Node.isArray_iff.1 array
          obtain ⟨first, more, rfl⟩ := List.exists_cons_of_ne_nil any
          cases room with
          | zero => exact fun _ _ _ _ _ derived => derived.elim
          | succ room =>
              obtain ⟨k, shape⟩ := exists_join_map_cons Node.commaBlank first more
              have inner := induction first List.mem_cons_self (by simp) room
              have whole := inner.angled.append (k ++ ['>'])
              have head : nameText "Array".toList = "Array".toList := if_pos (by decide)
              rw [Node.render_application, shape, head, Node.leftsFirst, Expression]
              simpa using whole
      · exact .zero
  | bare | named | marked | optional | param | rest => simp at typed
  | _ => exact (.zero : LeftsFrom _ _ 0)

end Docblock.TypeExpr
