import Docblock.Proofs.TypeExpr.Occurrence

/-!
# Names and numbers of parsed trees

The lexer makes no empty name, none with blanks at its ends or with a backtick in it, and no number that is
none. The trees that are derived from such tokens hold no others, and none of their names spells a literal.
-/

set_option autoImplicit false

namespace Docblock.TypeExpr

/-! ## Of tokens -/

/-- Whether a token is one of those that the lexer makes. -/
def Token.Kind.isProper : Token.Kind → Bool
  | .name text => Lexer.isSpellable text
  | .number value => value != .nan
  | _ => true

namespace Lexer

theorem isSpellable_of_isNameChar {text : Text} (any : text ≠ [])
    (each : ∀ c ∈ text, isNameChar c = true) : isSpellable text = true := by
  refine isSpellable_iff.2 ⟨any, Text.trim_of_visible ?_, ?_⟩
  · intro c inside
    exact (isNameChar_iff.1 (each c inside)).1
  · intro inside
    have named := each '`' inside
    revert named
    decide

theorem isProper_of_token {c : Char} {rest after : Text} {kind : Token.Kind}
    (visible : Text.isBlank c = false) (run : token c rest = (.ok kind, after)) : kind.isProper = true := by
  cases scans_of_token run with
  | mark single =>
      unfold Token.Kind.ofChar? at single
      split at single <;> cases single <;> rfl
  | ellipsis => rfl
  | dotLess => rfl
  | number _ read =>
      obtain ⟨value, rfl⟩ := number_kind read
      exact bne_iff_ne.2 (number_ne_nan read)
  | string => rfl
  | quotedName read =>
      obtain ⟨inner, -, outside, rfl, any⟩ := quotedName_eq_name.1 read
      have noTick : '`' ∉ Text.trim inner := fun inside => outside (Text.mem_of_mem_trim inside)
      exact isSpellable_iff.2 ⟨any, Text.trim_trim inner, noTick⟩
  | name begins span =>
      have goesOn := goesOn_of_beginsName begins visible
      have any : (spanName (c :: rest)).1 ≠ [] := by simp [spanName, goesOn]
      have each : ∀ d ∈ (spanName (c :: rest)).1, isNameChar d = true :=
        fun d inside => isNameChar_of_mem_spanName inside
      rw [span] at any each
      exact isSpellable_of_isNameChar any each

theorem isProper_of_next {s after : Text} {token : Token} (read : next s = (.ok token, after)) :
    token.kind.isProper = true := by
  obtain ⟨kind, place⟩ := token
  by_cases atEnd : kind = .eof
  · rw [atEnd]
    rfl
  · obtain ⟨c, rest, -, visible, run⟩ := token_of_next read atEnd
    exact isProper_of_token visible run

end Lexer

def Clean (kinds : List Token.Kind) : Prop :=
  ∀ kind ∈ kinds, kind.isProper = true

theorem Clean.cons_iff {kind : Token.Kind} {kinds : List Token.Kind} :
    Clean (kind :: kinds) ↔ kind.isProper = true ∧ Clean kinds :=
  List.forall_mem_cons

theorem Clean.tail {kind : Token.Kind} {kinds : List Token.Kind} (clean : Clean (kind :: kinds)) :
    Clean kinds :=
  (Clean.cons_iff.1 clean).2

theorem Lexer.Reads.clean {s : Text} {kinds : List Token.Kind} (reads : Lexer.Reads s kinds) : Clean kinds := by
  induction reads with
  | last => exact Clean.cons_iff.2 ⟨rfl, nofun⟩
  | more read _ _ induction => exact Clean.cons_iff.2 ⟨Lexer.isProper_of_next read, induction⟩

/-! ## Of trees -/

/-- What the names and the numbers of a tree are like, one node at a time. -/
def Node.Proper : Node → Prop
  | .name text => Lexer.isSpellable text = true ∧ Grammar.literal? text = none
  | .parameter text _ => Lexer.isSpellable text = true
  | .number value => value ≠ .nan
  | _ => True

theorem proper_word {node : Node} {text : Text} (word : node.word? = some text) :
    Throughout Node.Proper node := by
  unfold Node.word? at word
  split at word
  · exact .leaf trivial rfl
  · exact .leaf trivial rfl
  · exact .leaf trivial rfl
  · exact .leaf trivial rfl
  · exact .leaf trivial rfl
  · cases word

namespace Phrase

/-- From proper tokens, every value of the phrase has the property. -/
def Brings {α : Type} (item : Phrase α) (P : α → Prop) : Prop :=
  ∀ ⦃ts us : List Token.Kind⦄ ⦃a : α⦄, item ts us a → Clean ts → P a ∧ Clean us

abbrev AllProper (nodes : List Node) : Prop :=
  ∀ node ∈ nodes, Throughout Node.Proper node

section Lists

variable {α : Type} {item : Phrase α} {P : α → Prop} (nested : Brings item P)

theorem Maybe.clean {token : Token.Kind} {ts us : List Token.Kind} (maybe : Maybe token ts us)
    (clean : Clean ts) : Clean us := by
  cases maybe with
  | absent => exact clean
  | present => exact clean.tail

include nested

theorem Separated.brings {separator : Token.Kind} :
    Brings (Separated item separator) fun as => ∀ a ∈ as, P a := by
  intro ts us as derived clean
  induction derived with
  | last only =>
      obtain ⟨first, behind⟩ := nested only clean
      exact ⟨List.forall_mem_singleton.2 first, behind⟩
  | more first _ induction =>
      obtain ⟨here, behind⟩ := nested first clean
      obtain ⟨others, after⟩ := induction behind.tail
      exact ⟨List.forall_mem_cons.2 ⟨here, others⟩, after⟩

theorem Ended.brings : Brings (Ended item) fun as => ∀ a ∈ as, P a := by
  intro ts us as derived clean
  induction derived with
  | none => exact ⟨nofun, clean⟩
  | more first _ induction =>
      obtain ⟨here, behind⟩ := nested first clean
      obtain ⟨others, after⟩ := induction behind.tail
      exact ⟨List.forall_mem_cons.2 ⟨here, others⟩, after⟩

theorem Listed.brings : Brings (Listed item) fun as => ∀ a ∈ as, P a := by
  intro ts us as derived clean
  cases derived with
  | empty => exact ⟨nofun, clean⟩
  | items separated comma =>
      obtain ⟨each, behind⟩ := Separated.brings nested separated clean
      exact ⟨each, comma.clean behind⟩

end Lists

section Marks

variable {item : Phrase Node} (nested : Brings item (Throughout Node.Proper))

include nested

theorem Marked.brings : Brings (Marked item) (Throughout Node.Proper) := by
  intro ts us node derived clean
  cases derived with
  | plain bare => exact nested bare clean
  | optional bare =>
      obtain ⟨inner, behind⟩ := nested bare clean
      exact ⟨.only trivial rfl inner, behind.tail⟩

theorem Spread.brings : Brings (Spread item) (Throughout Node.Proper) := by
  intro ts us node derived clean
  cases derived with
  | plain bare => exact nested bare clean
  | rest bare =>
      obtain ⟨inner, behind⟩ := nested bare clean.tail
      exact ⟨.only trivial rfl inner, behind⟩

end Marks

section Level

variable {type : Phrase Node} (nested : Brings type (Throughout Node.Proper))

include nested

theorem Union.brings : Brings (Union type) (Throughout Node.Proper) := by
  intro ts us node derived clean
  cases derived with
  | single only => exact nested only clean
  | several head tail =>
      obtain ⟨first, behind⟩ := nested head clean
      obtain ⟨others, after⟩ := Separated.brings nested tail behind.tail
      exact ⟨.node trivial (List.forall_mem_cons.2 ⟨first, others⟩), after⟩

theorem Members.brings : Brings (Members type) AllProper := by
  intro ts us nodes derived clean
  cases derived with
  | empty => exact ⟨nofun, clean⟩
  | several separated => exact Separated.brings nested separated clean

theorem Elements.brings : Brings (Elements type) AllProper := by
  intro ts us nodes derived clean
  cases derived with
  | listed all => exact Listed.brings nested all clean
  | rest front last comma =>
      obtain ⟨each, behind⟩ := Ended.brings nested front clean
      obtain ⟨inner, after⟩ := nested last behind.tail
      have spread : Throughout Node.Proper (.rest _) := .only trivial rfl inner
      exact ⟨List.forall_mem_append.2 ⟨each, List.forall_mem_singleton.2 spread⟩, comma.clean after⟩

theorem Entry.brings :
    Brings (Entry type) fun field => ∀ value ∈ field.value, Throughout Node.Proper value := by
  intro ts us field derived clean
  cases derived with
  | alone => exact ⟨nofun, clean.tail⟩
  | typed _ value =>
      obtain ⟨inner, behind⟩ := nested value clean.tail.tail
      exact ⟨by simpa [Field.value] using inner, behind⟩

theorem Entries.brings : Brings (Entries type) fun fields =>
    ∀ field ∈ fields, ∀ value ∈ field.value, Throughout Node.Proper value := by
  intro ts us fields derived clean
  cases derived with
  | comma => exact ⟨nofun, clean.tail⟩
  | listed all => exact Listed.brings (Entry.brings nested) all clean

theorem Bare.brings : Brings (Bare type) (Throughout Node.Proper) := by
  intro ts us node derived clean
  cases derived with
  | named value =>
      obtain ⟨spellable, others⟩ := Clean.cons_iff.1 clean
      obtain ⟨inner, behind⟩ := nested value others.tail
      exact ⟨.only spellable rfl inner, behind⟩
  | union value => exact Union.brings nested value clean

theorem Param.brings : Brings (Param type) (Throughout Node.Proper) :=
  Spread.brings (Marked.brings (Bare.brings nested))

theorem Binding.brings : Brings (Binding type) fun bindings =>
    AllProper (bindings.1.toList ++ bindings.2.toList) := by
  intro ts us bindings derived clean
  cases derived with
  | this value =>
      obtain ⟨inner, behind⟩ := nested value clean.tail.tail
      exact ⟨List.forall_mem_singleton.2 inner, behind⟩
  | new value =>
      obtain ⟨inner, behind⟩ := nested value clean.tail.tail
      exact ⟨List.forall_mem_singleton.2 inner, behind⟩

theorem Signature.brings : Brings (Signature type) fun signature =>
    AllProper signature.1 ∧ AllProper (signature.2.1.toList ++ signature.2.2.toList) := by
  intro ts us signature derived clean
  cases derived with
  | unbound _ all =>
      obtain ⟨each, behind⟩ := Listed.brings (Param.brings nested) all clean.tail.tail
      exact ⟨⟨each, nofun⟩, behind.tail⟩
  | bound binding =>
      obtain ⟨bound, behind⟩ := Binding.brings nested binding clean.tail.tail
      exact ⟨⟨nofun, bound⟩, behind.tail⟩
  | both binding all =>
      obtain ⟨bound, behind⟩ := Binding.brings nested binding clean.tail.tail
      obtain ⟨each, after⟩ := Listed.brings (Param.brings nested) all behind.tail
      exact ⟨⟨each, bound⟩, after.tail⟩

omit nested in
theorem proper_function {params : List Node} {result this new : Option Node} (each : AllProper params)
    (resulting : AllProper result.toList) (bound : AllProper (this.toList ++ new.toList)) :
    Throughout Node.Proper (.function params result this new) := by
  refine .node trivial ?_
  rw [Node.parts, List.append_assoc]
  exact List.forall_mem_append.2 ⟨List.forall_mem_append.2 ⟨each, resulting⟩, bound⟩

theorem Basic.brings : Brings (Basic type) (Throughout Node.Proper) := by
  intro ts us node derived clean
  cases derived with
  | all => exact ⟨.leaf trivial rfl, clean.tail⟩
  | string => exact ⟨.leaf trivial rfl, clean.tail⟩
  | number =>
      have number := bne_iff_ne.1 (Clean.cons_iff.1 clean).1
      exact ⟨.leaf number rfl, clean.tail⟩
  | parenthesized members =>
      obtain ⟨each, behind⟩ := Members.brings nested members clean.tail
      exact ⟨.node trivial each, behind.tail⟩
  | array elements =>
      obtain ⟨each, behind⟩ := Elements.brings nested elements clean.tail
      exact ⟨.node trivial each, behind.tail⟩
  | record entries =>
      obtain ⟨each, behind⟩ := Entries.brings nested entries clean.tail
      refine ⟨.node trivial ?_, behind.tail⟩
      intro part inside
      obtain ⟨field, among, present⟩ := List.mem_filterMap.1 inside
      exact each field among part present
  | literal word => exact ⟨proper_word (literal?_eq_some_iff.1 word), clean.tail⟩
  | name free _ => exact ⟨.leaf ⟨(Clean.cons_iff.1 clean).1, free⟩ rfl, clean.tail⟩
  | application free _ arguments =>
      obtain ⟨each, behind⟩ := Separated.brings (Union.brings nested) arguments clean.tail.tail
      have head : Throughout Node.Proper (.name _) := .leaf ⟨(Clean.cons_iff.1 clean).1, free⟩ rfl
      exact ⟨.node trivial (List.forall_mem_cons.2 ⟨head, each⟩), behind.tail⟩
  | function signature =>
      obtain ⟨⟨each, bound⟩, behind⟩ := Signature.brings nested signature clean
      exact ⟨proper_function each nofun bound, behind⟩

theorem Trailed.brings : Brings (Trailed type) (Throughout Node.Proper) := by
  intro ts us node derived clean
  induction derived with
  | basic basic => exact Basic.brings nested basic clean
  | bang _ induction =>
      obtain ⟨inner, behind⟩ := induction clean
      exact ⟨.only trivial rfl inner, behind.tail⟩
  | question _ induction =>
      obtain ⟨inner, behind⟩ := induction clean
      exact ⟨.only trivial rfl inner, behind.tail⟩
  | brackets _ induction =>
      obtain ⟨inner, behind⟩ := induction clean
      have head : Throughout Node.Proper (.name "Array".toList) :=
        .leaf ⟨by decide, by decide⟩ rfl
      refine ⟨.node trivial ?_, behind.tail.tail⟩
      exact List.forall_mem_cons.2 ⟨head, List.forall_mem_singleton.2 inner⟩

theorem Postfixed.brings : Brings (Postfixed type) (Throughout Node.Proper) := by
  intro ts us node derived clean
  cases derived with
  | trailed trailed => exact Trailed.brings nested trailed clean
  | result signature value =>
      obtain ⟨⟨each, bound⟩, behind⟩ := Signature.brings nested signature clean
      obtain ⟨inner, after⟩ := nested value behind.tail
      exact ⟨proper_function each (List.forall_mem_singleton.2 inner) bound, after⟩

theorem Prefixed.brings : Brings (Prefixed type) (Throughout Node.Proper) := by
  intro ts us node derived clean
  cases derived with
  | questionAlone => exact ⟨.leaf trivial rfl, clean.tail⟩
  | question inner =>
      obtain ⟨proper, behind⟩ := Postfixed.brings nested inner clean.tail
      exact ⟨.only trivial rfl proper, behind⟩
  | bangAlone => exact ⟨.leaf trivial rfl, clean.tail⟩
  | bang inner =>
      obtain ⟨proper, behind⟩ := Postfixed.brings nested inner clean.tail
      exact ⟨.only trivial rfl proper, behind⟩
  | plain inner => exact Postfixed.brings nested inner clean

end Level

theorem Expression.brings (room : Nat) : Brings (Expression room) (Throughout Node.Proper) := by
  induction room with
  | zero =>
      intro ts us node derived
      exact derived.elim
  | succ room induction => exact Prefixed.brings induction

theorem Top.brings (room : Nat) : Brings (Top room) (Throughout Node.Proper) :=
  Spread.brings (Marked.brings (Union.brings (Expression.brings room)))

end Phrase

theorem ReadsAs.proper {source : Text} {node : Node} (reads : ReadsAs source node) :
    Throughout Node.Proper node := by
  obtain ⟨kinds, lexed, derived⟩ := ReadsAs.iff_top.1 reads
  exact (Phrase.Top.brings maxDepth derived lexed.clean).1

end Docblock.TypeExpr
