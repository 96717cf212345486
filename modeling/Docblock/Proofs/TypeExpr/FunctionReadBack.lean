import Docblock.Proofs.TypeExpr.ReadBack

/-!
# Functions are read back

The parameters of a function with their marks, the types of `this` and `new`, and the result.
-/

set_option autoImplicit false

namespace Docblock.TypeExpr

open Lexer (Reads reads_mark reads_blank)
open Phrase (Prefixed Makes)

section Marks

variable {item : Phrase Node} {room : Nat} {node : Node}

theorem readsBack_unmarked (plain : node.isOptional = false) (inner : ReadsBack room item node) :
    ReadsBack room (Phrase.Marked item) node := by
  intro k us follows
  have spells := inner us follows
  constructor
  · rintro ⟨ts, other, read, derives, same⟩
    cases derives with
    | plain bare => exact spells.1 ⟨ts, other, read, bare, same⟩
    | optional bare =>
        obtain ⟨left, rfl, -⟩ := Node.same_optional_right same
        cases plain
  · intro both
    obtain ⟨ts, other, read, derives, same⟩ := spells.2 both
    exact ⟨ts, other, read, .plain derives, same⟩

theorem readsBack_optional (makes : Makes item fun node => node.isOptional = false)
    (inner : ReadsBack room item node) :
    ReadsBack room (Phrase.Marked item) (.optional node none) := by
  intro k us follows
  have equal : Token.Kind.ofChar? '=' = some .equal := rfl
  have spells := inner (k := '=' :: k) (.equal :: us) (.cons (by decide) k)
  simp only [Spells, reads_mark_cons equal, true_and] at spells
  have fits : (Node.optional node none).Fits room ↔ node.Fits room := by
    have readable : (Node.optional node none).isReadable = node.isReadable := by
      cases node <;> rfl
    rw [Node.Fits, readable, Node.nesting, Node.Fits]
  rw [Spells, fits, Node.render_optional, List.append_assoc]
  constructor
  · rintro ⟨ts, other, read, derives, sameOptional⟩
    obtain ⟨right, rfl, same⟩ := Node.same_optional_iff.1 sameOptional
    cases derives with
    | plain bare => cases makes bare
    | optional bare => exact spells.1 ⟨ts, right, read, bare, same⟩
  · intro both
    obtain ⟨ts, right, read, derives, same⟩ := spells.2 both
    exact ⟨ts, .optional right none, read, .optional derives,
      Node.same_optional_iff.2 ⟨right, rfl, same⟩⟩

theorem readsBack_unspread (plain : node.isRest = false) (inner : ReadsBack room item node) :
    ReadsBack room (Phrase.Spread item) node := by
  intro k us follows
  have spells := inner us follows
  constructor
  · rintro ⟨ts, other, read, derives, same⟩
    cases derives with
    | plain bare => exact spells.1 ⟨ts, other, read, bare, same⟩
    | rest bare =>
        obtain ⟨left, rfl, -⟩ := Node.same_rest_right same
        cases plain
  · intro both
    obtain ⟨ts, other, read, derives, same⟩ := spells.2 both
    exact ⟨ts, other, read, .plain derives, same⟩

theorem readsBack_rest (makes : Makes item fun node => node.isRest = false)
    (inner : ReadsBack room item node) : ReadsBack room (Phrase.Spread item) (.rest node) := by
  intro k us follows
  have spells := inner us follows
  have fits : (Node.rest node).Fits room ↔ node.Fits room := by
    rw [Node.Fits, Node.isReadable, Node.nesting, Node.Fits]
  rw [Spells, fits, Node.render_rest]
  constructor
  · rintro ⟨ts, other, read, derives, sameRest⟩
    obtain ⟨right, rfl, same⟩ := Node.same_rest_iff.1 sameRest
    obtain ⟨vs, rfl, behind⟩ := (Lexer.reads_ellipsis _).1 read
    cases derives with
    | plain bare => cases makes bare
    | rest bare => exact spells.1 ⟨vs, right, behind, bare, same⟩
  · intro both
    obtain ⟨vs, right, behind, derives, same⟩ := spells.2 both
    exact ⟨.ellipsis :: vs, .rest right, (Lexer.reads_ellipsis _).2 ⟨vs, rfl, behind⟩, .rest derives,
      Node.same_rest_iff.2 ⟨right, rfl, same⟩⟩

end Marks

section Parameters

variable {type : Phrase Node} {room : Nat} {node : Node}

theorem Layered.not_parameter {text : Text} (layered : Layered .type (.parameter text node)) :
    False := by
  cases layered with
  | type inner =>
      cases inner with
      | trailed inner => cases inner

theorem readsBack_bare (layered : Layered .type node) (inner : ReadsBack room (Phrase.Union type) node) :
    ReadsBack room (Phrase.Bare type) node := by
  intro k us follows
  have spells := inner us follows
  constructor
  · rintro ⟨ts, other, read, derives, same⟩
    cases derives with
    | union value => exact spells.1 ⟨ts, other, read, value, same⟩
    | named value =>
        obtain ⟨left, rfl, -⟩ := Node.same_parameter_right same
        exact layered.not_parameter.elim
  · intro both
    obtain ⟨ts, other, read, derives, same⟩ := spells.2 both
    exact ⟨ts, other, read, .union derives, same⟩

theorem readsBack_parameter (makes : Makes type (Layered .type)) (text : Text)
    (inner : ReadsBack room type node) :
    ReadsBack room (Phrase.Bare type) (.parameter text node) := by
  intro k us follows
  have spells := inner us follows
  have fits : (Node.parameter text node).Fits room ↔ isPlainName text = true ∧ node.Fits room := by
    simp [Node.Fits, Node.isReadable, Node.nesting, and_assoc]
  have label : ∀ {vs : List Token.Kind}, Reads ((Node.parameter text node).render ++ k)
      (.name text :: .colon :: vs) ↔ isPlainName text = true ∧ Reads (node.render ++ k) vs := by
    intro vs
    rw [Node.render_parameter, List.append_assoc, List.cons_append, Lexer.reads_label,
      List.cons_append, reads_blank]
  rw [Spells, fits]
  constructor
  · rintro ⟨ts, other, read, derives, sameParameter⟩
    obtain ⟨right, rfl, same⟩ := Node.same_parameter_iff.1 sameParameter
    cases derives with
    | union value => exact (Phrase.Union.layered makes value).not_parameter.elim
    | named value =>
        obtain ⟨plain, behind⟩ := label.1 read
        obtain ⟨good, others⟩ := spells.1 ⟨_, right, behind, value, same⟩
        exact ⟨⟨plain, good⟩, others⟩
  · rintro ⟨⟨plain, good⟩, others⟩
    obtain ⟨vs, right, behind, derives, same⟩ := spells.2 ⟨good, others⟩
    exact ⟨.name text :: .colon :: vs, .parameter text right, label.2 ⟨plain, behind⟩, .named derives,
      Node.same_parameter_iff.2 ⟨right, rfl, same⟩⟩

end Parameters

section Results

variable {type : Phrase Node} {room : Nat}

theorem spells_result {result : Option Node} (inner : ∀ node ∈ result, ReadsBack room type node)
    {k : Text} (us : List Token.Kind) (follows : Follows k) :
    Spells (Phrase.Result type) (Node.resultText result)
      (fun other => Node.sameOption result other = true) (∀ node ∈ result, node.Fits room) k us := by
  cases result with
  | none =>
      constructor
      · rintro ⟨ts, other, read, derives, same⟩
        obtain rfl := Node.sameOption_none_iff.1 same
        cases derives
        exact ⟨by simp, read⟩
      · rintro ⟨-, others⟩
        exact ⟨us, none, others, .absent, Node.sameOption_none_iff.2 rfl⟩
  | some node =>
      have spells := inner node rfl us follows
      have fits : (∀ result ∈ some node, result.Fits room) ↔ node.Fits room := by simp
      have reads : ∀ {ts : List Token.Kind}, Reads (Node.resultText (some node) ++ k) ts ↔
          ∃ vs, ts = .colon :: vs ∧ Reads (node.render ++ k) vs := by
        intro ts
        rw [Node.resultText, List.cons_append, reads_mark rfl]
        simp only [List.cons_append, reads_blank]
      rw [Spells, fits]
      constructor
      · rintro ⟨ts, other, read, derives, sameResult⟩
        obtain ⟨right, rfl, same⟩ := Node.sameOption_some_iff.1 sameResult
        obtain ⟨vs, rfl, behind⟩ := reads.1 read
        cases derives with
        | present value => exact spells.1 ⟨vs, right, behind, value, same⟩
      · intro both
        obtain ⟨vs, right, behind, derives, same⟩ := spells.2 both
        exact ⟨.colon :: vs, some right, reads.2 ⟨vs, rfl, behind⟩, .present derives,
          Node.sameOption_some_iff.2 ⟨right, rfl, same⟩⟩

end Results

section Bindings

def bindingWord (isNew : Bool) : Text :=
  if isNew then "new".toList else "this".toList

/-- The types of `this` and of `new`, of which one is bound. -/
def bindingOf (isNew : Bool) (node : Node) : Option Node × Option Node :=
  if isNew then (none, some node) else (some node, none)

theorem isPlainName_bindingWord (isNew : Bool) : isPlainName (bindingWord isNew) = true := by
  cases isNew <;> decide

theorem Phrase.bindsHere_iff {ts : List Token.Kind} : Phrase.bindsHere ts = true ↔
    ∃ isNew vs, ts = .name (bindingWord isNew) :: .colon :: vs := by
  constructor
  · intro binds
    unfold Phrase.bindsHere at binds
    split at binds
    · next text vs =>
        rw [Bool.or_eq_true, beq_iff_eq, beq_iff_eq] at binds
        rcases binds with rfl | rfl
        · exact ⟨true, vs, rfl⟩
        · exact ⟨false, vs, rfl⟩
    · cases binds
  · rintro ⟨isNew, vs, rfl⟩
    cases isNew <;> simp [Phrase.bindsHere, bindingWord]

theorem Phrase.Binding.iff {type : Phrase Node} {isNew : Bool} {vs us : List Token.Kind}
    {bindings : Option Node × Option Node} :
    Phrase.Binding type (.name (bindingWord isNew) :: .colon :: vs) us bindings ↔
      ∃ node, bindings = bindingOf isNew node ∧ type vs us node := by
  constructor
  · intro derived
    generalize shape : Token.Kind.name (bindingWord isNew) :: .colon :: vs = ts at derived
    cases derived with
    | this value =>
        obtain ⟨word, behind⟩ := List.cons.inj shape
        obtain ⟨-, rfl⟩ := List.cons.inj behind
        cases isNew with
        | false => exact ⟨_, rfl, value⟩
        | true => simp [bindingWord] at word
    | new value =>
        obtain ⟨word, behind⟩ := List.cons.inj shape
        obtain ⟨-, rfl⟩ := List.cons.inj behind
        cases isNew with
        | true => exact ⟨_, rfl, value⟩
        | false => simp [bindingWord] at word
  · rintro ⟨node, rfl, value⟩
    cases isNew with
    | false => exact .this value
    | true => exact .new value

theorem Node.bindsFirst_iff {params : List Node} : Node.bindsFirst params = true ↔
    ∃ isNew node more, params = .parameter (bindingWord isNew) node :: more ∨
      ∃ default, params = .optional (.parameter (bindingWord isNew) node) default :: more := by
  constructor
  · intro binds
    unfold Node.bindsFirst at binds
    split at binds
    · next text node more =>
        rw [Bool.or_eq_true, beq_iff_eq, beq_iff_eq] at binds
        rcases binds with rfl | rfl
        · exact ⟨true, node, more, .inl rfl⟩
        · exact ⟨false, node, more, .inl rfl⟩
    · next text node default more =>
        rw [Bool.or_eq_true, beq_iff_eq, beq_iff_eq] at binds
        rcases binds with rfl | rfl
        · exact ⟨true, node, more, .inr ⟨default, rfl⟩⟩
        · exact ⟨false, node, more, .inr ⟨default, rfl⟩⟩
    · cases binds
  · rintro ⟨isNew, node, more, rfl | ⟨default, rfl⟩⟩ <;> cases isNew <;>
      simp [Node.bindsFirst, bindingWord]

variable {type : Phrase Node}

theorem Phrase.Param.labelled (isType : Phrase.IsType type) {text : Text} {ts us : List Token.Kind}
    {node : Node} (derived : Phrase.Param type (.name text :: .colon :: ts) us node)
    (ends : us.head? ≠ some .colon) :
    ∃ inner, node = .parameter text inner ∨ node = .optional (.parameter text inner) none := by
  cases derived with
  | plain marked =>
      cases marked with
      | plain bare =>
          cases bare with
          | named value => exact ⟨_, .inl rfl⟩
          | union value =>
              rw [value.unlabelled isType] at ends
              exact absurd rfl ends
      | optional bare =>
          cases bare with
          | named value => exact ⟨_, .inr rfl⟩
          | union value => cases value.unlabelled isType

theorem Node.bindsFirst_of_same {param other : Node} {params : List Node} {isNew : Bool}
    (same : param.same other = true) (labelled : ∃ inner, other = .parameter (bindingWord isNew) inner ∨
      other = .optional (.parameter (bindingWord isNew) inner) none) :
    Node.bindsFirst (param :: params) = true := by
  obtain ⟨inner, rfl | rfl⟩ := labelled
  · obtain ⟨left, rfl, -⟩ := Node.same_parameter_right same
    exact Node.bindsFirst_iff.2 ⟨isNew, left, params, .inl rfl⟩
  · obtain ⟨marked, rfl, bare⟩ := Node.same_optional_right same
    obtain ⟨left, rfl, -⟩ := Node.same_parameter_right bare
    exact Node.bindsFirst_iff.2 ⟨isNew, left, params, .inr ⟨none, rfl⟩⟩

/-- Where a binding stands, the first parameter of a list without one is a named one of that name. -/
theorem Phrase.Listed.bindsFirst (isType : Phrase.IsType type) {ts us : List Token.Kind}
    {params others : List Node} (all : Phrase.Listed (Phrase.Param type) ts (.rightParen :: us) others)
    (same : List.Forall₂ (fun a b => a.same b = true) params others)
    (binds : Phrase.bindsHere ts = true) : Node.bindsFirst params = true := by
  obtain ⟨isNew, vs, rfl⟩ := Phrase.bindsHere_iff.1 binds
  generalize ending : Token.Kind.rightParen :: us = ws at all
  cases all with
  | empty =>
      cases ending
  | items separated comma =>
      cases separated with
      | last only =>
          cases same with
          | cons first none =>
              refine Node.bindsFirst_of_same first (only.labelled isType ?_)
              cases comma with
              | absent => simp [← ending]
              | present => simp
      | more here behind =>
          cases same with
          | cons first more => exact Node.bindsFirst_of_same first (here.labelled isType (by simp))

theorem bindsHere_of_reads {params : List Node} (binds : Node.bindsFirst params = true) {s : Text}
    {ts : List Token.Kind}
    (reads : Reads (Text.join Node.commaBlank (params.map Node.render) ++ s) ts) :
    Phrase.bindsHere ts = true := by
  obtain ⟨isNew, node, more, shape⟩ := Node.bindsFirst_iff.1 binds
  have begins : ∃ k, Text.join Node.commaBlank (params.map Node.render) ++ s =
      bindingWord isNew ++ ':' :: k := by
    rcases shape with rfl | ⟨default, rfl⟩
    · obtain ⟨k, joined⟩ := exists_join_map_cons Node.commaBlank (.parameter (bindingWord isNew) node) more
      exact ⟨_, by rw [joined, Node.render_parameter, List.append_assoc, List.append_assoc,
        List.cons_append]⟩
    · obtain ⟨k, joined⟩ := exists_join_map_cons Node.commaBlank
        (.optional (.parameter (bindingWord isNew) node) default) more
      have written : (Node.optional (.parameter (bindingWord isNew) node) default).render =
          (Node.parameter (bindingWord isNew) node).render ++ ['='] := rfl
      exact ⟨_, by rw [joined, written, Node.render_parameter, List.append_assoc, List.append_assoc,
        List.append_assoc, List.cons_append]⟩
  obtain ⟨k, begins⟩ := begins
  rw [begins] at reads
  obtain ⟨vs, rfl, behind⟩ := (Lexer.reads_plain (isPlainName_bindingWord isNew)
    (.cons (by decide) k) (by simp)).1 reads
  obtain ⟨ws, rfl, -⟩ := (reads_mark rfl k).1 behind
  exact Phrase.bindsHere_iff.2 ⟨isNew, ws, rfl⟩

end Bindings

section Signatures

variable {type : Phrase Node} {room : Nat} {params : List Node}

theorem spells_params (each : ∀ param ∈ params, ReadsBack room (Phrase.Param type) param) (k : Text)
    (us : List Token.Kind) :
    Spells (Phrase.Listed (Phrase.Param type)) (Text.join Node.commaBlank (params.map Node.render))
      (List.Forall₂ (fun a b => a.same b = true) params) (∀ param ∈ params, param.Fits room) (')' :: k)
      (.rightParen :: us) :=
  spells_listed rfl (by decide) (by simp) (fun param inside => each param inside) k us

theorem reads_function {s : Text} {ts : List Token.Kind} : Reads ("function".toList ++ '(' :: s) ts ↔
    ∃ vs, ts = .name "function".toList :: .leftParen :: vs ∧ Reads s vs := by
  have plain : isPlainName "function".toList = true := by decide
  rw [Lexer.reads_plain plain (.cons (by decide) _) (by simp)]
  constructor
  · rintro ⟨_, rfl, opened⟩
    obtain ⟨vs, rfl, inside⟩ := (reads_mark rfl _).1 opened
    exact ⟨vs, rfl, inside⟩
  · rintro ⟨vs, rfl, inside⟩
    exact ⟨_, rfl, (reads_mark rfl _).2 ⟨vs, rfl, inside⟩⟩

/-- A function without a binding is read back unless its first parameter is taken for one. -/
theorem spells_unbound (isType : Phrase.IsType type)
    (each : ∀ param ∈ params, ReadsBack room (Phrase.Param type) param) (k : Text)
    (us : List Token.Kind) :
    (∃ ts others, Reads ("function".toList ++
        '(' :: (Text.join Node.commaBlank (params.map Node.render) ++ ')' :: k)) ts ∧
      Phrase.Signature type ts us (others, none, none) ∧
      List.Forall₂ (fun a b => a.same b = true) params others) ↔
    ((∀ param ∈ params, param.Fits room) ∧ Node.bindsFirst params = false) ∧ Reads k us := by
  have items := spells_params each k us
  have paren : Token.Kind.ofChar? ')' = some .rightParen := rfl
  simp only [Spells, reads_mark_cons paren, true_and] at items
  constructor
  · rintro ⟨ts, others, read, derives, same⟩
    obtain ⟨vs, rfl, inside⟩ := reads_function.1 read
    cases derives with
    | unbound free all =>
        obtain ⟨goods, behind⟩ := items.1 ⟨vs, others, inside, all, same⟩
        refine ⟨⟨goods, ?_⟩, behind⟩
        cases binds : Node.bindsFirst params with
        | false => rfl
        | true =>
            rw [bindsHere_of_reads binds inside] at free
            cases free
    | bound binding => cases binding
    | both binding all => cases binding
  · rintro ⟨⟨goods, free⟩, behind⟩
    obtain ⟨vs, others, inside, all, same⟩ := items.2 ⟨goods, behind⟩
    refine ⟨.name "function".toList :: .leftParen :: vs, others, reads_function.2 ⟨vs, rfl, inside⟩,
      .unbound ?_ all, same⟩
    -- a label in front of the parameters belongs to the first of them
    cases binds : Phrase.bindsHere vs with
    | false => rfl
    | true =>
        rw [all.bindsFirst isType same binds] at free
        cases free

def behindBinding (params : List Node) (k : Text) : Text :=
  match params with
  | [] => ')' :: k
  | param :: params =>
      ',' :: ' ' :: (Text.join Node.commaBlank ((param :: params).map Node.render) ++ ')' :: k)

theorem behindBinding_follows (params : List Node) (k : Text) : Follows (behindBinding params k) := by
  cases params <;> exact .cons (by decide) _

theorem bindingOf_inj {isNew : Bool} {node other : Node}
    (same : bindingOf isNew node = bindingOf isNew other) : node = other := by
  cases isNew <;> simpa [bindingOf] using same

theorem reads_binding (isNew : Bool) {s : Text} {ts : List Token.Kind} :
    Reads ("function".toList ++ '(' :: (bindingWord isNew ++ ':' :: s)) ts ↔
      ∃ vs, ts = .name "function".toList :: .leftParen :: .name (bindingWord isNew) :: .colon :: vs ∧
        Reads s vs := by
  have colon : Token.Kind.ofChar? ':' = some .colon := rfl
  rw [reads_function]
  simp only [Lexer.reads_plain (isPlainName_bindingWord isNew) (.cons (c := ':') (by decide) _) (by simp),
    reads_mark colon]
  constructor
  · rintro ⟨_, rfl, _, rfl, vs, rfl, behind⟩
    exact ⟨vs, rfl, behind⟩
  · rintro ⟨vs, rfl, behind⟩
    exact ⟨_, rfl, _, rfl, vs, rfl, behind⟩

theorem spells_bound (isNew : Bool) {node : Node} (inner : ReadsBack room type node)
    (each : ∀ param ∈ params, ReadsBack room (Phrase.Param type) param) (k : Text)
    (us : List Token.Kind) :
    (∃ ts others right, Reads ("function".toList ++ '(' :: (Text.join Node.commaBlank
        ((bindingWord isNew ++ ':' :: node.render) :: params.map Node.render) ++ ')' :: k)) ts ∧
      Phrase.Signature type ts us (others, bindingOf isNew right) ∧
      List.Forall₂ (fun a b => a.same b = true) params others ∧ node.same right = true) ↔
    ((∀ param ∈ params, param.Fits room) ∧ node.Fits room) ∧ Reads k us := by
  have items := spells_params each k us
  have paren : Token.Kind.ofChar? ')' = some .rightParen := rfl
  have comma : Token.Kind.ofChar? ',' = some .comma := rfl
  have text : "function".toList ++ '(' :: (Text.join Node.commaBlank
      ((bindingWord isNew ++ ':' :: node.render) :: params.map Node.render) ++ ')' :: k) =
      "function".toList ++ '(' :: (bindingWord isNew ++ ':' :: (node.render ++ behindBinding params k)) := by
    cases params <;> simp [behindBinding, Text.join_cons_cons, Node.commaBlank]
  have spells : ∀ {vs : List Token.Kind}, Spells type node.render (fun other => node.same other = true)
      (node.Fits room) (behindBinding params k) vs := inner _ (behindBinding_follows params k)
  have binds : ∀ {vs : List Token.Kind},
      Phrase.bindsHere (.name (bindingWord isNew) :: .colon :: vs) = true :=
    Phrase.bindsHere_iff.2 ⟨isNew, _, rfl⟩
  simp only [Spells, reads_mark_cons paren, true_and] at items
  rw [text]
  constructor
  · rintro ⟨ts, others, right, read, derives, same, boundSame⟩
    obtain ⟨vs, rfl, behind⟩ := (reads_binding isNew).1 read
    generalize shape : bindingOf isNew right = bindings at derives
    cases derives with
    | unbound free all =>
        rw [binds] at free
        cases free
    | bound binding =>
        obtain ⟨_, bindings, value⟩ := Phrase.Binding.iff.1 binding
        obtain rfl := bindingOf_inj (shape.trans bindings)
        cases same
        obtain ⟨good, closing⟩ := spells.1 ⟨vs, right, behind, value, boundSame⟩
        exact ⟨⟨by simp, good⟩, ((reads_mark_cons paren).1 closing).2⟩
    | both binding all =>
        obtain ⟨_, bindings, value⟩ := Phrase.Binding.iff.1 binding
        obtain rfl := bindingOf_inj (shape.trans bindings)
        obtain ⟨good, rest⟩ := spells.1 ⟨vs, right, behind, value, boundSame⟩
        cases params with
        | nil => cases ((reads_mark_cons paren).1 rest).1
        | cons param params =>
            have inside := (reads_blank _).1 ((reads_mark_cons comma).1 rest).2
            obtain ⟨goods, others⟩ := items.1 ⟨_, others, inside, all, same⟩
            exact ⟨⟨goods, good⟩, others⟩
  · rintro ⟨⟨goods, good⟩, after⟩
    cases params with
    | nil =>
        obtain ⟨vs, right, behind, value, boundSame⟩ :=
          spells.2 ⟨good, (reads_mark_cons paren).2 ⟨rfl, after⟩⟩
        exact ⟨_, [], right, (reads_binding isNew).2 ⟨vs, rfl, behind⟩,
          .bound (Phrase.Binding.iff.2 ⟨right, rfl, value⟩), .nil, boundSame⟩
    | cons param params =>
        obtain ⟨ws, others, inside, all, same⟩ := items.2 ⟨goods, after⟩
        obtain ⟨vs, right, behind, value, boundSame⟩ :=
          spells.2 ⟨good, (reads_mark_cons comma).2 ⟨rfl, (reads_blank _).2 inside⟩⟩
        exact ⟨_, others, right, (reads_binding isNew).2 ⟨vs, rfl, behind⟩,
          .both (Phrase.Binding.iff.2 ⟨right, rfl, value⟩) all, same, boundSame⟩

theorem Node.functionFits_iff {result this new : Option Node} :
    (Node.function params result this new).Fits (room + 1) ↔
      ((∀ param ∈ params, param.Fits room) ∧ (∀ node ∈ this, node.Fits room) ∧
        (∀ node ∈ new, node.Fits room) ∧
        (this.isSome = true ∨ new.isSome = true ∨ Node.bindsFirst params = false)) ∧
      ∀ node ∈ result, node.Fits room := by
  rw [Node.allFit_iff, Node.optionFits_iff, Node.optionFits_iff, Node.optionFits_iff]
  simp only [Node.Fits, Node.isReadable, Node.nesting, Bool.and_eq_true, Bool.or_eq_true,
    Bool.not_eq_true', Nat.add_le_add_iff_right, Nat.max_le]
  constructor
  · rintro ⟨⟨⟨⟨⟨ps, r⟩, t⟩, n⟩, free⟩, ⟨ps', r'⟩, t', n'⟩
    exact ⟨⟨⟨ps, ps'⟩, ⟨t, t'⟩, ⟨n, n'⟩, or_assoc.1 free⟩, r, r'⟩
  · rintro ⟨⟨⟨ps, ps'⟩, ⟨t, t'⟩, ⟨n, n'⟩, free⟩, r, r'⟩
    exact ⟨⟨⟨⟨⟨ps, r⟩, t⟩, n⟩, or_assoc.2 free⟩, ⟨ps', r'⟩, t', n'⟩

theorem spells_signature (isType : Phrase.IsType type) {this new : Option Node}
    (one : this = none ∨ new = none)
    (each : ∀ param ∈ params, ReadsBack room (Phrase.Param type) param)
    (bound : ∀ node ∈ this, ReadsBack room type node)
    (created : ∀ node ∈ new, ReadsBack room type node) (k : Text) (us : List Token.Kind) :
    (∃ ts others this' new', Reads ("function".toList ++ '(' :: (Text.join Node.commaBlank
        (Node.renderBinding "this:".toList this ++ Node.renderBinding "new:".toList new ++
          params.map Node.render) ++ ')' :: k)) ts ∧
      Phrase.Signature type ts us (others, this', new') ∧ Node.sameList params others = true ∧
      Node.sameOption this this' = true ∧ Node.sameOption new new' = true) ↔
    ((∀ param ∈ params, param.Fits room) ∧ (∀ node ∈ this, node.Fits room) ∧
      (∀ node ∈ new, node.Fits room) ∧
      (this.isSome = true ∨ new.isSome = true ∨ Node.bindsFirst params = false)) ∧ Reads k us := by
  cases this with
  | none =>
      cases new with
      | none =>
          have spells := spells_unbound isType each k us
          simp only [← Node.sameList_iff] at spells
          simpa [Node.renderBinding, Node.sameOption_none_iff] using spells
      | some node =>
          have spells := spells_bound true (created node rfl) each k us
          simp only [← Node.sameList_iff] at spells
          constructor
          · rintro ⟨ts, others, this', new', read, signed, same, thisSame, newSame⟩
            obtain rfl := Node.sameOption_none_iff.1 thisSame
            obtain ⟨right, rfl, nodeSame⟩ := Node.sameOption_some_iff.1 newSame
            obtain ⟨⟨goods, good⟩, after⟩ := spells.1 ⟨ts, others, right, read, signed, same, nodeSame⟩
            exact ⟨⟨goods, by simp, by simpa using good, .inr (.inl rfl)⟩, after⟩
          · rintro ⟨⟨goods, -, good, -⟩, after⟩
            obtain ⟨ts, others, right, read, signed, same, nodeSame⟩ :=
              spells.2 ⟨⟨goods, good node rfl⟩, after⟩
            exact ⟨ts, others, none, some right, read, signed, same, Node.sameOption_none_iff.2 rfl,
              Node.sameOption_some_iff.2 ⟨right, rfl, nodeSame⟩⟩
  | some node =>
      obtain rfl : new = none := one.resolve_left (by simp)
      have spells := spells_bound false (bound node rfl) each k us
      simp only [← Node.sameList_iff] at spells
      constructor
      · rintro ⟨ts, others, this', new', read, signed, same, thisSame, newSame⟩
        obtain rfl := Node.sameOption_none_iff.1 newSame
        obtain ⟨right, rfl, nodeSame⟩ := Node.sameOption_some_iff.1 thisSame
        obtain ⟨⟨goods, good⟩, after⟩ := spells.1 ⟨ts, others, right, read, signed, same, nodeSame⟩
        exact ⟨⟨goods, by simpa using good, by simp, .inl rfl⟩, after⟩
      · rintro ⟨⟨goods, good, -, -⟩, after⟩
        obtain ⟨ts, others, right, read, signed, same, nodeSame⟩ :=
          spells.2 ⟨⟨goods, good node rfl⟩, after⟩
        exact ⟨ts, others, some right, none, read, signed, same,
          Node.sameOption_some_iff.2 ⟨right, rfl, nodeSame⟩, Node.sameOption_none_iff.2 rfl⟩

theorem readsBack_function (isType : Phrase.IsType type) {result this new : Option Node}
    (one : this = none ∨ new = none)
    (each : ∀ param ∈ params, ReadsBack room (Phrase.Param type) param)
    (resulting : ∀ node ∈ result, ReadsBack room type node)
    (bound : ∀ node ∈ this, ReadsBack room type node)
    (created : ∀ node ∈ new, ReadsBack room type node) :
    ReadsBack (room + 1) (Prefixed type) (.function params result this new) := by
  intro k us follows
  have signature := spells_signature isType one each bound created (Node.resultText result ++ k)
  have ending := spells_result resulting us follows
  rw [Spells, Node.functionFits_iff, Node.render_function]
  constructor
  · rintro ⟨ts, other, read, derives, equal⟩
    obtain ⟨others, result', this', new', rfl, same, resultSame, thisSame, newSame⟩ :=
      Node.same_function_iff.1 equal
    obtain ⟨vs, signed, closing⟩ := Phrase.Prefixed.function_iff.1 derives
    obtain ⟨goods, behind⟩ := (signature _).1
      ⟨ts, others, this', new', by simpa using read, signed, same, thisSame, newSame⟩
    obtain ⟨good, others⟩ := ending.1 ⟨vs, result', behind, closing, resultSame⟩
    exact ⟨⟨goods, good⟩, others⟩
  · rintro ⟨⟨goods, good⟩, others⟩
    obtain ⟨vs, result', behind, closing, resultSame⟩ := ending.2 ⟨good, others⟩
    obtain ⟨ts, others, this', new', read, signed, same, thisSame, newSame⟩ :=
      (signature vs).2 ⟨goods, behind⟩
    exact ⟨ts, .function others result' this' new', by simpa using read,
      Phrase.Prefixed.function_iff.2 ⟨vs, signed, closing⟩,
      Node.same_function_iff.2 ⟨_, _, _, _, rfl, same, resultSame, thisSame, newSame⟩⟩

end Signatures

end Docblock.TypeExpr
