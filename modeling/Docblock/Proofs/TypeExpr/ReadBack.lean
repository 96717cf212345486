import Docblock.Proofs.TypeExpr.LeftSpine

/-!
# Expressions are read back

The spelling of an expression is read back as the expression if and only if it is readable and not nested
too deeply. One lemma for each kind of node says so of the node if it holds of what is nested in it.
-/

set_option autoImplicit false

namespace Docblock.TypeExpr

open Lexer (Reads reads_mark reads_blank)
open Phrase (Prefixed Postfixed Trailed Basic)

namespace Node

/-- Whether the node is readable and nested no deeper than there is room for. -/
def Fits (room : Nat) (node : Node) : Prop :=
  node.isReadable = true ∧ node.nesting ≤ room

theorem areReadable_iff {nodes : List Node} :
    areReadable nodes = true ↔ ∀ node ∈ nodes, node.isReadable = true := by
  induction nodes with
  | nil => simp [areReadable]
  | cons node nodes induction => simp [areReadable, induction]

theorem nestingAll_le_iff {nodes : List Node} {room : Nat} :
    nestingAll nodes ≤ room ↔ ∀ node ∈ nodes, node.nesting ≤ room := by
  induction nodes with
  | nil => simp [nestingAll]
  | cons node nodes induction => rw [nestingAll, Nat.max_le, induction, List.forall_mem_cons]

theorem allFit_iff {nodes : List Node} {room : Nat} :
    (∀ node ∈ nodes, node.Fits room) ↔ areReadable nodes = true ∧ nestingAll nodes ≤ room := by
  rw [areReadable_iff, nestingAll_le_iff]
  exact ⟨fun each => ⟨fun node inside => (each node inside).1, fun node inside => (each node inside).2⟩,
    fun both node inside => ⟨both.1 node inside, both.2 node inside⟩⟩

theorem nesting_pos (node : Node) : 0 < node.nesting := by
  cases node with
  | optional node _ => exact nesting_pos node
  | nullable node _ => exact nesting_pos node
  | nonNullable node _ => exact nesting_pos node
  | rest node => exact nesting_pos node
  | parameter _ node => exact nesting_pos node
  | _ => simp [nesting]

end Node

/-- The node is read back as a phrase from its spelling if and only if it fits, whatever follows it. -/
def ReadsBack (room : Nat) (item : Phrase Node) (node : Node) : Prop :=
  ∀ ⦃k : Text⦄ (us : List Token.Kind), Follows k →
    Spells item node.render (fun other => node.same other = true) (node.Fits room) k us

theorem Follows.reads_head {k : Text} (follows : Follows k) {kind : Token.Kind} {us : List Token.Kind}
    (reads : Reads k (kind :: us)) : kind ≠ .leftParen ∧ kind ≠ .colon := by
  cases k with
  | nil =>
      cases reads with
      | last => simp
      | more read inside _ =>
          cases read
          exact absurd rfl inside
  | cons c k =>
      have each : ∀ d ∈ followers, ∃ found, Token.Kind.ofChar? d = some found ∧
          found ≠ .leftParen ∧ found ≠ .colon := by
        simp [followers, Token.Kind.ofChar?]
      obtain ⟨found, single, other⟩ := each c (follows c rfl)
      obtain ⟨rfl, -⟩ := (reads_mark_cons single).1 reads
      exact other

section Leaves

variable {type : Phrase Node} {room : Nat}

theorem readsBack_token {node : Node} {kind : Token.Kind}
    (right : ∀ {other : Node}, node.same other = true ↔ other = node)
    (reads : ∀ {k : Text} {ts : List Token.Kind}, Follows k →
      (Reads (node.render ++ k) ts ↔ ∃ us, ts = kind :: us ∧ Reads k us))
    (derived : ∀ {ts us : List Token.Kind}, Prefixed type ts us node ↔ ts = kind :: us)
    (fits : node.Fits room) : ReadsBack room (Prefixed type) node := by
  intro k us follows
  constructor
  · rintro ⟨ts, other, read, derives, same⟩
    obtain rfl := right.1 same
    obtain ⟨vs, rfl, others⟩ := (reads follows).1 read
    obtain ⟨-, rfl⟩ := List.cons.inj (derived.1 derives)
    exact ⟨fits, others⟩
  · rintro ⟨-, others⟩
    exact ⟨kind :: us, node, (reads follows).2 ⟨us, rfl, others⟩, derived.2 rfl, right.2 rfl⟩

theorem readsBack_all : ReadsBack (room + 1) (Prefixed type) .all :=
  readsBack_token Node.same_all_iff (fun {k} _ _ => reads_mark rfl k)
    (fun {_ _} => (Phrase.Prefixed.basic_iff rfl).trans Phrase.Basic.all_iff)
    ⟨rfl, by simp [Node.nesting]⟩

theorem readsBack_nullableLiteral : ReadsBack (room + 1) (Prefixed type) .nullableLiteral :=
  readsBack_token Node.same_nullableLiteral_iff (fun {k} _ _ => reads_mark rfl k)
    Phrase.Prefixed.questionAlone_iff ⟨rfl, by simp [Node.nesting]⟩

theorem readsBack_nonNullableLiteral : ReadsBack (room + 1) (Prefixed type) .nonNullableLiteral :=
  readsBack_token Node.same_nonNullableLiteral_iff (fun {k} _ _ => reads_mark rfl k)
    Phrase.Prefixed.bangAlone_iff ⟨rfl, by simp [Node.nesting]⟩

theorem readsBack_string (value : Text) : ReadsBack (room + 1) (Prefixed type) (.string value) :=
  readsBack_token Node.same_string_iff (fun {k} _ _ => Lexer.reads_quote value k)
    (fun {_ _} => (Phrase.Prefixed.basic_iff rfl).trans Phrase.Basic.string_iff)
    ⟨rfl, by simp [Node.nesting]⟩

theorem readsBack_word {node : Node} {text : Text} (word : node.word? = some text) :
    ReadsBack (room + 1) (Prefixed type) node := by
  have properties : node.isUnmarked = true ∧ node.isReadable = true ∧ node.nesting = 1 := by
    unfold Node.word? at word
    split at word <;> cases word <;> exact ⟨rfl, rfl, rfl⟩
  obtain ⟨unmarked, readable, nesting⟩ := properties
  refine readsBack_token (Node.same_word_iff word) (fun {k ts} follows => ?_)
    (fun {_ _} => (Phrase.Prefixed.basic_iff unmarked).trans (Phrase.Basic.word_iff word))
    ⟨readable, by omega⟩
  rw [Node.render_word word]
  exact Lexer.reads_plain (isPlainName_word word) follows.stops (follows.head_ne (by decide))

theorem readsBack_number (value : Binary64) :
    ReadsBack (room + 1) (Prefixed type) (.number value) := by
  intro k us follows
  have fits : (Node.number value).Fits (room + 1) ↔ value.isFinite = true := by
    simp [Node.Fits, Node.isReadable, Node.nesting]
  rw [Spells, fits, Node.render_number]
  by_cases finite : value.isFinite = true
  · obtain ⟨w, same, reads⟩ := Lexer.reads_write finite follows.stops
    constructor
    · rintro ⟨ts, other, read, derives, equal⟩
      obtain ⟨right, rfl, -⟩ := Node.same_number_iff.1 equal
      obtain ⟨vs, rfl, others⟩ := reads.1 read
      obtain ⟨-, rfl⟩ :=
        List.cons.inj (Phrase.Basic.number_iff.1 ((Phrase.Prefixed.basic_iff rfl).1 derives))
      exact ⟨finite, others⟩
    · rintro ⟨-, others⟩
      exact ⟨_, .number w, reads.2 ⟨us, rfl, others⟩,
        (Phrase.Prefixed.basic_iff rfl).2 (Phrase.Basic.number_iff.2 rfl),
        Node.same_number_iff.2 ⟨w, rfl, same⟩⟩
  · constructor
    · rintro ⟨ts, other, read, derives, equal⟩
      obtain ⟨right, rfl, -⟩ := Node.same_number_iff.1 equal
      rw [Phrase.Basic.number_iff.1 ((Phrase.Prefixed.basic_iff rfl).1 derives)] at read
      exact absurd read
        (Lexer.not_reads_write (by simpa using finite) follows.stops (follows.head_ne (by decide)))
    · rintro ⟨finite', -⟩
      exact absurd finite' finite

theorem readsBack_name (text : Text) : ReadsBack (room + 1) (Prefixed type) (.name text) := by
  intro k us follows
  have fits : (Node.name text).Fits (room + 1) ↔
      Lexer.isSpellable text = true ∧ Grammar.literal? text = none := by
    simp [Node.Fits, Node.isReadable, Node.nesting]
  have noAngle : k.head? ≠ some '<' := follows.head_ne (by decide)
  rw [Spells, fits, Node.render_name]
  constructor
  · rintro ⟨ts, other, read, derives, equal⟩
    obtain rfl := Node.same_name_iff.1 equal
    obtain ⟨rfl, free, -⟩ := Phrase.Basic.name_iff.1 ((Phrase.Prefixed.basic_iff rfl).1 derives)
    obtain ⟨⟨spellable, -⟩, others⟩ := (Lexer.reads_nameText follows.stops).1 read
    exact ⟨⟨spellable, free⟩, others⟩
  · rintro ⟨⟨spellable, free⟩, others⟩
    have noCall : text = "function".toList → us.head? ≠ some .leftParen := by
      intro _ first
      obtain ⟨vs, rfl⟩ := List.head?_eq_some_iff.1 first
      exact (follows.reads_head others).1 rfl
    refine ⟨.name text :: us, .name text, ?_, ?_, Node.same_name_iff.2 rfl⟩
    · exact (Lexer.reads_nameText follows.stops).2
        ⟨⟨spellable, fun opens => absurd opens noAngle⟩, others⟩
    · exact (Phrase.Prefixed.basic_iff rfl).2 (Phrase.Basic.name_iff.2 ⟨rfl, free, noCall⟩)

end Leaves

section Marks

variable {type : Phrase Node} {room : Nat} {node : Node}

theorem readsBack_leading {mark : Node → Node} {c : Char} {kind : Token.Kind}
    (single : Token.Kind.ofChar? c = some kind) (spelled : (mark node).render = c :: node.render)
    (fits : (mark node).Fits room ↔ node.Fits room)
    (right : ∀ {other : Node}, (mark node).same other = true ↔
      ∃ right, other = mark right ∧ node.same right = true)
    (derived : ∀ {ts us : List Token.Kind} {right : Node}, Prefixed type ts us (mark right) ↔
      ∃ vs, ts = kind :: vs ∧ Postfixed type vs us right)
    (plain : node.isLeading = false) (inner : ReadsBack room (Prefixed type) node) :
    ReadsBack room (Prefixed type) (mark node) := by
  intro k us follows
  have spells := inner us follows
  rw [Spells, spelled, fits]
  constructor
  · rintro ⟨ts, other, read, derives, equal⟩
    obtain ⟨bare, rfl, same⟩ := right.1 equal
    obtain ⟨vs, rfl, unled⟩ := derived.1 derives
    have behind := ((reads_mark_cons single).1 read).2
    exact spells.1 ⟨vs, bare, behind, .plain unled, same⟩
  · intro both
    obtain ⟨vs, bare, behind, derives, same⟩ := spells.2 both
    have unled := (Phrase.Prefixed.postfixed_iff ((Node.alike_of_same same).leading.trans plain)).1 derives
    exact ⟨kind :: vs, mark bare, (reads_mark_cons single).2 ⟨rfl, behind⟩,
      derived.2 ⟨vs, rfl, unled⟩, right.2 ⟨bare, rfl, same⟩⟩

theorem readsBack_leadingNullable (plain : node.isLeading = false)
    (inner : ReadsBack room (Prefixed type) node) :
    ReadsBack room (Prefixed type) (.nullable node true) :=
  readsBack_leading rfl (Node.render_leadingNullable node) Iff.rfl Node.same_nullable_iff
    Phrase.Prefixed.question_iff plain inner

theorem readsBack_leadingNonNullable (plain : node.isLeading = false)
    (inner : ReadsBack room (Prefixed type) node) :
    ReadsBack room (Prefixed type) (.nonNullable node true) :=
  readsBack_leading rfl (Node.render_leadingNonNullable node) Iff.rfl Node.same_nonNullable_iff
    Phrase.Prefixed.bang_iff plain inner

theorem Phrase.Prefixed.trailed_iff {other : Node} {ts us : List Token.Kind}
    (plain : node.isLeading = false) (closed : node.hasResult = false)
    (same : node.same other = true) : Prefixed type ts us other ↔ Trailed type ts us other := by
  obtain ⟨leading, result, -⟩ := Node.alike_of_same same
  rw [Phrase.Prefixed.postfixed_iff (leading.trans plain),
    Phrase.Postfixed.trailed_iff (result.trans closed)]

theorem readsBack_trailing {mark : Node → Node} {c : Char} {kind : Token.Kind}
    (single : Token.Kind.ofChar? c = some kind) (follower : c ∈ followers)
    (spelled : (mark node).render = node.render ++ [c])
    (fits : (mark node).Fits room ↔ node.Fits room)
    (right : ∀ {other : Node}, (mark node).same other = true ↔
      ∃ right, other = mark right ∧ node.same right = true)
    (unled : ∀ right, (mark right).isLeading = false)
    (unended : ∀ right, (mark right).hasResult = false)
    (derived : ∀ {ts us : List Token.Kind} {right : Node},
      Trailed type ts us (mark right) ↔ Trailed type ts (kind :: us) right)
    (plain : node.isLeading = false) (closed : node.hasResult = false)
    (inner : ReadsBack room (Prefixed type) node) : ReadsBack room (Prefixed type) (mark node) := by
  intro k us follows
  have spells := inner (k := c :: k) (kind :: us) (.cons follower k)
  simp only [Spells, reads_mark_cons single, true_and] at spells
  rw [Spells, spelled, fits, List.append_assoc]
  constructor
  · rintro ⟨ts, other, read, derives, equal⟩
    obtain ⟨bare, rfl, same⟩ := right.1 equal
    have unmarked := (Phrase.Prefixed.postfixed_iff (unled bare)).1 derives
    have trailed := derived.1 ((Phrase.Postfixed.trailed_iff (unended bare)).1 unmarked)
    exact spells.1 ⟨ts, bare, read, .plain (.trailed trailed), same⟩
  · intro both
    obtain ⟨ts, bare, read, derives, same⟩ := spells.2 both
    have trailed := (Phrase.Prefixed.trailed_iff plain closed same).1 derives
    exact ⟨ts, mark bare, read, .plain (.trailed (derived.2 trailed)), right.2 ⟨bare, rfl, same⟩⟩

theorem readsBack_nullable (plain : node.isLeading = false) (closed : node.hasResult = false)
    (inner : ReadsBack room (Prefixed type) node) :
    ReadsBack room (Prefixed type) (.nullable node false) :=
  readsBack_trailing rfl (by decide) (Node.render_nullable node) Iff.rfl Node.same_nullable_iff
    (fun _ => rfl) (fun _ => rfl) Phrase.Trailed.question_iff plain closed inner

theorem readsBack_nonNullable (plain : node.isLeading = false) (closed : node.hasResult = false)
    (inner : ReadsBack room (Prefixed type) node) :
    ReadsBack room (Prefixed type) (.nonNullable node false) :=
  readsBack_trailing rfl (by decide) (Node.render_nonNullable node) Iff.rfl Node.same_nonNullable_iff
    (fun _ => rfl) (fun _ => rfl) Phrase.Trailed.bang_iff plain closed inner

end Marks

section Enclosed

variable {type : Phrase Node} {room : Nat}

/-- A node between two marks is read back if what stands between them is. -/
theorem readsBack_enclosed {α : Type} {inner : Phrase α} {make : α → Node} {right : α → Prop}
    {node : Node} {opener closer : Char} {opening closing : Token.Kind} {body : Text} {condition : Prop}
    (opens : Token.Kind.ofChar? opener = some opening)
    (closes : Token.Kind.ofChar? closer = some closing)
    (text : node.render = opener :: (body ++ [closer])) (fits : node.Fits room ↔ condition)
    (same : ∀ {other : Node}, node.same other = true ↔ ∃ a, other = make a ∧ right a)
    (derives : ∀ {ts us : List Token.Kind} {a : α}, Prefixed type ts us (make a) ↔
      ∃ vs, ts = opening :: vs ∧ inner vs (closing :: us) a)
    (between : ∀ (k : Text) (us : List Token.Kind),
      Spells inner body right condition (closer :: k) (closing :: us)) :
    ReadsBack room (Prefixed type) node := by
  intro k us _
  have here := between k us
  simp only [Spells, reads_mark_cons closes, true_and] at here
  rw [Spells, fits, text, List.cons_append, List.append_assoc, List.singleton_append]
  constructor
  · rintro ⟨ts, other, read, derived, equal⟩
    obtain ⟨a, rfl, good⟩ := same.1 equal
    obtain ⟨vs, rfl, inside⟩ := derives.1 derived
    exact here.1 ⟨vs, a, ((reads_mark_cons opens).1 read).2, inside, good⟩
  · intro both
    obtain ⟨vs, a, read, inside, good⟩ := here.2 both
    exact ⟨opening :: vs, make a, (reads_mark_cons opens).2 ⟨rfl, read⟩,
      derives.2 ⟨vs, rfl, inside⟩, same.2 ⟨a, rfl, good⟩⟩

end Enclosed

section Unions

variable {type : Phrase Node} {room : Nat}

theorem readsBack_union_of_type {node : Node}
    (lefts : Phrase.LeftsFrom type node.render node.lefts) (inner : ReadsBack room type node) :
    ReadsBack room (Phrase.Union type) node := by
  intro k us follows
  have spells := inner us follows
  constructor
  · rintro ⟨ts, other, read, derives, same⟩
    cases derives with
    | single only => exact spells.1 ⟨ts, other, read, only, same⟩
    | @several _ vs _ first more head tail =>
        -- the node would have to begin with a union that its spelling has no parenthesis for
        have below := lefts read head (.cons (by simp) (by simp) vs)
        have outline := (Node.alike_of_same same).lefts
        simp only [Node.lefts, Node.leftsFirst] at outline
        omega
  · intro both
    obtain ⟨ts, other, read, derives, same⟩ := spells.2 both
    exact ⟨ts, other, read, .single derives, same⟩

theorem spells_members {nodes : List Node} (each : ∀ node ∈ nodes, ReadsBack room type node) (k : Text)
    (us : List Token.Kind) :
    Spells (Phrase.Members type) (Text.join ['|'] (nodes.map Node.render))
      (List.Forall₂ (fun a b => a.same b = true) nodes) (∀ node ∈ nodes, node.Fits room)
      (')' :: k) (.rightParen :: us) := by
  cases nodes with
  | nil =>
      constructor
      · rintro ⟨ts, others, read, members, same⟩
        cases same
        cases members with
        | empty => exact ⟨by simp, read⟩
        | several separated => exact absurd rfl separated.ne_nil
      · rintro ⟨-, read⟩
        exact ⟨_, [], read, .empty, .nil⟩
  | cons node nodes =>
      have items : ∀ {vs : List Token.Kind}, Spells (Phrase.Separated type .pipe)
          (Text.join ['|'] ((node :: nodes).map Node.render))
          (List.Forall₂ (fun a b => a.same b = true) (node :: nodes))
          (∀ a ∈ node :: nodes, a.Fits room) (')' :: k) vs :=
        spells_separated rfl (by decide) (.inl rfl) (fun a inside => each a inside) (by simp)
          (.cons (by decide) k)
      constructor
      · rintro ⟨ts, others, read, members, same⟩
        cases members with
        | empty => cases same
        | several separated => exact items.1 ⟨ts, others, read, separated, same⟩
      · intro both
        obtain ⟨ts, others, read, separated, same⟩ := items.2 both
        exact ⟨ts, others, read, .several separated, same⟩

theorem readsBack_union {nodes : List Node} (each : ∀ node ∈ nodes, ReadsBack room type node) :
    ReadsBack (room + 1) (Prefixed type) (.union nodes) := by
  have fits : (Node.union nodes).Fits (room + 1) ↔ ∀ node ∈ nodes, node.Fits room := by
    rw [Node.allFit_iff]
    simp [Node.Fits, Node.isReadable, Node.nesting]
  exact readsBack_enclosed rfl rfl (Node.render_union nodes) fits
    (Node.same_union_iff.trans (by simp only [Node.sameList_iff]))
    ((Phrase.Prefixed.basic_iff rfl).trans Phrase.Basic.union_iff)
    (spells_members each)

end Unions

section Arrays

variable {type : Phrase Node} {room : Nat}

theorem Layered.not_rest {node : Node} (layered : Layered .type node) : node.isRest = false := by
  cases layered with
  | type inner =>
      cases inner with
      | trailed inner => cases inner <;> rfl
      | _ => rfl
  | _ => rfl

/-- The elements up to the closing bracket, with the comma behind a single one. -/
theorem spells_elements {nodes : List Node} (plain : ∀ node ∈ nodes, node.isRest = false)
    (each : ∀ node ∈ nodes, ReadsBack room type node) (k : Text) (us : List Token.Kind) :
    Spells (Phrase.Elements type)
      (Text.join Node.commaBlank (nodes.map Node.render) ++ (Node.listEnd nodes).dropLast)
      (List.Forall₂ (fun a b => a.same b = true) nodes) (∀ node ∈ nodes, node.Fits room)
      (']' :: k) (.rightBracket :: us) := by
  have items : Spells (Phrase.Listed type)
      (Text.join Node.commaBlank (nodes.map Node.render) ++ (Node.listEnd nodes).dropLast)
      (List.Forall₂ (fun a b => a.same b = true) nodes) (∀ node ∈ nodes, node.Fits room)
      (']' :: k) (.rightBracket :: us) := by
    have several := spells_listed (show Token.Kind.ofChar? ']' = some .rightBracket from rfl)
      (by decide) (by simp) (fun a inside => each a inside) k us
    rcases nodes with _ | ⟨first, _ | ⟨second, more⟩⟩
    · simpa [Node.listEnd] using several
    · have alone := spells_listed_comma (show Token.Kind.rightBracket ≠ .comma by simp)
        (fun a inside => each a inside) (by simp) (']' :: k) us
      have single : (Node.listEnd [first]).dropLast = [','] := by
        simp [Node.listEnd, plain first List.mem_cons_self]
      rw [single]
      exact alone
    · simpa [Node.listEnd] using several
  constructor
  · rintro ⟨ts, others, read, elements, same⟩
    cases elements with
    | listed all => exact items.1 ⟨ts, others, read, all, same⟩
    | rest front last comma =>
        obtain ⟨early, node, rfl, -, right⟩ := exists_append_singleton_of_forall₂ same.flip
        obtain ⟨left, rfl, -⟩ := Node.same_rest_right right
        cases plain (.rest left) (by simp)
  · intro both
    obtain ⟨ts, others, read, all, same⟩ := items.2 both
    exact ⟨ts, others, read, .listed all, same⟩

theorem Node.array_fits_iff {nodes : List Node} :
    (Node.array nodes).Fits (room + 1) ↔ ∀ node ∈ nodes, node.Fits room := by
  rw [Node.allFit_iff]
  simp [Node.Fits, Node.isReadable, Node.nesting]

theorem readsBack_array {nodes : List Node} (plain : ∀ node ∈ nodes, node.isRest = false)
    (each : ∀ node ∈ nodes, ReadsBack room type node) :
    ReadsBack (room + 1) (Prefixed type) (.array nodes) := by
  have ending : Node.listEnd nodes = (Node.listEnd nodes).dropLast ++ [']'] := by
    rcases nodes with _ | ⟨first, _ | ⟨second, more⟩⟩
    · rfl
    · simp [Node.listEnd, plain first List.mem_cons_self]
    · rfl
  have text : (Node.array nodes).render = '[' ::
      ((Text.join Node.commaBlank (nodes.map Node.render) ++ (Node.listEnd nodes).dropLast) ++ [']']) := by
    rw [Node.render_array, List.append_assoc, ← ending]
  exact readsBack_enclosed rfl rfl text Node.array_fits_iff
    (Node.same_array_iff.trans (by simp only [Node.sameList_iff]))
    ((Phrase.Prefixed.basic_iff rfl).trans Phrase.Basic.array_iff)
    (spells_elements plain each)

theorem spells_elements_rest {nodes : List Node} {last : Node}
    (makes : Phrase.Makes type (Layered .type)) (each : ∀ node ∈ nodes, ReadsBack room type node)
    (rest : ReadsBack room type last) (k : Text) (us : List Token.Kind) :
    Spells (Phrase.Elements type)
      ((nodes.flatMap fun node => node.render ++ Node.commaBlank) ++ '.' :: '.' :: '.' :: last.render)
      (List.Forall₂ (fun a b => a.same b = true) (nodes ++ [.rest last]))
      ((∀ node ∈ nodes, node.Fits room) ∧ last.Fits room) (']' :: k) (.rightBracket :: us) := by
  have bracket : Token.Kind.ofChar? ']' = some .rightBracket := rfl
  have front : ∀ {vs : List Token.Kind}, Spells (Phrase.Ended type)
      (nodes.flatMap fun node => node.render ++ Node.commaBlank)
      (List.Forall₂ (fun a b => a.same b = true) nodes) (∀ node ∈ nodes, node.Fits room)
      ('.' :: '.' :: '.' :: (last.render ++ ']' :: k)) vs :=
    spells_ended fun a inside => each a inside
  have spells : ∀ {vs : List Token.Kind}, Spells type last.render
      (fun other => last.same other = true) (last.Fits room) (']' :: k) vs :=
    rest _ (.cons (by decide) k)
  rw [Spells, List.append_assoc]
  simp only [List.cons_append]
  constructor
  · rintro ⟨ts, others, read, elements, same⟩
    obtain ⟨early, marked, rfl, related, markedSame⟩ := exists_append_singleton_of_forall₂ same
    obtain ⟨right, rfl, lastSame⟩ := Node.same_rest_iff.1 markedSame
    generalize shape : early ++ [.rest right] = others at elements
    cases elements with
    | listed all =>
        have unmarked := (all.forall makes (.rest right) (by simp [← shape])).not_rest
        cases unmarked
    | rest front' last' comma =>
        obtain ⟨rfl, equal⟩ := List.append_inj' shape rfl
        cases equal
        obtain ⟨goods, dots⟩ := front.1 ⟨ts, early, read, front', related⟩
        obtain ⟨_, same, others⟩ := (Lexer.reads_ellipsis _).1 dots
        obtain ⟨-, rfl⟩ := List.cons.inj same
        obtain ⟨good, closing⟩ := spells.1 ⟨_, right, others, last', lastSame⟩
        cases comma with
        | absent => exact ⟨⟨goods, good⟩, closing⟩
        | present => cases ((reads_mark_cons bracket).1 closing).1
  · rintro ⟨⟨goods, good⟩, closing⟩
    obtain ⟨ws, right, others, last', lastSame⟩ := spells.2 ⟨good, closing⟩
    obtain ⟨vs, early, read, front', related⟩ :=
      front.2 ⟨goods, (Lexer.reads_ellipsis _).2 ⟨ws, rfl, others⟩⟩
    exact ⟨vs, early ++ [.rest right], read, .rest front' last' .absent,
      forall₂_append_singleton.2 ⟨related, Node.same_rest_iff.2 ⟨right, rfl, lastSame⟩⟩⟩

theorem readsBack_arrayRest {nodes : List Node} {last : Node}
    (makes : Phrase.Makes type (Layered .type)) (each : ∀ node ∈ nodes, ReadsBack room type node)
    (rest : ReadsBack room type last) :
    ReadsBack (room + 1) (Prefixed type) (.array (nodes ++ [.rest last])) := by
  have fits : (Node.array (nodes ++ [.rest last])).Fits (room + 1) ↔
      (∀ node ∈ nodes, node.Fits room) ∧ last.Fits room := by
    have marked : (Node.rest last).Fits room ↔ last.Fits room := by
      simp [Node.Fits, Node.isReadable, Node.nesting]
    rw [Node.array_fits_iff]
    simp [or_imp, forall_and, marked]
  have ending : Node.listEnd (nodes ++ [.rest last]) = [']'] := by
    rcases nodes with _ | ⟨first, _ | ⟨second, more⟩⟩ <;> rfl
  have text : (Node.array (nodes ++ [.rest last])).render =
      '[' :: (((nodes.flatMap fun node => node.render ++ Node.commaBlank) ++
        '.' :: '.' :: '.' :: last.render) ++ [']']) := by
    rw [Node.render_array, ending, List.map_append, List.map_singleton, Text.join_append_singleton,
      Node.render_rest]
    simp [List.flatMap_map]
  exact readsBack_enclosed rfl rfl text fits
    (Node.same_array_iff.trans (by simp only [Node.sameList_iff]))
    ((Phrase.Prefixed.basic_iff rfl).trans Phrase.Basic.array_iff)
    (spells_elements_rest makes each rest)

end Arrays

section Records

variable {type : Phrase Node} {room : Nat}

theorem Node.optionFits_iff {node : Option Node} : (∀ value ∈ node, value.Fits room) ↔
    Node.optionReadable node = true ∧ Node.nestingOption node ≤ room := by
  cases node <;> simp [Node.optionReadable, Node.nestingOption, Node.Fits]

theorem Node.fieldsFit_iff {fields : List Field} :
    (∀ field ∈ fields, ∀ value ∈ field.value, value.Fits room) ↔
      Node.fieldsReadable fields = true ∧ Node.nestingFields fields ≤ room := by
  induction fields with
  | nil => simp [Node.fieldsReadable, Node.nestingFields]
  | cons field fields induction =>
      obtain ⟨key, value⟩ := field
      rw [List.forall_mem_cons, induction, Field.value, Node.optionFits_iff]
      simp only [Node.fieldsReadable, Node.nestingFields, Bool.and_eq_true, Nat.max_le]
      exact and_and_and_comm

theorem spells_entry {field : Field} (inner : ∀ value ∈ field.value, ReadsBack room type value)
    {k : Text} {us : List Token.Kind} (follows : Follows k) :
    Spells (Phrase.Entry type) field.render (Field.Same field)
      (∀ value ∈ field.value, value.Fits room) k us := by
  obtain ⟨key, value⟩ := field
  obtain ⟨token, spelled, reads⟩ := Lexer.reads_keyText key
  cases value with
  | none =>
      have noAngle : k.head? ≠ some '<' := follows.head_ne (by decide)
      rw [Spells, Field.render]
      constructor
      · rintro ⟨ts, ⟨key', value'⟩, read, derives, -, same⟩
        obtain rfl := Node.sameOption_none_iff.1 same
        obtain ⟨vs, rfl, others⟩ := (reads follows.stops noAngle).1 read
        cases derives with
        | alone => exact ⟨by simp [Field.value], others⟩
      · rintro ⟨-, others⟩
        exact ⟨token :: us, .mk key none, (reads follows.stops noAngle).2 ⟨us, rfl, others⟩,
          .alone spelled, rfl, Node.sameOption_none_iff.2 rfl⟩
  | some value =>
      have colon : Token.Kind.ofChar? ':' = some .colon := rfl
      have spells := inner value rfl us follows
      have label : ∀ {ts : List Token.Kind}, Reads (keyText key ++ ':' :: ' ' :: (value.render ++ k)) ts ↔
          ∃ vs, ts = token :: .colon :: vs ∧ Reads (value.render ++ k) vs := by
        intro ts
        rw [reads (.cons (by decide) _) (by simp)]
        simp only [reads_mark colon, reads_blank]
        constructor
        · rintro ⟨_, rfl, vs, rfl, others⟩
          exact ⟨vs, rfl, others⟩
        · rintro ⟨vs, rfl, others⟩
          exact ⟨_, rfl, vs, rfl, others⟩
      have text : Field.render (.mk key (some value)) ++ k =
          keyText key ++ ':' :: ' ' :: (value.render ++ k) := by
        simp [Field.render]
      have fits : (∀ node ∈ (Field.mk key (some value)).value, node.Fits room) ↔ value.Fits room := by
        simp [Field.value]
      rw [Spells, fits, text]
      constructor
      · rintro ⟨ts, ⟨key', value'⟩, read, derives, -, valueSame⟩
        obtain ⟨right, rfl, same⟩ := Node.sameOption_some_iff.1 valueSame
        obtain ⟨vs, rfl, others⟩ := label.1 read
        cases derives with
        | typed _ derives => exact spells.1 ⟨vs, right, others, derives, same⟩
      · intro both
        obtain ⟨vs, right, others, derives, same⟩ := spells.2 both
        exact ⟨token :: .colon :: vs, .mk key (some right), label.2 ⟨vs, rfl, others⟩,
          .typed spelled derives, rfl, Node.sameOption_some_iff.2 ⟨right, rfl, same⟩⟩

theorem spells_entries {fields : List Field}
    (each : ∀ field ∈ fields, ∀ value ∈ field.value, ReadsBack room type value) (k : Text)
    (us : List Token.Kind) :
    Spells (Phrase.Entries type) (Text.join Node.commaBlank (fields.map Field.render))
      (List.Forall₂ Field.Same fields) (∀ field ∈ fields, ∀ value ∈ field.value, value.Fits room)
      ('}' :: k) (.rightBrace :: us) := by
  have brace : Token.Kind.ofChar? '}' = some .rightBrace := rfl
  have items := spells_listed brace (by decide) (by simp)
    (fun field inside _ _ => spells_entry (each field inside)) k us
  constructor
  · rintro ⟨ts, others, read, entries, same⟩
    cases entries with
    | comma =>
        cases same
        cases ((reads_mark_cons brace).1 read).1
    | listed all => exact items.1 ⟨ts, others, read, all, same⟩
  · intro both
    obtain ⟨ts, others, read, all, same⟩ := items.2 both
    exact ⟨ts, others, read, .listed all, same⟩

theorem readsBack_record {fields : List Field}
    (each : ∀ field ∈ fields, ∀ value ∈ field.value, ReadsBack room type value) :
    ReadsBack (room + 1) (Prefixed type) (.record fields) := by
  have fits : (Node.record fields).Fits (room + 1) ↔
      ∀ field ∈ fields, ∀ value ∈ field.value, value.Fits room := by
    rw [Node.fieldsFit_iff]
    simp [Node.Fits, Node.isReadable, Node.nesting]
  exact readsBack_enclosed rfl rfl (Node.render_record fields) fits
    (Node.same_record_iff.trans (by simp only [Node.sameFields_iff]))
    ((Phrase.Prefixed.basic_iff rfl).trans Phrase.Basic.record_iff)
    (spells_entries each)

end Records

section Applications

variable {type : Phrase Node} {room : Nat}

theorem readsBack_application {text : Text} {nodes : List Node} (any : nodes ≠ [])
    (lefts : Phrase.LeftsFrom (Prefixed type) (Node.application (.name text) nodes).render
      (Node.application (.name text) nodes).lefts)
    (each : ∀ node ∈ nodes, ReadsBack room (Phrase.Union type) node) :
    ReadsBack (room + 1) (Prefixed type) (.application (.name text) nodes) := by
  intro k us follows
  have fits : (Node.application (.name text) nodes).Fits (room + 1) ↔
      ((Lexer.isSpellable text = true ∧ Grammar.literal? text = none) ∧
        (isPlainName text = true → text.getLast? ≠ some '.')) ∧ ∀ node ∈ nodes, node.Fits room := by
    have point : (Node.name text).losesPoint = false ↔
        (isPlainName text = true → text.getLast? ≠ some '.') := by
      cases plain : isPlainName text <;> simp [Node.losesPoint, plain]
    rw [Node.allFit_iff, ← point]
    simp [Node.Fits, Node.isReadable, Node.nesting, and_assoc]
  have less : Token.Kind.ofChar? '<' = some .less := rfl
  have greater : Token.Kind.ofChar? '>' = some .greater := rfl
  have items : ∀ {vs : List Token.Kind}, Spells (Phrase.Separated (Phrase.Union type) .comma)
      (Text.join Node.commaBlank (nodes.map Node.render))
      (List.Forall₂ (fun a b => a.same b = true) nodes) (∀ node ∈ nodes, node.Fits room)
      ('>' :: k) (.greater :: vs) :=
    spells_separated rfl (by decide) (.inr rfl) (fun a inside => each a inside) any
      (.cons (by decide) k)
  simp only [Spells, reads_mark_cons greater, true_and] at items
  have written : (Node.application (.name text) nodes).render ++ k =
      nameText text ++ '<' :: (Text.join Node.commaBlank (nodes.map Node.render) ++ '>' :: k) := by
    rw [Node.render_application]
    simp
  have head : ∀ {vs : List Token.Kind}, Reads (nameText text ++
      '<' :: (Text.join Node.commaBlank (nodes.map Node.render) ++ '>' :: k)) (.name text :: vs) ↔
      (Lexer.isSpellable text = true ∧ (isPlainName text = true → text.getLast? ≠ some '.')) ∧
        Reads ('<' :: (Text.join Node.commaBlank (nodes.map Node.render) ++ '>' :: k)) vs := by
    intro vs
    rw [Lexer.reads_nameText (.cons (by decide) _)]
    simp
  rw [Spells, fits]
  constructor
  · rintro ⟨ts, other, read, derives, equal⟩
    obtain ⟨_, others, rfl, heads, same⟩ := Node.same_application_iff.1 equal
    obtain rfl := Node.same_name_iff.1 heads
    rcases Phrase.Prefixed.application_iff.1 derives with
      ⟨token, vs, rfl, free, -, arguments⟩ | ⟨inner, shape, trailed⟩
    · rw [written] at read
      obtain ⟨⟨spellable, point⟩, behind⟩ := head.1 read
      obtain ⟨rfl, inside⟩ := (reads_mark_cons less).1 behind
      obtain ⟨goods, after⟩ := items.1 ⟨vs, others, inside, arguments, Node.sameList_iff.1 same⟩
      exact ⟨⟨⟨⟨spellable, free⟩, point⟩, goods⟩, after⟩
    -- read with brackets, the list would begin with one list more than it is spelled with
    · have below := lefts read (.plain (.trailed trailed)) (.cons (by simp) (by simp) _)
      have outline := (Node.alike_of_same equal).lefts
      rw [shape, lefts_arrayOf] at outline
      omega
  · rintro ⟨⟨⟨⟨spellable, free⟩, point⟩, goods⟩, behind⟩
    obtain ⟨vs, others, behind, arguments, same⟩ := items.2 ⟨goods, behind⟩
    refine ⟨.name text :: .less :: vs, .application (.name text) others, ?_,
      .plain (.trailed (.basic (.application free (.inl rfl) arguments))), ?_⟩
    · rw [written]
      exact head.2 ⟨⟨spellable, point⟩, (reads_mark_cons less).2 ⟨rfl, behind⟩⟩
    · exact Node.same_application_iff.2
        ⟨_, others, rfl, Node.same_name_iff.2 rfl, Node.sameList_iff.2 same⟩

end Applications

end Docblock.TypeExpr
