import Docblock.Proofs.TypeExpr.Phrase
import Docblock.Proofs.TypeExpr.Production
import Docblock.Proofs.TypeExpr.Stream

/-!
# The productions read every phrase

Where a session stands at the tokens of a phrase, the production of its kind reads all of them and
returns its value, provided that the tokens behind the phrase do not continue it. Each kind of phrase
says by its follow condition which tokens these are.
-/

set_option autoImplicit false

namespace Docblock.TypeExpr

open Yields

/-- Going from the first session to the second passes tokens, so that the given ones are left, and no
delimiter stays open that was not open before. -/
structure Session.Reaches (s t : Session) (after : List Token.Kind) : Prop where
  stands : t.At after
  opened : t.opened = s.opened
  shorter : t.left ≤ s.left

namespace Session.Reaches

variable {r s t : Session} {middle after : List Token.Kind}

theorem refl (stands : s.At after) : s.Reaches s after := ⟨stands, rfl, Nat.le_refl _⟩

theorem trans (first : r.Reaches s middle) (second : s.Reaches t after) : r.Reaches t after :=
  ⟨second.stands, second.opened.trans first.opened, Nat.le_trans second.shorter first.shorter⟩

end Session.Reaches

namespace Yields

variable {s : Session} {kind : Token.Kind} {after : List Token.Kind}

theorem advance_reaches (stands : s.At (kind :: after)) (inside : kind ≠ .eof) :
    ∃ t, Yields Parser.advance s () t ∧ s.Reaches t after ∧ t.left < s.left := by
  obtain ⟨t, step, stands', opened⟩ := advance_at stands inside
  have less := advance_left step (stands.head.symm ▸ inside)
  exact ⟨t, step, ⟨stands', opened, Nat.le_of_lt less⟩, less⟩

theorem expect_reaches (stands : s.At (kind :: after)) (inside : kind ≠ .eof) :
    ∃ t, Yields (Parser.expect kind) s () t ∧ s.Reaches t after ∧ t.left < s.left := by
  obtain ⟨t, step, reaches⟩ := advance_reaches stands inside
  exact ⟨t, expect_iff.2 ⟨stands.head, step⟩, reaches⟩

theorem openWith_at (delimiter : Delimiter) (stands : s.At (kind :: after)) (inside : kind ≠ .eof) :
    ∃ t, Yields (Parser.openWith delimiter) s () t ∧ t.At after ∧
      t.opened = ⟨delimiter, s.token.place⟩ :: s.opened ∧ t.left < s.left := by
  have stands' : ({ s with opened := ⟨delimiter, s.token.place⟩ :: s.opened } : Session).At
      (kind :: after) := stands.transfer rfl rfl
  obtain ⟨t, step, reaches, less⟩ := advance_reaches stands' inside
  exact ⟨t, openWith_iff.2 step, reaches.stands, reaches.opened, less⟩

theorem closeWith_at {d : Delimiter} (stands : s.At (d.closing :: after)) :
    ∃ t, Yields (Parser.closeWith d) s () t ∧ t.At after ∧ t.opened = s.opened.tail ∧
      t.left < s.left := by
  obtain ⟨t, step, reaches, less⟩ :=
    advance_reaches stands (by cases d <;> simp [Delimiter.closing])
  exact ⟨_, closeWith_iff.2 ⟨stands.head, t, step, rfl⟩, reaches.stands.transfer rfl rfl,
    by rw [reaches.opened], less⟩

theorem enclosed {α : Type} (delimiter : Delimiter) {step : Parser α} {a : α}
    {before : List Token.Kind} (stands : s.At (kind :: before)) (inside : kind ≠ .eof)
    (reads : ∀ {r : Session}, r.At before → r.left < s.left →
      r.opened = ⟨delimiter, s.token.place⟩ :: s.opened →
        ∃ t, Yields step r a t ∧ r.Reaches t (delimiter.closing :: after)) :
    ∃ r₁ r₂ t, Yields (Parser.openWith delimiter) s () r₁ ∧ r₁.At before ∧ Yields step r₁ a r₂ ∧
      Yields (Parser.closeWith delimiter) r₂ () t ∧ s.Reaches t after := by
  obtain ⟨r₁, opens, at₁, opened, less⟩ := openWith_at delimiter stands inside
  obtain ⟨r₂, run, reaches⟩ := reads at₁ less opened
  obtain ⟨t, closes, at₃, opened', less'⟩ := closeWith_at reaches.stands
  have shorter := reaches.shorter
  refine ⟨r₁, r₂, t, opens, at₁, run, closes, at₃, ?_, by omega⟩
  rw [opened', reaches.opened, opened]
  rfl

end Yields

theorem Session.At.begins {s : Session} {kinds : List Token.Kind} {p : Token.Kind → Prop}
    (stands : s.At kinds) (begins : ∃ kind more, kinds = kind :: more ∧ p kind) :
    p s.token.kind := by
  obtain ⟨kind, more, rfl, begins⟩ := begins
  exact stands.head.symm ▸ begins

theorem Session.left_pos_of_begins {s : Session} (begins : Phrase.beginsType s.token.kind = true) :
    0 < s.left := by
  refine Nat.pos_of_ne_zero fun atEnd => ?_
  rw [Session.left_eq_zero_iff.1 atEnd] at begins
  simp [Phrase.beginsType, Phrase.beginsBasic] at begins

/-- Where a type ends before the first of these tokens. A closing angle or bracket ends a type only
where one is open. -/
def endsType (opened : List Opened) : List Token.Kind → Bool
  | .comma :: _ | .equal :: _ | .pipe :: _ | .eof :: _ | .rightBrace :: _ | .rightParen :: _ => true
  | .greater :: _ => opened.any (·.delimiter == .angle)
  | .rightBracket :: _ => opened.any (·.delimiter == .bracket)
  | _ => false

theorem endsType_eq_of_head {opened : List Opened} {after : List Token.Kind} {kind : Token.Kind}
    (head : after.head? = some kind) : endsType opened after = endsType opened [kind] := by
  obtain ⟨more, rfl⟩ := List.head?_eq_some_iff.1 head
  cases kind <;> rfl

theorem Yields.atTypeEnd_at {s : Session} {kinds : List Token.Kind} (stands : s.At kinds) :
    Yields Parser.atTypeEnd s (endsType s.opened kinds) s := by
  obtain ⟨more, rfl⟩ := stands.exists_cons
  simp only [Parser.atTypeEnd, bind_iff, get_iff, pure_iff]
  refine ⟨s, s, ⟨rfl, rfl⟩, ?_, rfl⟩
  cases s.token.kind <;> rfl

/-- On sessions with at most `bound` left, the step reads every phrase that what follows does not
continue. -/
def Complete {α : Type} (bound : Nat) (step : Parser α) (phrase : Phrase α)
    (follow : List Opened → List Token.Kind → Prop) : Prop :=
  ∀ {s : Session} {before after : List Token.Kind} {a : α}, s.At before → s.left ≤ bound →
    phrase before after a → follow s.opened after → ∃ t, Yields step s a t ∧ s.Reaches t after

def FollowsType (opened : List Opened) (after : List Token.Kind) : Prop :=
  endsType opened after = true

def FollowsUnion (opened : List Opened) (after : List Token.Kind) : Prop :=
  endsType opened after = true ∧ after.head? ≠ some .pipe

namespace Grammar

theorem more_nothing {α : Type} {item : Parser α} {separator : Token.Kind}
    {loop : Nat → Parser (List α)} (loops : Parser.MoreLoop item separator loop) {limit : Nat}
    {s : Session} {after : List Token.Kind} (stands : s.At after)
    (other : after.head? ≠ some separator) : Yields (loop limit) s [] s := by
  cases limit with
  | zero =>
      rw [loops.stop]
      exact pure_iff.2 ⟨rfl, rfl⟩
  | succ limit =>
      obtain ⟨more, rfl⟩ := stands.exists_cons
      rw [loops.round, moreRound_iff]
      exact .inl ⟨by simpa using other, rfl, rfl⟩

/-- Items behind separators are read in rounds, until another token comes. -/
theorem more_complete {α : Type} {bound : Nat} {item : Parser α} {phrase : Phrase α}
    {follow : List Opened → List Token.Kind → Prop} {separator : Token.Kind}
    {loop : Nat → Parser (List α)} (itemComplete : Complete bound item phrase follow)
    (inside : separator ≠ .eof) (loops : Parser.MoreLoop item separator loop)
    (between : ∀ opened rest, follow opened (separator :: rest)) {before after : List Token.Kind}
    {as : List α} (derived : Phrase.Separated phrase separator before after as)
    (other : after.head? ≠ some separator) {limit : Nat} (within : limit ≤ bound) {s : Session}
    (stands : s.At (separator :: before)) (enough : s.left ≤ limit)
    (follows : follow s.opened after) :
    ∃ t, Yields (loop limit) s as t ∧ s.Reaches t after := by
  induction derived generalizing limit s with
  | last only =>
      obtain ⟨s₁, step, reaches, less⟩ := advance_reaches stands inside
      obtain ⟨s₂, read, reaches'⟩ :=
        itemComplete reaches.stands (by omega) only (reaches.opened ▸ follows)
      obtain ⟨limit, rfl⟩ : ∃ more, limit = more + 1 := ⟨limit - 1, by omega⟩
      refine ⟨s₂, ?_, reaches.trans reaches'⟩
      rw [loops.round, moreRound_iff]
      exact .inr ⟨stands.head, _, [], s₁, s₂, step, read,
        more_nothing loops reaches'.stands other, rfl⟩
  | more first others induction =>
      obtain ⟨s₁, step, reaches, less⟩ := advance_reaches stands inside
      obtain ⟨s₂, read, reaches'⟩ := itemComplete reaches.stands (by omega) first (between _ _)
      have shorter := reaches'.shorter
      have both := reaches.trans reaches'
      obtain ⟨limit, rfl⟩ : ∃ more, limit = more + 1 := ⟨limit - 1, by omega⟩
      obtain ⟨t, run, reaches''⟩ := induction other (Nat.le_of_succ_le within) reaches'.stands
        (by omega) (both.opened ▸ follows)
      refine ⟨t, ?_, both.trans reaches''⟩
      rw [loops.round, moreRound_iff]
      exact .inr ⟨stands.head, _, _, s₁, s₂, step, read, run, rfl⟩

/-- A loop that reads lists of phrases up to a closing token. Wherever an item may begin, and at the
closing token, it goes round as a list does. -/
structure ListReader {α : Type} (bound : Nat) (item : Parser α) (phrase : Phrase α)
    (closing : Token.Kind) (loop : Nat → Parser (List α)) (opened : List Opened)
    (follow : List Opened → List Token.Kind → Prop) (starts : Token.Kind → Prop) : Prop where
  complete : Complete bound item phrase follow
  begins : ∀ {ts us : List Token.Kind} {a : α}, phrase ts us a →
    ∃ kind more, ts = kind :: more ∧ starts kind
  distinct : ∀ {kind : Token.Kind}, starts kind → kind ≠ closing ∧ kind ≠ .eof
  followsComma : ∀ rest, follow opened (.comma :: rest)
  followsClosing : ∀ rest, follow opened (closing :: rest)
  closing_ne_comma : closing ≠ .comma
  stop : loop 0 = pure []
  round : ∀ {limit : Nat} {s t : Session} {as : List α},
    starts s.token.kind ∨ s.token.kind = closing →
      Yields (Parser.listRound item closing (loop limit)) s as t → Yields (loop (limit + 1)) s as t

namespace ListReader

variable {α : Type} {bound : Nat} {item : Parser α} {phrase : Phrase α} {closing : Token.Kind}
  {loop : Nat → Parser (List α)} {opened : List Opened}
  {follow : List Opened → List Token.Kind → Prop} {starts : Token.Kind → Prop}
  (reader : ListReader bound item phrase closing loop opened follow starts)

include reader

theorem nothing {limit : Nat} {s : Session} {after : List Token.Kind} (stands : s.At (closing :: after)) :
    Yields (loop limit) s [] s := by
  cases limit with
  | zero =>
      rw [reader.stop]
      exact pure_iff.2 ⟨rfl, rfl⟩
  | succ limit => exact reader.round (.inr stands.head) (listRound_iff.2 (.inl ⟨stands.head, rfl, rfl⟩))

theorem another {s : Session} {before after : List Token.Kind} {a : α}
    (derived : phrase before (.comma :: after) a) (stands : s.At before) (enough : s.left ≤ bound)
    (same : s.opened = opened) :
    ∃ r, s.Reaches r after ∧ r.left < s.left ∧ ∀ {limit : Nat} {as : List α} {t : Session},
      Yields (loop limit) r as t → Yields (loop (limit + 1)) s (a :: as) t := by
  obtain ⟨kind, more, rfl, begins⟩ := reader.begins derived
  obtain ⟨r, read, reaches⟩ :=
    reader.complete stands enough derived (same ▸ reader.followsComma after)
  obtain ⟨r', step, reaches', less⟩ := expect_reaches reaches.stands (by simp)
  have shorter := reaches.shorter
  have here := stands.head
  obtain ⟨open', inside⟩ := reader.distinct begins
  refine ⟨r', reaches.trans reaches', by omega, fun others => ?_⟩
  refine reader.round (.inl (here.symm ▸ begins)) (listRound_iff.2 (.inr ⟨here.symm ▸ open',
    here.symm ▸ inside, _, _, r, r', read, .inr ⟨?_, step⟩, others, rfl⟩))
  rw [reaches.stands.head]
  exact Ne.symm reader.closing_ne_comma

theorem last {limit : Nat} {s : Session} {before after : List Token.Kind} {a : α}
    (derived : phrase before (closing :: after) a) (stands : s.At before) (enough : s.left ≤ bound)
    (same : s.opened = opened) :
    ∃ t, Yields (loop (limit + 1)) s [a] t ∧ s.Reaches t (closing :: after) := by
  obtain ⟨kind, more, rfl, begins⟩ := reader.begins derived
  obtain ⟨t, read, reaches⟩ :=
    reader.complete stands enough derived (same ▸ reader.followsClosing after)
  have here := stands.head
  obtain ⟨open', inside⟩ := reader.distinct begins
  refine ⟨t, reader.round (.inl (here.symm ▸ begins)) (listRound_iff.2 (.inr ⟨here.symm ▸ open',
    here.symm ▸ inside, a, [], t, t, read, .inl ⟨reaches.stands.head, rfl⟩, ?_, rfl⟩)), reaches⟩
  exact reader.nothing reaches.stands

theorem left_pos {s : Session} {before after : List Token.Kind} {a : α}
    (derived : phrase before after a) (stands : s.At before) : 0 < s.left := by
  obtain ⟨kind, more, rfl, begins⟩ := reader.begins derived
  have inside := (reader.distinct begins).2
  rw [← stands.head] at inside
  exact Nat.pos_of_ne_zero fun atEnd => inside (Session.left_eq_zero_iff.1 atEnd)

theorem listed {before after : List Token.Kind} {as : List α}
    (derived : Phrase.Listed phrase before (closing :: after) as) {limit : Nat}
    (within : limit ≤ bound) {s : Session} (stands : s.At before) (enough : s.left ≤ limit)
    (same : s.opened = opened) :
    ∃ t, Yields (loop limit) s as t ∧ s.Reaches t (closing :: after) := by
  cases derived with
  | empty => exact ⟨s, reader.nothing stands, .refl stands⟩
  | items separated comma =>
      induction separated generalizing limit s with
      | last only =>
          have positive := reader.left_pos only stands
          obtain ⟨limit, rfl⟩ : ∃ more, limit = more + 1 := ⟨limit - 1, by omega⟩
          cases comma with
          | absent => exact reader.last only stands (by omega) same
          | present =>
              obtain ⟨r, reaches, _, round⟩ := reader.another only stands (by omega) same
              exact ⟨r, round (reader.nothing reaches.stands), reaches⟩
      | more first others induction =>
          have positive := reader.left_pos first stands
          obtain ⟨limit, rfl⟩ : ∃ more, limit = more + 1 := ⟨limit - 1, by omega⟩
          obtain ⟨r, reaches, less, round⟩ := reader.another first stands (by omega) same
          obtain ⟨t, run, reaches'⟩ := induction (Nat.le_of_succ_le within) reaches.stands
            (by omega) (reaches.opened.trans same) comma
          exact ⟨t, round run, reaches.trans reaches'⟩

end ListReader

section

variable {type : Parser Node} {phrase : Phrase Node} {bound : Nat}
  (typeComplete : Complete bound type phrase FollowsType)

section

include typeComplete

theorem union_complete : Complete bound (union type bound) (Phrase.Union phrase) FollowsUnion := by
  intro s before after node stands enough derived follows
  obtain ⟨ends, noPipe⟩ := follows
  simp only [union, bind_iff (p := type), at?_bind_iff]
  cases derived with
  | single only =>
      obtain ⟨t, read, reaches⟩ := typeComplete stands enough only ends
      refine ⟨t, ⟨node, t, read, ?_⟩, reaches⟩
      obtain ⟨more, rfl⟩ := reaches.stands.exists_cons
      rw [if_neg (by simpa using noPipe)]
      exact pure_iff.2 ⟨rfl, rfl⟩
  | several head tail =>
      obtain ⟨r, read, reaches⟩ := typeComplete stands enough head rfl
      have shorter := reaches.shorter
      obtain ⟨t, others, reaches'⟩ := more_complete typeComplete (by simp)
        (moreMembers_loop type) (fun _ _ => rfl) tail noPipe (Nat.le_refl bound) reaches.stands
        (by omega) (show FollowsType _ _ from reaches.opened ▸ ends)
      refine ⟨t, ⟨_, r, read, ?_⟩, reaches.trans reaches'⟩
      rw [if_pos (by simpa using reaches.stands.head)]
      exact bind_iff.2 ⟨_, t, others, pure_iff.2 ⟨rfl, rfl⟩⟩

end

variable (isType : Phrase.IsType phrase)

include typeComplete isType

theorem members_complete {before after : List Token.Kind} {nodes : List Node}
    (derived : Phrase.Separated phrase .pipe before (.rightParen :: after) nodes) {limit : Nat}
    (within : limit ≤ bound) {s : Session} (stands : s.At before) (enough : s.left ≤ limit) :
    ∃ t, Yields (members type limit) s nodes t ∧ s.Reaches t (.rightParen :: after) := by
  generalize shape : Token.Kind.rightParen :: after = rest at derived
  induction derived generalizing limit s with
  | last only =>
      subst shape
      have positive := Session.left_pos_of_begins (stands.begins (isType.begins only))
      obtain ⟨limit, rfl⟩ : ∃ more, limit = more + 1 := ⟨limit - 1, by omega⟩
      obtain ⟨t, read, reaches⟩ := typeComplete stands (by omega) only rfl
      refine ⟨t, ?_, reaches⟩
      simp only [members, bind_iff (p := type), at?_bind_iff]
      refine ⟨_, t, read, ?_⟩
      rw [if_pos (by simpa using reaches.stands.head)]
      exact pure_iff.2 ⟨rfl, rfl⟩
  | more first others induction =>
      have positive := Session.left_pos_of_begins (stands.begins (isType.begins first))
      obtain ⟨limit, rfl⟩ : ∃ more, limit = more + 1 := ⟨limit - 1, by omega⟩
      obtain ⟨r, read, reaches⟩ := typeComplete stands (by omega) first rfl
      obtain ⟨r', step, reaches', less⟩ := expect_reaches reaches.stands (by simp)
      have shorter := reaches.shorter
      obtain ⟨t, run, reaches''⟩ :=
        induction (Nat.le_of_succ_le within) reaches'.stands (by omega) shape
      refine ⟨t, ?_, reaches.trans (reaches'.trans reaches'')⟩
      simp only [members, bind_iff (p := type), at?_bind_iff]
      refine ⟨_, r, read, ?_⟩
      rw [if_neg (by simp [reaches.stands.head])]
      simp only [bind_iff, pure_iff]
      exact ⟨(), r', step, _, t, run, rfl, rfl⟩

theorem parenthesized_complete {s : Session} {before after : List Token.Kind} {nodes : List Node}
    (stands : s.At (.leftParen :: before)) (enough : s.left ≤ bound)
    (derived : Phrase.Members phrase before (.rightParen :: after) nodes) :
    ∃ t, Yields (parenthesized type bound) s (.union nodes) t ∧ s.Reaches t after := by
  simp only [parenthesized, bind_iff (p := Parser.openWith _), at?_bind_iff]
  cases derived with
  | empty =>
      obtain ⟨r₁, r₂, t, opens, at₁, run, closes, reaches⟩ :=
        enclosed .paren stands (by simp) fun at₁ _ _ => ⟨_, pure_iff.2 ⟨rfl, rfl⟩, .refl at₁⟩
      refine ⟨t, ⟨(), r₁, opens, ?_⟩, reaches⟩
      rw [if_pos (by simpa using at₁.head)]
      simp only [bind_iff, pure_iff]
      exact ⟨_, r₂, pure_iff.1 run, (), t, closes, rfl, rfl⟩
  | several separated =>
      obtain ⟨r₁, r₂, t, opens, at₁, run, closes, reaches⟩ :=
        enclosed .paren stands (by simp) fun at₁ less _ =>
          members_complete typeComplete isType separated (Nat.le_refl bound) at₁ (by omega)
      refine ⟨t, ⟨(), r₁, opens, ?_⟩, reaches⟩
      have begins := at₁.begins (separated.begins isType)
      rw [if_neg fun ends => by
        simp [beq_iff_eq.1 ends, Phrase.beginsType, Phrase.beginsBasic] at begins]
      simp only [bind_iff, pure_iff]
      exact ⟨_, r₂, run, (), t, closes, rfl, rfl⟩

theorem elements_reader {opened : List Opened}
    (isOpen : opened.any (·.delimiter == .bracket) = true) :
    ListReader bound type phrase .rightBracket (elements type) opened FollowsType
      fun kind => Phrase.beginsType kind = true where
  complete := typeComplete
  begins := isType.begins
  distinct := by
    intro kind begins
    constructor <;> rintro rfl <;> simp [Phrase.beginsType, Phrase.beginsBasic] at begins
  followsComma _ := rfl
  followsClosing _ := isOpen
  closing_ne_comma := by simp
  stop := rfl
  round := by
    intro limit s t nodes place run
    have noDots : (s.token.kind == .ellipsis) = false := by
      rcases place with begins | found
      · cases kind : s.token.kind <;> simp_all [Phrase.beginsType, Phrase.beginsBasic]
      · simp [found]
    simp only [elements, Parser.listRound, at?_bind_iff] at run ⊢
    split at run
    · next closes => rwa [if_pos closes]
    · next open' =>
        rw [if_neg open']
        simp only [at?_bind_iff] at run ⊢
        split at run
        · next atEnd => rwa [if_pos atEnd]
        · next inside =>
            rw [if_neg inside]
            simpa only [at?_bind_iff, noDots, Bool.false_eq_true, if_false] using run

omit isType in
theorem rest_element_complete {limit : Nat} {s : Session} {before middle after : List Token.Kind}
    {node : Node} (derived : phrase before middle node)
    (comma : Phrase.Maybe .comma middle (.rightBracket :: after))
    (isOpen : s.opened.any (·.delimiter == .bracket) = true)
    (stands : s.At (.ellipsis :: before)) (enough : s.left ≤ bound) :
    ∃ t, Yields (elements type (limit + 1)) s [.rest node] t ∧ s.Reaches t (.rightBracket :: after) := by
  have here := stands.head
  obtain ⟨r₁, step, reaches, less⟩ := advance_reaches stands (by simp)
  have isOpen' : r₁.opened.any (·.delimiter == .bracket) = true := reaches.opened ▸ isOpen
  simp only [elements, at?_bind_iff, here, beq_iff_eq, reduceCtorEq, if_false, if_true,
    bind_iff (p := Parser.advance), bind_iff (p := type), when_iff, pure_iff]
  cases comma with
  | absent =>
      obtain ⟨r₂, read, reaches'⟩ := typeComplete reaches.stands (by omega) derived isOpen'
      exact ⟨r₂, ⟨(), r₁, step, node, r₂, read, r₂, .inr ⟨by simp [reaches'.stands.head], rfl⟩, rfl, rfl⟩,
        reaches.trans reaches'⟩
  | present =>
      obtain ⟨r₂, read, reaches'⟩ := typeComplete reaches.stands (by omega) derived rfl
      obtain ⟨t, step', reaches'', _⟩ := advance_reaches reaches'.stands (by simp)
      exact ⟨t, ⟨(), r₁, step, node, r₂, read, t, .inl ⟨reaches'.stands.head, step'⟩, rfl, rfl⟩,
        reaches.trans (reaches'.trans reaches'')⟩

theorem ended_elements_complete {before middle us after : List Token.Kind} {nodes : List Node}
    {node : Node} (front : Phrase.Ended phrase before (.ellipsis :: middle) nodes)
    (last : phrase middle us node) (comma : Phrase.Maybe .comma us (.rightBracket :: after))
    {limit : Nat} (within : limit ≤ bound) {s : Session} (stands : s.At before)
    (enough : s.left ≤ limit) (isOpen : s.opened.any (·.delimiter == .bracket) = true) :
    ∃ t, Yields (elements type limit) s (nodes ++ [.rest node]) t ∧
      s.Reaches t (.rightBracket :: after) := by
  generalize shape : Token.Kind.ellipsis :: middle = rest at front
  induction front generalizing limit s with
  | none =>
      subst shape
      have positive : 0 < s.left := Nat.pos_of_ne_zero fun atEnd => by
        have found := stands.head.symm.trans (Session.left_eq_zero_iff.1 atEnd)
        simp at found
      obtain ⟨limit, rfl⟩ : ∃ more, limit = more + 1 := ⟨limit - 1, by omega⟩
      exact rest_element_complete typeComplete last comma isOpen stands (by omega)
  | more first others induction =>
      have reader := elements_reader typeComplete isType isOpen
      have positive := reader.left_pos first stands
      obtain ⟨limit, rfl⟩ : ∃ more, limit = more + 1 := ⟨limit - 1, by omega⟩
      obtain ⟨r, reaches, less, round⟩ := reader.another first stands (by omega) rfl
      obtain ⟨t, run, reaches'⟩ := induction (Nat.le_of_succ_le within) reaches.stands (by omega)
        (reaches.opened ▸ isOpen) shape
      exact ⟨t, round run, reaches.trans reaches'⟩

theorem array_complete {s : Session} {before after : List Token.Kind} {nodes : List Node}
    (stands : s.At (.leftBracket :: before)) (enough : s.left ≤ bound)
    (derived : Phrase.Elements phrase before (.rightBracket :: after) nodes) :
    ∃ t, Yields (array type bound) s (.array nodes) t ∧ s.Reaches t after := by
  obtain ⟨r₁, r₂, t, opens, at₁, run, closes, reaches⟩ :=
    enclosed .bracket stands (by simp) fun {r} at₁ less opened => by
      have isOpen : r.opened.any (·.delimiter == .bracket) = true := by simp [opened]
      have elementsComplete : ∃ t, Yields (elements type bound) r nodes t ∧
          r.Reaches t (.rightBracket :: after) := by
        cases derived with
        | listed all =>
            have reader := elements_reader typeComplete isType isOpen
            exact reader.listed all (Nat.le_refl bound) at₁ (by omega) rfl
        | rest front last comma =>
            exact ended_elements_complete typeComplete isType front last comma (Nat.le_refl bound) at₁
              (by omega) isOpen
      exact elementsComplete
  simp only [array, bind_iff, pure_iff]
  exact ⟨t, ⟨(), r₁, opens, nodes, r₂, run, (), t, closes, rfl, rfl⟩, reaches⟩

omit isType in
theorem field_complete :
    Complete bound (field type) (Phrase.Entry phrase) fun _ after =>
      after.head? = some .comma ∨ after.head? = some .rightBrace := by
  intro s before after entry stands enough derived follows
  have step : ∀ {token : Token.Kind} {more : List Token.Kind} {key : Text},
      s.At (token :: more) → key? token = some key → ∃ r, Yields Parser.advance s () r ∧
        s.Reaches r more ∧ r.left < s.left := by
    intro token more key stands spelled
    refine advance_reaches stands ?_
    rintro rfl
    simp [key?] at spelled
  simp only [field, current_bind_iff]
  cases derived with
  | alone spelled =>
      obtain ⟨r, step, reaches, less⟩ := step stands spelled
      obtain ⟨more, rfl⟩ := reaches.stands.exists_cons
      simp only [stands.head, spelled, bind_iff (p := Parser.advance), at?_bind_iff]
      refine ⟨r, ⟨(), r, step, ?_⟩, reaches⟩
      rw [if_neg (by rcases follows with found | found <;> simp_all)]
      exact pure_iff.2 ⟨rfl, rfl⟩
  | typed spelled value =>
      obtain ⟨r, step, reaches, less⟩ := step stands spelled
      obtain ⟨r', step', reaches', less'⟩ := advance_reaches reaches.stands (by simp)
      have ends : endsType r'.opened after = true := by
        rcases follows with found | found <;> rw [endsType_eq_of_head found] <;> rfl
      obtain ⟨t, read, reaches''⟩ := typeComplete reaches'.stands (by omega) value ends
      simp only [stands.head, spelled, bind_iff (p := Parser.advance), at?_bind_iff]
      refine ⟨t, ⟨(), r, step, ?_⟩, reaches.trans (reaches'.trans reaches'')⟩
      rw [if_pos (by simpa using reaches.stands.head)]
      simp only [bind_iff, pure_iff]
      exact ⟨(), r', step', _, t, read, rfl, rfl⟩

omit isType in
theorem fields_reader (opened : List Opened) :
    ListReader bound (field type) (Phrase.Entry phrase) .rightBrace (fields type) opened
      (fun _ after => after.head? = some .comma ∨ after.head? = some .rightBrace)
      fun kind => ∃ key, key? kind = some key where
  complete := field_complete typeComplete
  begins := by
    intro ts us entry derived
    cases derived with
    | alone spelled => exact ⟨_, _, rfl, _, spelled⟩
    | typed spelled _ => exact ⟨_, _, rfl, _, spelled⟩
  distinct := by
    rintro kind ⟨key, spelled⟩
    constructor <;> rintro rfl <;> simp [key?] at spelled
  followsComma _ := .inl rfl
  followsClosing _ := .inr rfl
  closing_ne_comma := by simp
  stop := rfl
  round _ run := run

omit isType in
theorem record_complete {s : Session} {before after : List Token.Kind} {entries : List Field}
    (stands : s.At (.leftBrace :: before)) (enough : s.left ≤ bound)
    (derived : Phrase.Entries phrase before (.rightBrace :: after) entries) :
    ∃ t, Yields (record type bound) s (.record entries) t ∧ s.Reaches t after := by
  simp only [record, bind_iff (p := Parser.openWith _), at?_bind_iff]
  cases derived with
  | comma =>
      obtain ⟨r₁, r₂, t, opens, at₁, run, closes, reaches⟩ :=
        enclosed .brace stands (by simp) fun at₁ _ _ => by
          obtain ⟨r, step, reaches, _⟩ := advance_reaches at₁ (by simp)
          exact ⟨r, step, reaches⟩
      refine ⟨t, ⟨(), r₁, opens, ?_⟩, reaches⟩
      rw [if_pos (by simpa using at₁.head)]
      simp only [bind_iff, pure_iff]
      exact ⟨(), r₂, run, _, r₂, ⟨rfl, rfl⟩, (), t, closes, rfl, rfl⟩
  | listed all =>
      obtain ⟨r₁, r₂, t, opens, at₁, run, closes, reaches⟩ :=
        enclosed .brace stands (by simp) fun at₁ less _ =>
          (fields_reader typeComplete _).listed all (Nat.le_refl bound) at₁ (by omega) rfl
      refine ⟨t, ⟨(), r₁, opens, ?_⟩, reaches⟩
      have noComma : r₁.token.kind ≠ .comma := by
        intro found
        cases all with
        | empty => simp [at₁.head] at found
        | items separated _ =>
            have begins : ∃ key, key? r₁.token.kind = some key := by
              cases separated with
              | last only => exact at₁.begins ((fields_reader typeComplete []).begins only)
              | more first _ => exact at₁.begins ((fields_reader typeComplete []).begins first)
            simp [found, key?] at begins
      rw [if_neg (by simpa using noComma)]
      simp only [bind_iff, pure_iff]
      exact ⟨entries, r₂, run, (), t, closes, rfl, rfl⟩

omit isType in
theorem application_complete {s : Session} {before after : List Token.Kind} {name : Text}
    {token : Token.Kind} {nodes : List Node} (stands : s.At (.name name :: token :: before))
    (enough : s.left ≤ bound) (opening : token = .less ∨ token = .dotLess)
    (derived : Phrase.Separated (Phrase.Union phrase) .comma before (.greater :: after) nodes) :
    ∃ t, Yields (named type bound name) s (.application (.name name) nodes) t ∧ s.Reaches t after := by
  obtain ⟨r, step, reaches, less⟩ := advance_reaches stands (by simp)
  have inside : token ≠ .eof := by rcases opening with rfl | rfl <;> simp
  have unions : Complete bound (union type bound) (Phrase.Union phrase) FollowsUnion :=
    union_complete typeComplete
  have arguments : ∀ {r₁ : Session}, r₁.At before → r₁.left < r.left →
      r₁.opened.any (·.delimiter == .angle) = true → ∃ first more r₂ t, nodes = first :: more ∧
        Yields (union type bound) r₁ first r₂ ∧ Yields (moreArguments type bound bound) r₂ more t ∧
        r₁.Reaches t (.greater :: after) := by
    intro r₁ at₁ less' isOpen
    cases derived with
    | last only =>
        obtain ⟨r₂, read, reaches₁⟩ := unions at₁ (by omega) only ⟨isOpen, by simp⟩
        exact ⟨_, [], r₂, r₂, rfl, read,
          more_nothing (moreArguments_loop type bound) reaches₁.stands (by simp), reaches₁⟩
    | more first others =>
        obtain ⟨r₂, read, reaches₁⟩ := unions at₁ (by omega) first ⟨rfl, by simp⟩
        have shorter := reaches₁.shorter
        obtain ⟨t, run, reaches₂⟩ := more_complete unions (by simp) (moreArguments_loop type bound)
          (fun _ _ => ⟨rfl, by simp⟩) others (by simp) (Nat.le_refl bound) reaches₁.stands (by omega)
          ⟨reaches₁.opened ▸ isOpen, by simp⟩
        exact ⟨_, _, r₂, t, rfl, read, run, reaches₁.trans reaches₂⟩
  obtain ⟨r₁, opens, at₁, opened, less'⟩ := openWith_at .angle reaches.stands inside
  obtain ⟨first, more, r₂, r₃, rfl, read, run, reaches'⟩ := arguments at₁ less' (by simp [opened])
  obtain ⟨t, closes, at₃, opened', less''⟩ := closeWith_at (d := .angle) reaches'.stands
  have shorter := reaches'.shorter
  have here := reaches.stands.head
  refine ⟨t, ?_, at₃, ?_, by omega⟩
  · simp only [named, bind_iff (p := Parser.advance), at?_bind_iff]
    refine ⟨(), r, step, ?_⟩
    rw [if_pos (by rcases opening with rfl | rfl <;> simp [here])]
    simp only [bind_iff, pure_iff]
    exact ⟨(), r₁, opens, first, r₂, read, more, r₃, run, (), t, closes, rfl, rfl⟩
  · rw [opened', reaches'.opened, opened]
    exact reaches.opened

omit typeComplete isType in
theorem name_complete {s : Session} {after : List Token.Kind} {name : Text}
    (stands : s.At (.name name :: after)) (noAngle : after.head? ≠ some .less)
    (noDotAngle : after.head? ≠ some .dotLess) :
    ∃ t, Yields (named type bound name) s (.name name) t ∧ s.Reaches t after := by
  obtain ⟨t, step, reaches, less⟩ := advance_reaches stands (by simp)
  obtain ⟨more, rfl⟩ := reaches.stands.exists_cons
  simp only [named, bind_iff (p := Parser.advance), at?_bind_iff]
  refine ⟨t, ⟨(), t, step, ?_⟩, reaches⟩
  rw [if_neg (by simp_all)]
  exact pure_iff.2 ⟨rfl, rfl⟩

omit typeComplete isType in
theorem beforeColon_reads {s : Session} {kind : Token.Kind} {after : List Token.Kind}
    (stands : s.At (kind :: after)) (inside : kind ≠ .eof) :
    Yields beforeColon s (after.head? == some .colon) s := by
  obtain ⟨next, more, rfl⟩ : ∃ next more, after = next :: more := by
    cases stands.reads inside with
    | last => exact ⟨_, _, rfl⟩
    | more => exact ⟨_, _, rfl⟩
  exact beforeColon_iff.2 ⟨rfl, next, lookAhead_at stands, rfl⟩

omit isType in
theorem labelled_complete {s : Session} {before after : List Token.Kind} {name : Text} {node : Node}
    (stands : s.At (.name name :: .colon :: before)) (enough : s.left ≤ bound)
    (derived : phrase before after node) (follows : FollowsType s.opened after) :
    ∃ t, LabelledType type s name node t ∧ s.Reaches t after := by
  obtain ⟨r₁, step, reaches₁, less₁⟩ := advance_reaches stands (by simp)
  obtain ⟨r₂, step', reaches₂, less₂⟩ := advance_reaches reaches₁.stands (by simp)
  have both := reaches₁.trans reaches₂
  obtain ⟨t, read, reaches₃⟩ :=
    typeComplete both.stands (by omega) derived (both.opened ▸ follows)
  have looked := beforeColon_reads stands (by simp)
  exact ⟨t, ⟨⟨stands.head, by simpa using looked⟩, r₁, r₂, step, step', read⟩, both.trans reaches₃⟩

theorem bareParam_complete :
    Complete bound (bareParam type bound) (Phrase.Bare phrase) FollowsUnion := by
  intro s before after node stands enough derived follows
  cases derived with
  | named value =>
      obtain ⟨t, labelled, reaches⟩ := labelled_complete typeComplete stands enough value follows.1
      exact ⟨t, bareParam_iff.2 (.inl ⟨_, _, labelled, rfl⟩), reaches⟩
  | union value =>
      obtain ⟨t, run, reaches⟩ := union_complete typeComplete stands enough value follows
      refine ⟨t, bareParam_iff.2 (.inr ⟨fun name found => ?_, run⟩), reaches⟩
      obtain ⟨more, rfl⟩ := stands.exists_cons
      rw [found] at stands value
      have looked := beforeColon_reads stands (by simp)
      cases colon : more.head? == some .colon with
      | false => exact colon ▸ looked
      | true =>
          obtain ⟨more, rfl⟩ := List.head?_eq_some_iff.1 (beq_iff_eq.1 colon)
          have equal := value.unlabelled isType
          simp [equal, FollowsUnion, endsType] at follows

theorem param_complete :
    Complete bound (param type bound) (Phrase.Param phrase) fun _ after =>
      after.head? = some .comma ∨ after.head? = some .rightParen := by
  intro s before after node stands enough derived follows
  have bares : Complete bound (bareParam type bound) (Phrase.Bare phrase) FollowsUnion :=
    bareParam_complete typeComplete isType
  -- what stands behind the dots
  have marked : ∀ {r : Session} {before : List Token.Kind} {node : Node}, r.At before →
      r.left ≤ bound → Phrase.Marked (Phrase.Bare phrase) before after node →
      ∃ bare r' t, Yields (bareParam type bound) r bare r' ∧
        (r'.token.kind = .equal ∧ Yields Parser.advance r' () t ∨
          r'.token.kind ≠ .equal ∧ t = r') ∧ r.Reaches t after ∧
        node = if r'.token.kind = .equal then .optional bare none else bare := by
    intro r before node stands enough derived
    cases derived with
    | plain bare =>
        obtain ⟨t, read, reaches⟩ := bares stands enough bare
          (by rcases follows with found | found <;>
            exact ⟨by rw [endsType_eq_of_head found]; rfl, by simp [found]⟩)
        have other : t.token.kind ≠ .equal := by
          obtain ⟨more, rfl⟩ := reaches.stands.exists_cons
          intro equal
          simp [equal] at follows
        exact ⟨_, t, t, read, .inr ⟨other, rfl⟩, reaches, by rw [if_neg other]⟩
    | optional bare =>
        obtain ⟨r', read, reaches⟩ := bares stands enough bare ⟨rfl, by simp⟩
        obtain ⟨t, step, reaches', _⟩ := advance_reaches reaches.stands (by simp)
        exact ⟨_, r', t, read, .inl ⟨reaches.stands.head, step⟩, reaches.trans reaches',
          by rw [if_pos reaches.stands.head]⟩
  cases derived with
  | plain inner =>
      have begins := stands.begins (inner.begins (Phrase.Bare.begins isType))
      have noDots : s.token.kind ≠ .ellipsis := by
        intro found
        simp [found, Phrase.beginsType, Phrase.beginsBasic] at begins
      obtain ⟨bare, r', t, read, equal, reaches, rfl⟩ := marked stands enough inner
      refine ⟨t, param_iff.2 ⟨bare, s, r', .inr ⟨noDots, rfl⟩, read, equal, ?_⟩, reaches⟩
      simp [noDots]
  | rest inner =>
      obtain ⟨r, step, reaches, less⟩ := advance_reaches stands (by simp)
      obtain ⟨bare, r', t, read, equal, reaches', rfl⟩ := marked reaches.stands (by omega) inner
      refine ⟨t, param_iff.2 ⟨bare, r, r', .inl ⟨stands.head, step⟩, read, equal, ?_⟩,
        reaches.trans reaches'⟩
      simp [stands.head]

theorem params_reader (opened : List Opened) :
    ListReader bound (param type bound) (Phrase.Param phrase) .rightParen (params type bound) opened
      (fun _ after => after.head? = some .comma ∨ after.head? = some .rightParen)
      fun kind => Phrase.beginsType kind = true ∨ kind = .ellipsis where
  complete := param_complete typeComplete isType
  begins := Phrase.Param.begins isType
  distinct := by
    intro kind begins
    constructor <;> rintro rfl <;> simp [Phrase.beginsType, Phrase.beginsBasic] at begins
  followsComma _ := .inl rfl
  followsClosing _ := .inr rfl
  closing_ne_comma := by simp
  stop := rfl
  round _ run := run

omit typeComplete isType in
theorem binding_of_bindsHere {s : Session} {before : List Token.Kind} (stands : s.At before)
    (free : Phrase.bindsHere before = false) : Yields (binding type) s none s := by
  refine binding_iff.2 (.inl ⟨rfl, rfl, fun name found binds => ?_⟩)
  obtain ⟨more, rfl⟩ := stands.exists_cons
  rw [found] at stands free
  have looked := beforeColon_reads stands (by simp)
  cases colon : more.head? == some .colon with
  | false => exact colon ▸ looked
  | true =>
      obtain ⟨more, rfl⟩ := List.head?_eq_some_iff.1 (beq_iff_eq.1 colon)
      simp only [Phrase.bindsHere] at free
      rcases binds with rfl | rfl <;> simp at free

omit isType in
theorem binding_complete {s : Session} {before after : List Token.Kind}
    {types : Option Node × Option Node} (stands : s.At before) (enough : s.left ≤ bound)
    (derived : Phrase.Binding phrase before after types) (follows : FollowsType s.opened after) :
    ∃ name node t, (name = "new".toList ∨ name = "this".toList) ∧
      LabelledType type s name node t ∧ s.Reaches t after ∧
      bindings (some (name == "new".toList, node)) = types := by
  cases derived with
  | this value =>
      obtain ⟨t, labelled, reaches⟩ := labelled_complete typeComplete stands enough value follows
      exact ⟨_, _, t, .inr rfl, labelled, reaches, rfl⟩
  | new value =>
      obtain ⟨t, labelled, reaches⟩ := labelled_complete typeComplete stands enough value follows
      exact ⟨_, _, t, .inl rfl, labelled, reaches, rfl⟩

theorem signature_complete {s : Session} {before after : List Token.Kind} {nodes : List Node}
    {types : Option Node × Option Node} (stands : s.At before) (enough : s.left ≤ bound)
    (derived : Phrase.Signature phrase before after (nodes, types)) :
    ∃ bound? t, Signed type bound s bound? nodes t ∧ bindings bound? = types ∧
      s.Reaches t after := by
  -- the word, the parenthesis and, behind what is read between them, the closing one
  have around : ∀ {middle : List Token.Kind}, s.At (.name "function".toList :: .leftParen :: middle) →
      (∀ {r : Session}, r.At middle → r.left < s.left → ∃ bound? r' t,
        Yields (binding type) r bound? r' ∧ Yields (params type bound bound) r' nodes t ∧
        bindings bound? = types ∧ r.Reaches t (.rightParen :: after)) →
      ∃ bound? t, Signed type bound s bound? nodes t ∧ bindings bound? = types ∧
        s.Reaches t after := by
    intro middle stands inside
    obtain ⟨s₁, step, reaches₁, less₁⟩ := advance_reaches stands (by simp)
    obtain ⟨s₂, opens, at₂, opened, less₂⟩ := openWith_at .paren reaches₁.stands (by simp)
    obtain ⟨bound?, s₃, s₄, start, run, equal, reaches⟩ := inside at₂ (by omega)
    obtain ⟨t, closes, at₅, opened', less₅⟩ := closeWith_at (d := .paren) reaches.stands
    have shorter := reaches.shorter
    refine ⟨bound?, t, ⟨s₁, s₂, s₃, s₄, step, opens, start, run, closes⟩, equal, at₅, ?_, by omega⟩
    rw [opened', reaches.opened, opened]
    exact reaches₁.opened
  cases derived with
  | unbound free all =>
      refine around stands fun {r} at₂ less => ?_
      have reader := params_reader typeComplete isType r.opened
      obtain ⟨t, run, reaches⟩ := reader.listed all (Nat.le_refl bound) at₂ (by omega) rfl
      exact ⟨none, r, t, binding_of_bindsHere at₂ free, run, rfl, reaches⟩
  | bound derived =>
      refine around stands fun {r} at₂ less => ?_
      obtain ⟨name, node, t, binds, labelled, reaches, equal⟩ :=
        binding_complete typeComplete at₂ (by omega) derived rfl
      have reader := params_reader typeComplete isType r.opened
      exact ⟨_, t, t, binding_iff.2 (.inr ⟨name, node, t, binds, labelled,
        .inl ⟨reaches.stands.head, rfl⟩, rfl⟩), reader.nothing reaches.stands, equal, reaches⟩
  | both derived all =>
      refine around stands fun {r} at₂ less => ?_
      obtain ⟨name, node, r₁, binds, labelled, reaches₁, equal⟩ :=
        binding_complete typeComplete at₂ (by omega) derived rfl
      obtain ⟨r₂, step, reaches₂, less₂⟩ := expect_reaches reaches₁.stands (by simp)
      have shorter := reaches₁.shorter
      have reader := params_reader typeComplete isType r₂.opened
      obtain ⟨t, run, reaches₃⟩ := reader.listed all (Nat.le_refl bound) reaches₂.stands (by omega) rfl
      have goesOn : r₁.token.kind ≠ .rightParen := by simp [reaches₁.stands.head]
      exact ⟨_, r₂, t, binding_iff.2 (.inr ⟨name, node, r₁, binds, labelled,
        .inr ⟨goesOn, step⟩, rfl⟩), run, equal, reaches₁.trans (reaches₂.trans reaches₃)⟩

omit typeComplete isType in
theorem call_of_signature {s : Session} {before after : List Token.Kind}
    {value : List Node × Option Node × Option Node} (stands : s.At before)
    (derived : Phrase.Signature phrase before after value) :
    s.token.kind = .name "function".toList ∧ Yields Parser.lookAhead s .leftParen s := by
  obtain ⟨more, rfl⟩ := derived.begins
  exact ⟨stands.head, lookAhead_at stands⟩

omit typeComplete isType in
theorem basic_of_call {s t : Session} {node : Node}
    (call : s.token.kind = .name "function".toList ∧ Yields Parser.lookAhead s .leftParen s)
    (run : Yields (function type bound) s node t) : Yields (basic type bound) s node t := by
  obtain ⟨found, looked⟩ := call
  have free : literal? "function".toList = none := rfl
  simp only [basic, current_bind_iff, found, free, beq_self_eq_true, if_true]
  exact bind_iff.2 ⟨_, s, looked, run⟩

omit typeComplete isType in
/-- A name that spells no literal is read as one, unless it is the word of a function before its
parenthesis. -/
theorem basic_of_named {s t : Session} {name : Text} {after : List Token.Kind} {node : Node}
    (stands : s.At (.name name :: after)) (free : literal? name = none)
    (noCall : name = "function".toList → after.head? ≠ some .leftParen)
    (run : Yields (named type bound name) s node t) : Yields (basic type bound) s node t := by
  simp only [basic, current_bind_iff, stands.head, free]
  split
  · next isCall =>
      have noCall := noCall (beq_iff_eq.1 isCall)
      obtain ⟨next, more, rfl⟩ : ∃ next more, after = next :: more := by
        cases stands.reads (by simp) with
        | last => exact ⟨_, _, rfl⟩
        | more => exact ⟨_, _, rfl⟩
      refine bind_iff.2 ⟨next, s, lookAhead_at stands, ?_⟩
      rw [if_neg (by simpa using noCall)]
      exact run
  · exact run

theorem basic_complete : Complete bound (basic type bound) (Phrase.Basic phrase) fun _ after =>
    after.head? ≠ some .less ∧ after.head? ≠ some .dotLess ∧ after.head? ≠ some .colon := by
  intro s before after node stands enough derived follows
  obtain ⟨noAngle, noDotAngle, noColon⟩ := follows
  have single : ∀ {kind : Token.Kind} {value : Node}, s.At (kind :: after) → kind ≠ .eof →
      ∃ t, Yields (Parser.advance >>= fun _ => pure value) s value t ∧ s.Reaches t after := by
    intro kind value stands inside
    obtain ⟨t, step, reaches, _⟩ := advance_reaches stands inside
    exact ⟨t, bind_iff.2 ⟨(), t, step, pure_iff.2 ⟨rfl, rfl⟩⟩, reaches⟩
  cases derived with
  | all => simpa only [basic, current_bind_iff, stands.head] using single stands (by simp)
  | string => simpa only [basic, current_bind_iff, stands.head] using single stands (by simp)
  | number => simpa only [basic, current_bind_iff, stands.head] using single stands (by simp)
  | literal word => simpa only [basic, current_bind_iff, stands.head, word] using single stands (by simp)
  | parenthesized members =>
      simpa only [basic, current_bind_iff, stands.head] using
        parenthesized_complete typeComplete isType stands enough members
  | array elements =>
      simpa only [basic, current_bind_iff, stands.head] using
        array_complete typeComplete isType stands enough elements
  | record entries =>
      simpa only [basic, current_bind_iff, stands.head] using
        record_complete typeComplete stands enough entries
  | name free noCall =>
      obtain ⟨t, run, reaches⟩ := name_complete stands noAngle noDotAngle
      exact ⟨t, basic_of_named stands free noCall run, reaches⟩
  | application free opens arguments =>
      obtain ⟨t, run, reaches⟩ := application_complete typeComplete stands enough opens arguments
      refine ⟨t, basic_of_named stands free (fun _ => ?_) run, reaches⟩
      rcases opens with rfl | rfl <;> simp
  | function signature =>
      obtain ⟨bound?, t, signed, equal, reaches⟩ :=
        signature_complete typeComplete isType stands enough signature
      refine ⟨t, basic_of_call (call_of_signature stands signature) ?_, reaches⟩
      obtain ⟨more, rfl⟩ := reaches.stands.exists_cons
      refine function_iff.2 ⟨bound?, _, t, signed, .inr ⟨by simpa using noColon, rfl, ?_⟩⟩
      rw [equal]

omit typeComplete isType in
theorem unmarked_of_endsType {s : Session} {after : List Token.Kind} (stands : s.At after)
    (ends : endsType s.opened after = true) : Unmarked s := by
  obtain ⟨more, rfl⟩ := stands.exists_cons
  refine ⟨?_, ?_, ?_⟩ <;> intro found <;> simp [found, endsType] at ends

omit typeComplete isType in
theorem marks_complete {before after : List Token.Kind} {node result : Node}
    (trail : Phrase.Trail before after node result) {limit : Nat} {s : Session} (stands : s.At before)
    (enough : s.left ≤ limit) (follows : FollowsType s.opened after) :
    ∃ t, Yields (marks limit node) s result t ∧ s.Reaches t after := by
  induction trail generalizing limit s with
  | none => exact ⟨s, marks_unmarked (unmarked_of_endsType stands follows), .refl stands⟩
  | bang _ induction =>
      obtain ⟨r, step, reaches, less⟩ := advance_reaches stands (by simp)
      obtain ⟨limit, rfl⟩ : ∃ more, limit = more + 1 := ⟨limit - 1, by omega⟩
      obtain ⟨t, run, reaches'⟩ :=
        induction reaches.stands (by omega : r.left ≤ limit) (reaches.opened ▸ follows)
      exact ⟨t, marks_succ_iff.2 (.inl ⟨stands.head, r, step, run⟩), reaches.trans reaches'⟩
  | question _ induction =>
      obtain ⟨r, step, reaches, less⟩ := advance_reaches stands (by simp)
      obtain ⟨limit, rfl⟩ : ∃ more, limit = more + 1 := ⟨limit - 1, by omega⟩
      obtain ⟨t, run, reaches'⟩ :=
        induction reaches.stands (by omega : r.left ≤ limit) (reaches.opened ▸ follows)
      exact ⟨t, marks_succ_iff.2 (.inr (.inl ⟨stands.head, r, step, run⟩)), reaches.trans reaches'⟩
  | brackets _ induction =>
      obtain ⟨r₁, step, reaches₁, less₁⟩ := advance_reaches stands (by simp)
      obtain ⟨r₂, step', reaches₂, less₂⟩ := advance_reaches reaches₁.stands (by simp)
      have both := reaches₁.trans reaches₂
      obtain ⟨limit, rfl⟩ : ∃ more, limit = more + 1 := ⟨limit - 1, by omega⟩
      obtain ⟨t, run, reaches₃⟩ :=
        induction both.stands (by omega : r₂.left ≤ limit) (both.opened ▸ follows)
      exact ⟨t, marks_succ_iff.2 (.inr (.inr (.inl
        ⟨stands.head, lookAhead_at stands, r₁, r₂, step, step', run⟩))), both.trans reaches₃⟩

theorem postfixed_complete :
    Complete bound (postfixed type bound) (Phrase.Postfixed phrase) FollowsType := by
  intro s before after node stands enough derived follows
  simp only [postfixed, bind_iff (p := basic _ _)]
  cases derived with
  | trailed trailed =>
      obtain ⟨middle, inner, derived, trail⟩ := trailed.exists_trail
      have bare : middle.head? ≠ some .less ∧ middle.head? ≠ some .dotLess ∧
          middle.head? ≠ some .colon := by
        cases trail with
        | none =>
            unfold FollowsType at follows
            refine ⟨?_, ?_, ?_⟩ <;> intro found <;> rw [endsType_eq_of_head found] at follows <;>
              simp [endsType] at follows
        | _ => simp
      obtain ⟨r, read, reaches⟩ := basic_complete typeComplete isType stands enough derived bare
      have shorter := reaches.shorter
      obtain ⟨t, run, reaches'⟩ :=
        marks_complete trail reaches.stands (by omega : r.left ≤ bound) (reaches.opened ▸ follows)
      exact ⟨t, ⟨inner, r, read, run⟩, reaches.trans reaches'⟩
  | result signature value =>
      obtain ⟨bound?, r, signed, equal, reaches⟩ :=
        signature_complete typeComplete isType stands enough signature
      obtain ⟨r', step, reaches', less⟩ := advance_reaches reaches.stands (by simp)
      have shorter := reaches.shorter
      have both := reaches.trans reaches'
      obtain ⟨t, read, reaches''⟩ :=
        typeComplete both.stands (by omega) value (both.opened ▸ follows)
      have all := both.trans reaches''
      have run := function_iff.2 ⟨bound?, _, r, signed,
        .inl ⟨reaches.stands.head, r', _, step, read, rfl⟩⟩
      rw [equal] at run
      refine ⟨t, ⟨_, t, basic_of_call (call_of_signature stands signature) run, ?_⟩, all⟩
      exact marks_unmarked (unmarked_of_endsType all.stands (all.opened ▸ follows))

theorem prefixed_complete :
    Complete bound (prefixed type bound) (Phrase.Prefixed phrase) FollowsType := by
  intro s before after node stands enough derived follows
  have posts : Complete bound (postfixed type bound) (Phrase.Postfixed phrase) FollowsType :=
    postfixed_complete typeComplete isType
  -- behind a leading mark, which stands alone or before an expression
  have alone : ∀ {kind : Token.Kind} {lone : Node} {wrapped : Parser Node}, s.At (kind :: after) →
      kind ≠ .eof → ∃ t, Yields (Parser.advance >>= fun _ => Parser.atTypeEnd >>= fun ends =>
        if ends then pure lone else wrapped) s lone t ∧ s.Reaches t after := by
    intro kind lone wrapped stands inside
    obtain ⟨t, step, reaches, _⟩ := advance_reaches stands inside
    have looked := atTypeEnd_at reaches.stands
    have ends : endsType t.opened after = true := reaches.opened ▸ follows
    rw [ends] at looked
    exact ⟨t, bind_iff.2 ⟨(), t, step, bind_iff.2 ⟨true, t, looked, pure_iff.2 ⟨rfl, rfl⟩⟩⟩, reaches⟩
  have before_expression : ∀ {kind : Token.Kind} {ts : List Token.Kind} {lone inner : Node}
      {wrap : Node → Node}, s.At (kind :: ts) → kind ≠ .eof →
      Phrase.Postfixed phrase ts after inner →
      ∃ t, Yields (Parser.advance >>= fun _ => Parser.atTypeEnd >>= fun ends =>
        if ends then pure lone else postfixed type bound >>= fun inner => pure (wrap inner)) s
          (wrap inner) t ∧ s.Reaches t after := by
    intro kind ts lone inner wrap stands inside derived
    obtain ⟨r, step, reaches, less⟩ := advance_reaches stands inside
    have looked := atTypeEnd_at reaches.stands
    have goesOn : endsType r.opened ts = false := by
      obtain ⟨kind, more, rfl, begins⟩ := derived.begins
      cases kind <;> simp_all [Phrase.beginsBasic, endsType]
    rw [goesOn] at looked
    obtain ⟨t, run, reaches'⟩ := posts reaches.stands (by omega) derived (reaches.opened ▸ follows)
    refine ⟨t, bind_iff.2 ⟨(), r, step, bind_iff.2 ⟨false, r, looked, ?_⟩⟩, reaches.trans reaches'⟩
    exact bind_iff.2 ⟨inner, t, run, pure_iff.2 ⟨rfl, rfl⟩⟩
  simp only [prefixed, current_bind_iff]
  cases derived with
  | questionAlone =>
      simp only [stands.head]
      exact alone stands (by simp)
  | question inner =>
      simp only [stands.head]
      exact before_expression stands (by simp) inner
  | bangAlone =>
      simp only [stands.head]
      exact alone stands (by simp)
  | bang inner =>
      simp only [stands.head]
      exact before_expression stands (by simp) inner
  | plain inner =>
      obtain ⟨t, run, reaches⟩ := posts stands enough inner follows
      refine ⟨t, ?_, reaches⟩
      have begins := stands.begins inner.begins
      split
      · next found => simp [found, Phrase.beginsBasic] at begins
      · next found => simp [found, Phrase.beginsBasic] at begins
      · exact run

end

end Grammar

namespace Parser

open Grammar

theorem typeExpression_complete (bound room : Nat) :
    Complete bound (typeExpression bound room) (Phrase.Expression room) FollowsType := by
  induction room with
  | zero => exact fun _ _ derived => derived.elim
  | succ room induction =>
      intro s before after node stands enough derived follows
      have deeper : ({ s with depth := s.depth + 1 } : Session).At before := stands.transfer rfl rfl
      obtain ⟨t, run, reaches⟩ :=
        prefixed_complete induction (Phrase.Expression.isType room) deeper enough derived follows
      exact ⟨_, nested_iff.2 ⟨t, run, rfl⟩, reaches.stands.transfer rfl rfl, reaches.opened,
        reaches.shorter⟩

theorem optionalUnion_complete (bound room : Nat) :
    Complete bound (optionalUnion bound room) (Phrase.Marked (Phrase.Union (Phrase.Expression room)))
      fun _ after => after = [.eof] := by
  rintro s before _ node stands enough derived rfl
  have unions : Complete bound (union (typeExpression bound room) bound)
      (Phrase.Union (Phrase.Expression room)) FollowsUnion :=
    union_complete (typeExpression_complete bound room)
  simp only [optionalUnion, bind_iff (p := union _ _), at?_bind_iff]
  cases derived with
  | plain bare =>
      obtain ⟨t, read, reaches⟩ := unions stands enough bare ⟨rfl, by simp⟩
      refine ⟨t, ⟨node, t, read, ?_⟩, reaches⟩
      rw [if_neg (by simp [reaches.stands.head])]
      exact pure_iff.2 ⟨rfl, rfl⟩
  | optional bare =>
      obtain ⟨r, read, reaches⟩ := unions stands enough bare ⟨rfl, by simp⟩
      obtain ⟨t, step, reaches', less⟩ := advance_reaches reaches.stands (by simp)
      refine ⟨t, ⟨_, r, read, ?_⟩, reaches.trans reaches'⟩
      rw [if_pos (by simp [reaches.stands.head])]
      exact bind_iff.2 ⟨(), t, step, pure_iff.2 ⟨rfl, rfl⟩⟩

theorem parseTop_complete {s : Session} {before : List Token.Kind} {node : Node}
    (stands : s.At before) (outermost : s.depth = 0)
    (derived : Phrase.Top maxDepth before [.eof] node) :
    ∃ t, Yields parseTop s node t ∧ s.Reaches t [.eof] := by
  simp only [parseTop, bind_iff (p := get), get_iff, at?_bind_iff]
  cases derived with
  | plain marked =>
      obtain ⟨t, run, reaches⟩ := optionalUnion_complete _ _ stands s.left_le marked rfl
      refine ⟨t, ⟨s, s, ⟨rfl, rfl⟩, ?_⟩, reaches⟩
      rw [outermost]
      have begins := stands.begins
        (marked.begins (Phrase.Union.begins (Phrase.Expression.isType maxDepth)))
      have noDots : s.token.kind ≠ .ellipsis := by
        intro found
        simp [found, Phrase.beginsType, Phrase.beginsBasic] at begins
      rw [if_neg (by simpa using noDots)]
      exact run
  | rest marked =>
      obtain ⟨r, step, reaches, less⟩ := advance_reaches stands (by simp)
      obtain ⟨t, run, reaches'⟩ :=
        optionalUnion_complete _ _ reaches.stands (Nat.le_trans (Nat.le_of_lt less) s.left_le) marked rfl
      refine ⟨t, ⟨s, s, ⟨rfl, rfl⟩, ?_⟩, reaches.trans reaches'⟩
      rw [outermost, if_pos (by simp [stands.head])]
      simp only [bind_iff, pure_iff]
      exact ⟨(), r, step, _, t, run, rfl, rfl⟩

/-- What the tokens of a type expression spell is read as a whole. -/
theorem whole_complete {s : Session} {kinds : List Token.Kind} {node : Node} (stands : s.At kinds)
    (outermost : s.depth = 0) (derived : Phrase.Top maxDepth kinds [.eof] node) :
    ∃ t, Yields whole s node t := by
  obtain ⟨t, run, reaches⟩ := parseTop_complete stands outermost derived
  simp only [whole, finish, bind_iff, current_iff, pure_iff]
  refine ⟨t, node, t, run, (), t, ⟨_, t, ⟨rfl, rfl⟩, ?_⟩, rfl, rfl⟩
  rw [if_pos (by simp [reaches.stands.head])]
  exact pure_iff.2 ⟨rfl, rfl⟩

end Parser

end Docblock.TypeExpr
