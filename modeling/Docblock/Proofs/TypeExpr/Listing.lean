import Docblock.Proofs.TypeExpr.Same

/-!
# Lists are read back

Where each item of a list is read back, so is the list: with separators between the items, with a comma
behind each of them, and up to a closing mark.
-/

set_option autoImplicit false

namespace Docblock

@[simp] theorem Text.join_nil (gap : Text) : Text.join gap [] = [] := rfl

@[simp] theorem Text.join_singleton (gap text : Text) : Text.join gap [text] = text := by
  simp [Text.join]

theorem Text.join_append_singleton (gap last : Text) (front : List Text) :
    Text.join gap (front ++ [last]) = front.flatMap (· ++ gap) ++ last := by
  induction front with
  | nil => simp
  | cons first front induction =>
      cases front with
      | nil => simp [Text.join, List.intercalate, List.intersperse]
      | cons second more =>
          have step : Text.join gap (first :: second :: (more ++ [last])) =
              first ++ gap ++ Text.join gap (second :: (more ++ [last])) := by
            simp [Text.join, List.intercalate, List.intersperse]
          rw [List.cons_append] at induction
          rw [List.cons_append, List.cons_append, step, induction]
          simp

theorem Text.join_cons_cons (gap first second : Text) (more : List Text) :
    Text.join gap (first :: second :: more) = first ++ gap ++ Text.join gap (second :: more) := by
  simp [Text.join, List.intercalate, List.intersperse]

namespace TypeExpr

open Lexer (Reads reads_mark reads_blank)

def followers : Text :=
  [')', '|', ',', '>', '?', '!', '=', ']', '}']

/-- What may follow an expression: nothing, or a mark that does not belong to it. -/
def Follows (k : Text) : Prop :=
  ∀ c ∈ k.head?, c ∈ followers

section Follows

variable {k : Text}

theorem Follows.nil : Follows [] := by
  intro c first
  cases first

theorem Follows.cons {c : Char} (follower : c ∈ followers) (s : Text) : Follows (c :: s) := by
  intro d first
  rw [← Option.some.inj first]
  exact follower

theorem Follows.stops (follows : Follows k) : Lexer.Stops k := by
  intro c first
  have each : (followers.all fun d => !Lexer.isNameChar d) = true := by decide
  simpa using List.all_eq_true.1 each c (follows c first)

theorem Follows.head_ne (follows : Follows k) {c : Char} (other : c ∉ followers) : k.head? ≠ some c :=
  fun first => other (follows c first)

end Follows

/-- The text is read as a phrase with a right value, and what follows it as it stands, if and only if the
condition holds. -/
def Spells {α : Type} (item : Phrase α) (text : Text) (right : α → Prop) (condition : Prop) (k : Text)
    (us : List Token.Kind) : Prop :=
  (∃ ts a, Reads (text ++ k) ts ∧ item ts us a ∧ right a) ↔ condition ∧ Reads k us

theorem reads_mark_cons {c : Char} {kind : Token.Kind} (single : Token.Kind.ofChar? c = some kind)
    {s : Text} {other : Token.Kind} {us : List Token.Kind} :
    Reads (c :: s) (other :: us) ↔ other = kind ∧ Reads s us := by
  rw [reads_mark single]
  constructor
  · rintro ⟨vs, same, others⟩
    obtain ⟨rfl, rfl⟩ := List.cons.inj same
    exact ⟨rfl, others⟩
  · rintro ⟨rfl, others⟩
    exact ⟨us, rfl, others⟩

theorem reads_gap {gap : Text} (blank : gap = [] ∨ gap = [' ']) {s : Text} {kinds : List Token.Kind} :
    Reads (gap ++ s) kinds ↔ Reads s kinds := by
  rcases blank with rfl | rfl
  · rfl
  · exact reads_blank s

theorem forall₂_append_singleton {γ α : Type} {R : γ → α → Prop} {es : List γ} {as : List α} {e : γ}
    {a : α} : List.Forall₂ R (es ++ [e]) (as ++ [a]) ↔ List.Forall₂ R es as ∧ R e a := by
  rw [← List.forall₂_reverse_iff, List.reverse_append, List.reverse_append, List.reverse_singleton,
    List.reverse_singleton, List.singleton_append, List.singleton_append, List.forall₂_cons,
    List.forall₂_reverse_iff, and_comm]

theorem exists_append_singleton_of_forall₂ {γ α : Type} {R : γ → α → Prop} {es : List γ}
    {as : List α} {e : γ} (related : List.Forall₂ R (es ++ [e]) as) :
    ∃ front a, as = front ++ [a] ∧ List.Forall₂ R es front ∧ R e a := by
  rcases List.eq_nil_or_concat as with rfl | ⟨front, a, rfl⟩
  · have lengths := related.length_eq
    simp at lengths
  · rw [List.concat_eq_append] at related ⊢
    exact ⟨front, a, rfl, forall₂_append_singleton.1 related⟩

section Lists

variable {γ α : Type} {item : Phrase α} {spell : γ → Text} {right : γ → α → Prop} {holds : γ → Prop}
  {es : List γ} {k : Text} {us : List Token.Kind}

/-- Each item is read back in front of whatever may follow it. -/
def SpellsEach (item : Phrase α) (spell : γ → Text) (right : γ → α → Prop) (holds : γ → Prop)
    (es : List γ) : Prop :=
  ∀ e ∈ es, ∀ ⦃k : Text⦄ (us : List Token.Kind), Follows k →
    Spells item (spell e) (right e) (holds e) k us

theorem spells_separated {mark : Char} {gap : Text} {separator : Token.Kind}
    (single : Token.Kind.ofChar? mark = some separator) (follower : mark ∈ followers)
    (blank : gap = [] ∨ gap = [' ']) (each : SpellsEach item spell right holds es) (any : es ≠ [])
    (follows : Follows k) :
    Spells (Phrase.Separated item separator) (Text.join (mark :: gap) (es.map spell))
      (List.Forall₂ right es) (∀ e ∈ es, holds e) k us := by
  induction es with
  | nil => exact absurd rfl any
  | cons e es induction =>
      have here := each e List.mem_cons_self
      cases es with
      | nil =>
          have alone := here us follows
          simp only [Spells, List.map_cons, List.map_nil, Text.join_singleton, List.mem_singleton,
            forall_eq] at alone ⊢
          rw [← alone]
          constructor
          · rintro ⟨ts, as, reads, derived, rights⟩
            cases rights with
            | cons first none =>
                cases none
                cases derived with
                | last only => exact ⟨ts, _, reads, only, first⟩
                | more _ others => exact absurd rfl others.ne_nil
          · rintro ⟨ts, a, reads, derived, first⟩
            exact ⟨ts, [a], reads, .last derived, .cons first .nil⟩
      | cons e' es =>
          -- the first item is read in front of the mark, which follows every item but the last
          have others := induction (fun e' inside => each e' (List.mem_cons_of_mem e inside)) (by simp)
          have first : ∀ {vs : List Token.Kind}, Spells item (spell e) (right e) (holds e)
              (mark :: (gap ++ (Text.join (mark :: gap) ((e' :: es).map spell) ++ k)))
              (separator :: vs) := here _ (.cons follower _)
          simp only [Spells, reads_mark_cons single, reads_gap blank, true_and] at first others ⊢
          have text : Text.join (mark :: gap) ((e :: e' :: es).map spell) ++ k =
              spell e ++ mark :: (gap ++ (Text.join (mark :: gap) ((e' :: es).map spell) ++ k)) := by
            simp [Text.join_cons_cons]
          rw [text]
          constructor
          · rintro ⟨ts, as, reads, derived, rights⟩
            cases rights with
            | cons head tail =>
                cases derived with
                | last => cases tail
                | more here behind =>
                    obtain ⟨good, reads⟩ := first.1 ⟨ts, _, reads, here, head⟩
                    obtain ⟨goods, reads⟩ := others.1 ⟨_, _, reads, behind, tail⟩
                    exact ⟨List.forall_mem_cons.2 ⟨good, goods⟩, reads⟩
          · rintro ⟨goods, reads⟩
            obtain ⟨good, goods⟩ := List.forall_mem_cons.1 goods
            obtain ⟨vs, as, reads, behind, tail⟩ := others.2 ⟨goods, reads⟩
            obtain ⟨ts, a, reads, here, head⟩ := first.2 ⟨good, reads⟩
            exact ⟨ts, a :: as, reads, .more here behind, .cons head tail⟩

theorem spells_listed {closer : Char} {kind : Token.Kind}
    (single : Token.Kind.ofChar? closer = some kind) (follower : closer ∈ followers)
    (noComma : kind ≠ .comma) (each : SpellsEach item spell right holds es) (k : Text)
    (us : List Token.Kind) :
    Spells (Phrase.Listed item) (Text.join Node.commaBlank (es.map spell)) (List.Forall₂ right es)
      (∀ e ∈ es, holds e) (closer :: k) (kind :: us) := by
  cases es with
  | nil =>
      constructor
      · rintro ⟨ts, as, reads, derived, rights⟩
        cases rights
        cases derived with
        | empty => exact ⟨by simp, reads⟩
        | items separated _ => exact absurd rfl separated.ne_nil
      · rintro ⟨-, reads⟩
        exact ⟨_, [], reads, .empty, .nil⟩
  | cons e es =>
      have items : ∀ {vs : List Token.Kind}, Spells (Phrase.Separated item .comma)
          (Text.join Node.commaBlank ((e :: es).map spell)) (List.Forall₂ right (e :: es))
          (∀ a ∈ e :: es, holds a) (closer :: k) vs :=
        spells_separated rfl (by decide) (.inr rfl) each (by simp) (.cons follower k)
      constructor
      · rintro ⟨ts, as, reads, derived, rights⟩
        cases derived with
        | empty => cases rights
        | items separated comma =>
            obtain ⟨goods, behind⟩ := items.1 ⟨ts, as, reads, separated, rights⟩
            cases comma with
            | absent => exact ⟨goods, behind⟩
            | present => exact absurd ((reads_mark_cons single).1 behind).1 (Ne.symm noComma)
      · rintro ⟨goods, behind⟩
        obtain ⟨ts, as, reads, separated, rights⟩ := items.2 ⟨goods, behind⟩
        exact ⟨ts, as, reads, .items separated .absent, rights⟩

theorem spells_listed_comma {kind : Token.Kind} (noComma : kind ≠ .comma)
    (each : SpellsEach item spell right holds es) (any : es ≠ []) (k : Text) (us : List Token.Kind) :
    Spells (Phrase.Listed item) (Text.join Node.commaBlank (es.map spell) ++ [','])
      (List.Forall₂ right es) (∀ e ∈ es, holds e) k (kind :: us) := by
  have comma : Token.Kind.ofChar? ',' = some .comma := rfl
  have items : ∀ {vs : List Token.Kind}, Spells (Phrase.Separated item .comma)
      (Text.join Node.commaBlank (es.map spell)) (List.Forall₂ right es) (∀ e ∈ es, holds e)
      (',' :: k) vs :=
    spells_separated rfl (by decide) (.inr rfl) each any (.cons (by decide) _)
  rw [Spells, List.append_assoc, List.singleton_append]
  constructor
  · rintro ⟨ts, as, reads, derived, rights⟩
    cases derived with
    | empty =>
        cases rights
        exact absurd rfl any
    | items separated ending =>
        obtain ⟨goods, behind⟩ := items.1 ⟨ts, as, reads, separated, rights⟩
        cases ending with
        | absent => exact absurd ((reads_mark_cons comma).1 behind).1 noComma
        | present => exact ⟨goods, ((reads_mark_cons comma).1 behind).2⟩
  · rintro ⟨goods, behind⟩
    obtain ⟨ts, as, reads, separated, rights⟩ :=
      items.2 ⟨goods, (reads_mark_cons comma).2 ⟨rfl, behind⟩⟩
    exact ⟨ts, as, reads, .items separated .present, rights⟩

theorem spells_ended (each : SpellsEach item spell right holds es) :
    Spells (Phrase.Ended item) (es.flatMap fun e => spell e ++ Node.commaBlank)
      (List.Forall₂ right es) (∀ e ∈ es, holds e) k us := by
  induction es with
  | nil =>
      constructor
      · rintro ⟨ts, as, reads, derived, rights⟩
        cases rights
        cases derived
        exact ⟨by simp, reads⟩
      · rintro ⟨-, reads⟩
        exact ⟨_, [], reads, .none, .nil⟩
  | cons e es induction =>
      have others := induction fun e' inside => each e' (List.mem_cons_of_mem e inside)
      have first : ∀ {vs : List Token.Kind}, Spells item (spell e) (right e) (holds e)
          (',' :: ' ' :: ((es.flatMap fun e => spell e ++ Node.commaBlank) ++ k)) (.comma :: vs) :=
        each e List.mem_cons_self _ (.cons (c := ',') (by decide) _)
      have comma : Token.Kind.ofChar? ',' = some .comma := rfl
      simp only [Spells, reads_mark_cons comma, reads_blank, true_and] at first others ⊢
      have text : ((e :: es).flatMap fun e => spell e ++ Node.commaBlank) ++ k =
          spell e ++ ',' :: ' ' :: ((es.flatMap fun e => spell e ++ Node.commaBlank) ++ k) := by
        simp [Node.commaBlank]
      rw [text]
      constructor
      · rintro ⟨ts, as, reads, derived, rights⟩
        cases derived with
        | none => cases rights
        | more here behind =>
            cases rights with
            | cons head tail =>
                obtain ⟨good, reads⟩ := first.1 ⟨ts, _, reads, here, head⟩
                obtain ⟨goods, reads⟩ := others.1 ⟨_, _, reads, behind, tail⟩
                exact ⟨List.forall_mem_cons.2 ⟨good, goods⟩, reads⟩
      · rintro ⟨goods, reads⟩
        obtain ⟨good, goods⟩ := List.forall_mem_cons.1 goods
        obtain ⟨vs, as, reads, behind, tail⟩ := others.2 ⟨goods, reads⟩
        obtain ⟨ts, a, reads, here, head⟩ := first.2 ⟨good, reads⟩
        exact ⟨ts, a :: as, reads, .more here behind, .cons head tail⟩

end Lists

end TypeExpr

end Docblock
