import Docblock.Proofs.TypeExpr.Discipline

/-!
# The productions keep to a discipline

One lemma for each production, in the order of the grammar. Where a production passes a token without
looking at it, its lemma says which token it is called at.
-/

set_option autoImplicit false

namespace Docblock.TypeExpr

open TypeExpr.Parser

variable {D : Discipline} {know : Session → Prop}

namespace Grammar

section Loops

variable {α β : Type} {item : Parser α}

theorem obeys_past_at {kind : Token.Kind} {found : Bool} {step : Unit → Parser β}
    (plain : kind.isPlain = true) (here : found = true) (behind : Tame D (step ())) :
    Obeys D (fun s => know s ∧ (s.token.kind == kind) = found) (advance >>= step) fun _ _ => True :=
  obeys_past (fun _ known => isPlain_of_at plain here known.2) (behind _)

theorem tame_more {separator : Token.Kind} {loop : Nat → Parser (List α)}
    (rounds : MoreLoop item separator loop) (plain : separator.isPlain = true) (tame : Tame D item)
    (limit : Nat) : Tame D (loop limit) := by
  induction limit with
  | zero =>
      rw [rounds.stop]
      exact tame_pure _
  | succ limit induction =>
      rw [rounds.round]
      intro know
      apply (obeys_at? separator).bind
      intro found
      split
      · next here =>
          apply obeys_past_at plain here
          exact tame.bind fun _ => induction.bind fun _ => tame_pure _
      · exact tame_pure _ _

theorem tame_list {closing : Token.Kind} {loop : Nat → Parser (List α)}
    (rounds : ListLoop item closing loop) (tame : Tame D item) (limit : Nat) : Tame D (loop limit) := by
  induction limit with
  | zero =>
      rw [rounds.stop]
      exact tame_pure _
  | succ limit induction =>
      rw [rounds.round]
      apply (tame_at? closing).bind
      intro closes
      split
      · exact tame_pure _
      · apply (tame_at? .eof).bind
        intro atEnd
        split
        · exact tame_unexpected
        · apply tame.bind
          intro first
          apply (tame_at? closing).bind
          intro last
          have rest := induction.bind fun more => tame_pure (D := D) (first :: more)
          split
          · exact rest
          · exact (tame_expect rfl).bind fun _ => rest

theorem leads_close (base : List Opened) (delimiter : Delimiter) (place : Text) (node : Node) :
    Leads D base (⟨delimiter, place⟩ :: base) base know (closeWith delimiter >>= fun _ => pure node)
      fun _ _ => True :=
  (leads_closeWith base delimiter place).bind fun _ => tame_pure node _ base

end Loops

variable {type : Parser Node} (tame : Tame D type) (limit : Nat)

include tame

theorem tame_union : Tame D (union type limit) := by
  apply tame.bind
  intro first
  apply (tame_at? .pipe).bind
  intro found
  split
  · exact (tame_more (moreMembers_loop type) rfl tame limit).bind fun _ => tame_pure _
  · exact tame_pure _

theorem tame_members : Tame D (members type limit) := by
  induction limit with
  | zero => exact tame_pure _
  | succ limit induction =>
      apply tame.bind
      intro member
      apply (tame_at? .rightParen).bind
      intro closes
      split
      · exact tame_pure _
      · exact (tame_expect rfl).bind fun _ => induction.bind fun _ => tame_pure _

theorem obeys_parenthesized :
    Obeys D (fun s => s.token.kind = .leftParen) (parenthesized type limit) fun _ _ => True := by
  intro base
  apply leads_openWith
  · intro s here
    rw [here]
    rfl
  · intro place
    have below := List.suffix_cons (⟨.paren, place⟩ : Opened) base
    apply ((tame_at? .rightParen _).over below).bind
    intro closes
    split
    · exact ((tame_pure [] _).over below).bind fun _ => leads_close base .paren place _
    · exact ((tame_members tame limit _).over below).bind fun _ => leads_close base .paren place _

theorem tame_elements : Tame D (elements type limit) := by
  induction limit with
  | zero => exact tame_pure _
  | succ limit induction =>
      apply (tame_at? .rightBracket).bind
      intro closes
      split
      · exact tame_pure _
      · apply (tame_at? .eof).bind
        intro atEnd
        split
        · exact tame_unexpected
        · intro know
          apply (obeys_at? .ellipsis).bind
          intro spread
          split
          · next here =>
              apply obeys_past_at rfl here
              apply tame.bind
              intro element know
              apply (obeys_at? .comma).bind
              intro comma
              split
              · next here => exact obeys_past_at rfl here (tame_pure _)
              · exact tame_pure _ _
          · have rest : Tame D (do
                let element ← type
                unless ← at? .rightBracket do expect .comma
                return element :: (← elements type limit)) := by
              apply tame.bind
              intro element
              apply (tame_at? .rightBracket).bind
              intro last
              have rest := induction.bind fun more => tame_pure (D := D) (element :: more)
              split
              · exact rest
              · exact (tame_expect rfl).bind fun _ => rest
            exact rest _

theorem obeys_array :
    Obeys D (fun s => s.token.kind = .leftBracket) (array type limit) fun _ _ => True := by
  intro base
  apply leads_openWith
  · intro s here
    rw [here]
    rfl
  · intro place
    apply ((tame_elements tame limit _).over (List.suffix_cons _ base)).bind
    intro nodes
    exact leads_close base .bracket place _

theorem tame_field : Tame D (field type) := by
  intro know
  apply obeys_current.bind
  intro found
  rcases spelled : key? found with _ | key
  · exact tame_failHere (by simp) _
  · apply obeys_past
    · rintro s ⟨-, rfl⟩
      revert spelled
      cases s.token.kind <;> simp [key?, Token.Kind.isPlain]
    · apply (obeys_at? .colon).bind
      intro colon
      split
      · next here => exact obeys_past_at rfl here (tame.bind fun _ => tame_pure _)
      · exact tame_pure _ _

theorem obeys_record :
    Obeys D (fun s => s.token.kind = .leftBrace) (record type limit) fun _ _ => True := by
  intro base
  apply leads_openWith
  · intro s here
    rw [here]
    rfl
  · intro place
    have below := List.suffix_cons (⟨.brace, place⟩ : Opened) base
    apply ((obeys_at? .comma).over below).bind
    intro comma
    split
    · next here =>
        have past : Obeys D (fun s => True ∧ (s.token.kind == .comma) = comma) advance fun _ _ => True := by
          apply (obeys_advance ?_).forget
          rintro s ⟨-, looked⟩
          exact isPlain_of_at rfl here looked
        apply (past.over below).bind
        intro _
        exact ((tame_pure [] _).over below).bind fun _ => leads_close base .brace place _
    · apply ((tame_list (fields_loop type) (tame_field tame) limit _).over below).bind
      intro entries
      exact leads_close base .brace place _

theorem obeys_named (name : Text) :
    Obeys D (fun s => s.token.kind = .name name) (named type limit name) fun _ _ => True := by
  apply obeys_past
  · intro s here
    rw [here]
    rfl
  · apply (obeys_at? .less).bind
    intro less
    apply (obeys_at? .dotLess).bind
    intro dotLess
    split
    · next opens =>
        intro base
        apply leads_openWith
        · rintro s ⟨⟨-, isLess⟩, isDotLess⟩
          rw [← isLess, ← isDotLess] at opens
          revert opens
          cases s.token.kind <;> simp [Token.Kind.opens?]
        · intro place
          have below := List.suffix_cons (⟨.angle, place⟩ : Opened) base
          have argument := tame_union tame limit
          apply ((argument _).over below).bind
          intro first
          apply ((tame_more (moreArguments_loop type limit) rfl argument limit _).over below).bind
          intro more
          exact leads_close base .angle place _
    · exact tame_pure _ _

omit tame in
theorem obeys_beforeColon :
    Obeys D know beforeColon fun colon s => know s ∧ (colon = true → s.Before .colon) := by
  have tells : ∀ kind, Obeys D (fun s => know s ∧ s.Before kind) (pure (kind == .colon) : Parser Bool)
      fun colon s => know s ∧ (colon = true → s.Before .colon) := by
    intro kind opened
    constructor
    · intro s t colon run same stands known
      cases run
      refine ⟨same, rfl, stands, known.1, ?_⟩
      intro isColon
      exact beq_iff_eq.1 isColon ▸ known.2
    · intro s t fault run
      cases run
  exact obeys_lookAhead.bind tells

omit tame in
theorem obeys_label {α : Type} {step : Parser α}
    (label : ∀ s, know s → s.token.kind.isPlain = true ∧ s.Before .colon) (behind : Tame D step) :
    Obeys D know (advance >>= fun _ => advance >>= fun _ => step) fun _ _ => True := by
  apply (obeys_advance fun s known => (label s known).1).bind
  intro _
  apply obeys_past
  · rintro t ⟨s, known, read⟩
    obtain ⟨-, token, after, read', colon⟩ := label s known
    cases read.symm.trans read'
    rw [colon]
    rfl
  · exact behind _

theorem tame_binding : Tame D (binding type) := by
  intro know
  apply obeys_current.bind
  intro found
  split
  · dsimp only
    split
    · apply obeys_beforeColon.bind
      intro colon
      split
      · next isColon =>
          apply obeys_label
          · rintro s ⟨⟨-, here⟩, before⟩
            rw [here]
            exact ⟨rfl, before isColon⟩
          · apply tame.bind
            intro bound
            apply (tame_at? .rightParen).bind
            intro closes
            split
            · exact tame_pure _
            · exact (tame_expect rfl).bind fun _ => tame_pure _
      · exact tame_pure _ _
    · exact tame_pure _ _
  · exact tame_pure _ _

theorem tame_bareParam : Tame D (bareParam type limit) := by
  intro know
  apply obeys_current.bind
  intro found
  split
  · apply obeys_beforeColon.bind
    intro colon
    split
    · next isColon =>
        apply obeys_label
        · rintro s ⟨⟨-, here⟩, before⟩
          rw [here]
          exact ⟨rfl, before isColon⟩
        · exact tame.bind fun _ => tame_pure _
    · exact tame_union tame limit _
  · exact tame_union tame limit _

theorem tame_param : Tame D (param type limit) := by
  have bare : ∀ isRest : Bool, Tame D (do
      let bare ← bareParam type limit
      let isOptional ← at? .equal
      if isOptional then advance
      let marked := if isOptional then .optional bare none else bare
      return if isRest then .rest marked else marked) := by
    intro isRest
    apply (tame_bareParam tame limit).bind
    intro bare know
    apply (obeys_at? .equal).bind
    intro isOptional
    split
    · next here => exact obeys_past_at rfl here (tame_pure _)
    · exact tame_pure _ _
  intro know
  apply (obeys_at? .ellipsis).bind
  intro isRest
  cases isRest with
  | true => exact obeys_past_at rfl rfl (bare true)
  | false => exact bare false _

theorem obeys_function (name : Text) :
    Obeys D (fun s => s.token.kind = .name name ∧ s.Before .leftParen) (function type limit)
      fun _ _ => True := by
  apply (obeys_advance ?_).bind
  · intro _ base
    apply leads_openWith
    · rintro t ⟨s, ⟨-, token, after, read, opens⟩, read'⟩
      cases read.symm.trans read'
      rw [opens]
      rfl
    · intro place
      have below := List.suffix_cons (⟨.paren, place⟩ : Opened) base
      apply ((tame_binding tame _).over below).bind
      intro bound?
      apply ((tame_list (params_loop type limit) (tame_param tame limit) limit _).over below).bind
      intro nodes
      apply (leads_closeWith base .paren place).bind
      intro _
      apply ((obeys_at? .colon) base).bind
      intro colon
      cases colon with
      | true =>
          refine obeys_past_at rfl rfl ?_ base
          exact tame.bind fun _ => (tame_pure _).bind fun _ => tame_pure _
      | false => exact ((tame_pure _).bind fun _ => tame_pure _) _ base
  · rintro s ⟨here, -⟩
    rw [here]
    rfl

theorem tame_basic : Tame D (basic type limit) := by
  intro know
  have past : ∀ {kind : Token.Kind} {node : Node}, kind.isPlain = true →
      Obeys D (fun s => know s ∧ s.token.kind = kind) (advance >>= fun _ => pure node) fun _ _ => True := by
    intro kind node plain
    apply obeys_past
    · rintro s ⟨-, here⟩
      rwa [here]
    · exact tame_pure _ _
  apply obeys_current.bind
  intro found
  split
  · apply past
    rfl
  · exact (obeys_parenthesized tame limit).weaken fun _ known => known.2
  · exact (obeys_array tame limit).weaken fun _ known => known.2
  · exact (obeys_record tame limit).weaken fun _ known => known.2
  · apply past
    rfl
  · apply past
    rfl
  · next name =>
      have names := obeys_named tame limit name
      split
      · exact past rfl
      · split
        · apply obeys_lookAhead.bind
          intro next
          split
          · next opens =>
              apply (obeys_function tame limit name).weaken
              rintro s ⟨known, before⟩
              exact ⟨known.2, beq_iff_eq.1 opens ▸ before⟩
          · exact names.weaken fun _ known => known.1.2
        · exact names.weaken fun _ known => known.2
  · exact tame_unexpected _

omit tame in
theorem tame_marks (node : Node) : Tame D (marks limit node) := by
  induction limit generalizing node with
  | zero => exact tame_pure _
  | succ limit induction =>
      intro know
      apply obeys_current.bind
      intro found
      split
      · apply obeys_past
        · rintro s ⟨-, here⟩
          rw [here]
          rfl
        · exact induction _ _
      · apply obeys_past
        · rintro s ⟨-, here⟩
          rw [here]
          rfl
        · exact induction _ _
      · apply obeys_lookAhead.bind
        intro next
        split
        · next closes =>
            apply obeys_brackets
            · rintro s ⟨⟨-, here⟩, before⟩
              exact ⟨here, beq_iff_eq.1 closes ▸ before⟩
            · exact induction _ _
        · exact tame_pure _ _
      · exact tame_pure _ _

theorem tame_postfixed : Tame D (postfixed type limit) :=
  (tame_basic tame limit).bind fun node => tame_marks limit node

theorem tame_prefixed : Tame D (prefixed type limit) := by
  have postfixed := tame_postfixed tame limit
  intro know
  have marked : ∀ {kind : Token.Kind} {lone : Node} {mark : Node → Node}, kind.isPlain = true →
      Obeys D (fun s => know s ∧ s.token.kind = kind) (do
        advance
        if ← atTypeEnd then return lone
        else return mark (← Grammar.postfixed type limit)) fun _ _ => True := by
    intro kind lone mark plain
    apply obeys_past
    · rintro s ⟨-, here⟩
      rwa [here]
    · apply (tame_atTypeEnd _).bind
      intro ends
      split
      · exact tame_pure _ _
      · exact postfixed.bind (fun _ => tame_pure _) _
  apply obeys_current.bind
  intro found
  split
  · apply marked
    rfl
  · apply marked
    rfl
  · exact postfixed _

end Grammar

namespace Parser

theorem tame_typeExpression (limit room : Nat) : Tame D (typeExpression limit room) := by
  induction room with
  | zero => exact tame_failHere (by simp)
  | succ room induction => exact tame_nested (Grammar.tame_prefixed induction limit)

theorem tame_optionalUnion (limit room : Nat) : Tame D (optionalUnion limit room) := by
  apply (Grammar.tame_union (tame_typeExpression limit room) limit).bind
  intro node know
  apply (obeys_at? .equal).bind
  intro marked
  split
  · next here => exact Grammar.obeys_past_at rfl here (tame_pure _)
  · exact tame_pure _ _

theorem tame_parseTop : Tame D parseTop := by
  apply tame_get.bind
  intro session know
  apply (obeys_at? .ellipsis).bind
  intro spread
  split
  · next here =>
      exact Grammar.obeys_past_at rfl here ((tame_optionalUnion _ _).bind fun _ => tame_pure _)
  · exact tame_optionalUnion _ _ _

end Parser

end Docblock.TypeExpr
