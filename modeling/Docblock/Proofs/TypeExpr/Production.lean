import Docblock.Proofs.TypeExpr.Run

/-!
# What the productions that look ahead yield

The productions that look ahead before they choose, said once: a binding of `this` or `new`, a
parameter with its marks, and the marks behind an expression.
-/

set_option autoImplicit false

namespace Docblock.TypeExpr.Yields

open Docblock.TypeExpr.Grammar

variable {type : Parser Node} {limit : Nat} {s t : Session}

theorem beforeColon_iff {b : Bool} :
    Yields beforeColon s b t ↔
      t = s ∧ ∃ kind, Yields Parser.lookAhead s kind s ∧ b = (kind == .colon) := by
  simp only [beforeColon, bind_iff, pure_iff]
  constructor
  · rintro ⟨kind, r, looked, rfl, rfl⟩
    obtain ⟨token, after, read, rfl, rfl⟩ := lookAhead_iff.1 looked
    exact ⟨rfl, _, looked, rfl⟩
  · rintro ⟨rfl, kind, looked, rfl⟩
    exact ⟨kind, t, looked, rfl, rfl⟩

def Labelled (s : Session) (name : Text) : Prop :=
  s.token.kind = .name name ∧ Yields beforeColon s true s

def Unlabelled (s : Session) : Prop :=
  ∀ name, s.token.kind = .name name → Yields beforeColon s false s

/-- Going from the first session to the second passes a label and a type. -/
def LabelledType (type : Parser Node) (s : Session) (name : Text) (node : Node) (t : Session) : Prop :=
  Labelled s name ∧ ∃ r₁ r₂, Yields Parser.advance s () r₁ ∧ Yields Parser.advance r₁ () r₂ ∧
    Yields type r₂ node t

theorem binding_iff {bound? : Option (Bool × Node)} :
    Yields (binding type) s bound? t ↔
      (bound? = none ∧ t = s ∧ ∀ name, s.token.kind = .name name →
        name = "new".toList ∨ name = "this".toList → Yields beforeColon s false s) ∨
      ∃ name node r, (name = "new".toList ∨ name = "this".toList) ∧ LabelledType type s name node r ∧
        (r.token.kind = .rightParen ∧ t = r ∨
          r.token.kind ≠ .rightParen ∧ Yields (Parser.expect .comma) r () t) ∧
        bound? = some (name == "new".toList, node) := by
  simp only [binding, current_bind_iff]
  constructor
  · intro run
    split at run
    · next name found =>
        split at run
        · next binds =>
            simp only [bind_iff (p := beforeColon)] at run
            obtain ⟨b, r, looked, run⟩ := run
            obtain ⟨rfl, -⟩ := beforeColon_iff.1 looked
            cases b with
            | true =>
                simp only [if_true, bind_iff (p := Parser.advance), bind_iff (p := type),
                  at?_bind_iff, unless_iff, pure_iff] at run
                obtain ⟨_, r₁, step, _, r₂, step', node, r₃, read, r₄, separator, rfl, rfl⟩ := run
                refine .inr ⟨name, node, r₃, by simpa using binds,
                  ⟨⟨found, looked⟩, r₁, r₂, step, step', read⟩, by simpa using separator, rfl⟩
            | false =>
                obtain ⟨rfl, rfl⟩ := pure_iff.1 run
                exact .inl ⟨rfl, rfl, fun _ _ _ => looked⟩
        · next free =>
            obtain ⟨rfl, rfl⟩ := pure_iff.1 run
            refine .inl ⟨rfl, rfl, fun other equal binds => ?_⟩
            rw [found] at equal
            cases equal
            exact absurd (by simpa using binds) free
    · next noName =>
        obtain ⟨rfl, rfl⟩ := pure_iff.1 run
        exact .inl ⟨rfl, rfl, fun name found _ => absurd found (noName name)⟩
  · rintro (⟨rfl, rfl, free⟩ | ⟨name, node, r, binds, ⟨⟨found, looked⟩, r₁, r₂, step, step', read⟩,
      separator, rfl⟩)
    · split
      · next name found =>
          split
          · next binds =>
              have looked := free name found (by simpa using binds)
              exact bind_iff.2 ⟨false, _, looked, pure_iff.2 ⟨rfl, rfl⟩⟩
          · exact pure_iff.2 ⟨rfl, rfl⟩
      · exact pure_iff.2 ⟨rfl, rfl⟩
    · simp only [found]
      rw [if_pos (by simpa using binds)]
      refine bind_iff.2 ⟨true, s, looked, ?_⟩
      simp only [if_true, bind_iff (p := Parser.advance), bind_iff (p := type), at?_bind_iff,
        unless_iff, pure_iff]
      exact ⟨(), r₁, step, (), r₂, step', node, r, read, t, by simpa using separator, rfl, rfl⟩

theorem bareParam_iff {node : Node} :
    Yields (bareParam type limit) s node t ↔
      (∃ name inner, LabelledType type s name inner t ∧ node = .parameter name inner) ∨
        Unlabelled s ∧ Yields (union type limit) s node t := by
  simp only [bareParam, current_bind_iff]
  constructor
  · intro run
    split at run
    · next name found =>
        simp only [bind_iff (p := beforeColon)] at run
        obtain ⟨b, r, looked, run⟩ := run
        obtain ⟨rfl, -⟩ := beforeColon_iff.1 looked
        cases b with
        | true =>
            simp only [if_true, bind_iff, pure_iff] at run
            obtain ⟨_, r₁, step, _, r₂, step', inner, r₃, read, rfl, rfl⟩ := run
            exact .inl ⟨name, inner, ⟨⟨found, looked⟩, r₁, r₂, step, step', read⟩, rfl⟩
        | false => exact .inr ⟨fun _ _ => looked, by simpa using run⟩
    · next noName => exact .inr ⟨fun name found => absurd found (noName name), run⟩
  · rintro (⟨name, inner, ⟨⟨found, looked⟩, r₁, r₂, step, step', read⟩, rfl⟩ | ⟨free, run⟩)
    · simp only [found]
      refine bind_iff.2 ⟨true, s, looked, ?_⟩
      simp only [if_true, bind_iff, pure_iff]
      exact ⟨(), r₁, step, (), r₂, step', inner, t, read, rfl, rfl⟩
    · split
      · next name found => exact bind_iff.2 ⟨false, s, free name found, by simpa using run⟩
      · exact run

def bindings : Option (Bool × Node) → Option Node × Option Node
  | none => (none, none)
  | some (false, node) => (some node, none)
  | some (true, node) => (none, some node)

def Signed (type : Parser Node) (limit : Nat) (s : Session) (bound? : Option (Bool × Node))
    (nodes : List Node) (t : Session) : Prop :=
  ∃ s₁ s₂ s₃ s₄, Yields Parser.advance s () s₁ ∧ Yields (Parser.openWith .paren) s₁ () s₂ ∧
    Yields (binding type) s₂ bound? s₃ ∧ Yields (params type limit limit) s₃ nodes s₄ ∧
    Yields (Parser.closeWith .paren) s₄ () t

theorem function_iff {node : Node} :
    Yields (function type limit) s node t ↔
      ∃ bound? nodes r, Signed type limit s bound? nodes r ∧
        ((r.token.kind = .colon ∧ ∃ r' result, Yields Parser.advance r () r' ∧
            Yields type r' result t ∧
            node = .function nodes (some result) (bindings bound?).1 (bindings bound?).2) ∨
          (r.token.kind ≠ .colon ∧ t = r ∧
            node = .function nodes none (bindings bound?).1 (bindings bound?).2)) := by
  simp only [function, Signed, bind_iff (p := Parser.advance), bind_iff (p := Parser.openWith _),
    bind_iff (p := binding _), bind_iff (p := params _ _ _), bind_iff (p := Parser.closeWith _),
    at?_bind_iff]
  constructor
  · rintro ⟨_, s₁, step, _, s₂, opens, bound?, s₃, start, nodes, s₄, inside, _, s₅, closes, run⟩
    refine ⟨bound?, nodes, s₅, ⟨s₁, s₂, s₃, s₄, step, opens, start, inside, closes⟩, ?_⟩
    split at run
    · next comes =>
        simp only [bind_iff (p := Parser.advance), bind_iff (p := type), pure_bind_iff,
          pure_iff] at run
        obtain ⟨_, s₆, step', result, s₇, read, rfl, rfl⟩ := run
        refine .inl ⟨beq_iff_eq.1 comes, s₆, result, step', read, ?_⟩
        rcases bound? with _ | ⟨_ | _, bound⟩ <;> rfl
    · next other =>
        simp only [pure_bind_iff, pure_iff] at run
        obtain ⟨rfl, rfl⟩ := run
        refine .inr ⟨by simpa using other, rfl, ?_⟩
        rcases bound? with _ | ⟨_ | _, bound⟩ <;> rfl
  · rintro ⟨bound?, nodes, s₅, ⟨s₁, s₂, s₃, s₄, step, opens, start, inside, closes⟩, result⟩
    refine ⟨(), s₁, step, (), s₂, opens, bound?, s₃, start, nodes, s₄, inside, (), s₅, closes, ?_⟩
    rcases result with ⟨comes, s₆, result, step', read, rfl⟩ | ⟨other, rfl, rfl⟩
    · rw [if_pos (by simpa using comes)]
      simp only [bind_iff (p := Parser.advance), bind_iff (p := type), pure_bind_iff, pure_iff]
      refine ⟨(), s₆, step', result, t, read, ?_, rfl⟩
      rcases bound? with _ | ⟨_ | _, bound⟩ <;> rfl
    · rw [if_neg (by simpa using other)]
      refine pure_bind_iff.2 (pure_iff.2 ⟨?_, rfl⟩)
      rcases bound? with _ | ⟨_ | _, bound⟩ <;> rfl

theorem param_iff {node : Node} :
    Yields (param type limit) s node t ↔
      ∃ bare r₁ r₂,
        (s.token.kind = .ellipsis ∧ Yields Parser.advance s () r₁ ∨
          s.token.kind ≠ .ellipsis ∧ r₁ = s) ∧
        Yields (bareParam type limit) r₁ bare r₂ ∧
        (r₂.token.kind = .equal ∧ Yields Parser.advance r₂ () t ∨
          r₂.token.kind ≠ .equal ∧ t = r₂) ∧
        node = (let marked := if r₂.token.kind = .equal then .optional bare none else bare
          if s.token.kind = .ellipsis then .rest marked else marked) := by
  simp only [param, at?_bind_iff, when_iff, bind_iff (p := bareParam type limit), pure_iff,
    beq_iff_eq]
  constructor
  · rintro ⟨r₁, dots, bare, r₂, read, r₃, equal, rfl, rfl⟩
    exact ⟨bare, r₁, r₂, dots, read, equal, rfl⟩
  · rintro ⟨bare, r₁, r₂, dots, read, equal, rfl⟩
    exact ⟨r₁, dots, bare, r₂, read, t, equal, rfl, rfl⟩

/-- The session stands at no mark that follows an expression. -/
def Unmarked (s : Session) : Prop :=
  s.token.kind ≠ .bang ∧ s.token.kind ≠ .question ∧
    (s.token.kind = .leftBracket → ∃ kind, Yields Parser.lookAhead s kind s ∧ kind ≠ .rightBracket)

theorem Unmarked.transfer (settled : Unmarked s) (token : t.token = s.token)
    (ahead : t.ahead = s.ahead) : Unmarked t := by
  obtain ⟨noBang, noQuestion, noBrackets⟩ := settled
  refine ⟨token ▸ noBang, token ▸ noQuestion, fun found => ?_⟩
  obtain ⟨kind, looked, other⟩ := noBrackets (token ▸ found)
  obtain ⟨_, _, read, equal, -⟩ := lookAhead_iff.1 looked
  exact ⟨kind, lookAhead_iff.2 ⟨_, _, ahead ▸ read, equal, rfl⟩, other⟩

theorem marks_succ_iff {node a : Node} :
    Yields (marks (limit + 1) node) s a t ↔
      (s.token.kind = .bang ∧ ∃ r, Yields Parser.advance s () r ∧
        Yields (marks limit (.nonNullable node false)) r a t) ∨
      (s.token.kind = .question ∧ ∃ r, Yields Parser.advance s () r ∧
        Yields (marks limit (.nullable node false)) r a t) ∨
      (s.token.kind = .leftBracket ∧ Yields Parser.lookAhead s .rightBracket s ∧ ∃ r₁ r₂,
        Yields Parser.advance s () r₁ ∧ Yields Parser.advance r₁ () r₂ ∧
        Yields (marks limit (.arrayOf node)) r₂ a t) ∨
      (Unmarked s ∧ a = node ∧ t = s) := by
  simp only [marks, current_bind_iff]
  constructor
  · intro run
    split at run
    · next found =>
        obtain ⟨_, r, step, run⟩ := bind_iff.1 run
        exact .inl ⟨found, r, step, run⟩
    · next found =>
        obtain ⟨_, r, step, run⟩ := bind_iff.1 run
        exact .inr (.inl ⟨found, r, step, run⟩)
    · next found =>
        obtain ⟨kind, r, looked, run'⟩ := bind_iff.1 run
        obtain ⟨-, -, -, -, rfl⟩ := lookAhead_iff.1 looked
        split at run'
        · next closes =>
            obtain ⟨_, r₁, step, run'⟩ := bind_iff.1 run'
            obtain ⟨_, r₂, step', run'⟩ := bind_iff.1 run'
            exact .inr (.inr (.inl ⟨found, beq_iff_eq.1 closes ▸ looked, r₁, r₂, step, step', run'⟩))
        · next other =>
            obtain ⟨rfl, rfl⟩ := pure_iff.1 run'
            refine .inr (.inr (.inr ⟨⟨?_, ?_, fun _ => ⟨kind, looked, by simpa using other⟩⟩, rfl, rfl⟩))
            · simp [found]
            · simp [found]
    · next noBang noQuestion noBracket =>
        obtain ⟨rfl, rfl⟩ := pure_iff.1 run
        exact .inr (.inr (.inr ⟨⟨noBang, noQuestion, fun found => absurd found noBracket⟩, rfl, rfl⟩))
  · rintro (⟨found, r, step, run⟩ | ⟨found, r, step, run⟩ | ⟨found, looked, r₁, r₂, step, step', run⟩ |
      ⟨⟨noBang, noQuestion, noBrackets⟩, rfl, rfl⟩)
    · simp only [found]
      exact bind_iff.2 ⟨(), r, step, run⟩
    · simp only [found]
      exact bind_iff.2 ⟨(), r, step, run⟩
    · simp only [found]
      refine bind_iff.2 ⟨_, s, looked, ?_⟩
      exact bind_iff.2 ⟨(), r₁, step, bind_iff.2 ⟨(), r₂, step', run⟩⟩
    · split
      · next found => exact absurd found noBang
      · next found => exact absurd found noQuestion
      · next found =>
          obtain ⟨kind, looked, other⟩ := noBrackets found
          refine bind_iff.2 ⟨kind, t, looked, ?_⟩
          rw [if_neg (by simpa using other)]
          exact pure_iff.2 ⟨rfl, rfl⟩
      · exact pure_iff.2 ⟨rfl, rfl⟩

theorem marks_unmarked {node : Node} (settled : Unmarked s) : Yields (marks limit node) s node s := by
  cases limit with
  | zero => exact pure_iff.2 ⟨rfl, rfl⟩
  | succ limit => exact marks_succ_iff.2 (.inr (.inr (.inr ⟨settled, rfl, rfl⟩)))

theorem marks_of_unmarked {node a : Node} (settled : Unmarked s)
    (run : Yields (marks limit node) s a t) : a = node ∧ t = s := by
  cases limit with
  | zero => simpa only [marks, pure_iff] using run
  | succ limit =>
      obtain ⟨noBang, noQuestion, noBrackets⟩ := settled
      rcases marks_succ_iff.1 run with ⟨found, _⟩ | ⟨found, _⟩ | ⟨found, looked, _⟩ | ⟨_, equal⟩
      · exact absurd found noBang
      · exact absurd found noQuestion
      · obtain ⟨kind, looked', other⟩ := noBrackets found
        obtain ⟨_, _, read, equal, -⟩ := lookAhead_iff.1 looked
        obtain ⟨_, _, read', equal', -⟩ := lookAhead_iff.1 looked'
        rw [read] at read'
        cases read'
        exact absurd (equal'.trans equal.symm) other
      · exact equal

end Docblock.TypeExpr.Yields
