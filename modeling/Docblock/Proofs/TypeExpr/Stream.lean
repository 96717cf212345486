import Docblock.Proofs.TypeExpr.Lexeme
import Docblock.Proofs.TypeExpr.Run

/-!
# The tokens a session stands at

`Lexer.Reads s kinds`: the text `s` is read as the tokens `kinds` up to the end of input, without a
fault. `Session.At` says the same of a session, from its current token on; `advance` then takes the
first of these tokens off.
-/

set_option autoImplicit false

namespace Docblock.TypeExpr

namespace Lexer

/-- The text is read as these tokens, of which the end of input is the last. -/
inductive Reads : Text → List Token.Kind → Prop where
  | last {s after : Text} {token : Token} (read : next s = (.ok token, after))
      (atEnd : token.kind = .eof) : Reads s [.eof]
  | more {s after : Text} {token : Token} {kinds : List Token.Kind}
      (read : next s = (.ok token, after)) (inside : token.kind ≠ .eof) (others : Reads after kinds) :
      Reads s (token.kind :: kinds)

theorem Reads.unique {s : Text} {kinds others : List Token.Kind} (reads : Reads s kinds)
    (same : Reads s others) : kinds = others := by
  induction reads generalizing others with
  | last read atEnd =>
      cases same with
      | last => rfl
      | more again inside _ =>
          rw [read] at again
          cases again
          exact absurd atEnd inside
  | more read inside tail induction =>
      cases same with
      | last again atEnd =>
          rw [read] at again
          cases again
          exact absurd atEnd inside
      | more again _ rest =>
          rw [read] at again
          cases again
          rw [induction rest]

theorem upToLast_of_reads {s : Text} {kinds : List Token.Kind} (reads : Reads s kinds) :
    ∀ count, s.length < count →
      (upToLast count s).map (·.map Token.kind) = kinds.map .ok := by
  induction reads with
  | last read atEnd =>
      intro count enough
      obtain ⟨more, rfl⟩ : ∃ more, count = more + 1 := ⟨count - 1, by omega⟩
      simp [upToLast, read, isLast, atEnd, Except.map]
  | @more s after token kinds read inside others induction =>
      intro count enough
      obtain ⟨more, rfl⟩ : ∃ more, count = more + 1 := ⟨count - 1, by omega⟩
      have shorter := next_length read inside
      have goesOn : isLast (.ok token) = false := by simpa [isLast] using inside
      simp only [upToLast, read, goesOn, Bool.false_eq_true, if_false, List.map_cons,
        induction more (by omega)]
      rfl

theorem reads_of_upToLast {count : Nat} : ∀ {s : Text} {kinds : List Token.Kind}, s.length < count →
    (upToLast count s).map (·.map Token.kind) = kinds.map .ok → Reads s kinds := by
  induction count with
  | zero =>
      intro s kinds enough
      omega
  | succ count induction =>
      intro s kinds enough equal
      rcases read : next s with ⟨result, after⟩
      cases result with
      | error fault =>
          simp only [upToLast, read, isLast, if_true, List.map_cons, List.map_nil, Except.map] at equal
          cases kinds <;> simp at equal
      | ok token =>
          by_cases atEnd : token.kind = .eof
          · simp only [upToLast, read, isLast, atEnd, beq_self_eq_true, if_true, List.map_cons,
              List.map_nil, Except.map] at equal
            cases kinds with
            | nil => simp at equal
            | cons kind kinds =>
                simp only [List.map_cons, List.cons.injEq, Except.ok.injEq, List.nil_eq,
                  List.map_eq_nil_iff] at equal
                obtain ⟨rfl, rfl⟩ := equal
                exact .last read atEnd
          · have goesOn : (token.kind == Token.Kind.eof) = false := by simpa using atEnd
            simp only [upToLast, read, isLast, goesOn, Bool.false_eq_true, if_false, List.map_cons,
              Except.map] at equal
            cases kinds with
            | nil => simp at equal
            | cons kind kinds =>
                simp only [List.map_cons, List.cons.injEq, Except.ok.injEq] at equal
                obtain ⟨rfl, equal⟩ := equal
                have shorter := next_length read atEnd
                exact .more read atEnd (induction (by omega) equal)

theorem tokens_eq_iff {s : Text} {kinds : List Token.Kind} :
    (tokens s).map (·.map Token.kind) = kinds.map .ok ↔ Reads s kinds :=
  ⟨reads_of_upToLast (Nat.lt_succ_self _), fun reads =>
    upToLast_of_reads reads _ (Nat.lt_succ_self _)⟩

/-- Reading takes these tokens off the first text, none of them the end of input, and comes to the
second. -/
inductive Passes : Text → List Token → Text → Prop where
  | nil {s : Text} : Passes s [] s
  | cons {s after last : Text} {token : Token} {others : List Token} (read : next s = (.ok token, after))
      (inside : token.kind ≠ .eof) (behind : Passes after others last) : Passes s (token :: others) last

section Passes

variable {s t : Text} {passed : List Token}

theorem upToLast_of_le {count : Nat} : ∀ {s : Text} {more : Nat}, s.length < count → count ≤ more →
    upToLast more s = upToLast count s := by
  induction count with
  | zero =>
      intro s more enough
      omega
  | succ count induction =>
      intro s more enough le
      obtain ⟨more, rfl⟩ : ∃ m, more = m + 1 := ⟨more - 1, by omega⟩
      rcases read : next s with ⟨result, after⟩
      simp only [upToLast, read]
      cases result with
      | error fault => rfl
      | ok token =>
          by_cases atEnd : token.kind = .eof
          · simp [isLast, atEnd]
          · have shorter := next_length read atEnd
            have enough' : after.length < count := by omega
            rw [induction enough' (Nat.le_of_succ_le_succ le)]

theorem tokens_of_next {after : Text} {token : Token} (read : next s = (.ok token, after))
    (inside : token.kind ≠ .eof) : tokens s = .ok token :: tokens after := by
  have goesOn : (token.kind == Token.Kind.eof) = false := by simpa using inside
  have shorter := next_length read inside
  rw [tokens, upToLast, read]
  simp only [isLast, goesOn, Bool.false_eq_true, if_false]
  rw [upToLast_of_le (Nat.lt_succ_self after.length) shorter]
  rfl

theorem tokens_of_last {after : Text} {token : Token} (read : next s = (.ok token, after))
    (atEnd : token.kind = .eof) : tokens s = [.ok token] := by
  simp [tokens, upToLast, read, isLast, atEnd]

theorem place_of_last {after : Text} {token : Token} (read : next s = (.ok token, after))
    (atEnd : token.kind = .eof) : token.place = [] ∧ after = [] ∧ Text.isBlankText s = true := by
  rcases next_ok read with ⟨-, blank⟩ | ⟨_, _, _, _, _, lexical⟩
  · rw [next, Text.trimStart_eq_nil_iff.2 blank] at read
    cases read
    exact ⟨rfl, rfl, blank⟩
  · exact absurd atEnd lexical.inside

theorem suffix_of_next {after : Text} {token : Token} (read : next s = (.ok token, after))
    (inside : token.kind ≠ .eof) : token.place <:+ s ∧ after <:+ s := by
  rcases next_ok read with ⟨atEnd, -⟩ | ⟨blanks, lexeme, whole, -, shape, -⟩
  · exact absurd atEnd inside
  · have placed : token.place <:+ s := ⟨blanks, whole.symm⟩
    have behind : after <:+ token.place := ⟨lexeme, shape.symm⟩
    exact ⟨placed, behind.trans placed⟩

theorem Passes.tokens (passes : Passes s passed t) : Lexer.tokens s = passed.map .ok ++ Lexer.tokens t := by
  induction passes with
  | nil => rfl
  | cons read inside _ induction =>
      rw [tokens_of_next read inside, induction]
      rfl

theorem Passes.trans {u : Text} {others : List Token} (passes : Passes s passed t)
    (behind : Passes t others u) : Passes s (passed ++ others) u := by
  induction passes with
  | nil => exact behind
  | cons read inside _ induction => exact .cons read inside (induction behind)

theorem Passes.suffix (passes : Passes s passed t) : t <:+ s := by
  induction passes with
  | nil => exact List.suffix_rfl
  | cons read inside _ induction => exact induction.trans (suffix_of_next read inside).2

theorem Passes.snoc {after : Text} {token : Token} (passes : Passes s passed t)
    (read : next t = (.ok token, after)) (inside : token.kind ≠ .eof) : Passes s (passed ++ [token]) after :=
  passes.trans (.cons read inside .nil)

theorem Passes.exists_next {token : Token} (passes : Passes s passed t) (among : token ∈ passed) :
    ∃ place after, place <:+ s ∧ next place = (.ok token, after) ∧ token.kind ≠ .eof := by
  induction passes with
  | nil => cases among
  | @cons s behind last first others read inside _ induction =>
      rcases List.mem_cons.1 among with rfl | among
      · exact ⟨s, behind, List.suffix_rfl, read, inside⟩
      · obtain ⟨place, after, within, again⟩ := induction among
        exact ⟨place, after, within.trans (suffix_of_next read inside).2, again⟩

theorem tokens_eq_cons (s : Text) : ∃ others, Lexer.tokens s = (next s).1 :: others := by
  rw [Lexer.tokens, upToLast]
  dsimp only
  split
  · exact ⟨[], rfl⟩
  · exact ⟨_, rfl⟩

end Passes

end Lexer

namespace Session

/-- The session stands at the first of these tokens, the others follow. -/
inductive At (session : Session) : List Token.Kind → Prop where
  | last (atEnd : session.token.kind = .eof) : At session [.eof]
  | more {kinds : List Token.Kind} (inside : session.token.kind ≠ .eof)
      (others : Lexer.Reads session.ahead kinds) : At session (session.token.kind :: kinds)

def left (session : Session) : Nat :=
  if session.token.kind = .eof then 0 else session.ahead.length + 1

theorem left_le (session : Session) : session.left ≤ session.ahead.length + 2 := by
  unfold left
  split <;> omega

variable {s t : Session}

theorem left_eq_zero_iff : s.left = 0 ↔ s.token.kind = .eof := by
  unfold left
  split <;> simp_all

theorem At.head {kind : Token.Kind} {kinds : List Token.Kind} (stands : s.At (kind :: kinds)) :
    s.token.kind = kind := by
  cases stands with
  | last atEnd => exact atEnd
  | more => rfl

theorem At.exists_cons {kinds : List Token.Kind} (stands : s.At kinds) :
    ∃ more, kinds = s.token.kind :: more := by
  cases stands with
  | last atEnd => exact ⟨[], by rw [atEnd]⟩
  | more _ _ => exact ⟨_, rfl⟩

theorem At.reads {kind : Token.Kind} {kinds : List Token.Kind} (stands : s.At (kind :: kinds))
    (inside : kind ≠ .eof) : Lexer.Reads s.ahead kinds := by
  cases stands with
  | last => exact absurd rfl inside
  | more _ others => exact others

theorem At.ne_eof {kind next : Token.Kind} {kinds : List Token.Kind}
    (stands : s.At (kind :: next :: kinds)) : kind ≠ .eof := by
  generalize shape : kind :: next :: kinds = all at stands
  cases stands with
  | last => simp at shape
  | more inside _ =>
      simp only [List.cons.injEq] at shape
      exact shape.1 ▸ inside

/-- Only the token that is current and the text behind it decide where a session stands. -/
theorem At.transfer {kinds : List Token.Kind} (stands : s.At kinds) (token : t.token = s.token)
    (ahead : t.ahead = s.ahead) : t.At kinds := by
  cases stands with
  | last atEnd => exact .last (token ▸ atEnd)
  | more inside others =>
      rw [← token] at inside ⊢
      rw [← ahead] at others
      exact .more inside others

theorem at_of_reads {source after : Text} {found : Token} {kinds : List Token.Kind}
    (read : Lexer.next source = (.ok found, after)) (token : s.token = found) (ahead : s.ahead = after) :
    s.At kinds ↔ Lexer.Reads source kinds := by
  subst token ahead
  constructor
  · intro stands
    cases stands with
    | last atEnd => exact .last read atEnd
    | more inside others => exact .more read inside others
  · intro reads
    cases reads with
    | last again atEnd =>
        rw [read] at again
        cases again
        exact .last atEnd
    | more again inside others =>
        rw [read] at again
        cases again
        exact .more inside others

end Session

namespace Yields

variable {s t : Session}

theorem advance_left {u : Unit} (run : Yields Parser.advance s u t) (inside : s.token.kind ≠ .eof) :
    t.left < s.left := by
  obtain ⟨token, after, read, rfl⟩ := advance_iff.1 run
  simp only [Session.left, inside, if_false]
  split
  · omega
  · next goesOn =>
      have shorter := Lexer.next_length read goesOn
      omega

theorem advance_back {u : Unit} {kinds : List Token.Kind} (run : Yields Parser.advance s u t)
    (inside : s.token.kind ≠ .eof) (stands : t.At kinds) : s.At (s.token.kind :: kinds) := by
  obtain ⟨token, after, read, rfl⟩ := advance_iff.1 run
  exact .more inside ((Session.at_of_reads read rfl rfl).1 stands)

theorem advance_at {kind : Token.Kind} {kinds : List Token.Kind} (stands : s.At (kind :: kinds))
    (inside : kind ≠ .eof) :
    ∃ t, Yields Parser.advance s () t ∧ t.At kinds ∧ t.opened = s.opened := by
  have reads := stands.reads inside
  have found : ∃ token after, Lexer.next s.ahead = (.ok token, after) := by
    cases reads with
    | last read _ => exact ⟨_, _, read⟩
    | more read _ _ => exact ⟨_, _, read⟩
  obtain ⟨token, after, read⟩ := found
  exact ⟨{ s with token := token, ahead := after }, advance_iff.2 ⟨_, _, read, rfl⟩,
    (Session.at_of_reads read rfl rfl).2 reads, rfl⟩

theorem lookAhead_at {kind next : Token.Kind} {kinds : List Token.Kind}
    (stands : s.At (kind :: next :: kinds)) : Yields Parser.lookAhead s next s := by
  cases stands.reads stands.ne_eof with
  | last read atEnd => exact lookAhead_iff.2 ⟨_, _, read, atEnd.symm, rfl⟩
  | more read _ _ => exact lookAhead_iff.2 ⟨_, _, read, rfl, rfl⟩

theorem lookAhead_head {kind next : Token.Kind} {kinds : List Token.Kind}
    (run : Yields Parser.lookAhead s next t) (stands : s.At (kind :: kinds)) (inside : kind ≠ .eof) :
    ∃ more, kinds = next :: more := by
  obtain ⟨token, after, read, rfl, rfl⟩ := lookAhead_iff.1 run
  cases stands.reads inside with
  | last again atEnd =>
      rw [read] at again
      cases again
      exact ⟨[], by rw [atEnd]⟩
  | more again _ _ =>
      rw [read] at again
      cases again
      exact ⟨_, rfl⟩

end Yields

end Docblock.TypeExpr
