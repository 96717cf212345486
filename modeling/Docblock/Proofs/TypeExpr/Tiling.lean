import Docblock.Proofs.Text.Bytes
import Docblock.Proofs.TypeExpr.Locality

/-!
# Tokens tile their source

Between the tokens of a source there are blanks and nothing else, and each token is what its own text is
read as.
-/

set_option autoImplicit false

namespace Docblock.TypeExpr

theorem offsetIn_append (before place : Text) :
    offsetIn (before ++ place) place = Text.byteSize before := by
  rw [offsetIn, Text.byteSize_append, Nat.add_sub_cancel]

theorem slice_of_places {source before text after : Text}
    (whole : source = before ++ (text ++ after)) :
    Text.Slice source (offsetIn source (text ++ after)) (offsetIn source after) text := by
  refine ⟨before, after, whole, ?_, ?_⟩
  · rw [whole, offsetIn_append]
  · rw [whole, ← List.append_assoc, offsetIn_append]

namespace Lexer

/-- From the place `s` on the source is tiled by these tokens, which take up the given byte ranges. -/
inductive Tiled (source : Text) : Text → List Token → List (Nat × Nat) → Prop where
  | last {s after blanks : Text} {token : Token} (read : next s = (.ok token, after))
      (atEnd : token.kind = .eof) (offset : offsetIn source token.place = Text.byteSize source)
      (gap : Text.Slice source (offsetIn source s) (Text.byteSize source) blanks)
      (blank : Text.isBlankText blanks = true) : Tiled source s [token] []
  | more {s after blanks lexeme : Text} {token : Token} {others : List Token}
      {ranges : List (Nat × Nat)} (read : next s = (.ok token, after)) (inside : token.kind ≠ .eof)
      (advances : offsetIn source s < offsetIn source after)
      (gap : Text.Slice source (offsetIn source s) (offsetIn source token.place) blanks)
      (blank : Text.isBlankText blanks = true)
      (range : Text.Slice source (offsetIn source token.place) (offsetIn source after) lexeme)
      (filled : lexeme ≠ [])
      -- the place of the one token is all of the lexeme, so it begins at its offset zero
      (alone : tokens lexeme = [.ok ⟨token.kind, lexeme⟩, .ok ⟨.eof, []⟩])
      (behind : Tiled source after others ranges) :
      Tiled source s (token :: others) ((offsetIn source token.place, offsetIn source after) :: ranges)

section Tiled

variable {source s : Text} {read : List Token} {ranges : List (Nat × Nat)}

theorem Tiled.start_le (tiled : Tiled source s read ranges) : ∀ range ∈ ranges, offsetIn source s ≤ range.1 := by
  induction tiled with
  | last => simp
  | more _ _ advances gap _ _ _ _ _ induction =>
      intro range inside
      rcases List.mem_cons.1 inside with rfl | inside
      · exact gap.le
      · have later := induction range inside
        omega

theorem Tiled.filled (tiled : Tiled source s read ranges) : ∀ range ∈ ranges, range.1 < range.2 := by
  induction tiled with
  | last => simp
  | more _ _ _ _ _ range filled _ _ induction =>
      intro other inside
      rcases List.mem_cons.1 inside with rfl | inside
      · exact range.lt filled
      · exact induction other inside

theorem Tiled.apart (tiled : Tiled source s read ranges) :
    ranges.Pairwise fun range later => range.2 ≤ later.1 := by
  induction tiled with
  | last => exact .nil
  | more _ _ _ _ _ _ _ _ behind induction => exact .cons behind.start_le induction

theorem Lexes.tokens {kind : Token.Kind} {lexeme after : Text} (lexes : Lexes kind lexeme after)
    (inside : kind ≠ .eof) : Lexer.tokens lexeme = [.ok ⟨kind, lexeme⟩, .ok ⟨.eof, []⟩] := by
  have read := lexes [] [] rfl (.nil after)
  rw [List.nil_append, List.append_nil] at read
  rw [tokens_of_next read inside]
  rfl

theorem tiled_of_tokens {before : Text} (whole : source = before ++ s)
    (all : tokens s = read.map .ok) : ∃ ranges, Tiled source s read ranges := by
  induction read generalizing before s with
  | nil =>
      obtain ⟨others, shape⟩ := tokens_eq_cons s
      rw [shape] at all
      cases all
  | cons token others induction =>
      obtain ⟨results, shape⟩ := tokens_eq_cons s
      rcases read : next s with ⟨result, after⟩
      obtain rfl : result = .ok token := by
        rw [shape, read] at all
        exact (List.cons.inj all).1
      by_cases atEnd : token.kind = .eof
      · obtain rfl : others = [] := by
          rw [tokens_of_last read atEnd] at all
          exact List.map_eq_nil_iff.1 (List.cons.inj all).2.symm
        obtain ⟨place, -, blank⟩ := place_of_last read atEnd
        refine ⟨[], .last read atEnd ?_ ?_ blank⟩
        · simp [place, offsetIn, Text.byteSize]
        · refine ⟨before, [], by simp [whole], ?_, by rw [whole]⟩
          rw [whole, offsetIn_append]
      · obtain ⟨blanks, lexeme, rfl, blank, filled, place, lexes⟩ := next_local read atEnd
        have others : tokens after = others.map .ok := by
          rw [tokens_of_next read atEnd] at all
          exact (List.cons.inj all).2
        have atGap : source = before ++ (blanks ++ (lexeme ++ after)) := by simp [whole]
        have atLexeme : source = (before ++ blanks) ++ (lexeme ++ after) := by simp [whole]
        have behindLexeme : source = (before ++ blanks ++ lexeme) ++ after := by simp [whole]
        have gap := slice_of_places atGap
        have range := slice_of_places atLexeme
        obtain ⟨ranges, behind⟩ := induction behindLexeme others
        rw [← List.append_assoc, ← place] at gap
        rw [← place] at range
        exact ⟨_, .more read atEnd (Nat.lt_of_le_of_lt gap.le (range.lt filled)) gap blank range filled
          (lexes.tokens atEnd) behind⟩

/-- Where a source is read up to its end, its tokens tile it: their ranges of bytes hold something, lie one
behind the other with blanks around them, and each is read as its token. -/
theorem tokens_tile {source : Text} {read : List Token} (all : tokens source = read.map .ok) :
    ∃ ranges, Tiled source source read ranges ∧ (∀ range ∈ ranges, range.1 < range.2) ∧
      ranges.Pairwise fun range later => range.2 ≤ later.1 := by
  have whole : source = [] ++ source := rfl
  obtain ⟨ranges, tiled⟩ := tiled_of_tokens whole all
  exact ⟨ranges, tiled, tiled.filled, tiled.apart⟩

theorem pointed_names_tile : ∃ read, tokens " a.b.<...c. >".toList = read.map .ok ∧
    read.map Token.kind = [.name "a.b".toList, .dotLess, .ellipsis, .name "c.".toList, .greater, .eof] ∧
    ∃ ranges, Tiled " a.b.<...c. >".toList " a.b.<...c. >".toList read ranges ∧
      (∀ range ∈ ranges, range.1 < range.2) ∧ ranges.Pairwise fun range later => range.2 ≤ later.1 := by
  let read : List Token := [⟨.name "a.b".toList, "a.b.<...c. >".toList⟩, ⟨.dotLess, ".<...c. >".toList⟩,
    ⟨.ellipsis, "...c. >".toList⟩, ⟨.name "c.".toList, "c. >".toList⟩, ⟨.greater, ">".toList⟩, ⟨.eof, []⟩]
  have all : tokens " a.b.<...c. >".toList = read.map .ok := rfl
  exact ⟨read, all, rfl, tokens_tile all⟩

end Tiled

end Lexer

end Docblock.TypeExpr
