import Docblock.Script.Grammar.Statement

/-!
# Trees of scripts

`read` closes the constructs over each other; how deep they may be nested is bounded by the number of
tokens. A token that no statement begins with becomes a tree of its own, so every script has a tree.
-/

set_option autoImplicit false

namespace Docblock.Script

/-- Reads a construct with so many constructs nested in one another. -/
def read (dialect : Dialect) : Nat → Goal → List Token → Option (List Tree × List Token)
  | 0, _, _ => none
  | depth + 1, goal, tokens => Grammar.construct dialect (fun goal => read dialect depth goal) goal tokens

/-- Reads statements, at most `count` steps; what begins no statement is passed over. -/
def statements (dialect : Dialect) (depth : Nat) : Nat → List Token → List Tree
  | 0, _ => []
  | _ + 1, [] => []
  | count + 1, first :: rest =>
      match read dialect depth .statement (first :: rest) with
      | some (trees, after) =>
          if after.length < (first :: rest).length then trees ++ statements dialect depth count after
          else .leaf false :: statements dialect depth count rest
      | none => .leaf false :: statements dialect depth count rest

def parse (dialect : Dialect) (tokens : List Token) : List Tree :=
  statements dialect (16 * (tokens.length + 1)) (tokens.length + 1) tokens

end Docblock.Script
