import Docblock.Script.Tree

/-!
# Readers of scripts

A reader takes tokens from the front of a list and gives the trees over them, or does not apply. The
readers below put others together. A reader of one construct is given the readers of the constructs
that can be nested in it, which it asks for by a `Goal`.
-/

set_option autoImplicit false

namespace Docblock.Script

inductive Goal where
  | statement
  | expression
  | assignment
  | binary (level : Nat)
  | unary
  | element
  | type

/-- Reads the front of a list of tokens. -/
abbrev Reader := List Token → Option (List Tree × List Token)

namespace Reader

def token (named : Bool) (condition : Token → Bool) : Reader
  | [] => none
  | first :: rest => if condition first then some ([.leaf named], rest) else none

def ahead (condition : Token → Bool) : Reader
  | [] => none
  | first :: rest => if condition first then some ([], first :: rest) else none

def aheadOrEnd (condition : Token → Bool) : Reader
  | [] => some ([], [])
  | first :: rest => if condition first then some ([], first :: rest) else none

def seq : List Reader → Reader
  | [], tokens => some ([], tokens)
  | reader :: readers, tokens =>
      match reader tokens with
      | none => none
      | some (trees, rest) => (seq readers rest).map fun more => (trees ++ more.1, more.2)

def oneOf : List Reader → Reader
  | [], _ => none
  | reader :: readers, tokens => (reader tokens).or (oneOf readers tokens)

def opt (reader : Reader) : Reader := fun tokens =>
  (reader tokens).or (some ([], tokens))

def node (reader : Reader) : Reader := fun tokens =>
  (reader tokens).map fun result => ([.node result.1], result.2)

def times (reader : Reader) : Nat → Reader
  | 0, tokens => some ([], tokens)
  | count + 1, tokens =>
      match reader tokens with
      | none => some ([], tokens)
      | some (trees, rest) =>
          if rest.length < tokens.length then
            (times reader count rest).map fun more => (trees ++ more.1, more.2)
          else some ([], tokens)

def many (reader : Reader) : Reader := fun tokens =>
  times reader tokens.length tokens

def growTimes (step : Reader) : Nat → List Tree → Reader
  | 0, trees, tokens => some (trees, tokens)
  | count + 1, trees, tokens =>
      match step tokens with
      | none => some (trees, tokens)
      | some (more, rest) =>
          if rest.length < tokens.length then growTimes step count [.node (trees ++ more)] rest
          else some (trees, tokens)

/-- Reads a thing, and as often as it applies what makes a larger construct of all before. -/
def grow (first step : Reader) : Reader := fun tokens =>
  match first tokens with
  | none => none
  | some (trees, rest) => growTimes step rest.length trees rest

def growOnce (first step : Reader) : Reader := fun tokens =>
  match first tokens with
  | none => none
  | some (trees, rest) => growTimes step 1 trees rest

def mark (text : String) : Reader :=
  let text := text.toList
  token false fun t => t.kind == .mark && t.text == text

def braced (reader : Reader) : Reader :=
  node (seq [mark "\x7b", reader, mark "\x7d"])

def substituted (reader : Reader) : Reader :=
  node (seq [mark "$\x7b", reader, mark "\x7d"])

def keyword (text : String) : Reader :=
  let text := text.toList
  token false fun t => t.kind == .word && t.text == text

def wordOf (named : Bool) (words : List Text) : Reader :=
  token named fun t => t.kind == .word && words.contains t.text

def sameLine (reader : Reader) : Reader :=
  seq [ahead fun t => !t.broken, reader]

/-- Things with a separator between each two, which may also stand at the end. -/
def separated (separator item : Reader) : Reader :=
  seq [item, many (seq [separator, item]), opt separator]

def commas (item : Reader) : Reader :=
  separated (mark ",") item

def reserved : List Text :=
  ["break", "case", "catch", "class", "const", "continue", "debugger", "default", "delete", "do",
   "else", "enum", "export", "extends", "finally", "for", "function", "if", "import", "in",
   "instanceof", "new", "return", "switch", "throw", "try", "typeof", "var", "void", "while",
   "with"].map String.toList

def name : Reader :=
  token true fun t => t.kind == .word && !reserved.contains t.text

def anyName : Reader :=
  token true fun t => t.kind == .word

def string : Reader :=
  token true fun t => t.kind == .string

def literal : Reader :=
  token true fun t => t.kind == .number || t.kind == .string || t.kind == .regex

def chunk : Reader :=
  token true fun t => t.kind == .chunk

def semicolon : Reader :=
  opt (mark ";")

end Reader

end Docblock.Script
