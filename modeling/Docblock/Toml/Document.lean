import Docblock.Toml.Literal
import Docblock.Toml.Quoted

/-!
# TOML documents

The grammar of lines, keys and values. A reader takes a part off the front of a text; a text that
does not fit the grammar has no reading.
-/

set_option autoImplicit false

namespace Docblock.Toml

abbrev Reader := StateT Text Option

namespace Reader

def isSpace (c : Char) : Bool :=
  c == ' ' || c == '\t'

def spaces : Reader Unit :=
  modify (·.dropWhile isSpace)

def char (c : Char) : Reader Unit := fun s =>
  match s with
  | first :: rest => if first = c then some ((), rest) else none
  | [] => none

def peek : Reader (Option Char) :=
  List.head? <$> get

def comment : Reader Unit := do
  if (← peek) = some '#' then modify (·.dropWhile Quoted.isPlain)

def lineEnd : Reader Unit := fun s =>
  if s.isEmpty then some ((), s) else (Quoted.dropLineEnd s).map fun rest => ((), rest)

def restOfLine : Reader Unit := do
  spaces
  comment
  lineEnd

def gapTimes : Nat → Reader Unit
  | 0 => pure ()
  | count + 1 => do
      spaces
      match ← peek with
      | some '#' => do comment; lineEnd; gapTimes count
      | some '\n' | some '\r' => do lineEnd; gapTimes count
      | _ => pure ()

def gap : Reader Unit := do
  gapTimes ((← get).length + 1)

def isKeyChar (c : Char) : Bool :=
  c.isAlphanum || c == '_' || c == '-'

def keyPart : Reader Text := do
  match ← peek with
  | some '"' => do char '"'; Quoted.basic
  | some '\'' => do char '\''; Quoted.literal
  | _ =>
      let s ← get
      let part := s.takeWhile isKeyChar
      if part.isEmpty then failure
      set (s.dropWhile isKeyChar)
      return part

def keyTimes : Nat → Reader (List Text)
  | 0 => failure
  | count + 1 => do
      spaces
      let part ← keyPart
      spaces
      if (← peek) = some '.' then
        char '.'
        return part :: (← keyTimes count)
      else return [part]

/-- The bound that arrays in arrays, tables in values and parts of keys stay below. -/
def nestingBound : Nat := 80

def key : Reader (List Text × Text) := do
  let parts ← keyTimes (nestingBound - 1)
  match parts.getLast? with
  | some last => return (parts.dropLast, last)
  | none => failure

def scalar : Reader Item := do
  match ← peek with
  | some '"' | some '\'' => .text <$> Quoted.read
  | _ =>
      let (literal, rest) := Literal.split (← get)
      let item ← Literal.read literal
      set rest
      return item

def pair (value : Reader Item) : Reader Pair := do
  let (path, last) ← key
  char '='
  spaces
  return ⟨path, last, ← value⟩

def elements (value : Reader Item) : Nat → Reader (List Item)
  | 0 => failure
  | count + 1 => do
      gap
      if (← peek) = some ']' then
        char ']'
        return []
      let first ← value
      gap
      if (← peek) = some ',' then
        char ','
        return first :: (← elements value count)
      else
        char ']'
        return [first]

def members (value : Reader Item) : Nat → Reader (List Pair)
  | 0 => failure
  | count + 1 => do
      let first ← pair value
      spaces
      if (← peek) = some ',' then
        char ','
        return first :: (← members value count)
      else
        char '}'
        return [first]

def inlineTable (value : Reader Item) : Reader Item := do
  spaces
  if (← peek) = some '}' then
    char '}'
    return .table .inline []
  let pairs ← members value (← get).length
  let entries ← Entries.assignAll .inline pairs []
  return .table .inline entries

def value : Nat → Reader Item
  | 0 => scalar
  | depth + 1 => do
      match ← peek with
      | some '[' => do
          char '['
          .array <$> elements (value depth) (← get).length
      | some '{' => do
          char '{'
          inlineTable (value depth)
      | _ => scalar

def header : Reader Header := do
  let repeats := decide ((← peek) = some '[')
  if repeats then char '['
  let (path, last) ← key
  char ']'
  if repeats then char ']'
  return ⟨path, last, repeats⟩

end Reader

inductive Line where
  | header (header : Header)
  | pair (pair : Pair)

namespace Reader

/-- One line, with all the lines that its value runs over; nothing if it is blank or a comment. -/
def line : Reader (Option Line) := do
  spaces
  match ← peek with
  | none | some '\n' | some '\r' | some '#' => do
      restOfLine
      return none
  | some '[' => do
      char '['
      let header ← header
      restOfLine
      return some (.header header)
  | _ => do
      let pair ← pair (value (nestingBound - 1))
      restOfLine
      return some (.pair pair)

def lines : Nat → Reader (List Line)
  | 0 => failure
  | count + 1 => do
      let first ← line
      let rest ← if (← get).isEmpty then pure [] else lines count
      return first.toList ++ rest

end Reader

def sections : List Line → List Pair × List (Header × List Pair)
  | [] => ([], [])
  | .pair pair :: rest =>
      let (pairs, tables) := sections rest
      (pair :: pairs, tables)
  | .header header :: rest =>
      let (pairs, tables) := sections rest
      ([], (header, pairs) :: tables)

/-- Reads a document. The mark of byte order that may stand in front of it is no part of it. -/
def read (document : Text) : Option Entries := do
  let document := (Text.stripPrefix ['\uFEFF'] document).getD document
  let (lines, _) ← Reader.lines (document.length + 1) document
  let (pairs, tables) := sections lines
  let root ← Entries.assignAll .header pairs []
  root.addTables tables

end Docblock.Toml
