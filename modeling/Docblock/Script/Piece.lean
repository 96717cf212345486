import Docblock.Script.Spot

/-!
# Pieces of a script

A JavaScript or TypeScript source is cut into blanks, comments and tokens; the pieces put together
are the source again. The cutter keeps track of what is open, and of the spot behind each of it.
-/

set_option autoImplicit false

namespace Docblock.Script

inductive PieceKind where
  | blank
  | comment
  | word
  | number
  | string
  | regex
  | mark
  | chunk
  deriving DecidableEq

structure Piece where
  kind : PieceKind
  text : Text

inductive FrameKind where
  | bracket
  | template
  | substitution
  | openingTag
  | closingTag
  | content
  | angles
  deriving DecidableEq

structure Frame where
  kind : FrameKind
  behind : Spot

structure Cutter where
  dialect : Dialect
  frames : List Frame
  spot : Spot

namespace Cutter

def start (dialect : Dialect) : Cutter :=
  ⟨dialect, [], .start⟩

/-- A blank of scripts: white space, or one of the invisible characters that count as such. -/
def isBlank (c : Char) : Bool :=
  Text.isBlank c || c == '\uFEFF' || c == '\u2060' || c == '\u200B'

/-- The characters that no word holds, blanks apart. -/
def wordBreaks : Text :=
  [':', ';', '\x60', '"', '\'', '@', '#', '.', ',', '|', '^', '&', '<', '=', '>', '+', '-', '*', '/',
    '%', '?', '!', '~', '(', ')', '[', ']', '{', '}']

def isWordChar (c : Char) : Bool :=
  !isBlank c && !Text.isControl c && !wordBreaks.contains c

def isLineEnd (c : Char) : Bool :=
  c == '\n' || c == '\r' || c == '\u2028' || c == '\u2029'

def blockComment? : Text → Option Nat
  | '*' :: '/' :: _ => some 2
  | _ :: rest => (blockComment? rest).map (· + 1)
  | [] => none

/-- The number of characters up to the quote that ends a string, this included. With `escapes` a backslash
takes the meaning of the character behind it; `escaped` tells that one stands in front. -/
def stringBody (quote : Char) (escapes escaped : Bool) : Text → Nat
  | [] => 0
  | c :: rest =>
      if escaped then stringBody quote escapes false rest + 1
      else if c = quote then 1
      else stringBody quote escapes (escapes && c == '\\') rest + 1

def templateChunk : Text → Nat
  | '\x60' :: _ => 0
  | '$' :: '{' :: _ => 0
  | '\\' :: _ :: rest => templateChunk rest + 2
  | _ :: rest => templateChunk rest + 1
  | [] => 0

/-- The number of characters of a regular expression behind its first slash, with its flags; none if
the line ends before it does. A slash in a character class does not end it, nor does one behind a backslash, as
`escaped` tells. -/
def regexBody (inClass escaped : Bool) : Text → Option Nat
  | [] => none
  | c :: rest =>
      if isLineEnd c then none
      else if escaped then (regexBody inClass false rest).map (· + 1)
      else if c = '\\' then (regexBody inClass true rest).map (· + 1)
      else if c = '/' ∧ inClass = false then some (1 + (rest.takeWhile Char.isAlpha).length)
      else
        (regexBody (if c = '[' then true else if c = ']' then false else inClass) false rest).map (· + 1)

def numberBody (previous : Char) : Text → Nat
  | [] => 0
  | c :: rest =>
      if isWordChar c || c == '.' then numberBody c rest + 1
      else if (c == '+' || c == '-') && (previous == 'e' || previous == 'E') then numberBody c rest + 1
      else 0

/-- The marks of more than one character, longer ones first. None begins with `>`, so that closing
angle brackets stay apart. -/
def longMarks : List Text :=
  ["...", "===", "!==", "**=", "<<=", "&&=", "||=", "??=", "=>", "==", "!=", "<=", "&&", "||", "??",
   "?.", "++", "--", "+=", "-=", "*=", "/=", "%=", "&=", "|=", "^=", "<<", "**"].map String.toList

def markSize (s : Text) : Nat :=
  match longMarks.find? (·.isPrefixOf s) with
  | some mark =>
      if mark == ['?', '.'] && ((s.drop 2).head?.map Char.isDigit).getD false then 1 else mark.length
  | none => 1

def endsElement (name : Text) : Text → Bool
  | [] => false
  | c :: rest =>
      (c == '<' && ('/' :: name).isPrefixOf rest &&
        ((rest.drop (name.length + 1)).dropWhile isBlank).head? == some '>') ||
      endsElement name rest

/-- Whether `<` begins an element and not a list of type parameters, which has a comma, a bound or a default, or
no tag that ends it. -/
def beginsElement (dialect : Dialect) (rest : Text) : Bool :=
  match rest with
  | [] => false
  | c :: _ =>
      if dialect.typed = false ∨ c = '>' then true
      else
        let name := rest.takeWhile isWordChar
        let after := (rest.dropWhile isWordChar).dropWhile isBlank
        !name.isEmpty && name != "const".toList && (match after with
          | ',' :: _ => false
          | '=' :: _ => false
          | '>' :: content => endsElement name content
          | _ => !("extends".toList.isPrefixOf after))

def beginsMarkup (s : Text) : Bool :=
  "<!--".toList.isPrefixOf s || "-->".toList.isPrefixOf s

def isIn (cutter : Cutter) (kind : FrameKind) : Bool :=
  cutter.frames.head?.map Frame.kind == some kind

def go (cutter : Cutter) (spot : Spot) : Cutter :=
  { cutter with spot := spot }

def push (cutter : Cutter) (kind : FrameKind) (inside behind : Spot) : Cutter :=
  { cutter with frames := ⟨kind, behind⟩ :: cutter.frames, spot := inside }

def pop (cutter : Cutter) : Cutter :=
  match cutter.frames with
  | [] => cutter.go (cutter.spot.pastStatement [])
  | frame :: frames => { cutter with frames := frames, spot := frame.behind }

def openBracket (cutter : Cutter) (bracket : Bracket) : Cutter :=
  cutter.push .bracket (.inside [bracket.opening] (cutter.spot.holdsStatements cutter.dialect bracket))
    (cutter.spot.pastBracket cutter.dialect bracket)

def passMark (cutter : Cutter) (mark : Text) : Cutter :=
  match mark with
  | ['('] => cutter.openBracket .round
  | ['['] => cutter.openBracket .square
  | ['{'] => cutter.openBracket .curly
  | [')'] | [']'] | ['}'] => cutter.pop
  | ['\x60'] => cutter.push .template (.inside mark false) (cutter.spot.past mark false)
  | ['<'] =>
      if cutter.isIn .angles || cutter.spot.inType then
        cutter.push .angles (.inside mark false) (cutter.spot.past ['>'] false)
      else cutter.go (cutter.spot.past mark true)
  | ['>'] => if cutter.isIn .angles then cutter.pop else cutter.go (cutter.spot.past mark true)
  | _ => cutter.go (cutter.spot.pastMark cutter.dialect mark)

def passTagMark (cutter : Cutter) (mark : Char) : Cutter :=
  match mark with
  | '{' => cutter.push .bracket (.inside ['{'] false) (cutter.spot.past ['}'] false)
  | '<' =>
      let behind := cutter.spot.past ['>'] false
      if cutter.spot.last.head?.map isWordChar = some true then
        cutter.push .angles ((Spot.inside ['<'] false).past ['<'] false) behind
      else cutter.push .openingTag (.inside ['<'] false) behind
  | '>' =>
      match cutter.frames with
      | ⟨.closingTag, _⟩ :: _ => cutter.pop.pop
      | ⟨_, behind⟩ :: frames =>
          if cutter.spot.last == ['/'] then cutter.pop
          else { cutter with frames := ⟨.content, behind⟩ :: frames }
      | [] => cutter
  | c => cutter.go (cutter.spot.past [c] false)

def spacing? (first : Char) (rest : Text) : Option (PieceKind × Nat) :=
  if isBlank first then some (.blank, (rest.takeWhile isBlank).length)
  else match first, rest with
    | '/', '/' :: after => some (.comment, 1 + (after.takeWhile (! isLineEnd ·)).length)
    | '/', '*' :: after => (blockComment? after).map fun size => (.comment, 1 + size)
    | _, _ => none

/-- Cuts in code: the kind of the piece, how many characters follow its first one, and the cutter
behind it. -/
def code (cutter : Cutter) (first : Char) (rest : Text) : PieceKind × Nat × Cutter :=
  if first = '"' ∨ first = '\'' then
    (.string, stringBody first true false rest, cutter.go (cutter.spot.past ['"'] false))
  else if first.isDigit || (first == '.' && (rest.head?.map Char.isDigit).getD false) then
    (.number, numberBody first rest, cutter.go (cutter.spot.past ['0'] false))
  else if isWordChar first || first == '#' then
    let more := rest.takeWhile isWordChar
    (.word, more.length, cutter.go (cutter.spot.pastWord cutter.dialect (first :: more)))
  else if cutter.spot.operand ∧ beginsMarkup (first :: rest) then
    (.blank, (rest.takeWhile (! isLineEnd ·)).length, cutter)
  else if first = '<' ∧ cutter.dialect.elements ∧ cutter.spot.operand ∧ beginsElement cutter.dialect rest then
    (.mark, 0, cutter.push .openingTag (.inside ['<'] false) (cutter.spot.past ['>'] false))
  else
    match if first = '/' ∧ cutter.spot.operand then regexBody false false rest else none with
    | some size => (.regex, size, cutter.go (cutter.spot.past ['/'] false))
    | none =>
        let size := markSize (first :: rest) - 1
        (.mark, size, cutter.passMark (first :: rest.take size))

def tag (cutter : Cutter) (first : Char) (rest : Text) : PieceKind × Nat × Cutter :=
  if first = '"' ∨ first = '\'' then
    (.string, stringBody first false false rest, cutter.go (cutter.spot.past ['"'] false))
  else if isWordChar first then
    let more := rest.takeWhile isWordChar
    (.word, more.length, cutter.go (cutter.spot.past (first :: more) false))
  else (.mark, 0, cutter.passTagMark first)

def template (cutter : Cutter) (first : Char) (rest : Text) : PieceKind × Nat × Cutter :=
  match first, rest with
  | '\x60', _ => (.mark, 0, cutter.pop)
  | '$', '{' :: _ => (.mark, 1, cutter.push .substitution (.inside ['$', '{'] false) cutter.spot)
  | _, _ => (.chunk, templateChunk (first :: rest) - 1, cutter)

def content (cutter : Cutter) (first : Char) (rest : Text) : PieceKind × Nat × Cutter :=
  if first = '<' then
    match rest.dropWhile isBlank with
    | '/' :: _ => (.mark, 0, cutter.push .closingTag (.inside ['<'] false) cutter.spot)
    | _ => (.mark, 0, cutter.push .openingTag (.inside ['<'] false) cutter.spot)
  else if first = '{' then (.mark, 0, cutter.push .bracket (.inside ['{'] false) cutter.spot)
  else (.chunk, (rest.takeWhile fun c => c != '<' && c != '{').length, cutter)

def step (cutter : Cutter) (first : Char) (rest : Text) : PieceKind × Nat × Cutter :=
  match cutter.frames.head?.map Frame.kind with
  | some .template => cutter.template first rest
  | some .content => cutter.content first rest
  | some .openingTag | some .closingTag =>
      match spacing? first rest with
      | some (kind, size) => (kind, size, cutter)
      | none => cutter.tag first rest
  | _ =>
      match spacing? first rest with
      | some (kind, size) => (kind, size, cutter)
      | none => cutter.code first rest

end Cutter

def cutFrom (cutter : Cutter) (s : Text) : List Piece :=
  match s with
  | [] => []
  | first :: rest =>
      let (kind, size, behind) := cutter.step first rest
      ⟨kind, first :: rest.take size⟩ :: cutFrom behind (rest.drop size)
termination_by s.length
decreasing_by
  simp only [List.length_cons, List.length_drop]
  omega

def interpreterLine (source : Text) : Nat :=
  match source with
  | '#' :: '!' :: rest => 2 + (rest.takeWhile (! Cutter.isLineEnd ·)).length
  | _ => 0

/-- The pieces of a source. The line that names an interpreter counts as blank. -/
def pieces (dialect : Dialect) (source : Text) : List Piece :=
  let size := interpreterLine source
  let code := cutFrom (Cutter.start dialect) (source.drop size)
  if size = 0 then code else ⟨.blank, source.take size⟩ :: code

theorem cutFrom_flatten (cutter : Cutter) (s : Text) :
    ((cutFrom cutter s).map Piece.text).flatten = s := by
  fun_induction cutFrom cutter s with
  | case1 => rfl
  | case2 cutter first rest kind size behind _ induction =>
      simp only [List.map_cons, List.flatten_cons, induction, List.cons_append,
        List.take_append_drop]

theorem pieces_flatten (dialect : Dialect) (source : Text) :
    ((pieces dialect source).map Piece.text).flatten = source := by
  unfold pieces
  by_cases plain : interpreterLine source = 0
  · simp [plain, cutFrom_flatten]
  · simp [plain, cutFrom_flatten]

end Docblock.Script
