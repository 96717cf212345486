import Docblock.Location
import Docblock.Comment.Line

/-!
# Examples in a comment

An example is a block of lines: fenced by backticks, introduced by `@example`, or indented as code.
`cut` finds where a block ends, `build` reads it.
-/

set_option autoImplicit false

namespace Docblock

inductive ExampleKind where
  | fenced
  | javadoc
  | indented
  deriving DecidableEq

structure Example where
  kind : ExampleKind
  language : Text
  /-- The paragraph that introduces the example, empty if there is none. -/
  description : Text
  /-- The example as it stands, with its fences and its indentation. -/
  raw : Text
  val : Text
  caption : Option Text
  location : Location

namespace Example

def same (a b : Example) : Bool :=
  a.kind == b.kind && a.language == b.language && a.description == b.description &&
    a.raw == b.raw && a.val == b.val && a.caption == b.caption

end Example

namespace Comment.Block

open Line

def splitBlankTail : List Text → List Text × List Text
  | [] => ([], [])
  | line :: rest =>
      match splitBlankTail rest with
      | ([], blanks) => if line.isEmpty then ([], line :: blanks) else ([line], blanks)
      | (kept, blanks) => (line :: kept, blanks)

def splitFence : List Text → Option (List Text × List Text)
  | [] => none
  | line :: rest =>
      if closesFence line then some ([line], rest)
      else (splitFence rest).map fun halves => (line :: halves.1, halves.2)

/-- The lines that belong to a block, and those that do not. Blank lines at the end of the former
are given back. -/
def giveBack (taken rest : List Text) : List Text × List Text :=
  let (kept, blanks) := splitBlankTail taken
  (kept, blanks ++ rest)

/-- Of the lines that follow the first one of an example, those that belong to it, and the others. -/
def cut (kind : ExampleKind) (rest : List Text) : List Text × List Text :=
  match kind with
  | .fenced => (splitFence rest).getD (giveBack rest [])
  | .javadoc =>
      let inside (line : Text) := (tag? line).isNone
      giveBack (rest.takeWhile inside) (rest.dropWhile inside)
  | .indented =>
      let inside (line : Text) := line.isEmpty || codeIndent ≤ indentation line
      giveBack (rest.takeWhile inside) (rest.dropWhile inside)

def withFeedBefore (lines : List Text) : Text :=
  lines.flatMap ('\n' :: ·)

def withFeedBehind (lines : List Text) : Text :=
  lines.flatMap (· ++ ['\n'])

def language (opening : Text) : Text :=
  ((Text.words (opening.dropWhile (· == '`'))).head?).getD []

/-- The language, the raw text and the code of a fenced block. The indentation of its first line is
taken off all of them. -/
def fenced (first : Text) (more : List Text) : Text × Text × Text :=
  let indent := indentation first
  let opening := dedent indent first
  let body := more.map (dedent indent)
  let val := match body.getLast? with
    | some last =>
        if closesFence last then withFeedBefore body.dropLast ++ ['\n'] else withFeedBefore body
    | none => []
  (language opening, opening ++ withFeedBefore body, val)

def indented (block : List Text) : Text :=
  withFeedBehind (block.map (dedent codeIndent))

/-- The code of a block introduced by `@example`: what follows on the first line, and the other lines
without their common indentation. -/
def javadoc (first : Text) (more : List Text) : Text :=
  let trimmed := Text.trim first
  let head := Text.trim ((Text.stripPrefix "@example".toList trimmed).getD trimmed)
  let filled := more.filter (! ·.isEmpty)
  let indent := ((filled.map indentation).min?).getD 0
  (if head.isEmpty then [] else head ++ ['\n']) ++ withFeedBehind (more.map (dedent indent))

def build (kind : ExampleKind) (lineNo : Nat) (first : Text) (more : List Text)
    (description : Text) : Example :=
  let lastSize := Text.byteSize ((more.getLast?).getD first)
  let location := Location.ofLines lineNo (lineNo + more.length) lastSize
  match kind with
  | .fenced =>
      let (language, raw, val) := fenced first more
      ⟨kind, language, description, raw, val, none, location⟩
  | .indented =>
      ⟨kind, [], description, withFeedBehind (first :: more), indented (first :: more), none, location⟩
  | .javadoc =>
      ⟨kind, [], description, withFeedBehind (first :: more), javadoc first more, none, location⟩

theorem splitBlankTail_append (lines : List Text) :
    (splitBlankTail lines).1 ++ (splitBlankTail lines).2 = lines := by
  fun_induction splitBlankTail lines <;> simp_all

theorem splitFence_append {lines taken rest : List Text} (found : splitFence lines = some (taken, rest)) :
    taken ++ rest = lines := by
  induction lines generalizing taken with
  | nil => simp [splitFence] at found
  | cons line lines induction =>
      by_cases closes : closesFence line = true
      · simp only [splitFence, closes, if_true, Option.some.injEq, Prod.mk.injEq] at found
        obtain ⟨rfl, rfl⟩ := found
        rfl
      · simp only [splitFence, closes, Bool.false_eq_true, if_false, Option.map_eq_some_iff] at found
        obtain ⟨⟨early, late⟩, found, equal⟩ := found
        simp only [Prod.mk.injEq] at equal
        obtain ⟨rfl, rfl⟩ := equal
        simp [induction found]

theorem giveBack_append (taken rest : List Text) :
    (giveBack taken rest).1 ++ (giveBack taken rest).2 = taken ++ rest := by
  simp only [giveBack, ← List.append_assoc, splitBlankTail_append]

theorem cut_append (kind : ExampleKind) (rest : List Text) :
    (cut kind rest).1 ++ (cut kind rest).2 = rest := by
  cases kind with
  | fenced =>
      cases found : splitFence rest with
      | none => simp [cut, found, giveBack_append]
      | some halves => simp [cut, found, @splitFence_append rest halves.1 halves.2 found]
  | javadoc => simp [cut, giveBack_append]
  | indented => simp [cut, giveBack_append]

end Comment.Block

end Docblock
