import Docblock.Text.Basic

/-!
# Globs

A glob is a pattern for paths without a slash at the end. A star or question mark matches no slash;
two stars between slashes match any number of directories.
-/

set_option autoImplicit false

namespace Docblock.Glob

inductive Token where
  | literal (c : Char)
  /-- `?`, one character but a slash. -/
  | any
  /-- `*`, any number of characters but slashes. -/
  | star
  /-- `**` with the slash behind it, at the beginning. -/
  | leading
  /-- `**` with the slash in front of it, at the end. -/
  | trailing
  /-- `**` with the slashes around it. -/
  | between
  /-- `[a-z]`, or `[!a-z]` if it is negated. -/
  | oneOf (negated : Bool) (ranges : List (Char × Char))
  /-- `{a,b}` -/
  | branches (branches : List (List Token))

/-! ## Reading -/

structure OpenClass where
  negated : Bool
  ranges : List (Char × Char)
  inRange : Bool

/-- Where a glob is being read: the finished branches of each open brace, and the tokens of the branch
that is being read, the last one first. -/
structure Reading where
  braces : List (List (List Token) × List Token)
  branches : List (List Token)
  tokens : List Token
  last : Option Char

namespace Reading

def start : Reading :=
  ⟨[], [], [], none⟩

def push (token : Token) (last : Char) (reading : Reading) : Reading :=
  { reading with tokens := token :: reading.tokens, last := some last }

def openBrace (reading : Reading) : Reading :=
  ⟨(reading.branches, reading.tokens) :: reading.braces, [], [], some '{'⟩

def nextBranch (reading : Reading) : Reading :=
  { reading with
    branches := reading.branches ++ [reading.tokens.reverse], tokens := [], last := some ',' }

def closeBrace? (reading : Reading) : Option Reading :=
  match reading.braces with
  | [] => none
  | (branches, tokens) :: braces =>
      some ⟨braces, branches,
        .branches (reading.branches ++ [reading.tokens.reverse]) :: tokens, some '}'⟩

/-- Takes two stars in a row that stand before `rest`; tells whether the slash behind them belongs to
them. -/
def stars (rest : Text) (reading : Reading) : Reading × Bool :=
  let plain := ((reading.push .star '*').push .star '*', false)
  let next := rest.head?
  let branchEnd := !reading.braces.isEmpty && (next == some ',' || next == some '}')
  if reading.tokens.isEmpty then
    if next = none then (reading.push .leading '*', false)
    else if next = some '/' then (reading.push .leading '/', true)
    else plain
  else if reading.last ≠ some '/' then plain
  else if next = some '/' ∨ next = none ∨ branchEnd then
    let slash := decide (next = some '/')
    let last := if slash then '/' else '*'
    match reading.tokens with
    | .leading :: before => ({ reading with tokens := before }.push .leading last, slash)
    | .trailing :: before => ({ reading with tokens := before }.push .trailing last, slash)
    | _ :: before =>
        let token := if slash then Token.between else Token.trailing
        ({ reading with tokens := before }.push token last, slash)
    | [] => plain
  else plain

def finish? (reading : Reading) : Option (List Token) :=
  if reading.braces.isEmpty then some reading.tokens.reverse else none

end Reading

/-- Reads one character of a class; `first` tells that none stands before it. Nothing is a class that is
wrong, and `none` inside is the end of the class. -/
def classChar (first : Bool) (c : Char) (k : OpenClass) : Option (Option OpenClass) :=
  if c = ']' ∧ !first then some none
  else if c = '-' ∧ !first ∧ !k.inRange then some (some { k with inRange := true })
  else match k.inRange, k.ranges with
    | true, (low, _) :: before =>
        if c < low then none else some (some { k with ranges := (low, c) :: before, inRange := false })
    | _, ranges => some (some { k with ranges := (c, c) :: ranges, inRange := false })

/-- The token of a class that is closed. A hyphen at its end stands for itself. -/
def OpenClass.token (k : OpenClass) : Token :=
  .oneOf k.negated (if k.inRange then ('-', '-') :: k.ranges else k.ranges).reverse

def readClass (first : Bool) (k : OpenClass) : Text → Option (Token × Text)
  | [] => none
  | c :: rest =>
      match classChar first c k with
      | none => none
      | some none => some (k.token, rest)
      | some (some k) => readClass false k rest

def openClass : Text → Option (Token × Text)
  | '!' :: rest => readClass true ⟨true, [], false⟩ rest
  | '^' :: rest => readClass true ⟨true, [], false⟩ rest
  | rest => readClass true ⟨false, [], false⟩ rest

def readTimes (reading : Reading) : Nat → Text → Option (List Token)
  | _, [] => reading.finish?
  | 0, _ :: _ => none
  | count + 1, c :: rest =>
      match c, rest with
      | '?', _ => readTimes (reading.push .any c) count rest
      | '*', '*' :: rest =>
          let (reading, slash) := reading.stars rest
          readTimes reading count (if slash then rest.drop 1 else rest)
      | '*', _ => readTimes (reading.push .star c) count rest
      | '[', _ =>
          match openClass rest with
          | none => none
          | some (token, rest) => readTimes (reading.push token ']') count rest
      | '{', _ => readTimes reading.openBrace count rest
      | '}', _ =>
          match reading.closeBrace? with
          | none => none
          | some reading => readTimes reading count rest
      | '\\', escaped :: rest => readTimes (reading.push (.literal escaped) escaped) count rest
      | '\\', [] => none
      | _, _ =>
          if c = ',' ∧ !reading.braces.isEmpty then readTimes reading.nextBranch count rest
          else readTimes (reading.push (.literal c) c) count rest

def read (pattern : Text) : Option (List Token) :=
  readTimes .start pattern.length pattern

/-! ## Matching -/

/-- Whether what is left behind some front of the text satisfies a condition, where all characters of the
front satisfy another one. -/
def afterSome (inFront : Char → Bool) (behind : Text → Bool) : Text → Bool
  | [] => behind []
  | c :: rest => behind (c :: rest) || (inFront c && afterSome inFront behind rest)

def afterSlash (behind : Text → Bool) : Text → Bool
  | [] => false
  | c :: rest => (c == '/' && behind rest) || afterSlash behind rest

def afterChar (isChar : Char → Bool) (behind : Text → Bool) : Text → Bool
  | [] => false
  | c :: rest => isChar c && behind rest

def inSomeRange (ranges : List (Char × Char)) (c : Char) : Bool :=
  ranges.any fun range => range.1 ≤ c && c ≤ range.2

mutual

def matchToken (behind : Text → Bool) : Token → Text → Bool
  | .literal c, s => afterChar (· == c) behind s
  | .any, s => afterChar (· != '/') behind s
  | .star, s => afterSome (· != '/') behind s
  | .leading, s => behind s || afterSlash behind s
  | .trailing, s => afterChar (· == '/') (afterSome (fun _ => true) behind) s
  | .between, s => afterChar (· == '/') (fun rest => behind rest || afterSlash behind rest) s
  | .oneOf negated ranges, s => afterChar (fun c => inSomeRange ranges c != negated) behind s
  | .branches branches, s => matchBranches behind false branches s

/-- Whether tokens match a front of the text such that the rest satisfies a condition. -/
def matchTokens (behind : Text → Bool) : List Token → Text → Bool
  | [], s => behind s
  | token :: tokens, s => matchToken (matchTokens behind tokens) token s

/-- Whether one of several branches matches. Empty ones count only if all are empty; `filled` tells that
one has been found that is not. -/
def matchBranches (behind : Text → Bool) (filled : Bool) : List (List Token) → Text → Bool
  | [], s => !filled && behind s
  | [] :: branches, s => matchBranches behind filled branches s
  | (token :: tokens) :: branches, s =>
      matchToken (matchTokens behind tokens) token s || matchBranches behind true branches s

end

/-- Whether a glob matches a path. Two stars alone match every path. -/
def isMatch (glob : List Token) (path : Text) : Bool :=
  match glob with
  | [.leading] => true
  | _ => matchTokens List.isEmpty glob path

end Docblock.Glob
