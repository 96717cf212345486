import Mathlib.Data.List.SplitBy
import Docblock.Proofs.Comment.Placement
import Docblock.Proofs.Comment.Ranges
import Docblock.Proofs.Text.Bytes

/-!
# Values of examples

The value of an example is its raw text without what marks it as an example: the lines of a fence, the
indentation of code, or the `@example` it begins with and the indentation of the lines below.
-/

set_option autoImplicit false

namespace Docblock

namespace Text

variable {s t : Text}

/-! ## Visible characters -/

def visible (s : Text) : Text :=
  s.filter (! isBlank ·)

theorem visible_append (s t : Text) : visible (s ++ t) = visible s ++ visible t := by
  simp [visible]

theorem visible_blank (blank : isBlankText s = true) : visible s = [] := by
  rw [visible, List.filter_eq_nil_iff]
  intro c inside
  simp [List.all_eq_true.1 blank c inside]

theorem visible_trim (s : Text) : visible (trim s) = visible s := by
  obtain ⟨front, back, blankFront, blankBack, whole⟩ := exists_blanks_around_trim s
  have around : visible s = visible front ++ (visible (trim s) ++ visible back) := by
    rw [← visible_append, ← visible_append, ← whole]
  rw [around, visible_blank blankFront, visible_blank blankBack, List.nil_append, List.append_nil]

/-! ## The first word -/

def firstWord (s : Text) : Text :=
  (trimStart s).takeWhile (! isBlank ·)

theorem isChain_of_all {p : Char → Bool} {b : Bool} (all : ∀ c ∈ s, p c = b) :
    s.IsChain fun x y => (p x == p y) = true := by
  refine List.Pairwise.isChain (List.pairwise_of_forall_mem_list fun x first y second => ?_)
  rw [all x first, all y second, beq_iff_eq]

theorem words_blank_append (blank : isBlankText s = true) (visible : ∀ c ∈ t.head?, isBlank c = false) :
    words (s ++ t) = words t := by
  have apart : ∀ x ∈ s.getLast?, ∀ y ∈ t.head?, (isBlank x == isBlank y) = false := by
    intro x last y first
    rw [visible y first, List.all_eq_true.1 blank x (List.mem_of_getLast? last)]
    rfl
  have none : (s.splitBy fun a b => isBlank a == isBlank b).filter (! isBlankText ·) = [] := by
    rw [List.filter_eq_nil_iff]
    intro part inside
    have within : ∀ c ∈ part, c ∈ s := by
      intro c member
      rw [← List.flatten_splitBy (fun a b => isBlank a == isBlank b) s]
      exact List.mem_flatten.2 ⟨part, inside, member⟩
    have blankPart : isBlankText part = true :=
      List.all_eq_true.2 fun c member => List.all_eq_true.1 blank c (within c member)
    simp [blankPart]
  rw [words, List.splitBy_append apart, List.filter_append, none, List.nil_append, words]

theorem words_cons (filled : s ≠ []) (visible : ∀ c ∈ s, isBlank c = false)
    (blank : ∀ c ∈ t.head?, isBlank c = true) :
    words (s ++ t) = s :: words t := by
  have apart : ∀ x ∈ s.getLast?, ∀ y ∈ t.head?, (isBlank x == isBlank y) = false := by
    intro x last y first
    rw [blank y first, visible x (List.mem_of_getLast? last)]
    rfl
  have some : isBlankText s = false := by
    obtain ⟨c, rest, rfl⟩ := List.exists_cons_of_ne_nil filled
    rw [isBlankText_cons, visible c List.mem_cons_self]
    rfl
  rw [words, List.splitBy_append apart, List.splitBy_of_isChain filled (isChain_of_all visible),
    List.singleton_append, List.filter_cons_of_pos (by simp [some]), words]

theorem head?_words (s : Text) : ((words s).head?).getD [] = firstWord s := by
  obtain ⟨blanks, blank, whole⟩ := exists_blank_append_trimStart s
  have same : words s = words (trimStart s) := by
    conv_lhs => rw [whole]
    exact words_blank_append blank fun c first => isBlank_of_head?_trimStart first
  rw [same, firstWord]
  cases shape : trimStart s with
  | nil => rfl
  | cons c more =>
      have visible : isBlank c = false := isBlank_of_head?_trimStart (by rw [shape]; rfl)
      have word : ∀ d ∈ (c :: more).takeWhile (! isBlank ·), isBlank d = false := fun d inside => by
        simpa using List.mem_takeWhile_imp inside
      have behind : ∀ d ∈ ((c :: more).dropWhile (! isBlank ·)).head?, isBlank d = true := by
        intro d first
        have head := List.head?_dropWhile_not (! isBlank ·) (c :: more)
        rw [Option.mem_def.1 first] at head
        simpa using head
      have filled : (c :: more).takeWhile (! isBlank ·) ≠ [] := by simp [visible]
      conv_lhs => rw [← List.takeWhile_append_dropWhile (p := (! isBlank ·)) (l := c :: more)]
      rw [words_cons filled word behind]
      rfl

end Text

namespace Comment

open Text Line

namespace Line

variable {line : Text} {depth : Nat}

/-! ## Indentation in bytes -/

def isIndentByte (b : UInt8) : Bool :=
  b == 32 || b == 9

/-- How many of the first `depth` bytes of the line are those of the spaces and tabs it begins with. -/
def indentBytes (depth : Nat) (line : Text) : Nat :=
  (((line.flatMap String.utf8EncodeChar).take depth).takeWhile isIndentByte).length

theorem isIndentByte_eq {c : Char} {b : UInt8} (first : b.toNat = c.toNat ∨ 128 ≤ b.toNat ∧ 128 ≤ c.toNat) :
    isIndentByte b = isIndent c := by
  rw [Bool.eq_iff_iff]
  simp only [isIndentByte, isIndent, Bool.or_eq_true, beq_iff_eq, ← UInt8.toNat_inj, ← Char.toNat_inj]
  have space : (32 : UInt8).toNat = 32 ∧ ' '.toNat = 32 := ⟨rfl, rfl⟩
  have tab : (9 : UInt8).toNat = 9 ∧ '\t'.toNat = 9 := ⟨rfl, rfl⟩
  omega

theorem utf8EncodeChar_of_isIndent {c : Char} (indent : isIndent c = true) :
    ∃ b, String.utf8EncodeChar c = [b] ∧ isIndentByte b = true := by
  rcases (by simpa [isIndent] using indent : c = ' ' ∨ c = '\t') with rfl | rfl
  · exact ⟨32, by decide, rfl⟩
  · exact ⟨9, by decide, rfl⟩

theorem indentBytes_eq (depth : Nat) (line : Text) : indentBytes depth line = min depth (indentation line) := by
  induction line generalizing depth with
  | nil => simp [indentBytes, indentation]
  | cons c rest induction =>
      cases depth with
      | zero => simp [indentBytes]
      | succ depth =>
          by_cases indent : isIndent c = true
          · obtain ⟨b, bytes, same⟩ := utf8EncodeChar_of_isIndent indent
            have next := induction depth
            have deeper : indentation (c :: rest) = indentation rest + 1 := by
              simp [indentation, indent]
            simp only [indentBytes, List.flatMap_cons, bytes, List.singleton_append, List.take_succ_cons] at next ⊢
            rw [List.takeWhile_cons_of_pos same, List.length_cons, next, deeper, Nat.succ_min_succ]
          · obtain ⟨b, more, bytes, first⟩ := exists_utf8EncodeChar c
            simp [indentBytes, bytes, isIndentByte_eq first, indent, indentation]

theorem byteSize_take {count : Nat} (shallow : count ≤ indentation line) : byteSize (line.take count) = count := by
  induction line generalizing count with
  | nil =>
      have none : count = 0 := by simpa [indentation] using shallow
      rw [none]
      rfl
  | cons c rest induction =>
      cases count with
      | zero => rfl
      | succ count =>
          by_cases indent : isIndent c = true
          · have next : count ≤ indentation rest := by
              simpa [indentation, indent] using shallow
            have single : c.utf8Size = 1 := by
              rcases (by simpa [isIndent] using indent : c = ' ' ∨ c = '\t') with rfl | rfl <;> rfl
            rw [List.take_succ_cons, byteSize, induction next, single, Nat.add_comm]
          · simp [indentation, indent] at shallow

theorem slice_dedent (depth : Nat) (line : Text) :
    Slice line (indentBytes depth line) (byteSize line) (dedent depth line) := by
  refine ⟨line.take (min depth (indentation line)), [], ?_, ?_, ?_⟩
  · rw [dedent_eq_drop, List.append_nil, List.take_append_drop]
  · rw [byteSize_take (Nat.min_le_right _ _), indentBytes_eq]
  · rw [dedent_eq_drop, List.take_append_drop]

/-! ## Indentation taken off -/

/-- `depth` spaces and tabs are taken off the line. A blank line stays as it is. -/
inductive TakenOff (depth : Nat) : Text → Text → Prop where
  | blank {line : Text} (blank : isBlankText line = true) : TakenOff depth line line
  | filled {indent rest : Text} (deep : indent.length = depth) (all : ∀ c ∈ indent, isIndent c = true)
      (filled : isBlankText rest = false) : TakenOff depth (indent ++ rest) rest

theorem takenOff_dedent (stripped : isBlankText line = true → line = [])
    (deep : isBlankText line = false → depth ≤ indentation line) : TakenOff depth line (dedent depth line) := by
  by_cases blank : isBlankText line = true
  · rw [stripped blank]
    cases depth <;> exact .blank rfl
  · rw [Bool.not_eq_true] at blank
    have whole : dedent depth line = line.drop depth := by rw [dedent_eq_drop, Nat.min_eq_left (deep blank)]
    have filled : isBlankText (line.drop depth) = false := by
      rw [← whole, Bool.eq_false_iff, ne_eq, ← trim_eq_nil_iff, trim_dedent, trim_eq_nil_iff, blank]
      decide
    have long : (line.take depth).length = depth := by
      rw [List.length_take, Nat.min_eq_left]
      exact Nat.le_trans (deep blank) (List.takeWhile_sublist _).length_le
    have indents : ∀ c ∈ line.take depth, isIndent c = true := by
      intro c inside
      have front : line.take depth <+: line.takeWhile isIndent :=
        List.prefix_of_prefix_length_le (List.take_prefix _ _) (List.takeWhile_prefix _)
          (Nat.le_trans (List.length_take_le _ _) (deep blank))
      exact List.mem_takeWhile_imp (front.subset inside)
    have taken := TakenOff.filled long indents filled
    rwa [List.take_append_drop, ← whole] at taken

theorem takenOff_map {lines : List Text} (stripped : Stripped lines)
    (deep : ∀ line ∈ lines, isBlankText line = false → depth ≤ indentation line) :
    List.Forall₂ (TakenOff depth) lines (lines.map (dedent depth)) := by
  rw [List.forall₂_map_right_iff, List.forall₂_same]
  exact fun line inside => takenOff_dedent (stripped line inside) (deep line inside)

theorem exists_trim_of_tag? {key val : Text} (found : tag? line = some (key, val)) :
    ∃ rest, trim line = '@' :: (key ++ rest) := by
  unfold tag? at found
  split at found
  · split at found
    · next rest shape =>
        dsimp only at found
        split at found
        · cases found
        · simp only [Option.some.injEq, Prod.mk.injEq] at found
          rw [shape, ← found.1]
          exact ⟨_, by rw [List.takeWhile_append_dropWhile]⟩
    · cases found
  · cases found

end Line

namespace Block

variable {first : Text} {more after : List Text}

/-! ## Fences -/

/-- The value of a fenced example is what stands in its raw text behind the opening line, up to the line
that closes the fence if there is one. Both ends are found by counting bytes. -/
structure FenceValue (piece : Example) (opening : Text) (more : List Text) (behind : Text) : Prop where
  lines : pieces piece.raw = opening :: more
  language : piece.language = firstWord (opening.dropWhile (· == '`'))
  slice : Slice piece.raw (byteSize opening) (byteSize piece.raw) behind
  closed : ∀ closing ∈ more.getLast?, closesFence closing = true →
    piece.raw = opening ++ (piece.val ++ closing) ∧ byteSize closing ≤ byteSize behind ∧
      Slice behind 0 (byteSize behind - byteSize closing) piece.val
  unclosed : (∀ last ∈ more.getLast?, closesFence last = false) → piece.raw = opening ++ piece.val
  feed : ∀ c ∈ piece.val.head?, c = '\n'

theorem head?_withFeedBefore (lines : List Text) : ∀ c ∈ (withFeedBefore lines).head?, c = '\n' := by
  cases lines with
  | nil => simp [withFeedBefore]
  | cons line lines => simp [withFeedBefore, eq_comm]

def fenceBody (first : Text) (more : List Text) : List Text :=
  more.map (dedent (indentation first))

theorem exists_fenced_of_closed {closing : Text} (last : closing ∈ (fenceBody first more).getLast?)
    (closes : closesFence closing = true) : ∃ front, fenceBody first more = front ++ [closing] ∧
      (fenced first more).2.2 = withFeedBefore (front ++ [[]]) := by
  obtain ⟨front, shape⟩ := List.getLast?_eq_some_iff.1 last
  refine ⟨front, shape, ?_⟩
  rw [fenceBody] at shape
  simp only [fenced, shape, List.getLast?_concat, List.dropLast_concat, closes, if_true]
  simp [withFeedBefore]

theorem fenced_of_unclosed (unclosed : ∀ last ∈ (fenceBody first more).getLast?, closesFence last = false) :
    (fenced first more).2.2 = withFeedBefore (fenceBody first more) := by
  rw [fenceBody] at unclosed ⊢
  cases last : (more.map (dedent (indentation first))).getLast? with
  | none =>
      simp only [fenced, last]
      rw [List.getLast?_eq_none_iff.1 last]
      rfl
  | some line =>
      simp only [fenced, last, unclosed line last, Bool.false_eq_true, if_false]

theorem exists_fenced (first : Text) (more : List Text) : ∃ lines, (fenced first more).2.2 = withFeedBefore lines := by
  by_cases closed : ∃ closing ∈ (fenceBody first more).getLast?, closesFence closing = true
  · obtain ⟨closing, last, closes⟩ := closed
    obtain ⟨front, -, value⟩ := exists_fenced_of_closed last closes
    exact ⟨front ++ [[]], value⟩
  · refine ⟨fenceBody first more, fenced_of_unclosed fun last member => ?_⟩
    exact Bool.eq_false_iff.2 fun closes => closed ⟨last, member, closes⟩

theorem fenceValue_build (lineNo : Nat) (description : Text) (feedless : Feedless (first :: more)) :
    ∃ opening lines behind, FenceValue (build .fenced lineNo first more description) opening lines behind := by
  have dedented := feedless.map (mem_of_mem_dedent (indentation first))
  refine ⟨dedent (indentation first) first, fenceBody first more, withFeedBefore (fenceBody first more), ?_⟩
  constructor
  case lines => exact pieces_append_withFeedBefore dedented
  case language => exact head?_words _
  case slice => exact Slice.behind _ _
  case closed =>
    intro closing last closes
    obtain ⟨front, shape, value⟩ := exists_fenced_of_closed last closes
    have parts : withFeedBefore (fenceBody first more) = (fenced first more).2.2 ++ closing := by
      rw [value, shape]
      simp [withFeedBefore]
    refine ⟨congrArg (dedent (indentation first) first ++ ·) parts, ?_, ?_⟩
    · rw [parts, byteSize_append]
      exact Nat.le_add_left _ _
    · rw [parts]
      exact Slice.before _ _
  case unclosed =>
    intro unclosed
    exact congrArg (dedent (indentation first) first ++ ·) (fenced_of_unclosed unclosed).symm
  case feed =>
    obtain ⟨lines, value⟩ := exists_fenced first more
    change ∀ c ∈ (fenced first more).2.2.head?, c = '\n'
    rw [value]
    exact head?_withFeedBefore lines

/-! ## Code that is indented -/

theorem takenOff_indented (cut : Cut .indented first more after) (lineNo : Nat) (description : Text)
    (feedless : Feedless (first :: more)) (stripped : Stripped (first :: more)) :
    let piece := build .indented lineNo first more description
    List.Forall₂ (TakenOff codeIndent) (pieces piece.raw) (pieces piece.val) := by
  have deep : ∀ line ∈ first :: more, isBlankText line = false → codeIndent ≤ indentation line := by
    intro line inside filled
    rcases cut.indented line inside with rfl | deep
    · cases filled
    · exact deep
  have dedented := feedless.map (mem_of_mem_dedent codeIndent)
  intro piece
  have raw : pieces piece.raw = (first :: more) ++ [[]] := pieces_withFeedBehind feedless
  have val : pieces piece.val = (first :: more).map (dedent codeIndent) ++ [[]] := pieces_withFeedBehind dedented
  rw [raw, val]
  exact List.rel_append (takenOff_map stripped deep) (.cons (.blank rfl) .nil)

/-! ## Examples behind a tag -/

/-- The value of an example that a tag begins is what stands behind the tag, and the lines below without
the indentation that all of them share. -/
structure TagValue (piece : Example) (first behind : Text) (body rests : List Text) (depth : Nat) : Prop where
  lines : pieces piece.raw = first :: (body ++ [[]])
  begins : "@example".toList <+: trimStart piece.raw
  head : trim first = "@example".toList ++ behind
  value : pieces piece.val = (if isBlankText behind then [] else [trim behind]) ++ (rests ++ [[]])
  taken : List.Forall₂ (TakenOff depth) body rests
  deepest : ∀ deeper, (∃ line ∈ body, isBlankText line = false) →
    (∀ line ∈ body, isBlankText line = false → deeper ≤ indentation line) → deeper ≤ depth
  visible : visible piece.raw = "@example".toList ++ visible piece.val

theorem visible_withFeedBehind (lines : List Text) : visible (withFeedBehind lines) = lines.flatMap visible := by
  induction lines with
  | nil => rfl
  | cons line lines induction =>
      have feed : visible ['\n'] = [] := rfl
      have shape : withFeedBehind (line :: lines) = line ++ ['\n'] ++ withFeedBehind lines := by simp [withFeedBehind]
      rw [shape, visible_append, visible_append, feed, List.append_nil, induction, List.flatMap_cons]

theorem javadoc_eq {behind : Text} (head : trim first = "@example".toList ++ behind) (stripped : Stripped more) :
    javadoc first more =
      withFeedBehind ((if isBlankText behind then [] else [trim behind]) ++ more.map (dedent (baseline more))) := by
  have rest : stripPrefix "@example".toList (trim first) = some behind := stripPrefix_eq_some_iff.2 head
  have filled : more.filter (! ·.isEmpty) = more.filter (! isBlankText ·) := by
    refine List.filter_congr fun line inside => ?_
    have same : line.isEmpty = isBlankText line := by
      rw [Bool.eq_iff_iff, List.isEmpty_iff]
      exact ⟨fun none => none ▸ rfl, stripped line inside⟩
    rw [same]
  have depth : (((more.filter (! ·.isEmpty)).map indentation).min?).getD 0 = baseline more := by
    rw [filled]
    rfl
  have empty : (trim behind).isEmpty = isBlankText behind := by
    rw [Bool.eq_iff_iff, List.isEmpty_iff, trim_eq_nil_iff]
  simp only [javadoc, rest, Option.getD_some, depth, empty]
  split <;> simp [withFeedBehind]

theorem trim_first_begins (filled : isBlankText first = false) (more : List Text) :
    trim first <+: trimStart (withFeedBehind (first :: more)) := by
  have start : withFeedBehind (first :: more) = first ++ '\n' :: withFeedBehind more := by simp [withFeedBehind]
  obtain ⟨blanks, -, trimmed⟩ := exists_trimEnd_append_blank (trimStart first)
  have front : trim first <+: trimStart first := ⟨blanks, trimmed.symm⟩
  rw [start, trimStart_append filled]
  exact front.trans (List.prefix_append _ _)

theorem visible_dedent (depth : Nat) (lines : List Text) :
    (lines.map (dedent depth)).flatMap visible = lines.flatMap visible := by
  rw [List.flatMap_map]
  refine List.flatMap_congr fun line _ => ?_
  rw [← visible_trim, trim_dedent, visible_trim]

theorem visible_javadoc {behind : Text} (head : trim first = "@example".toList ++ behind) (stripped : Stripped more) :
    visible (withFeedBehind (first :: more)) = "@example".toList ++ visible (javadoc first more) := by
  have named : visible first = "@example".toList ++ visible behind := by
    rw [← visible_trim first, head, visible_append]
    rfl
  have kept : (if isBlankText behind then [] else [trim behind]).flatMap visible = visible behind := by
    split
    · next blank => rw [visible_blank blank, List.flatMap_nil]
    · rw [List.flatMap_singleton, visible_trim]
  rw [javadoc_eq head stripped, visible_withFeedBehind, visible_withFeedBehind, List.flatMap_append, kept,
    visible_dedent, List.flatMap_cons, named, List.append_assoc]

theorem tagValue_build (cut : Cut .javadoc first more after) (lineNo : Nat) (description : Text)
    (feedless : Feedless (first :: more)) (stripped : Stripped (first :: more)) :
    ∃ behind rests depth, TagValue (build .javadoc lineNo first more description) first behind more rests depth := by
  obtain ⟨val, found⟩ := cut.begins
  obtain ⟨behind, head⟩ := exists_trim_of_tag? found
  have below : Stripped more := fun line inside => stripped line (List.mem_cons_of_mem first inside)
  have feedlessVal : Feedless ((if isBlankText behind then [] else [trim behind]) ++
      more.map (dedent (baseline more))) := by
    rw [Feedless.cons_iff] at feedless
    have feedlessBehind : '\n' ∉ trim behind := by
      intro feed
      refine feedless.1 (mem_of_mem_trim ?_)
      rw [head]
      exact List.mem_cons_of_mem '@' (List.mem_append_right _ (mem_of_mem_trim feed))
    rw [Feedless.append_iff]
    refine ⟨?_, feedless.2.map (mem_of_mem_dedent _)⟩
    split <;> simp [Feedless, feedlessBehind]
  refine ⟨behind, more.map (dedent (baseline more)), baseline more, ?_⟩
  constructor
  case lines => exact pieces_withFeedBehind feedless
  case begins =>
    refine List.IsPrefix.trans ⟨behind, ?_⟩ (trim_first_begins (cut.first_filled stripped) more)
    exact head.symm
  case head => exact head
  case value =>
    refine (congrArg pieces (javadoc_eq head below)).trans ?_
    rw [pieces_withFeedBehind feedlessVal, List.append_assoc]
  case taken => exact takenOff_map below fun line inside filled => baseline_le inside filled
  case deepest => exact fun deeper some deep => le_baseline some deep
  case visible => exact visible_javadoc head below

end Block

def ValueOfRaw (piece : Example) : Prop :=
  match piece.kind with
  | .fenced => ∃ opening more behind, Block.FenceValue piece opening more behind
  | .indented => List.Forall₂ (TakenOff codeIndent) (pieces piece.raw) (pieces piece.val)
  | .javadoc => ∃ first behind body rests depth, Block.TagValue piece first behind body rests depth

theorem CutFrom.valueOfRaw {lines : List Text} {piece : Example} (cut : CutFrom lines piece) (feedless : Feedless lines)
    (stripped : Stripped lines) : ValueOfRaw piece := by
  obtain ⟨kind, before, first, more, after, description, rfl, cut, rfl⟩ := cut
  rw [Feedless.append_iff, Feedless.append_iff] at feedless
  have block := stripped.middle
  cases kind with
  | fenced => exact Block.fenceValue_build _ _ feedless.2.1
  | indented => exact Block.takenOff_indented cut _ _ feedless.2.1 block
  | javadoc =>
      obtain ⟨behind, rests, depth, value⟩ := Block.tagValue_build cut before.length description feedless.2.1 block
      exact ⟨first, behind, more, rests, depth, value⟩

/-- The value of every example is its raw text without the marks of its kind: behind the opening line of a fence
and before the closing one, with the indentation of code taken off each line, or behind `@example` and with the
deepest indentation that the lines below share taken off them. Wherever a text is cut at a number of
bytes on the way, both ends of the cut lie between characters. -/
theorem values_are_raw_without_marks (wrapped : Bool) (body : Text) :
    (∀ piece ∈ (Outline.ofBody wrapped body).examples, ValueOfRaw piece) ∧
    ∀ depth line, Slice line (indentBytes depth line) (byteSize line) (dedent depth line) := by
  refine ⟨fun piece inside => ?_, slice_dedent⟩
  have cut := Outline.cutFrom_ofLines (prepare wrapped body) piece inside
  exact cut.valueOfRaw (feedless_prepare wrapped body) (stripped_prepare wrapped body)

/-- An indented fence in a comment: the raw text has its indentation no longer, and the value has no fence. -/
theorem value_within_indented_fence :
    let body := " * Adds.\n *\n *   ```js\n *   add(1)\n *   ```".toList
    ∃ piece ∈ (Outline.ofBody true body).examples, piece.kind = .fenced ∧ piece.language = "js".toList ∧
      piece.val = "\nadd(1)\n".toList ∧ ValueOfRaw piece := by
  intro body
  have only : (Outline.ofBody true body).examples.map (fun piece => (piece.kind, piece.language, piece.val)) =
      [(.fenced, "js".toList, "\nadd(1)\n".toList)] := by decide +kernel
  obtain ⟨piece, alone, parts⟩ := List.map_eq_singleton_iff.1 only
  simp only [Prod.mk.injEq] at parts
  obtain ⟨kind, language, val⟩ := parts
  have inside : piece ∈ (Outline.ofBody true body).examples := by
    rw [alone]
    exact List.mem_singleton_self piece
  exact ⟨piece, inside, kind, language, val, (values_are_raw_without_marks true body).1 piece inside⟩

end Comment

end Docblock
