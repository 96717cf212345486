import Docblock.Proofs.TypeExpr.Acceptance
import Docblock.Proofs.TypeExpr.OptionalName

/-!
# How high a parsed tree is

Types are nested in one another up to a limit. Each mark behind an expression makes the tree higher too, and
marks are not counted. Main statements: the limit and the longest run of marks together bound the height of
a parsed tree, and without a bound on these runs there is none on the height.
-/

set_option autoImplicit false

namespace Docblock.TypeExpr

namespace Node

def parts : Node → List Node
  | .union elements | .array elements => elements
  | .optional expression _ | .nullable expression _ | .nonNullable expression _ => [expression]
  | .rest expression | .parameter _ expression => [expression]
  | .record fields => fields.filterMap Field.value
  | .function params result this new => params ++ result.toList ++ this.toList ++ new.toList
  | .application head applications => head :: applications
  | _ => []

section Fold

variable (f : Node → Nat → Nat)

mutual

/-- A number for a tree: `f` is given each node and the greatest number below it. -/
def fold : Node → Nat
  | .union elements => f (.union elements) (foldAll elements)
  | .array elements => f (.array elements) (foldAll elements)
  | .optional expression default => f (.optional expression default) (fold expression)
  | .nullable expression leading => f (.nullable expression leading) (fold expression)
  | .nonNullable expression leading => f (.nonNullable expression leading) (fold expression)
  | .rest expression => f (.rest expression) (fold expression)
  | .parameter text expression => f (.parameter text expression) (fold expression)
  | .record fields => f (.record fields) (foldFields fields)
  | .function params result this new => f (.function params result this new)
      (max (max (max (foldAll params) (foldOption result)) (foldOption this)) (foldOption new))
  | .application head applications =>
      f (.application head applications) (max (fold head) (foldAll applications))
  | leaf => f leaf 0

def foldAll : List Node → Nat
  | [] => 0
  | node :: nodes => max (fold node) (foldAll nodes)

def foldOption : Option Node → Nat
  | none => 0
  | some node => fold node

def foldFields : List Field → Nat
  | [] => 0
  | .mk _ value :: fields => max (foldOption value) (foldFields fields)

end

variable {f}

theorem foldAll_append (nodes others : List Node) :
    foldAll f (nodes ++ others) = max (foldAll f nodes) (foldAll f others) := by
  induction nodes with
  | nil => simp [foldAll]
  | cons node nodes induction => simp only [List.cons_append, foldAll, induction, Nat.max_assoc]

theorem foldOption_eq (node? : Option Node) : foldOption f node? = foldAll f node?.toList := by
  cases node? <;> simp [foldOption, foldAll]

theorem foldFields_eq (fields : List Field) :
    foldFields f fields = foldAll f (fields.filterMap Field.value) := by
  induction fields with
  | nil => rfl
  | cons field fields induction =>
      obtain ⟨key, value⟩ := field
      rw [List.filterMap_cons, foldFields, induction]
      cases value with
      | none => simp [foldOption, Field.value]
      | some node => simp [foldOption, foldAll, Field.value]

theorem fold_eq (node : Node) : node.fold f = f node (foldAll f node.parts) := by
  cases node with
  | record fields => rw [fold, parts, foldFields_eq]
  | function params result this new =>
      simp only [fold, parts, foldAll_append, foldOption_eq]
  | _ => simp [fold, parts, foldAll]

theorem foldAll_le_iff {bound : Nat} {nodes : List Node} :
    foldAll f nodes ≤ bound ↔ ∀ node ∈ nodes, node.fold f ≤ bound := by
  induction nodes with
  | nil => simp [foldAll]
  | cons node nodes induction => simp only [foldAll, Nat.max_le, induction, List.forall_mem_cons]

end Fold

def height (node : Node) : Nat :=
  node.fold fun _ below => below + 1

mutual

/-- How many of the marks `?`, `!` and `[]` stand behind an expression. -/
def run : Node → Nat
  | .nullable expression false => run expression + 1
  | .nonNullable expression false => run expression + 1
  | .application head applications => if head.isArray then runOnly applications else 0
  | _ => 0

def runOnly : List Node → Nat
  | [node] => run node + 1
  | _ => 0

end

def longestRun (node : Node) : Nat :=
  node.fold fun node below => max node.run below

variable {node : Node} {bound : Nat}

theorem height_eq (node : Node) :
    node.height = foldAll (fun _ below => below + 1) node.parts + 1 :=
  fold_eq node

theorem height_le_iff : node.height ≤ bound + 1 ↔ ∀ part ∈ node.parts, part.height ≤ bound := by
  rw [height_eq, Nat.add_le_add_iff_right, foldAll_le_iff]
  rfl

theorem height_pos (node : Node) : 0 < node.height := by
  rw [height_eq]
  exact Nat.succ_pos _

theorem longestRun_le_iff : node.longestRun ≤ bound ↔
    node.run ≤ bound ∧ ∀ part ∈ node.parts, part.longestRun ≤ bound := by
  rw [longestRun, fold_eq, Nat.max_le, foldAll_le_iff]
  rfl

theorem run_le_longestRun (node : Node) : node.run ≤ node.longestRun :=
  (longestRun_le_iff.1 (Nat.le_refl _)).1

theorem height_arrayOf (node : Node) : (arrayOf node).height = node.height + 1 := by
  have positive := node.height_pos
  have name : (Node.name ['A', 'r', 'r', 'a', 'y']).height = 1 := rfl
  rw [height_eq]
  simp only [arrayOf, parts, foldAll]
  simp only [height] at positive name ⊢
  omega

theorem run_arrayOf (node : Node) : (arrayOf node).run = node.run + 1 := by
  simp [arrayOf, run, runOnly, isArray]

theorem run_lt_height_of_le (bound : Nat) :
    ∀ node : Node, node.height ≤ bound → node.run < node.height := by
  -- on the height: the marks behind an expression are those behind the part that they follow, and one more
  induction bound with
  | zero =>
      intro node low
      have positive := node.height_pos
      omega
  | succ bound induction =>
      intro node low
      have below := height_le_iff.1 low
      have above : ∀ part ∈ node.parts, part.height + 1 ≤ node.height := by
        intro part inside
        rw [height_eq node]
        exact Nat.succ_le_succ (foldAll_le_iff.1 (Nat.le_refl _) part inside)
      have step : ∀ part ∈ node.parts, part.run + 1 < node.height := by
        intro part inside
        exact Nat.lt_of_lt_of_le (Nat.succ_lt_succ (induction part (below part inside)))
          (above part inside)
      unfold run
      split
      · exact step _ List.mem_cons_self
      · exact step _ List.mem_cons_self
      · split
        · unfold runOnly
          split
          · exact step _ (List.mem_cons_of_mem _ List.mem_cons_self)
          · exact height_pos _
        · exact height_pos _
      · exact height_pos _

theorem longestRun_lt_height_of_le (bound : Nat) :
    ∀ node : Node, node.height ≤ bound + 1 → node.longestRun ≤ bound := by
  induction bound with
  | zero =>
      intro node low
      have marks := run_lt_height_of_le 1 node low
      apply longestRun_le_iff.2
      refine ⟨by omega, ?_⟩
      intro part inside
      have none := height_le_iff.1 low part inside
      have positive := part.height_pos
      omega
  | succ bound induction =>
      intro node low
      have marks := run_lt_height_of_le (bound + 2) node low
      apply longestRun_le_iff.2
      refine ⟨by omega, ?_⟩
      intro part inside
      exact Nat.le_succ_of_le (induction part (height_le_iff.1 low part inside))

theorem longestRun_lt_height (node : Node) : node.longestRun < node.height := by
  have positive := node.height_pos
  have within := longestRun_lt_height_of_le (node.height - 1) node (by omega)
  omega

/-- The tree is at most `high`, unless a run of marks in it is longer than `long`. -/
def Low (long high : Nat) (node : Node) : Prop :=
  node.longestRun ≤ long → node.height ≤ high

namespace Low

variable {long high higher : Nat}

theorem mono (low : Low long high node) (less : high ≤ higher) : Low long higher node :=
  fun short => Nat.le_trans (low short) less

theorem of_parts (each : ∀ part ∈ node.parts, Low long high part) : Low long (high + 1) node := by
  intro short
  have shorter := (longestRun_le_iff.1 short).2
  apply height_le_iff.2
  intro part inside
  exact each part inside (shorter part inside)

theorem of_only {part : Node} (only : node.parts = [part]) (low : Low long high part) :
    Low long (high + 1) node := by
  apply of_parts
  rw [only]
  intro other inside
  rw [List.mem_singleton.1 inside]
  exact low

theorem of_leaf (leaf : node.parts = []) : Low long (high + 1) node := by
  apply of_parts
  rw [leaf]
  intro part inside
  cases inside

end Low

end Node

open Node (Low)

namespace Phrase

section Height

variable {type : Phrase Node} {long high : Nat} (nested : Makes type (Low long high))

theorem Marked.low {item : Phrase Node} (each : Makes item (Low long high)) :
    Makes (Marked item) (Low long (high + 1)) := by
  intro ts us node derived
  cases derived with
  | plain bare => exact (each bare).mono (Nat.le_succ high)
  | optional bare => exact Low.of_only rfl (each bare)

theorem Spread.low {item : Phrase Node} (each : Makes item (Low long high)) :
    Makes (Spread item) (Low long (high + 1)) := by
  intro ts us node derived
  cases derived with
  | plain bare => exact (each bare).mono (Nat.le_succ high)
  | rest bare => exact Low.of_only rfl (each bare)

include nested

theorem Union.low : Makes (Union type) (Low long (high + 1)) := by
  intro ts us node derived
  cases derived with
  | single only => exact (nested only).mono (Nat.le_succ high)
  | several head tail =>
      apply Low.of_parts
      intro part inside
      rcases List.mem_cons.1 inside with rfl | inside
      · exact nested head
      · exact tail.forall nested part inside

theorem Bare.low : Makes (Bare type) (Low long (high + 1)) := by
  intro ts us node derived
  cases derived with
  | named value => exact Low.of_only rfl (nested value)
  | union value => exact Union.low nested value

theorem Param.low : Makes (Param type) (Low long (high + 3)) :=
  Spread.low (Marked.low (Bare.low nested))

theorem Binding.low {ts us : List Token.Kind} {bindings : Option Node × Option Node}
    (derived : Binding type ts us bindings) :
    ∀ node ∈ bindings.1.toList ++ bindings.2.toList, Low long high node := by
  cases derived with
  | this value => simpa using nested value
  | new value => simpa using nested value

theorem Signature.low {ts us : List Token.Kind} {params : List Node} {result this new : Option Node}
    (resulting : ∀ node ∈ result, Low long high node)
    (derived : Signature type ts us (params, this, new)) :
    Low long (high + 4) (.function params result this new) := by
  have parameter := Param.low nested
  have deeper : high ≤ high + 3 := Nat.le_add_right high 3
  have parts : (∀ node ∈ params, Low long (high + 3) node) ∧
      ∀ node ∈ this.toList ++ new.toList, Low long high node := by
    cases derived with
    | unbound _ all => exact ⟨all.forall parameter, by simp⟩
    | bound binding => exact ⟨by simp, binding.low nested⟩
    | both binding all => exact ⟨all.forall parameter, binding.low nested⟩
  apply Low.of_parts
  intro part inside
  simp only [Node.parts, List.append_assoc, List.mem_append, Option.mem_toList] at inside
  rcases inside with inside | inside | inside
  · exact parts.1 part inside
  · exact (resulting part inside).mono deeper
  · exact (parts.2 part (by simpa using inside)).mono deeper

theorem Entry.low : Makes (Entry type) fun field => ∀ node ∈ field.value, Low long high node := by
  intro ts us field derived
  cases derived with
  | alone => simp [Field.value]
  | typed _ value => simpa [Field.value] using nested value

theorem Basic.low : Makes (Basic type) (Low long (high + 4)) := by
  intro ts us node derived
  have deeper : high + 1 ≤ high + 3 := Nat.add_le_add_left (by decide) high
  cases derived with
  | parenthesized members =>
      refine (Low.of_parts ?_).mono (Nat.add_le_add_left (by decide : 1 ≤ 4) high)
      cases members with
      | empty => simp [Node.parts]
      | several separated => exact separated.forall nested
  | array elements =>
      refine (Low.of_parts ?_).mono (Nat.add_le_add_left (by decide : 2 ≤ 4) high)
      cases elements with
      | listed all =>
          intro part inside
          exact (all.forall nested part inside).mono (Nat.le_succ high)
      | rest front last _ =>
          intro part inside
          rcases List.mem_append.1 inside with inside | inside
          · exact (front.forall nested part inside).mono (Nat.le_succ high)
          · rw [List.mem_singleton.1 inside]
            exact Low.of_only rfl (nested last)
  | record entries =>
      refine (Low.of_parts ?_).mono (Nat.add_le_add_left (by decide : 1 ≤ 4) high)
      cases entries with
      | comma => simp [Node.parts]
      | listed all =>
          intro part inside
          obtain ⟨field, member, value⟩ := List.mem_filterMap.1 inside
          exact all.forall (Entry.low nested) field member part value
  | literal word =>
      refine Low.of_leaf ?_
      have spelled := literal?_eq_some_iff.1 word
      unfold Node.word? at spelled
      split at spelled <;> first | rfl | cases spelled
  | application _ _ arguments =>
      refine (Low.of_parts ?_).mono (Nat.add_le_add_left (by decide : 2 ≤ 4) high)
      intro part inside
      rcases List.mem_cons.1 inside with rfl | inside
      · exact Low.of_leaf rfl
      · exact arguments.forall (Union.low nested) part inside
  | function signature => exact signature.low nested (by simp)
  | _ => exact Low.of_leaf rfl

/-- Each mark behind an expression makes the tree one node higher. -/
theorem Trailed.height_le {ts us : List Token.Kind} {node : Node} (derived : Trailed type ts us node)
    (short : node.longestRun ≤ long) : node.height ≤ high + 4 + node.run := by
  induction derived with
  | basic basic => exact Nat.le_trans (Basic.low nested basic short) (Nat.le_add_right _ _)
  | @bang ts us node _ induction =>
      have inner := induction ((Node.longestRun_le_iff.1 short).2 node List.mem_cons_self)
      apply Node.height_le_iff.2
      intro part inside
      rw [List.mem_singleton.1 inside]
      exact inner
  | @question ts us node _ induction =>
      have inner := induction ((Node.longestRun_le_iff.1 short).2 node List.mem_cons_self)
      apply Node.height_le_iff.2
      intro part inside
      rw [List.mem_singleton.1 inside]
      exact inner
  | @brackets ts us node _ induction =>
      have member : node ∈ (Node.arrayOf node).parts := by simp [Node.arrayOf, Node.parts]
      have inner := induction ((Node.longestRun_le_iff.1 short).2 node member)
      rw [Node.height_arrayOf, Node.run_arrayOf]
      omega

theorem Postfixed.low : Makes (Postfixed type) (Low long (high + long + 4)) := by
  intro ts us node derived short
  cases derived with
  | trailed trailed =>
      have tall := trailed.height_le nested short
      have marks := Nat.le_trans node.run_le_longestRun short
      omega
  | result signature value =>
      have tall := signature.low nested (by simpa using nested value) short
      omega

theorem Prefixed.low : Makes (Prefixed type) (Low long (high + long + 5)) := by
  intro ts us node derived
  have postfixed := Postfixed.low nested
  cases derived with
  | questionAlone => exact Low.of_leaf rfl
  | question value => exact Low.of_only rfl (postfixed value)
  | bangAlone => exact Low.of_leaf rfl
  | bang value => exact Low.of_only rfl (postfixed value)
  | plain value => exact (postfixed value).mono (Nat.le_succ _)

end Height

/-- Every level of nesting makes a tree higher by its longest run of marks and five nodes more: a leading
mark, a function and the three that a parameter can have around its type. -/
theorem Expression.low (long room : Nat) : Makes (Expression room) (Low long ((long + 5) * room)) := by
  induction room with
  | zero => exact fun _ _ _ derived => derived.elim
  | succ room induction =>
      have step : (long + 5) * (room + 1) = (long + 5) * room + long + 5 := by
        rw [Nat.mul_succ, Nat.add_assoc]
      rw [step]
      exact Prefixed.low induction

theorem Top.low (long room : Nat) : Makes (Top room) (Low long ((long + 5) * room + 3)) :=
  Spread.low (Marked.low (Union.low (Expression.low long room)))

theorem Trailed.exists_questioned (type : Phrase Node) (count : Nat) (us : List Token.Kind) :
    ∃ node, Trailed type (.name ['a'] :: (List.replicate count .question ++ us)) us node ∧
      node.height = count + 1 := by
  induction count generalizing us with
  | zero => exact ⟨.name ['a'], .basic (.name rfl (by simp)), rfl⟩
  | succ count induction =>
      obtain ⟨node, derived, tall⟩ := induction (.question :: us)
      refine ⟨.nullable node false, .question ?_, ?_⟩
      · rw [List.replicate_succ', List.append_assoc]
        exact derived
      · rw [Node.height_eq]
        simp only [Node.parts, Node.foldAll, Nat.max_zero]
        exact congrArg (· + 1) tall

end Phrase

open Lexer (Reads)

def questioned (count : Nat) : Text :=
  ['a'] ++ List.replicate count '?'

theorem reads_questioned (count : Nat) :
    Reads (questioned count) (.name ['a'] :: (List.replicate count .question ++ [.eof])) := by
  have marks : Reads (List.replicate count '?') (List.replicate count .question ++ [.eof]) := by
    induction count with
    | zero => exact .last rfl rfl
    | succ count induction => exact (Lexer.reads_mark rfl _).2 ⟨_, rfl, induction⟩
  have ends : ∀ c ∈ (List.replicate count '?').head?, c = '?' := by
    intro c first
    exact List.eq_of_mem_replicate (List.mem_of_mem_head? first)
  apply (Lexer.reads_plain (by decide) ?_ ?_).2 ⟨_, rfl, marks⟩
  · intro c first
    rw [ends c first]
    decide
  · intro angle
    exact absurd (ends '<' angle) (by decide)

theorem exists_parsed_of_height (count : Nat) :
    ∃ node, parseType (questioned count) = .ok node ∧ node.height = count + 1 := by
  obtain ⟨node, derived, tall⟩ := Phrase.Trailed.exists_questioned
    (Phrase.Expression 127) count [.eof]
  have unnamed : optionalName? (questioned count) = none :=
    optionalName?_of_opens ⟨'a', List.replicate count '?', rfl, by decide, by decide⟩
  have top : Phrase.Top maxDepth (.name ['a'] :: (List.replicate count .question ++ [.eof])) [.eof] node :=
    .plain (.plain (.single (.plain (.trailed derived))))
  have reads : ReadsAs (questioned count) node := ReadsAs.iff_top.2 ⟨_, reads_questioned count, top⟩
  exact ⟨node, (parseType_eq_ok_iff unnamed).2 reads, tall⟩

/-- The height of what a text is read as is bounded by the limit on nesting and by the longest run of marks
behind an expression. The run is a bound that cannot be left out: it is always less than the height. -/
theorem parsed_height_within_nesting_and_marks {source : Text} {node : Node}
    (parsed : parseType source = .ok node) :
    node.longestRun < node.height ∧ node.height ≤ (node.longestRun + 5) * maxDepth + 3 := by
  refine ⟨node.longestRun_lt_height, ?_⟩
  cases named : optionalName? source with
  | none =>
      obtain ⟨kinds, -, derived⟩ := ReadsAs.iff_top.1 ((parseType_eq_ok_iff named).1 parsed)
      exact Phrase.Top.low node.longestRun maxDepth derived (Nat.le_refl _)
  | some found =>
      rw [parseType, named] at parsed
      cases parsed
      obtain ⟨inner, -, -, rfl⟩ := optionalName?_eq_some_iff.1 named
      have low : (Node.optional (.name (bracketName inner)) (splitDefault inner).2).height = 2 := rfl
      rw [low, maxDepth]
      omega

theorem parsed_marked_list_height :
    ∃ node, parseType "Foo<a!?|[...b]>[]".toList = .ok node ∧ node.longestRun = 2 ∧
      2 < node.height ∧ node.height ≤ (2 + 5) * maxDepth + 3 := by
  obtain ⟨node, parsed, checked⟩ := exists_parsed_of_any "Foo<a!?|[...b]>[]".toList
    (fun node => node.longestRun == 2) (by decide +kernel)
  rw [beq_iff_eq] at checked
  have bounds := parsed_height_within_nesting_and_marks parsed
  rw [checked] at bounds
  exact ⟨node, parsed, checked, bounds⟩

/-- Nothing bounds the height of all trees that texts are read as. -/
theorem parsed_height_has_no_bound :
    ¬ ∃ bound, ∀ source node, parseType source = .ok node → node.height ≤ bound := by
  rintro ⟨bound, bounded⟩
  obtain ⟨node, parsed, tall⟩ := exists_parsed_of_height bound
  have low := bounded _ node parsed
  omega

end Docblock.TypeExpr
