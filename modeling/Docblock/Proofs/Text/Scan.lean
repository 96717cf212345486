import Docblock.Proofs.Text.Braces

/-!
# Scans with a counter

A scan reads a text character by character and keeps a state, until a state stops it. A step that takes one off a
counter at zero fails, and the scan with it. Braces are counted one by one; brackets are counted outside of quotes.
-/

set_option autoImplicit false

namespace Docblock.Text

/-! ## Scans -/

/-- What becomes of a scan. -/
inductive Scanned where
  | failed
  | ended
  | stopped (front back : Text)

namespace Scanned

/-- The scan with a text in front that it has passed over. -/
def behind (text : Text) : Scanned → Scanned
  | failed => failed
  | ended => ended
  | stopped front back => stopped (text ++ front) back

def ofHalves : Option (Text × Text) → Scanned
  | none => ended
  | some halves => stopped halves.1 halves.2

variable {text front back : Text} {scanned : Scanned}

theorem behind_behind (first second : Text) (scanned : Scanned) :
    (scanned.behind second).behind first = scanned.behind (first ++ second) := by
  cases scanned with
  | stopped front back => exact congrArg (stopped · back) (List.append_assoc first second front).symm
  | _ => rfl

theorem behind_eq_ended_iff : scanned.behind text = ended ↔ scanned = ended := by
  cases scanned <;> simp [behind]

theorem behind_eq_stopped_iff :
    scanned.behind text = stopped front back ↔ ∃ later, scanned = stopped later back ∧ front = text ++ later := by
  cases scanned with
  | stopped first last =>
      simp only [behind, stopped.injEq]
      constructor
      · rintro ⟨rfl, rfl⟩
        exact ⟨first, ⟨rfl, rfl⟩, rfl⟩
      · rintro ⟨later, ⟨rfl, rfl⟩, rfl⟩
        exact ⟨rfl, rfl⟩
  | _ => simp [behind]

theorem ofHalves_map (text : Text) (halves : Option (Text × Text)) :
    ofHalves (halves.map fun halves => (text ++ halves.1, halves.2)) = (ofHalves halves).behind text := by
  cases halves <;> rfl

theorem ofHalves_eq_stopped_iff {halves : Option (Text × Text)} :
    ofHalves halves = stopped front back ↔ halves = some (front, back) := by
  cases halves with
  | none => simp [ofHalves]
  | some halves => simp [ofHalves, Prod.ext_iff]

end Scanned

section Scan

variable {σ : Type} (step : σ → Char → Option σ) (stops : σ → Bool)

def scan (state : σ) : Text → Scanned
  | [] => .ended
  | c :: rest =>
      match step state c with
      | none => .failed
      | some next => if stops next then .stopped [c] rest else (scan next rest).behind [c]

def stateBehind (state : σ) (s : Text) : Option σ :=
  s.foldlM step state

/-- Whether a scan goes on behind a text. -/
def GoesOn (state : σ) (s : Text) : Prop :=
  ∃ behind, stateBehind step state s = some behind ∧ stops behind = false

/-- A scan stops behind a text and not within it. -/
structure StopsBehind (state : σ) (s : Text) : Prop where
  filled : s ≠ []
  stopped : ∃ behind, stateBehind step state s = some behind ∧ stops behind = true
  within : ∀ front back, s = front ++ back → front ≠ [] → back ≠ [] → GoesOn step stops state front

variable {step stops} {state next : σ} {c : Char} {s t front back : Text}

theorem stateBehind_cons (stepped : step state c = some next) :
    stateBehind step state (c :: s) = stateBehind step next s := by
  rw [stateBehind, List.foldlM_cons, stepped]
  rfl

theorem exists_step_of_stateBehind (passed : stateBehind step state (c :: s) = some next) :
    ∃ middle, step state c = some middle ∧ stateBehind step middle s = some next := by
  rw [stateBehind, List.foldlM_cons] at passed
  exact Option.bind_eq_some_iff.1 passed

theorem stateBehind_append (passed : stateBehind step state s = some next) (t : Text) :
    stateBehind step state (s ++ t) = stateBehind step next t := by
  rw [stateBehind] at passed
  rw [stateBehind, List.foldlM_append, passed]
  rfl

theorem exists_stateBehind_of_append (passed : stateBehind step state (s ++ t) = some next) :
    ∃ middle, stateBehind step state s = some middle ∧ stateBehind step middle t = some next := by
  rw [stateBehind, List.foldlM_append] at passed
  exact Option.bind_eq_some_iff.1 passed

theorem goesOn_cons (stepped : step state c = some next) :
    GoesOn step stops state (c :: s) ↔ GoesOn step stops next s := by
  rw [GoesOn, stateBehind_cons stepped, GoesOn]

theorem goesOn_nil : GoesOn step stops state [] ↔ stops state = false := by
  constructor
  · rintro ⟨_, here, goes⟩
    cases here
    exact goes
  · intro goes
    exact ⟨state, rfl, goes⟩

theorem scan_next (stepped : step state c = some next) (goes : stops next = false) :
    scan step stops state (c :: s) = (scan step stops next s).behind [c] := by
  simp only [scan, stepped, goes, Bool.false_eq_true, if_false]

theorem goesOn_next (stepped : step state c = some next) (goes : stops next = false)
    (later : front ≠ [] → GoesOn step stops next front) : GoesOn step stops state (c :: front) := by
  rw [goesOn_cons stepped]
  by_cases empty : front = []
  · subst empty
    exact goesOn_nil.2 goes
  · exact later empty

theorem scan_eq_ended_iff : scan step stops state s = .ended ↔
    ∀ front, front <+: s → front ≠ [] → GoesOn step stops state front := by
  induction s generalizing state with
  | nil =>
      refine ⟨fun _ front inside filled => ?_, fun _ => rfl⟩
      exact absurd (List.prefix_nil.1 inside) filled
  | cons c s induction =>
      constructor
      · intro whole front inside filled
        obtain ⟨rest, rfl, insideRest⟩ := (List.prefix_cons_iff.1 inside).resolve_left filled
        simp only [scan] at whole
        split at whole
        · cases whole
        · next next stepped =>
            split at whole
            · cases whole
            · next goes =>
                have later := induction.1 (Scanned.behind_eq_ended_iff.1 whole) rest insideRest
                exact goesOn_next stepped (Bool.eq_false_iff.2 goes) later
      · intro all
        have goes := all [c] ⟨s, rfl⟩ (List.cons_ne_nil c [])
        obtain ⟨next, stepped, -⟩ := exists_step_of_stateBehind goes.choose_spec.1
        rw [goesOn_cons stepped, goesOn_nil] at goes
        have later : scan step stops next s = .ended := by
          apply induction.2
          intro front inside filled
          rw [← goesOn_cons stepped]
          exact all (c :: front) ((List.prefix_cons_inj c).2 inside) (List.cons_ne_nil c front)
        rw [scan_next stepped goes, later]
        rfl

theorem stopsBehind_of_scan (found : scan step stops state s = .stopped front back) :
    s = front ++ back ∧ StopsBehind step stops state front := by
  induction s generalizing state front with
  | nil => cases found
  | cons c s induction =>
      simp only [scan] at found
      split at found
      · cases found
      · next next stepped =>
          split at found
          · next stopped =>
              cases found
              refine ⟨rfl, List.cons_ne_nil c [], ⟨next, stateBehind_cons stepped, stopped⟩, ?_⟩
              intro first last whole some more
              rcases List.cons_eq_append_iff.1 whole with ⟨empty, -⟩ | ⟨rest, rfl, nothing⟩
              · exact absurd empty some
              · exact absurd (List.append_eq_nil_iff.1 nothing.symm).2 more
          · next goes =>
              obtain ⟨later, foundLater, rfl⟩ := Scanned.behind_eq_stopped_iff.1 found
              obtain ⟨rfl, filled, ⟨behind, passed, stopped⟩, within⟩ := induction foundLater
              refine ⟨rfl, List.cons_ne_nil c later, ⟨behind, ?_, stopped⟩, ?_⟩
              · rw [List.singleton_append, stateBehind_cons stepped, passed]
              · intro first last whole some more
                obtain ⟨rest, rfl, wholeRest⟩ :=
                  (List.cons_eq_append_iff.1 whole).resolve_left fun empty => some empty.1
                exact goesOn_next stepped (Bool.eq_false_iff.2 goes) fun filled =>
                  within rest last wholeRest filled more

/-- A scan that stops behind a text stops there, whatever follows. -/
theorem scan_of_stopsBehind (stopsBehind : StopsBehind step stops state front) (back : Text) :
    scan step stops state (front ++ back) = .stopped front back := by
  obtain ⟨filled, ⟨last, passed, stopped⟩, within⟩ := stopsBehind
  induction front generalizing state with
  | nil => exact absurd rfl filled
  | cons c front induction =>
      obtain ⟨next, stepped, later⟩ := exists_step_of_stateBehind passed
      rw [List.cons_append]
      by_cases empty : front = []
      · subst empty
        cases later
        simp only [scan, stepped, stopped, if_true, List.nil_append]
      · have goes := within [c] front rfl (List.cons_ne_nil c []) empty
        rw [goesOn_cons stepped, goesOn_nil] at goes
        have behind := induction empty (fun first last whole _ more => by
          rw [← goesOn_cons stepped]
          exact within (c :: first) last (by rw [whole, List.cons_append]) (List.cons_ne_nil c first) more) later
        rw [scan_next stepped goes, behind]
        rfl

end Scan

/-! ## Braces -/

/-- Counts a brace. A closing one cannot be counted where none is open. -/
def braceStep? (depth : Nat) (c : Char) : Option Nat :=
  if c = '{' then some (depth + 1)
  else if c = '}' then if depth = 0 then none else some (depth - 1)
  else some depth

def braceBalance (s : Text) : Int :=
  s.count '{' - s.count '}'

theorem braceBalance_cons (c : Char) (s : Text) :
    braceBalance (c :: s) = braceBalance s + (if c = '{' then 1 else if c = '}' then -1 else 0) := by
  have different : '{' ≠ '}' := by decide
  unfold braceBalance
  by_cases opening : c = '{'
  · subst opening
    rw [List.count_cons_self, List.count_cons_of_ne different, if_pos rfl]
    omega
  · by_cases closing : c = '}'
    · subst closing
      rw [List.count_cons_self, List.count_cons_of_ne different.symm, if_neg opening, if_pos rfl]
      omega
    · rw [List.count_cons_of_ne opening, List.count_cons_of_ne closing, if_neg opening, if_neg closing]
      omega

theorem braceBalance_append (s t : Text) : braceBalance (s ++ t) = braceBalance s + braceBalance t := by
  unfold braceBalance
  rw [List.count_append, List.count_append]
  omega

theorem balance_of_stateBehind {depth deeper : Nat} {s : Text}
    (passed : stateBehind braceStep? depth s = some deeper) : (deeper : Int) = depth + braceBalance s := by
  induction s generalizing depth with
  | nil =>
      cases passed
      rfl
  | cons c s induction =>
      rw [braceBalance_cons]
      by_cases opening : c = '{'
      · have stepped : braceStep? depth c = some (depth + 1) := by rw [braceStep?, if_pos opening]
        have counted := induction ((stateBehind_cons stepped).symm.trans passed)
        rw [if_pos opening]
        omega
      · by_cases closing : c = '}'
        · cases depth with
          | zero =>
              rw [stateBehind, List.foldlM_cons, braceStep?, if_neg opening, if_pos closing] at passed
              cases passed
          | succ depth =>
              have stepped : braceStep? (depth + 1) c = some depth := by
                rw [braceStep?, if_neg opening, if_pos closing]
                rfl
              have counted := induction ((stateBehind_cons stepped).symm.trans passed)
              rw [if_neg opening, if_pos closing]
              omega
        · have stepped : braceStep? depth c = some depth := by
            rw [braceStep?, if_neg opening, if_neg closing]
          have counted := induction ((stateBehind_cons stepped).symm.trans passed)
          rw [if_neg opening, if_neg closing]
          omega

/-- Where no part in front closes more braces than are open, none is closed too early. -/
theorem stateBehind_of_balance {depth : Nat} {s : Text}
    (open? : ∀ front, front <+: s → 0 ≤ depth + braceBalance front) :
    ∃ deeper, stateBehind braceStep? depth s = some deeper := by
  induction s generalizing depth with
  | nil => exact ⟨depth, rfl⟩
  | cons c s induction =>
      have later : ∀ next : Nat, (next : Int) = depth + braceBalance [c] →
          ∀ front, front <+: s → 0 ≤ next + braceBalance front := by
        intro next counted front inside
        have here := open? (c :: front) ((List.prefix_cons_inj c).2 inside)
        rw [braceBalance_cons] at here counted
        have nothing : braceBalance [] = 0 := rfl
        omega
      have first := open? [c] ⟨s, rfl⟩
      rw [braceBalance_cons] at first
      by_cases opening : c = '{'
      · have stepped : braceStep? depth c = some (depth + 1) := by rw [braceStep?, if_pos opening]
        rw [stateBehind_cons stepped]
        exact induction (later (depth + 1) (by rw [braceBalance_cons, if_pos opening]; rfl))
      · by_cases closing : c = '}'
        · rw [if_neg opening, if_pos closing] at first
          have nothing : braceBalance [] = 0 := rfl
          obtain ⟨less, rfl⟩ : ∃ less, depth = less + 1 := ⟨depth - 1, by omega⟩
          have stepped : braceStep? (less + 1) c = some less := by
            rw [braceStep?, if_neg opening, if_pos closing]
            rfl
          rw [stateBehind_cons stepped]
          exact induction (later less (by rw [braceBalance_cons, if_neg opening, if_pos closing]; omega))
        · have stepped : braceStep? depth c = some depth := by
            rw [braceStep?, if_neg opening, if_neg closing]
          rw [stateBehind_cons stepped]
          exact induction (later depth (by rw [braceBalance_cons, if_neg opening, if_neg closing]; rfl))

/-! ## Brackets -/

inductive Quoting where
  | outside
  | inside (mark : Char)
  | hidden (mark : Char)
  deriving DecidableEq

structure Brackets where
  depth : Nat
  quoting : Quoting
  deriving DecidableEq

namespace Brackets

def closed : Brackets :=
  ⟨0, .outside⟩

/-- Counts a bracket outside of quotes. A closing one cannot be counted where none is open. Between quotes a
backslash hides the character behind it. -/
def step? (state : Brackets) (c : Char) : Option Brackets :=
  match state.quoting with
  | .hidden mark => some { state with quoting := .inside mark }
  | .inside mark =>
      if c = '\\' then some { state with quoting := .hidden mark }
      else if c = mark then some { state with quoting := .outside }
      else some state
  | .outside =>
      if c = '\'' ∨ c = '"' ∨ c = '`' then some { state with quoting := .inside c }
      else if c = '[' then some { state with depth := state.depth + 1 }
      else if c = ']' then if state.depth = 0 then none else some { state with depth := state.depth - 1 }
      else some state

def below (outer : Nat) (state : Brackets) : Brackets :=
  { state with depth := state.depth + outer }

variable {state next : Brackets} {c : Char} {s : Text}

theorem step?_below (stepped : state.step? c = some next) (outer : Nat) :
    (state.below outer).step? c = some (next.below outer) := by
  obtain ⟨depth, quoting⟩ := state
  cases quoting with
  | hidden mark =>
      cases stepped
      rfl
  | inside mark =>
      simp only [step?, below] at stepped ⊢
      split at stepped
      · cases stepped
        rw [if_pos ‹_›]
      · split at stepped
        · cases stepped
          rw [if_neg ‹_›, if_pos ‹_›]
        · cases stepped
          rw [if_neg ‹_›, if_neg ‹_›]
  | outside =>
      simp only [step?, below] at stepped ⊢
      split at stepped
      · cases stepped
        rw [if_pos ‹_›]
      · rw [if_neg ‹_›]
        split at stepped
        · cases stepped
          rw [if_pos ‹_›, Nat.add_right_comm]
        · rw [if_neg ‹_›]
          split at stepped
          · rw [if_pos ‹_›]
            split at stepped
            · cases stepped
            · cases stepped
              have some : depth + outer ≠ 0 := by omega
              have counted : depth + outer - 1 = depth - 1 + outer := by omega
              simp only [some, if_false, counted]
          · cases stepped
            rw [if_neg ‹_›]

theorem stateBehind_below (passed : stateBehind step? state s = some next) (outer : Nat) :
    stateBehind step? (state.below outer) s = some (next.below outer) := by
  induction s generalizing state with
  | nil =>
      cases passed
      rfl
  | cons c s induction =>
      obtain ⟨middle, stepped, later⟩ := exists_step_of_stateBehind passed
      rw [stateBehind_cons (step?_below stepped outer)]
      exact induction later

def marks : Text :=
  ['[', ']', '\'', '"', '`']

theorem stateBehind_plain (plain : ∀ c ∈ s, c ∉ marks) (depth : Nat) :
    stateBehind step? ⟨depth, .outside⟩ s = some ⟨depth, .outside⟩ := by
  induction s with
  | nil => rfl
  | cons c s induction =>
      have other := plain c List.mem_cons_self
      simp only [marks, List.mem_cons, List.not_mem_nil, or_false, not_or] at other
      have stepped : step? ⟨depth, .outside⟩ c = some ⟨depth, .outside⟩ := by simp [step?, other]
      rw [stateBehind_cons stepped]
      exact induction fun d inside => plain d (List.mem_cons_of_mem c inside)

/-- Brackets around a text that closes all it opens stop a scan at the second one. -/
theorem stopsBehind_enclosed (passed : stateBehind step? closed s = some closed) :
    StopsBehind step? (· == closed) closed ('[' :: (s ++ [']'])) := by
  have opened : step? closed '[' = some (closed.below 1) := rfl
  have finish : step? (closed.below 1) ']' = some closed := rfl
  refine ⟨List.cons_ne_nil _ _, ⟨closed, ?_, rfl⟩, fun front back whole any more => ?_⟩
  · rw [stateBehind_cons opened, stateBehind_append (stateBehind_below passed 1), stateBehind_cons finish]
    rfl
  · -- within the outer brackets at least one is open
    obtain ⟨rest, rfl, wholeRest⟩ := (List.cons_eq_append_iff.1 whole).resolve_left fun empty => any empty.1
    obtain ⟨inner, shape⟩ : rest <+: s := by
      have inside : rest <+: s ++ [']'] := ⟨back, wholeRest.symm⟩
      rcases List.prefix_concat_iff.1 inside with all | inside
      · rw [all, List.self_eq_append_right] at wholeRest
        exact absurd wholeRest more
      · exact inside
    rw [← shape] at passed
    obtain ⟨middle, walked, -⟩ := exists_stateBehind_of_append passed
    refine ⟨middle.below 1, ?_, ?_⟩
    · rw [stateBehind_cons opened, stateBehind_below walked 1]
    · rw [beq_eq_false_iff_ne]
      intro same
      exact absurd (congrArg depth same) (Nat.succ_ne_zero middle.depth)

end Brackets

end Docblock.Text
