import Mathlib.Data.List.Sort
import Docblock.Files.Path

/-!
# The order of paths

Paths are ordered by their components. The order is total, and two paths that stand before each other have
the same components, so the components of a sorted list without repetitions are known from which they are.
-/

set_option autoImplicit false

namespace Docblock.Path

namespace Component

variable {a b c : Component}

theorem before_name_iff {s t : Text} :
    (name s).before (name t) = true ↔ s.map Char.toNat < t.map Char.toNat := by
  simp [before]

theorem before_irrefl (a : Component) : a.before a = false := by
  cases a <;> simp [before]

theorem before_trans (first : a.before b = true) (second : b.before c = true) :
    a.before c = true := by
  cases a <;> cases b <;> cases c <;> simp_all [before, rank]
  exact List.lt_trans first second

theorem before_total (a b : Component) : a.before b = true ∨ a = b ∨ b.before a = true := by
  cases a with
  | name s =>
      cases b with
      | name t =>
          rw [before_name_iff, before_name_iff, name.injEq]
          rcases Std.lt_trichotomy (s.map Char.toNat) (t.map Char.toNat) with less | same | more
          · exact .inl less
          · exact .inr (.inl (List.map_injective_iff.2 (fun _ _ => Char.toNat_inj.1) same))
          · exact .inr (.inr more)
      | _ => simp [before, rank]
  | _ => cases b <;> simp [before, rank]

theorem not_before_of_before (first : a.before b = true) : b.before a = false := by
  cases second : b.before a with
  | false => rfl
  | true => exact (before_trans first second).symm.trans (before_irrefl a)

end Component

variable {as bs cs : List Component}

theorem notAfter_cons_iff {a b : Component} :
    notAfter (a :: as) (b :: bs) = true ↔ a.before b = true ∨ a = b ∧ notAfter as bs = true := by
  simp [notAfter]

theorem notAfter_trans (first : notAfter as bs = true) (second : notAfter bs cs = true) :
    notAfter as cs = true := by
  induction as generalizing bs cs with
  | nil => rfl
  | cons a as induction =>
      cases bs with
      | nil => cases first
      | cons b bs =>
          cases cs with
          | nil => cases second
          | cons c cs =>
              rw [notAfter_cons_iff] at first second ⊢
              rcases first with less | ⟨rfl, first⟩
              · rcases second with less' | ⟨rfl, -⟩
                · exact .inl (Component.before_trans less less')
                · exact .inl less
              · rcases second with less | ⟨rfl, second⟩
                · exact .inl less
                · exact .inr ⟨rfl, induction first second⟩

theorem notAfter_total (as bs : List Component) : notAfter as bs = true ∨ notAfter bs as = true := by
  induction as generalizing bs with
  | nil => exact .inl rfl
  | cons a as induction =>
      cases bs with
      | nil => exact .inr rfl
      | cons b bs =>
          rw [notAfter_cons_iff, notAfter_cons_iff]
          rcases Component.before_total a b with less | rfl | more
          · exact .inl (.inl less)
          · exact (induction bs).imp (fun here => .inr ⟨rfl, here⟩) fun here => .inr ⟨rfl, here⟩
          · exact .inr (.inl more)

theorem notAfter_antisymm (first : notAfter as bs = true) (second : notAfter bs as = true) : as = bs := by
  induction as generalizing bs with
  | nil =>
      cases bs with
      | nil => rfl
      | cons => cases second
  | cons a as induction =>
      cases bs with
      | nil => cases first
      | cons b bs =>
          rw [notAfter_cons_iff] at first second
          rcases first with less | ⟨rfl, first⟩
          · have after := Component.not_before_of_before less
            rcases second with more | ⟨rfl, -⟩
            · rw [after] at more
              cases more
            · rw [Component.before_irrefl] at less
              cases less
          · rcases second with more | ⟨-, second⟩
            · rw [Component.before_irrefl] at more
              cases more
            · rw [induction first second]

def Before (as bs : List Component) : Prop :=
  notAfter as bs = true ∧ as ≠ bs

instance : Std.Irrefl Before where
  irrefl _ here := here.2 rfl

instance : Std.Antisymm Before where
  antisymm _ _ first second := notAfter_antisymm first.1 second.1

/-- The paths are in order, and no two of them have the same components. -/
def Ascending (paths : List Text) : Prop :=
  (paths.map components).Pairwise Before

variable {paths others : List Text} {path : Text}

/-- Ascending paths are known, up to how they are spelled, from which components they have. -/
theorem Ascending.map_components_eq (ascends : Ascending paths) (ascends' : Ascending others)
    (same : ∀ place, place ∈ paths.map components ↔ place ∈ others.map components) :
    paths.map components = others.map components :=
  ascends.eq_of_mem_iff ascends' same

theorem Ascending.eq_of_mem_iff (ascends : Ascending paths) (ascends' : Ascending others)
    (same : ∀ path, path ∈ paths ↔ path ∈ others) : paths = others := by
  have irreflexive : Std.Irrefl fun a b : Text => Before (components a) (components b) :=
    ⟨fun path => Std.Irrefl.irrefl (components path)⟩
  have antisymmetric : Std.Antisymm fun a b : Text => Before (components a) (components b) :=
    ⟨fun _ _ first second => absurd (notAfter_antisymm first.1 second.1) first.2⟩
  exact (List.pairwise_map.1 ascends).eq_of_mem_iff (List.pairwise_map.1 ascends') same

theorem Ascending.filter (ascends : Ascending paths) (keep : Text → Bool) :
    Ascending (paths.filter keep) :=
  ascends.sublist (List.filter_sublist.map components)

theorem mem_sort : path ∈ sort paths ↔ path ∈ paths :=
  List.mem_mergeSort

theorem sort_pairwise (paths : List Text) :
    (sort paths).Pairwise fun a b => notAfter (components a) (components b) = true := by
  let below : Text → Text → Bool := fun a b => notAfter (components a) (components b)
  have transitive : ∀ a b c, below a b = true → below b c = true → below a c = true :=
    fun _ _ _ => notAfter_trans
  have total : ∀ a b, (below a b || below b a) = true := by
    intro a b
    rw [Bool.or_eq_true]
    exact notAfter_total (components a) (components b)
  exact List.pairwise_mergeSort transitive total paths

theorem ascending_sort (distinct : (paths.map components).Nodup) : Ascending (sort paths) := by
  have different : ((sort paths).map components).Nodup :=
    ((List.mergeSort_perm paths _).map components).nodup_iff.2 distinct
  rw [Ascending, List.pairwise_map]
  exact (sort_pairwise paths).imp₂ (fun _ _ => And.intro) (List.pairwise_map.1 different)

theorem exists_dropRepeated_cons (path : Text) (rest : List Text) :
    ∃ kept, dropRepeated (path :: rest) = path :: kept := by
  cases rest with
  | nil => exact ⟨[], rfl⟩
  | cons next rest =>
      rw [dropRepeated]
      split
      · split
        · exact ⟨[], rfl⟩
        · exact ⟨_, rfl⟩
      · exact ⟨_, rfl⟩

theorem map_components_dropRepeated (path next : Text) (rest : List Text) :
    (dropRepeated (path :: next :: rest)).map components =
      if components path = components next then (dropRepeated (next :: rest)).map components
      else components path :: (dropRepeated (next :: rest)).map components := by
  obtain ⟨kept, behind⟩ := exists_dropRepeated_cons next rest
  rw [dropRepeated, behind]
  split
  · next same => rw [List.map_cons, same, List.map_cons]
  · rfl

theorem mem_map_dropRepeated {place : List Component} :
    place ∈ (dropRepeated paths).map components ↔ place ∈ paths.map components := by
  induction paths with
  | nil => rfl
  | cons path rest induction =>
      cases rest with
      | nil => rfl
      | cons next rest =>
          rw [map_components_dropRepeated, List.map_cons, List.mem_cons]
          split
          · next same =>
              rw [induction, same, List.map_cons, List.mem_cons]
              exact ⟨.inr, fun inside => inside.elim .inl id⟩
          · rw [List.mem_cons, induction]

theorem mem_of_mem_dropRepeated (kept : path ∈ dropRepeated paths) : path ∈ paths := by
  induction paths with
  | nil => exact kept
  | cons first rest induction =>
      cases rest with
      | nil => exact kept
      | cons next rest =>
          obtain ⟨others, behind⟩ := exists_dropRepeated_cons next rest
          rw [behind] at induction
          rw [dropRepeated, behind] at kept
          split at kept
          · exact (List.mem_cons.1 kept).elim (fun here => here ▸ List.mem_cons_self)
              fun later => List.mem_cons_of_mem _ (induction (List.mem_cons_of_mem _ later))
          · exact (List.mem_cons.1 kept).elim (fun here => here ▸ List.mem_cons_self)
              fun later => List.mem_cons_of_mem _ (induction later)

/-- Sorted paths are ascending when repeated ones are dropped. -/
theorem ascending_dropRepeated
    (sorted : paths.Pairwise fun a b => notAfter (components a) (components b) = true) :
    Ascending (dropRepeated paths) := by
  induction paths with
  | nil => exact List.Pairwise.nil
  | cons path rest induction =>
      obtain ⟨first, later⟩ := List.pairwise_cons.1 sorted
      cases rest with
      | nil => exact List.pairwise_singleton _ _
      | cons next rest =>
          have behind := induction later
          unfold Ascending at behind ⊢
          rw [map_components_dropRepeated]
          split
          · exact behind
          · next different =>
              refine List.pairwise_cons.2 ⟨fun place inside => ?_, behind⟩
              rw [mem_map_dropRepeated] at inside
              obtain ⟨other, member, rfl⟩ := List.mem_map.1 inside
              refine ⟨first other member, fun same => different ?_⟩
              -- what stands between two places that are the same is the same as they are
              have between : notAfter (components next) (components other) = true := by
                rcases List.mem_cons.1 member with rfl | member
                · exact (notAfter_total _ _).elim id id
                · exact (List.pairwise_cons.1 later).1 other member
              exact notAfter_antisymm (first next List.mem_cons_self) (same ▸ between)

end Docblock.Path
