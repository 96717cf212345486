import Docblock.Text.Basic

/-!
# Bytes of a text

A text between two others takes up the bytes behind those of the first: `Slice`.
-/

set_option autoImplicit false

namespace Docblock.Text

variable {source s t : Text} {start stop : Nat}

theorem byteSize_append (s t : Text) : byteSize (s ++ t) = byteSize s + byteSize t := by
  induction s with
  | nil => simp [byteSize]
  | cons c s induction => simp [byteSize, induction, Nat.add_assoc]

theorem byteSize_pos (filled : s ≠ []) : 0 < byteSize s := by
  cases s with
  | nil => exact absurd rfl filled
  | cons c s => exact Nat.add_pos_left c.utf8Size_pos _

theorem size_utf8Encode (s : Text) : s.utf8Encode.size = byteSize s := by
  induction s with
  | nil => rfl
  | cons c s induction =>
      rw [List.utf8Encode_cons, ByteArray.size_append, induction, byteSize]
      simp [List.utf8Encode, String.length_utf8EncodeChar]

/-- The first byte of a character is its code, or both lie beyond those of one byte. -/
theorem exists_utf8EncodeChar (c : Char) : ∃ b more, String.utf8EncodeChar c = b :: more ∧
    (b.toNat = c.toNat ∨ 128 ≤ b.toNat ∧ 128 ≤ c.toNat) := by
  simp only [String.utf8EncodeChar]
  split
  · next ascii =>
      refine ⟨_, [], rfl, .inl ?_⟩
      rw [UInt8.toNat_ofNat']
      exact Nat.mod_eq_of_lt (Nat.lt_of_le_of_lt ascii (by decide))
  · next wide =>
      have above : 128 ≤ c.toNat := Nat.lt_of_not_le wide
      split
      · refine ⟨_, _, rfl, .inr ⟨?_, above⟩⟩
        rw [UInt8.toNat_ofNat']
        omega
      · split
        · refine ⟨_, _, rfl, .inr ⟨?_, above⟩⟩
          rw [UInt8.toNat_ofNat']
          omega
        · refine ⟨_, _, rfl, .inr ⟨?_, above⟩⟩
          rw [UInt8.toNat_ofNat']
          omega

theorem extract_utf8Encode (before s after : Text) :
    (before ++ (s ++ after)).utf8Encode.extract (byteSize before) (byteSize (before ++ s)) = s.utf8Encode := by
  rw [← List.append_assoc, List.utf8Encode_append, List.utf8Encode_append, byteSize_append, ← size_utf8Encode,
    ← size_utf8Encode, ← ByteArray.size_append, ByteArray.extract_append_size_left]
  exact ByteArray.extract_append_eq_right rfl ByteArray.size_append

/-- The text stands in the source between two byte offsets, each of which lies between characters. -/
def Slice (source : Text) (start stop : Nat) (s : Text) : Prop :=
  ∃ before after, source = before ++ (s ++ after) ∧ start = byteSize before ∧ stop = byteSize (before ++ s)

theorem Slice.behind (s t : Text) : Slice (s ++ t) (byteSize s) (byteSize (s ++ t)) t :=
  ⟨s, [], by rw [List.append_nil], rfl, rfl⟩

theorem Slice.before (s t : Text) : Slice (s ++ t) 0 (byteSize (s ++ t) - byteSize t) s := by
  refine ⟨[], t, rfl, rfl, ?_⟩
  rw [byteSize_append, Nat.add_sub_cancel_right]
  rfl

theorem Slice.extract (slice : Slice source start stop s) :
    source.utf8Encode.extract start stop = s.utf8Encode := by
  obtain ⟨before, after, rfl, rfl, rfl⟩ := slice
  exact extract_utf8Encode before s after

theorem Slice.stop_eq (slice : Slice source start stop s) : stop = start + byteSize s := by
  obtain ⟨before, after, -, rfl, rfl⟩ := slice
  exact byteSize_append before s

theorem Slice.le (slice : Slice source start stop s) : start ≤ stop := by
  rw [slice.stop_eq]
  exact Nat.le_add_right start _

theorem Slice.lt (slice : Slice source start stop s) (filled : s ≠ []) : start < stop := by
  rw [slice.stop_eq]
  exact Nat.lt_add_of_pos_right (byteSize_pos filled)

/-! ## Cutting at bytes -/

theorem byteSize_eq_zero_iff : byteSize s = 0 ↔ s = [] := by
  refine ⟨fun zero => Classical.byContradiction fun filled => ?_, fun none => none ▸ rfl⟩
  exact Nat.ne_of_gt (byteSize_pos filled) zero

theorem dropBytes?_eq_some_iff {count : Nat} {rest : Text} :
    dropBytes? s count = some rest ↔ ∃ front, s = front ++ rest ∧ byteSize front = count := by
  induction s generalizing count with
  | nil =>
      cases count with
      | zero => simp [dropBytes?, byteSize, eq_comm, and_assoc]
      | succ count =>
          simp only [dropBytes?, reduceCtorEq, false_iff]
          rintro ⟨front, whole, size⟩
          rw [(List.append_eq_nil_iff.1 whole.symm).1] at size
          cases size
  | cons c s induction =>
      cases count with
      | zero => simp [dropBytes?, byteSize_eq_zero_iff]
      | succ count =>
          have filled := c.utf8Size_pos
          rw [dropBytes?]
          constructor
          · intro found
            split at found
            · next fits =>
                obtain ⟨front, rfl, size⟩ := induction.1 found
                exact ⟨c :: front, rfl, by rw [byteSize]; omega⟩
            · cases found
          · rintro ⟨front, whole, size⟩
            cases front with
            | nil => cases size
            | cons d front =>
                obtain ⟨rfl, behind⟩ := List.cons.inj whole
                rw [byteSize] at size
                rw [if_pos (by omega)]
                exact induction.2 ⟨front, behind, by omega⟩

theorem takeBytes?_eq_some_iff {count : Nat} {front : Text} :
    takeBytes? s count = some front ↔ ∃ rest, s = front ++ rest ∧ byteSize front = count := by
  induction s generalizing count front with
  | nil =>
      cases count with
      | zero => cases front <;> simp [takeBytes?, byteSize_eq_zero_iff]
      | succ count =>
          simp only [takeBytes?, reduceCtorEq, false_iff]
          rintro ⟨rest, whole, size⟩
          rw [(List.append_eq_nil_iff.1 whole.symm).1] at size
          cases size
  | cons c s induction =>
      cases count with
      | zero => cases front <;> simp [takeBytes?, byteSize_eq_zero_iff]
      | succ count =>
          have filled := c.utf8Size_pos
          rw [takeBytes?]
          constructor
          · intro found
            split at found
            · obtain ⟨more, taken, rfl⟩ := Option.map_eq_some_iff.1 found
              obtain ⟨rest, rfl, size⟩ := induction.1 taken
              exact ⟨rest, rfl, by rw [byteSize]; omega⟩
            · cases found
          · rintro ⟨rest, whole, size⟩
            cases front with
            | nil => cases size
            | cons d front =>
                obtain ⟨rfl, behind⟩ := List.cons.inj whole
                rw [byteSize] at size
                rw [if_pos (by omega), induction.2 ⟨rest, behind, by omega⟩]
                rfl

theorem slice?_eq_some_iff : source.slice? start stop = some s ↔ Slice source start stop s := by
  unfold slice?
  constructor
  · intro found
    split at found
    · next ordered =>
        obtain ⟨rest, dropped, taken⟩ := Option.bind_eq_some_iff.1 found
        obtain ⟨before, rfl, size⟩ := dropBytes?_eq_some_iff.1 dropped
        obtain ⟨after, rfl, size'⟩ := takeBytes?_eq_some_iff.1 taken
        exact ⟨before, after, rfl, size.symm, by rw [byteSize_append]; omega⟩
    · cases found
  · intro slice
    rw [if_pos slice.le]
    obtain ⟨before, after, whole, rfl, rfl⟩ := slice
    refine Option.bind_eq_some_iff.2 ⟨s ++ after, dropBytes?_eq_some_iff.2 ⟨before, whole, rfl⟩,
      takeBytes?_eq_some_iff.2 ⟨after, rfl, ?_⟩⟩
    rw [byteSize_append, Nat.add_sub_cancel_left]

end Docblock.Text
