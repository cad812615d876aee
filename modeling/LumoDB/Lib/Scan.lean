import Mathlib.Data.List.Basic

namespace LinearScan

/-- A scan of the first `length` places, which at each place takes an item of
some size or none, and goes on behind the item. `passed` are the places of the
items taken so far, in their order. -/
inductive Reaches (start length : Nat) (size : Nat → Option Nat) : List Nat → Nat → Prop where
  | start : Reaches start length size [] start
  | next {passed offset n} (before : Reaches start length size passed offset) (inside : offset < length)
      (item : size offset = some n) : Reaches start length size (passed ++ [offset]) (offset + n)

/-- Every item that is taken ends within the scanned places. -/
def Contained (length : Nat) (size : Nat → Option Nat) : Prop :=
  ∀ offset n, offset < length → size offset = some n → offset + n ≤ length

section Scan
variable {start length offset : Nat} {size : Nat → Option Nat} {passed : List Nat}

theorem Reaches.le_length (reaches : Reaches start length size passed offset) (contained : Contained length size)
    (inside : start ≤ length) : offset ≤ length := by
  cases reaches with
  | start => exact inside
  | next _ below item => exact contained _ _ below item

theorem Reaches.start_le (reaches : Reaches start length size passed offset) : start ≤ offset := by
  induction reaches with
  | start => exact Nat.le_refl _
  | next _ _ _ ih => exact Nat.le_trans ih (Nat.le_add_right _ _)

theorem Reaches.take (reaches : Reaches start length size passed offset) {m : Nat} (few : m ≤ passed.length) :
    ∃ o, Reaches start length size (passed.take m) o := by
  induction reaches with
  | start => exact ⟨start, by rw [List.take_nil]; exact .start⟩
  | @next passed offset n before inside item ih =>
    by_cases earlier : m ≤ passed.length
    · rw [List.take_append_of_le_length earlier]
      exact ih earlier
    · rw [List.take_of_length_le (by rw [List.length_append, List.length_singleton]; omega)]
      exact ⟨offset + n, before.next inside item⟩

theorem Reaches.mem_lt (reaches : Reaches start length size passed offset) {o : Nat} (member : o ∈ passed) : o < length := by
  induction reaches with
  | start => cases member
  | next _ inside _ ih =>
    rcases List.mem_append.mp member with earlier | last
    · exact ih earlier
    · rwa [List.mem_singleton.mp last]

/-- A scan ends at the last place, or at a place where it takes no item, or
stays for ever at an item that takes no place. Until then it takes no more
items than it passes places. -/
theorem ends_or_stops_or_stays (contained : Contained length size) (inside : start ≤ length) :
    (∃ passed, Reaches start length size passed length ∧ start + passed.length ≤ length) ∨
    (∃ passed offset, Reaches start length size passed offset ∧ start + passed.length ≤ offset ∧ offset < length ∧
      size offset = none) ∨
    ∃ passed offset, Reaches start length size passed offset ∧ offset < length ∧ size offset = some 0 := by
  suffices further : ∀ left passed offset, length - offset ≤ left → Reaches start length size passed offset →
      start + passed.length ≤ offset →
      (∃ passed, Reaches start length size passed length ∧ start + passed.length ≤ length) ∨
      (∃ passed offset, Reaches start length size passed offset ∧ start + passed.length ≤ offset ∧ offset < length ∧
        size offset = none) ∨
      ∃ passed offset, Reaches start length size passed offset ∧ offset < length ∧ size offset = some 0 from
    further _ _ _ (Nat.le_refl _) .start (Nat.le_refl _)
  intro left
  induction left with
  | zero =>
    intro passed offset short reaches few
    have bound := reaches.le_length contained inside
    obtain rfl : offset = length := by omega
    exact Or.inl ⟨passed, reaches, few⟩
  | succ left ih =>
    intro passed offset short reaches few
    by_cases below : offset < length
    · cases item : size offset with
      | none => exact Or.inr (Or.inl ⟨passed, offset, reaches, few, below, item⟩)
      | some n =>
        rcases Nat.eq_zero_or_pos n with rfl | positive
        · exact Or.inr (Or.inr ⟨passed, offset, reaches, below, item⟩)
        · refine ih _ (offset + n) (by omega) (reaches.next below item) ?_
          rw [List.length_append, List.length_singleton]
          omega
    · have bound := reaches.le_length contained inside
      obtain rfl : offset = length := by omega
      exact Or.inl ⟨passed, reaches, few⟩

end Scan

end LinearScan
