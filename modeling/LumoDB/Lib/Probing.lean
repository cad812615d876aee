import Mathlib.Data.List.Nodup
import Mathlib.Data.List.Perm.Subperm
import Mathlib.Logic.Function.Basic

namespace LinearProbing
variable {κ : Type}

/-- The slot a probe sequence inspects in its `probe`-th step. -/
def probeSlot (size start probe : Nat) : Nat := (start + probe) % size

theorem probeSlot_lt {size : Nat} (positive : 0 < size) (start probe : Nat) :
    probeSlot size start probe < size := Nat.mod_lt _ positive

/-- The number of steps from a start slot to a given slot. -/
theorem probe_exists {size i : Nat} (start : Nat) (inside : i < size) :
    ∃ probe < size, probeSlot size start probe = i := by
  have positive : 0 < size := by omega
  have home := Nat.mod_lt start positive
  by_cases ahead : start % size ≤ i
  · refine ⟨i - start % size, by omega, ?_⟩
    rw [probeSlot, ← Nat.mod_add_mod, show start % size + (i - start % size) = i by omega,
      Nat.mod_eq_of_lt inside]
  · refine ⟨i + size - start % size, by omega, ?_⟩
    rw [probeSlot, ← Nat.mod_add_mod,
      show start % size + (i + size - start % size) = i + size by omega, Nat.add_mod_right,
      Nat.mod_eq_of_lt inside]

/-- Keys in the slots of a table that may be full: a key is stored once, and
every slot between the start slot of a stored key and its own is occupied. -/
structure Arranged (size : Nat) (home : κ → Nat) (slot : Nat → Option κ) : Prop where
  unique : ∀ i j k, i < size → j < size → slot i = some k → slot j = some k → i = j
  chain : ∀ i k, i < size → slot i = some k →
    ∃ probe < size, probeSlot size (home k) probe = i ∧
      ∀ q < probe, slot (probeSlot size (home k) q) ≠ none

/-- The table invariant: a key is stored once, every slot between the start
slot of a stored key and its own slot is occupied, and one slot is empty. -/
structure Table (size : Nat) (home : κ → Nat) (slot : Nat → Option κ) : Prop where
  unique : ∀ i j k, i < size → j < size → slot i = some k → slot j = some k → i = j
  chain : ∀ i k, i < size → slot i = some k →
    ∃ probe < size, probeSlot size (home k) probe = i ∧
      ∀ q < probe, slot (probeSlot size (home k) q) ≠ none
  vacancy : ∃ i < size, slot i = none

variable {size : Nat} {home : κ → Nat} {slot : Nat → Option κ}

theorem Table.arranged (table : Table size home slot) : Arranged size home slot := ⟨table.unique, table.chain⟩

/-- The first `probe` slots on the way of `k` hold other keys. -/
def Passed (size : Nat) (home : κ → Nat) (slot : Nat → Option κ) (k : κ) (probe : Nat) : Prop :=
  ∀ q < probe, ∃ k', slot (probeSlot size (home k) q) = some k' ∧ k' ≠ k

theorem Passed.zero (k : κ) : Passed size home slot k 0 := fun _ bound => absurd bound (Nat.not_lt_zero _)

theorem Passed.succ {k k' : κ} {probe : Nat} (passed : Passed size home slot k probe)
    (here : slot (probeSlot size (home k) probe) = some k') (other : k' ≠ k) :
    Passed size home slot k (probe + 1) := by
  intro q bound
  rcases Nat.lt_succ_iff_lt_or_eq.mp bound with before | rfl
  · exact passed q before
  · exact ⟨k', here, other⟩

/-- A probe sequence never runs through the whole table. -/
theorem Passed.lt_size {k : κ} {probe : Nat} (vacancy : ∃ i < size, slot i = none)
    (passed : Passed size home slot k probe) : probe < size := by
  obtain ⟨i, inside, empty⟩ := vacancy
  obtain ⟨q, bound, at_i⟩ := probe_exists (home k) inside
  by_contra full
  obtain ⟨k', occupied, _⟩ := passed q (by omega)
  rw [at_i, empty] at occupied
  cases occupied

/-- Reaching an empty slot before the key proves the key absent. -/
theorem Arranged.absent_of_vacant {k : κ} {probe : Nat} (arranged : Arranged size home slot)
    (passed : Passed size home slot k probe) (within : probe < size)
    (empty : slot (probeSlot size (home k) probe) = none) :
    ∀ i < size, slot i ≠ some k := by
  intro i inside stored
  obtain ⟨steps, bound, at_i, occupied⟩ := arranged.chain i k inside stored
  rcases Nat.lt_trichotomy steps probe with before | same | after
  · obtain ⟨k', here, other⟩ := passed steps before
    rw [at_i, stored] at here
    exact other (Option.some.inj here).symm
  · subst same
    rw [at_i, stored] at empty
    cases empty
  · exact occupied probe after empty

theorem Table.absent_of_vacant {k : κ} {probe : Nat} (table : Table size home slot)
    (passed : Passed size home slot k probe) (within : probe < size)
    (empty : slot (probeSlot size (home k) probe) = none) : ∀ i < size, slot i ≠ some k :=
  table.arranged.absent_of_vacant passed within empty

/-- A probe sequence that has passed every slot has met no empty one and not
the key. -/
theorem Passed.whole {k : κ} (passed : Passed size home slot k size) :
    ∀ i < size, slot i ≠ none ∧ slot i ≠ some k := by
  intro i inside
  obtain ⟨q, before, at_i⟩ := probe_exists (home k) inside
  obtain ⟨k', here, other⟩ := passed q before
  rw [at_i] at here
  rw [here]
  exact ⟨Option.some_ne_none k', fun same => other (Option.some.inj same)⟩

/-- A new key goes into the first empty slot of its probe sequence. -/
theorem Arranged.insert {k : κ} {probe : Nat} (arranged : Arranged size home slot)
    (passed : Passed size home slot k probe) (within : probe < size)
    (empty : slot (probeSlot size (home k) probe) = none) :
    Arranged size home (Function.update slot (probeSlot size (home k) probe) (some k)) := by
  have absent := arranged.absent_of_vacant passed within empty
  set target := probeSlot size (home k) probe with target_eq
  have keeps : ∀ {i}, slot i ≠ none → Function.update slot target (some k) i ≠ none := by
    intro i occupied
    by_cases here : i = target
    · simp [here]
    · rwa [Function.update_of_ne here]
  refine ⟨?_, ?_⟩
  · intro i j k' hi hj at_i at_j
    by_cases ti : i = target <;> by_cases tj : j = target
    · rw [ti, tj]
    · rw [ti, Function.update_self] at at_i
      rw [Function.update_of_ne tj] at at_j
      cases Option.some.inj at_i
      exact absurd at_j (absent j hj)
    · rw [tj, Function.update_self] at at_j
      rw [Function.update_of_ne ti] at at_i
      cases Option.some.inj at_j
      exact absurd at_i (absent i hi)
    · rw [Function.update_of_ne ti] at at_i
      rw [Function.update_of_ne tj] at at_j
      exact arranged.unique i j k' hi hj at_i at_j
  · intro i k' hi at_i
    by_cases ti : i = target
    · rw [ti, Function.update_self] at at_i
      cases Option.some.inj at_i
      refine ⟨probe, within, by rw [ti], fun q before => keeps ?_⟩
      obtain ⟨other, occupied, _⟩ := passed q before
      rw [occupied]
      exact Option.some_ne_none _
    · rw [Function.update_of_ne ti] at at_i
      obtain ⟨steps, bound, reach, occupied⟩ := arranged.chain i k' hi at_i
      exact ⟨steps, bound, reach, fun q before => keeps (occupied q before)⟩

/-- The table invariant is kept as long as another empty slot remains. -/
theorem Table.insert {k : κ} {probe : Nat} (table : Table size home slot)
    (passed : Passed size home slot k probe) (within : probe < size)
    (empty : slot (probeSlot size (home k) probe) = none)
    (room : ∃ i < size, i ≠ probeSlot size (home k) probe ∧ slot i = none) :
    Table size home (Function.update slot (probeSlot size (home k) probe) (some k)) := by
  obtain ⟨unique, chain⟩ := table.arranged.insert passed within empty
  obtain ⟨i, inside, other, vacant⟩ := room
  exact ⟨unique, chain, i, inside, by rwa [Function.update_of_ne other]⟩

theorem Table.empty (positive : 0 < size) : Table size home (fun _ => none) :=
  ⟨fun _ _ _ _ _ h => (nomatch h), fun _ _ _ h => (nomatch h), ⟨0, positive, rfl⟩⟩

/-- The keys of the table in slot order. -/
def keys (size : Nat) (slot : Nat → Option κ) : List κ := (List.range size).filterMap slot

theorem mem_keys {k : κ} : k ∈ keys size slot ↔ ∃ i < size, slot i = some k := by
  simp only [keys, List.mem_filterMap, List.mem_range]

theorem Arranged.keys_nodup (arranged : Arranged size home slot) : (keys size slot).Nodup := by
  unfold keys List.Nodup
  rw [List.pairwise_filterMap]
  refine List.Pairwise.imp_of_mem ?_ List.pairwise_lt_range
  intro i j hi hj before k at_i k' at_j same
  subst same
  exact Nat.ne_of_lt before
    (arranged.unique i j k (List.mem_range.mp hi) (List.mem_range.mp hj) at_i at_j)

theorem Table.keys_nodup (table : Table size home slot) : (keys size slot).Nodup := table.arranged.keys_nodup

/-- The number of occupied slots, counted in slot order. -/
def filled : Nat → (Nat → Option κ) → Nat
  | 0, _ => 0
  | size + 1, slot => filled size slot + if (slot size).isSome then 1 else 0

theorem filled_eq_length_keys (size : Nat) (slot : Nat → Option κ) :
    filled size slot = (keys size slot).length := by
  induction size with
  | zero => rfl
  | succ size ih =>
    rw [keys, List.range_succ, List.filterMap_append, List.length_append, filled, ih, keys]
    cases here : slot size <;> simp [here]

theorem filled_le (size : Nat) (slot : Nat → Option κ) : filled size slot ≤ size := by
  induction size with
  | zero => exact Nat.le_refl 0
  | succ size ih =>
    rw [filled]
    split <;> omega

theorem filled_mono {part : Nat} (le : part ≤ size) (slot : Nat → Option κ) : filled part slot ≤ filled size slot := by
  induction size with
  | zero =>
    obtain rfl := Nat.le_zero.mp le
    exact Nat.le_refl _
  | succ size ih =>
    rcases Nat.lt_or_eq_of_le le with before | rfl
    · exact Nat.le_trans (ih (by omega)) (Nat.le_add_right _ _)
    · exact Nat.le_refl _

theorem filled_congr {κ' : Type} {slot' : Nat → Option κ'}
    (same : ∀ i < size, (slot i).isSome = (slot' i).isSome) : filled size slot = filled size slot' := by
  induction size with
  | zero => rfl
  | succ size ih =>
    rw [filled, filled, ih fun i inside => same i (by omega), same size (Nat.lt_succ_self size)]

theorem filled_update {i : Nat} {k : κ} (inside : i < size) (empty : slot i = none) :
    filled size (Function.update slot i (some k)) = filled size slot + 1 := by
  induction size with
  | zero => omega
  | succ size ih =>
    rw [filled, filled]
    by_cases last : i = size
    · subst last
      have before : filled i (Function.update slot i (some k)) = filled i slot :=
        filled_congr fun j inside => by rw [Function.update_of_ne (by omega)]
      rw [before, Function.update_self, empty]
      rfl
    · rw [ih (by omega), Function.update_of_ne (Ne.symm last)]
      omega

theorem vacancy_of_filled_lt (room : filled size slot < size) : ∃ i < size, slot i = none := by
  induction size with
  | zero => omega
  | succ size ih =>
    rw [filled] at room
    cases last : slot size with
    | none => exact ⟨size, Nat.lt_succ_self size, last⟩
    | some k =>
      obtain ⟨i, inside, empty⟩ := ih (by simp [last] at room; omega)
      exact ⟨i, by omega, empty⟩

theorem filled_lt_of_vacancy (vacancy : ∃ i < size, slot i = none) : filled size slot < size := by
  induction size with
  | zero => obtain ⟨i, inside, _⟩ := vacancy; omega
  | succ size ih =>
    obtain ⟨i, inside, empty⟩ := vacancy
    rw [filled]
    by_cases last : i = size
    · subst last
      simp only [empty, Option.isSome_none, Bool.false_eq_true, if_false, Nat.add_zero]
      exact Nat.lt_succ_of_le (filled_le i slot)
    · have earlier := ih ⟨i, by omega, empty⟩
      split <;> omega

theorem filled_none (size : Nat) : filled size (fun _ => (none : Option κ)) = 0 := by
  induction size with
  | zero => rfl
  | succ size ih => rw [filled, ih]; rfl

/-- The table after a new key was put into its first empty slot, as long as
the count leaves a slot empty. -/
theorem Table.insert_of_filled {k : κ} {probe : Nat} (table : Table size home slot)
    (passed : Passed size home slot k probe)
    (empty : slot (probeSlot size (home k) probe) = none) (room : filled size slot + 1 < size) :
    Table size home (Function.update slot (probeSlot size (home k) probe) (some k)) := by
  have within := passed.lt_size table.vacancy
  have target := probeSlot_lt (by omega : 0 < size) (home k) probe
  obtain ⟨i, inside, vacant⟩ := @vacancy_of_filled_lt _ _
    (Function.update slot (probeSlot size (home k) probe) (some k)) (by
      rw [filled_update target empty]
      exact room)
  have other : i ≠ probeSlot size (home k) probe := by
    intro same
    rw [same, Function.update_self] at vacant
    cases vacant
  exact table.insert passed within empty ⟨i, inside, other, by rwa [Function.update_of_ne other] at vacant⟩

/-- Slots that are only known to be occupied are passed by an absent key. -/
theorem Passed.of_absent {k : κ} {probe : Nat} (positive : 0 < size) (absent : ∀ i < size, slot i ≠ some k)
    (occupied : ∀ q < probe, slot (probeSlot size (home k) q) ≠ none) :
    Passed size home slot k probe := by
  intro q before
  obtain ⟨k', here⟩ := Option.ne_none_iff_exists'.mp (occupied q before)
  refine ⟨k', here, fun same => ?_⟩
  exact absent _ (probeSlot_lt positive (home k) q) (by rw [here, same])

/-- A slot of the table holds `k`. -/
def Stored (size : Nat) (slot : Nat → Option κ) (k : κ) : Prop := ∃ i < size, slot i = some k

theorem stored_none {k : κ} : ¬ Stored size (fun _ => (none : Option κ)) k := fun ⟨_, _, at_i⟩ => nomatch at_i

theorem stored_update {i : Nat} {k : κ} (inside : i < size) (free : slot i = none ∨ slot i = some k) (k' : κ) :
    Stored size (Function.update slot i (some k)) k' ↔ k' = k ∨ Stored size slot k' := by
  constructor
  · rintro ⟨j, hj, at_j⟩
    by_cases here : j = i
    · subst here
      rw [Function.update_self] at at_j
      exact Or.inl (Option.some.inj at_j).symm
    · rw [Function.update_of_ne here] at at_j
      exact Or.inr ⟨j, hj, at_j⟩
  · rintro (rfl | ⟨j, hj, at_j⟩)
    · exact ⟨i, inside, by rw [Function.update_self]⟩
    · by_cases here : j = i
      · subst here
        rcases free with empty | same
        · rw [empty] at at_j
          cases at_j
        · rw [same] at at_j
          exact ⟨j, hj, by rw [Function.update_self, at_j]⟩
      · exact ⟨j, hj, by rw [Function.update_of_ne here, at_j]⟩

/-- Tables of the same keys have the same number of occupied slots. -/
theorem filled_eq_of_stored_iff {size' : Nat} {slot' : Nat → Option κ} (table : Arranged size home slot)
    (table' : Arranged size' home slot') (same : ∀ k, Stored size' slot' k ↔ Stored size slot k) :
    filled size' slot' = filled size slot := by
  rw [filled_eq_length_keys, filled_eq_length_keys]
  refine ((List.perm_ext_iff_of_nodup table'.keys_nodup table.keys_nodup).mpr fun k => ?_).length_eq
  rw [mem_keys, mem_keys]
  exact same k

/-- A table that has lost a key has fewer occupied slots. -/
theorem filled_lt_of_lost {size' : Nat} {slot' : Nat → Option κ} {k : κ} (table' : Arranged size' home slot')
    (fewer : ∀ k, Stored size' slot' k → Stored size slot k) (held : Stored size slot k) (lost : ¬ Stored size' slot' k) :
    filled size' slot' < filled size slot := by
  have nodup : (k :: keys size' slot').Nodup :=
    List.nodup_cons.mpr ⟨fun member => lost (mem_keys.mp member), table'.keys_nodup⟩
  have inside : k :: keys size' slot' ⊆ keys size slot :=
    List.cons_subset.mpr ⟨mem_keys.mpr held, fun k' member => mem_keys.mpr (fewer k' (mem_keys.mp member))⟩
  rw [filled_eq_length_keys, filled_eq_length_keys]
  exact (nodup.subperm inside).length_le

/-- What a search for `k` ends with: the slot of `k`, or the first empty slot
on its probe sequence. -/
structure Lookup (size : Nat) (home : κ → Nat) (slot : Nat → Option κ) (k : κ) (index : Nat) (present : Bool) :
    Prop where
  inside : index < size
  found : present = true → slot index = some k
  vacant : present = false → ∃ probe, index = probeSlot size (home k) probe ∧
    Passed size home slot k probe ∧ slot index = none

section Lookups
variable {k : κ} {index : Nat} {present : Bool}

theorem Lookup.free (looked : Lookup size home slot k index present) : slot index = none ∨ slot index = some k := by
  cases present with
  | true => exact Or.inr (looked.found rfl)
  | false =>
    obtain ⟨_, _, _, empty⟩ := looked.vacant rfl
    exact Or.inl empty

/-- A search reports exactly whether the key is stored. -/
theorem Lookup.stored_iff (looked : Lookup size home slot k index present) (arranged : Arranged size home slot) :
    Stored size slot k ↔ present = true := by
  cases present with
  | true => exact iff_of_true ⟨index, looked.inside, looked.found rfl⟩ rfl
  | false =>
    obtain ⟨probe, target, passed, empty⟩ := looked.vacant rfl
    have within := passed.lt_size ⟨index, looked.inside, empty⟩
    rw [target] at empty
    refine iff_of_false (fun ⟨i, inside, at_i⟩ => ?_) (by decide)
    exact arranged.absent_of_vacant passed within empty i inside at_i

theorem Lookup.others (looked : Lookup size home slot k index present) (table : Table size home slot) :
    ∀ i < size, i ≠ index → slot i ≠ some k := by
  intro i inside other at_i
  have reported := (looked.stored_iff table.arranged).mp ⟨i, inside, at_i⟩
  exact other (table.unique i index k inside looked.inside at_i (looked.found reported))

/-- Two searches for a key end at the same slot. -/
theorem Lookup.unique {index' : Nat} {present' : Bool} (looked : Lookup size home slot k index present)
    (looked' : Lookup size home slot k index' present') (table : Table size home slot) :
    index' = index ∧ present' = present := by
  have same : present' = present :=
    Bool.eq_iff_iff.mpr ((looked'.stored_iff table.arranged).symm.trans (looked.stored_iff table.arranged))
  subst same
  cases present' with
  | true =>
    exact ⟨table.unique index' index k looked'.inside looked.inside (looked'.found rfl) (looked.found rfl), rfl⟩
  | false =>
    obtain ⟨probe, target, passed, empty⟩ := looked.vacant rfl
    obtain ⟨probe', target', passed', empty'⟩ := looked'.vacant rfl
    rw [target] at empty
    rw [target'] at empty'
    rcases Nat.lt_trichotomy probe' probe with before | equal | after
    · obtain ⟨other, here, _⟩ := passed probe' before
      exact nomatch empty'.symm.trans here
    · rw [target, target', equal]
      exact ⟨rfl, rfl⟩
    · obtain ⟨other, here, _⟩ := passed' probe after
      exact nomatch empty.symm.trans here

theorem Lookup.filled_eq (looked : Lookup size home slot k index present) :
    filled size (Function.update slot index (some k)) = if present then filled size slot else filled size slot + 1 := by
  cases present with
  | true => rw [← looked.found rfl, Function.update_eq_self, if_pos rfl]
  | false =>
    obtain ⟨_, _, _, empty⟩ := looked.vacant rfl
    rw [filled_update looked.inside empty, if_neg (by decide)]

theorem Lookup.filled_le (looked : Lookup size home slot k index present) :
    filled size slot ≤ filled size (Function.update slot index (some k)) ∧
      filled size (Function.update slot index (some k)) ≤ filled size slot + 1 := by
  rw [looked.filled_eq]
  split <;> omega

theorem Lookup.insert (looked : Lookup size home slot k index present) (arranged : Arranged size home slot) :
    Arranged size home (Function.update slot index (some k)) := by
  cases present with
  | true =>
    rw [← looked.found rfl, Function.update_eq_self]
    exact arranged
  | false =>
    obtain ⟨probe, target, passed, empty⟩ := looked.vacant rfl
    have within := passed.lt_size ⟨index, looked.inside, empty⟩
    rw [target] at empty ⊢
    exact arranged.insert passed within empty

theorem Lookup.table (looked : Lookup size home slot k index present) (table : Table size home slot)
    (room : present = false → filled size slot + 1 < size) :
    Table size home (Function.update slot index (some k)) := by
  cases present with
  | true =>
    rw [← looked.found rfl, Function.update_eq_self]
    exact table
  | false =>
    obtain ⟨probe, target, passed, empty⟩ := looked.vacant rfl
    rw [target] at empty ⊢
    exact table.insert_of_filled passed empty (room rfl)

end Lookups

end LinearProbing
