import Mathlib.Data.List.Basic

namespace Ordered
open Std

/-- A map as the list of its bindings in strictly ascending order of the
keys. -/
structure OrderedMap (κ ν : Type) [LT κ] where
  bindings : List (κ × ν)
  sorted : (bindings.map Prod.fst).Pairwise (· < ·)

section Lookup
variable {κ ν : Type} [DecidableEq κ]

theorem lookup_eq_none {k : κ} {bindings : List (κ × ν)} (missing : k ∉ bindings.map Prod.fst) :
    bindings.lookup k = none := by
  induction bindings with
  | nil => rfl
  | cons binding later ih =>
    rw [List.map_cons, List.mem_cons, not_or] at missing
    rw [List.lookup_cons, beq_false_of_ne missing.1]
    exact ih missing.2

theorem mem_bindings_iff {k : κ} {v : ν} {bindings : List (κ × ν)} (nodup : (bindings.map Prod.fst).Nodup) :
    (k, v) ∈ bindings ↔ bindings.lookup k = some v := by
  induction bindings with
  | nil => simp
  | cons binding later ih =>
    obtain ⟨k', v'⟩ := binding
    rw [List.map_cons, List.nodup_cons] at nodup
    rw [List.mem_cons, List.lookup_cons, ih nodup.2]
    by_cases same : k = k'
    · subst same
      rw [beq_self_eq_true]
      have absent := lookup_eq_none nodup.1
      simp only [Prod.mk.injEq, true_and, Option.some.injEq]
      rw [absent]
      simp [eq_comm]
    · rw [beq_false_of_ne same]
      simp [same]

end Lookup

section Get
variable {κ ν : Type} [LT κ] [DecidableEq κ]

/-- The value of a key. -/
def OrderedMap.get (m : OrderedMap κ ν) (k : κ) : Option ν := m.bindings.lookup k

/-- A binding is the value of its key. -/
theorem OrderedMap.mem_iff [LE κ] [LawfulOrderLT κ] (m : OrderedMap κ ν) (k : κ) (v : ν) : (k, v) ∈ m.bindings ↔ m.get k = some v := by
  have nodup : (m.bindings.map Prod.fst).Nodup := m.sorted.imp fun below => by
    rintro rfl
    exact lt_irrefl below
  exact mem_bindings_iff nodup

end Get

section Adjust
variable {κ ν : Type} [LT κ] [DecidableLT κ]

/-- Replaces the value of `k`, which is `start` when there is none yet. -/
def adjustBindings (k : κ) (start : ν) (f : ν → ν) : List (κ × ν) → List (κ × ν)
  | [] => [(k, f start)]
  | (k', v) :: later =>
    if k < k' then (k, f start) :: (k', v) :: later
    else if k' < k then (k', v) :: adjustBindings k start f later
    else (k', f v) :: later

variable [LE κ] [IsLinearOrder κ] [LawfulOrderLT κ]

theorem mem_keys_adjustBindings {k k' : κ} {start : ν} {f : ν → ν} {bindings : List (κ × ν)} :
    k' ∈ (adjustBindings k start f bindings).map Prod.fst ↔ k' = k ∨ k' ∈ bindings.map Prod.fst := by
  induction bindings with
  | nil => simp [adjustBindings]
  | cons binding later ih =>
    obtain ⟨k'', v⟩ := binding
    unfold adjustBindings
    split
    · simp
    · split
      · rw [List.map_cons, List.mem_cons, ih, List.map_cons, List.mem_cons]
        tauto
      · rename_i notBelow notAbove
        have same : k = k'' := by grind
        simp [same]

theorem adjustBindings_sorted {k : κ} {start : ν} {f : ν → ν} {bindings : List (κ × ν)}
    (sorted : (bindings.map Prod.fst).Pairwise (· < ·)) :
    ((adjustBindings k start f bindings).map Prod.fst).Pairwise (· < ·) := by
  induction bindings with
  | nil => simp [adjustBindings]
  | cons binding later ih =>
    obtain ⟨k', v⟩ := binding
    obtain ⟨first, rest⟩ := List.pairwise_cons.mp sorted
    unfold adjustBindings
    split
    · rename_i below
      refine List.pairwise_cons.mpr ⟨fun k'' member => ?_, sorted⟩
      rcases List.mem_cons.mp member with rfl | member
      · exact below
      · exact lt_trans below (first k'' member)
    · split
      · rename_i above
        refine List.pairwise_cons.mpr ⟨fun k'' member => ?_, ih rest⟩
        rcases mem_keys_adjustBindings.mp member with rfl | member
        · exact above
        · exact first k'' member
      · exact sorted

def OrderedMap.empty : OrderedMap κ ν := ⟨[], List.Pairwise.nil⟩

def OrderedMap.adjust (m : OrderedMap κ ν) (k : κ) (start : ν) (f : ν → ν) : OrderedMap κ ν :=
  ⟨adjustBindings k start f m.bindings, adjustBindings_sorted m.sorted⟩

variable [DecidableEq κ]

theorem lookup_adjustBindings {k k' : κ} {start : ν} {f : ν → ν} {bindings : List (κ × ν)}
    (sorted : (bindings.map Prod.fst).Pairwise (· < ·)) :
    (adjustBindings k start f bindings).lookup k' =
      if k' = k then some (f ((bindings.lookup k).getD start)) else bindings.lookup k' := by
  induction bindings with
  | nil =>
    by_cases same : k' = k
    · simp [adjustBindings, same]
    · rw [adjustBindings, List.lookup_cons, beq_false_of_ne same, if_neg same]
  | cons binding later ih =>
    obtain ⟨k'', v⟩ := binding
    obtain ⟨first, rest⟩ := List.pairwise_cons.mp sorted
    unfold adjustBindings
    split
    · rename_i below
      have missing : k ∉ (((k'', v) :: later).map Prod.fst) := by
        intro member
        rcases List.mem_cons.mp member with same | member
        · exact lt_irrefl (same ▸ below)
        · exact lt_irrefl (lt_trans below (first k member))
      rw [lookup_eq_none missing, Option.getD_none]
      by_cases same : k' = k
      · simp [same]
      · rw [List.lookup_cons, beq_false_of_ne same, if_neg same]
    · split
      · rename_i notBelow above
        have other : k ≠ k'' := by
          rintro rfl
          exact lt_irrefl above
        rw [List.lookup_cons, ih rest, List.lookup_cons, List.lookup_cons, beq_false_of_ne other]
        by_cases here : k' = k''
        · subst here
          simp only [beq_self_eq_true, if_neg (Ne.symm other)]
        · rw [beq_false_of_ne here]
      · rename_i notBelow notAbove
        have same : k'' = k := by grind
        subst same
        by_cases here : k' = k''
        · simp [here]
        · rw [if_neg here, List.lookup_cons, List.lookup_cons, beq_false_of_ne here]

theorem OrderedMap.get_adjust (m : OrderedMap κ ν) (k k' : κ) (start : ν) (f : ν → ν) :
    (m.adjust k start f).get k' = if k' = k then some (f ((m.get k).getD start)) else m.get k' :=
  lookup_adjustBindings m.sorted

end Adjust

end Ordered
