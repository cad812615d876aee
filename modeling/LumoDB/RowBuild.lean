import LumoDB.IndexFile
import LumoDB.RowBlock
import Mathlib.Algebra.Order.Floor.Ring

namespace LumoDB
open ByteCodec Effects LinearProbing

/-- The content of a row: what its keys hold. -/
abbrev RowMap := Bytes → Option Bytes

/-- The map the entries of a row leave: the last one with a key wins. -/
def rowMap (entries : List RowStructEntry) : RowMap :=
  entries.foldl (fun m entry => Function.update m entry.key (some entry.flatBufferBytes)) fun _ => none

theorem rowMap_append (entries : List RowStructEntry) (entry : RowStructEntry) :
    rowMap (entries ++ [entry]) = Function.update (rowMap entries) entry.key (some entry.flatBufferBytes) := by
  simp [rowMap]

/-- Where the search for a key starts. -/
def keyHome (H : HashFunctions) (rowId : Nat) (key : Bytes) : Nat := H.mixHashes (H.hashString key) rowId

section Place
variable {H : HashFunctions} {rowId n : Nat} {done : List RowStructEntry} {t : KeyTable}
  {slot : Nat → Option Bytes}

/-- Bucket `i` holds `key` and selects the last entry with it. -/
structure KeyStored (H : HashFunctions) (done : List RowStructEntry) (t : KeyTable) (i : Nat) (key : Bytes) :
    Prop where
  bucket : ∃ keyOffset, t.keyBuckets[i]? = some
      { state := kBucketFilled, keyHash := H.hashString key, keyOffset := keyOffset, keySize := key.length } ∧
    keyOffset + key.length ≤ t.keyBytes.length ∧ slice t.keyBytes keyOffset key.length = key
  selected : ∃ j entry, t.selectedEntries[i]? = some j ∧ done[j]? = some entry ∧
    rowMap done key = some entry.flatBufferBytes

/-- The table after the entries `done` were placed. -/
structure KeysPlaced (H : HashFunctions) (rowId n : Nat) (done : List RowStructEntry) (t : KeyTable)
    (slot : Nat → Option Bytes) : Prop where
  buckets : t.keyBuckets.length = n
  selections : t.selectedEntries.length = n
  table : Table n (keyHome H rowId) slot
  items : t.itemCount = filled n slot
  few : filled n slot ≤ done.length
  empty : ∀ i < n, slot i = none → t.keyBuckets[i]? = some {}
  stored : ∀ i < n, ∀ key, slot i = some key → KeyStored H done t i key
  present : ∀ key, rowMap done key ≠ none → ∃ i < n, slot i = some key

theorem KeyStored.append {i : Nat} {key : Bytes} (stored : KeyStored H done t i key) {entry : RowStructEntry}
    (other : key ≠ entry.key) {t' : KeyTable} {more : Bytes} (keys : t'.keyBytes = t.keyBytes ++ more)
    (same : t'.keyBuckets[i]? = t.keyBuckets[i]?) (selects : t'.selectedEntries[i]? = t.selectedEntries[i]?) :
    KeyStored H (done ++ [entry]) t' i key := by
  obtain ⟨keyOffset, bucket, inside, bytes⟩ := stored.bucket
  obtain ⟨j, held, at_i, at_j, value⟩ := stored.selected
  refine ⟨⟨keyOffset, same.trans bucket, ?_, ?_⟩, j, held, selects.trans at_i, ?_, ?_⟩
  · rw [keys, List.length_append]
    omega
  · rw [keys, slice_append_left inside, bytes]
  · rw [List.getElem?_append_left (List.getElem?_eq_some_iff.mp at_j).1, at_j]
  · rw [rowMap_append, Function.update_of_ne other, value]

theorem present_append {entry : RowStructEntry} {slot' : Nat → Option Bytes}
    (present : ∀ key, rowMap done key ≠ none → ∃ i < n, slot i = some key)
    (here : ∃ i < n, slot' i = some entry.key)
    (keeps : ∀ i < n, ∀ key, slot i = some key → slot' i = some key) :
    ∀ key, rowMap (done ++ [entry]) key ≠ none → ∃ i < n, slot' i = some key := by
  intro key held
  by_cases same : key = entry.key
  · rw [same]
    exact here
  · rw [rowMap_append, Function.update_of_ne same] at held
    obtain ⟨i, inside, at_i⟩ := present key held
    exact ⟨i, inside, keeps i inside key at_i⟩

/-- An entry with a new key takes the first empty bucket. -/
theorem KeysPlaced.insert {entry : RowStructEntry} {probe : Nat} (placed : KeysPlaced H rowId n done t slot)
    (passed : Passed n (keyHome H rowId) slot entry.key probe)
    (vacant : slot (probeSlot n (keyHome H rowId entry.key) probe) = none) (room : done.length + 1 < n) :
    KeysPlaced H rowId n (done ++ [entry])
      { keyBuckets := t.keyBuckets.set (probeSlot n (keyHome H rowId entry.key) probe)
          { state := kBucketFilled, keyHash := H.hashString entry.key, keyOffset := t.keyBytes.length,
            keySize := entry.key.length }
        keyBytes := t.keyBytes ++ entry.key
        selectedEntries := t.selectedEntries.set (probeSlot n (keyHome H rowId entry.key) probe) done.length
        itemCount := t.itemCount + 1 }
      (Function.update slot (probeSlot n (keyHome H rowId entry.key) probe) (some entry.key)) := by
  have few := placed.few
  have target := probeSlot_lt (by omega : 0 < n) (keyHome H rowId entry.key) probe
  have within := passed.lt_size placed.table.vacancy
  have absent := placed.table.absent_of_vacant passed within vacant
  set i := probeSlot n (keyHome H rowId entry.key) probe with i_eq
  refine ⟨?_, ?_, ?_, ?_, ?_, ?_, ?_, ?_⟩
  · rw [List.length_set, placed.buckets]
  · rw [List.length_set, placed.selections]
  · exact placed.table.insert_of_filled passed vacant (by omega)
  · rw [filled_update target vacant, placed.items]
  · rw [filled_update target vacant, List.length_append, List.length_singleton]
    omega
  · intro j inside empty
    by_cases here : j = i
    · rw [here, Function.update_self] at empty
      cases empty
    · rw [Function.update_of_ne here] at empty
      rw [List.getElem?_set_ne (Ne.symm here)]
      exact placed.empty j inside empty
  · intro j inside key at_j
    by_cases here : j = i
    · rw [here, Function.update_self] at at_j
      cases Option.some.inj at_j
      rw [here]
      refine ⟨⟨t.keyBytes.length, ?_, ?_, ?_⟩, done.length, entry, ?_, ?_, ?_⟩
      · rw [List.getElem?_set_self (by rw [placed.buckets]; exact target)]
      · rw [List.length_append]
      · rw [slice_append_right le_rfl, Nat.sub_self, slice_self]
      · rw [List.getElem?_set_self (by rw [placed.selections]; exact target)]
      · rw [List.getElem?_append_right le_rfl, Nat.sub_self, List.getElem?_cons_zero]
      · rw [rowMap_append, Function.update_self]
    · rw [Function.update_of_ne here] at at_j
      have other : key ≠ entry.key := by
        rintro rfl
        exact absent j inside at_j
      exact (placed.stored j inside key at_j).append other rfl (List.getElem?_set_ne (Ne.symm here))
        (List.getElem?_set_ne (Ne.symm here))
  · refine present_append placed.present ⟨i, target, Function.update_self ..⟩ fun j inside key at_j => ?_
    have other : j ≠ i := by
      rintro rfl
      rw [vacant] at at_j
      cases at_j
    rw [Function.update_of_ne other, at_j]

/-- An entry with a key that is placed already is selected in its bucket. -/
theorem KeysPlaced.select {entry : RowStructEntry} {i : Nat} (placed : KeysPlaced H rowId n done t slot)
    (inside : i < n) (here : slot i = some entry.key) :
    KeysPlaced H rowId n (done ++ [entry])
      { t with selectedEntries := t.selectedEntries.set i done.length } slot := by
  refine ⟨placed.buckets, ?_, placed.table, placed.items, ?_, placed.empty, ?_, ?_⟩
  · rw [List.length_set, placed.selections]
  · rw [List.length_append, List.length_singleton]
    have few := placed.few
    omega
  · intro j within key at_j
    by_cases same : j = i
    · subst same
      cases Option.some.inj (here.symm.trans at_j)
      obtain ⟨keyOffset, bucket, room, bytes⟩ := (placed.stored j within entry.key here).bucket
      refine ⟨⟨keyOffset, bucket, room, bytes⟩, done.length, entry, ?_, ?_, ?_⟩
      · rw [List.getElem?_set_self (by rw [placed.selections]; exact inside)]
      · rw [List.getElem?_append_right le_rfl, Nat.sub_self, List.getElem?_cons_zero]
      · rw [rowMap_append, Function.update_self]
    · have other : key ≠ entry.key := by
        rintro rfl
        exact same (placed.table.unique j i entry.key within inside at_j here)
      have kept : t.keyBytes = t.keyBytes ++ [] := (List.append_nil _).symm
      exact (placed.stored j within key at_j).append other kept rfl
        (List.getElem?_set_ne (Ne.symm same))
  · exact present_append placed.present ⟨i, inside, here⟩ fun _ _ _ at_j => at_j

theorem placeKeyLoop_spec (entry : RowStructEntry) {rounds probe e : Nat} (power : n = 2 ^ e) (small : n < 2 ^ 64)
    (placed : KeysPlaced H rowId n done t slot) (room : done.length + 1 < n) (sum : rounds + probe = n)
    (passed : Passed n (keyHome H rowId) slot entry.key probe) :
    ∃ t' slot', placeKeyLoop entry done.length (H.hashString entry.key) (n - 1)
        (keyHome H rowId entry.key &&& (n - 1)) t rounds probe = some t' ∧
      KeysPlaced H rowId n (done ++ [entry]) t' slot' := by
  have positive : 0 < n := by omega
  induction rounds generalizing probe with
  | zero =>
    have short := passed.lt_size placed.table.vacancy
    omega
  | succ rounds ih =>
    have target := probeSlot_lt positive (keyHome H rowId entry.key) probe
    rw [placeKeyLoop, probe_index power small]
    simp only [List.getD_eq_getElem?_getD]
    cases here : slot (probeSlot n (keyHome H rowId entry.key) probe) with
    | none =>
      have bucket := placed.empty _ target here
      exact ⟨_, _, by rw [bucket, Option.getD_some, if_pos rfl], placed.insert passed here room⟩
    | some key =>
      obtain ⟨keyOffset, bucket, _, bytes⟩ := (placed.stored _ target key here).bucket
      rw [bucket, Option.getD_some, if_neg (show ¬ kBucketFilled = kBucketEmpty by decide)]
      by_cases differ : H.hashString key ≠ H.hashString entry.key ∨ key.length ≠ entry.key.length
      · have other : key ≠ entry.key := by
          rintro rfl
          simp at differ
        rw [if_pos differ]
        exact ih (by omega) (passed.succ here other)
      · rw [if_neg differ]
        simp only [bytes]
        by_cases same : key = entry.key
        · subst same
          exact ⟨_, _, by rw [if_neg (not_not.mpr rfl)], placed.select target here⟩
        · rw [if_pos same]
          exact ih (by omega) (passed.succ here same)

theorem placeKeys_spec {e : Nat} (power : n = 2 ^ e) (small : n < 2 ^ 64) (later : List RowStructEntry)
    (placed : KeysPlaced H rowId n done t slot) (room : done.length + later.length < n) :
    ∃ t' slot', placeKeys H rowId n later done.length t = some t' ∧
      KeysPlaced H rowId n (done ++ later) t' slot' := by
  induction later generalizing done t slot with
  | nil => exact ⟨t, slot, rfl, by rwa [List.append_nil]⟩
  | cons entry later ih =>
    rw [List.length_cons] at room
    obtain ⟨t₁, slot₁, place, placed₁⟩ := placeKeyLoop_spec entry power small placed (by omega)
      (Nat.add_zero n) (Passed.zero entry.key)
    have length : (done ++ [entry]).length = done.length + 1 := by simp
    obtain ⟨t₂, slot₂, rest, placed₂⟩ := ih placed₁ (by omega)
    refine ⟨t₂, slot₂, ?_, ?_⟩
    · rw [length] at rest
      rw [placeKeys]
      have step : placeKey H rowId n entry done.length t = some t₁ := place
      rw [step]
      exact rest
    · rwa [List.append_assoc, List.singleton_append] at placed₂

theorem keysPlaced_empty (H : HashFunctions) (rowId entryCount : Nat) (positive : 0 < n) :
    KeysPlaced H rowId n []
      { keyBuckets := List.replicate n {}, keyBytes := [], selectedEntries := List.replicate n entryCount,
        itemCount := 0 } fun _ => none where
  buckets := List.length_replicate
  selections := List.length_replicate
  table := Table.empty positive
  items := (filled_none n).symm
  few := by rw [filled_none]; exact Nat.zero_le _
  empty i inside _ := by rw [List.getElem?_replicate, if_pos inside]
  stored _ _ _ at_i := nomatch at_i
  present _ held := absurd rfl held

/-- There are more buckets than entries, as the load factor is below one. -/
theorem rowKeyBucketCount_spec {maxLoadFactor : ℚ} {count : Nat} (positive : 0 < maxLoadFactor)
    (below : maxLoadFactor < 1) (rounded : rowKeyBucketCount maxLoadFactor count = some n) :
    count < n ∧ ∃ e, e < 64 ∧ n = 2 ^ e := by
  unfold rowKeyBucketCount at rounded
  simp only at rounded
  split at rounded
  · obtain ⟨enough, e, _, small, power⟩ := roundUpPowerOfTwo_spec rounded
    refine ⟨?_, e, small, power⟩
    have quotient : (count : ℚ) ≤ count / maxLoadFactor := by
      rw [le_div_iff₀ positive]
      nlinarith [(Nat.cast_nonneg count : (0 : ℚ) ≤ count)]
    have floor : (count : ℤ) ≤ (count / maxLoadFactor : ℚ).floor := by
      rw [Rat.le_floor_iff]
      exact_mod_cast quotient
    omega
  · cases rounded

end Place

section Pure
variable {H : HashFunctions} {column : Bytes} {rowId sequence : Nat} {entries : List RowStructEntry} {maxLoadFactor : ℚ}

/-- Building a block is a computation without operations. -/
theorem buildRowBlockLayout_only {good : Op → Prop} (columnHash : Nat) :
    (buildRowBlockLayout H maxLoadFactor column rowId entries sequence columnHash).Only (S := signature) good := by
  unfold buildRowBlockLayout
  refine .ite trivial ?_
  rw [Prog.bind_eq]
  refine .bind ?_ fun n => .ite trivial ?_
  · unfold orOverflow
    split <;> exact trivial
  · dsimp only
    split <;> exact trivial

end Pure

end LumoDB
