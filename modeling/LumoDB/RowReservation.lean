import LumoDB.Replay

namespace LumoDB
open ByteCodec Effects LinearProbing

/-- The call ends with the error of a full row index. -/
def RaisesCapacity (p : Db Unit) (w : World) : Prop := ∃ w', run system p w = .error capacityExceeded w'

/-- `FindRowBucket` finds the row. -/
def StoresRow (H : HashFunctions) (retries : Nat) (w : World) (k : RowKey) : Prop :=
  ∃ lookup, Runs (findRowBucket H k.1 k.2 (H.hashString k.1) retries) w lookup w ∧ lookup.found = true

/-- The call writes the row `k` and passes the size and non-empty checks. -/
def Call.WritesRow (k : RowKey) : Call → Prop
  | putRowStructs column rowId entries => k = (column, rowId.toNat) ∧ fitsUint32 column.length = true ∧ entries ≠ []
  | putRowStruct column rowId key _ =>
    k = (column, rowId.toNat) ∧ fitsUint32 column.length = true ∧ fitsUint32 key.length = true
  | _ => False

/-- The call looks for the row before it reserves a slot for it. -/
def Call.looksFirst : Call → Bool
  | putRowStruct .. => true
  | _ => false

section Write
variable {H : HashFunctions} {w : World} {log : RowLog} {k : RowKey} {entries : List RowStructEntry}

theorem Runs.not_raisesCapacity {p : Db Unit} {w' : World} (runs : Runs p w () w') : ¬ RaisesCapacity p w := by
  rintro ⟨w'', raised⟩
  cases runs.symm.trans raised

theorem mergeEntry_ne_nil (key flatBufferBytes : Bytes) (entries : List RowStructEntry) :
    mergeEntry key flatBufferBytes entries ≠ [] := by
  cases entries with
  | nil => exact List.cons_ne_nil _ _
  | cons entry later =>
    unfold mergeEntry
    split
    · exact List.cons_ne_nil _ _
    · exact List.cons_ne_nil _ _

theorem storesRow_iff (store : RowStore H w log) (k : RowKey) (retries : Nat) :
    StoresRow H (retries + 1) w k ↔ putRows noRows log k ≠ none := by
  obtain ⟨b, n, slot, ref, files⟩ := store
  have view := files.view
  obtain ⟨lookup, ran, looked, _⟩ := view.table.findRowBucket view.sees view.represents view.reads k retries
  have reported := looked.stored_iff view.table.table.arranged
  rw [view.represents.stored_iff k] at reported
  rw [reported]
  constructor
  · rintro ⟨other, ran', found⟩
    rw [(Runs.unique ran ran').1]
    exact found
  · exact fun found => ⟨lookup, ran, found⟩

/-- A full row index refuses every reservation. -/
theorem reserve_of_full (store : RowStore H w log) (serving : Serving w) (full : w.RowsFull) (retries : Nat) :
    run system (reserveRowIndexInsertSlot (retries + 1)) w = .error capacityExceeded w := by
  obtain ⟨b, n, slot, ref, files⟩ := store
  rcases reserve_cases files.shardStore serving.load retries with ⟨_, refused⟩ | ⟨_, room, _⟩
  · exact refused
  · exact absurd full room

/-- A row write raises the capacity error if and only if it reserves a slot in
a full row index. -/
theorem writeRowStructs_raises_iff (reserve : Bool) (store : RowStore H w log) (serving : Serving w) (rowId : k.2 < 2 ^ 64)
    (stored : reserve = false → putRows noRows log k ≠ none) (column : fitsUint32 k.1.length = true)
    (nonempty : entries ≠ []) (retries : Nat)
    (bounded : Bounded (writeRowStructs H (retries + 1) k.1 k.2 entries reserve) w) :
    RaisesCapacity (writeRowStructs H (retries + 1) k.1 k.2 entries reserve) w ↔ reserve = true ∧ w.RowsFull := by
  constructor
  · rintro ⟨w', raised⟩
    rcases writeRowStructs_cases reserve store serving rowId stored retries bounded with
      ⟨e, w'', failed, refused⟩ | ⟨w'', r, runs, _⟩
    · rw [failed, Outcome.error.injEq] at raised
      exact refused.capacity raised.1
    · exact absurd ⟨w', raised⟩ runs.not_raisesCapacity
  · rintro ⟨rfl, full⟩
    refine ⟨w, ?_⟩
    unfold writeRowStructs
    rw [Prog.bind_eq, (getMembers_runs w).bind, if_neg (by rw [serving.isOpen]; decide),
      if_neg (by rw [serving.writable]; decide), if_neg (by rw [column]; decide), if_neg nonempty, Prog.bind_eq]
    exact run_bind_error system (reserve_of_full store serving full retries) _

theorem putRowStruct_raises_iff {key flatBufferBytes : Bytes} (store : RowStore H w log) (serving : Serving w)
    (rowId : k.2 < 2 ^ 64) (column : fitsUint32 k.1.length = true) (fits : fitsUint32 key.length = true) (retries : Nat)
    (bounded : Bounded (putRowStruct H (retries + 1) k.1 k.2 key flatBufferBytes) w) :
    RaisesCapacity (putRowStruct H (retries + 1) k.1 k.2 key flatBufferBytes) w ↔
      putRows noRows log k = none ∧ w.RowsFull := by
  unfold RaisesCapacity putRowStruct
  unfold putRowStruct at bounded
  replace bounded := bounded.rest (getMembers_runs w)
  have short : ¬ (¬ fitsUint32 k.1.length ∨ ¬ fitsUint32 key.length) := by rw [column, fits]; decide
  rw [Prog.bind_eq, (getMembers_runs w).bind]
  rw [if_neg (by rw [serving.isOpen]; decide), if_neg (by rw [serving.writable]; decide), if_neg short] at bounded ⊢
  obtain ⟨onAbsent, onStored⟩ := loadRowEntries_runs store k retries
  have nonempty := mergeEntry_ne_nil key flatBufferBytes
  cases held : putRows noRows log k with
  | none =>
    replace bounded := bounded.rest (onAbsent held)
    rw [Prog.bind_eq, (onAbsent held).bind]
    refine (writeRowStructs_raises_iff true store serving rowId (fun given => nomatch given) column (nonempty _) retries bounded).trans ?_
    exact and_congr_left fun _ => iff_of_true rfl rfl
  | some content =>
    obtain ⟨entries, loaded, _, _⟩ := onStored content held
    replace bounded := bounded.rest loaded
    rw [Prog.bind_eq, loaded.bind]
    refine (writeRowStructs_raises_iff false store serving rowId (fun _ => ?_) column (nonempty _) retries bounded).trans ?_
    · rw [held]
      exact Option.some_ne_none content
    · exact iff_of_false (fun both => nomatch both.1) fun both => nomatch both.1

theorem rowBucketCount_runs (store : RowStore H w log) : Runs rowBucketCount w w.rowBuckets w := by
  obtain ⟨b, n, slot, ref, files⟩ := store
  have counted := loadRowBucketCount_runs w files.table.toRowIndexFile
  rw [files.self] at counted
  unfold Runs rowBucketCount
  rw [Prog.bind_eq, (getMembers_runs w).bind, files.mapped, if_neg (by simp),
    World.rowBuckets_eq files.index files.table.toRowIndexFile]
  exact counted

/-- The row index is full when one row more than `RowCount` exceeds the load
of its buckets. -/
theorem rowsFull_iff_rowCount (store : RowStore H w log) :
    w.RowsFull ↔ w.members.options.maxLoadFactor * w.rowBuckets < ((log.map RowRecord.key).dedup.length + 1 : Nat) := by
  obtain ⟨b, n, slot, ref, files⟩ := store
  rw [World.rowsFull_iff files.index files.table.toRowIndexFile, World.rowBuckets_eq files.index files.table.toRowIndexFile,
    files.filled_eq]

end Write

section Runs
variable {H : HashFunctions} {retries : Nat} {start : DatabaseOptions} {trace : Trace} {w : World} {objects : ObjectLog}
  {s : RowState} {call : Call} {k : RowKey}

/-- A row write raises the capacity error if and only if the row index is full,
and the row is new if the call looks for it first. -/
theorem Active.raisesCapacity_iff (active : Active H w objects s) (writes : call.WritesRow k)
    (bounded : Bounded (call.program H (retries + 1)) w) :
    RaisesCapacity (call.program H (retries + 1)) w ↔
      (call.looksFirst = true → ¬ StoresRow H (retries + 1) w k) ∧ w.RowsFull := by
  rw [storesRow_iff active.rows k retries, not_not]
  cases call with
  | putRowStructs column rowId entries =>
    obtain ⟨rfl, fits, nonempty⟩ := writes
    refine (writeRowStructs_raises_iff (k := (column, rowId.toNat)) true active.rows active.serving rowId.toNat_lt
      (fun given => nomatch given) fits nonempty retries bounded).trans ?_
    exact and_congr_left fun _ => iff_of_true rfl nofun
  | putRowStruct column rowId key value =>
    obtain ⟨rfl, fits, short⟩ := writes
    refine (putRowStruct_raises_iff (k := (column, rowId.toNat)) active.rows active.serving rowId.toNat_lt fits short
      retries bounded).trans ?_
    exact and_congr_left fun _ => ⟨fun absent _ => absent, fun absent => absent rfl⟩
  | _ => exact writes.elim

/-- The calls that write one row, and the write that replaces it. -/
def oneRowCalls : List Call := [.putRowStructs [2] 5 [⟨[1], [9]⟩]]

def replaceRow : Call := .putRowStructs [2] 5 [⟨[1], [7]⟩]

end Runs

end LumoDB
