import LumoDB.ObjectCalls
import LumoDB.RowTable

namespace LumoDB
open ByteCodec Effects LinearProbing

/-- A block that was written: its row, where it went, and what it holds. -/
structure RowRecord where
  key : RowKey
  shardId : Nat
  sequence : Nat
  content : RowMap
  block : Bytes

/-- The row writes in their order. -/
abbrev RowLog := List RowRecord

/-- The bytes of the record are a complete block of it. -/
structure RowRecord.Complete (H : HashFunctions) (r : RowRecord) : Prop where
  row : RowBlock H r.key.1 r.key.2 r.sequence r.content r.block
  column : r.key.1.length < 2 ^ 32
  rowId : r.key.2 < 2 ^ 64
  sequence : r.sequence < 2 ^ 64

/-- The blocks of a shard file, in the order they were appended. -/
def shardLog (log : RowLog) (shardId : Nat) : RowLog := log.filter fun r => r.shardId = shardId

def encodeRows (log : RowLog) : Bytes := (log.map RowRecord.block).flatten

def shardBytes (log : RowLog) (shardId : Nat) : Bytes := rowValueFileHeader.encode ++ encodeRows (shardLog log shardId)

/-- The rows after every write in turn: the last one wins. -/
def putRows (m : RowKey → Option RowMap) (log : RowLog) : RowKey → Option RowMap :=
  log.foldl (fun m r => Function.update m r.key (some r.content)) m

def noRows : RowKey → Option RowMap := fun _ => none

section Log
variable {log : RowLog} {r : RowRecord} {shardId : Nat}

theorem putRows_append (m : RowKey → Option RowMap) (log more : RowLog) :
    putRows m (log ++ more) = putRows (putRows m log) more := by
  simp [putRows]

theorem putRows_singleton (m : RowKey → Option RowMap) (r : RowRecord) :
    putRows m [r] = Function.update m r.key (some r.content) := rfl

theorem putRows_ne_none (m : RowKey → Option RowMap) (log : RowLog) (k : RowKey) :
    putRows m log k ≠ none ↔ k ∈ log.map RowRecord.key ∨ m k ≠ none := by
  induction log generalizing m with
  | nil => simp [putRows]
  | cons r log ih =>
    have step : putRows m (r :: log) = putRows (Function.update m r.key (some r.content)) log := rfl
    rw [step, ih, List.map_cons, List.mem_cons]
    by_cases same : k = r.key
    · simp [same]
    · simp [same]

theorem encodeRows_append (log more : RowLog) : encodeRows (log ++ more) = encodeRows log ++ encodeRows more := by
  simp [encodeRows]

theorem rowHeader_length : rowValueFileHeader.encode.length = 24 := ValueFileHeader.encode_length _ rfl

theorem shardBytes_append (log : RowLog) (r : RowRecord) (shardId : Nat) :
    shardBytes (log ++ [r]) shardId = shardBytes log shardId ++ if r.shardId = shardId then r.block else [] := by
  unfold shardBytes shardLog
  rw [List.filter_append, encodeRows_append, List.append_assoc]
  by_cases here : r.shardId = shardId
  · simp [here, encodeRows]
  · simp [here, encodeRows]

theorem shardBytes_append_self (log : RowLog) (r : RowRecord) :
    shardBytes (log ++ [r]) r.shardId = shardBytes log r.shardId ++ r.block := by
  rw [shardBytes_append, if_pos rfl]

theorem shardBytes_append_ne (other : shardId ≠ r.shardId) : shardBytes (log ++ [r]) shardId = shardBytes log shardId := by
  rw [shardBytes_append, if_neg (Ne.symm other), List.append_nil]

/-- Bytes behind the shards change no row. -/
theorem RowRepresents.append {H : HashFunctions} {shards shards' : Nat → Bytes} {count n : Nat}
    {slot : Nat → Option RowKey} {ref : RowKey → BlockRef} {m : RowKey → Option RowMap}
    (rep : RowRepresents H shards count n slot ref m) (longer : ∀ i < count, shards i <+: shards' i) :
    RowRepresents H shards' count n slot ref m := by
  refine fun k => ⟨(rep k).1, fun content held => ?_⟩
  obtain ⟨stored, block, at_ref⟩ := (rep k).2 content held
  obtain ⟨more, grown⟩ := longer _ at_ref.shard
  exact ⟨stored, block, at_ref.shard, grown ▸ at_ref.located.append more, at_ref.size, at_ref.row⟩

/-- The reference to the block an append puts at the end of its shard. -/
def RowRecord.appended (r : RowRecord) (log : RowLog) : BlockRef :=
  ⟨r.shardId, (shardBytes log r.shardId).length, r.block.length, r.sequence⟩

end Log

/-- Shard files and a row index `b` that are read together, and the rows `m`
they represent. -/
structure RowView (H : HashFunctions) (w : World) (shards : Nat → Bytes) (count : Nat) (b : Bytes) (n : Nat)
    (slot : Nat → Option RowKey) (ref : RowKey → BlockRef) (m : RowKey → Option RowMap) : Prop where
  reads : ReadsShards w shards count
  sees : w.Sees .rowIndex b
  mapped : w.members.maps .rowIndex ≠ none
  table : RowTable H b n count slot ref
  represents : RowRepresents H shards count n slot ref m

/-- The outcome of a read of one key of a row. -/
def rowAnswer (row : Option RowMap) (key : Bytes) (w : World) : Outcome Status Bytes World :=
  match row with
  | none => .error (.notFound "row not found") w
  | some content =>
    match content key with
    | some value => .ok value w
    | none => .error (.notFound "key not found in row") w

section View
variable {H : HashFunctions} {w : World} {shards : Nat → Bytes} {count n : Nat} {b : Bytes} {slot : Nat → Option RowKey}
  {ref : RowKey → BlockRef} {m : RowKey → Option RowMap}

theorem RowView.rowCount (view : RowView H w shards count b n slot ref m) : Runs rowCount w (filled n slot) w := by
  have mapped : (w.members.maps .rowIndex).isNone = false :=
    Option.isNone_eq_false_iff.mpr (Option.isSome_iff_ne_none.mpr view.mapped)
  unfold Runs LumoDB.rowCount
  rw [Prog.bind_eq, (getMembers_runs w).bind, mapped, if_neg (by decide)]
  exact view.table.toRowIndexFile.loadRowItemCount view.sees

theorem RowView.getRowStruct (view : RowView H w shards count b n slot ref m) (isOpen : w.members.isOpen = true)
    (k : RowKey) (key : Bytes) (retries : Nat) :
    run system (getRowStruct H (retries + 1) k.1 k.2 key) w = rowAnswer (m k) key w := by
  obtain ⟨lookup, ran, looked, found⟩ := view.table.findRowBucket view.sees view.represents view.reads k retries
  have reported := looked.stored_iff view.table.table.arranged
  rw [view.represents.stored_iff k] at reported
  unfold LumoDB.getRowStruct
  rw [Prog.bind_eq, (getMembers_runs w).bind, if_neg (by rw [isOpen]; decide), Prog.bind_eq, ran.bind]
  cases present : lookup.found with
  | false =>
    have absent : m k = none := by
      by_contra held
      have found := reported.mp held
      rw [present] at found
      cases found
    rw [absent, if_pos (by decide)]
    rfl
  | true =>
    obtain ⟨bucket, content, block, held, at_ref, header⟩ := found present
    rw [held, if_neg (by decide), bucket, header, findValueInRowBlockAt_runs view.reads at_ref key]
    rfl

/-- The index counts each row of the log once. -/
theorem RowTable.filled_eq_rows {log : RowLog} (t : RowTable H b n count slot ref)
    (rep : RowRepresents H shards count n slot ref (putRows noRows log)) :
    filled n slot = (log.map RowRecord.key).dedup.length := by
  rw [filled_eq_length_keys]
  refine ((List.perm_ext_iff_of_nodup t.table.keys_nodup (List.nodup_dedup _)).mpr fun k => ?_).length_eq
  have written := putRows_ne_none noRows log k
  have stored := rep.stored_iff k
  rw [written] at stored
  rw [mem_keys, List.mem_dedup]
  exact stored.trans (by simp [noRows])

end View

/-- The shard files hold the blocks of `log`, and the mapped row index
represents the rows they leave. No insertion is pending. -/
structure RowFiles (H : HashFunctions) (w : World) (log : RowLog) (b : Bytes) (n : Nat)
    (slot : Nat → Option RowKey) (ref : RowKey → BlockRef) : Prop where
  reads : ReadsShards w (shardBytes log) w.members.options.rowShardCount
  positive : 0 < w.members.options.rowShardCount
  unmapped : ∀ i < w.members.options.rowShardCount, w.members.maps (.rowShard i) = none
  index : w.disk .rowIndex = some b
  mapped : w.members.maps .rowIndex = some ⟨b.length, true⟩
  appendOffsets : ∀ i < w.members.options.rowShardCount, w.members.rowAppendOffsets i = (shardBytes log i).length
  pending : w.members.rowPendingInsertCount = 0
  complete : ∀ r ∈ log, r.Complete H
  shards : ∀ r ∈ log, r.shardId < w.members.options.rowShardCount
  table : RowTable H b n w.members.options.rowShardCount slot ref
  represents : RowRepresents H (shardBytes log) w.members.options.rowShardCount n slot ref (putRows noRows log)

def RowStore (H : HashFunctions) (w : World) (log : RowLog) : Prop :=
  ∃ b n slot ref, RowFiles H w log b n slot ref

/-- The mapped row index represents the rows `m` in the shard files `shards`,
which may hold other bytes between the blocks. No insertion is pending. -/
structure ShardStore (H : HashFunctions) (w : World) (shards : Nat → Bytes) (m : RowKey → Option RowMap) (b : Bytes) (n : Nat)
    (slot : Nat → Option RowKey) (ref : RowKey → BlockRef) : Prop where
  reads : ReadsShards w shards w.members.options.rowShardCount
  positive : 0 < w.members.options.rowShardCount
  unmapped : ∀ i < w.members.options.rowShardCount, w.members.maps (.rowShard i) = none
  index : w.disk .rowIndex = some b
  mapped : w.members.maps .rowIndex = some ⟨b.length, true⟩
  pending : w.members.rowPendingInsertCount = 0
  table : RowTable H b n w.members.options.rowShardCount slot ref
  represents : RowRepresents H shards w.members.options.rowShardCount n slot ref m

/-- Every indexed block ends before the place of the next append. -/
def AppendsBehind (w : World) (n : Nat) (slot : Nat → Option RowKey) (ref : RowKey → BlockRef) : Prop :=
  ∀ k, Stored n slot k → (ref k).blockOffset + (ref k).blockSize ≤ w.members.rowAppendOffsets (ref k).shardId

/-- The sequence the next block will be given. -/
def World.nextSequence (w : World) : Nat :=
  match w.disk .rowIndex with
  | some b => rowSequence b
  | none => 0

theorem World.nextSequence_eq {w : World} {b : Bytes} (content : w.disk .rowIndex = some b) :
    w.nextSequence = rowSequence b := by
  rw [nextSequence, content]

/-- The bucket count in the header of the row index. -/
def World.rowBuckets (w : World) : Nat :=
  match w.disk .rowIndex with
  | some b => natAt b 16 8
  | none => 0

/-- The row index has no room for one more row under the load factor. -/
def World.RowsFull (w : World) : Prop :=
  match w.disk .rowIndex with
  | some b => w.members.options.maxLoadFactor * (natAt b 16 8 : Nat) < (natAt b 24 8 + 1 : Nat)
  | none => False

theorem World.rowBuckets_eq {w : World} {b : Bytes} {n items shardCount : Nat} (content : w.disk .rowIndex = some b)
    (file : RowIndexFile b n items shardCount) : w.rowBuckets = n := by
  rw [rowBuckets, content]
  exact file.bucketCount

theorem World.rowsFull_iff {w : World} {b : Bytes} {n items shardCount : Nat} (content : w.disk .rowIndex = some b)
    (file : RowIndexFile b n items shardCount) :
    w.RowsFull ↔ w.members.options.maxLoadFactor * n < (items + 1 : Nat) := by
  unfold RowsFull
  rw [content]
  simp only [file.bucketCount, file.itemCount]

/-- The step left the object store and the session as they were. -/
structure RowStep (w w' : World) : Prop where
  values : w'.disk .values = w.disk .values
  index : w'.disk .index = w.disk .index
  valuesMap : w'.members.maps .values = w.members.maps .values
  indexMap : w'.members.maps .index = w.members.maps .index
  appendOffset : w'.members.appendOffset = w.members.appendOffset
  options : w'.members.options = w.members.options
  isOpen : w'.members.isOpen = w.members.isOpen
  readOnly : w'.members.readOnly = w.members.readOnly
  descriptors : w'.members.descriptors = w.members.descriptors
  directory : w'.directory = w.directory
  unused : ∀ i, w.members.options.rowShardCount ≤ i → w'.disk (.rowShard i) = w.disk (.rowShard i)

theorem RowStep.refl (w : World) : RowStep w w := ⟨rfl, rfl, rfl, rfl, rfl, rfl, rfl, rfl, rfl, rfl, fun _ _ => rfl⟩

section Store
variable {H : HashFunctions} {w : World} {log : RowLog} {b : Bytes} {n : Nat}
  {slot : Nat → Option RowKey} {ref : RowKey → BlockRef} {shards : Nat → Bytes} {m : RowKey → Option RowMap}

theorem RowFiles.shardStore (files : RowFiles H w log b n slot ref) :
    ShardStore H w (shardBytes log) (putRows noRows log) b n slot ref :=
  ⟨files.reads, files.positive, files.unmapped, files.index, files.mapped, files.pending, files.table, files.represents⟩

theorem RowFiles.appendsBehind (files : RowFiles H w log b n slot ref) : AppendsBehind w n slot ref := by
  rintro k ⟨i, inside, at_i⟩
  obtain ⟨_, block, _, at_ref⟩ := files.represents.located inside at_i
  rw [files.appendOffsets _ at_ref.shard, at_ref.size]
  exact at_ref.located.inside

theorem ShardStore.rowFiles (store : ShardStore H w (shardBytes log) (putRows noRows log) b n slot ref)
    (appendOffsets : ∀ i < w.members.options.rowShardCount, w.members.rowAppendOffsets i = (shardBytes log i).length)
    (complete : ∀ r ∈ log, r.Complete H) (shards : ∀ r ∈ log, r.shardId < w.members.options.rowShardCount) :
    RowFiles H w log b n slot ref :=
  { store with appendOffsets := appendOffsets, complete := complete, shards := shards }

theorem RowFiles.self (files : RowFiles H w log b n slot ref) : w.withMapped .rowIndex b = w :=
  World.withMapped_self files.index files.mapped

theorem RowFiles.filled_eq (files : RowFiles H w log b n slot ref) :
    filled n slot = (log.map RowRecord.key).dedup.length := files.table.filled_eq_rows files.represents

theorem ShardStore.view (store : ShardStore H w shards m b n slot ref) :
    RowView H w shards w.members.options.rowShardCount b n slot ref m where
  reads := store.reads
  sees := World.sees_of_map store.index store.mapped
  mapped := by rw [store.mapped]; exact Option.some_ne_none _
  table := store.table
  represents := store.represents

theorem RowFiles.view (files : RowFiles H w log b n slot ref) :
    RowView H w (shardBytes log) w.members.options.rowShardCount b n slot ref (putRows noRows log) := files.shardStore.view

theorem rowCount_runs (store : RowStore H w log) :
    Runs rowCount w (log.map RowRecord.key).dedup.length w := by
  obtain ⟨b, n, slot, ref, files⟩ := store
  have counted := files.view.rowCount
  rwa [files.filled_eq] at counted

/-- `GetRowStruct` answers with what the row's last write holds for the
key. -/
theorem getRowStruct_eq (store : RowStore H w log) (isOpen : w.members.isOpen = true) (k : RowKey) (key : Bytes)
    (retries : Nat) :
    run system (getRowStruct H (retries + 1) k.1 k.2 key) w = rowAnswer (putRows noRows log k) key w := by
  obtain ⟨b, n, slot, ref, files⟩ := store
  exact files.view.getRowStruct isOpen k key retries

theorem getRowStruct_runs (store : RowStore H w log) (isOpen : w.members.isOpen = true) (k : RowKey) (key : Bytes)
    (retries : Nat) :
    (∀ value, (putRows noRows log k).bind (· key) = some value →
      Runs (getRowStruct H (retries + 1) k.1 k.2 key) w value w) ∧
    ((putRows noRows log k).bind (· key) = none →
      ∃ message, run system (getRowStruct H (retries + 1) k.1 k.2 key) w = .error (.notFound message) w) := by
  unfold Runs
  rw [getRowStruct_eq store isOpen k key retries]
  unfold rowAnswer
  cases putRows noRows log k with
  | none => exact ⟨fun value held => (nomatch held), fun _ => ⟨_, rfl⟩⟩
  | some content =>
    simp only [Option.bind_some]
    cases content key with
    | none => exact ⟨fun value held => (nomatch held), fun _ => ⟨_, rfl⟩⟩
    | some value => exact ⟨fun other held => by cases held; rfl, fun missing => (nomatch missing)⟩

end Store

section Reserve
variable {H : HashFunctions} {w : World} {b : Bytes} {n : Nat} {slot : Nat → Option RowKey} {ref : RowKey → BlockRef}
  {shards : Nat → Bytes} {m : RowKey → Option RowMap}

/-- A reservation fails and changes nothing, or leaves room for one more
row. -/
theorem reserve_cases (store : ShardStore H w shards m b n slot ref) (load : LoadFactorOk w.members.options.maxLoadFactor)
    (retries : Nat) :
    (w.RowsFull ∧ run system (reserveRowIndexInsertSlot (retries + 1)) w = .error capacityExceeded w) ∨
    (Runs (reserveRowIndexInsertSlot (retries + 1)) w () (w.setMembers (·.setPending 1)) ∧ ¬ w.RowsFull ∧
      filled n slot + 1 < n) := by
  have counted := loadRowBucketCount_runs w store.table.toRowIndexFile
  have loaded := loadRowItemCount_runs w store.table.toRowIndexFile
  rw [World.withMapped_self store.index store.mapped] at counted loaded
  have pending : Runs loadPending w 0 w := by
    have held : Runs loadPending w w.members.rowPendingInsertCount w := run_perform_of system rfl
    rwa [store.pending] at held
  have below := store.table.count_lt
  have short := store.table.filled_lt
  have total : u64 (filled n slot + 0 + 1) = filled n slot + 1 := u64_of_lt (by omega)
  rw [World.rowsFull_iff store.index store.table.toRowIndexFile]
  unfold Runs reserveRowIndexInsertSlot
  rw [Prog.bind_eq, (getMembers_runs w).bind, Prog.bind_eq, counted.bind, reserveLoop, Prog.bind_eq, loaded.bind,
    Prog.bind_eq, pending.bind, total]
  by_cases exceeds : w.members.options.maxLoadFactor * n < ((filled n slot + 1 : Nat) : ℚ)
  · rw [if_pos exceeds]
    exact Or.inl ⟨exceeds, rfl⟩
  · refine Or.inr ⟨?_, exceeds, lt_of_load load store.table.positive (not_lt.mp exceeds)⟩
    have exchanged : Runs (casPending 0 (u64 (0 + 1))) w true (w.setMembers (·.setPending 1)) := by
      refine run_perform_of system ?_
      simp only [system, store.pending, if_true]
      rfl
    rw [if_neg exceeds, Prog.bind_eq, exchanged.bind, if_pos rfl]
    rfl

end Reserve

section Releasing
variable {α : Type} {p : Db α} {w w' : World} {reserved : Bool}

theorem releasing_runs {a : α} (runs : Runs p w a w') : Runs (releasing reserved p) w a w' := by
  unfold Runs releasing
  rw [run_orElse, runs, recover_ok]

/-- The members after a reservation, if there was one, was released. -/
def World.released (w : World) (reserved : Bool) : World := if reserved then w.setMembers (·.setPending 0) else w

theorem releaseIf_runs (pending : reserved = true → w.members.rowPendingInsertCount = 1) :
    Runs (releaseIf reserved) w () (w.released reserved) := by
  cases reserved with
  | false => rfl
  | true =>
    refine run_perform_of system ?_
    simp only [system, pending rfl]
    rfl

theorem releasing_error {e : Status} (failed : run system p w = .error e w')
    (pending : reserved = true → w'.members.rowPendingInsertCount = 1) :
    run system (releasing reserved p) w = .error e (w'.released reserved) := by
  unfold releasing
  rw [run_orElse, failed, recover_error, Prog.bind_eq, (releaseIf_runs pending).bind]
  rfl

theorem Bounded.releasing (bounded : Bounded (releasing reserved p) w) : Bounded p w := (within_orElse bounded).1

end Releasing

end LumoDB
