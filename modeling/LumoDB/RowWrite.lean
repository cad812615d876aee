import LumoDB.RowStore

namespace LumoDB
open ByteCodec Effects LinearProbing

namespace World

def reserved (w : World) (reserve : Bool) : World := if reserve then w.setMembers (·.setPending 1) else w

/-- `w` with a block appended to a shard, before the index points to it. -/
def appended (w : World) (reserve : Bool) (shardId amount : Nat) (shard : Bytes) : World :=
  ((w.reserved reserve).setMembers (·.addAppendOffset shardId amount)).setFile (.rowShard shardId) (some shard)

@[simp] theorem reserved_disk (w : World) (reserve : Bool) : (w.reserved reserve).disk = w.disk := by
  cases reserve <;> rfl

@[simp] theorem reserved_maps (w : World) (reserve : Bool) : (w.reserved reserve).members.maps = w.members.maps := by
  cases reserve <;> rfl

@[simp] theorem reserved_options (w : World) (reserve : Bool) :
    (w.reserved reserve).members.options = w.members.options := by
  cases reserve <;> rfl

@[simp] theorem reserved_rowShards (w : World) (reserve : Bool) :
    (w.reserved reserve).members.rowShards = w.members.rowShards := by
  cases reserve <;> rfl

@[simp] theorem reserved_rowAppendOffsets (w : World) (reserve : Bool) :
    (w.reserved reserve).members.rowAppendOffsets = w.members.rowAppendOffsets := by
  cases reserve <;> rfl

theorem released_index (w : World) (reserve : Bool) (b : Bytes) :
    ((w.withMapped .rowIndex b).released reserve).disk .rowIndex = some b := by
  cases reserve <;> simp [released, withMapped, setFile, setMembers]

end World

section Frames
variable {H : HashFunctions} {w : World} {log : RowLog} {shards : Nat → Bytes} {m m' : RowKey → Option RowMap} {b b' : Bytes}
  {n : Nat} {slot slot' : Nat → Option RowKey} {ref ref' : RowKey → BlockRef} {reserve : Bool}

/-- A call that only changed the row index kept the store if the index still
represents the rows. -/
theorem ShardStore.reindex (reserve : Bool) (store : ShardStore H w shards m b n slot ref)
    (table : RowTable H b' n w.members.options.rowShardCount slot ref) :
    ShardStore H (((w.reserved reserve).withMapped .rowIndex b').released reserve) shards m b' n slot ref := by
  have reads := store.reads.withRowIndex b'
  cases reserve <;>
  exact
    { reads := ⟨store.reads.shardCount, reads.content, store.reads.small, reads.map⟩
      positive := store.positive
      unmapped := fun i inside => by
        have unmapped := store.unmapped i inside
        simpa [World.released, World.reserved, World.withMapped, World.setFile, World.setMembers, Members.setMap,
          Members.setPending] using unmapped
      index := by simp [World.released, World.reserved, World.withMapped, World.setFile, World.setMembers]
      mapped := by
        simp [World.released, World.reserved, World.withMapped, World.setFile, World.setMembers, Members.setMap,
          Members.setPending]
      pending := by first | exact store.pending | rfl
      table := table
      represents := store.represents }

theorem RowFiles.reindex (files : RowFiles H w log b n slot ref)
    (table : RowTable H b' n w.members.options.rowShardCount slot ref) :
    RowFiles H (((w.reserved reserve).withMapped .rowIndex b').released reserve) log b' n slot ref := by
  have store := files.shardStore.reindex reserve table
  cases reserve <;> exact store.rowFiles files.appendOffsets files.complete files.shards

theorem RowStep.reindex (w : World) (reserve : Bool) (b : Bytes) :
    RowStep w (((w.reserved reserve).withMapped .rowIndex b).released reserve) := by
  cases reserve <;> constructor <;>
    simp [World.released, World.reserved, World.withMapped, World.setFile, World.setMembers, Members.setMap,
      Members.setPending]

theorem RowStep.append {w : World} {shardId : Nat} (inside : shardId < w.members.options.rowShardCount)
    (reserve : Bool) (amount : Nat) (shard b : Bytes) :
    RowStep w (((w.appended reserve shardId amount shard).withMapped .rowIndex b).released reserve) := by
  have other : ∀ i, w.members.options.rowShardCount ≤ i → i ≠ shardId := fun i above => by omega
  cases reserve <;> constructor <;>
    simp +contextual [World.released, World.appended, World.reserved, World.withMapped, World.setFile,
      World.setMembers, Members.setMap, Members.setPending, Members.addAppendOffset, Members.setAppendOffset, other]

theorem ReadsShards.appended {count : Nat} {shard : Bytes} (reserve : Bool) (shardId amount : Nat)
    (reads : ReadsShards w shards count) (small : shard.length < 2 ^ 63)
    (unmapped : ∀ i < count, w.members.maps (.rowShard i) = none) :
    ReadsShards (w.appended reserve shardId amount shard) (Function.update shards shardId shard) count where
  shardCount := by
    rw [← reads.shardCount]
    cases reserve <;> rfl
  content i inside := by
    by_cases here : i = shardId
    · subst here
      simp [World.appended, World.setFile]
    · have other : (FileId.rowShard i) ≠ .rowShard shardId := fun same => here (by simpa using same)
      rw [Function.update_of_ne here]
      simp only [World.appended, World.setFile, World.setMembers, World.reserved_disk]
      rw [Function.update_of_ne other]
      exact reads.content i inside
  small i inside := by
    by_cases here : i = shardId
    · rw [here, Function.update_self]
      exact small
    · rw [Function.update_of_ne here]
      exact reads.small i inside
  map i inside := by
    left
    rw [← unmapped i inside]
    cases reserve <;> rfl

/-- A store to one shard file kept the store if the index represents the rows
`m'` in the files as they are now. -/
theorem ShardStore.append {shardId : Nat} {shard : Bytes} (reserve : Bool) (amount : Nat) (store : ShardStore H w shards m b n slot ref)
    (small : shard.length < 2 ^ 63) (table : RowTable H b' n w.members.options.rowShardCount slot' ref')
    (represents : RowRepresents H (Function.update shards shardId shard) w.members.options.rowShardCount n slot' ref' m') :
    ShardStore H (((w.appended reserve shardId amount shard).withMapped .rowIndex b').released reserve)
      (Function.update shards shardId shard) m' b' n slot' ref' := by
  have reads := (store.reads.appended reserve shardId amount small store.unmapped).withRowIndex b'
  cases reserve <;>
  exact
    { reads := ⟨reads.shardCount, reads.content, reads.small, reads.map⟩
      positive := store.positive
      unmapped := fun i inside => by
        have unmapped := store.unmapped i inside
        simpa [World.released, World.appended, World.reserved, World.withMapped, World.setFile, World.setMembers,
          Members.setMap, Members.setPending, Members.addAppendOffset, Members.setAppendOffset] using unmapped
      index := by simp [World.released, World.withMapped, World.setFile, World.setMembers]
      mapped := by
        simp [World.released, World.appended, World.reserved, World.withMapped, World.setFile, World.setMembers,
          Members.setMap, Members.setPending]
      pending := by first | exact store.pending | rfl
      table := table
      represents := represents }

theorem shardBytes_update (log : RowLog) (r : RowRecord) :
    Function.update (shardBytes log) r.shardId (shardBytes (log ++ [r]) r.shardId) = shardBytes (log ++ [r]) := by
  funext i
  by_cases here : i = r.shardId
  · rw [here, Function.update_self]
  · rw [Function.update_of_ne here, shardBytes_append_ne here]

theorem RowFiles.append {r : RowRecord} (reserve : Bool) (files : RowFiles H w log b n slot ref) (complete : r.Complete H)
    (shard : r.shardId < w.members.options.rowShardCount)
    (small : (shardBytes (log ++ [r]) r.shardId).length < 2 ^ 63)
    (table : RowTable H b' n w.members.options.rowShardCount slot' ref')
    (represents : RowRepresents H (shardBytes (log ++ [r])) w.members.options.rowShardCount n slot' ref'
      (putRows noRows (log ++ [r]))) :
    RowFiles H (((w.appended reserve r.shardId r.block.length (shardBytes (log ++ [r]) r.shardId)).withMapped
      .rowIndex b').released reserve) (log ++ [r]) b' n slot' ref' := by
  have length := congrArg List.length (shardBytes_append_self log r)
  rw [List.length_append] at length
  have offsets : ∀ i < w.members.options.rowShardCount,
      Function.update w.members.rowAppendOffsets r.shardId (u64 (w.members.rowAppendOffsets r.shardId + r.block.length)) i =
        (shardBytes (log ++ [r]) i).length := by
    intro i inside
    by_cases here : i = r.shardId
    · subst here
      rw [Function.update_self, files.appendOffsets _ inside, length, u64_of_lt (by omega)]
    · rw [Function.update_of_ne here, shardBytes_append_ne here]
      exact files.appendOffsets i inside
  rw [← shardBytes_update] at represents
  have store := files.shardStore.append reserve r.block.length small table represents
  rw [shardBytes_update] at store
  have each : ∀ r' ∈ log ++ [r], r'.Complete H ∧ r'.shardId < w.members.options.rowShardCount := by
    intro r' member
    rcases List.mem_append.mp member with old | new
    · exact ⟨files.complete r' old, files.shards r' old⟩
    · rw [List.mem_singleton.mp new]
      exact ⟨complete, shard⟩
  cases reserve <;> exact store.rowFiles offsets (fun r' member => (each r' member).1) fun r' member => (each r' member).2

end Frames

section Append
variable {H : HashFunctions} {w : World} {log : RowLog} {shards : Nat → Bytes} {m : RowKey → Option RowMap} {b b₁ : Bytes} {n : Nat}
  {slot : Nat → Option RowKey} {ref : RowKey → BlockRef} {reserve : Bool} {content : RowMap} {block : Bytes} {r : BlockRef}

/-- The program of `WriteRowStructs` once the layout is built. -/
def writeLayout (H : HashFunctions) (retries : Nat) (k : RowKey) (sequence : Nat) (layout : RowBlockLayout)
    (reserve : Bool) : Db Unit := do
  let shardId ← shardForRow H (H.hashString k.1) k.2
  let blockOffset ← .perform (S := signature) (.appendFetchAdd shardId layout.header.blockSize)
  releasing reserve (writeAllAt (.rowShard shardId) blockOffset (layout.slices k.1).flatten)
  let inserted ← releasing reserve
    (insertOrUpdateRowBucket H k.1
      { columnHash := H.hashString k.1
        rowId := k.2
        shardId := shardId
        blockOffset := blockOffset
        blockSize := layout.header.blockSize
        sequence := sequence } retries)
  countIf inserted
  releaseIf reserve

/-- Its first half: the block gets a place in its shard and is written. -/
def appendBlock (H : HashFunctions) (k : RowKey) (sequence : Nat) (layout : RowBlockLayout) (reserve : Bool) : Db BlockRef := do
  let shardId ← shardForRow H (H.hashString k.1) k.2
  let blockOffset ← .perform (S := signature) (.appendFetchAdd shardId layout.header.blockSize)
  releasing reserve (writeAllAt (.rowShard shardId) blockOffset (layout.slices k.1).flatten)
  return ⟨shardId, blockOffset, layout.header.blockSize, sequence⟩

/-- Its second half: the index is pointed to the block. -/
def pointRow (H : HashFunctions) (retries : Nat) (k : RowKey) (reserve : Bool) (r : BlockRef) : Db Unit := do
  let inserted ← releasing reserve (insertOrUpdateRowBucket H k.1 (rowData H k r) retries)
  countIf inserted
  releaseIf reserve

theorem writeLayout_eq (retries : Nat) (k : RowKey) (sequence : Nat) (layout : RowBlockLayout) :
    writeLayout H retries k sequence layout reserve =
      (appendBlock H k sequence layout reserve).bind (pointRow H retries k reserve) := by
  unfold writeLayout appendBlock pointRow
  simp only [Prog.bind_eq, Prog.bind_assoc]
  rfl

theorem shardForRow_runs (store : ShardStore H w shards m b n slot ref) (k : RowKey) (reserve : Bool) (b' : Bytes) :
    Runs (shardForRow H (H.hashString k.1) k.2) ((w.reserved reserve).withMapped .rowIndex b')
      (rowHome H k % w.members.options.rowShardCount) ((w.reserved reserve).withMapped .rowIndex b') := by
  have shards : ((w.reserved reserve).withMapped .rowIndex b').members.rowShards =
      w.members.options.rowShardCount := by
    rw [← store.reads.shardCount]
    cases reserve <;> rfl
  unfold Runs shardForRow
  rw [Prog.bind_eq, (getMembers_runs _).bind, shards]
  rfl

/-- The state in which the block is written: its place is taken. -/
def World.placed (w : World) (reserve : Bool) (shardId amount : Nat) (b : Bytes) : World :=
  ((w.reserved reserve).withMapped .rowIndex b).setMembers (·.addAppendOffset shardId amount)

theorem World.placed_setFile (w : World) (reserve : Bool) (shardId amount : Nat) (shard b : Bytes) :
    (w.placed reserve shardId amount b).setFile (.rowShard shardId) (some shard) =
      (w.appended reserve shardId amount shard).withMapped .rowIndex b := by
  cases reserve <;>
  · simp only [World.placed, World.appended, World.reserved, World.withMapped, World.setFile, World.setMembers]
    rw [Function.update_comm (by simp)]
    rfl

theorem World.placed_disk (w : World) (reserve : Bool) (i shardId amount : Nat) (b : Bytes) :
    (w.placed reserve shardId amount b).disk (.rowShard i) = w.disk (.rowShard i) := by
  simp [World.placed, World.withMapped, World.setFile, World.setMembers]

theorem appendFetchAdd_runs (w : World) (reserve : Bool) (shardId amount : Nat) (b : Bytes) :
    Runs (.perform (S := signature) (.appendFetchAdd shardId amount)) ((w.reserved reserve).withMapped .rowIndex b)
      (w.members.rowAppendOffsets shardId) (w.placed reserve shardId amount b) := by
  refine run_perform_of system ?_
  cases reserve <;> rfl

theorem appendBlock_runs (reserve : Bool) (b₁ : Bytes) (sequence : Nat) (store : ShardStore H w shards m b n slot ref)
    (k : RowKey) {offset shardId : Nat} {layout : RowBlockLayout} (shard : shardId = rowHome H k % w.members.options.rowShardCount)
    (at_offset : w.members.rowAppendOffsets shardId = offset) (bytes : (layout.slices k.1).flatten = block)
    (nonempty : block ≠ []) (fits : offset + block.length < 2 ^ 63) :
    Runs (appendBlock H k sequence layout reserve) ((w.reserved reserve).withMapped .rowIndex b₁)
      ⟨shardId, offset, layout.header.blockSize, sequence⟩
      ((w.appended reserve shardId layout.header.blockSize (patch (shards shardId) offset block)).withMapped .rowIndex b₁) := by
  have fetched := appendFetchAdd_runs w reserve shardId layout.header.blockSize b₁
  rw [at_offset] at fetched
  have content := (World.placed_disk w reserve shardId shardId layout.header.blockSize b₁).trans
    (store.reads.content shardId (shard ▸ Nat.mod_lt _ store.positive))
  have written := writeAllAt_runs content nonempty fits
  rw [World.placed_setFile] at written
  unfold Runs appendBlock
  rw [Prog.bind_eq, (shardForRow_runs store k reserve b₁).bind, ← shard, Prog.bind_eq, Runs.bind (p := .perform _) fetched,
    bytes, Prog.bind_eq, (releasing_runs written).bind]
  rfl

/-- The index `b'` points to the block `r` of the row `k`, and else as `b`
does. -/
structure Repointed (H : HashFunctions) (shards : Nat → Bytes) (count n : Nat) (m : RowKey → Option RowMap) (b : Bytes)
    (slot : Nat → Option RowKey) (ref : RowKey → BlockRef) (k : RowKey) (r : BlockRef) (content : RowMap) (b' : Bytes)
    (slot' : Nat → Option RowKey) (ref' : RowKey → BlockRef) : Prop where
  table : RowTable H b' n count slot' ref'
  represents : RowRepresents H shards count n slot' ref' (Function.update m k (some content))
  sequence : rowSequence b' = rowSequence b
  others : ∀ k', Stored n slot' k' → k' = k ∧ ref' k' = r ∨ Stored n slot k' ∧ ref' k' = ref k'

/-- The index is pointed to a block, and counts it if the row is new. -/
theorem pointRow_runs {k : RowKey} {count : Nat} (reserve : Bool) (table : RowTable H b n count slot ref)
    (represents : RowRepresents H shards count n slot ref m) (reads : ReadsShards w shards count)
    (at_r : BlockAt H shards count r k content block) (fits : (rowBucket H k r).Fits)
    (room : ¬ Stored n slot k → filled n slot + 1 < n)
    (pending : reserve = true → w.members.rowPendingInsertCount = 1) (retries : Nat) :
    ∃ b' slot' ref', Runs (pointRow H (retries + 1) k reserve r) (w.withMapped .rowIndex b) ()
        ((w.withMapped .rowIndex b').released reserve) ∧
      Repointed H shards count n m b slot ref k r content b' slot' ref' := by
  obtain ⟨inserted, index, b₁, indexed, looked, set⟩ := insertOrUpdateRowBucket_runs table represents reads fits retries
  have roomFor : (!inserted) = false → filled n slot + 1 < n := by
    intro fresh
    refine room fun stored => ?_
    have reported := (looked.stored_iff table.table.arranged).mp stored
    rw [fresh] at reported
    cases reported
  have table' := table.point looked roomFor set
  have counted := countIf_runs w (table.toRowIndexFile.bucketSet set) inserted
  have sameBytes : (if (!inserted) = true then b₁ else addItem b₁) = (if inserted = true then addItem b₁ else b₁) := by
    cases inserted <;> rfl
  rw [sameBytes] at table'
  refine ⟨_, _, _, ?_, table', represents.update looked.inside looked.free at_r, ?_, fun k' stored => ?_⟩
  · unfold Runs pointRow
    rw [Prog.bind_eq, (releasing_runs indexed).bind, Prog.bind_eq, counted.bind]
    exact releaseIf_runs pending
  · split
    · rw [rowSequence_addItem, set.sequence]
    · exact set.sequence
  · by_cases same : k' = k
    · rw [same, Function.update_self]
      exact Or.inl ⟨rfl, rfl⟩
    · rw [Function.update_of_ne same]
      exact Or.inr ⟨((stored_update looked.inside looked.free k').mp stored).resolve_left same, rfl⟩

/-- The block `r` is in its shard file and not yet indexed. The index still
represents the rows `m`. -/
structure BlockStored (H : HashFunctions) (w : World) (shards : Nat → Bytes) (count n : Nat) (slot : Nat → Option RowKey)
    (ref : RowKey → BlockRef) (m : RowKey → Option RowMap) (k : RowKey) (content : RowMap) (block : Bytes) (r : BlockRef) :
    Prop where
  reads : ReadsShards w shards count
  represents : RowRepresents H shards count n slot ref m
  located : BlockAt H shards count r k content block
  fits : (rowBucket H k r).Fits

theorem ShardStore.blockStored (reserve : Bool) (k : RowKey) {sequence offset shardId : Nat}
    (store : ShardStore H w shards m b n slot ref) (shard : shardId = rowHome H k % w.members.options.rowShardCount)
    (row : RowBlock H k.1 k.2 sequence content block) (fits : offset + block.length < 2 ^ 63) (numbered : sequence < 2 ^ 64)
    (rowId : k.2 < 2 ^ 64)
    (behind : ∀ k', Stored n slot k' → (ref k').shardId = shardId → (ref k').blockOffset + (ref k').blockSize ≤ offset) :
    BlockStored H (w.appended reserve shardId block.length (patch (shards shardId) offset block))
      (Function.update shards shardId (patch (shards shardId) offset block)) w.members.options.rowShardCount n slot ref m k
      content block ⟨shardId, offset, block.length, sequence⟩ := by
  have inside : shardId < w.members.options.rowShardCount := shard ▸ Nat.mod_lt _ store.positive
  have small : (patch (shards shardId) offset block).length < 2 ^ 63 := by
    have small := store.reads.small shardId inside
    rw [patch_length]
    omega
  have hash := H.hashString_lt k.1
  have count := w.members.options.rowShardCount_lt
  refine ⟨store.reads.appended reserve shardId block.length small store.unmapped, ?_, ⟨inside, ?_, rfl, row⟩, ?_⟩
  · refine store.represents.keep fun k' stored old size located => ?_
    by_cases here : (ref k').shardId = shardId
    · have ends := behind k' stored here
      rw [here] at located ⊢
      rw [Function.update_self]
      exact located.patch block (by omega)
    · rwa [Function.update_of_ne here]
  · rw [Function.update_self]
    exact blockIn_patch _ _ _
  · exact ⟨(by decide : 1 < 2 ^ 32), inside.trans count, hash, rowId, (by omega : offset < 2 ^ 64),
      (by omega : block.length < 2 ^ 64), numbered⟩

/-- A finished layout is stored behind the indexed blocks of its shard, and the
index is pointed to it. -/
theorem ShardStore.writeLayout_runs (reserve : Bool) (k : RowKey) {sequence offset shardId : Nat} {layout : RowBlockLayout}
    (store : ShardStore H w shards m b n slot ref) (table : RowTable H b₁ n w.members.options.rowShardCount slot ref)
    (shard : shardId = rowHome H k % w.members.options.rowShardCount)
    (at_offset : w.members.rowAppendOffsets shardId = offset) (bytes : (layout.slices k.1).flatten = block)
    (row : RowBlock H k.1 k.2 sequence content block) (blockSize : layout.header.blockSize = block.length)
    (fits : offset + block.length < 2 ^ 63) (numbered : sequence < 2 ^ 64) (rowId : k.2 < 2 ^ 64)
    (behind : ∀ k', Stored n slot k' → (ref k').shardId = shardId → (ref k').blockOffset + (ref k').blockSize ≤ offset)
    (room : ¬ Stored n slot k → filled n slot + 1 < n) (retries : Nat) :
    ∃ b' slot' ref', Runs (writeLayout H (retries + 1) k sequence layout reserve) ((w.reserved reserve).withMapped .rowIndex b₁)
        () (((w.appended reserve shardId block.length (patch (shards shardId) offset block)).withMapped .rowIndex b').released
          reserve) ∧
      Repointed H (Function.update shards shardId (patch (shards shardId) offset block)) w.members.options.rowShardCount n m b₁
        slot ref k ⟨shardId, offset, block.length, sequence⟩ content b' slot' ref' := by
  obtain ⟨_, _, _, _, shape⟩ := id row
  have long := shape.shape.length
  have appended := appendBlock_runs reserve b₁ sequence store k shard at_offset bytes
    (List.ne_nil_of_length_pos (by omega)) fits
  rw [blockSize] at appended
  have stored := store.blockStored reserve k shard row fits numbered rowId behind
  obtain ⟨b', slot', ref', pointed, repointed⟩ := pointRow_runs reserve table stored.represents stored.reads stored.located
    stored.fits room (fun given => by subst given; rfl) retries
  refine ⟨b', slot', ref', ?_, repointed⟩
  rw [writeLayout_eq]
  exact appended.bind.trans pointed

/-- A finished layout is appended to its shard, and the index is pointed to
it and counts it if the row is new. -/
theorem writeLayout_runs (k : RowKey) {sequence : Nat} (n' : Nat) (entries : List RowStructEntry)
    (t : KeyTable)
    (files : RowFiles H w log b n slot ref) (table : RowTable H b₁ n w.members.options.rowShardCount slot ref)
    (numbered : sequence < 2 ^ 64)
    (complete : ∀ block, block = ((layoutOf H k.1 k.2 sequence n' entries t).slices k.1).flatten →
      block.length < 2 ^ 63 → RowBlock H k.1 k.2 sequence (rowMap entries) block ∧
        (layoutOf H k.1 k.2 sequence n' entries t).header.blockSize = block.length)
    (column : k.1.length < 2 ^ 32) (rowId : k.2 < 2 ^ 64) (room : ¬ Stored n slot k → filled n slot + 1 < n)
    (retries : Nat)
    (bounded : Bounded (writeLayout H (retries + 1) k sequence (layoutOf H k.1 k.2 sequence n' entries t) reserve)
      ((w.reserved reserve).withMapped .rowIndex b₁)) :
    ∃ w' r, Runs (writeLayout H (retries + 1) k sequence (layoutOf H k.1 k.2 sequence n' entries t) reserve)
        ((w.reserved reserve).withMapped .rowIndex b₁) () w' ∧
      RowStore H w' (log ++ [r]) ∧ RowStep w w' ∧ r.key = k ∧ r.content = rowMap entries ∧
      r.shardId = rowHome H k % w.members.options.rowShardCount ∧ r.sequence = sequence ∧
      w'.nextSequence = rowSequence b₁ ∧ w'.rowBuckets = w.rowBuckets := by
  set layout := layoutOf H k.1 k.2 sequence n' entries t with layout_eq
  set shardId := rowHome H k % w.members.options.rowShardCount with shard_eq
  set block := (layout.slices k.1).flatten with block_eq
  have shard : shardId < w.members.options.rowShardCount := Nat.mod_lt _ files.positive
  have offset := files.appendOffsets shardId shard
  have fetched := appendFetchAdd_runs w reserve shardId layout.header.blockSize b₁
  rw [offset] at fetched
  have fits : (shardBytes log shardId).length + block.length < 2 ^ 63 := by
    unfold writeLayout at bounded
    replace bounded := (bounded.rest (shardForRow_runs files.shardStore k reserve b₁)).rest fetched
    exact Bounded.writeAllAt (Bounded.releasing bounded.first)
  obtain ⟨row, blockSize⟩ := complete block rfl (by omega)
  let r : RowRecord := ⟨k, shardId, sequence, rowMap entries, block⟩
  have recordComplete : r.Complete H := ⟨row, column, rowId, numbered⟩
  have extended : shardBytes (log ++ [r]) shardId = shardBytes log shardId ++ block := shardBytes_append_self log r
  obtain ⟨b', slot', ref', runs, repointed⟩ := files.shardStore.writeLayout_runs reserve k table shard_eq offset
    block_eq.symm row blockSize fits numbered rowId
    (fun k' stored here => by
      have ends := files.appendsBehind k' stored
      rwa [here, offset] at ends) room retries
  have logged : putRows noRows (log ++ [r]) = Function.update (putRows noRows log) k (some r.content) := by
    rw [putRows_append, putRows_singleton]
  have represents := repointed.represents
  rw [patch_end, ← extended, shardBytes_update log r, ← logged] at represents
  rw [patch_end, ← extended] at runs
  refine ⟨_, r, runs, ⟨_, n, _, _, files.append reserve recordComplete shard (by rw [extended, List.length_append]; exact fits)
    repointed.table represents⟩, RowStep.append shard .., rfl, rfl, rfl, rfl, ?_⟩
  rw [World.nextSequence_eq (b := b') (World.released_index ..), repointed.sequence,
    World.rowBuckets_eq (World.released_index ..) repointed.table.toRowIndexFile,
    World.rowBuckets_eq files.index files.table.toRowIndexFile]
  exact ⟨rfl, rfl⟩

end Append

end LumoDB
