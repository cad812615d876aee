import LumoDB.RowResize
import LumoDB.RowScan

namespace LumoDB
open ByteCodec Effects LinearProbing

/-- The row index represents the rows `m` of the shard files. -/
structure RowIndexed (H : HashFunctions) (shards : Nat → Bytes) (count : Nat) (m : RowKey → Option RowMap) (b : Bytes)
    (n : Nat) (slot : Nat → Option RowKey) (ref : RowKey → BlockRef) : Prop where
  table : RowTable H b n count slot ref
  represents : RowRepresents H shards count n slot ref m

/-- The next sequence after a scan: more than every sequence seen. -/
def nextAfter (start : Nat) (log : RowLog) : Nat := log.foldl (fun next r => max next (u64 (r.sequence + 1))) start

theorem nextAfter_append (start : Nat) (log more : RowLog) :
    nextAfter start (log ++ more) = nextAfter (nextAfter start log) more := by
  simp [nextAfter]

theorem le_nextAfter (start : Nat) (log : RowLog) : start ≤ nextAfter start log := by
  induction log generalizing start with
  | nil => exact le_rfl
  | cons r log ih => exact (le_max_left _ _).trans (ih _)

theorem lt_nextAfter {start : Nat} {log : RowLog} {r : RowRecord} (member : r ∈ log) (small : r.sequence + 1 < 2 ^ 64) :
    r.sequence < nextAfter start log := by
  induction log generalizing start with
  | nil => cases member
  | cons head log ih =>
    rcases List.mem_cons.mp member with rfl | later
    · have first : r.sequence + 1 ≤ max start (u64 (r.sequence + 1)) := by
        rw [u64_of_lt small]
        exact le_max_right _ _
      exact Nat.lt_of_succ_le (first.trans (le_nextAfter _ log))
    · exact ih later

theorem nextAfter_lt {start : Nat} {log : RowLog} (first : start < 2 ^ 64) : nextAfter start log < 2 ^ 64 := by
  induction log generalizing start with
  | nil => exact first
  | cons head log ih =>
    exact ih (max_lt first (u64_lt _))

/-- A scan of `blocks` blocks takes a table of `n` buckets and `items` rows to
one of `n'` buckets and `items'` rows. -/
inductive ScanGrows (maxLoadFactor : ℚ) (n items : Nat) : Nat → Nat → Nat → Prop where
  | start : ScanGrows maxLoadFactor n items 0 n items
  | block {blocks n₁ items₁ n₂ items₂} (before : ScanGrows maxLoadFactor n items blocks n₁ items₁)
      (ensured : EnsuredCount maxLoadFactor n₁ items₁ n₂) (kept : items₁ ≤ items₂) (counted : items₂ ≤ items₁ + 1) :
      ScanGrows maxLoadFactor n items (blocks + 1) n₂ items₂

theorem ScanGrows.trans {maxLoadFactor : ℚ} {n items n₁ items₁ n₂ items₂ blocks more : Nat}
    (first : ScanGrows maxLoadFactor n items blocks n₁ items₁) (rest : ScanGrows maxLoadFactor n₁ items₁ more n₂ items₂) :
    ScanGrows maxLoadFactor n items (blocks + more) n₂ items₂ := by
  induction rest with
  | start => exact first
  | block _ ensured kept counted ih => exact .block ih ensured kept counted

theorem EnsuredCount.le {maxLoadFactor : ℚ} {n items n' : Nat} (ensured : EnsuredCount maxLoadFactor n items n') : n ≤ n' := by
  rcases ensured with ⟨_, rfl⟩ | ⟨_, rfl⟩ <;> omega

theorem ScanGrows.le {maxLoadFactor : ℚ} {n items n' items' blocks : Nat}
    (grows : ScanGrows maxLoadFactor n items blocks n' items') : n ≤ n' := by
  induction grows with
  | start => exact le_rfl
  | block _ ensured _ _ ih => exact ih.trans ensured.le

section Block
variable {H : HashFunctions} {w : World} {shards : Nat → Bytes} {b : Bytes} {n : Nat}
  {slot : Nat → Option RowKey} {ref : RowKey → BlockRef} {m : RowKey → Option RowMap} {r : RowRecord} {offset : Nat}

/-- The scan of one complete block points the index to it. -/
theorem rebuildRowBlock_runs (reads : ReadsShards w shards w.members.options.rowShardCount)
    (load : LoadFactorOk w.members.options.maxLoadFactor)
    (indexed : RowIndexed H shards w.members.options.rowShardCount m b n slot ref) (complete : r.Complete H)
    (shard : r.shardId < w.members.options.rowShardCount) (located : BlockIn (shards r.shardId) offset r.block)
    (retries : Nat)
    (bounded : Bounded (rebuildRowBlock H (retries + 1) r.shardId (shards r.shardId).length offset)
      (w.withMapped .rowIndex b)) :
    ∃ h b' n' slot' ref', Runs (rebuildRowBlock H (retries + 1) r.shardId (shards r.shardId).length offset)
        (w.withMapped .rowIndex b) h (w.withMapped .rowIndex b') ∧
      RowIndexed H shards w.members.options.rowShardCount (Function.update m r.key (some r.content)) b' n' slot' ref' ∧
      ScanGrows w.members.options.maxLoadFactor n (filled n slot) 1 n' (filled n' slot') ∧
      h.blockSize = r.block.length ∧ h.sequence = r.sequence := by
  obtain ⟨bn, keySize, valueSize, bslot, t⟩ := id complete.row
  have at_r : BlockAt H shards w.members.options.rowShardCount ⟨r.shardId, offset, r.block.length, r.sequence⟩ r.key
      r.content r.block := ⟨shard, located, rfl, complete.row⟩
  have inside := located.inside
  have small := reads.small r.shardId shard
  have length := t.shape.length
  have reads' := reads.withRowIndex b
  have header := @readAllAt_runs (w.withMapped .rowIndex b) _ _ _ 72 (reads'.content r.shardId shard)
    (show offset + 72 ≤ (shards r.shardId).length by omega) small
  have decoded : RowBlockHeader.decode (slice (shards r.shardId) offset 72) =
      RowBlockHeader.decode (slice r.block 0 72) := by
    have front := located.part 0 72 (by omega)
    rw [Nat.add_zero] at front
    rw [front]
  rw [t.shape.header] at decoded
  have column : Runs (readRowBlockColumn r.shardId offset (RowBlockHeader.decode (slice (shards r.shardId) offset 72)))
      (w.withMapped .rowIndex b) r.key.1 (w.withMapped .rowIndex b) := by
    have read := readBlock_runs (72 + bn * 48) r.key.1.length reads' at_r (by omega)
    rw [t.shape.columnBytes] at read
    rw [decoded]
    unfold readRowBlockColumn
    simp only
    rw [Nat.add_assoc, u64_of_lt (by omega)]
    exact read
  unfold rebuildRowBlock at bounded
  replace bounded := bounded.rest header
  unfold Runs rebuildRowBlock
  rw [Prog.bind_eq, header.bind]
  simp only
  rw [decoded] at bounded column ⊢
  have valid := isValidRowBlockHeader_of r.key.2 r.sequence (H.hashString r.key.1) (filled bn bslot)
    t.shape.power t.shape.length t.shape.small
  rw [if_neg (not_not.mpr valid), if_neg (by simp only; omega)] at bounded ⊢
  replace bounded := bounded.rest column
  obtain ⟨b₁, n₁, slot₁, ensured, table₁, stored₁, count₁, room, size⟩ := ensureRowCapacityForInsert_runs indexed.table load
    bounded.first
  have represents₁ : RowRepresents H shards w.members.options.rowShardCount n₁ slot₁ ref m := by
    intro k
    rw [stored₁ k]
    exact indexed.represents k
  obtain ⟨lookup, found, looked, _⟩ := findRowBucket_runs table₁ represents₁ reads r.key retries
  have fits : (rowBucket H r.key ⟨r.shardId, offset, r.block.length, r.sequence⟩).Fits :=
    ⟨(by decide : 1 < 2 ^ 32), shard.trans w.members.options.rowShardCount_lt, H.hashString_lt _, complete.rowId,
      (show offset < 2 ^ 64 by omega), (show r.block.length < 2 ^ 64 by omega), complete.sequence⟩
  obtain ⟨b₂, stored, set⟩ := storeRowBucket_runs w table₁.toRowIndexFile looked.inside fits
  have counted := addRowItemUnless_runs w (table₁.toRowIndexFile.bucketSet set) lookup.found
  refine ⟨{ sequence := r.sequence, columnHash := H.hashString r.key.1, rowId := r.key.2, columnSize := r.key.1.length,
            itemCount := filled bn bslot, bucketCount := bn, keyBytesSize := keySize, valueBytesSize := valueSize,
            blockSize := r.block.length }, _, n₁, _, _, ?_, ⟨table₁.point looked (fun _ => by omega) set,
    represents₁.update looked.inside looked.free at_r⟩, ?_, rfl, rfl⟩
  · rw [Prog.bind_eq, column.bind, Prog.bind_eq, ensured.bind, Prog.bind_eq]
    refine (Runs.bind found).trans ?_
    rw [Prog.bind_eq]
    refine (Runs.bind stored).trans ?_
    rw [Prog.bind_eq, counted.bind]
    rfl
  · have counts := looked.filled_le
    rw [count₁] at counts
    exact .block .start size counts.1 counts.2

end Block

section Scan
variable {H : HashFunctions} {w : World} {shards : Nat → Bytes} {b rest : Bytes} {n shardId : Nat}
  {slot : Nat → Option RowKey} {ref : RowKey → BlockRef} {m : RowKey → Option RowMap} {done log : RowLog}

def rowFileBytes (log : RowLog) : Bytes := rowValueFileHeader.encode ++ encodeRows log

theorem rowFileBytes_append (log : RowLog) (r : RowRecord) : rowFileBytes (log ++ [r]) = rowFileBytes log ++ r.block := by
  have single : encodeRows [r] = r.block := by simp [encodeRows]
  rw [rowFileBytes, encodeRows_append, ← List.append_assoc, rowFileBytes, single]

/-- The scan of a shard runs through the complete blocks at its start, and
goes on with the bytes after them. -/
theorem rebuildRowLoop_prefix {rounds next : Nat} (content : shards shardId = rowFileBytes (done ++ log) ++ rest)
    (reads : ReadsShards w shards w.members.options.rowShardCount)
    (load : LoadFactorOk w.members.options.maxLoadFactor) (shard : shardId < w.members.options.rowShardCount)
    (complete : ∀ r ∈ log, r.Complete H ∧ r.shardId = shardId)
    (indexed : RowIndexed H shards w.members.options.rowShardCount m b n slot ref) (retries : Nat)
    (bounded : Bounded (rebuildRowLoop H (retries + 1) shardId (shards shardId).length (rounds + log.length)
      (rowFileBytes done).length next) (w.withMapped .rowIndex b)) :
    ∃ b' n' slot' ref',
      run system (rebuildRowLoop H (retries + 1) shardId (shards shardId).length (rounds + log.length)
          (rowFileBytes done).length next) (w.withMapped .rowIndex b) =
        run system (rebuildRowLoop H (retries + 1) shardId (shards shardId).length rounds
          (rowFileBytes (done ++ log)).length (nextAfter next log)) (w.withMapped .rowIndex b') ∧
      RowIndexed H shards w.members.options.rowShardCount (putRows m log) b' n' slot' ref' ∧
      ScanGrows w.members.options.maxLoadFactor n (filled n slot) log.length n' (filled n' slot') ∧
      Bounded (rebuildRowLoop H (retries + 1) shardId (shards shardId).length rounds
        (rowFileBytes (done ++ log)).length (nextAfter next log)) (w.withMapped .rowIndex b') := by
  induction log generalizing done b n slot ref m next with
  | nil =>
    rw [List.append_nil] at content ⊢
    exact ⟨b, n, slot, ref, rfl, indexed, .start, bounded⟩
  | cons r log ih =>
    obtain ⟨complete_r, shard_r⟩ := complete r List.mem_cons_self
    have long := complete_r.block_length
    have regroup : done ++ r :: log = (done ++ [r]) ++ log := by
      rw [List.append_assoc, List.singleton_append]
    have split : shards shardId = rowFileBytes done ++ (r.block ++ (encodeRows log ++ rest)) := by
      rw [content, regroup, rowFileBytes, encodeRows_append, ← List.append_assoc, ← rowFileBytes, rowFileBytes_append]
      simp only [List.append_assoc]
    have located : BlockIn (shards r.shardId) (rowFileBytes done).length r.block := by
      rw [shard_r, split]
      refine ⟨by simp only [List.length_append]; omega, ?_⟩
      rw [slice_append_right le_rfl, Nat.sub_self, slice_append_left (by omega), slice_self]
    have inside := located.inside
    have small := reads.small shardId shard
    rw [shard_r] at inside
    have rounds_eq : rounds + (r :: log).length = rounds + log.length + 1 := rfl
    rw [rounds_eq] at bounded ⊢
    unfold rebuildRowLoop at bounded
    rw [if_pos (by omega)] at bounded
    subst shard_r
    obtain ⟨h, b₁, n₁, slot₁, ref₁, scanned, indexed₁, grown₁, size, sequence⟩ := rebuildRowBlock_runs reads load indexed
      complete_r shard located retries bounded.first
    replace bounded := bounded.rest scanned
    have next_offset : u64 ((rowFileBytes done).length + h.blockSize) = (rowFileBytes (done ++ [r])).length := by
      rw [size, rowFileBytes_append, List.length_append]
      exact u64_of_lt (by omega)
    rw [next_offset, sequence] at bounded
    rw [regroup] at content ⊢
    obtain ⟨b₂, n₂, slot₂, ref₂, later, indexed₂, grown₂, bounded₂⟩ := ih content
      (fun r' member => complete r' (List.mem_cons_of_mem _ member)) indexed₁ bounded
    have grown := grown₁.trans grown₂
    rw [Nat.add_comm 1] at grown
    refine ⟨b₂, n₂, slot₂, ref₂, ?_, indexed₂, grown, bounded₂⟩
    refine Eq.trans ?_ later
    rw [rebuildRowLoop, if_pos (by omega), Prog.bind_eq, scanned.bind, next_offset, sequence]

end Scan

section Shards
variable {H : HashFunctions} {w : World} {b : Bytes} {n : Nat} {slot : Nat → Option RowKey}
  {ref : RowKey → BlockRef} {m : RowKey → Option RowMap} {log : RowLog}

theorem rebuildShards_runs {rounds first next : Nat} (reads : ReadsShards w (shardBytes log) w.members.options.rowShardCount)
    (offsets : ∀ i < w.members.options.rowShardCount, w.members.rowAppendOffsets i = (shardBytes log i).length)
    (load : LoadFactorOk w.members.options.maxLoadFactor) (last : first + rounds = w.members.options.rowShardCount)
    (complete : ∀ r ∈ log, r.Complete H)
    (indexed : RowIndexed H (shardBytes log) w.members.options.rowShardCount m b n slot ref) (retries : Nat)
    (bounded : Bounded (rebuildShards H (retries + 1) rounds first next) (w.withMapped .rowIndex b)) :
    ∃ b' n' slot' ref', Runs (rebuildShards H (retries + 1) rounds first next) (w.withMapped .rowIndex b)
        (nextAfter next (scanLog log first rounds)) (w.withMapped .rowIndex b') ∧
      RowIndexed H (shardBytes log) w.members.options.rowShardCount (putRows m (scanLog log first rounds)) b' n' slot' ref' ∧
      ScanGrows w.members.options.maxLoadFactor n (filled n slot) (scanLog log first rounds).length n' (filled n' slot') := by
  induction rounds generalizing first next b n slot ref m with
  | zero => exact ⟨b, n, slot, ref, rfl, indexed, .start⟩
  | succ rounds ih =>
    have shard : first < w.members.options.rowShardCount := by omega
    have size := getFileSize_runs ((reads.withRowIndex b).content first shard)
    have long := shardBytes_length_ge complete first
    have start : (24 : Nat) = (rowFileBytes []).length := by
      rw [rowFileBytes, encodeRows, List.map_nil, List.flatten_nil, List.append_nil, rowHeader_length]
    obtain ⟨spare, spare_eq⟩ : ∃ spare, (shardBytes log first).length + 1 = (spare + 1) + (shardLog log first).length :=
      ⟨(shardBytes log first).length - (shardLog log first).length, by omega⟩
    unfold rebuildShards at bounded
    replace bounded := bounded.rest size
    rw [spare_eq] at bounded
    have scan := bounded.first
    rw [start] at scan
    obtain ⟨b₁, n₁, slot₁, ref₁, scanned, indexed₁, grown₁, _⟩ := rebuildRowLoop_prefix
      (show _ = rowFileBytes ([] ++ shardLog log first) ++ [] by rw [List.nil_append, List.append_nil]; rfl)
      reads load shard
      (fun r member => ⟨complete r (mem_shardLog.mp member).1, (mem_shardLog.mp member).2⟩) indexed retries scan
    have ended : (rowFileBytes ([] ++ shardLog log first)).length = (shardBytes log first).length := rfl
    rw [← start, ended, rebuildRowLoop, if_neg (by omega)] at scanned
    have kept : Runs (setRowAppendOffset first (shardBytes log first).length) (w.withMapped .rowIndex b₁) ()
        (w.withMapped .rowIndex b₁) := by
      have same : Function.update w.members.rowAppendOffsets first (shardBytes log first).length =
          w.members.rowAppendOffsets := by rw [← offsets first shard, Function.update_eq_self]
      have stored := setMembers_runs (·.setAppendOffset first (shardBytes log first).length) (w.withMapped .rowIndex b₁)
      simp only [World.setMembers, World.withMapped, World.setFile, Members.setMap, Members.setAppendOffset, same]
        at stored
      exact stored
    replace bounded := (bounded.rest (p := rebuildRowLoop H _ _ _ _ _ _) scanned).rest kept
    obtain ⟨b₂, n₂, slot₂, ref₂, later, indexed₂, grown₂⟩ := ih
      (show first + 1 + rounds = w.members.options.rowShardCount by omega) indexed₁ bounded
    refine ⟨b₂, n₂, slot₂, ref₂, ?_, ?_, ?_⟩
    · rw [scanLog_succ, nextAfter_append]
      unfold Runs rebuildShards
      rw [Prog.bind_eq, size.bind, spare_eq, Prog.bind_eq, Runs.bind (p := rebuildRowLoop H _ _ _ _ _ _) scanned,
        Prog.bind_eq, kept.bind]
      exact later
    · rw [scanLog_succ, putRows_append]
      exact indexed₂
    · rw [scanLog_succ, List.length_append]
      exact grown₁.trans grown₂

theorem rowIndexed_empty (H : HashFunctions) (shards : Nat → Bytes) {count e : Nat} (ref : RowKey → BlockRef)
    (power : n = 2 ^ e) (small : 64 + 64 * n < 2 ^ 63) (counts : count < 2 ^ 32) :
    RowIndexed H shards count noRows (emptyRowIndex n count) n (fun _ => none) ref :=
  ⟨emptyRowIndex_table H ref power small counts, fun _ => ⟨fun _ => stored_none, nofun⟩⟩

/-- Scanning shard files of complete blocks indexes them all, and leaves a
next sequence above every scanned one. -/
theorem rebuildRowIndexFromValues_runs (reads : ReadsShards w (shardBytes log) w.members.options.rowShardCount)
    (offsets : ∀ i < w.members.options.rowShardCount, w.members.rowAppendOffsets i = (shardBytes log i).length)
    (load : LoadFactorOk w.members.options.maxLoadFactor)
    (complete : ∀ r ∈ log, r.Complete H) {e : Nat} (power : n = 2 ^ e)
    (small : 64 + 64 * n < 2 ^ 63) (retries : Nat)
    (bounded : Bounded (rebuildRowIndexFromValues H (retries + 1))
      (w.withMapped .rowIndex (emptyRowIndex n w.members.options.rowShardCount))) :
    ∃ b n' slot ref, Runs (rebuildRowIndexFromValues H (retries + 1))
        (w.withMapped .rowIndex (emptyRowIndex n w.members.options.rowShardCount)) () (w.withMapped .rowIndex b) ∧
      RowIndexed H (shardBytes log) w.members.options.rowShardCount
        (putRows noRows (scanLog log 0 w.members.options.rowShardCount)) b n' slot ref ∧
      ScanGrows w.members.options.maxLoadFactor n 0 (scanLog log 0 w.members.options.rowShardCount).length n'
        (filled n' slot) ∧
      rowSequence b = nextAfter 1 (scanLog log 0 w.members.options.rowShardCount) := by
  have shards : w.members.rowShards = w.members.options.rowShardCount := reads.shardCount
  unfold Runs rebuildRowIndexFromValues
  unfold rebuildRowIndexFromValues at bounded
  replace bounded := bounded.rest (getMembers_runs _)
  simp only [World.withMapped_members, Members.setMap, shards] at bounded
  obtain ⟨b, n', slot, ref, scanned, indexed, grown⟩ := rebuildShards_runs reads offsets load (Nat.zero_add _) complete
    (rowIndexed_empty H (shardBytes log) (fun _ => ⟨0, 0, 0, 0⟩) power small w.members.options.rowShardCount_lt) retries
    bounded.first
  have length := indexed.table.length
  have positive := indexed.table.positive
  have stored := @store_runs w .rowIndex b 32 8
    (nextAfter 1 (scanLog log 0 w.members.options.rowShardCount)) (by omega)
  refine ⟨setRowSequence b (nextAfter 1 (scanLog log 0 w.members.options.rowShardCount)), n', slot, ref, ?_,
    ⟨indexed.table.setSequence _, indexed.represents⟩, by rwa [filled_none] at grown, ?_⟩
  · rw [Prog.bind_eq, (getMembers_runs _).bind]
    simp only [World.withMapped_members, Members.setMap, shards]
    rw [Prog.bind_eq, scanned.bind]
    exact stored
  · rw [rowSequence_setSequence, u64_of_lt (nextAfter_lt (by decide))]

end Shards

end LumoDB
