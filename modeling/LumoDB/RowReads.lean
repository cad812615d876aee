import LumoDB.RowDecode

namespace LumoDB
open ByteCodec Effects LinearProbing

/-- A column and a row id: what the row store is indexed by. -/
abbrev RowKey := Bytes × Nat

/-- Where a row's block lies, with its sequence. -/
structure BlockRef where
  shardId : Nat
  blockOffset : Nat
  blockSize : Nat
  sequence : Nat
  deriving DecidableEq

/-- The bucket that points to a block of `k`. -/
def rowBucket (H : HashFunctions) (k : RowKey) (r : BlockRef) : RowIndexBucket where
  state := kRowBucketFilled
  shardId := r.shardId
  columnHash := H.hashString k.1
  rowId := k.2
  blockOffset := r.blockOffset
  blockSize := r.blockSize
  sequence := r.sequence

/-- The shard bytes hold `block` at `offset`. -/
structure BlockIn (shard : Bytes) (offset : Nat) (block : Bytes) : Prop where
  inside : offset + block.length ≤ shard.length
  bytes : slice shard offset block.length = block

/-- `r` points to a complete block of `k` with the content `m`. -/
structure BlockAt (H : HashFunctions) (shards : Nat → Bytes) (count : Nat) (r : BlockRef) (k : RowKey)
    (m : RowMap) (block : Bytes) : Prop where
  shard : r.shardId < count
  located : BlockIn (shards r.shardId) r.blockOffset block
  size : r.blockSize = block.length
  row : RowBlock H k.1 k.2 r.sequence m block

/-- `r` points to a valid header of a block of `k`, followed by its buckets and
its column. Nothing is said of the buckets and of what is behind the column. -/
structure BlockHead (H : HashFunctions) (shards : Nat → Bytes) (count : Nat) (r : BlockRef) (k : RowKey)
    (h : RowBlockHeader) : Prop where
  shard : r.shardId < count
  inside : r.blockOffset + (72 + h.bucketCount * 48 + k.1.length) ≤ (shards r.shardId).length
  header : RowBlockHeader.decode (slice (shards r.shardId) r.blockOffset 72) = h
  valid : isValidRowBlockHeader h = true
  columnHash : h.columnHash = H.hashString k.1
  rowId : h.rowId = k.2
  blockSize : h.blockSize = r.blockSize
  columnSize : h.columnSize = k.1.length
  column : slice (shards r.shardId) (r.blockOffset + (72 + h.bucketCount * 48)) k.1.length = k.1

theorem BlockIn.part {shard block : Bytes} {offset : Nat} (located : BlockIn shard offset block) (i size : Nat)
    (within : i + size ≤ block.length) : slice shard (offset + i) size = slice block i size := by
  have inner := @slice_slice shard offset _ _ _ within
  rw [← inner, located.bytes]

theorem BlockIn.append {shard block : Bytes} {offset : Nat} (located : BlockIn shard offset block) (more : Bytes) :
    BlockIn (shard ++ more) offset block where
  inside := by
    have inside := located.inside
    rw [List.length_append]
    omega
  bytes := by rw [slice_append_left located.inside, located.bytes]

/-- A store behind a block leaves it. -/
theorem BlockIn.patch {shard block : Bytes} {offset : Nat} (located : BlockIn shard offset block) {start : Nat} (data : Bytes)
    (behind : offset + block.length ≤ start) : BlockIn (patch shard start data) offset block where
  inside := by
    have inside := located.inside
    rw [patch_length]
    omega
  bytes := by rw [slice_patch_before behind located.inside, located.bytes]

/-- The data of a store is a block of the file. -/
theorem blockIn_patch (shard block : Bytes) (start : Nat) : BlockIn (patch shard start block) start block where
  inside := by
    rw [patch_length]
    omega
  bytes := slice_patch_self _ _ _

section Reads

/-- The first `count` shard files hold `shards`, read through the descriptors
or through mappings of the whole files. -/
structure ReadsShards (w : World) (shards : Nat → Bytes) (count : Nat) : Prop where
  shardCount : w.members.rowShards = count
  content : ∀ i < count, w.disk (.rowShard i) = some (shards i)
  small : ∀ i < count, (shards i).length < 2 ^ 63
  map : ∀ i < count, w.members.maps (.rowShard i) = none ∨
    ∃ writable, w.members.maps (.rowShard i) = some ⟨(shards i).length, writable⟩

variable {w : World} {shards : Nat → Bytes} {count : Nat}

theorem ReadsShards.withRowIndex (reads : ReadsShards w shards count) (b : Bytes) :
    ReadsShards (w.withMapped .rowIndex b) shards count where
  shardCount := reads.shardCount
  content i inside := by
    rw [World.withMapped_disk_ne w b (by simp), reads.content i inside]
  small := reads.small
  map i inside := by
    rw [World.withMapped_maps_ne w b (by simp)]
    exact reads.map i inside

theorem readRowValueAt_runs {shardId offset size : Nat} (reads : ReadsShards w shards count)
    (shard : shardId < count) (inside : offset + size ≤ (shards shardId).length) :
    Runs (readRowValueAt shardId offset size) w (slice (shards shardId) offset size) w := by
  have members := reads.shardCount
  rw [readRowValueAt, Prog.bind_eq, Runs, (getMembers_runs w).bind, if_neg (by omega)]
  rcases reads.map shardId shard with unmapped | ⟨writable, map⟩
  · rw [unmapped]
    exact readAllAt_runs (reads.content shardId shard) inside (reads.small shardId shard)
  · rw [map]
    simp only
    rw [if_neg (by omega)]
    by_cases zero : size = 0
    · simp only [zero, ne_eq, not_true, if_false, slice_zero]
      rfl
    · rw [if_pos zero]
      exact (World.sees_of_map (reads.content shardId shard) map).loadBytes_runs inside

end Reads

section Blocks
variable {H : HashFunctions} {w : World} {shards : Nat → Bytes} {count : Nat} {r : BlockRef} {k : RowKey}
  {m : RowMap} {block : Bytes}

theorem readBlock_runs (i size : Nat) (reads : ReadsShards w shards count) (at_r : BlockAt H shards count r k m block)
    (within : i + size ≤ block.length) :
    Runs (readRowValueAt r.shardId (r.blockOffset + i) size) w (slice block i size) w := by
  have inside := at_r.located.inside
  rw [← at_r.located.part i size within]
  exact readRowValueAt_runs reads at_r.shard (by omega)

theorem BlockAt.offset_lt (reads : ReadsShards w shards count) (at_r : BlockAt H shards count r k m block) :
    r.blockOffset + block.length < 2 ^ 63 := by
  have inside := at_r.located.inside
  have small := reads.small r.shardId at_r.shard
  omega

theorem BlockAt.front (at_r : BlockAt H shards count r k m block) (long : 72 ≤ block.length) :
    slice (shards r.shardId) r.blockOffset 72 = slice block 0 72 := at_r.located.part 0 72 (by omega)

theorem BlockAt.head (at_r : BlockAt H shards count r k m block) :
    BlockHead H shards count r k (RowBlockHeader.decode (slice block 0 72)) := by
  obtain ⟨n, keySize, valueSize, slot, t⟩ := at_r.row
  have length := t.shape.length
  have inside := at_r.located.inside
  have front := at_r.front (by omega)
  refine ⟨at_r.shard, ?_, by rw [front], ?_, ?_, ?_, ?_, ?_, ?_⟩
  all_goals rw [t.shape.header]
  · simp only
    omega
  · exact isValidRowBlockHeader_of _ _ _ _ t.shape.power length t.shape.small
  · exact at_r.size.symm
  · rw [at_r.located.part _ _ (by simp only; omega)]
    exact t.shape.columnBytes

theorem loadRowBlock_runs (reads : ReadsShards w shards count) (at_r : BlockAt H shards count r k m block) :
    Runs (loadRowBlock (rowBucket H k r)) w block w := by
  have members := reads.shardCount
  have shard := at_r.shard
  have whole := readBlock_runs 0 block.length reads at_r (by omega)
  rw [slice_self, Nat.add_zero, ← at_r.size] at whole
  unfold Runs loadRowBlock
  rw [Prog.bind_eq, (getMembers_runs w).bind, if_neg (by simp only [rowBucket]; omega)]
  exact whole

/-- The comparison of a bucket's block with a queried column is exact, where
the bucket and the block's header agree. -/
theorem rowBlockMatches_runs {bucket : RowIndexBucket} {h : RowBlockHeader} {stored : Bytes} (reads : ReadsShards w shards count)
    (shard : bucket.shardId < count) (header : Runs (readRowBlockHeader bucket.shardId bucket.blockOffset) w h w)
    (valid : isValidRowBlockHeader h = true) (columnHash : h.columnHash = bucket.columnHash)
    (blockSize : h.blockSize = bucket.blockSize)
    (read : Runs (readRowBlockColumn bucket.shardId bucket.blockOffset h) w stored w)
    (length : stored.length = h.columnSize) (column : Bytes) :
    Runs (rowBlockMatches bucket column h.rowId) w (if stored = column then some h else none) w := by
  have members := reads.shardCount
  unfold Runs rowBlockMatches
  rw [Prog.bind_eq, (getMembers_runs w).bind, if_neg (by omega), Prog.bind_eq, header.bind,
    if_neg (by simp [valid, columnHash, blockSize])]
  by_cases sizes : h.columnSize ≠ column.length
  · rw [if_pos sizes, if_neg (fun same => sizes (by rw [← length, same]))]
    rfl
  · rw [if_neg sizes, Prog.bind_eq, read.bind]
    rfl

theorem BlockHead.rowBlockMatches {h : RowBlockHeader} (head : BlockHead H shards count r k h)
    (reads : ReadsShards w shards count) (column : Bytes) :
    Runs (rowBlockMatches (rowBucket H k r) column k.2) w (if k.1 = column then some h else none) w := by
  have inside := head.inside
  have small := reads.small r.shardId head.shard
  have header : Runs (readRowBlockHeader r.shardId r.blockOffset) w h w := by
    unfold Runs readRowBlockHeader
    rw [Prog.bind_eq, (readRowValueAt_runs reads head.shard (by omega)).bind, head.header]
    rfl
  have read : Runs (readRowBlockColumn r.shardId r.blockOffset h) w k.1 w := by
    have runs := readRowValueAt_runs reads head.shard
      (show r.blockOffset + (72 + h.bucketCount * 48) + k.1.length ≤ (shards r.shardId).length by omega)
    rw [head.column] at runs
    unfold readRowBlockColumn
    rw [Nat.add_assoc, u64_of_lt (by omega), head.columnSize]
    exact runs
  have matched := @rowBlockMatches_runs w shards count (rowBucket H k r) _ _ reads head.shard header head.valid head.columnHash
    head.blockSize read head.columnSize.symm column
  rwa [head.rowId] at matched

/-- The search in a block's key table finds exactly the content of the row. -/
theorem findValueLoop_runs {n keySize valueSize : Nat} {slot : Nat → Option Bytes} (reads : ReadsShards w shards count)
    (at_r : BlockAt H shards count r k m block)
    (t : BlockTable H k.1 k.2 r.sequence m block n keySize valueSize slot) {h : RowBlockHeader}
    (keys : h.keyBytesSize = keySize) (values : h.valueBytesSize = valueSize) (key : Bytes) {rounds probe : Nat}
    (sum : rounds + probe = n) (passed : Passed n (keyHome H k.2) slot key probe) :
    run system (findValueLoop (rowBucket H k r) h key (H.hashString key) (n - 1) (keyHome H k.2 key &&& (n - 1))
        (72 + n * 48 + k.1.length) (72 + n * 48 + k.1.length + keySize) rounds probe) w =
      match m key with
      | some value => .ok value w
      | none => .error (.notFound "key not found in row") w := by
  have length := t.shape.length
  have small := t.shape.small
  have offset := at_r.offset_lt reads
  obtain ⟨e, power⟩ := t.shape.power
  have positive : 0 < n := power ▸ Nat.two_pow_pos e
  induction rounds generalizing probe with
  | zero =>
    have short := passed.lt_size t.table.vacancy
    omega
  | succ rounds ih =>
    have target := probeSlot_lt positive (keyHome H k.2 key) probe
    rw [findValueLoop, probe_index power (by omega)]
    simp only [rowBucket]
    rw [Nat.add_assoc, u64_of_lt (by omega), Prog.bind_eq, (readBlock_runs _ _ reads at_r (by omega)).bind]
    change run system (if (keyBucketAt block (probeSlot n (keyHome H k.2 key) probe)).state = kBucketEmpty then _
      else _) w = _
    cases here : slot (probeSlot n (keyHome H k.2 key) probe) with
    | none =>
      rw [if_pos (t.empty _ target here)]
      have missing := t.table.absent_of_vacant passed (passed.lt_size t.table.vacancy) here
      cases held : m key with
      | none => rfl
      | some value =>
        obtain ⟨i, inside, at_i⟩ := t.present key (by rw [held]; exact Option.some_ne_none value)
        exact absurd at_i (missing i inside)
    | some key' =>
      obtain ⟨keyOffset, valueOffset, value, held, bucket, keyRoom, keyBytes, valueRoom, valueBytes⟩ :=
        t.stored _ target key' here
      unfold keyBucketAt at bucket
      rw [keyBucketAt, bucket, if_neg (show ¬ kBucketFilled = kBucketEmpty by decide),
        if_neg (show ¬ kBucketFilled ≠ kBucketFilled by decide)]
      by_cases differ : H.hashString key' ≠ H.hashString key ∨ key'.length ≠ key.length
      · have other : key' ≠ key := by
          rintro rfl
          simp at differ
        rw [if_pos differ]
        exact ih (by omega) (passed.succ here other)
      · have sizes : key'.length = key.length := by
          by_contra unequal
          exact differ (Or.inr unequal)
        have keyBytes' : slice block (72 + n * 48 + k.1.length + keyOffset) key.length = key' := by
          rw [← sizes, keyBytes]
        rw [if_neg differ]
        simp only [keys, values]
        rw [if_neg (by omega), Nat.add_assoc r.blockOffset, u64_of_lt (by omega), Prog.bind_eq,
          (readBlock_runs _ _ reads at_r (by omega)).bind, keyBytes']
        by_cases same : key' = key
        · subst same
          rw [if_neg (not_not.mpr rfl), held, Nat.add_assoc r.blockOffset, u64_of_lt (by omega)]
          have found := readBlock_runs
            (72 + n * 48 + k.1.length + keySize + valueOffset) value.length reads at_r (by omega)
          rw [valueBytes] at found
          exact found
        · rw [if_pos same]
          exact ih (by omega) (passed.succ here same)

theorem findValueInRowBlockAt_runs (reads : ReadsShards w shards count) (at_r : BlockAt H shards count r k m block)
    (key : Bytes) :
    run system (findValueInRowBlockAt H (rowBucket H k r) (RowBlockHeader.decode (slice block 0 72)) key) w =
      match m key with
      | some value => .ok value w
      | none => .error (.notFound "key not found in row") w := by
  obtain ⟨n, keySize, valueSize, slot, t⟩ := at_r.row
  have members := reads.shardCount
  have shard := at_r.shard
  have length := t.shape.length
  have small := t.shape.small
  unfold findValueInRowBlockAt
  rw [Prog.bind_eq, (getMembers_runs w).bind, if_neg (by simp only [rowBucket]; omega), t.shape.header,
    if_neg (by rw [isValidRowBlockHeader_of _ _ _ _ t.shape.power length small]; simp [rowBucket, at_r.size])]
  simp only
  rw [u64_of_lt (by omega), u64_of_lt (by omega)]
  exact findValueLoop_runs reads at_r t rfl rfl key (by omega) (Passed.zero key)

end Blocks

end LumoDB
