import LumoDB.Replay
import LumoDB.ShardScan

namespace LumoDB
open ByteCodec Effects LinearProbing

/-- `data` stands at `offset` in the file. -/
def Holds (file : Bytes) (offset : Nat) (data : Bytes) : Prop := slice file offset data.length = data

section Bytes
variable {file data more : Bytes} {offset : Nat}

theorem Holds.inBlock (holds : Holds file offset data) : InBlock file offset data.length := by
  have length := congrArg List.length holds
  rw [slice_length] at length
  unfold InBlock
  omega

theorem Holds.slice_eq {size : Nat} (holds : Holds file offset data) (length : data.length = size) :
    slice file offset size = data := by
  rw [← length]
  exact holds

theorem holds_nil (file : Bytes) (offset : Nat) : Holds file offset [] := slice_zero file offset

theorem holds_slice {size : Nat} (inside : offset + size ≤ file.length) : Holds file offset (slice file offset size) := by
  unfold Holds
  rw [slice_length_of_le inside]

theorem Holds.append (first : Holds file offset data) (second : Holds file (offset + data.length) more) :
    Holds file offset (data ++ more) := by
  unfold Holds at *
  rw [List.length_append, slice_add, first, second]

end Bytes

/-- The header of the record at `offset`. -/
def recordHeaderAt (v : Bytes) (offset : Nat) : ValueRecordHeader := ValueRecordHeader.decode (slice v offset 24)

/-- A valid record header stands at `offset`, and behind it the column and the
key with the sizes it states. -/
structure RecordOf (v : Bytes) (offset : Nat) (column key : Bytes) : Prop where
  inside : offset + 24 ≤ v.length
  valid : isValidRecordHeader (recordHeaderAt v offset) = true
  columnSize : (recordHeaderAt v offset).columnSize = column.length
  keySize : (recordHeaderAt v offset).keySize = key.length
  follows : Holds v (offset + 24) (column ++ key)

/-- The record at `offset` holds the value for the column and the key. -/
structure RecordHolds (v : Bytes) (offset : Nat) (column key value : Bytes) : Prop extends RecordOf v offset column key where
  valueSize : (recordHeaderAt v offset).valueSize = value.length
  value : Holds v (offset + 24) (column ++ key ++ value)

section Values
variable {H : HashFunctions} {w : World} {v b : Bytes} {n items offset : Nat} {column key : Bytes}

theorem readAllAt_yields {file : FileId} {bytes : Bytes} (content : w.disk file = some bytes) (small : bytes.length < 2 ^ 63)
    (bound : offset < 2 ^ 64) (size : Nat) :
    Yields system (readAllAt file offset size) w fun read => read.length = size ∧ Holds bytes offset read := by
  by_cases inside : offset + size ≤ bytes.length
  · exact yields_of_run (readAllAt_runs content inside small) ⟨slice_length_of_le inside, holds_slice inside⟩
  · rcases Nat.eq_zero_or_pos size with rfl | positive
    · refine yields_of_run (a := []) ?_ ⟨rfl, holds_nil _ _⟩
      simp only [readAllAt, run, system, content, if_true, checked]
    · obtain ⟨e, fails⟩ := readAllAt_fails content positive bound (Nat.not_le.mp inside)
      exact yields_of_error fails

/-- What a read of the value file returns stands in it. -/
theorem readValueAt_yields (reads : ReadsValues w v) (bound : offset < 2 ^ 64) (size : Nat) :
    Yields system (readValueAt offset size) w fun read => read.length = size ∧ Holds v offset read := by
  by_cases inside : offset + size ≤ v.length
  · exact yields_of_run (readValueAt_runs reads inside) ⟨slice_length_of_le inside, holds_slice inside⟩
  · refine (yields_of_run (getMembers_runs w) rfl : Yields system getMembers w (· = w.members)).bind fun m held => ?_
    subst held
    rcases reads.map with unmapped | ⟨writable, map⟩
    · rw [unmapped]
      exact readAllAt_yields reads.content reads.small bound size
    · rw [map]
      refine .ite (fun _ => yields_fail) fun short => ?_
      simp only [not_or, not_lt] at short
      omega

theorem readRecordHeader_yields (reads : ReadsValues w v) (bound : offset < 2 ^ 64) :
    Yields system (readRecordHeader offset) w fun h => h = recordHeaderAt v offset ∧ offset + 24 ≤ v.length := by
  refine (readValueAt_yields reads bound 24).bind ?_
  rintro bytes ⟨length, holds⟩
  have inside := holds.inBlock
  refine yields_ret ⟨?_, ?_⟩
  · rw [recordHeaderAt, holds.slice_eq length]
  · rcases inside with empty | inside <;> omega

theorem recordHeaderAt_bounds (v : Bytes) (offset : Nat) :
    (recordHeaderAt v offset).columnSize < 2 ^ 32 ∧ (recordHeaderAt v offset).keySize < 2 ^ 32 :=
  ⟨natAt_lt _ _ 4, natAt_lt _ _ 4⟩

theorem readRecordColumnKey_yields (reads : ReadsValues w v) (inside : offset + 24 ≤ v.length) :
    Yields system (readRecordColumnKey offset (recordHeaderAt v offset)) w fun stored =>
      stored.1.length = (recordHeaderAt v offset).columnSize ∧ stored.2.length = (recordHeaderAt v offset).keySize ∧
        Holds v (offset + 24) (stored.1 ++ stored.2) := by
  have small := reads.small
  obtain ⟨columnBound, keyBound⟩ := recordHeaderAt_bounds v offset
  unfold readRecordColumnKey
  rw [u64_of_lt (by omega), u64_of_lt (by omega)]
  refine (readValueAt_yields reads (by omega) _).bind ?_
  rintro stored ⟨columnLength, columnHolds⟩
  refine (readValueAt_yields reads (by omega) _).bind ?_
  rintro storedKey ⟨keyLength, keyHolds⟩
  rw [← columnLength] at keyHolds
  exact yields_ret ⟨columnLength, keyLength, columnHolds.append keyHolds⟩

/-- A record that matches is one of the column and the key. -/
theorem recordMatches_yields (reads : ReadsValues w v) {bucket : IndexBucket} (bound : bucket.recordOffset < 2 ^ 64)
    (column key : Bytes) :
    Yields system (recordMatches bucket column key) w fun isMatch =>
      isMatch = true → RecordOf v bucket.recordOffset column key := by
  refine (readRecordHeader_yields reads bound).bind ?_
  rintro _ ⟨rfl, inside⟩
  refine .ite (fun valid => ?_) fun _ => yields_fail
  refine .ite (fun _ => yields_ret nofun) fun sizes => ?_
  simp only [ne_eq, not_or, not_not] at sizes
  refine (readRecordColumnKey_yields reads inside).bind ?_
  rintro stored ⟨_, _, holds⟩
  refine yields_ret fun same => ?_
  obtain ⟨sameColumn, sameKey⟩ := of_decide_eq_true same
  rw [sameColumn, sameKey] at holds
  exact ⟨inside, valid, sizes.1, sizes.2, holds⟩

/-- A search that reports a bucket has found one that is not empty and points
to a record of the column and the key. -/
theorem findBucketLoop_yields (reads : ReadsValues w v) (file : IndexFile b n items) (sees : w.Sees .index b)
    {hash mask : Nat} (inside : mask < n) (column key : Bytes) (rounds probe : Nat) :
    Yields system (findBucketLoop column key hash mask rounds probe) w fun lookup => lookup.found = true →
      lookup.index < n ∧ (bucketAt b lookup.index).hash ≠ 0 ∧
        RecordOf v (bucketAt b lookup.index).recordOffset column key := by
  induction rounds generalizing probe with
  | zero => exact yields_fail
  | succ rounds ih =>
    have at_index : u64 ((hash &&& mask) + probe) &&& mask < n := lt_of_le_of_lt Nat.and_le_right inside
    set index := u64 ((hash &&& mask) + probe) &&& mask
    refine (yields_of_run (file.loadBucket sees at_index) rfl :
      Yields system (loadBucket index) w (· = bucketAt b index)).bind ?_
    rintro _ rfl
    refine .ite (fun _ => yields_ret nofun) fun filled => .ite (fun _ => ih _) fun _ => ?_
    have bound : (bucketAt b index).recordOffset < 2 ^ 64 := by
      rw [bucketAt_eq]
      exact natAt_lt _ _ 8
    refine (recordMatches_yields reads bound column key).bind fun isMatch recordOf => ?_
    exact .ite (fun same => yields_ret fun _ => ⟨at_index, filled, recordOf same⟩) fun _ => ih _

theorem IndexFile.mask (file : IndexFile b n items) : u64 (n + 2 ^ 64 - 1) = n - 1 ∧ n - 1 < n := by
  have positive := file.positive
  have small := file.small
  unfold u64
  omega

theorem findBucket_yields (reads : ReadsValues w v) (file : IndexFile b n items) (sees : w.Sees .index b)
    (column key : Bytes) (columnHash keyHash : Nat) :
    Yields system (findBucket H column key columnHash keyHash) w fun lookup => lookup.found = true →
      lookup.index < n ∧ (bucketAt b lookup.index).hash ≠ 0 ∧
        RecordOf v (bucketAt b lookup.index).recordOffset column key := by
  refine (yields_of_run (file.loadBucketCount sees) rfl : Yields system loadBucketCount w (· = n)).bind ?_
  rintro _ rfl
  rw [file.mask.1]
  exact findBucketLoop_yields reads file sees file.mask.2 column key _ _

/-- `GetStruct` returns only what a record of the column and the key holds. -/
theorem getStruct_yields (reads : ReadsValues w v) (file : IndexFile b n items) (sees : w.Sees .index b)
    (column key : Bytes) :
    Yields system (getStruct H column key) w fun value => ∃ i < n, (bucketAt b i).hash ≠ 0 ∧
      RecordHolds v (bucketAt b i).recordOffset column key value := by
  have small := reads.small
  refine (yields_of_run (getMembers_runs w) trivial : Yields system getMembers w fun _ => True).bind fun m _ => ?_
  refine .ite (fun _ => yields_fail) fun _ => ?_
  refine (findBucket_yields reads file sees column key _ _).bind fun lookup found => ?_
  refine .ite (fun _ => yields_fail) fun reported => ?_
  obtain ⟨at_index, filled, recordOf⟩ := found (not_not.mp reported)
  refine (yields_of_run (file.loadBucket sees at_index) rfl :
    Yields system (loadBucket lookup.index) w (· = bucketAt b lookup.index)).bind ?_
  rintro _ rfl
  have inside := recordOf.inside
  have columnSize := recordOf.columnSize
  have keySize := recordOf.keySize
  obtain ⟨columnBound, keyBound⟩ := recordHeaderAt_bounds v (bucketAt b lookup.index).recordOffset
  refine (readRecordHeader_yields reads (by omega)).bind ?_
  rintro _ ⟨rfl, _⟩
  refine .ite (fun _ => ?_) fun _ => yields_fail
  rw [u64_of_lt (by omega)]
  refine (readValueAt_yields reads (by omega) _).mono ?_
  rintro value ⟨length, holds⟩
  refine ⟨lookup.index, at_index, filled, recordOf, length.symm, recordOf.follows.append ?_⟩
  rw [List.length_append, ← columnSize, ← keySize, ← Nat.add_assoc]
  exact holds

end Values

/-- Key bucket `j` of the row block at `offset`. -/
def keyBucketIn (shard : Bytes) (offset j : Nat) : RowKeyBucket := RowKeyBucket.decode (slice shard (offset + 72 + j * 48) 48)

/-- Where the key bytes of a block start. -/
def keyRegion (h : RowBlockHeader) : Nat := 72 + h.bucketCount * 48 + h.columnSize

/-- A valid header of a block of the row stands where the bucket points, and
behind its key buckets the column. -/
structure BlockOf (shard : Bytes) (bucket : RowIndexBucket) (column : Bytes) (rowId : Nat) : Prop where
  inside : bucket.blockOffset + 72 ≤ shard.length
  valid : isValidRowBlockHeader (blockHeaderAt shard bucket.blockOffset) = true
  rowId : (blockHeaderAt shard bucket.blockOffset).rowId = rowId
  blockSize : (blockHeaderAt shard bucket.blockOffset).blockSize = bucket.blockSize
  columnSize : (blockHeaderAt shard bucket.blockOffset).columnSize = column.length
  column : Holds shard (bucket.blockOffset + (72 + (blockHeaderAt shard bucket.blockOffset).bucketCount * 48)) column

/-- Key bucket `j` of the block is a filled one for a key of this size, and its
ranges lie in the regions that the header states. -/
structure KeyBucketOf (shard : Bytes) (offset : Nat) (key : Bytes) (j : Nat) : Prop where
  inside : j < (blockHeaderAt shard offset).bucketCount
  within : offset + 72 + j * 48 + 48 ≤ shard.length
  filled : (keyBucketIn shard offset j).state = kBucketFilled
  keySize : (keyBucketIn shard offset j).keySize = key.length
  contained : Contained (blockHeaderAt shard offset) (keyBucketIn shard offset j)

/-- Key bucket `j` of the block designates a key range that holds the key and
a value range that holds the value. -/
structure Designates (shard : Bytes) (offset : Nat) (key value : Bytes) (j : Nat) : Prop where
  valueSize : (keyBucketIn shard offset j).valueSize = value.length
  key : Holds shard (offset + keyRegion (blockHeaderAt shard offset) + (keyBucketIn shard offset j).keyOffset) key
  value : Holds shard (offset + keyRegion (blockHeaderAt shard offset) + (blockHeaderAt shard offset).keyBytesSize +
    (keyBucketIn shard offset j).valueOffset) value

/-- A lookup of the key can stop at key bucket `j`: it has the hash of the key,
and the key stands at the offset that is computed for it with 64 bits. -/
structure StopsAt (H : HashFunctions) (shard : Bytes) (offset : Nat) (key : Bytes) (j : Nat) : Prop extends
    KeyBucketOf shard offset key j where
  hash : (keyBucketIn shard offset j).keyHash = H.hashString key
  keyRead : Holds shard
    (u64 (offset + keyBytesStart (blockHeaderAt shard offset) + (keyBucketIn shard offset j).keyOffset)) key

/-- What the lookup reads for key bucket `j`: the key and the value at the
offsets it computes with 64 bits. -/
structure Answers (H : HashFunctions) (shard : Bytes) (offset : Nat) (key value : Bytes) (j : Nat) : Prop extends
    StopsAt H shard offset key j where
  valueSize : (keyBucketIn shard offset j).valueSize = value.length
  valueRead : Holds shard
    (u64 (offset + valueBytesStart (blockHeaderAt shard offset) + (keyBucketIn shard offset j).valueOffset)) value

/-- The ranges of key bucket `j` start below `2 ^ 64`, where they have a byte. -/
structure RangesFit (shard : Bytes) (offset j : Nat) : Prop where
  key : (keyBucketIn shard offset j).keySize = 0 ∨
    offset + keyRegion (blockHeaderAt shard offset) + (keyBucketIn shard offset j).keyOffset < 2 ^ 64
  value : (keyBucketIn shard offset j).valueSize = 0 ∨ offset + keyRegion (blockHeaderAt shard offset) +
    (blockHeaderAt shard offset).keyBytesSize + (keyBucketIn shard offset j).valueOffset < 2 ^ 64

section Ranges
variable {H : HashFunctions} {shard key value : Bytes} {offset j : Nat}

theorem Holds.of_u64 {file data : Bytes} {exact : Nat} (read : Holds file (u64 exact) data)
    (fits : data.length = 0 ∨ exact < 2 ^ 64) : Holds file exact data := by
  rcases fits with empty | fits
  · rw [List.length_eq_zero_iff.mp empty]
    exact holds_nil _ _
  · rwa [u64_of_lt fits] at read

/-- What the lookup reads stands in the ranges of the key bucket where these do
not reach `2 ^ 64`. -/
theorem Answers.designates (answers : Answers H shard offset key value j) (fit : RangesFit shard offset j) :
    Designates shard offset key value j := by
  obtain ⟨keyFits, valueFits⟩ := fit
  obtain ⟨buckets, columnSize, _⟩ := blockHeaderAt_bounds shard offset
  have keyStart : keyBytesStart (blockHeaderAt shard offset) = keyRegion (blockHeaderAt shard offset) :=
    u64_of_lt (by omega)
  rw [answers.keySize] at keyFits
  rw [answers.valueSize] at valueFits
  refine ⟨answers.valueSize, ?_, ?_⟩
  · have read := answers.keyRead
    rw [keyStart] at read
    exact read.of_u64 keyFits
  · rcases valueFits with empty | below
    · rw [List.length_eq_zero_iff.mp empty]
      exact holds_nil _ _
    · have read := answers.valueRead
      have valueStart : valueBytesStart (blockHeaderAt shard offset) =
          keyRegion (blockHeaderAt shard offset) + (blockHeaderAt shard offset).keyBytesSize := by
        rw [valueBytesStart, keyStart, u64_of_lt (by omega)]
      rw [valueStart, ← Nat.add_assoc] at read
      exact read.of_u64 (.inr below)

end Ranges

section Rows
variable {H : HashFunctions} {w : World} {shards : Nat → Bytes} {b : Bytes} {n items count shardCount offset rowId : Nat}
  {column key : Bytes} {bucket : RowIndexBucket}

theorem readRowValueAt_yields (reads : ReadsShards w shards count) {shardId : Nat} (shard : shardId < count)
    (bound : offset < 2 ^ 64) (size : Nat) :
    Yields system (readRowValueAt shardId offset size) w fun read =>
      read.length = size ∧ Holds (shards shardId) offset read := by
  have members := reads.shardCount
  refine (yields_of_run (getMembers_runs w) rfl : Yields system getMembers w (· = w.members)).bind fun m held => ?_
  subst held
  refine .ite (fun _ => yields_fail) fun _ => ?_
  have content := reads.content shardId shard
  rcases reads.map shardId shard with unmapped | ⟨writable, map⟩
  · rw [unmapped]
    exact readAllAt_yields content (reads.small shardId shard) bound size
  · rw [map]
    refine .ite (fun _ => yields_fail) fun short => ?_
    simp only [not_or, not_lt] at short
    have inside : offset + size ≤ (shards shardId).length := by omega
    refine .ite (fun _ => ?_) fun zero => ?_
    · exact yields_of_run ((World.sees_of_map content map).loadBytes_runs inside)
        ⟨slice_length_of_le inside, holds_slice inside⟩
    · exact yields_ret ⟨(not_not.mp zero).symm, holds_nil _ _⟩

theorem readRowBlockHeader_yields (reads : ReadsShards w shards count) {shardId : Nat} (shard : shardId < count)
    (bound : offset < 2 ^ 64) :
    Yields system (readRowBlockHeader shardId offset) w fun h =>
      h = blockHeaderAt (shards shardId) offset ∧ offset + 72 ≤ (shards shardId).length := by
  refine (readRowValueAt_yields reads shard bound 72).bind ?_
  rintro front ⟨length, holds⟩
  have inside := holds.inBlock
  refine yields_ret ⟨by rw [blockHeaderAt, holds.slice_eq length], ?_⟩
  rcases inside with empty | inside <;> omega

/-- A block that matches is one of the row. -/
theorem rowBlockMatches_yields (reads : ReadsShards w shards count) (bound : bucket.blockOffset < 2 ^ 64) (column : Bytes)
    (rowId : Nat) :
    Yields system (rowBlockMatches bucket column rowId) w fun found => ∀ h, found = some h → bucket.shardId < count ∧
      h = blockHeaderAt (shards bucket.shardId) bucket.blockOffset ∧
      BlockOf (shards bucket.shardId) bucket column rowId := by
  have members := reads.shardCount
  refine (yields_of_run (getMembers_runs w) rfl : Yields system getMembers w (· = w.members)).bind fun m held => ?_
  subst held
  refine .ite (fun _ => yields_fail) fun known => ?_
  have shard : bucket.shardId < count := by omega
  have small := reads.small _ shard
  obtain ⟨buckets, _⟩ := blockHeaderAt_bounds (shards bucket.shardId) bucket.blockOffset
  refine (readRowBlockHeader_yields reads shard bound).bind ?_
  rintro _ ⟨rfl, inside⟩
  refine .ite (fun _ => yields_fail) fun checked => ?_
  simp only [not_or, Bool.not_eq_false, ne_eq, not_not] at checked
  refine .ite (fun _ => yields_ret nofun) fun sizes => ?_
  unfold readRowBlockColumn
  rw [u64_of_lt (by omega), Nat.add_assoc]
  refine (readRowValueAt_yields reads shard (by omega) _).bind ?_
  rintro stored ⟨_, holds⟩
  refine yields_ret fun h found => ?_
  split at found
  · rename_i same
    cases found
    rw [same] at holds
    exact ⟨shard, rfl, inside, checked.1, checked.2.2.1, checked.2.2.2, not_not.mp sizes, holds⟩
  · cases found

theorem RowIndexFile.mask (file : RowIndexFile b n items shardCount) : u64 (n + 2 ^ 64 - 1) = n - 1 ∧ n - 1 < n := by
  have positive := file.positive
  have small := file.small
  unfold u64
  omega

/-- A lookup that reports a bucket has found a Filled one that points to a
block of the row. -/
structure RowLookedUp (b : Bytes) (shards : Nat → Bytes) (count n : Nat) (column : Bytes) (rowId : Nat)
    (lookup : RowBucketLookup) : Prop where
  inside : lookup.index < n
  bucket : lookup.bucket = rowBucketAt b lookup.index
  filled : lookup.bucket.state = kRowBucketFilled
  shard : lookup.bucket.shardId < count
  header : lookup.blockHeader = blockHeaderAt (shards lookup.bucket.shardId) lookup.bucket.blockOffset
  block : BlockOf (shards lookup.bucket.shardId) lookup.bucket column rowId

theorem rowBucketAt_offset_lt (b : Bytes) (i : Nat) : (rowBucketAt b i).blockOffset < 2 ^ 64 := by
  rw [rowBucketAt_eq]
  exact natAt_lt _ _ 8

/-- A pass over a settled row index meets no bucket in the Writing state. -/
theorem findRowPass_yields (reads : ReadsShards w shards count) (file : RowIndexFile b n items shardCount)
    (settled : Settled b n) (sees : w.Sees .rowIndex b) {mask : Nat} (inside : mask < n) (column : Bytes)
    (rowId columnHash start rounds probe : Nat) :
    Yields system (findRowPass column rowId columnHash mask start rounds probe) w fun looked =>
      ∃ lookup, looked = some lookup ∧ (lookup.found = true → RowLookedUp b shards count n column rowId lookup) := by
  induction rounds generalizing probe with
  | zero => exact yields_fail
  | succ rounds ih =>
    have at_index : u64 (start + probe) &&& mask < n := lt_of_le_of_lt Nat.and_le_right inside
    unfold findRowPass
    set index := u64 (start + probe) &&& mask
    obtain ⟨onEmpty, onFilled⟩ := file.loadRowBucketSnapshot sees at_index
    rcases settled index at_index with filled | empty
    · refine (yields_of_run (onFilled filled) rfl :
        Yields system (loadRowBucketSnapshot index) w (· = .filled (rowBucketAt b index))).bind ?_
      rintro _ rfl
      refine .ite (fun _ => ih _) fun _ => ?_
      refine (rowBlockMatches_yields reads (rowBucketAt_offset_lt b index) column rowId).bind fun found matched => ?_
      cases found with
      | none => exact ih _
      | some h =>
        obtain ⟨shard, header, block⟩ := matched h rfl
        exact yields_ret ⟨_, rfl, fun _ => ⟨at_index, rfl, filled, shard, header, block⟩⟩
    · refine (yields_of_run (onEmpty empty) rfl : Yields system (loadRowBucketSnapshot index) w (· = .empty)).bind ?_
      rintro _ rfl
      exact yields_ret ⟨_, rfl, fun found => absurd found Bool.false_ne_true⟩

theorem findRowBucket_yields (reads : ReadsShards w shards count) (file : RowIndexFile b n items shardCount)
    (settled : Settled b n) (sees : w.Sees .rowIndex b) (column : Bytes) (rowId columnHash retries : Nat) :
    Yields system (findRowBucket H column rowId columnHash (retries + 1)) w fun lookup =>
      lookup.found = true → RowLookedUp b shards count n column rowId lookup := by
  refine (yields_of_run (file.loadRowBucketCount sees) rfl : Yields system loadRowBucketCount w (· = n)).bind ?_
  rintro _ rfl
  unfold findRowLoop
  rw [file.mask.1]
  refine (findRowPass_yields reads file settled sees file.mask.2 column rowId _ _ _ _).bind ?_
  rintro _ ⟨lookup, rfl, found⟩
  exact yields_ret found

/-- The search in the key table of a block returns only what a key bucket of it
answers. -/
theorem findValueLoop_yields (reads : ReadsShards w shards count) (shard : bucket.shardId < count)
    (inside : bucket.blockOffset + 72 ≤ (shards bucket.shardId).length) {mask start : Nat}
    (below : mask < (blockHeaderAt (shards bucket.shardId) bucket.blockOffset).bucketCount) (rounds probe : Nat) :
    Yields system (findValueLoop bucket (blockHeaderAt (shards bucket.shardId) bucket.blockOffset) key (H.hashString key) mask start
        (keyBytesStart (blockHeaderAt (shards bucket.shardId) bucket.blockOffset))
        (valueBytesStart (blockHeaderAt (shards bucket.shardId) bucket.blockOffset)) rounds probe) w fun value =>
      ∃ j, Answers H (shards bucket.shardId) bucket.blockOffset key value j := by
  have small := reads.small _ shard
  obtain ⟨buckets, _⟩ := blockHeaderAt_bounds (shards bucket.shardId) bucket.blockOffset
  induction rounds generalizing probe with
  | zero => exact yields_fail
  | succ rounds ih =>
    have at_index : u64 (start + probe) &&& mask < (blockHeaderAt (shards bucket.shardId) bucket.blockOffset).bucketCount :=
      lt_of_le_of_lt Nat.and_le_right below
    unfold findValueLoop
    set j := u64 (start + probe) &&& mask
    have unwrapped : u64 (bucket.blockOffset + 72 + j * 48) = bucket.blockOffset + 72 + j * 48 := u64_of_lt (by omega)
    refine (readRowValueAt_yields reads shard (u64_lt _) 48).bind ?_
    rw [unwrapped]
    rintro bytes ⟨length, holds⟩
    have decoded : RowKeyBucket.decode bytes = keyBucketIn (shards bucket.shardId) bucket.blockOffset j := by
      rw [keyBucketIn, holds.slice_eq length]
    have within : bucket.blockOffset + 72 + j * 48 + 48 ≤ (shards bucket.shardId).length := by
      rcases holds.inBlock with empty | inside <;> omega
    rw [decoded]
    refine .ite (fun _ => yields_fail) fun _ => .ite (fun _ => yields_fail) fun filled => .ite (fun _ => ih _) fun sizes =>
      .ite (fun _ => yields_fail) fun ranges => ?_
    simp only [not_or, ne_eq, not_not] at sizes
    have contained : Contained (blockHeaderAt (shards bucket.shardId) bucket.blockOffset)
        (keyBucketIn (shards bucket.shardId) bucket.blockOffset j) := by
      unfold Contained
      omega
    refine (readRowValueAt_yields reads shard (u64_lt _) key.length).bind ?_
    rintro stored ⟨_, keyHolds⟩
    refine .ite (fun _ => ih _) fun same => ?_
    rw [not_not.mp same] at keyHolds
    refine (readRowValueAt_yields reads shard (u64_lt _) _).mono ?_
    rintro value ⟨valueSize, valueHolds⟩
    exact ⟨j, ⟨⟨at_index, within, not_not.mp filled, sizes.2, contained⟩, sizes.1, keyHolds⟩, valueSize.symm, valueHolds⟩

/-- Row bucket `i` is a Filled one that points to a block of the row, and key
bucket `j` of the block answers with the value. -/
structure RowAnswers (H : HashFunctions) (b : Bytes) (shards : Nat → Bytes) (count n : Nat) (column : Bytes) (rowId : Nat)
    (key value : Bytes) (i j : Nat) : Prop where
  inside : i < n
  filled : (rowBucketAt b i).state = kRowBucketFilled
  shard : (rowBucketAt b i).shardId < count
  block : BlockOf (shards (rowBucketAt b i).shardId) (rowBucketAt b i) column rowId
  answers : Answers H (shards (rowBucketAt b i).shardId) (rowBucketAt b i).blockOffset key value j

theorem getRowStruct_yields (reads : ReadsShards w shards count) (file : RowIndexFile b n items shardCount)
    (settled : Settled b n) (sees : w.Sees .rowIndex b) (column : Bytes) (rowId : Nat) (key : Bytes) (retries : Nat) :
    Yields system (getRowStruct H (retries + 1) column rowId key) w fun value =>
      ∃ i j, RowAnswers H b shards count n column rowId key value i j := by
  refine (yields_of_run (getMembers_runs w) trivial : Yields system getMembers w fun _ => True).bind fun m _ => ?_
  refine .ite (fun _ => yields_fail) fun _ => ?_
  refine (findRowBucket_yields reads file settled sees column rowId _ _).bind fun lookup found => ?_
  refine .ite (fun _ => yields_fail) fun reported => ?_
  obtain ⟨inside, same, filled, shard, header, block⟩ := found (not_not.mp reported)
  refine (yields_of_run (getMembers_runs w) trivial : Yields system getMembers w fun _ => True).bind fun m _ => ?_
  refine .ite (fun _ => yields_fail) fun _ => .ite (fun _ => yields_fail) fun _ => ?_
  rw [header]
  have valid := block.valid
  have positive : 0 < (blockHeaderAt (shards lookup.bucket.shardId) lookup.bucket.blockOffset).bucketCount := by
    by_contra none
    have zero := Nat.eq_zero_of_not_pos none
    unfold isValidRowBlockHeader at valid
    simp [zero] at valid
  refine (findValueLoop_yields reads shard block.inside (Nat.sub_lt positive Nat.one_pos) _ _).mono ?_
  rintro value ⟨j, answers⟩
  rw [same] at filled shard block answers
  exact ⟨lookup.index, j, inside, filled, shard, block, answers⟩

end Rows

/-- An open database with any bytes in its files, where both indexes pass their
layout checks. -/
structure ServesFiles (w : World) (v b rows : Bytes) (shards : Nat → Bytes) (count : Nat) : Prop where
  values : ReadsValues w v
  shards : ReadsShards w shards count
  index : w.Sees .index b
  rowIndex : w.Sees .rowIndex rows
  small : b.length < 2 ^ 63
  rowSmall : rows.length < 2 ^ 63
  valid : Runs (hasValidIndexLayout b.length) w true w
  rowValid : Runs (hasValidRowIndexLayout rows.length) w true w

section Lookups
variable {w : World} {v b rows : Bytes} {shards : Nat → Bytes} {count : Nat}

/-- Row bucket `i` is a Filled one that points to a block of the row, and key
bucket `j` of the block is a Filled one that designates the key and the value. -/
structure RowHolds (rows : Bytes) (shards : Nat → Bytes) (count : Nat) (column : Bytes) (rowId : Nat) (key value : Bytes)
    (i j : Nat) : Prop where
  inside : i < natAt rows 16 8
  filled : (rowBucketAt rows i).state = kRowBucketFilled
  shard : (rowBucketAt rows i).shardId < count
  block : BlockOf (shards (rowBucketAt rows i).shardId) (rowBucketAt rows i) column rowId
  bucket : j < (blockHeaderAt (shards (rowBucketAt rows i).shardId) (rowBucketAt rows i).blockOffset).bucketCount
  keyFilled : (keyBucketIn (shards (rowBucketAt rows i).shardId) (rowBucketAt rows i).blockOffset j).state = kBucketFilled
  keySize : (keyBucketIn (shards (rowBucketAt rows i).shardId) (rowBucketAt rows i).blockOffset j).keySize = key.length
  designates : Designates (shards (rowBucketAt rows i).shardId) (rowBucketAt rows i).blockOffset key value j

/-- In the indexed blocks of the row, the ranges of every key bucket at which a
lookup of the key can stop start below `2 ^ 64`. -/
def RowRangesFit (H : HashFunctions) (rows : Bytes) (shards : Nat → Bytes) (count : Nat) (column : Bytes) (rowId : Nat)
    (key : Bytes) : Prop :=
  ∀ i < natAt rows 16 8, (rowBucketAt rows i).state = kRowBucketFilled → (rowBucketAt rows i).shardId < count →
    BlockOf (shards (rowBucketAt rows i).shardId) (rowBucketAt rows i) column rowId →
    ∀ j, StopsAt H (shards (rowBucketAt rows i).shardId) (rowBucketAt rows i).blockOffset key j →
      RangesFit (shards (rowBucketAt rows i).shardId) (rowBucketAt rows i).blockOffset j

/-- Both lookups end, and `GetStruct` returns what a record of the column and the
key holds. `GetRowStruct` returns what a block of the row holds for the key,
unless a range of a key bucket for it reaches `2 ^ 64`. -/
theorem lookups_designate (opens : ServesFiles w v b rows shards count) (H : HashFunctions) (column : Bytes) (rowId : Nat)
    (key : Bytes) (retries : Nat) :
    (Yields system (getStruct H column key) w fun value => ∃ i < natAt b 16 8, (bucketAt b i).hash ≠ 0 ∧
      RecordHolds v (bucketAt b i).recordOffset column key value) ∧
    Yields system (getRowStruct H (retries + 1) column rowId key) w fun value =>
      RowRangesFit H rows shards count column rowId key → ∃ i j, RowHolds rows shards count column rowId key value i j := by
  obtain ⟨n, file⟩ := (hasValidIndexLayout_inv opens.index opens.small opens.valid).2.1.mp rfl
  obtain ⟨rowCount, rowFile, settled⟩ := (hasValidRowIndexLayout_inv opens.rowIndex opens.rowSmall opens.rowValid).2.1.mp rfl
  rw [file.bucketCount]
  refine ⟨getStruct_yields opens.values file opens.index column key, ?_⟩
  refine (getRowStruct_yields opens.shards rowFile settled opens.rowIndex column rowId key retries).mono ?_
  rintro value ⟨i, j, inside, filled, shard, block, answers⟩ fit
  rw [← rowFile.bucketCount] at inside
  have designates := answers.designates (fit i inside filled shard block j answers.toStopsAt)
  exact ⟨i, j, inside, filled, shard, block, answers.inside, answers.filled, answers.keySize, designates⟩

end Lookups

section Moved
variable {H : HashFunctions} {w : World} {objects : ObjectLog} {s : RowState}

instance (file : Bytes) (offset : Nat) (data : Bytes) : Decidable (Holds file offset data) :=
  inferInstanceAs (Decidable (slice file offset data.length = data))

/-- An open database whose first shard file was replaced. -/
theorem Active.servesFiles (active : Active H w objects s) {shard : Bytes} (small : shard.length < 2 ^ 63) :
    ∃ b rows, w.disk .rowIndex = some rows ∧ ServesFiles (w.setFile (.rowShard 0) (some shard)) (valueFileBytes objects) b rows
      (Function.update (shardBytes s.live) 0 shard) w.members.options.rowShardCount := by
  obtain ⟨b, n, slot, off, files⟩ := active.objects
  obtain ⟨rows, rn, rslot, ref, rowFiles⟩ := active.rows
  have others : ∀ file, file ≠ .rowShard 0 → (w.setFile (.rowShard 0) (some shard)).disk file = w.disk file :=
    fun file other => Function.update_of_ne other _ _
  have sees : (w.setFile (.rowShard 0) (some shard)).Sees .index b :=
    World.sees_of_map ((others _ (by decide)).trans files.index) files.mapped
  have rowSees : (w.setFile (.rowShard 0) (some shard)).Sees .rowIndex rows :=
    World.sees_of_map ((others _ (by decide)).trans rowFiles.index) rowFiles.mapped
  refine ⟨b, rows, rowFiles.index,
    { values := ⟨(others _ (by decide)).trans files.content, files.small, .inl files.unmapped⟩
      shards := ⟨rowFiles.reads.shardCount, fun i inside => ?_, fun i inside => ?_,
        fun i inside => .inl (rowFiles.unmapped i inside)⟩
      index := sees
      rowIndex := rowSees
      small := by rw [files.table.length]; exact files.table.small
      rowSmall := by rw [rowFiles.table.length]; exact rowFiles.table.small
      valid := hasValidIndexLayout_accepts sees files.table.accepted
      rowValid := hasValidRowIndexLayout_accepts rowSees rowFiles.table.accepted }⟩
  · by_cases here : i = 0
    · subst here
      simp [World.setFile]
    · rw [Function.update_of_ne here, others _ (by simpa using here)]
      exact rowFiles.reads.content i inside
  · by_cases here : i = 0
    · rw [here, Function.update_self]
      exact small
    · rw [Function.update_of_ne here]
      exact rowFiles.reads.small i inside

/-- The calls that write two rows of one key. -/
def twoRowCalls : List Call := [.putRowStructs [2] 5 [⟨[1], [9]⟩], .putRowStructs [2] 6 [⟨[1], [8]⟩]]

/-- The first shard file with other sizes in the second of its blocks: the key
and value bytes together have `2 ^ 64 + 2` bytes, and the value starts 845 bytes
before the value bytes. -/
def movedRange (w : World) : Bytes :=
  patch (patch ((w.disk (.rowShard 0)).getD []) 915 (leBytes 8 3 ++ leBytes 8 (2 ^ 64 - 1))) 1211 (leBytes 8 (2 ^ 64 - 845))

/-- The key bucket is not filled, or its value range does not hold the value. -/
def ValueElsewhere (shard : Bytes) (offset : Nat) (value : Bytes) (j : Nat) : Prop :=
  (keyBucketIn shard offset j).state ≠ kBucketFilled ∨
    ¬ Holds shard (offset + keyRegion (blockHeaderAt shard offset) + (blockHeaderAt shard offset).keyBytesSize +
      (keyBucketIn shard offset j).valueOffset) value

instance (shard : Bytes) (offset : Nat) (value : Bytes) (j : Nat) : Decidable (ValueElsewhere shard offset value j) :=
  inferInstanceAs (Decidable (_ ∨ _))

/-- Every indexed block is one of another row, or has 16 key buckets without
the value. -/
def HeldNowhere (rows shard : Bytes) (rowId : Nat) (value : Bytes) : Prop :=
  ∀ i < 16, (blockHeaderAt shard (rowBucketAt rows i).blockOffset).rowId ≠ rowId ∨
    (blockHeaderAt shard (rowBucketAt rows i).blockOffset).bucketCount = 16 ∧
      ∀ j < 16, ValueElsewhere shard (rowBucketAt rows i).blockOffset value j

instance (rows shard : Bytes) (rowId : Nat) (value : Bytes) : Decidable (HeldNowhere rows shard rowId value) :=
  inferInstanceAs (Decidable (∀ i < 16, _ ∨ _ ∧ ∀ j < 16, _))

/-- The ranges of the key buckets of the indexed blocks start below `2 ^ 64`. -/
def FitsEverywhere (rows shard : Bytes) : Prop :=
  ∀ i < 16, (rowBucketAt rows i).state = kRowBucketFilled →
    (blockHeaderAt shard (rowBucketAt rows i).blockOffset).bucketCount = 16 ∧
      ∀ j < 16, RangesFit shard (rowBucketAt rows i).blockOffset j

instance (shard : Bytes) (offset j : Nat) : Decidable (RangesFit shard offset j) :=
  decidable_of_iff ((_ ∨ _) ∧ (_ ∨ _)) ⟨fun both => ⟨both.1, both.2⟩, fun fit => ⟨fit.key, fit.value⟩⟩

instance (rows shard : Bytes) : Decidable (FitsEverywhere rows shard) :=
  inferInstanceAs (Decidable (∀ i < 16, _ → _ ∧ ∀ j < 16, _))

/-- What the lookup of the second row returns, of the shard file as it was
written and of the changed one. -/
def TwoRowsRead (w : World) : Prop :=
  w.members.options.rowShardCount = 1 ∧ natAt ((w.disk .rowIndex).getD []) 16 8 = 16 ∧
    (((w.disk (.rowShard 0)).getD []).length < 2 ^ 63 ∧ (run system (getRowStruct .shipped 1 [2] 6 [1])
      (w.setFile (.rowShard 0) (some ((w.disk (.rowShard 0)).getD [])))).value? = some [8] ∧
      FitsEverywhere ((w.disk .rowIndex).getD []) ((w.disk (.rowShard 0)).getD [])) ∧
    (movedRange w).length < 2 ^ 63 ∧
      (run system (getRowStruct .shipped 1 [2] 6 [1]) (w.setFile (.rowShard 0) (some (movedRange w)))).value? = some [9] ∧
      HeldNowhere ((w.disk .rowIndex).getD []) (movedRange w) 6 [9]

instance (w : World) : Decidable (TwoRowsRead w) :=
  inferInstanceAs (Decidable (_ ∧ _ ∧ (_ ∧ _ ∧ _) ∧ _ ∧ _ ∧ _))

theorem twoRows_history : ∃ w, History .shipped 0 (smallOptions 1) (twoRowCalls.map fun call => (call, true)) w ∧
    TwoRowsRead w :=
  @History.exists_of_replay _ _ _ twoRowCalls _ TwoRowsRead _ (by decide +kernel)

/-- Two rows of one key: the lookup of the second returns its value, which its
block holds. -/
theorem lookups_designate_sample : ∃ w v b rows shards count, ServesFiles w v b rows shards count ∧
    RowRangesFit .shipped rows shards count [2] 6 [1] ∧ Runs (getRowStruct .shipped 1 [2] 6 [1]) w [8] w ∧
    (Yields system (getStruct .shipped [2] [1]) w fun value => ∃ i < natAt b 16 8, (bucketAt b i).hash ≠ 0 ∧
      RecordHolds v (bucketAt b i).recordOffset [2] [1] value) ∧
    ∃ i j, RowHolds rows shards count [2] 6 [1] [8] i j := by
  obtain ⟨w, history, one, buckets, ⟨small, answered, everywhere⟩, _⟩ := twoRows_history
  obtain ⟨s, active, _⟩ := history.active
  obtain ⟨b, rows, present, serves⟩ := active.servesFiles small
  rw [present, Option.getD_some] at buckets everywhere
  have fit : RowRangesFit .shipped rows (Function.update (shardBytes s.live) 0 ((w.disk (.rowShard 0)).getD []))
      w.members.options.rowShardCount [2] 6 [1] := by
    intro i inside filled shard block j stops
    rw [buckets] at inside
    have first : (rowBucketAt rows i).shardId = 0 := by omega
    rw [first, Function.update_self] at stops ⊢
    obtain ⟨sixteen, ranges⟩ := everywhere i inside filled
    exact ranges j (sixteen ▸ stops.inside)
  obtain ⟨objects, lookup⟩ := lookups_designate serves .shipped [2] 6 [1] 0
  have runs : Runs (getRowStruct .shipped 1 [2] 6 [1])
      (w.setFile (.rowShard 0) (some ((w.disk (.rowShard 0)).getD []))) [8]
      (w.setFile (.rowShard 0) (some ((w.disk (.rowShard 0)).getD []))) := by
    rcases lookup with ⟨value, ran, _⟩ | ⟨e, fails⟩
    · rw [ran] at answered
      cases answered
      exact ran
    · rw [fails] at answered
      cases answered
  exact ⟨_, _, b, rows, _, _, serves, fit, runs, objects, lookup.value runs fit⟩

/-- The header check accepts sizes that wrap, and the lookup of row 6 returns
the value of row 5. -/
theorem lookup_returns_other_row : ∃ w v b rows shards count, ServesFiles w v b rows shards count ∧
    Runs (getRowStruct .shipped 1 [2] 6 [1]) w [9] w ∧
    ¬ ∃ i j, RowHolds rows shards count [2] 6 [1] [9] i j := by
  obtain ⟨w, history, one, buckets, _, small, answered, nowhere⟩ := twoRows_history
  obtain ⟨s, active, _⟩ := history.active
  obtain ⟨b, rows, present, serves⟩ := active.servesFiles small
  rw [present, Option.getD_some] at buckets nowhere
  have runs : Runs (getRowStruct .shipped 1 [2] 6 [1]) (w.setFile (.rowShard 0) (some (movedRange w))) [9]
      (w.setFile (.rowShard 0) (some (movedRange w))) := by
    obtain ⟨_, rowFile, settled⟩ :=
      (hasValidRowIndexLayout_inv serves.rowIndex serves.rowSmall serves.rowValid).2.1.mp rfl
    rcases @getRowStruct_yields .shipped _ _ _ _ _ _ _ serves.shards rowFile settled serves.rowIndex [2] 6 [1] 0 with
      ⟨value, ran, _⟩ | ⟨e, fails⟩
    · rw [ran] at answered
      cases answered
      exact ran
    · rw [fails] at answered
      cases answered
  refine ⟨_, _, b, rows, _, _, serves, runs, ?_⟩
  rintro ⟨i, j, inside, filled, shard, block, below, keyFilled, keySize, designates⟩
  rw [buckets] at inside
  have first : (rowBucketAt rows i).shardId = 0 := by omega
  rw [first, Function.update_self] at block below keyFilled designates
  rcases nowhere i inside with other | ⟨sixteen, elsewhere⟩
  · exact other block.rowId
  · rw [sixteen] at below
    rcases elsewhere j below with empty | apart
    · exact empty keyFilled
    · exact apart designates.value

end Moved

end LumoDB
