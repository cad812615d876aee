import LumoDB.Open
import LumoDB.RowReads

namespace LumoDB
open ByteCodec Effects LinearProbing

section Bytes

def rowBucketAt (b : Bytes) (index : Nat) : RowIndexBucket :=
  RowIndexBucket.decode (slice b (rowBucketOffset index) 64)

/-- The fields of a bucket as they are stored one by one. -/
def RowIndexBucket.fields (bucket : RowIndexBucket) : Bytes :=
  leBytes 4 bucket.state ++ (leBytes 4 bucket.shardId ++ (leBytes 8 bucket.columnHash ++ (leBytes 8 bucket.rowId ++
    (leBytes 8 bucket.blockOffset ++ (leBytes 8 bucket.blockSize ++ leBytes 8 bucket.sequence)))))

/-- Every field of the bucket fits its width. -/
structure RowIndexBucket.Fits (bucket : RowIndexBucket) : Prop where
  state : bucket.state < 2 ^ 32
  shardId : bucket.shardId < 2 ^ 32
  columnHash : bucket.columnHash < 2 ^ 64
  rowId : bucket.rowId < 2 ^ 64
  blockOffset : bucket.blockOffset < 2 ^ 64
  blockSize : bucket.blockSize < 2 ^ 64
  sequence : bucket.sequence < 2 ^ 64

/-- The bytes of a row index that its layout check takes for `n` buckets and
`items` counted rows, the states of the buckets apart. -/
structure RowIndexFile (b : Bytes) (n items shardCount : Nat) : Prop where
  length : b.length = 64 + 64 * n
  magic : slice b 0 8 = kRowIndexFileMagic
  version : natAt b 8 4 = kStorageVersion
  headerSize : natAt b 12 4 = 64
  bucketCount : natAt b 16 8 = n
  itemCount : natAt b 24 8 = items
  shards : natAt b 40 4 = shardCount
  power : ∃ e, n = 2 ^ e
  small : 64 + 64 * n < 2 ^ 63

def rowSequence (b : Bytes) : Nat := natAt b 32 8

def setRowSequence (b : Bytes) (sequence : Nat) : Bytes := patch b 32 (leBytes 8 sequence)

def emptyRowIndex (n shardCount : Nat) : Bytes :=
  { bucketCount := n, shardCount := shardCount : RowIndexFileHeader }.encode ++ List.replicate (64 * n) 0

variable {b b' : Bytes} {n items shardCount index : Nat} {bucket : RowIndexBucket}

theorem RowIndexFile.positive (file : RowIndexFile b n items shardCount) : 0 < n := by
  obtain ⟨e, rfl⟩ := file.power
  exact Nat.two_pow_pos e

theorem RowIndexFile.count_lt (file : RowIndexFile b n items shardCount) : n < 2 ^ 57 := by
  have small := file.small
  omega

theorem RowIndexFile.bucket_inside (file : RowIndexFile b n items shardCount) (inside : index < n) :
    rowBucketOffset index + 64 ≤ b.length := by
  rw [file.length, rowBucketOffset]
  omega

theorem RowIndexFile.probe (file : RowIndexFile b n items shardCount) (hash probe : Nat) :
    u64 ((hash &&& (n - 1)) + probe) &&& (n - 1) = probeSlot n hash probe := by
  obtain ⟨e, power⟩ := file.power
  exact probe_index power (file.count_lt.trans (by decide)) hash probe

@[simp] theorem RowIndexBucket.fields_length (bucket : RowIndexBucket) : bucket.fields.length = 48 := by
  simp [fields]

theorem RowIndexBucket.encode_eq (bucket : RowIndexBucket) :
    bucket.encode = bucket.fields ++ List.replicate 16 0 := by
  simp [encode, fields]

theorem rowBucketAt_eq : rowBucketAt b index =
    ⟨natAt b (rowBucketOffset index) 4, natAt b (rowBucketOffset index + 4) 4, natAt b (rowBucketOffset index + 8) 8,
      natAt b (rowBucketOffset index + 16) 8, natAt b (rowBucketOffset index + 24) 8,
      natAt b (rowBucketOffset index + 32) 8, natAt b (rowBucketOffset index + 40) 8⟩ := by
  unfold rowBucketAt RowIndexBucket.decode
  rw [natAt_slice (by omega), natAt_slice (by omega), natAt_slice (by omega), natAt_slice (by omega),
    natAt_slice (by omega), natAt_slice (by omega), natAt_slice (by omega), Nat.add_zero]

theorem rowBucketAt_fits (b : Bytes) (index : Nat) : (rowBucketAt b index).Fits := by
  rw [rowBucketAt_eq]
  exact ⟨natAt_lt _ _ 4, natAt_lt _ _ 4, natAt_lt _ _ 8, natAt_lt _ _ 8, natAt_lt _ _ 8, natAt_lt _ _ 8,
    natAt_lt _ _ 8⟩

theorem RowIndexBucket.decode_fields (fits : bucket.Fits) (rest : Bytes) :
    decode (bucket.fields ++ rest) = bucket := by
  have state := Nat.mod_eq_of_lt (show bucket.state < 256 ^ 4 from fits.state)
  have shardId := Nat.mod_eq_of_lt (show bucket.shardId < 256 ^ 4 from fits.shardId)
  have columnHash := Nat.mod_eq_of_lt (show bucket.columnHash < 256 ^ 8 from fits.columnHash)
  have rowId := Nat.mod_eq_of_lt (show bucket.rowId < 256 ^ 8 from fits.rowId)
  have blockOffset := Nat.mod_eq_of_lt (show bucket.blockOffset < 256 ^ 8 from fits.blockOffset)
  have blockSize := Nat.mod_eq_of_lt (show bucket.blockSize < 256 ^ 8 from fits.blockSize)
  have sequence := Nat.mod_eq_of_lt (show bucket.sequence < 256 ^ 8 from fits.sequence)
  have decoded : decode (bucket.fields ++ rest) =
      ⟨bucket.state % 256 ^ 4, bucket.shardId % 256 ^ 4, bucket.columnHash % 256 ^ 8, bucket.rowId % 256 ^ 8,
        bucket.blockOffset % 256 ^ 8, bucket.blockSize % 256 ^ 8, bucket.sequence % 256 ^ 8⟩ := by
    simp [decode, fields, natAt_append_right]
  rw [decoded, state, shardId, columnHash, rowId, blockOffset, blockSize, sequence]

/-- `b'` is `b` with bucket `index` replaced. -/
structure RowBucketSet (b : Bytes) (index : Nat) (bucket : RowIndexBucket) (b' : Bytes) : Prop where
  length : b'.length = b.length
  header : ∀ offset size, offset + size ≤ 64 → slice b' offset size = slice b offset size
  here : rowBucketAt b' index = bucket
  others : ∀ other, other ≠ index → rowBucketOffset other + 64 ≤ b.length →
    rowBucketAt b' other = rowBucketAt b other

theorem rowBucketAt_patch_of_apart {data : Bytes} {start : Nat}
    (apart : rowBucketOffset index + 64 ≤ start ∧ rowBucketOffset index + 64 ≤ b.length ∨
      start + data.length ≤ rowBucketOffset index) : rowBucketAt (patch b start data) index = rowBucketAt b index := by
  unfold rowBucketAt
  rcases apart with ⟨before, inside⟩ | after
  · rw [slice_patch_before before inside]
  · rw [slice_patch_after after]

theorem rowBucketSet_patch {rest : Bytes} (fits : bucket.Fits) (short : rest.length ≤ 16)
    (inside : rowBucketOffset index + 64 ≤ b.length) :
    RowBucketSet b index bucket (patch b (rowBucketOffset index) (bucket.fields ++ rest)) := by
  have size : (bucket.fields ++ rest).length = 48 + rest.length := by
    rw [List.length_append, RowIndexBucket.fields_length]
  refine ⟨patch_length_of_le (by omega), fun offset size within => ?_, ?_, fun other ne within => ?_⟩
  · exact slice_patch_before (by unfold rowBucketOffset; omega) (by unfold rowBucketOffset at inside; omega)
  · have decoded := RowIndexBucket.decode_fields fits rest
    have state : natAt (patch b (rowBucketOffset index) (bucket.fields ++ rest)) (rowBucketOffset index) 4 =
        natAt (bucket.fields ++ rest) 0 4 := natAt_patch_inner (i := 0) (by omega)
    rw [rowBucketAt_eq, state, natAt_patch_inner (by omega), natAt_patch_inner (by omega),
      natAt_patch_inner (by omega), natAt_patch_inner (by omega), natAt_patch_inner (by omega),
      natAt_patch_inner (by omega)]
    exact decoded
  · apply rowBucketAt_patch_of_apart
    unfold rowBucketOffset at *
    omega

theorem RowIndexFile.of_header (file : RowIndexFile b n items shardCount) (length : b'.length = b.length)
    (same : ∀ offset size, offset + size ≤ 64 → slice b' offset size = slice b offset size) :
    RowIndexFile b' n items shardCount where
  length := length.trans file.length
  magic := by rw [same 0 8 (by omega), file.magic]
  version := by rw [natAt, same 8 4 (by omega)]; exact file.version
  headerSize := by rw [natAt, same 12 4 (by omega)]; exact file.headerSize
  bucketCount := by rw [natAt, same 16 8 (by omega)]; exact file.bucketCount
  itemCount := by rw [natAt, same 24 8 (by omega)]; exact file.itemCount
  shards := by rw [natAt, same 40 4 (by omega)]; exact file.shards
  power := file.power
  small := file.small

theorem RowIndexFile.bucketSet (file : RowIndexFile b n items shardCount) (set : RowBucketSet b index bucket b') :
    RowIndexFile b' n items shardCount := file.of_header set.length set.header

theorem RowBucketSet.sequence (set : RowBucketSet b index bucket b') : rowSequence b' = rowSequence b := by
  rw [rowSequence, natAt, set.header 32 8 (by omega)]
  rfl

theorem RowIndexFile.addItem (file : RowIndexFile b n items shardCount) (bound : items + 1 < 2 ^ 64) :
    RowIndexFile (addItem b) n (items + 1) shardCount := by
  have length := file.length
  have width : (leBytes 8 (natAt b 24 8 + 1)).length = 8 := leBytes_length _ _
  unfold LumoDB.addItem
  refine ⟨(patch_length_of_le (by omega)).trans length, ?_, ?_, ?_, ?_, ?_, ?_, file.power, file.small⟩
  · rw [slice_patch_before (by omega) (by omega), file.magic]
  · rw [natAt_patch_disjoint (by omega), file.version]
  · rw [natAt_patch_disjoint (by omega), file.headerSize]
  · rw [natAt_patch_disjoint (by omega), file.bucketCount]
  · rw [natAt_patch_leBytes, file.itemCount]
    exact Nat.mod_eq_of_lt bound
  · rw [natAt_patch_disjoint (by omega), file.shards]

theorem RowIndexFile.setSequence (file : RowIndexFile b n items shardCount) (sequence : Nat) :
    RowIndexFile (setRowSequence b sequence) n items shardCount := by
  have length := file.length
  have width : (leBytes 8 sequence).length = 8 := leBytes_length _ _
  unfold setRowSequence
  refine ⟨(patch_length_of_le (by omega)).trans length, ?_, ?_, ?_, ?_, ?_, ?_, file.power, file.small⟩
  · rw [slice_patch_before (by omega) (by omega), file.magic]
  · rw [natAt_patch_disjoint (by omega), file.version]
  · rw [natAt_patch_disjoint (by omega), file.headerSize]
  · rw [natAt_patch_disjoint (by omega), file.bucketCount]
  · rw [natAt_patch_disjoint (by omega), file.itemCount]
  · rw [natAt_patch_disjoint (by omega), file.shards]

theorem rowBucketAt_addItem (b : Bytes) (index : Nat) : rowBucketAt (addItem b) index = rowBucketAt b index := by
  apply rowBucketAt_patch_of_apart
  right
  rw [leBytes_length]
  unfold rowBucketOffset
  omega

theorem rowBucketAt_setSequence (b : Bytes) (sequence index : Nat) :
    rowBucketAt (setRowSequence b sequence) index = rowBucketAt b index := by
  apply rowBucketAt_patch_of_apart
  right
  rw [leBytes_length]
  unfold rowBucketOffset
  omega

theorem rowSequence_setSequence (b : Bytes) (sequence : Nat) :
    rowSequence (setRowSequence b sequence) = u64 sequence := by
  rw [rowSequence, setRowSequence, natAt_patch_leBytes]
  rfl

theorem rowSequence_addItem (b : Bytes) : rowSequence (addItem b) = rowSequence b := by
  rw [rowSequence, addItem, natAt_patch_disjoint (by rw [leBytes_length]; omega)]
  rfl

theorem rowSequence_lt (b : Bytes) : rowSequence b < 2 ^ 64 := natAt_lt b 32 8

theorem emptyRowIndex_length (n shardCount : Nat) : (emptyRowIndex n shardCount).length = 64 + 64 * n := by
  rw [emptyRowIndex, List.length_append, RowIndexFileHeader.encode_length _ rfl, List.length_replicate]

theorem rowBucketAt_empty (n shardCount index : Nat) : (rowBucketAt (emptyRowIndex n shardCount) index).state = 0 := by
  have header : ({ bucketCount := n, shardCount := shardCount : RowIndexFileHeader }.encode).length = 64 :=
    RowIndexFileHeader.encode_length _ rfl
  rw [rowBucketAt_eq, emptyRowIndex]
  simp only
  rw [natAt_append_right (by rw [header, rowBucketOffset]; omega), natAt_replicate_zero]

theorem emptyRowIndex_file {e : Nat} (power : n = 2 ^ e) (small : 64 + 64 * n < 2 ^ 63)
    (shards : shardCount < 2 ^ 32) : RowIndexFile (emptyRowIndex n shardCount) n 0 shardCount := by
  have header : ({ bucketCount := n, shardCount := shardCount : RowIndexFileHeader }.encode).length = 64 :=
    RowIndexFileHeader.encode_length _ rfl
  have fields := RowIndexFileHeader.decode_encode { bucketCount := n, shardCount := shardCount } rfl
  simp only [RowIndexFileHeader.decode, RowIndexFileHeader.mk.injEq] at fields
  obtain ⟨magic, version, headerSize, bucketCount, itemCount, _, shardsField⟩ := fields
  have count : n % 256 ^ 8 = n := Nat.mod_eq_of_lt (by omega)
  have shardsFit : shardCount % 256 ^ 4 = shardCount := Nat.mod_eq_of_lt (by omega)
  unfold emptyRowIndex
  refine ⟨emptyRowIndex_length n shardCount, ?_, ?_, ?_, ?_, ?_, ?_, ⟨e, power⟩, small⟩
  · rw [slice_append_left (by omega), magic]
  · rw [natAt_append_left (by omega), version]
    rfl
  · rw [natAt_append_left (by omega), headerSize]
    rfl
  · rw [natAt_append_left (by omega), bucketCount, count]
  · rw [natAt_append_left (by omega), itemCount]
    rfl
  · rw [natAt_append_left (by omega), shardsField, shardsFit]

end Bytes

section Loads
variable {w : World} {b : Bytes} {n items shardCount index : Nat}

theorem RowIndexFile.loadRowBucketCount (file : RowIndexFile b n items shardCount) (sees : w.Sees .rowIndex b) :
    Runs loadRowBucketCount w n w := by
  have run := @World.Sees.load_runs w .rowIndex b 16 8 sees (by rw [file.length]; omega)
  rwa [file.bucketCount] at run

theorem RowIndexFile.loadRowItemCount (file : RowIndexFile b n items shardCount) (sees : w.Sees .rowIndex b) :
    Runs loadRowItemCount w items w := by
  have run := @World.Sees.load_runs w .rowIndex b 24 8 sees (by rw [file.length]; omega)
  rwa [file.itemCount] at run

/-- A snapshot taken while nobody writes is the bucket. -/
theorem RowIndexFile.loadRowBucketSnapshot (file : RowIndexFile b n items shardCount) (sees : w.Sees .rowIndex b)
    (inside : index < n) :
    ((rowBucketAt b index).state = kRowBucketEmpty → Runs (loadRowBucketSnapshot index) w .empty w) ∧
    ((rowBucketAt b index).state = kRowBucketFilled →
      Runs (LumoDB.loadRowBucketSnapshot index) w (.filled (rowBucketAt b index)) w) := by
  have within := file.bucket_inside inside
  have field : ∀ i width, i + width ≤ 64 → Runs (load .rowIndex (rowBucketOffset index + i) width) w
      (natAt b (rowBucketOffset index + i) width) w :=
    fun i width fits => sees.load_runs (by omega)
  have state := field 0 4 (by omega)
  rw [Nat.add_zero] at state
  have bucket := @rowBucketAt_eq b index
  have state_eq : (rowBucketAt b index).state = natAt b (rowBucketOffset index) 4 := by rw [bucket]
  unfold Runs LumoDB.loadRowBucketSnapshot
  simp only [Prog.bind_eq]
  rw [state.bind, state_eq]
  constructor
  · intro empty
    rw [if_pos empty]
    rfl
  · intro full
    rw [full, if_neg (by decide), if_neg (by decide), if_neg (by decide), (field 4 4 (by omega)).bind,
      (field 8 8 (by omega)).bind, (field 16 8 (by omega)).bind, (field 24 8 (by omega)).bind,
      (field 32 8 (by omega)).bind, (field 40 8 (by omega)).bind, state.bind, if_neg (not_not.mpr full), bucket, full]
    rfl

end Loads

section Calls
variable (w : World) {b : Bytes} {n items shardCount index : Nat}

theorem loadRowBucketCount_runs (file : RowIndexFile b n items shardCount) :
    Runs loadRowBucketCount (w.withMapped .rowIndex b) n (w.withMapped .rowIndex b) :=
  file.loadRowBucketCount (w.sees_withMapped .rowIndex b)

theorem loadRowItemCount_runs (file : RowIndexFile b n items shardCount) :
    Runs loadRowItemCount (w.withMapped .rowIndex b) items (w.withMapped .rowIndex b) :=
  file.loadRowItemCount (w.sees_withMapped .rowIndex b)

theorem incrementRowItemCount_runs (file : RowIndexFile b n items shardCount) :
    Runs incrementRowItemCount (w.withMapped .rowIndex b) () (w.withMapped .rowIndex (addItem b)) := by
  have added := @fetchAdd_runs w .rowIndex b 24 8 1 (by rw [file.length]; omega)
  unfold Runs incrementRowItemCount
  rw [Prog.bind_eq, Runs.bind added]
  rfl

theorem countIf_runs (file : RowIndexFile b n items shardCount) (inserted : Bool) :
    Runs (countIf inserted) (w.withMapped .rowIndex b) ()
      (w.withMapped .rowIndex (if inserted then addItem b else b)) := by
  cases inserted
  · rfl
  · exact incrementRowItemCount_runs w file

theorem addRowItem_runs (file : RowIndexFile b n items shardCount) :
    Runs addRowItem (w.withMapped .rowIndex b) () (w.withMapped .rowIndex (addItem b)) := by
  rw [addRowItem, Prog.bind_eq, Runs, (loadRowItemCount_runs w file).bind, addItem, file.itemCount]
  exact store_runs w (items + 1) (by rw [file.length]; omega)

theorem addRowItemUnless_runs (file : RowIndexFile b n items shardCount) (found : Bool) :
    Runs (addRowItemUnless found) (w.withMapped .rowIndex b) ()
      (w.withMapped .rowIndex (if found then b else addItem b)) := by
  cases found
  · exact addRowItem_runs w file
  · rfl

theorem nextRowSequence_runs (file : RowIndexFile b n items shardCount) :
    Runs nextRowSequence (w.withMapped .rowIndex b) (rowSequence b)
      (w.withMapped .rowIndex (setRowSequence b (rowSequence b + 1))) :=
  fetchAdd_runs w 1 (by rw [file.length]; omega)

theorem loadRowBucket_runs (file : RowIndexFile b n items shardCount) (inside : index < n) :
    Runs (loadRowBucket index) (w.withMapped .rowIndex b) (rowBucketAt b index) (w.withMapped .rowIndex b) := by
  rw [loadRowBucket, Prog.bind_eq, Runs, (loadBytes_runs w (file.bucket_inside inside)).bind]
  rfl

theorem storeRowBucket_runs {bucket : RowIndexBucket} (file : RowIndexFile b n items shardCount) (inside : index < n)
    (fits : bucket.Fits) :
    ∃ b', Runs (storeRowBucket index bucket) (w.withMapped .rowIndex b) () (w.withMapped .rowIndex b') ∧
      RowBucketSet b index bucket b' := by
  have within := file.bucket_inside inside
  have stored := @storeBytes_runs w .rowIndex b (rowBucketOffset index) bucket.encode
    (by rw [RowIndexBucket.encode_length]; exact within)
  refine ⟨_, stored, ?_⟩
  rw [RowIndexBucket.encode_eq]
  exact rowBucketSet_patch fits (by rw [List.length_replicate]) within

theorem loadRowBucketSnapshot_runs (file : RowIndexFile b n items shardCount) (inside : index < n) :
    ((rowBucketAt b index).state = kRowBucketEmpty →
      Runs (loadRowBucketSnapshot index) (w.withMapped .rowIndex b) .empty (w.withMapped .rowIndex b)) ∧
    ((rowBucketAt b index).state = kRowBucketFilled →
      Runs (loadRowBucketSnapshot index) (w.withMapped .rowIndex b) (.filled (rowBucketAt b index))
        (w.withMapped .rowIndex b)) :=
  file.loadRowBucketSnapshot (w.sees_withMapped .rowIndex b) inside

/-- Claiming a bucket, storing its data and publishing it replaces the
bucket. -/
theorem publishRowBucket_runs (data : RowBucketData) {expected : Nat} (file : RowIndexFile b n items shardCount)
    (inside : index < n) (held : (rowBucketAt b index).state = expected) {bucket : RowIndexBucket}
    (bucket_eq : bucket = ⟨kRowBucketFilled, data.shardId, data.columnHash, data.rowId, data.blockOffset,
      data.blockSize, data.sequence⟩) (fits : bucket.Fits) :
    ∃ b₁ b', Runs (casRowBucketState index expected kRowBucketWriting) (w.withMapped .rowIndex b) true
        (w.withMapped .rowIndex b₁) ∧
      run system ((storeRowBucketData index data).bind fun _ => storeRowBucketState index kRowBucketFilled)
          (w.withMapped .rowIndex b₁) = .ok () (w.withMapped .rowIndex b') ∧
      RowBucketSet b index bucket b' := by
  have within := file.bucket_inside inside
  have state_eq : (rowBucketAt b index).state = natAt b (rowBucketOffset index) 4 := by rw [rowBucketAt_eq]
  have claimed := @cas_runs w .rowIndex b (rowBucketOffset index) 4 _ kRowBucketWriting (by omega)
    (state_eq.symm.trans held)
  set off := rowBucketOffset index with off_eq
  refine ⟨patch b off (leBytes 4 kRowBucketWriting),
    patch b off (bucket.fields ++ []), claimed, ?_, rowBucketSet_patch fits (Nat.zero_le _) within⟩
  have step : ∀ (data : Bytes) (width value : Nat), data.length + width ≤ 64 →
      Runs (store .rowIndex (off + data.length) width value) (w.withMapped .rowIndex (patch b off data)) ()
        (w.withMapped .rowIndex (patch b off (data ++ leBytes width value))) := by
    intro data width value room
    have length : (patch b off data).length = b.length := patch_length_of_le (by omega)
    have stored := @store_runs w .rowIndex (patch b off data) (off + data.length) width value (by omega)
    rwa [patch_adjacent] at stored
  have shardId := step (leBytes 4 kRowBucketWriting) 4 data.shardId (by simp)
  have columnHash := step (leBytes 4 kRowBucketWriting ++ leBytes 4 data.shardId) 8 data.columnHash (by simp)
  have rowId := step (leBytes 4 kRowBucketWriting ++ leBytes 4 data.shardId ++ leBytes 8 data.columnHash) 8 data.rowId
    (by simp)
  have blockOffset := step (leBytes 4 kRowBucketWriting ++ leBytes 4 data.shardId ++ leBytes 8 data.columnHash ++
    leBytes 8 data.rowId) 8 data.blockOffset (by simp)
  have blockSize := step (leBytes 4 kRowBucketWriting ++ leBytes 4 data.shardId ++ leBytes 8 data.columnHash ++
    leBytes 8 data.rowId ++ leBytes 8 data.blockOffset) 8 data.blockSize (by simp)
  have sequence := step (leBytes 4 kRowBucketWriting ++ leBytes 4 data.shardId ++ leBytes 8 data.columnHash ++
    leBytes 8 data.rowId ++ leBytes 8 data.blockOffset ++ leBytes 8 data.blockSize) 8 data.sequence (by simp)
  simp only [List.length_append, leBytes_length, Nat.reduceAdd] at shardId columnHash rowId blockOffset blockSize sequence
  simp only [storeRowBucketData, Prog.bind_eq, Prog.bind_assoc]
  rw [shardId.bind, columnHash.bind, rowId.bind, blockOffset.bind, blockSize.bind, sequence.bind]
  simp only [List.append_assoc]
  have whole := @store_runs w .rowIndex (patch b off (leBytes 4 kRowBucketWriting ++
      (leBytes 4 data.shardId ++ (leBytes 8 data.columnHash ++ (leBytes 8 data.rowId ++ (leBytes 8 data.blockOffset ++
        (leBytes 8 data.blockSize ++ leBytes 8 data.sequence))))))) off 4 kRowBucketFilled
          (by rw [patch_length_of_le (by simp; omega)]; omega)
  rw [patch_front (by simp)] at whole
  rw [List.append_nil, bucket_eq]
  exact whole

end Calls

end LumoDB
