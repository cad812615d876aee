import LumoDB.DecodeSafety
import LumoDB.RowRebuild
import LumoDB.ValueScan

namespace LumoDB
open ByteCodec Effects LinearProbing LinearScan

section Blocks
variable {shard column : Bytes} {offset : Nat} {h : RowBlockHeader}

def blockHeaderAt (shard : Bytes) (offset : Nat) : RowBlockHeader := RowBlockHeader.decode (slice shard offset 72)

/-- The header at `offset` passes the two checks that the scan makes of it. -/
def PassesChecks (shard : Bytes) (offset : Nat) : Prop :=
  offset + 72 ≤ shard.length ∧ isValidRowBlockHeader (blockHeaderAt shard offset) = true ∧
    (blockHeaderAt shard offset).blockSize ≤ shard.length - offset

instance : Decidable (PassesChecks shard offset) := inferInstanceAs (Decidable (_ ∧ _))

/-- The header and the column of the block that the scan takes at `offset`. An
empty column is read wherever it is. -/
def acceptedBlock (shard : Bytes) (offset : Nat) : Option (RowBlockHeader × Bytes) :=
  let h := blockHeaderAt shard offset
  if PassesChecks shard offset ∧
      (h.columnSize = 0 ∨ offset + (72 + h.bucketCount * 48) + h.columnSize ≤ shard.length) then
    some (h, slice shard (offset + (72 + h.bucketCount * 48)) h.columnSize)
  else none

def blockStep (shard : Bytes) (offset : Nat) : Option Nat := (acceptedBlock shard offset).map fun r => r.1.blockSize

theorem blockHeaderAt_bounds (shard : Bytes) (offset : Nat) : (blockHeaderAt shard offset).bucketCount < 2 ^ 32 ∧
    (blockHeaderAt shard offset).columnSize < 2 ^ 32 ∧ (blockHeaderAt shard offset).columnHash < 2 ^ 64 ∧
    (blockHeaderAt shard offset).rowId < 2 ^ 64 ∧ (blockHeaderAt shard offset).sequence < 2 ^ 64 ∧
    (blockHeaderAt shard offset).blockSize < 2 ^ 64 :=
  ⟨natAt_lt _ _ 4, natAt_lt _ _ 4, natAt_lt _ _ 8, natAt_lt _ _ 8, natAt_lt _ _ 8, natAt_lt _ _ 8⟩

/-- What is known of a block that the scan takes. -/
structure TakenBlock (shard : Bytes) (offset : Nat) (h : RowBlockHeader) (column : Bytes) : Prop where
  header : blockHeaderAt shard offset = h
  checks : PassesChecks shard offset
  column : slice shard (offset + (72 + h.bucketCount * 48)) h.columnSize = column
  room : h.columnSize = 0 ∨ offset + (72 + h.bucketCount * 48) + h.columnSize ≤ shard.length

theorem acceptedBlock_some : acceptedBlock shard offset = some (h, column) ↔ TakenBlock shard offset h column := by
  unfold acceptedBlock
  simp only
  constructor
  · intro accepted
    split at accepted
    · rename_i conditions
      simp only [Option.some.injEq, Prod.mk.injEq] at accepted
      obtain ⟨rfl, rfl⟩ := accepted
      exact ⟨rfl, conditions.1, rfl, conditions.2⟩
    · cases accepted
  · rintro ⟨rfl, checks, rfl, room⟩
    rw [if_pos ⟨checks, room⟩]

theorem TakenBlock.columnLength (accepted : TakenBlock shard offset h column) : column.length = h.columnSize := by
  rw [← accepted.column]
  rcases accepted.room with zero | inside
  · rw [zero, slice_zero, List.length_nil]
  · exact slice_length_of_le inside

theorem blockStep_some {n : Nat} :
    blockStep shard offset = some n ↔ ∃ h column, TakenBlock shard offset h column ∧ h.blockSize = n := by
  simp [blockStep, acceptedBlock_some]

theorem contained_blockStep (shard : Bytes) : LinearScan.Contained shard.length (blockStep shard) := by
  intro offset n below item
  obtain ⟨h, column, accepted, rfl⟩ := blockStep_some.mp item
  have room := accepted.checks.2.2
  rw [accepted.header] at room
  omega

/-- A valid block whose size has not wrapped is as large as its parts. -/
theorem isValidRowBlockHeader_large (valid : isValidRowBlockHeader h = true) (fits : sizeSum h < 2 ^ 64) :
    h.blockSize = sizeSum h ∧ 120 ≤ h.blockSize := by
  have size := isValidRowBlockHeader_size valid
  rw [u64_of_lt fits] at size
  have buckets : h.bucketCount ≠ 0 := by
    rintro none
    simp [isValidRowBlockHeader, none] at valid
  refine ⟨size, ?_⟩
  rw [size]
  unfold sizeSum
  omega

end Blocks

section Tags
variable {H : HashFunctions} {h h' : RowBlockHeader} {column column' : Bytes}

/-- The scan takes the hash of a column from the header of its block. The keys
of its table are columns tagged with that hash, which these functions read
back. -/
def HashFunctions.tagged (H : HashFunctions) : HashFunctions where
  hashString tagged := leNat (tagged.take 8)
  mixHashes := H.mixHashes
  hashString_lt tagged := by
    refine (leNat_lt _).trans_le ?_
    calc 256 ^ (tagged.take 8).length ≤ 256 ^ 8 := Nat.pow_le_pow_right (by decide) (List.length_take_le _ _)
      _ = 2 ^ 64 := by decide
  mixHashes_lt := H.mixHashes_lt

def taggedKey (h : RowBlockHeader) (column : Bytes) : RowKey := (leBytes 8 h.columnHash ++ column, h.rowId)

theorem tagged_hashString (bound : h.columnHash < 2 ^ 64) : H.tagged.hashString (taggedKey h column).1 = h.columnHash := by
  have front : (leBytes 8 h.columnHash ++ column).take 8 = leBytes 8 h.columnHash :=
    List.take_left' (leBytes_length 8 _)
  simp only [HashFunctions.tagged, taggedKey, front]
  exact leNat_leBytes_of_lt bound

theorem taggedKey_inj (hash : h.columnHash = h'.columnHash) (rowId : h.rowId = h'.rowId) :
    taggedKey h column = taggedKey h' column' ↔ column = column' := by
  simp only [taggedKey, hash, rowId, Prod.mk.injEq, and_true, List.append_cancel_left_eq]

theorem placeRowBuckets_tagged (H : HashFunctions) (buckets : List RowIndexBucket) :
    placeRowBuckets H.tagged buckets = placeRowBuckets H buckets := by
  induction buckets with
  | nil => rfl
  | cons bucket later ih =>
    rw [placeRowBuckets, placeRowBuckets, ih]
    rfl

theorem ensureRowCapacityForInsert_tagged (H : HashFunctions) :
    ensureRowCapacityForInsert H.tagged = ensureRowCapacityForInsert H := by
  unfold ensureRowCapacityForInsert resizeRowIndex
  simp only [placeRowBuckets_tagged]

theorem findRowBucket_tagged (H : HashFunctions) (column : Bytes) (rowId columnHash retries : Nat) :
    findRowBucket H.tagged column rowId columnHash retries = findRowBucket H column rowId columnHash retries := by
  have loop : ∀ bucketCount, findRowLoop H.tagged column rowId columnHash bucketCount retries =
      findRowLoop H column rowId columnHash bucketCount retries := by
    intro bucketCount
    induction retries with
    | zero => rfl
    | succ retries ih =>
      rw [findRowLoop, findRowLoop, ih]
      rfl
  unfold findRowBucket
  simp only [loop]

end Tags

section Reads
variable {w : World} {shards : Nat → Bytes} {count i offset : Nat} {h : RowBlockHeader} {column : Bytes}

/-- The shard files of a rebuild: they are read through their descriptors. -/
structure ReadsUnmapped (w : World) (shards : Nat → Bytes) (count : Nat) : Prop extends ReadsShards w shards count where
  unmapped : ∀ i < count, w.members.maps (.rowShard i) = none

theorem ReadsUnmapped.withRowIndex (reads : ReadsUnmapped w shards count) (b : Bytes) :
    ReadsUnmapped (w.withMapped .rowIndex b) shards count where
  toReadsShards := reads.toReadsShards.withRowIndex b
  unmapped i inside := by
    rw [World.withMapped_maps_ne w b (by simp)]
    exact reads.unmapped i inside

theorem readRowValueAt_eq (reads : ReadsUnmapped w shards count) (inside : i < count) (offset size : Nat) :
    run system (readRowValueAt i offset size) w = run system (readAllAt (.rowShard i) offset size) w := by
  have members := reads.shardCount
  rw [readRowValueAt, Prog.bind_eq, (getMembers_runs w).bind, if_neg (by omega), reads.unmapped i inside]

theorem TakenBlock.readRowBlockColumn (taken : TakenBlock (shards i) offset h column) (reads : ReadsUnmapped w shards count)
    (inside : i < count) : Runs (readRowBlockColumn i offset h) w column w := by
  have small := reads.small i inside
  have bounds := blockHeaderAt_bounds (shards i) offset
  have front := taken.checks.1
  rw [taken.header] at bounds
  unfold LumoDB.readRowBlockColumn
  rw [Nat.add_assoc, u64_of_lt (by omega), Runs, ← taken.column]
  rcases taken.room with zero | room
  · rw [readRowValueAt_eq reads inside, zero, slice_zero]
    simp only [readAllAt, run, system, reads.content i inside]
    rfl
  · exact readRowValueAt_runs reads.toReadsShards inside room

theorem TakenBlock.readRowBlockHeader (taken : TakenBlock (shards i) offset h column) (reads : ReadsUnmapped w shards count)
    (inside : i < count) : Runs (readRowBlockHeader i offset) w h w := by
  have decoded := taken.header
  unfold blockHeaderAt at decoded
  unfold Runs LumoDB.readRowBlockHeader
  rw [Prog.bind_eq, (readRowValueAt_runs reads.toReadsShards inside taken.checks.1).bind, decoded]
  rfl

/-- What the scan does with a block once it has read its column. -/
def indexRowBlock (H : HashFunctions) (retries shardId offset : Nat) (h : RowBlockHeader) (column : Bytes) :
    Db RowBlockHeader := do
  ensureRowCapacityForInsert H
  let lookup ← findRowBucket H column h.rowId h.columnHash retries
  storeRowBucket lookup.index
    { state := kRowBucketFilled
      columnHash := h.columnHash
      rowId := h.rowId
      shardId := shardId
      blockOffset := offset
      blockSize := h.blockSize
      sequence := h.sequence }
  addRowItemUnless lookup.found
  return h

theorem rebuildRowBlock_of_checks {H : HashFunctions} (reads : ReadsUnmapped w shards count) (inside : i < count)
    (checks : PassesChecks (shards i) offset) (retries : Nat) :
    run system (rebuildRowBlock H retries i (shards i).length offset) w =
      run system ((readRowBlockColumn i offset (blockHeaderAt (shards i) offset)).bind
        (indexRowBlock H retries i offset (blockHeaderAt (shards i) offset))) w := by
  obtain ⟨front, valid, room⟩ := checks
  unfold blockHeaderAt at valid room
  unfold rebuildRowBlock blockHeaderAt
  rw [Prog.bind_eq, (readAllAt_runs (reads.content i inside) front (reads.small i inside)).bind]
  simp only
  rw [if_neg (not_not.mpr valid), if_neg (Nat.not_lt.mpr room)]
  rfl

/-- A block that is not taken ends the scan with an error. -/
theorem rebuildRowBlock_rejected {H : HashFunctions} (reads : ReadsUnmapped w shards count) (inside : i < count)
    (below : offset < (shards i).length) (rejected : acceptedBlock (shards i) offset = none) (retries : Nat) :
    ∃ status, run system (rebuildRowBlock H retries i (shards i).length offset) w = .error status w := by
  have small := reads.small i inside
  have content := reads.content i inside
  obtain ⟨buckets, columnSize, _⟩ := blockHeaderAt_bounds (shards i) offset
  by_cases checks : PassesChecks (shards i) offset
  · have front := checks.1
    unfold acceptedBlock at rejected
    simp only [checks, true_and] at rejected
    split at rejected
    · cases rejected
    rename_i outside
    rw [not_or] at outside
    rw [rebuildRowBlock_of_checks reads inside checks, readRowBlockColumn, Nat.add_assoc, u64_of_lt (by omega)]
    obtain ⟨status, failed⟩ := readAllAt_fails content (Nat.pos_of_ne_zero outside.1)
      (show offset + (72 + (blockHeaderAt (shards i) offset).bucketCount * 48) < 2 ^ 64 by omega) (by omega)
    exact ⟨status, run_bind_error _ ((readRowValueAt_eq reads inside _ _).trans failed) _⟩
  · unfold rebuildRowBlock
    rw [Prog.bind_eq]
    by_cases front : offset + 72 ≤ (shards i).length
    · rw [(readAllAt_runs content front small).bind]
      simp only
      by_cases valid : isValidRowBlockHeader (RowBlockHeader.decode (slice (shards i) offset 72)) = true
      · have large : (shards i).length - offset < (RowBlockHeader.decode (slice (shards i) offset 72)).blockSize :=
          Nat.not_le.mp fun room => checks ⟨front, valid, room⟩
        rw [if_neg (not_not.mpr valid), if_pos large]
        exact ⟨_, rfl⟩
      · rw [if_pos valid]
        exact ⟨_, rfl⟩
    · obtain ⟨status, failed⟩ := readAllAt_fails content (by decide) (by omega)
        (show (shards i).length < offset + 72 by omega)
      exact ⟨status, run_bind_error _ failed _⟩

end Reads

section Path
variable {shards : Nat → Bytes} {count i offset : Nat} {passed : List Nat} {h : RowBlockHeader} {column : Bytes}
  {k : RowKey}

abbrev BlockReaches (shard : Bytes) (passed : List Nat) (offset : Nat) : Prop :=
  LinearScan.Reaches 24 shard.length (blockStep shard) passed offset

/-- The path of the rebuild comes to `offset` of the shard `i`: every shard
before is scanned to its end. -/
structure ComesTo (shards : Nat → Bytes) (count i : Nat) (passed : List Nat) (offset : Nat) : Prop where
  shard : i < count
  before : ∀ j < i, ∃ passed, BlockReaches (shards j) passed (shards j).length
  reaches : BlockReaches (shards i) passed offset

theorem ComesTo.next (comes : ComesTo shards count i passed offset) (below : offset < (shards i).length)
    (taken : TakenBlock (shards i) offset h column) :
    ComesTo shards count i (passed ++ [offset]) (offset + h.blockSize) :=
  ⟨comes.shard, comes.before, comes.reaches.next below (blockStep_some.mpr ⟨h, column, taken, rfl⟩)⟩

/-- The rebuild takes a block of the tagged row `k`. -/
def MeetsBlock (shards : Nat → Bytes) (count : Nat) (k : RowKey) : Prop :=
  ∃ i passed offset h column, ComesTo shards count i passed offset ∧ offset < (shards i).length ∧
    TakenBlock (shards i) offset h column ∧ k = taggedKey h column

/-- The row index may grow to `2 ^ d` buckets, which take every row that the
rebuild meets and one more. -/
structure RowRoomy (w : World) (shards : Nat → Bytes) (count d : Nat) : Prop where
  load : LoadFactorOk w.members.options.maxLoadFactor
  room : ∀ ks : List RowKey, ks.Nodup → (∀ k ∈ ks, MeetsBlock shards count k) → RowGrowable w (ks.length + 1) d

/-- There are no more rows than places to find them at. -/
theorem rowRoomy_of_length {w : World} {d : Nat} (load : LoadFactorOk w.members.options.maxLoadFactor)
    (room : RowGrowable w (((List.range count).map fun i => (shards i).length).sum + 1) d) : RowRoomy w shards count d where
  load := load
  room ks nodup met := by
    have found : ks.map some ⊆ (List.range count).flatMap fun i =>
        (List.range (shards i).length).map fun o => (acceptedBlock (shards i) o).map fun r => taggedKey r.1 r.2 := by
      intro key member
      obtain ⟨k, given, rfl⟩ := List.mem_map.mp member
      obtain ⟨i, passed, offset, h, column, comes, below, taken, rfl⟩ := met k given
      refine List.mem_flatMap.mpr ⟨i, List.mem_range.mpr comes.shard, List.mem_map.mpr ⟨offset, List.mem_range.mpr below, ?_⟩⟩
      rw [acceptedBlock_some.mpr taken]
      rfl
    have few := ((nodup.map (Option.some_injective _)).subperm found).length_le
    simp only [List.length_map, List.length_flatMap, List.length_range] at few
    have fewer : ((ks.length + 1 : Nat) : ℚ) ≤ (((List.range count).map fun i => (shards i).length).sum + 1 : Nat) := by
      exact_mod_cast Nat.succ_le_succ few
    exact ⟨room.small, fewer.trans room.enough⟩

end Path

section Table
variable {H : HashFunctions} {w : World} {shards : Nat → Bytes} {b : Bytes} {count n i d offset : Nat} {passed : List Nat}
  {slot : Nat → Option RowKey} {ref : RowKey → BlockRef} {h : RowBlockHeader} {column : Bytes} {k : RowKey}

/-- The row index of a rebuild: every bucket points to a block that was taken. -/
structure BlocksIndexed (H : HashFunctions) (shards : Nat → Bytes) (b : Bytes) (count n : Nat) (slot : Nat → Option RowKey)
    (ref : RowKey → BlockRef) : Prop where
  table : RowTable H.tagged b n count slot ref
  named : ∀ k, Stored n slot k → ∃ h column, TakenBlock (shards (ref k).shardId) (ref k).blockOffset h column ∧
    (ref k).shardId < count ∧ h.blockSize = (ref k).blockSize ∧ k = taggedKey h column
  met : ∀ k, Stored n slot k → MeetsBlock shards count k

theorem BlocksIndexed.matches_exactly (indexed : BlocksIndexed H shards b count n slot ref) (reads : ReadsUnmapped w shards count)
    (bound : h.columnHash < 2 ^ 64) (column : Bytes) :
    MatchesExactly H.tagged w n slot ref column (taggedKey h column) fun _ => True := by
  intro j inside k at_j hashes rowIds
  obtain ⟨h', column', taken, shard, size, rfl⟩ := indexed.named k ⟨j, inside, at_j⟩
  have shape := blockHeaderAt_bounds (shards (ref (taggedKey h' column')).shardId) (ref (taggedKey h' column')).blockOffset
  have valid := taken.checks.2.1
  rw [taken.header] at shape valid
  obtain ⟨_, _, hashBound, _⟩ := shape
  rw [tagged_hashString hashBound, tagged_hashString bound] at hashes
  have matched := @rowBlockMatches_runs w shards count (rowBucket H.tagged (taggedKey h' column') (ref (taggedKey h' column')))
    h' column' reads.toReadsShards shard (taken.readRowBlockHeader reads shard) valid
    (tagged_hashString (H := H) hashBound).symm size
    (taken.readRowBlockColumn reads shard) taken.columnLength column
  have rowId : h'.rowId = h.rowId := rowIds
  refine ⟨h', ?_, fun _ => trivial⟩
  rw [rowId] at matched
  have same := @taggedKey_inj h' h column' column hashes rowId
  by_cases equal : column' = column
  · rw [if_pos equal] at matched
    rwa [if_pos (same.mpr equal)]
  · rw [if_neg equal] at matched
    rwa [if_neg fun key => equal (same.mp key)]

theorem rebuildRowBlock_taken (reads : ReadsUnmapped w shards w.members.options.rowShardCount)
    (roomy : RowRoomy w shards w.members.options.rowShardCount d)
    (indexed : BlocksIndexed H shards b w.members.options.rowShardCount n slot ref)
    (comes : ComesTo shards w.members.options.rowShardCount i passed offset) (below : offset < (shards i).length)
    (taken : TakenBlock (shards i) offset h column) (retries : Nat) :
    ∃ b' n' slot' ref', Runs (rebuildRowBlock H (retries + 1) i (shards i).length offset) (w.withMapped .rowIndex b) h
        (w.withMapped .rowIndex b') ∧ BlocksIndexed H shards b' w.members.options.rowShardCount n' slot' ref' := by
  have reads' := reads.withRowIndex b
  have shape := blockHeaderAt_bounds (shards i) offset
  rw [taken.header] at shape
  obtain ⟨_, _, hashBound, rowIdBound, sequenceBound, sizeBound⟩ := shape
  have small := reads.small i comes.shard
  have room := roomy.room (keys n slot) indexed.table.table.arranged.keys_nodup fun k member =>
    indexed.met k (mem_keys.mp member)
  rw [← filled_eq_length_keys] at room
  obtain ⟨b₁, n₁, slot₁, ensured, table₁, stored₁, count₁, vacant, _⟩ :=
    ensureRowCapacityForInsert_growable indexed.table roomy.load room
  rw [ensureRowCapacityForInsert_tagged] at ensured
  have indexed₁ : BlocksIndexed H shards b₁ w.members.options.rowShardCount n₁ slot₁ ref :=
    ⟨table₁, fun k stored => indexed.named k ((stored₁ k).mp stored), fun k stored => indexed.met k ((stored₁ k).mp stored)⟩
  have hash := @tagged_hashString H h column hashBound
  obtain ⟨j, inside, at_j⟩ := table₁.table.vacancy
  rcases table₁.entries.findRowBucket_of_matches (w.sees_withMapped .rowIndex b₁) (taggedKey h column)
      (indexed₁.matches_exactly (reads.withRowIndex b₁) hashBound column) retries with ⟨lookup, found, looked, _⟩ | ⟨_, whole⟩
  · rw [findRowBucket_tagged, hash] at found
    have fits : (rowBucket H.tagged (taggedKey h column) ⟨i, offset, h.blockSize, h.sequence⟩).Fits :=
      ⟨(by decide : 1 < 2 ^ 32), comes.shard.trans w.members.options.rowShardCount_lt, H.tagged.hashString_lt _, rowIdBound,
        (show offset < 2 ^ 64 by omega), sizeBound, sequenceBound⟩
    obtain ⟨b₂, stored, set⟩ := storeRowBucket_runs w table₁.toRowIndexFile looked.inside fits
    have counted := addRowItemUnless_runs w (table₁.toRowIndexFile.bucketSet set) lookup.found
    have bucket : rowBucket H.tagged (taggedKey h column) ⟨i, offset, h.blockSize, h.sequence⟩ =
        { state := kRowBucketFilled, columnHash := h.columnHash, rowId := h.rowId, shardId := i, blockOffset := offset,
          blockSize := h.blockSize, sequence := h.sequence } := by
      simp only [rowBucket, hash]
      rfl
    rw [bucket] at stored
    have fresh := stored_update looked.inside looked.free
    refine ⟨_, n₁, _, _, ?_, table₁.point looked (fun _ => by omega) set, ?_, ?_⟩
    · unfold Runs
      rw [rebuildRowBlock_of_checks reads' comes.shard taken.checks, taken.header,
        (taken.readRowBlockColumn reads' comes.shard).bind, indexRowBlock, Prog.bind_eq, ensured.bind, Prog.bind_eq]
      refine (Runs.bind found).trans ?_
      rw [Prog.bind_eq]
      refine (Runs.bind stored).trans ?_
      rw [Prog.bind_eq, counted.bind]
      rfl
    · intro k held
      by_cases same : k = taggedKey h column
      · subst same
        rw [Function.update_self]
        exact ⟨h, column, taken, comes.shard, rfl, rfl⟩
      · rw [Function.update_of_ne same]
        exact indexed₁.named k (((fresh k).mp held).resolve_left same)
    · intro k held
      rcases (fresh k).mp held with rfl | before
      · exact ⟨i, passed, offset, h, column, comes, below, taken, rfl⟩
      · exact indexed₁.met k before
  · exact absurd at_j (whole j inside).1

end Table

section Rebuild
variable {H : HashFunctions} {w w' w₀ : World} {shards : Nat → Bytes} {count n i d offset rounds next retries : Nat}
  {passed : List Nat} {h : RowBlockHeader} {column : Bytes}

/-- The state of a rebuild between two blocks. -/
def Rebuilding (H : HashFunctions) (shards : Nat → Bytes) (count d : Nat) (w : World) : Prop :=
  ∃ w₁ b n slot ref, w = w₁.withMapped .rowIndex b ∧ ReadsUnmapped w₁ shards count ∧
    w₁.members.options.rowShardCount = count ∧ RowRoomy w₁ shards count d ∧ BlocksIndexed H shards b count n slot ref

theorem Rebuilding.reads (rebuilding : Rebuilding H shards count d w) : ReadsUnmapped w shards count := by
  obtain ⟨w₁, b, _, _, _, rfl, reads, _⟩ := rebuilding
  exact reads.withRowIndex b

theorem Rebuilding.block (rebuilding : Rebuilding H shards count d w) (comes : ComesTo shards count i passed offset)
    (below : offset < (shards i).length) (taken : TakenBlock (shards i) offset h column) (retries : Nat) :
    ∃ w', Runs (rebuildRowBlock H (retries + 1) i (shards i).length offset) w h w' ∧ Rebuilding H shards count d w' := by
  obtain ⟨w₁, b, n, slot, ref, rfl, reads, rfl, roomy, indexed⟩ := rebuilding
  obtain ⟨b', n', slot', ref', ran, indexed'⟩ := rebuildRowBlock_taken reads roomy indexed comes below taken retries
  exact ⟨_, ran, w₁, b', n', slot', ref', rfl, reads, rfl, roomy, indexed'⟩

theorem Rebuilding.setRowAppendOffset (rebuilding : Rebuilding H shards count d w) (i offset : Nat) :
    ∃ w', Runs (setRowAppendOffset i offset) w () w' ∧ Rebuilding H shards count d w' := by
  obtain ⟨w₁, b, n, slot, ref, rfl, reads, same, roomy, indexed⟩ := rebuilding
  have stored := setMembers_runs (·.setAppendOffset i offset) (w₁.withMapped .rowIndex b)
  exact ⟨_, stored, w₁.setMembers (·.setAppendOffset i offset), b, n, slot, ref, rfl,
    ⟨⟨reads.shardCount, reads.content, reads.small, reads.map⟩, reads.unmapped⟩, same,
    ⟨roomy.load, fun ks nodup met => ⟨(roomy.room ks nodup met).small, (roomy.room ks nodup met).enough⟩⟩, indexed⟩

theorem rebuilding_empty {e : Nat} (reads : ReadsUnmapped w shards count) (options : w.members.options.rowShardCount = count)
    (roomy : RowRoomy w shards count d) (power : n = 2 ^ e) (small : 64 + 64 * n < 2 ^ 63) :
    Rebuilding H shards count d (w.withMapped .rowIndex (emptyRowIndex n count)) :=
  ⟨w, emptyRowIndex n count, n, fun _ => none, fun _ => ⟨0, 0, 0, 0⟩, rfl, reads, options, roomy,
    emptyRowIndex_table H.tagged _ power small (options ▸ w.members.options.rowShardCount_lt),
    fun _ stored => absurd stored stored_none, fun _ stored => absurd stored stored_none⟩

/-- The iterations of the two loops of the rebuild, as they run: in `w` the scan
is at `offset` of the shard `i`. -/
inductive Scans (H : HashFunctions) (retries : Nat) (shards : Nat → Bytes) (count : Nat) (w₀ : World) :
    Nat → Nat → World → Prop where
  | start : Scans H retries shards count w₀ 0 24 w₀
  | block {i offset : Nat} {w w' : World} {h : RowBlockHeader} (before : Scans H retries shards count w₀ i offset w) (shard : i < count)
      (below : offset < (shards i).length) (runs : Runs (rebuildRowBlock H retries i (shards i).length offset) w h w') :
      Scans H retries shards count w₀ i (u64 (offset + h.blockSize)) w'
  | shard {i offset : Nat} {w w' : World} (before : Scans H retries shards count w₀ i offset w) (shard : i < count)
      (ended : ¬ offset < (shards i).length) (runs : Runs (setRowAppendOffset i (shards i).length) w () w') :
      Scans H retries shards count w₀ (i + 1) 24 w'

theorem ComesTo.next_exact (comes : ComesTo shards count i passed offset) (reads : ReadsUnmapped w shards count)
    (below : offset < (shards i).length) (taken : TakenBlock (shards i) offset h column) :
    u64 (offset + h.blockSize) = offset + h.blockSize := by
  have inside := contained_blockStep (shards i) offset _ below (blockStep_some.mpr ⟨h, column, taken, rfl⟩)
  have small := reads.small i comes.shard
  exact u64_of_lt (by omega)

/-- A rebuild that runs keeps to the path. -/
theorem Scans.comesTo (scans : Scans H (retries + 1) shards count w₀ i offset w)
    (rebuilding : Rebuilding H shards count d w₀) (whole : ∀ i < count, 24 ≤ (shards i).length) :
    Rebuilding H shards count d w ∧ (i < count → ∃ passed, ComesTo shards count i passed offset) := by
  induction scans with
  | start => exact ⟨rebuilding, fun some_shard => ⟨[], some_shard, fun j before => absurd before (Nat.not_lt_zero j), .start⟩⟩
  | @block i offset w h w' before shard below runs ih =>
    obtain ⟨state, path⟩ := ih
    obtain ⟨passed, comes⟩ := path shard
    cases accepted : acceptedBlock (shards i) offset with
    | none =>
      obtain ⟨status, failed⟩ := rebuildRowBlock_rejected (H := H) state.reads shard below accepted (retries + 1)
      cases runs.symm.trans failed
    | some taken =>
      obtain ⟨w₂, ran, state'⟩ := state.block comes below (acceptedBlock_some.mp accepted) retries
      obtain ⟨rfl, rfl⟩ := Runs.unique runs ran
      rw [comes.next_exact state.reads below (acceptedBlock_some.mp accepted)]
      exact ⟨state', fun _ => ⟨_, comes.next below (acceptedBlock_some.mp accepted)⟩⟩
  | @shard i offset w w' before shard ended runs ih =>
    obtain ⟨state, path⟩ := ih
    obtain ⟨passed, comes⟩ := path shard
    obtain ⟨w₂, ran, state'⟩ := state.setRowAppendOffset i (shards i).length
    obtain ⟨_, rfl⟩ := Runs.unique runs ran
    have bound := comes.reaches.le_length (contained_blockStep (shards i)) (whole i shard)
    obtain rfl : offset = (shards i).length := by omega
    refine ⟨state', fun more => ⟨[], more, fun j earlier => ?_, .start⟩⟩
    rcases Nat.lt_succ_iff_lt_or_eq.mp earlier with strictly | rfl
    · exact comes.before j strictly
    · exact ⟨passed, comes.reaches⟩

/-- A rebuild runs along the whole path. -/
theorem Scans.along (scans : Scans H (retries + 1) shards count w₀ i 24 w) (state : Rebuilding H shards count d w)
    (shard : i < count) (before : ∀ j < i, ∃ passed, BlockReaches (shards j) passed (shards j).length)
    (reaches : BlockReaches (shards i) passed offset) :
    ∃ w', Scans H (retries + 1) shards count w₀ i offset w' ∧ Rebuilding H shards count d w' := by
  induction reaches with
  | start => exact ⟨w, scans, state⟩
  | @next passed offset n earlier below item ih =>
    obtain ⟨w₁, scans₁, state₁⟩ := ih
    obtain ⟨h, column, taken, rfl⟩ := blockStep_some.mp item
    have comes : ComesTo shards count i passed offset := ⟨shard, before, earlier⟩
    obtain ⟨w₂, ran, state₂⟩ := state₁.block comes below taken retries
    refine ⟨w₂, ?_, state₂⟩
    rw [← comes.next_exact state₁.reads below taken]
    exact .block scans₁ shard below ran

theorem scans_of_ends (state : Rebuilding H shards count d w₀) (i : Nat) (shard : i ≤ count)
    (before : ∀ j < i, ∃ passed, BlockReaches (shards j) passed (shards j).length) :
    ∃ w, Scans H (retries + 1) shards count w₀ i 24 w ∧ Rebuilding H shards count d w := by
  induction i with
  | zero => exact ⟨w₀, .start, state⟩
  | succ i ih =>
    obtain ⟨w₁, scans₁, state₁⟩ := ih (by omega) fun j earlier => before j (by omega)
    obtain ⟨passed, reaches⟩ := before i (Nat.lt_succ_self i)
    obtain ⟨w₂, scans₂, state₂⟩ := scans₁.along state₁ (by omega) (fun j earlier => before j (by omega)) reaches
    obtain ⟨w₃, ran, state₃⟩ := state₂.setRowAppendOffset i (shards i).length
    exact ⟨w₃, .shard scans₂ (by omega) (Nat.lt_irrefl _) ran, state₃⟩

/-- No header that passes the checks of the scan has a size whose sum has
wrapped. -/
def BlockSumsFit (shards : Nat → Bytes) (count : Nat) : Prop :=
  ∀ i passed offset, ComesTo shards count i passed offset → offset < (shards i).length → PassesChecks (shards i) offset →
    sizeSum (blockHeaderAt (shards i) offset) < 2 ^ 64

theorem BlockSumsFit.taken (fit : BlockSumsFit shards count) (comes : ComesTo shards count i passed offset)
    (below : offset < (shards i).length) (taken : TakenBlock (shards i) offset h column) : 120 ≤ h.blockSize := by
  have large := fit i passed offset comes below taken.checks
  have valid := taken.checks.2.1
  rw [taken.header] at large valid
  exact (isValidRowBlockHeader_large valid large).2

/-- The scan of a shard goes on to the end of the shard or stops at a block that
it rejects. It returns when no size wraps, for every block takes it further. -/
theorem rebuildRowLoop_outcome (whole : ∀ i < count, 24 ≤ (shards i).length) (state : Rebuilding H shards count d w)
    (comes : ComesTo shards count i passed offset) :
    (∃ next' w', Runs (rebuildRowLoop H (retries + 1) i (shards i).length rounds offset next) w next' w' ∧
        Rebuilding H shards count d w' ∧ ∃ passed, BlockReaches (shards i) passed (shards i).length) ∨
      (∃ status w', run system (rebuildRowLoop H (retries + 1) i (shards i).length rounds offset next) w =
        .error status w' ∧ Rebuilding H shards count d w') ∨
      run system (rebuildRowLoop H (retries + 1) i (shards i).length rounds offset next) w = .overflow ∧
        (BlockSumsFit shards count → rounds ≤ (shards i).length - offset) := by
  induction rounds generalizing w offset passed next with
  | zero => exact Or.inr (Or.inr ⟨rfl, fun _ => Nat.zero_le _⟩)
  | succ rounds ih =>
    unfold Runs
    rw [rebuildRowLoop]
    by_cases below : offset < (shards i).length
    · rw [if_pos below, Prog.bind_eq]
      cases accepted : acceptedBlock (shards i) offset with
      | none =>
        obtain ⟨status, failed⟩ := rebuildRowBlock_rejected (H := H) state.reads comes.shard below accepted (retries + 1)
        exact Or.inr (Or.inl ⟨status, w, run_bind_error _ failed _, state⟩)
      | some block =>
        have taken := acceptedBlock_some.mp accepted
        obtain ⟨w₁, ran, state₁⟩ := state.block comes below taken retries
        have exact := comes.next_exact state.reads below taken
        rw [ran.bind, exact]
        rcases @ih w₁ _ (max next (u64 (block.1.sequence + 1))) _ state₁ (comes.next below taken) with
          ended | failed | ⟨overflow, few⟩
        · exact Or.inl ended
        · exact Or.inr (Or.inl failed)
        · refine Or.inr (Or.inr ⟨overflow, fun fit => ?_⟩)
          have further := fit.taken comes below taken
          have short := few fit
          have inside := contained_blockStep (shards i) offset _ below (blockStep_some.mpr ⟨_, _, taken, rfl⟩)
          omega
    · have bound := comes.reaches.le_length (contained_blockStep (shards i)) (whole i comes.shard)
      obtain rfl : offset = (shards i).length := by omega
      rw [if_neg below]
      exact Or.inl ⟨next, w, rfl, state, passed, comes.reaches⟩

theorem rebuildShards_outcome (whole : ∀ i < count, 24 ≤ (shards i).length) (state : Rebuilding H shards count d w)
    (last : i + rounds = count) (before : ∀ j < i, ∃ passed, BlockReaches (shards j) passed (shards j).length) :
    (∃ next' w', Runs (rebuildShards H (retries + 1) rounds i next) w next' w' ∧ Rebuilding H shards count d w') ∨
      (∃ status w', run system (rebuildShards H (retries + 1) rounds i next) w = .error status w' ∧
        Rebuilding H shards count d w') ∨
      run system (rebuildShards H (retries + 1) rounds i next) w = .overflow ∧ ¬ BlockSumsFit shards count := by
  induction rounds generalizing w i next with
  | zero => exact Or.inl ⟨next, w, rfl, state⟩
  | succ rounds ih =>
    have shard : i < count := by omega
    have size := getFileSize_runs (state.reads.content i shard)
    unfold Runs
    rw [rebuildShards, Prog.bind_eq, size.bind, Prog.bind_eq]
    rcases @rebuildRowLoop_outcome H w shards count i d 24 ((shards i).length + 1) next retries [] whole state
        ⟨shard, before, .start⟩ with ⟨next', w₁, ran, state₁, ended⟩ | ⟨status, w₁, failed, state₁⟩ | ⟨overflow, few⟩
    · obtain ⟨w₂, stored, state₂⟩ := state₁.setRowAppendOffset i (shards i).length
      rw [Runs.bind (p := rebuildRowLoop _ _ _ _ _ _ _) ran, Prog.bind_eq, stored.bind]
      refine ih state₂ (by omega) fun j earlier => ?_
      rcases Nat.lt_succ_iff_lt_or_eq.mp earlier with strictly | rfl
      · exact before j strictly
      · exact ended
    · exact Or.inr (Or.inl ⟨status, w₁, run_bind_error _ failed _, state₁⟩)
    · refine Or.inr (Or.inr ⟨run_bind_overflow _ overflow _, fun fit => ?_⟩)
      have short := few fit
      omega

/-- The rebuild returns Ok, or stops at a rejected block with what it has
indexed, or never returns. -/
theorem rebuildRowIndexFromValues_outcome (whole : ∀ i < count, 24 ≤ (shards i).length)
    (state : Rebuilding H shards count d w) :
    (∃ w', Runs (rebuildRowIndexFromValues H (retries + 1)) w () w') ∨
      (∃ status w', run system (rebuildRowIndexFromValues H (retries + 1)) w = .error status w' ∧
        Rebuilding H shards count d w') ∨
      run system (rebuildRowIndexFromValues H (retries + 1)) w = .overflow ∧ ¬ BlockSumsFit shards count := by
  unfold Runs rebuildRowIndexFromValues
  rw [Prog.bind_eq, (getMembers_runs w).bind, state.reads.shardCount, Prog.bind_eq]
  rcases @rebuildShards_outcome H w shards count 0 d count 1 retries whole state (Nat.zero_add count)
    (fun j before => absurd before (Nat.not_lt_zero j)) with
    ⟨next', w₁, ran, state₁⟩ | ⟨status, w₁, failed, state₁⟩ | ⟨overflow, wrapped⟩
  · obtain ⟨w₂, b, n, slot, ref, rfl, _, _, _, indexed⟩ := state₁
    have length := indexed.table.length
    have positive := indexed.table.positive
    rw [ran.bind, @store_runs w₂ .rowIndex b 32 8 next' (by omega)]
    exact Or.inl ⟨_, rfl⟩
  · exact Or.inr (Or.inl ⟨status, w₁, run_bind_error _ failed _, state₁⟩)
  · exact Or.inr (Or.inr ⟨run_bind_overflow _ overflow _, wrapped⟩)

theorem rebuildRowIndexFromValues_returns (fit : BlockSumsFit shards count) (whole : ∀ i < count, 24 ≤ (shards i).length)
    (state : Rebuilding H shards count d w) :
    (run system (rebuildRowIndexFromValues H (retries + 1)) w).state? ≠ none := by
  rcases @rebuildRowIndexFromValues_outcome H w shards count d retries whole state with ⟨w', ran⟩ | ⟨status, w', failed, _⟩ | ⟨_, wrapped⟩
  · rw [ran]
    nofun
  · rw [failed]
    nofun
  · exact absurd fit wrapped

/-- A block without a size keeps the scan where it is, however many rounds it
is given. -/
theorem rebuildRowLoop_stays (state : Rebuilding H shards count d w) (comes : ComesTo shards count i passed offset)
    (below : offset < (shards i).length) (taken : TakenBlock (shards i) offset h column) (sizeless : h.blockSize = 0)
    (rounds : Nat) :
    run system (rebuildRowLoop H (retries + 1) i (shards i).length rounds offset next) w = .overflow := by
  induction rounds generalizing w passed next with
  | zero => rfl
  | succ rounds ih =>
    obtain ⟨w₁, ran, state₁⟩ := state.block comes below taken retries
    have exact := comes.next_exact state.reads below taken
    have stays := comes.next below taken
    rw [sizeless] at exact stays
    rw [rebuildRowLoop, if_pos below, Prog.bind_eq, ran.bind, sizeless, exact]
    exact ih state₁ stays

/-- The rebuild from the state `w` returns, and every header that it accepts
on its way states the size of a block that lies in its shard. -/
structure ScansBlocks (H : HashFunctions) (retries : Nat) (shards : Nat → Bytes) (count : Nat) (w : World) : Prop where
  ends : (run system (rebuildRowIndexFromValues H retries) w).state? ≠ none
  accepts : ∀ i offset w', Scans H retries shards count w i offset w' → i < count → offset < (shards i).length →
    PassesChecks (shards i) offset →
    (blockHeaderAt (shards i) offset).blockSize = sizeSum (blockHeaderAt (shards i) offset) ∧
      72 + 48 ≤ (blockHeaderAt (shards i) offset).blockSize ∧
      offset + (blockHeaderAt (shards i) offset).blockSize ≤ (shards i).length

theorem ScansBlocks.blockSumsFit (scans : ScansBlocks H (retries + 1) shards count w) (state : Rebuilding H shards count d w) :
    BlockSumsFit shards count := by
  intro i passed offset comes below checks
  obtain ⟨w₁, scans₁, state₁⟩ := @scans_of_ends H w shards count d retries state i comes.shard.le comes.before
  obtain ⟨w₂, scans₂, _⟩ := scans₁.along state₁ comes.shard comes.before comes.reaches
  have exact := (scans.accepts i offset w₂ scans₂ comes.shard below checks).1
  have bound := blockHeaderAt_bounds (shards i) offset
  rw [← exact]
  exact bound.2.2.2.2.2

/-- The rebuild returns and accepts only blocks of the size they state, exactly
when no header on its path passes the checks by a sum that wraps. -/
theorem scansBlocks_iff {e : Nat} (reads : ReadsUnmapped w shards count) (options : w.members.options.rowShardCount = count)
    (whole : ∀ i < count, 24 ≤ (shards i).length) (roomy : RowRoomy w shards count d) (power : n = 2 ^ e)
    (small : 64 + 64 * n < 2 ^ 63) :
    ScansBlocks H (retries + 1) shards count (w.withMapped .rowIndex (emptyRowIndex n count)) ↔ BlockSumsFit shards count := by
  have state : Rebuilding H shards count d (w.withMapped .rowIndex (emptyRowIndex n count)) :=
    rebuilding_empty reads options roomy power small
  refine ⟨fun scans => scans.blockSumsFit state, fun fit => ⟨rebuildRowIndexFromValues_returns fit whole state, ?_⟩⟩
  intro i offset w' scans shard below checks
  obtain ⟨_, path⟩ := scans.comesTo state whole
  obtain ⟨passed, comes⟩ := path shard
  obtain ⟨exact, large⟩ := isValidRowBlockHeader_large checks.2.1 (fit i passed offset comes below checks)
  have room := checks.2.2
  exact ⟨exact, large, by omega⟩

end Rebuild

section Samples

/-- A world with one shard file. -/
def oneShard (shard : Bytes) : World :=
  (({} : World).setFile (.rowShard 0) (some shard)).setMembers fun m =>
    { m with options := { m.options with rowShardCount := 1, rowShardCount_lt := oneShard_lt }, rowShards := 1 }

theorem oneShard_reads (shard : Bytes) (small : shard.length < 2 ^ 63) : ReadsUnmapped (oneShard shard) (fun _ => shard) 1 where
  shardCount := rfl
  content i inside := by
    obtain rfl : i = 0 := by omega
    simp [oneShard, World.setFile, World.setMembers]
  small _ _ := small
  map _ _ := Or.inl rfl
  unmapped _ _ := rfl

theorem oneShard_roomy (shard : Bytes) (small : shard.length < 800) : RowRoomy (oneShard shard) (fun _ => shard) 1 10 := by
  have load : (oneShard shard).members.options.maxLoadFactor = 4 / 5 := rfl
  refine rowRoomy_of_length (by rw [load]; exact ⟨by norm_num, by norm_num⟩) ⟨by decide, ?_⟩
  have few : shard.length + 1 ≤ 800 := small
  have room : ((800 : Nat) : ℚ) ≤ (oneShard shard).members.options.maxLoadFactor * (2 ^ 10 : Nat) := by
    rw [load]
    norm_num
  refine le_trans ?_ room
  simp only [List.range_one, List.map_cons, List.map_nil, List.sum_singleton]
  exact_mod_cast few

/-- The block of a row with one key. -/
def oneKeyBlock (sequence : Nat) (value : UInt8) : Bytes :=
  { sequence, columnHash := HashFunctions.shipped.hashString [2], rowId := 4, columnSize := 1, itemCount := 1,
    bucketCount := 1, keyBytesSize := 1, valueBytesSize := 1, blockSize := 123 : RowBlockHeader }.encode ++
    ({ state := kBucketFilled, keyHash := HashFunctions.shipped.hashString [1], keySize := 1,
       valueSize := 1 : RowKeyBucket }.encode ++ [2, 1, value])

/-- A shard of two versions of one row. -/
def twoBlocks : Bytes := rowValueFileHeader.encode ++ (oneKeyBlock 1 7 ++ oneKeyBlock 2 9)

theorem twoBlocks_length : twoBlocks.length = 270 := by decide +kernel

theorem scansBlocks_sample :
    ScansBlocks .shipped 1 (fun _ => twoBlocks) 1 ((oneShard twoBlocks).withMapped .rowIndex (emptyRowIndex 16 1)) := by
  have length := twoBlocks_length
  have first : blockStep twoBlocks 24 = some 123 := by decide +kernel
  have second : blockStep twoBlocks 147 = some 123 := by decide +kernel
  have path : ∀ passed offset, BlockReaches twoBlocks passed offset → offset = 24 ∨ offset = 147 ∨ offset = 270 := by
    intro passed offset reaches
    induction reaches with
    | start => exact Or.inl rfl
    | @next passed offset n before below item ih =>
      rcases ih with rfl | rfl | rfl
      · rw [first, Option.some.injEq] at item
        omega
      · rw [second, Option.some.injEq] at item
        omega
      · omega
  have sizes : sizeSum (blockHeaderAt twoBlocks 24) = 123 ∧ sizeSum (blockHeaderAt twoBlocks 147) = 123 := by
    decide +kernel
  refine (scansBlocks_iff (oneShard_reads twoBlocks (by omega)) rfl (fun _ _ => by omega)
    (oneShard_roomy twoBlocks (by omega)) (e := 4) rfl (by decide)).mpr fun i passed offset comes below _ => ?_
  rcases path passed offset comes.reaches with rfl | rfl | rfl
  · exact sizes.1.trans_lt (by decide)
  · exact sizes.2.trans_lt (by decide)
  · exact absurd below (by rw [length]; decide)

/-- A shard of one block header whose sizes add up to `2 ^ 64`. -/
def sizelessBlock : Bytes :=
  rowValueFileHeader.encode ++ { bucketCount := 1, keyBytesSize := 2 ^ 64 - 120 : RowBlockHeader }.encode

/-- The scan of such a shard never ends. -/
theorem sizeless_block_scanned_for_ever :
    (∀ rounds, run system (rebuildRowLoop .shipped 1 0 sizelessBlock.length rounds 24 1)
      ((oneShard sizelessBlock).withMapped .rowIndex (emptyRowIndex 16 1)) = .overflow) ∧
    ¬ ScansBlocks .shipped 1 (fun _ => sizelessBlock) 1
      ((oneShard sizelessBlock).withMapped .rowIndex (emptyRowIndex 16 1)) := by
  have state : Rebuilding .shipped (fun _ => sizelessBlock) 1 10
      ((oneShard sizelessBlock).withMapped .rowIndex (emptyRowIndex 16 1)) :=
    rebuilding_empty (oneShard_reads sizelessBlock (by decide)) rfl (oneShard_roomy sizelessBlock (by decide)) (e := 4) rfl
      (by decide)
  have comes : ComesTo (fun _ => sizelessBlock) 1 0 [] 24 :=
    ⟨by decide, fun j before => absurd before (Nat.not_lt_zero j), .start⟩
  have taken : TakenBlock sizelessBlock 24 (blockHeaderAt sizelessBlock 24) [] :=
    acceptedBlock_some.mp (by decide +kernel)
  refine ⟨rebuildRowLoop_stays state comes (by decide) taken (by decide +kernel), fun scans => ?_⟩
  have fits := scans.blockSumsFit state 0 [] 24 comes (by decide) (by decide +kernel)
  revert fits
  decide +kernel

end Samples

end LumoDB
