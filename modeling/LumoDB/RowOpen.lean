import LumoDB.CheckedOpen
import LumoDB.ObjectOpen
import LumoDB.RowLayout
import LumoDB.RowRebuild

namespace LumoDB
open ByteCodec Effects LinearProbing

/-- The shard files as an `Open` finds them: the blocks of `log`, or no file
or an empty one before the first block of a shard. -/
def RowsOnDisk (w : World) (log : RowLog) : Prop :=
  ∀ i, w.disk (.rowShard i) = some (shardBytes log i) ∨
    shardLog log i = [] ∧ (w.disk (.rowShard i) = none ∨ w.disk (.rowShard i) = some [])

/-- The shard files as an `Open` finds them: `contents`, each behind the header,
or no file or an empty one where a shard has no block. -/
def ShardsOnDisk (w : World) (contents : Nat → Bytes) : Prop :=
  ∀ i, (∃ rest, contents i = rowValueFileHeader.encode ++ rest) ∧
    (w.disk (.rowShard i) = some (contents i) ∨
      contents i = rowValueFileHeader.encode ∧ (w.disk (.rowShard i) = none ∨ w.disk (.rowShard i) = some []))

/-- The first `count` shard files open and hold `contents` then. -/
def ShardsReady (w : World) (contents : Nat → Bytes) (count : Nat) : Prop :=
  ∀ i < count, HasHeader kRowValueFileMagic (contents i) ∧
    (w.disk (.rowShard i) = some (contents i) ∨
      contents i = rowValueFileHeader.encode ∧ (w.disk (.rowShard i) = none ∨ w.disk (.rowShard i) = some []))

theorem RowsOnDisk.shards {w : World} {log : RowLog} (disk : RowsOnDisk w log) : ShardsOnDisk w (shardBytes log) := by
  intro i
  refine ⟨⟨_, rfl⟩, (disk i).imp_right fun ⟨empty, fresh⟩ => ⟨?_, fresh⟩⟩
  rw [shardBytes, empty]
  rfl

/-- The row index represents the rows that the writes `log` leave. -/
def RowIndexOf (H : HashFunctions) (shards : Nat → Bytes) (count : Nat) (log : RowLog) (b : Bytes) : Prop :=
  ∃ n slot ref, RowIndexed H shards count (putRows noRows log) b n slot ref

/-- An `Open` with `count` shards finds no row index, or one that its layout
check rejects. -/
def RowIndexRejected (w : World) (count : Nat) : Prop :=
  ∀ b, w.disk .rowIndex = some b → ¬ RowAccepted b count ∧ ¬ RowOverreads b count

/-- The row index as an `Open` with `count` shards finds it: rejected, or an
index of the rows of `live`. -/
def RowIndexOnDisk (H : HashFunctions) (w : World) (log live : RowLog) (count : Nat) : Prop :=
  RowIndexRejected w count ∨ ∃ b, w.disk .rowIndex = some b ∧ RowIndexOf H (shardBytes log) count live b

section Shards
variable {w : World} {log : RowLog} {contents : Nat → Bytes} {shardId : Nat}

/-- `w` with the shard file `shardId` open and holding `bytes`. -/
def World.shardOpened (w : World) (shardId : Nat) (bytes : Bytes) : World :=
  (w.setFile (.rowShard shardId) (some bytes)).setMembers fun m =>
    (m.setDescriptor (.rowShard shardId) true).setAppendOffset shardId bytes.length

theorem slice_rowHeader (rest : Bytes) :
    ValueFileHeader.decode (slice (rowValueFileHeader.encode ++ rest) 0 24) = rowValueFileHeader := by
  have length := rowHeader_length
  have front : slice (rowValueFileHeader.encode ++ rest) 0 24 = rowValueFileHeader.encode := by
    rw [slice_append_left (by omega)]
    simp only [slice, List.drop_zero, List.take_of_length_le length.le]
  rw [front]
  exact ValueFileHeader.decode_default kRowValueFileMagic rfl

theorem shardBytes_header (log : RowLog) (shardId : Nat) :
    ValueFileHeader.decode (slice (shardBytes log shardId) 0 24) = rowValueFileHeader :=
  slice_rowHeader _

theorem shardBytes_length (log : RowLog) (shardId : Nat) :
    (shardBytes log shardId).length = 24 + (encodeRows (shardLog log shardId)).length := by
  rw [shardBytes, List.length_append, rowHeader_length]

theorem ShardsOnDisk.ready (disk : ShardsOnDisk w contents) (count : Nat) : ShardsReady w contents count := by
  intro i _
  obtain ⟨⟨rest, begins⟩, found⟩ := disk i
  refine ⟨⟨?_, ?_⟩, found⟩
  · rw [begins, List.length_append, rowHeader_length]
    omega
  · rw [begins, slice_rowHeader]
    rfl

theorem openRowValueFile_runs {count : Nat} (ready : ShardsReady w contents count) (inside : shardId < count)
    (small : (contents shardId).length < 2 ^ 63) :
    Runs (openRowValueFile false shardId) w () (w.shardOpened shardId (contents shardId)) := by
  obtain ⟨⟨long, valid⟩, found⟩ := ready shardId inside
  unfold Runs openRowValueFile openAs
  rw [if_neg (by decide), Prog.bind_eq, (openReadWriteCreate_runs w (.rowShard shardId)).bind]
  rcases found with full | ⟨none_written, fresh⟩
  · have content : ((w.setFile (.rowShard shardId) (some ((w.disk (.rowShard shardId)).getD []))).setMembers
        (·.setDescriptor (.rowShard shardId) true)).disk (.rowShard shardId) = some (contents shardId) := by
      simp [World.setFile, World.setMembers, full]
    have same : w.setFile (.rowShard shardId) (some ((w.disk (.rowShard shardId)).getD [])) =
        w.setFile (.rowShard shardId) (some (contents shardId)) := by rw [full, Option.getD_some]
    have header := @readAllAt_runs _ _ _ 0 24 content (by omega) small
    rw [Prog.bind_eq, (getFileSize_runs content).bind, if_neg (by omega), if_neg (by omega), Prog.bind_eq,
      header.bind]
    simp only
    rw [if_neg (not_not.mpr valid), same]
    rfl
  · have empty : (w.disk (.rowShard shardId)).getD [] = [] := by rcases fresh with none | some <;> simp [*]
    rw [empty]
    have content : ((w.setFile (.rowShard shardId) (some [])).setMembers
        (·.setDescriptor (.rowShard shardId) true)).disk (.rowShard shardId) = some [] := by
      simp [World.setFile, World.setMembers]
    have header := @writeAllAt_runs _ _ _ 0 rowValueFileHeader.encode content
      (List.ne_nil_of_length_pos (by rw [rowHeader_length]; decide)) (by rw [rowHeader_length]; decide)
    have written : patch [] 0 rowValueFileHeader.encode = contents shardId := by
      simp [patch, none_written]
    have length : (contents shardId).length = 24 := by rw [none_written, rowHeader_length]
    rw [written] at header
    rw [Prog.bind_eq, (getFileSize_runs content).bind, if_pos (by rfl), if_neg (by decide), Prog.bind_eq, header.bind,
      World.shardOpened, length]
    simp [setRowAppendOffset, setMembers, run, system, Prog.perform, World.setFile, World.setMembers,
      Members.setDescriptor]

theorem ShardsReady.shardOpened {count : Nat} (ready : ShardsReady w contents count) (shardId : Nat) :
    ShardsReady (w.shardOpened shardId (contents shardId)) contents count := by
  intro i inside
  refine ⟨(ready i inside).1, ?_⟩
  by_cases here : i = shardId
  · subst here
    exact Or.inl (by simp [World.shardOpened, World.setFile, World.setMembers])
  · have other : FileId.rowShard i ≠ .rowShard shardId := fun same => here (by simpa using same)
    simpa [World.shardOpened, World.setFile, World.setMembers, here] using (ready i inside).2

/-- `w` with other file contents, descriptors and append offsets. -/
def World.withShards (w : World) (disk : FileId → Option Bytes) (descriptors : FileId → Bool)
    (offsets : Nat → Nat) : World :=
  { w with disk := disk, members := { w.members with descriptors := descriptors, rowAppendOffsets := offsets } }

theorem openRowValueFileLoop_runs {rounds count : Nat} (ready : ShardsReady w contents count)
    (small : ∀ i < count, (contents i).length < 2 ^ 63) (last : shardId + rounds = count) :
    ∃ disk' descriptors offsets,
      Runs (openRowValueFileLoop false rounds shardId) w () (w.withShards disk' descriptors offsets) ∧
      (∀ i, shardId ≤ i → i < shardId + rounds →
        disk' (.rowShard i) = some (contents i) ∧ offsets i = (contents i).length) ∧
      (∀ file, (∀ i, shardId ≤ i → i < shardId + rounds → file ≠ .rowShard i) → disk' file = w.disk file) ∧
      ∀ i < shardId, offsets i = w.members.rowAppendOffsets i := by
  induction rounds generalizing w shardId with
  | zero => exact ⟨w.disk, _, _, rfl, fun i lower upper => by omega, fun _ _ => rfl, fun _ _ => rfl⟩
  | succ rounds ih =>
    have opened := openRowValueFile_runs ready (show shardId < count by omega) (small shardId (by omega))
    obtain ⟨disk', descriptors, offsets, later, inside, outside, before⟩ :=
      ih (ready.shardOpened shardId) (show shardId + 1 + rounds = count by omega)
    refine ⟨disk', descriptors, offsets, ?_, fun i lower upper => ?_, fun file other => ?_, fun i below => ?_⟩
    · unfold Runs openRowValueFileLoop
      rw [Prog.bind_eq, opened.bind, later]
      rfl
    · by_cases here : i = shardId
      · subst here
        rw [before i (by omega), outside (.rowShard i) fun j lower _ same => by
          have := FileId.rowShard.inj same
          omega]
        simp [World.shardOpened, World.setFile, World.setMembers, Members.setAppendOffset]
      · exact inside i (by omega) (by omega)
    · rw [outside file fun i lower upper => other i (by omega) (by omega)]
      have different := other shardId le_rfl (by omega)
      simp [World.shardOpened, World.setFile, World.setMembers, different]
    · have different : i ≠ shardId := by omega
      rw [before i (by omega)]
      simp [World.shardOpened, World.setFile, World.setMembers, Members.setAppendOffset, Members.setDescriptor,
        different]

/-- The shard files are open, and everything else is as it was. -/
structure ShardsOpened (w w' : World) (contents : Nat → Bytes) : Prop where
  content : ∀ i < w.members.options.rowShardCount, w'.disk (.rowShard i) = some (contents i)
  offsets : ∀ i < w.members.options.rowShardCount, w'.members.rowAppendOffsets i = (contents i).length
  shardCount : w'.members.rowShards = w.members.options.rowShardCount
  others : ∀ file, (∀ i < w.members.options.rowShardCount, file ≠ .rowShard i) → w'.disk file = w.disk file
  same : ∃ disk descriptors rowShards offsets, w' = { w with
    disk := disk
    members := { w.members with descriptors := descriptors, rowShards := rowShards, rowAppendOffsets := offsets } }

theorem openRowValueFiles_runs (ready : ShardsReady w contents w.members.options.rowShardCount)
    (small : ∀ i < w.members.options.rowShardCount, (contents i).length < 2 ^ 63) :
    ∃ w', Runs (openRowValueFiles false) w () w' ∧ ShardsOpened w w' contents := by
  have ready' : ShardsReady (w.setMembers fun m => { m with
      rowShards := w.members.options.rowShardCount
      rowAppendOffsets := fun _ => 0 }) contents w.members.options.rowShardCount := ready
  obtain ⟨found, descriptors, offsets, ran, inside, outside, _⟩ :=
    openRowValueFileLoop_runs ready' small (Nat.zero_add w.members.options.rowShardCount)
  refine ⟨_, ?_, ⟨fun i below => (inside i (Nat.zero_le _) (by omega)).1,
    fun i below => (inside i (Nat.zero_le _) (by omega)).2, rfl,
    fun file other => outside file fun i _ upper => other i (by omega), ⟨found, descriptors, _, offsets, rfl⟩⟩⟩
  unfold Runs openRowValueFiles
  rw [Prog.bind_eq, (getMembers_runs w).bind, Prog.bind_eq]
  exact (Runs.bind (setMembers_runs _ w)).trans ran

end Shards

section Index
variable {H : HashFunctions} {w : World} {log live : RowLog}

theorem RowIndexOf.not_rejected {shards : Nat → Bytes} {count : Nat} {b : Bytes} {log : RowLog}
    (index : RowIndexOf H shards count log b) (present : w.disk .rowIndex = some b) : ¬ RowIndexRejected w count := by
  obtain ⟨n, slot, ref, indexed⟩ := index
  exact fun rejected => (rejected b present).1 indexed.table.accepted

/-- A row index that is missing or fails the layout check is rebuilt. -/
theorem createAndRebuildRowIndex_runs {old : Bytes} (content : w.disk .rowIndex = some old)
    (reads : ReadsShards w (shardBytes log) w.members.options.rowShardCount)
    (offsets : ∀ i < w.members.options.rowShardCount, w.members.rowAppendOffsets i = (shardBytes log i).length)
    (load : LoadFactorOk w.members.options.maxLoadFactor)
    (complete : ∀ r ∈ log, r.Complete H) (retries : Nat)
    (bounded : Bounded (createAndRebuildRowIndex H (retries + 1)) w) :
    ∃ b, Runs (createAndRebuildRowIndex H (retries + 1)) w () (w.withMapped .rowIndex b) ∧
      RowIndexOf H (shardBytes log) w.members.options.rowShardCount
        (scanLog log 0 w.members.options.rowShardCount) b ∧
      rowSequence b = nextAfter 1 (scanLog log 0 w.members.options.rowShardCount) ∧
      w.members.options.initialRowBucketCount ≤ natAt b 16 8 := by
  unfold createAndRebuildRowIndex at bounded
  replace bounded := bounded.rest (getMembers_runs w)
  obtain ⟨n, rounded, small⟩ := Bounded.createEmptyRowIndex bounded.first
  obtain ⟨enough, e, _, _, power⟩ := roundUpPowerOfTwo_spec rounded
  have created := createEmptyRowIndex_runs content rounded small
  obtain ⟨b, n', slot, ref, rebuilt, indexed, grown, sequence⟩ := rebuildRowIndexFromValues_runs reads offsets load complete
    power small retries (bounded.rest created)
  have capacity : w.members.options.initialRowBucketCount ≤ natAt b 16 8 := by
    rw [indexed.table.bucketCount]
    exact enough.trans grown.le
  refine ⟨b, ?_, ⟨n', slot, ref, indexed⟩, sequence, capacity⟩
  unfold Runs createAndRebuildRowIndex
  rw [Prog.bind_eq, (getMembers_runs w).bind, Prog.bind_eq, created.bind, rebuilt]

theorem not_rowAccepted_nil (count : Nat) : ¬ RowAccepted [] count := by
  rintro ⟨n, file, _⟩
  have length := file.length
  simp only [List.length_nil] at length
  omega

theorem not_rowOverreads_nil (count : Nat) : ¬ RowOverreads [] count := fun exceeds => absurd exceeds.1.1 (by simp)

/-- A row index that passes the layout check is kept as it is. -/
theorem openRowIndexFile_keeps {x : Bytes} {retries : Nat} (present : w.disk .rowIndex = some x)
    (accepted : RowAccepted x w.members.options.rowShardCount) :
    Runs (openRowIndexFile H retries false) w () (w.opened .rowIndex x) := by
  obtain ⟨n, file, _⟩ := id accepted
  have length := file.length
  have small := file.small
  exact openChecked_keeps present (by omega) (by omega)
    (hasValidRowIndexLayout_accepts (w.sees_opened .rowIndex x) accepted)

theorem openRowIndexFile_runs (disk : RowIndexOnDisk H w log live w.members.options.rowShardCount)
    (unmapped : w.members.maps .rowIndex = none)
    (reads : ReadsShards w (shardBytes log) w.members.options.rowShardCount)
    (offsets : ∀ i < w.members.options.rowShardCount, w.members.rowAppendOffsets i = (shardBytes log i).length)
    (load : LoadFactorOk w.members.options.maxLoadFactor)
    (complete : ∀ r ∈ log, r.Complete H) (retries : Nat)
    (bounded : Bounded (openRowIndexFile H (retries + 1) false) w) :
    ∃ b, Runs (openRowIndexFile H (retries + 1) false) w () (w.opened .rowIndex b) ∧
      (w.disk .rowIndex = some b ∧ RowIndexOf H (shardBytes log) w.members.options.rowShardCount live b ∨
        RowIndexRejected w w.members.options.rowShardCount ∧
        RowIndexOf H (shardBytes log) w.members.options.rowShardCount
          (scanLog log 0 w.members.options.rowShardCount) b ∧
        rowSequence b = nextAfter 1 (scanLog log 0 w.members.options.rowShardCount) ∧
        w.members.options.initialRowBucketCount ≤ natAt b 16 8) := by
  set b := w.present .rowIndex with b_eq
  have sees := w.sees_opened .rowIndex b
  refine openChecked_runs unmapped ?_ bounded
  rcases disk with rejected | ⟨found, present, index⟩
  · have refused : ¬ RowAccepted b w.members.options.rowShardCount ∧ ¬ RowOverreads b w.members.options.rowShardCount := by
      cases present : w.disk .rowIndex with
      | none =>
        have empty : b = [] := by rw [b_eq, World.present, present]; rfl
        rw [empty]
        exact ⟨not_rowAccepted_nil _, not_rowOverreads_nil _⟩
      | some found =>
        have same : found = b := by rw [b_eq, World.present, present]; rfl
        exact rejected b (by rw [present, same])
    refine Or.inr ⟨fun small _ => hasValidRowIndexLayout_rejects sees small refused.1 refused.2, fun bounded => ?_⟩
    have reads' : ReadsShards (w.found .rowIndex b) (shardBytes log) w.members.options.rowShardCount :=
      ⟨reads.shardCount, fun i inside => by rw [w.found_disk_ne b (by simp), reads.content i inside], reads.small,
        reads.map⟩
    obtain ⟨b', rebuilt, index⟩ := createAndRebuildRowIndex_runs (w.found_disk .rowIndex b) reads' offsets load complete
      retries bounded
    rw [World.found_withMapped] at rebuilt
    exact ⟨b', rebuilt, Or.inr ⟨rejected, index⟩⟩
  · have same : found = b := by rw [b_eq, World.present, present]; rfl
    subst same
    obtain ⟨n, slot, ref, indexed⟩ := index
    have length := indexed.table.length
    have small := indexed.table.small
    exact Or.inl ⟨show 0 < b.length by omega, show b.length < 2 ^ 63 by omega,
      Or.inl ⟨present, n, slot, ref, indexed⟩, hasValidRowIndexLayout_accepts sees indexed.table.accepted⟩

end Index

end LumoDB
