import LumoDB.RowCalls
import LumoDB.RowOpen

namespace LumoDB
open ByteCodec Effects LinearProbing

/-- The shard files hold the blocks of `rows`, every one of them complete. -/
structure RowArchive (H : HashFunctions) (w : World) (rows : RowLog) : Prop where
  disk : RowsOnDisk w rows
  small : ∀ i, (shardBytes rows i).length < 2 ^ 63
  complete : ∀ r ∈ rows, r.Complete H

/-- `live` has the blocks of `rows` in the first `count` shards, each shard's
in the order of its file. -/
structure Covers (rows live : RowLog) (count : Nat) : Prop where
  shards : ∀ r ∈ live, r.shardId < count
  agree : ∀ i < count, shardLog live i = shardLog rows i

/-- A closed database: the records of `objects` and the blocks of `rows` are
in its files, and its indexes are up to date, missing or rejected by an
`Open` with `count` shards. -/
structure Resting (H : HashFunctions) (w : World) (objects : ObjectLog) (rows live : RowLog) (count : Nat) : Prop where
  closed : w.members.isOpen = false
  unmapped : ∀ file, w.members.maps file = none
  directory : w.directory ≠ .other
  values : ValuesOnDisk w objects
  small : (valueFileBytes objects).length < 2 ^ 63
  fits : ∀ r ∈ objects, r.1.Fits
  index : IndexOnDisk H w objects
  archive : RowArchive H w rows
  rowIndex : RowIndexOnDisk H w rows live count
  covers : Covers rows live count

/-- The row side of an open database: the blocks in the shard files, the
writes that the served rows come from, the shard count and the sequence of the
next block. -/
structure RowState where
  rows : RowLog
  live : RowLog
  count : Nat
  next : Nat

/-- An open database that serves the records of `objects` and the rows of
`s.live`. -/
structure Active (H : HashFunctions) (w : World) (objects : ObjectLog) (s : RowState) : Prop where
  serving : Serving w
  directory : w.directory ≠ .other
  objects : ObjectStore H w objects
  archive : RowArchive H w s.rows
  covers : Covers s.rows s.live s.count
  rows : RowStore H w s.live
  count : w.members.options.rowShardCount = s.count
  next : w.nextSequence = s.next

/-- The options `Open` accepts. -/
structure DatabaseOptions.Accepted (options : DatabaseOptions) : Prop where
  load : LoadFactorOk options.maxLoadFactor
  shards : options.rowShardCount ≠ 0

section Covers
variable {H : HashFunctions} {rows live : RowLog} {count : Nat}

theorem Covers.mem (covers : Covers rows live count) {r : RowRecord} (inside : r.shardId < count) :
    r ∈ live ↔ r ∈ rows := by
  have same := congrArg (r ∈ ·) (covers.agree r.shardId inside)
  simp only [mem_shardLog, and_true] at same
  exact same.to_iff

theorem Covers.shardBytes (covers : Covers rows live count) {i : Nat} (inside : i < count) :
    LumoDB.shardBytes live i = LumoDB.shardBytes rows i := by
  rw [LumoDB.shardBytes, covers.agree i inside, LumoDB.shardBytes]

theorem covers_scanLog (rows : RowLog) (count : Nat) : Covers rows (scanLog rows 0 count) count where
  shards r member := by
    obtain ⟨_, _, upper⟩ := mem_scanLog.mp member
    omega
  agree i inside := shardLog_scanLog (Nat.zero_le i) (by omega)

theorem Covers.append (covers : Covers rows live count) {r : RowRecord} (inside : r.shardId < count) :
    Covers (rows ++ [r]) (live ++ [r]) count where
  shards r' member := by
    rcases List.mem_append.mp member with old | new
    · exact covers.shards r' old
    · rw [List.mem_singleton.mp new]
      exact inside
  agree i below := by
    have same := covers.agree i below
    unfold shardLog at same ⊢
    rw [List.filter_append, List.filter_append, same]

theorem Covers.complete (covers : Covers rows live count)
    (complete : ∀ r ∈ rows, r.Complete H) : ∀ r ∈ live, r.Complete H :=
  fun r member => complete r ((covers.mem (covers.shards r member)).mp member)

theorem RowIndexed.congr {shards shards' : Nat → Bytes} {m : RowKey → Option RowMap} {b : Bytes} {n : Nat}
    {slot : Nat → Option RowKey} {ref : RowKey → BlockRef} (indexed : RowIndexed H shards count m b n slot ref)
    (same : ∀ i < count, shards' i = shards i) : RowIndexed H shards' count m b n slot ref := by
  refine ⟨indexed.table, fun k => ⟨(indexed.represents k).1, fun content held => ?_⟩⟩
  obtain ⟨stored, block, at_ref⟩ := (indexed.represents k).2 content held
  refine ⟨stored, block, at_ref.shard, ?_, at_ref.size, at_ref.row⟩
  rw [same _ at_ref.shard]
  exact at_ref.located

end Covers

section Frames
variable {H : HashFunctions} {w w' : World} {objects : ObjectLog} {rows live : RowLog}

/-- The objects are served from the value file and the object index. -/
theorem ObjectStore.transfer (store : ObjectStore H w objects) (values : w'.disk .values = w.disk .values)
    (index : w'.disk .index = w.disk .index) (valuesMap : w'.members.maps .values = w.members.maps .values)
    (indexMap : w'.members.maps .index = w.members.maps .index)
    (append : w'.members.appendOffset = w.members.appendOffset) : ObjectStore H w' objects := by
  obtain ⟨b, n, slot, off, files⟩ := store
  exact ⟨b, n, slot, off, values.trans files.content, files.small, valuesMap.trans files.unmapped,
    index.trans files.index, indexMap.trans files.mapped, append.trans files.appendOffset, files.fits, files.table,
    files.represents⟩

theorem ObjectStore.rowStep (store : ObjectStore H w objects) (step : RowStep w w') : ObjectStore H w' objects :=
  store.transfer step.values step.index step.valuesMap step.indexMap step.appendOffset

theorem Serving.rowStep (serving : Serving w) (step : RowStep w w') : Serving w' :=
  ⟨step.isOpen.trans serving.isOpen, step.readOnly.trans serving.writable, by rw [step.options]; exact serving.load⟩

theorem RowStore.withObjects (store : RowStore H w live) (v b : Bytes) : RowStore H (w.withObjects v b) live := by
  obtain ⟨rb, n, slot, ref, files⟩ := store
  have shard : ∀ i, (w.withObjects v b).disk (.rowShard i) = w.disk (.rowShard i) := fun i => by
    simp [World.withObjects, World.withMapped, World.setFile, World.setMembers]
  have maps : ∀ i, (w.withObjects v b).members.maps (.rowShard i) = w.members.maps (.rowShard i) := fun i => by
    simp [World.withObjects, World.withMapped, World.setFile, World.setMembers, Members.setMap]
  refine ⟨rb, n, slot, ref,
    { reads := ⟨files.reads.shardCount, fun i inside => (shard i).trans (files.reads.content i inside),
        files.reads.small, fun i inside => by rw [maps]; exact files.reads.map i inside⟩
      positive := files.positive
      unmapped := fun i inside => (maps i).trans (files.unmapped i inside)
      index := ?_
      mapped := ?_
      appendOffsets := files.appendOffsets
      pending := files.pending
      complete := files.complete
      shards := files.shards
      table := files.table
      represents := files.represents }⟩
  · rw [← files.index]
    simp [World.withObjects, World.withMapped, World.setFile, World.setMembers]
  · rw [← files.mapped]
    simp [World.withObjects, World.withMapped, World.setFile, World.setMembers, Members.setMap]

theorem RowArchive.withObjects (archive : RowArchive H w rows) (v b : Bytes) : RowArchive H (w.withObjects v b) rows := by
  refine ⟨fun i => ?_, archive.small, archive.complete⟩
  have shard : (w.withObjects v b).disk (.rowShard i) = w.disk (.rowShard i) := by
    simp [World.withObjects, World.withMapped, World.setFile, World.setMembers]
  rw [shard]
  exact archive.disk i

/-- A row write that stored nothing kept the archive. -/
theorem RowArchive.refused (archive : RowArchive H w rows) (covers : Covers rows live w.members.options.rowShardCount)
    (step : RowStep w w') (store : RowStore H w' live) : RowArchive H w' rows := by
  obtain ⟨_, _, _, _, files⟩ := store
  have options := step.options
  refine ⟨fun i => ?_, archive.small, archive.complete⟩
  by_cases inside : i < w.members.options.rowShardCount
  · have content := files.reads.content i (by rw [options]; exact inside)
    exact Or.inl (by rw [content, covers.shardBytes inside])
  · rw [step.unused i (by omega)]
    exact archive.disk i

/-- A row write extends the archive by its block. -/
theorem RowArchive.written {r : RowRecord} (archive : RowArchive H w rows)
    (covers : Covers rows live w.members.options.rowShardCount) (inside : r.shardId < w.members.options.rowShardCount)
    (step : RowStep w w') (store : RowStore H w' (live ++ [r])) : RowArchive H w' (rows ++ [r]) := by
  obtain ⟨b, _, _, _, files⟩ := store
  have options := step.options
  have covers' := covers.append inside
  have other : ∀ i, w.members.options.rowShardCount ≤ i → shardLog (rows ++ [r]) i = shardLog rows i := by
    intro i above
    have apart : r.shardId ≠ i := by omega
    simp [shardLog, apart]
  have bytes : ∀ i, w.members.options.rowShardCount ≤ i → shardBytes (rows ++ [r]) i = shardBytes rows i := by
    intro i above
    rw [shardBytes, other i above, shardBytes]
  refine ⟨fun i => ?_, fun i => ?_, fun r' member => ?_⟩
  · by_cases below : i < w.members.options.rowShardCount
    · have content := files.reads.content i (by rw [options]; exact below)
      exact Or.inl (by rw [content, covers'.shardBytes below])
    · rw [step.unused i (by omega), bytes i (by omega), other i (by omega)]
      exact archive.disk i
  · by_cases below : i < w.members.options.rowShardCount
    · rw [← covers'.shardBytes below]
      exact files.reads.small i (by rw [options]; exact below)
    · rw [bytes i (by omega)]
      exact archive.small i
  · rcases List.mem_append.mp member with old | new
    · exact archive.complete r' old
    · exact files.complete r' (List.mem_append_right _ new)

end Frames

section Open
variable {H : HashFunctions} {w : World} {objects : ObjectLog} {rows live : RowLog} {options : DatabaseOptions}

/-- `w` with the options of a new session and no insertion pending. -/
def World.configured (w : World) (options : DatabaseOptions) : World :=
  w.setMembers fun m => { m with
    options := options
    readOnly := false
    rowPendingInsertCount := 0 }

theorem openDirectory_runs (directory : w.directory ≠ .other) :
    Runs (openDirectory false) w () { w with directory := .directory } := by
  obtain ⟨kind, disk, members⟩ := w
  cases kind with
  | other => exact absurd rfl directory
  | _ => rfl

theorem DatabaseOptions.rounded_same {rounded : DatabaseOptions} (given : options.rounded = some rounded) :
    rounded.rowShardCount = options.rowShardCount ∧ rounded.maxLoadFactor = options.maxLoadFactor := by
  unfold DatabaseOptions.rounded at given
  split at given
  · cases given
    exact ⟨rfl, rfl⟩
  · cases given

theorem DatabaseOptions.rounded_rows {rounded : DatabaseOptions} (given : options.rounded = some rounded) :
    roundUpPowerOfTwo options.initialRowBucketCount = some rounded.initialRowBucketCount := by
  unfold DatabaseOptions.rounded at given
  split at given
  case h_1 _ _ _ rows =>
    cases given
    exact rows
  case h_2 => cases given

/-- The options and the row index an `Open` leaves: it keeps the index, or has
made one with at least as many buckets as the options ask for. -/
structure RowCapacity (w w' : World) (options : DatabaseOptions) : Prop where
  kept : w'.members.options = options
  buckets : ¬ RowIndexRejected w options.rowShardCount ∧ w'.rowBuckets = w.rowBuckets ∨
    RowIndexRejected w options.rowShardCount ∧ options.initialRowBucketCount ≤ w'.rowBuckets

/-- The row side of a closed database. -/
structure RowsResting (H : HashFunctions) (w : World) (rows live : RowLog) (count : Nat) : Prop where
  unmapped : ∀ file, file ≠ .index → w.members.maps file = none
  archive : RowArchive H w rows
  rowIndex : RowIndexOnDisk H w rows live count
  covers : Covers rows live count

/-- What opening the row files leaves: the rows of the kept index or of a
scan are served, and the object side is as it was. -/
structure RowsOpened (H : HashFunctions) (w w' : World) (rows live live' : RowLog) (next : Nat) : Prop where
  choice : ¬ RowIndexRejected w w.members.options.rowShardCount ∧ live' = live ∧ next = w.nextSequence ∨
    RowIndexRejected w w.members.options.rowShardCount ∧
      live' = scanLog rows 0 w.members.options.rowShardCount ∧ next = nextAfter 1 live'
  capacity : RowCapacity w w' w.members.options
  covers : Covers rows live' w.members.options.rowShardCount
  archive : RowArchive H w' rows
  store : RowStore H w' live'
  next : w'.nextSequence = next
  others : ∀ file, file ≠ .rowIndex → (∀ i, file ≠ .rowShard i) → w'.disk file = w.disk file ∧
    w'.members.maps file = w.members.maps file
  appendOffset : w'.members.appendOffset = w.members.appendOffset
  readOnly : w'.members.readOnly = w.members.readOnly
  directory : w'.directory = w.directory

theorem RowStore.setOpen (store : RowStore H w live) : RowStore H (w.setMembers fun m => { m with isOpen := true }) live := by
  obtain ⟨b, n, slot, ref, files⟩ := store
  exact ⟨b, n, slot, ref,
    { reads := ⟨files.reads.shardCount, files.reads.content, files.reads.small, files.reads.map⟩
      positive := files.positive
      unmapped := files.unmapped
      index := files.index
      mapped := files.mapped
      appendOffsets := files.appendOffsets
      pending := files.pending
      complete := files.complete
      shards := files.shards
      table := files.table
      represents := files.represents }⟩

/-- The row files of a closed database open. -/
theorem openRows_runs (rest : RowsResting H w rows live w.members.options.rowShardCount)
    (load : LoadFactorOk w.members.options.maxLoadFactor) (positive : 0 < w.members.options.rowShardCount)
    (pending : w.members.rowPendingInsertCount = 0) (retries : Nat)
    (bounded : Bounded ((openRowValueFiles false).bind fun _ => openRowIndexFile H (retries + 1) false) w) :
    ∃ w' live' next, Runs ((openRowValueFiles false).bind fun _ => openRowIndexFile H (retries + 1) false) w () w' ∧
      RowsOpened H w w' rows live live' next := by
  obtain ⟨w₁, opened, frame⟩ := openRowValueFiles_runs (rest.archive.disk.shards.ready _) fun i _ => rest.archive.small i
  replace bounded := bounded.rest opened
  obtain ⟨disk, descriptors, rowShards, offsets, same⟩ := frame.same
  have options : w₁.members.options = w.members.options := by rw [same]
  have maps : ∀ file, w₁.members.maps file = w.members.maps file := by
    intro file
    rw [same]
  have others : ∀ file, (∀ i, file ≠ .rowShard i) → w₁.disk file = w.disk file :=
    fun file apart => frame.others file fun i _ => apart i
  have reads : ReadsShards w₁ (shardBytes rows) w₁.members.options.rowShardCount := by
    rw [options]
    exact ⟨frame.shardCount, frame.content, fun i _ => rest.archive.small i,
      fun i _ => Or.inl (by rw [maps, rest.unmapped _ (by simp)])⟩
  have rowDisk : RowIndexOnDisk H w₁ rows live w₁.members.options.rowShardCount := by
    rw [options, RowIndexOnDisk, RowIndexRejected, others _ (by simp)]
    exact rest.rowIndex
  obtain ⟨rb, indexed, which⟩ := openRowIndexFile_runs rowDisk
    (by rw [maps, rest.unmapped _ (by decide)]) reads (by rw [options]; exact frame.offsets) (by rw [options]; exact load)
    rest.archive.complete retries bounded
  set w₂ := w₁.opened .rowIndex rb with w₂_eq
  have options₂ : w₂.members.options = w.members.options := options
  obtain ⟨live', choice, capacity, covers, index⟩ : ∃ live',
      (¬ RowIndexRejected w w.members.options.rowShardCount ∧ live' = live ∧ rowSequence rb = w.nextSequence ∨
        RowIndexRejected w w.members.options.rowShardCount ∧
          live' = scanLog rows 0 w.members.options.rowShardCount ∧ rowSequence rb = nextAfter 1 live') ∧
        RowCapacity w w₂ w.members.options ∧ Covers rows live' w.members.options.rowShardCount ∧
        RowIndexOf H (shardBytes rows) w.members.options.rowShardCount live' rb := by
    rw [options, RowIndexRejected, others _ (by simp)] at which
    have content := w₁.opened_disk .rowIndex rb
    rcases which with ⟨present, kept⟩ | ⟨rejected, rebuilt, sequence, enough⟩
    · have buckets : w₂.rowBuckets = w.rowBuckets := by rw [World.rowBuckets, content, World.rowBuckets, present]
      exact ⟨live, Or.inl ⟨kept.not_rejected present, rfl, (World.nextSequence_eq present).symm⟩,
        ⟨options₂, Or.inl ⟨kept.not_rejected present, buckets⟩⟩, rest.covers, kept⟩
    · have larger : w.members.options.initialRowBucketCount ≤ w₂.rowBuckets := by
        rw [World.rowBuckets, content]
        exact enough
      exact ⟨_, Or.inr ⟨rejected, rfl, sequence⟩, ⟨options₂, Or.inr ⟨rejected, larger⟩⟩, covers_scanLog rows _, rebuilt⟩
  have shards : ∀ i, w₂.disk (.rowShard i) = w₁.disk (.rowShard i) := fun i => by
    rw [w₂_eq, World.opened_disk_ne _ _ (by simp)]
  have unmapped : ∀ i, w₂.members.maps (.rowShard i) = none := fun i => by
    rw [w₂_eq, World.opened_maps_ne _ _ (by simp), maps, rest.unmapped _ (by simp)]
  refine ⟨w₂, live', rowSequence rb, ?_,
    { choice := choice
      capacity := capacity
      covers := covers
      archive := ⟨fun i => ?_, rest.archive.small, rest.archive.complete⟩
      store := ?_
      next := World.nextSequence_eq (w₁.opened_disk .rowIndex rb)
      others := fun file other apart => ?_
      appendOffset := ?_
      readOnly := ?_
      directory := ?_ }⟩
  · unfold Runs
    rw [opened.bind]
    exact indexed
  · by_cases inside : i < w.members.options.rowShardCount
    · exact Or.inl (by rw [shards, frame.content i inside])
    · rw [shards, frame.others _ fun j below same => by
        have := FileId.rowShard.inj same
        omega]
      exact rest.archive.disk i
  · obtain ⟨rn, rslot, ref, rowIndexed⟩ := index
    have rowIndexed' := rowIndexed.congr fun i inside => (covers.shardBytes inside : shardBytes live' i = _)
    refine ⟨rb, rn, rslot, ref, ?_⟩
    exact
      { reads := by
          rw [options₂]
          refine ⟨frame.shardCount, fun i inside => ?_, fun i inside => ?_, fun i inside => Or.inl ?_⟩
          · rw [covers.shardBytes inside]
            exact (shards i).trans (frame.content i inside)
          · rw [covers.shardBytes inside]
            exact rest.archive.small i
          · exact unmapped i
        positive := by rw [options₂]; exact positive
        unmapped := fun i _ => unmapped i
        index := w₁.opened_disk .rowIndex rb
        mapped := w₁.opened_maps .rowIndex rb
        appendOffsets := by
          rw [options₂]
          intro i inside
          rw [covers.shardBytes inside]
          exact frame.offsets i inside
        pending := by
          change w₁.members.rowPendingInsertCount = 0
          rw [same]
          exact pending
        complete := covers.complete rest.archive.complete
        shards := by rw [options₂]; exact covers.shards
        table := by rw [options₂]; exact rowIndexed'.table
        represents := by rw [options₂]; exact rowIndexed'.represents }
  · rw [w₂_eq, World.opened_disk_ne _ _ other, World.opened_maps_ne _ _ other]
    exact ⟨others file apart, maps file⟩
  · change w₁.members.appendOffset = _
    rw [same]
  · change w₁.members.readOnly = _
    rw [same]
  · change w₁.directory = _
    rw [same]

/-- The files of a closed database open, with the indexes rebuilt where they
have to be. -/
theorem openFiles_runs (rest : Resting H w objects rows live w.members.options.rowShardCount)
    (load : LoadFactorOk w.members.options.maxLoadFactor) (positive : 0 < w.members.options.rowShardCount)
    (pending : w.members.rowPendingInsertCount = 0) (writable : w.members.readOnly = false) (retries : Nat)
    (bounded : Bounded (openFiles H (retries + 1) false) w) :
    ∃ w' live' next, Runs (openFiles H (retries + 1) false) w () w' ∧
      (¬ RowIndexRejected w w.members.options.rowShardCount ∧ live' = live ∧ next = w.nextSequence ∨
        RowIndexRejected w w.members.options.rowShardCount ∧
          live' = scanLog rows 0 w.members.options.rowShardCount ∧ next = nextAfter 1 live') ∧
      RowCapacity w w' w.members.options ∧
      Active H (w'.setMembers fun m => { m with isOpen := true }) objects
        ⟨rows, live', w.members.options.rowShardCount, next⟩ := by
  unfold openFiles at bounded
  have values := openValueFile_runs rest.values rest.small
  replace bounded := bounded.rest values
  set w₁ := (w.setFile .values (some (valueFileBytes objects))).setMembers fun m =>
    { m.setDescriptor .values true with appendOffset := (valueFileBytes objects).length } with w₁_eq
  have disk₁ : ∀ file, file ≠ .values → w₁.disk file = w.disk file := by
    intro file other
    simp [w₁_eq, World.setFile, World.setMembers, other]
  have values₁ : w₁.disk .values = some (valueFileBytes objects) := by
    simp [w₁_eq, World.setFile, World.setMembers]
  have index₁ : IndexOnDisk H w₁ objects := by
    intro b present
    rw [disk₁ _ (by decide)] at present
    exact rest.index b present
  obtain ⟨b, opened, n, slot, off, indexed⟩ := openIndexFile_runs index₁ (rest.unmapped .index)
    ⟨values₁, rest.small, Or.inl (rest.unmapped .values)⟩ load rest.fits rfl bounded.first
  replace bounded := bounded.rest opened
  set w₂ := w₁.opened .index b with w₂_eq
  have disk₂ : ∀ file, file ≠ .values → file ≠ .index → w₂.disk file = w.disk file := by
    intro file notValues notIndex
    rw [w₂_eq, World.opened_disk_ne _ _ notIndex, disk₁ _ notValues]
  have maps₂ : ∀ file, file ≠ .index → w₂.members.maps file = none := by
    intro file other
    rw [w₂_eq, World.opened_maps_ne _ _ other]
    exact rest.unmapped file
  have rowIndex₂ : w₂.disk .rowIndex = w.disk .rowIndex := disk₂ _ (by decide) (by decide)
  have rows₂ : RowsResting H w₂ rows live w₂.members.options.rowShardCount :=
    { unmapped := maps₂
      archive := ⟨fun i => by rw [disk₂ _ (by simp) (by simp)]; exact rest.archive.disk i, rest.archive.small, rest.archive.complete⟩
      rowIndex := by
        rw [RowIndexOnDisk, RowIndexRejected, rowIndex₂]
        exact rest.rowIndex
      covers := rest.covers }
  obtain ⟨w₃, live', next, opened₃, rows₃⟩ := openRows_runs rows₂ load positive pending retries bounded
  have capacity : RowCapacity w w₃ w.members.options := by
    refine ⟨rows₃.capacity.kept, ?_⟩
    have buckets := rows₃.capacity.buckets
    rw [RowIndexRejected, World.rowBuckets, World.rowBuckets, rowIndex₂] at buckets
    exact buckets
  have choice := rows₃.choice
  rw [RowIndexRejected, World.nextSequence, rowIndex₂] at choice
  refine ⟨w₃, live', next, ?_, choice, capacity, ⟨rfl, rows₃.readOnly.trans writable, ?_⟩, ?_, ?_,
    ⟨rows₃.archive.disk, rows₃.archive.small, rows₃.archive.complete⟩, rows₃.covers,
    rows₃.store.setOpen, congrArg DatabaseOptions.rowShardCount capacity.kept, rows₃.next⟩
  · unfold Runs openFiles
    rw [Prog.bind_eq, values.bind, Prog.bind_eq, opened.bind]
    exact opened₃
  · rw [show (w₃.setMembers fun m => { m with isOpen := true }).members.options = w.members.options from capacity.kept]
    exact load
  · exact (show w₃.directory = w.directory from rows₃.directory).trans_ne rest.directory
  · have store : ObjectStore H w₂ objects := by
      refine ⟨b, n, slot, off, ?_, rest.small, maps₂ _ (by decide), World.opened_disk _ _ _, World.opened_maps _ _ _, rfl,
        rest.fits, indexed.table, indexed.represents⟩
      rw [w₂_eq, World.opened_disk_ne _ _ (by decide), values₁]
    exact store.transfer (rows₃.others .values (by decide) (by simp)).1 (rows₃.others .index (by decide) (by simp)).1
      (rows₃.others .values (by decide) (by simp)).2 (rows₃.others .index (by decide) (by simp)).2 rows₃.appendOffset

end Open

end LumoDB
