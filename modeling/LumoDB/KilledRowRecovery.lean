import LumoDB.KilledRecovery
import LumoDB.KilledRow

namespace LumoDB
open ByteCodec Effects LinearProbing

section Keep
variable {H : HashFunctions} {w : World} {contents : Nat → Bytes} {x : Bytes} {n retries : Nat} {slot : Nat → Option RowKey}
  {ref : RowKey → BlockRef} {m : RowKey → Option RowMap} {objects : ObjectLog}

/-- `w'` is `w` with the row files open: the shards hold `contents`, and the row
index `x` represents the rows `m`. -/
structure RowsOpen (H : HashFunctions) (w w' : World) (contents : Nat → Bytes) (count : Nat) (m : RowKey → Option RowMap)
    (x : Bytes) (n : Nat) (slot : Nat → Option RowKey) (ref : RowKey → BlockRef) : Prop where
  store : ShardStore H w' contents m x n slot ref
  counted : w'.members.options.rowShardCount = count
  offsets : ∀ i < count, w'.members.rowAppendOffsets i = (contents i).length
  unused : ∀ i, count ≤ i → w'.disk (.rowShard i) = w.disk (.rowShard i)

/-- The step changed neither the options nor the directory. -/
structure SameSession (w w' : World) : Prop where
  options : w'.members.options = w.members.options
  readOnly : w'.members.readOnly = w.members.readOnly
  directory : w'.directory = w.directory

theorem ShardsReady.congr {w' : World} {count : Nat} (ready : ShardsReady w contents count)
    (same : ∀ i < count, w'.disk (.rowShard i) = w.disk (.rowShard i)) : ShardsReady w' contents count := by
  intro i inside
  rw [same i inside]
  exact ready i inside

/-- A closed database whose object files are open. -/
structure RowsClosed (w : World) : Prop where
  unmapped : ∀ file, file ≠ .index → w.members.maps file = none
  positive : 0 < w.members.options.rowShardCount
  load : LoadFactorOk w.members.options.maxLoadFactor
  pending : w.members.rowPendingInsertCount = 0

theorem ShardsOpened.rowsOpen {w₁ : World} (frame : ShardsOpened w w₁ contents) (closed : RowsClosed w)
    (small : ∀ i < w.members.options.rowShardCount, (contents i).length < 2 ^ 63)
    (indexed : RowIndexed H contents w.members.options.rowShardCount m x n slot ref) :
    RowsOpen H w (w₁.opened .rowIndex x) contents w.members.options.rowShardCount m x n slot ref ∧
      SameSession w (w₁.opened .rowIndex x) := by
  obtain ⟨found, descriptors, rowShards, offsets, same⟩ := frame.same
  have options : (w₁.opened .rowIndex x).members.options = w.members.options := by
    rw [World.opened, same]
    rfl
  have shard : ∀ i, (w₁.opened .rowIndex x).disk (.rowShard i) = w₁.disk (.rowShard i) := fun i =>
    World.opened_disk_ne _ _ (by simp)
  have unmapped : ∀ i, (w₁.opened .rowIndex x).members.maps (.rowShard i) = none := fun i => by
    rw [World.opened_maps_ne _ _ (by simp), same]
    exact closed.unmapped _ (by simp)
  refine ⟨⟨?_, congrArg DatabaseOptions.rowShardCount options, frame.offsets, fun i above => ?_⟩,
    options, by rw [World.opened, same]; rfl, by rw [World.opened, same]; rfl⟩
  · exact
      { reads := by
          rw [options]
          exact ⟨frame.shardCount, fun i inside => (shard i).trans (frame.content i inside), small,
            fun i _ => Or.inl (unmapped i)⟩
        positive := by rw [options]; exact closed.positive
        unmapped := fun i _ => unmapped i
        index := w₁.opened_disk .rowIndex x
        mapped := w₁.opened_maps .rowIndex x
        pending := by
          change w₁.members.rowPendingInsertCount = 0
          rw [same]
          exact closed.pending
        table := by rw [options]; exact indexed.table
        represents := by rw [options]; exact indexed.represents }
  · rw [shard, frame.others _ fun j below same => by
      have := FileId.rowShard.inj same
      omega]

/-- Shard files that begin with the header and an index of their rows open as
they are. -/
theorem openRows_keeps (ready : ShardsReady w contents w.members.options.rowShardCount) (closed : RowsClosed w)
    (small : ∀ i < w.members.options.rowShardCount, (contents i).length < 2 ^ 63) (present : w.disk .rowIndex = some x)
    (indexed : RowIndexed H contents w.members.options.rowShardCount m x n slot ref) :
    ∃ w', Runs ((openRowValueFiles false).bind fun _ => openRowIndexFile H retries false) w () w' ∧
      RowsOpen H w w' contents w.members.options.rowShardCount m x n slot ref ∧ SameSession w w' := by
  obtain ⟨w₁, opened, frame⟩ := openRowValueFiles_runs ready small
  obtain ⟨found, descriptors, rowShards, offsets, same⟩ := frame.same
  have options : w₁.members.options = w.members.options := by rw [same]
  have keeps : Runs (openRowIndexFile H retries false) w₁ () (w₁.opened .rowIndex x) :=
    openRowIndexFile_keeps ((frame.others .rowIndex fun _ _ => by simp).trans present)
      (by rw [options]; exact indexed.table.accepted)
  exact ⟨_, opened.bind.trans keeps, frame.rowsOpen closed small indexed⟩

/-- Shard files of complete blocks are scanned when the row index is missing or
rejected. -/
theorem openRows_rebuilds {log : RowLog} (ready : ShardsReady w (shardBytes log) w.members.options.rowShardCount)
    (closed : RowsClosed w) (small : ∀ i < w.members.options.rowShardCount, (shardBytes log i).length < 2 ^ 63)
    (complete : ∀ r ∈ log, r.Complete H) (rejected : RowIndexRejected w w.members.options.rowShardCount)
    (bounded : Bounded ((openRowValueFiles false).bind fun _ => openRowIndexFile H (retries + 1) false) w) :
    ∃ w' x n slot ref, Runs ((openRowValueFiles false).bind fun _ => openRowIndexFile H (retries + 1) false) w () w' ∧
      RowsOpen H w w' (shardBytes log) w.members.options.rowShardCount
        (putRows noRows (scanLog log 0 w.members.options.rowShardCount)) x n slot ref ∧ SameSession w w' := by
  obtain ⟨w₁, opened, frame⟩ := openRowValueFiles_runs ready small
  replace bounded := bounded.rest opened
  obtain ⟨found, descriptors, rowShards, offsets, same⟩ := frame.same
  have options : w₁.members.options = w.members.options := by rw [same]
  have maps : ∀ file, file ≠ .index → w₁.members.maps file = none := fun file other => by
    rw [same]
    exact closed.unmapped file other
  have rejected₁ : RowIndexRejected w₁ w₁.members.options.rowShardCount := by
    rw [options, RowIndexRejected, frame.others _ fun _ _ => by simp]
    exact rejected
  obtain ⟨x, rebuilt, which⟩ := openRowIndexFile_runs (show RowIndexOnDisk H w₁ log log _ from Or.inl rejected₁)
    (maps _ (by decide))
    (by rw [options]; exact ⟨frame.shardCount, frame.content, small, fun i _ => Or.inl (maps _ (by simp))⟩)
    (by rw [options]; exact frame.offsets) (by rw [options]; exact closed.load) complete retries bounded
  obtain ⟨n, slot, ref, indexed⟩ : RowIndexOf H (shardBytes log) w₁.members.options.rowShardCount
      (scanLog log 0 w₁.members.options.rowShardCount) x := by
    rcases which with ⟨present, kept⟩ | ⟨_, index, _⟩
    · exact absurd rejected₁ (kept.not_rejected present)
    · exact index
  rw [options] at indexed
  exact ⟨_, x, n, slot, ref, opened.bind.trans rebuilt, frame.rowsOpen closed small indexed⟩

theorem ShardStore.setOpen {b : Bytes} (store : ShardStore H w contents m b n slot ref) :
    ShardStore H (w.setMembers fun m => { m with isOpen := true }) contents m b n slot ref :=
  { store with reads := ⟨store.reads.shardCount, store.reads.content, store.reads.small, store.reads.map⟩ }

/-- The `Open` of a closed database with such object files reaches its row
files, and returns Ok when these open. -/
theorem openReadWrite_rows {options : DatabaseOptions} (closed : w.Closed) (directory : w.directory ≠ .other)
    (values : ValuesOnDisk w objects) (smallValues : (valueFileBytes objects).length < 2 ^ 63) (fits : ∀ r ∈ objects, r.1.Fits)
    (index : IndexOnDisk H w objects) (given : options.Accepted) (bounded : Bounded (openReadWrite H retries options) w) :
    ∃ w₁, RowsClosed w₁ ∧ w₁.members.options.rowShardCount = options.rowShardCount ∧
      (∀ file, file ≠ .values → file ≠ .index → w₁.disk file = w.disk file) ∧
      Bounded ((openRowValueFiles false).bind fun _ => openRowIndexFile H retries false) w₁ ∧
      ∀ {contents m x n slot ref w₂},
        Runs ((openRowValueFiles false).bind fun _ => openRowIndexFile H retries false) w₁ () w₂ →
        RowsOpen H w₁ w₂ contents options.rowShardCount m x n slot ref → SameSession w₁ w₂ →
        ∃ w', Runs (openReadWrite H retries options) w () w' ∧ Serving w' ∧ w'.directory ≠ .other ∧
          ObjectStore H w' objects ∧ RowsOpen H w w' contents options.rowShardCount m x n slot ref := by
  obtain ⟨rounded, chosen, bounded, opens⟩ := openReadWrite_opens closed.isOpen directory given bounded
  obtain ⟨sameCount, sameLoad⟩ := DatabaseOptions.rounded_same chosen
  set w₀ : World := { w.configured rounded with directory := .directory } with w₀_eq
  have opened := openValueFile_runs (w := w₀) values smallValues
  unfold openFiles at bounded
  replace bounded := bounded.rest opened
  set w₁ := (w₀.setFile .values (some (valueFileBytes objects))).setMembers fun m =>
    { m.setDescriptor .values true with appendOffset := (valueFileBytes objects).length } with w₁_eq
  have disk₁ : ∀ file, file ≠ .values → w₁.disk file = w.disk file := by
    intro file other
    simp [w₁_eq, w₀_eq, World.configured, World.setFile, World.setMembers, other]
  have index₁ : IndexOnDisk H w₁ objects := by
    intro b found
    rw [disk₁ _ (by decide)] at found
    exact index b found
  have load : LoadFactorOk rounded.maxLoadFactor := by
    rw [sameLoad]
    exact given.load
  obtain ⟨b, indexOpened, store⟩ := openIndexFile_store (w := w₁) (by simp [w₁_eq, World.setFile, World.setMembers])
    smallValues closed.maps index₁ (show LoadFactorOk w₁.members.options.maxLoadFactor from load) fits rfl bounded.first
  replace bounded := bounded.rest indexOpened
  set w₂ := w₁.opened .index b with w₂_eq
  have disk₂ : ∀ file, file ≠ .values → file ≠ .index → w₂.disk file = w.disk file := by
    intro file notValues notIndex
    rw [w₂_eq, World.opened_disk_ne _ _ notIndex, disk₁ _ notValues]
  have count : w₂.members.options.rowShardCount = options.rowShardCount := sameCount
  refine ⟨w₂, ⟨fun file other => ?_, count ▸ Nat.pos_of_ne_zero given.shards, load, rfl⟩, count, disk₂, bounded,
    @fun contents m x n slot ref w₃ rowsOpened rows same => ?_⟩
  · rw [w₂_eq, World.opened_maps_ne _ _ other]
    exact closed.maps file
  have kept := sameObjects_of_only (spares_openRows H retries false) (congrArg Outcome.state? rowsOpened)
  replace store := store.transfer kept.values kept.index kept.valuesMap kept.indexMap kept.appendOffset
  refine ⟨_, opens w₃ ?_, ⟨rfl, same.readOnly, ?_⟩, ?_, store.transfer rfl rfl rfl rfl rfl,
    ⟨rows.store.setOpen, rows.counted, rows.offsets, fun i above => (rows.unused i above).trans (disk₂ _ (by simp) (by simp))⟩⟩
  · unfold Runs openFiles
    rw [Prog.bind_eq, opened.bind, Prog.bind_eq, indexOpened.bind]
    exact rowsOpened
  · change LoadFactorOk w₃.members.options.maxLoadFactor
    rw [same.options]
    exact load
  · change w₃.directory ≠ .other
    rw [same.directory]
    exact (show DirectoryKind.directory ≠ .other by decide)

/-- With an index of such shard files the `Open` keeps it. -/
theorem openReadWrite_keepsRows {options : DatabaseOptions} (closed : w.Closed) (directory : w.directory ≠ .other)
    (values : ValuesOnDisk w objects) (smallValues : (valueFileBytes objects).length < 2 ^ 63) (fits : ∀ r ∈ objects, r.1.Fits)
    (index : IndexOnDisk H w objects) (ready : ShardsReady w contents options.rowShardCount)
    (small : ∀ i < options.rowShardCount, (contents i).length < 2 ^ 63) (present : w.disk .rowIndex = some x)
    (indexed : RowIndexed H contents options.rowShardCount m x n slot ref) (given : options.Accepted)
    (bounded : Bounded (openReadWrite H retries options) w) :
    ∃ w', Runs (openReadWrite H retries options) w () w' ∧ Serving w' ∧ w'.directory ≠ .other ∧ ObjectStore H w' objects ∧
      RowsOpen H w w' contents options.rowShardCount m x n slot ref := by
  obtain ⟨w₁, before, count, disk, _, opens⟩ :=
    openReadWrite_rows closed directory values smallValues fits index given bounded
  rw [← count] at ready small indexed
  obtain ⟨w₂, opened, rows, same⟩ := @openRows_keeps H _ _ _ _ retries _ _ _
    (ready.congr fun i _ => disk _ (by simp) (by simp)) before small ((disk _ (by decide) (by decide)).trans present) indexed
  rw [count] at rows
  exact opens opened rows same

/-- Without one, and with shard files of complete blocks, it makes one. -/
theorem openReadWrite_rebuildsRows {options : DatabaseOptions} {log : RowLog} (closed : w.Closed)
    (directory : w.directory ≠ .other) (values : ValuesOnDisk w objects) (smallValues : (valueFileBytes objects).length < 2 ^ 63)
    (fits : ∀ r ∈ objects, r.1.Fits) (index : IndexOnDisk H w objects)
    (ready : ShardsReady w (shardBytes log) options.rowShardCount)
    (small : ∀ i < options.rowShardCount, (shardBytes log i).length < 2 ^ 63) (complete : ∀ r ∈ log, r.Complete H)
    (rejected : RowIndexRejected w options.rowShardCount) (given : options.Accepted)
    (bounded : Bounded (openReadWrite H (retries + 1) options) w) :
    ∃ w' x n slot ref, Runs (openReadWrite H (retries + 1) options) w () w' ∧ Serving w' ∧ w'.directory ≠ .other ∧
      ObjectStore H w' objects ∧ RowsOpen H w w' (shardBytes log) options.rowShardCount
        (putRows noRows (scanLog log 0 options.rowShardCount)) x n slot ref := by
  obtain ⟨w₁, before, count, disk, bounded₁, opens⟩ :=
    openReadWrite_rows closed directory values smallValues fits index given bounded
  rw [← count] at ready small
  have rejected₁ : RowIndexRejected w₁ w₁.members.options.rowShardCount := by
    rw [count, RowIndexRejected, disk _ (by decide) (by decide)]
    exact rejected
  obtain ⟨w₂, x, n, slot, ref, opened, rows, same⟩ := openRows_rebuilds
    (ready.congr fun i _ => disk _ (by simp) (by simp)) before small complete rejected₁ bounded₁
  rw [count] at rows
  obtain ⟨w', runs, kept⟩ := opens opened rows same
  exact ⟨w', x, n, slot, ref, runs, kept⟩

end Keep

section Recover
variable {H : HashFunctions} {retries : Nat} {start options : DatabaseOptions} {trace : Trace} {w w' t : World}
  {objects : ObjectLog} {rows live : RowLog} {s : RowState} {count : Nat} {x tail : Bytes} {i : Nat} {call : Call}

/-- What a new process finds when only the row index differs from the files of
the session. -/
theorem Active.restingRow (active : Active H w objects s) (left : FileLeft .rowIndex w t x)
    (rowIndex : RowIndexOnDisk H t.reboot s.rows live count) (covers : Covers s.rows live count) :
    Resting H t.reboot objects s.rows live count := by
  obtain ⟨b, n, slot, off, files⟩ := active.objects
  have others : ∀ file, file ≠ .rowIndex → t.disk file = w.disk file := fun file other => by
    rw [left.disk, Function.update_of_ne other]
  exact
    { closed := rfl
      unmapped := fun _ => rfl
      directory := left.directory.trans_ne active.directory
      values := Or.inl ((others _ (by decide)).trans files.content)
      small := files.small
      fits := files.fits
      index := fun b' present => by
        obtain rfl : b' = b := Option.some.inj (present.symm.trans ((others _ (by decide)).trans files.index))
        exact Or.inr ⟨n, slot, off, files.table, files.represents⟩
      archive := ⟨fun i => by rw [World.reboot, others _ (by simp)]; exact active.archive.disk i, active.archive.small,
        active.archive.complete⟩
      rowIndex := rowIndex
      covers := covers }

/-- The rows of a session are served again when its row index is as it was or
rejected. -/
theorem Active.recoversRows (active : Active H w objects s) (fixed : Fixed H count trace s) (left : FileLeft .rowIndex w t x)
    (state : RowDiscarded x count ∨ w.disk .rowIndex = some x) (accepted : options.Accepted)
    (same : options.rowShardCount = count) (bounded : Bounded (openReadWrite H (retries + 1) options) t.reboot) :
    ∃ w' live, Runs (openReadWrite H (retries + 1) options) t.reboot () w' ∧ w'.members.isOpen = true ∧
      ObjectStore H w' objects ∧ RowStore H w' live ∧ putRows noRows live = putRows noRows s.live := by
  subst same
  have present : t.reboot.disk .rowIndex = some x := by
    rw [World.reboot, left.disk]
    simp
  obtain ⟨live, rest, again⟩ : ∃ live, Resting H t.reboot objects s.rows live options.rowShardCount ∧
      (¬ RowIndexRejected t.reboot options.rowShardCount → live = s.live) := by
    rcases state with discarded | kept
    · have rejected : RowIndexRejected t.reboot options.rowShardCount := fun b held => by
        obtain rfl : b = x := Option.some.inj (held.symm.trans present)
        exact discarded
      exact ⟨_, active.restingRow left (Or.inl rejected) (covers_scanLog s.rows _), fun found => absurd rejected found⟩
    · obtain ⟨b, held, index⟩ := active.keepsIndex
      obtain rfl : b = x := Option.some.inj (held.symm.trans kept)
      have covers := active.covers
      rw [fixed.counted] at index covers
      exact ⟨s.live, active.restingRow left (Or.inr ⟨b, present, index⟩) covers, fun _ => rfl⟩
  obtain ⟨w', live', next, opened, active', choice, _⟩ := openReadWrite_runs rest accepted retries bounded
  refine ⟨w', live', opened, active'.serving.isOpen, active'.objects, active'.rows, ?_⟩
  rcases choice with ⟨found, rfl, _⟩ | ⟨_, rfl, _⟩
  · rw [again found]
  · exact fixed.rescanned (Nat.pos_of_ne_zero accepted.shards)

theorem RowKept.untouched (kept : RowKept H w t s.live i tail x) {file : FileId} (apart : file ≠ .rowShard i)
    (other : file ≠ .rowIndex) : t.reboot.disk file = w.disk file := by
  rw [World.reboot, kept.disk, Function.update_of_ne other, Function.update_of_ne apart]

/-- The shards begin with the blocks of before: one of them may go on with the
unfinished block. -/
theorem RowKept.shards (kept : RowKept H w t s.live i tail x) (active : Active H w objects s) :
    ∃ shards, ShardsOnDisk t.reboot shards ∧ (∀ j, (shards j).length < 2 ^ 63) ∧
      ∀ j < s.count, shardBytes s.live j <+: shards j := by
  have inside := kept.inside
  rw [active.count] at inside
  have shared : shardBytes s.live i = shardBytes s.rows i := active.covers.shardBytes inside
  have here : Function.update (shardBytes s.rows) i (shardBytes s.rows i ++ tail) i = shardBytes s.rows i ++ tail :=
    Function.update_self ..
  refine ⟨Function.update (shardBytes s.rows) i (shardBytes s.rows i ++ tail), fun j => ?_, fun j => ?_, fun j below => ?_⟩
  · by_cases at_i : j = i
    · subst at_i
      rw [here]
      refine ⟨⟨_, List.append_assoc ..⟩, Or.inl ?_⟩
      rw [World.reboot, kept.disk, Function.update_of_ne (by simp), Function.update_self, shared]
    · rw [Function.update_of_ne at_i, kept.untouched (by simpa using at_i) (by simp)]
      exact active.archive.disk.shards j
  · by_cases at_i : j = i
    · subst at_i
      rw [here, ← shared]
      exact kept.small
    · rw [Function.update_of_ne at_i]
      exact active.archive.small j
  · rw [active.covers.shardBytes below]
    by_cases at_i : j = i
    · subst at_i
      rw [here]
      exact List.prefix_append _ _
    · rw [Function.update_of_ne at_i]

/-- So are the rows of before when an unfinished block was left behind a
shard. -/
theorem RowKept.recoversRows (kept : RowKept H w t s.live i tail x) (active : Active H w objects s) (accepted : options.Accepted)
    (same : options.rowShardCount = s.count) (bounded : Bounded (openReadWrite H retries options) t.reboot) :
    ∃ w' shards n slot ref, Runs (openReadWrite H retries options) t.reboot () w' ∧ w'.members.isOpen = true ∧
      ObjectStore H w' objects ∧ RowView H w' shards options.rowShardCount x n slot ref (putRows noRows s.live) := by
  obtain ⟨b, _, _, _, files⟩ := id active.objects
  obtain ⟨n, slot, ref, indexed⟩ := kept.index
  obtain ⟨shards, disk, small, longer⟩ := kept.shards active
  rw [active.count, ← same] at indexed
  rw [← same] at longer
  have closed : t.reboot.Closed := ⟨rfl, fun _ => rfl, fun _ => rfl⟩
  have values : ValuesOnDisk t.reboot objects := Or.inl ((kept.untouched (by simp) (by decide)).trans files.content)
  have index : IndexOnDisk H t.reboot objects := fun b' present => by
    obtain rfl : b' = b := Option.some.inj (present.symm.trans ((kept.untouched (by simp) (by decide)).trans files.index))
    exact Or.inr ⟨_, _, _, files.table, files.represents⟩
  obtain ⟨w', opened, serving, _, store, rows⟩ := openReadWrite_keepsRows closed
    (kept.directory.trans_ne active.directory) values files.small files.fits index (disk.ready _) (fun i _ => small i)
    (by rw [World.reboot, kept.disk, Function.update_self]) ⟨indexed.table, indexed.represents.append longer⟩ accepted bounded
  exact ⟨w', shards, n, slot, ref, opened, serving.isOpen, store, rows.counted ▸ rows.store.view⟩

/-- The calls that write a row. -/
def Call.PutsRow : Call → Prop
  | putRowStructs .. | putRowStruct .. => True
  | _ => False

theorem Active.killedRow (active : Active H w objects s) (puts : call.PutsRow)
    (bounded : Bounded (call.program H (retries + 1)) w) (killed : Killed (call.program H (retries + 1)) w t) :
    LeavesRow H (call.program H (retries + 1)) w w t s.live := by
  cases call with
  | putRowStructs column rowId entries =>
    exact killed_writeRowStructs (k := (column, rowId.toNat)) active.rows active.serving rowId.toNat_lt
      (fun given : true = false => nomatch given) retries bounded killed
  | putRowStruct column rowId key value =>
    exact killed_putRowStruct (k := (column, rowId.toNat)) active.rows active.serving rowId.toNat_lt retries bounded killed
  | _ => exact puts.elim

/-- After a kill at any point of a row write the next `Open` with the same shard
count returns Ok and serves the same objects. Its rows are those of before the
call, or those that the completed call leaves. -/
theorem killed_rowWrite_recovers (history : History H retries start trace w) (same : SameShards start.rowShardCount trace)
    (puts : call.PutsRow) (bounded : Bounded (call.program H (retries + 1)) w)
    (killed : Killed (call.program H (retries + 1)) w t) (accepted : options.Accepted)
    (count : options.rowShardCount = start.rowShardCount)
    (boundedOpen : Bounded (openReadWrite H (retries + 1) options) t.reboot) :
    ∃ w', Runs (openReadWrite H (retries + 1) options) t.reboot () w' ∧
      (∀ column key, SameAnswer (getStruct H column key) w w') ∧
      ((∀ column (rowId : UInt64) key, SameAnswer (getRowStruct H (retries + 1) column rowId.toNat key) w w') ∨
        ∃ w'', Runs (call.program H (retries + 1)) w () w'' ∧
          ∀ column (rowId : UInt64) key, SameAnswer (getRowStruct H (retries + 1) column rowId.toNat key) w'' w') := by
  obtain ⟨s, active, rowHistory⟩ := history.active
  have isOpen := active.serving.isOpen
  have fixed := rowHistory.fixed same
  rcases active.killedRow puts bounded killed with ⟨i, tail, x, kept⟩ | ⟨w'', x, completed, left, state⟩
  · obtain ⟨w', shards, n, slot, ref, opened, isOpen', store, view⟩ := kept.recoversRows active accepted
      (count.trans fixed.counted.symm) boundedOpen
    refine ⟨w', opened, active.objects.sameAnswer store isOpen isOpen', Or.inl fun column rowId key => ?_⟩
    exact sameAnswer_rowAnswer (getRowStruct_eq active.rows isOpen (column, rowId.toNat) key retries)
      (view.getRowStruct isOpen' (column, rowId.toNat) key retries)
  · have contract : call.Contract (written trace) := by
      cases call with
      | putRowStructs | putRowStruct => trivial
      | _ => exact puts.elim
    have noRecords : call.records = [] := by
      cases call with
      | putRowStructs | putRowStruct => rfl
      | _ => exact puts.elim
    obtain ⟨ok, v, s', served, _⟩ := active.serves contract bounded
    obtain ⟨rfl, rfl⟩ := served.returns.unique (.ok completed)
    have active' := served.active
    rw [if_pos rfl, noRecords, List.append_nil] at active'
    have fixed' := (RowHistory.call rowHistory served.effect).fixed fun options ok member => by
      rcases List.mem_append.mp member with earlier | last
      · exact same options ok earlier
      · rw [List.mem_singleton, Prod.mk.injEq] at last
        rw [← last.1] at puts
        exact puts.elim
    rw [active.count, fixed.counted] at state
    obtain ⟨w', live, opened, isOpen', store, rows, again⟩ := active'.recoversRows fixed' left state accepted count boundedOpen
    refine ⟨w', opened, active.objects.sameAnswer store isOpen isOpen', Or.inr ⟨v, completed, fun column rowId key => ?_⟩⟩
    have after := getRowStruct_eq rows isOpen' (column, rowId.toNat) key retries
    rw [again] at after
    exact sameAnswer_rowAnswer (getRowStruct_eq active'.rows active'.serving.isOpen (column, rowId.toNat) key retries) after

/-- A write that replaces the value of a stored row. -/
def replaceValue : Call := .putRowStructs [1] 4 [⟨[2], [7]⟩]

/-- The block is in its shard, and the index still points to the old one. -/
def World.unindexed (w : World) : World := cutAfter system 12 (replaceValue.program .shipped 1) w

/-- The bucket of the row is claimed and partly written. -/
def World.claimed (w : World) : World := cutAfter system 28 (replaceValue.program .shipped 1) w

/-- What the first `Open` after a kill answers for the row. -/
def World.answerAfter (t : World) : Option Bytes :=
  (run system (openReadWrite .shipped 1 (smallOptions 1 oneShard_lt)) t.reboot).state?.bind fun w' =>
    (run system (getRowStruct .shipped 1 [1] 4 [2]) w').value?

theorem replaced_history : ∃ w, History .shipped 0 (smallOptions 1) [(.putRowStructs [1] 4 [⟨[2], [3]⟩], true)] w ∧
    Bounded (replaceValue.program .shipped 1) w ∧
    (Bounded (openReadWrite .shipped 1 (smallOptions 1)) w.unindexed.reboot ∧ w.unindexed.answerAfter = some [3]) ∧
    Bounded (openReadWrite .shipped 1 (smallOptions 1)) w.claimed.reboot ∧ w.claimed.answerAfter = some [7] :=
  @History.exists_of_replay .shipped 0 (smallOptions 1) [.putRowStructs [1] 4 [⟨[2], [3]⟩]]
    [(.putRowStructs [1] 4 [⟨[2], [3]⟩], true)]
    (fun w => Bounded (replaceValue.program .shipped 1) w ∧
      (Bounded (openReadWrite .shipped 1 (smallOptions 1)) w.unindexed.reboot ∧ w.unindexed.answerAfter = some [3]) ∧
      Bounded (openReadWrite .shipped 1 (smallOptions 1)) w.claimed.reboot ∧ w.claimed.answerAfter = some [7]) _
    (by decide +kernel)

/-- A kill before the index is touched keeps the old value, and one inside the
publication of the bucket the new one. -/
theorem killed_rowWrite_recovers_sample : ∃ w before after,
    Killed (replaceValue.program .shipped 1) w w.unindexed ∧
    Runs (openReadWrite .shipped 1 (smallOptions 1)) w.unindexed.reboot () before ∧
    (run system (getRowStruct .shipped 1 [1] 4 [2]) before).value? = some [3] ∧
    Killed (replaceValue.program .shipped 1) w w.claimed ∧
    Runs (openReadWrite .shipped 1 (smallOptions 1)) w.claimed.reboot () after ∧
    (run system (getRowStruct .shipped 1 [1] 4 [2]) after).value? = some [7] := by
  obtain ⟨w, history, bounded, ⟨boundedBefore, old⟩, boundedAfter, new⟩ := replaced_history
  have same : SameShards 1 [(Call.putRowStructs [1] 4 [⟨[2], [3]⟩], true)] := fun options ok member => by simp at member
  have puts : replaceValue.PutsRow := trivial
  have cut : Killed (replaceValue.program .shipped 1) w w.unindexed := cutAfter_cutOff _ _ _
  have claimed : Killed (replaceValue.program .shipped 1) w w.claimed := cutAfter_cutOff _ _ _
  obtain ⟨before, opened, _⟩ := killed_rowWrite_recovers history same puts bounded cut (by decide +kernel) rfl boundedBefore
  obtain ⟨after, opened', _⟩ := killed_rowWrite_recovers history same puts bounded claimed (by decide +kernel) rfl
    boundedAfter
  rw [World.answerAfter, opened, Outcome.state?, Option.bind_some] at old
  rw [World.answerAfter, opened', Outcome.state?, Option.bind_some] at new
  exact ⟨w, before, after, cut, opened, old, claimed, opened', new⟩

end Recover

end LumoDB
