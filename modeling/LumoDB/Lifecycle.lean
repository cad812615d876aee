import LumoDB.Session

namespace LumoDB
open ByteCodec Effects LinearProbing

section Open
variable {H : HashFunctions} {w : World} {objects : ObjectLog} {rows live : RowLog} {options : DatabaseOptions}

theorem Bounded.closingOnError {p : Db Unit} (bounded : Bounded (closingOnError p) w) : Bounded p w :=
  (within_orElse bounded).1

theorem closingOnError_runs {p : Db Unit} {w' : World} (runs : Runs p w () w') : Runs (closingOnError p) w () w' := by
  unfold Runs closingOnError
  rw [run_orElse, runs, recover_ok]

theorem Resting.configured {rounded : DatabaseOptions} (rest : Resting H w objects rows live options.rowShardCount)
    (same : rounded.rowShardCount = options.rowShardCount) :
    Resting H { w.configured rounded with directory := .directory } objects rows live
      ({ w.configured rounded with directory := .directory } : World).members.options.rowShardCount where
  closed := rest.closed
  unmapped := rest.unmapped
  directory := nofun
  values := rest.values
  small := rest.small
  fits := rest.fits
  index := rest.index
  archive := ⟨rest.archive.disk, rest.archive.small, rest.archive.complete⟩
  rowIndex := by
    rw [show ({ w.configured rounded with directory := .directory } : World).members.options.rowShardCount =
      options.rowShardCount from same]
    exact rest.rowIndex
  covers := by
    rw [show ({ w.configured rounded with directory := .directory } : World).members.options.rowShardCount =
      options.rowShardCount from same]
    exact rest.covers

/-- An `Open` of a closed database with accepted options returns Ok when the
files open. -/
theorem openReadWrite_opens {retries : Nat} (closed : w.members.isOpen = false) (directory : w.directory ≠ .other)
    (accepted : options.Accepted) (bounded : Bounded (openReadWrite H retries options) w) :
    ∃ rounded, options.rounded = some rounded ∧
      Bounded (openFiles H retries false) { w.configured rounded with directory := .directory } ∧
      ∀ w', Runs (openFiles H retries false) { w.configured rounded with directory := .directory } () w' →
        Runs (openReadWrite H retries options) w () (w'.setMembers fun m => { m with isOpen := true }) := by
  have shut : Runs (closeIf w.members.isOpen) w () w := by
    rw [closed]
    rfl
  have load : ¬ (options.maxLoadFactor ≤ 0 ∨ 95 / 100 ≤ options.maxLoadFactor) := by
    rintro (low | high)
    · exact absurd accepted.load.1 (not_lt.mpr low)
    · exact absurd accepted.load.2 (not_lt.mpr high)
  unfold openReadWrite openInternal at bounded
  replace bounded := (bounded.rest (getMembers_runs w)).rest shut
  rw [if_neg load] at bounded
  cases given : options.rounded with
  | none =>
    rw [given] at bounded
    exact bounded.elim
  | some rounded =>
    rw [given] at bounded
    replace bounded := (bounded.rest rfl).rest (setMembers_runs _ w)
    rw [if_neg accepted.shards] at bounded
    have made := openDirectory_runs (w := w.configured rounded) directory
    refine ⟨rounded, rfl, Bounded.closingOnError (bounded.rest made).first, fun w' opened => ?_⟩
    unfold Runs openReadWrite openInternal
    rw [Prog.bind_eq, (getMembers_runs w).bind, Prog.bind_eq, shut.bind, if_neg load, given, Prog.bind_eq]
    refine (Runs.bind (p := orOverflow (some rounded)) rfl).trans ?_
    rw [Prog.bind_eq, (setMembers_runs _ w).bind, if_neg accepted.shards, Prog.bind_eq]
    refine (Runs.bind (p := openDirectory false) made).trans ?_
    rw [Prog.bind_eq, (closingOnError_runs opened).bind]
    rfl

/-- An `Open` with accepted options of a closed database returns Ok. It
serves the same objects, and the rows of the kept index or of a scan. -/
theorem openReadWrite_runs (rest : Resting H w objects rows live options.rowShardCount) (accepted : options.Accepted)
    (retries : Nat) (bounded : Bounded (openReadWrite H (retries + 1) options) w) :
    ∃ w' live' next, Runs (openReadWrite H (retries + 1) options) w () w' ∧
      Active H w' objects ⟨rows, live', options.rowShardCount, next⟩ ∧
      (¬ RowIndexRejected w options.rowShardCount ∧ live' = live ∧ next = w.nextSequence ∨
        RowIndexRejected w options.rowShardCount ∧ live' = scanLog rows 0 options.rowShardCount ∧
          next = nextAfter 1 live') ∧
      ∃ rounded, options.rounded = some rounded ∧ RowCapacity w w' rounded := by
  obtain ⟨rounded, given, bounded, opens⟩ := openReadWrite_opens rest.closed rest.directory accepted bounded
  obtain ⟨sameCount, sameLoad⟩ := DatabaseOptions.rounded_same given
  obtain ⟨w', live', next, opened, choice, capacity, active⟩ := openFiles_runs (rest.configured sameCount)
    (show LoadFactorOk rounded.maxLoadFactor by rw [sameLoad]; exact accepted.load)
    (show 0 < rounded.rowShardCount by rw [sameCount]; exact Nat.pos_of_ne_zero accepted.shards) rfl rfl retries bounded
  have count : ({ w.configured rounded with directory := .directory } : World).members.options.rowShardCount =
    options.rowShardCount := sameCount
  rw [count] at active choice
  exact ⟨_, live', next, opens w' opened, active, choice, rounded, given, capacity.kept, capacity.buckets⟩

end Open

section Close
variable {H : HashFunctions} {w : World} {objects : ObjectLog} {s : RowState}

/-- `w` after `Close`. -/
def World.shut (w : World) : World := w.setMembers fun m => { m.closed with isOpen := false, readOnly := false }

theorem syncRowValueFiles_runs (w : World) (rounds shardId : Nat) : Runs (syncRowValueFiles rounds shardId) w () w := by
  induction rounds generalizing shardId with
  | zero => rfl
  | succ rounds ih =>
    unfold Runs syncRowValueFiles
    rw [Prog.bind_eq, (syncFile_runs _ w).bind]
    exact ih (shardId + 1)

theorem flush_runs_of_mapped {size rowSize : Nat} (writable : w.members.readOnly = false)
    (index : w.members.maps .index = some ⟨size, true⟩) (rowIndex : w.members.maps .rowIndex = some ⟨rowSize, true⟩) :
    Runs flush w () w := by
  have indexWritable : w.writable .index = true := by rw [World.writable, index]
  have rowWritable : w.writable .rowIndex = true := by rw [World.writable, rowIndex]
  have synced : Runs (syncIf (w.members.descriptors .rowIndex) .rowIndex) w () w := by
    cases w.members.descriptors .rowIndex <;> rfl
  unfold Runs flush
  rw [Prog.bind_eq, (getMembers_runs w).bind, if_neg (by rw [writable]; decide), if_neg (by rw [index]; simp), Prog.bind_eq,
    (syncFile_runs _ w).bind, Prog.bind_eq, (syncRowValueFiles_runs w _ _).bind, Prog.bind_eq,
    (msyncFile_runs .rowIndex (Or.inr rowWritable)).bind, Prog.bind_eq, synced.bind, Prog.bind_eq,
    (msyncFile_runs .index (Or.inr indexWritable)).bind]
  exact syncFile_runs .index w

theorem flush_runs (active : Active H w objects s) : Runs flush w () w := by
  obtain ⟨b, _, _, _, files⟩ := active.objects
  obtain ⟨rb, _, _, _, rowFiles⟩ := active.rows
  exact flush_runs_of_mapped active.serving.writable files.mapped rowFiles.mapped

/-- A database that can be flushed can be closed. -/
theorem close_runs_of_flush (isOpen : w.members.isOpen = true) (flushes : Runs flush w () w) : Runs close w () w.shut := by
  have flushed : Runs (flush.orElse fun e => do
      closeFiles
      setMembers fun m => { m with isOpen := false, readOnly := false }
      .fail e) w () w := by
    unfold Runs
    rw [run_orElse, flushes, recover_ok]
  unfold Runs close
  rw [Prog.bind_eq, (getMembers_runs w).bind, if_neg (by simp [isOpen]), Prog.bind_eq, flushed.bind]
  rfl

theorem close_runs (active : Active H w objects s) : Runs close w () w.shut :=
  close_runs_of_flush active.serving.isOpen (flush_runs active)

/-- After the session the row index still represents its rows. -/
theorem Active.keepsIndex (active : Active H w objects s) :
    ∃ b, w.shut.disk .rowIndex = some b ∧ RowIndexOf H (shardBytes s.rows) s.count s.live b := by
  obtain ⟨b, n, slot, ref, files⟩ := active.rows
  have indexed : RowIndexed H (shardBytes s.live) s.count (putRows noRows s.live) b n slot ref := by
    rw [← active.count]
    exact ⟨files.table, files.represents⟩
  exact ⟨b, files.index, n, slot, ref, indexed.congr fun i inside => (active.covers.shardBytes inside).symm⟩

/-- Another shard count than the session's makes the layout check reject the
row index. -/
theorem Active.rejectsIndex (active : Active H w objects s) {count : Nat}
    (other : count ≠ s.count) : RowIndexRejected w.shut count := by
  obtain ⟨rb, n, slot, ref, files⟩ := active.rows
  intro b present
  have same : b = rb := Option.some.inj (present.symm.trans files.index)
  subst same
  have shards := files.table.shards.trans active.count
  refine ⟨fun ⟨n', file, _⟩ => ?_, fun exceeds => ?_⟩
  · exact other (file.shards.symm.trans shards)
  · exact other (exceeds.1.2.2.2.2.1.symm.trans shards)

/-- What a closed database holds, when an `Open` finds the row index as
`rowIndex` says. -/
theorem Active.resting {live' : RowLog} {count : Nat} (active : Active H w objects s)
    (rowIndex : RowIndexOnDisk H w.shut s.rows live' count) (covers : Covers s.rows live' count) :
    Resting H w.shut objects s.rows live' count := by
  obtain ⟨b, n, slot, off, files⟩ := active.objects
  exact
    { closed := rfl
      unmapped := fun _ => rfl
      directory := active.directory
      values := Or.inl files.content
      small := files.small
      fits := files.fits
      index := fun b' present => by
        have same : b' = b := Option.some.inj (present.symm.trans files.index)
        rw [same]
        exact Or.inr ⟨n, slot, off, files.table, files.represents⟩
      archive := ⟨active.archive.disk, active.archive.small, active.archive.complete⟩
      rowIndex := rowIndex
      covers := covers }

/-- What closing and opening with `count` shards does to the rows: with the
same count they stay as they are, with another one they are scanned. -/
def RowState.reopened (s : RowState) (count : Nat) : RowState :=
  if count = s.count then s
  else ⟨s.rows, scanLog s.rows 0 count, count, nextAfter 1 (scanLog s.rows 0 count)⟩

/-- Closing and opening again returns Ok. -/
theorem reopen_runs {options : DatabaseOptions} (active : Active H w objects s) (accepted : options.Accepted)
    (retries : Nat) (bounded : Bounded (openReadWrite H (retries + 1) options) w.shut) :
    ∃ w', Runs (openReadWrite H (retries + 1) options) w.shut () w' ∧
      Active H w' objects (s.reopened options.rowShardCount) ∧
      ∃ rounded, options.rounded = some rounded ∧ RowCapacity w.shut w' rounded := by
  by_cases again : options.rowShardCount = s.count
  · obtain ⟨b, present, index⟩ := active.keepsIndex
    have rest := active.resting (Or.inr ⟨b, present, index⟩) active.covers
    rw [← again] at rest index
    obtain ⟨w', live', next, opened, active', choice, capacity⟩ := openReadWrite_runs rest accepted retries bounded
    refine ⟨w', opened, ?_, capacity⟩
    obtain ⟨_, rfl, numbered⟩ := choice.resolve_right fun rebuilt => index.not_rejected present rebuilt.1
    rw [RowState.reopened, if_pos again]
    rw [numbered, again, show w.shut.nextSequence = s.next from active.next] at active'
    exact active'
  · have rejected := active.rejectsIndex again
    have rest := active.resting (Or.inl rejected) (covers_scanLog s.rows _)
    obtain ⟨w', live', next, opened, active', choice, capacity⟩ := openReadWrite_runs rest accepted retries bounded
    refine ⟨w', opened, ?_, capacity⟩
    rw [RowState.reopened, if_neg again]
    obtain ⟨_, rfl, rfl⟩ := choice.resolve_left fun kept => kept.1 rejected
    exact active'

/-- A directory without files rests. -/
theorem resting_fresh (H : HashFunctions) (count : Nat) : Resting H {} [] [] [] count where
  closed := rfl
  unmapped _ := rfl
  directory := nofun
  values := Or.inr ⟨rfl, Or.inl rfl⟩
  small := by rw [valueFileBytes_length]; decide
  fits := nofun
  index := nofun
  archive := ⟨fun _ => Or.inr ⟨rfl, Or.inl rfl⟩, fun i => by rw [shardBytes_length]; exact (by decide : 24 + 0 < 2 ^ 63), nofun⟩
  rowIndex := Or.inl nofun
  covers := ⟨nofun, fun _ _ => rfl⟩

end Close

end LumoDB
