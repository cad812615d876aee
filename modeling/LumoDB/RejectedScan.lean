import LumoDB.InterruptedMigration
import LumoDB.ReadOnlyRefinement
import LumoDB.ShardScan

namespace LumoDB
open ByteCodec Effects LinearProbing LinearScan

/-- `Open` refuses a shard file that is not empty and has no valid header. -/
def BadShard (content : Option Bytes) : Prop := ∃ b, content = some b ∧ b ≠ [] ∧ ¬ HasHeader kRowValueFileMagic b

/-- `Open` comes to the scan of the value file or of the shards, which ends
with an error. -/
inductive RejectsScan (H : HashFunctions) (retries : Nat) (w : World) : Status → World → Prop
  | values {u created w' : World} {e : Status} (opens : Runs (openValueFile false) w () u)
      (rebuilds : run system (openIndexFile H false) u = run system (rebuildIndexFromValues H) created)
      (rejects : run system (rebuildIndexFromValues H) created = .error e w') : RejectsScan H retries w e w'
  | shards {u u₁ u₂ created w' : World} {e : Status} (opens : Runs (openValueFile false) w () u)
      (index : Runs (openIndexFile H false) u () u₁) (shards : Runs (openRowValueFiles false) u₁ () u₂)
      (rebuilds : run system (openRowIndexFile H retries false) u₂ = run system (rebuildRowIndexFromValues H retries) created)
      (rejects : run system (rebuildRowIndexFromValues H retries) created = .error e w') : RejectsScan H retries w e w'

/-- Failing calls of `Open` and `OpenReadOnly` lead from `w` to the second
state. -/
inductive Retried (H : HashFunctions) (retries : Nat) (options : DatabaseOptions) (w : World) : World → Prop
  | start : Retried H retries options w w
  | again {w₁ w₂ : World} {e : Status} {readOnly : Bool} (before : Retried H retries options w w₁)
      (failed : run system (openInternal H retries options readOnly) w₁ = .error e w₂) : Retried H retries options w w₂

/-- Every following `Open` and `OpenReadOnly` with these options fails. -/
def FailsAgain (H : HashFunctions) (retries : Nat) (options : DatabaseOptions) (w : World) : Prop :=
  ∀ w₁, Retried H retries options w w₁ → ∀ readOnly, ∃ e w₂,
    run system (openInternal H retries options readOnly) w₁ = .error e w₂

/-- What an `Open` reads of a shard file: an empty one gets a header first. -/
def shardContents (w : World) (i : Nat) : Bytes :=
  if w.present (.rowShard i) = [] then rowValueFileHeader.encode else w.present (.rowShard i)

/-- No file has `2 ^ 63` bytes, and the indexes can grow to what is found in
the files. -/
structure Spacious (w : World) (d : Nat) : Prop where
  files : ∀ file b, w.disk file = some b → b.length < 2 ^ 63
  values : ∀ u v, Runs (openValueFile false) w () u → u.disk .values = some v → v.length < 2 ^ 63 ∧ Roomy u v d
  rows : RowRoomy w (shardContents w) w.members.options.rowShardCount d
  buckets : ∀ n, roundUpPowerOfTwo w.members.options.initialBucketCount = some n → 64 + 16 * n < 2 ^ 63
  rowBuckets : ∀ n, roundUpPowerOfTwo w.members.options.initialRowBucketCount = some n → 64 + 64 * n < 2 ^ 63

section Values
variable {w u : World}

/-- The value file is open, and nothing but the files of a migration has
changed. -/
structure ValuesOpened (w u : World) : Prop where
  value : ∃ v, u.disk .values = some v ∧ HasHeader kValueFileMagic v
  index : u.disk .index = w.disk .index ∨ u.disk .index = none
  others : ∀ file, file ≠ .values → file ≠ .migrating → file ≠ .index → u.disk file = w.disk file
  same : ∃ disk descriptors offset,
    u = { w with disk := disk, members := { w.members with descriptors := descriptors, appendOffset := offset } }

theorem hasHeader_written (more : Bytes) : HasHeader kValueFileMagic (valueFileBytes [] ++ more) := hasHeader_of_begins rfl

/-- A migration that returns Ok has put a file of the new format in place. -/
theorem migrateLegacyValueFile_opens {s : Bytes} (content : w.disk .values = some s) (small : s.length < 2 ^ 63)
    (runs : Runs (migrateLegacyValueFile s.length) w () u) : ValuesOpened w u := by
  obtain ⟨offset, w₂, writes, _⟩ := migrateLegacyValueFile_inv runs
  have values : w.migrating.disk .values = some s := by
    rw [World.migrating, World.found_disk_ne _ _ (by decide), content]
  have temporary : w.migrating.disk .migrating = some (w.present .migrating) := World.found_disk _ _ _
  have length : (valueFileBytes (migratedLog [])).length = 24 := by rw [valueFileBytes_length]; rfl
  have loops := writes
  rw [Runs, writeMigrationFile_starts temporary] at loops
  obtain ⟨destination, w₃, loop, ended⟩ := Runs.split loops
  obtain ⟨more, rfl⟩ := migrateLoop_extends (t := valueFileBytes (migratedLog [])) (by simp [World.setFile, values])
    (by simp [World.setFile]) length le_rfl small loop
  rw [Runs, (syncFile_runs _ _).bind] at ended
  cases ended
  simp only [World.setFile_setFile] at writes
  obtain ⟨_, rfl⟩ := Runs.unique runs (migrateLegacyValueFile_runs writes)
  refine ⟨⟨valueFileBytes [] ++ more, by simp [World.migrated, World.setFile, World.setMembers, migratedLog],
    hasHeader_written more⟩, Or.inr (by simp [World.migrated, World.setFile, World.setMembers]), fun file notValues notMigrating
    notIndex => ?_, ⟨_, _, _, rfl⟩⟩
  simp [World.migrated, World.setFile, World.setMembers, notValues, notMigrating, notIndex]

/-- So has an `Open` of the value file. -/
theorem openValueFile_opens (small : ∀ b, w.disk .values = some b → b.length < 2 ^ 63)
    (runs : Runs (openValueFile false) w () u) : ValuesOpened w u := by
  set s := w.present .values with s_eq
  have small' : s.length < 2 ^ 63 := by
    cases held : w.disk .values with
    | some b =>
      have same : s = b := by rw [s_eq, World.present, held]; rfl
      rw [same]
      exact small b held
    | none =>
      have empty : s = [] := by rw [s_eq, World.present, held]; rfl
      rw [empty]
      decide
  have opening : Runs (openAs false .values) w () (w.found .values s) := openReadWriteCreate_runs w .values
  have content := w.found_disk .values s
  rw [Runs, openValueFile, Prog.bind_eq, opening.bind, Prog.bind_eq, (getFileSize_runs content).bind] at runs
  by_cases empty : s.length = 0
  · have nothing : s = [] := List.eq_nil_of_length_eq_zero empty
    have header := @writeAllAt_runs _ _ _ 0 (({ : ValueFileHeader }).encode) content
      (List.ne_nil_of_length_pos (by rw [valueHeader_length]; decide)) (by rw [valueHeader_length]; decide)
    rw [if_pos empty, if_neg (by decide), Prog.bind_eq, header.bind] at runs
    cases runs
    have written : patch s 0 ({ : ValueFileHeader }).encode = valueFileBytes [] ++ [] := by
      simp [nothing, patch, valueFileBytes, encodeLog]
    rw [written]
    refine ⟨⟨_, by simp [World.setFile, World.setMembers], hasHeader_written []⟩, Or.inl ?_, fun file notValues _ _ => ?_,
      ⟨_, _, _, rfl⟩⟩
    · simp [World.found, World.setFile, World.setMembers]
    · simp [World.found, World.setFile, World.setMembers, notValues]
  · rw [if_neg empty] at runs
    by_cases short : s.length < 24
    · rw [if_pos short] at runs
      cases runs
    · have header := @readAllAt_runs _ _ _ 0 24 content (by omega) small'
      rw [if_neg short, Prog.bind_eq, header.bind] at runs
      simp only at runs
      by_cases legacy : isValidFileHeader kLegacyValueFileMagic (ValueFileHeader.decode (slice s 0 24)) = true
      · rw [if_pos legacy, if_neg (by decide)] at runs
        obtain ⟨value, index, others, same⟩ := migrateLegacyValueFile_opens content small' runs
        rw [World.found_disk_ne _ _ (by decide)] at index
        refine ⟨value, index, fun file notValues notMigrating notIndex => ?_, ?_⟩
        · rw [others file notValues notMigrating notIndex, World.found_disk_ne _ _ notValues]
        · obtain ⟨disk, descriptors, offset, rfl⟩ := same
          exact ⟨disk, descriptors, offset, rfl⟩
      · by_cases valid : isValidFileHeader kValueFileMagic (ValueFileHeader.decode (slice s 0 24)) = true
        · rw [if_neg legacy, if_neg (not_not.mpr valid)] at runs
          cases runs
          refine ⟨⟨s, content, Nat.not_lt.mp short, valid⟩, Or.inl ?_, fun file notValues _ _ => ?_, ⟨_, _, _, rfl⟩⟩
          · exact w.found_disk_ne s (show FileId.index ≠ .values by decide)
          · exact w.found_disk_ne s notValues
        · rw [if_neg legacy, if_pos valid] at runs
          cases runs

end Values

section Index
variable {H : HashFunctions} {w w' : World} {v : Bytes} {n d e : Nat}

theorem Scanned.accepted {b : Bytes} {passed : List Nat} {slot : Nat → Option ObjectKey} {off : ObjectKey → Nat}
    (scanned : Scanned H v b passed n slot off) : Accepted b := scanned.table.accepted

/-- However a scan of the value file returns, it leaves an index that the
layout check accepts. -/
theorem rebuilding_leaves (reads : ReadsValues w v) (roomy : Roomy w v d) (power : n = 2 ^ e) (small : 64 + 16 * n < 2 ^ 63)
    (whole : 24 ≤ v.length) (ended : (rebuilding H w n).state? = some w') :
    ∃ b offset, Accepted b ∧ w' = (w.withMapped .index b).setMembers fun m => { m with appendOffset := offset } := by
  rw [rebuilding_eq reads] at ended
  rcases ends_or_stops_or_stays (contained_recordStep v) whole with
    ⟨passed, reaches, few⟩ | ⟨passed, offset, reaches, few, below, stops⟩ | ⟨passed, offset, reaches, below, stays⟩
  · obtain ⟨b, n', slot, off, scanned, loops⟩ := rebuildLoop_ends (H := H) reads roomy power small whole reaches
    rw [show v.length + 1 = v.length - passed.length + 1 + passed.length by omega, loops] at ended
    cases ended
    exact ⟨b, v.length, scanned.accepted, rfl⟩
  · obtain ⟨status, b, n', slot, off, scanned, loops⟩ := rebuildLoop_rejects (H := H) reads roomy power small whole reaches
      below (Option.map_eq_none_iff.mp stops)
    rw [show v.length + 1 = v.length - passed.length + 1 + passed.length by omega, loops] at ended
    cases ended
    exact ⟨b, w.members.appendOffset, scanned.accepted, rfl⟩
  · rw [rebuildLoop_endless reads roomy power small whole reaches below stays] at ended
    cases ended

/-- An index that is missing or rejected is made anew and filled by the
scan. -/
theorem openIndexFile_scans (unmapped : w.members.maps .index = none) (small : (w.present .index).length < 2 ^ 63)
    (refused : ¬ Accepted (w.present .index)) (inside : ¬ Overreads (w.present .index))
    (given : roundUpPowerOfTwo w.members.options.initialBucketCount = some n) (room : 64 + 16 * n < 2 ^ 63) :
    run system (openIndexFile H false) w = rebuilding H (w.found .index (w.present .index)) n := by
  have created : Runs (createEmptyIndex (w.found .index (w.present .index)).members.options.initialBucketCount)
      (w.found .index (w.present .index)) () ((w.found .index (w.present .index)).withMapped .index (emptyIndex n)) :=
    createEmptyIndex_runs (w.found_disk .index _) given room
  rw [openIndexFile, openChecked_rebuilds unmapped small fun _ =>
      hasValidIndexLayout_rejects (w.sees_opened .index _) small refused inside,
    createAndRebuildIndex, Prog.bind_eq, (getMembers_runs _).bind, Prog.bind_eq, created.bind]

/-- So does an `Open` of the index, whether it keeps the index or rebuilds
it. -/
theorem openIndexFile_leaves (reads : ReadsValues w v) (roomy : Roomy w v d) (whole : 24 ≤ v.length)
    (unmapped : w.members.maps .index = none) (small : (w.present .index).length < 2 ^ 63)
    (buckets : ∀ n, roundUpPowerOfTwo w.members.options.initialBucketCount = some n → 64 + 16 * n < 2 ^ 63)
    (ended : (run system (openIndexFile H false) w).state? = some w') :
    ∃ b offset, Accepted b ∧ w' = (w.opened .index b).setMembers fun m => { m with appendOffset := offset } := by
  set b := w.present .index with b_eq
  have sees := w.sees_opened .index b
  by_cases accepted : Accepted b
  · have present : w.disk .index = some b := by
      cases held : w.disk .index with
      | some found => rw [b_eq, World.present, held]; rfl
      | none =>
        have empty : b = [] := by rw [b_eq, World.present, held]; rfl
        rw [empty] at accepted
        exact absurd accepted not_accepted_nil
    rw [openIndexFile_keeps present accepted] at ended
    cases ended
    exact ⟨b, w.members.appendOffset, accepted, rfl⟩
  · by_cases exceeds : Overreads b
    · have length := exceeds.length_eq.1
      have faults : run system (openIndexFile H false) w = .fault :=
        openChecked_faults (show 0 < b.length by omega) small (hasValidIndexLayout_overreads sees exceeds)
      rw [faults] at ended
      cases ended
    · cases given : roundUpPowerOfTwo w.members.options.initialBucketCount with
      | none =>
        have overflow : run system (createEmptyIndex (w.found .index b).members.options.initialBucketCount) (w.found .index b) =
            .overflow := by
          change run system (createEmptyIndex w.members.options.initialBucketCount) _ = _
          rw [createEmptyIndex, given]
          rfl
        rw [openIndexFile, openChecked_rebuilds unmapped small fun _ => hasValidIndexLayout_rejects sees small accepted exceeds,
          createAndRebuildIndex, Prog.bind_eq, (getMembers_runs _).bind, Prog.bind_eq, run_bind_overflow _ overflow] at ended
        cases ended
      | some n =>
        have room := buckets n given
        obtain ⟨_, e, _, _, power⟩ := roundUpPowerOfTwo_spec given
        have reads' : ReadsValues (w.found .index b) v :=
          ⟨by rw [w.found_disk_ne b (by decide), reads.content], reads.small, reads.map⟩
        rw [openIndexFile_scans unmapped small accepted exceeds given room] at ended
        obtain ⟨b', offset, accepted', rfl⟩ := rebuilding_leaves (H := H) reads'
          ⟨roomy.load, fun ks nodup meets => ⟨(roomy.room ks nodup meets).small, (roomy.room ks nodup meets).enough⟩⟩ power room
          whole ended
        refine ⟨b', offset, accepted', ?_⟩
        rw [World.found_withMapped]

end Index

section Rows
variable {H : HashFunctions} {w w' : World} {shards : Nat → Bytes} {d retries : Nat} {e : Status}

theorem RowRoomy.congr {count : Nat} (roomy : RowRoomy w shards count d)
    (same : w'.members.options.maxLoadFactor = w.members.options.maxLoadFactor) : RowRoomy w' shards count d where
  load := by rw [same]; exact roomy.load
  room ks nodup met := ⟨(roomy.room ks nodup met).small, by rw [same]; exact (roomy.room ks nodup met).enough⟩

/-- A scan of the shards that fails leaves a row index that the layout check
accepts, and the shards as they are. -/
theorem openRowIndexFile_leaves (reads : ReadsUnmapped w shards w.members.options.rowShardCount)
    (whole : ∀ i < w.members.options.rowShardCount, 24 ≤ (shards i).length)
    (roomy : RowRoomy w shards w.members.options.rowShardCount d) (unmapped : w.members.maps .rowIndex = none)
    (small : (w.present .rowIndex).length < 2 ^ 63)
    (buckets : ∀ n, roundUpPowerOfTwo w.members.options.initialRowBucketCount = some n → 64 + 64 * n < 2 ^ 63)
    (failed : run system (openRowIndexFile H (retries + 1) false) w = .error e w') :
    (∃ b, w'.disk .rowIndex = some b ∧ RowAccepted b w.members.options.rowShardCount) ∧
      ∀ i < w.members.options.rowShardCount, w'.disk (.rowShard i) = some (shards i) := by
  set b := w.present .rowIndex with b_eq
  have sees := w.sees_opened .rowIndex b
  by_cases accepted : RowAccepted b w.members.options.rowShardCount
  · have present : w.disk .rowIndex = some b := by
      cases held : w.disk .rowIndex with
      | some found => rw [b_eq, World.present, held]; rfl
      | none =>
        have empty : b = [] := by rw [b_eq, World.present, held]; rfl
        rw [empty] at accepted
        exact absurd accepted (not_rowAccepted_nil _)
    rw [openRowIndexFile_keeps present accepted] at failed
    cases failed
  · by_cases exceeds : RowOverreads b w.members.options.rowShardCount
    · have length := exceeds.length_eq.1
      have faults : run system (openRowIndexFile H (retries + 1) false) w = .fault :=
        openChecked_faults (show 0 < b.length by omega) small (hasValidRowIndexLayout_overreads sees exceeds)
      cases faults.symm.trans failed
    · rw [openRowIndexFile, openChecked_rebuilds unmapped small fun _ => hasValidRowIndexLayout_rejects sees small accepted exceeds,
        createAndRebuildRowIndex, Prog.bind_eq, (getMembers_runs _).bind, Prog.bind_eq] at failed
      cases given : roundUpPowerOfTwo w.members.options.initialRowBucketCount with
      | none =>
        have overflow : run system (createEmptyRowIndex (w.found .rowIndex b).members.options.initialRowBucketCount)
            (w.found .rowIndex b) = .overflow := by
          rw [createEmptyRowIndex, Prog.bind_eq, (getMembers_runs _).bind]
          change run system ((orOverflow (roundUpPowerOfTwo w.members.options.initialRowBucketCount)).bind _) _ = _
          rw [given]
          rfl
        cases (run_bind_overflow _ overflow _).symm.trans failed
      | some n =>
        obtain ⟨_, p, _, _, power⟩ := roundUpPowerOfTwo_spec given
        have created : Runs (createEmptyRowIndex (w.found .rowIndex b).members.options.initialRowBucketCount)
            (w.found .rowIndex b) () ((w.found .rowIndex b).withMapped .rowIndex
              (emptyRowIndex n w.members.options.rowShardCount)) :=
          createEmptyRowIndex_runs (w.found_disk .rowIndex b) given (buckets n given)
        rw [created.bind] at failed
        have reads' : ReadsUnmapped (w.found .rowIndex b) shards w.members.options.rowShardCount :=
          ⟨⟨reads.shardCount, fun i inside => by rw [w.found_disk_ne b (by simp), reads.content i inside], reads.small,
            reads.map⟩, reads.unmapped⟩
        rcases @rebuildRowIndexFromValues_outcome H _ shards _ d retries whole
            (rebuilding_empty (H := H) reads' rfl (roomy.congr rfl) power (buckets n given)) with
          ⟨u, ran⟩ | ⟨status, u, rejects, state⟩ | ⟨overflow, _⟩
        · cases ran.symm.trans failed
        · cases rejects.symm.trans failed
          have content := state.reads.content
          obtain ⟨u, x, m, slot, ref, rfl, _, _, _, indexed⟩ := state
          exact ⟨⟨x, World.withMapped_disk _ _ _, indexed.table.accepted⟩, content⟩
        · cases overflow.symm.trans failed

end Rows

section Shards
variable {w : World} {i shardId rounds : Nat}

theorem not_badShard_nil : ¬ BadShard (some []) := by
  rintro ⟨b, held, more, _⟩
  exact more (Option.some.inj held).symm

/-- A file is found, or made unless it is opened for reading. -/
theorem openAs_returns (readOnly : Bool) (file : FileId) (w : World) :
    (∃ e, run system (openAs readOnly file) w = .error e w) ∨
      ∃ w', Runs (openAs readOnly file) w () w' ∧ w'.disk = (w.found file (w.present file)).disk := by
  cases readOnly with
  | false => exact Or.inr ⟨_, openReadWriteCreate_runs w file, rfl⟩
  | true =>
    cases held : w.disk file with
    | none =>
      refine Or.inl ⟨.ioError ("open " ++ file.fileName ++ ": No such file or directory"), ?_⟩
      simp [openAs, openForReading, run, system, held, checked]
    | some b =>
      refine Or.inr ⟨_, openForReading_runs held, ?_⟩
      have same : w.setFile file (some (w.present file)) = w := World.setFile_self (by rw [World.present, held]; rfl)
      rw [World.found, same]

/-- Opening a shard file for reading or writing returns, with Ok only if the
file is not bad. It changes no bad file and no other file. -/
theorem openRowValueFile_returns (readOnly : Bool) (shardId : Nat)
    (small : ∀ b, w.disk (.rowShard shardId) = some b → b.length < 2 ^ 63) :
    ∃ w', (Runs (openRowValueFile readOnly shardId) w () w' ∧ ¬ BadShard (w.disk (.rowShard shardId)) ∨
        ∃ e, run system (openRowValueFile readOnly shardId) w = .error e w') ∧
      (∀ file, (file = .rowShard shardId → BadShard (w.disk (.rowShard shardId))) → w'.disk file = w.disk file) ∧
      ∀ b, w'.disk (.rowShard shardId) = some b → b.length < 2 ^ 63 := by
  rcases openAs_returns readOnly (.rowShard shardId) w with ⟨e, absent⟩ | ⟨w₁, opening, found⟩
  · exact ⟨w, Or.inr ⟨e, by rw [openRowValueFile, Prog.bind_eq]; exact run_bind_error _ absent _⟩, fun _ _ => rfl, small⟩
  set b := w.present (.rowShard shardId) with b_eq
  have content : w₁.disk (.rowShard shardId) = some b := by rw [found, World.found_disk]
  have others : ∀ file, (file = .rowShard shardId → BadShard (w.disk (.rowShard shardId))) → w₁.disk file = w.disk file := by
    intro file apart
    by_cases here : file = .rowShard shardId
    · subst here
      obtain ⟨b', held, _⟩ := apart rfl
      rw [content, b_eq, World.present, held]
      rfl
    · rw [found, World.found_disk_ne _ _ here]
  have small' : b.length < 2 ^ 63 := by
    cases present : w.disk (.rowShard shardId) with
    | some b' =>
      have same : b = b' := by rw [b_eq, World.present, present]; rfl
      rw [same]
      exact small b' present
    | none =>
      rw [b_eq, World.present, present]
      decide
  have kept : ∀ b', w₁.disk (.rowShard shardId) = some b' → b'.length < 2 ^ 63 := by
    intro b' held
    rw [← Option.some.inj (content.symm.trans held)]
    exact small'
  have held : BadShard (w.disk (.rowShard shardId)) → b ≠ [] ∧ ¬ HasHeader kRowValueFileMagic b := by
    rintro ⟨b', present, more, refused⟩
    have same : b = b' := by rw [b_eq, World.present, present]; rfl
    rw [same]
    exact ⟨more, refused⟩
  unfold Runs
  rw [openRowValueFile, Prog.bind_eq, opening.bind, Prog.bind_eq, (getFileSize_runs content).bind]
  by_cases empty : b.length = 0
  · have nothing : b = [] := List.eq_nil_of_length_eq_zero empty
    have good : ¬ BadShard (w.disk (.rowShard shardId)) := fun bad => (held bad).1 nothing
    rw [if_pos empty]
    cases readOnly with
    | true => exact ⟨w₁, Or.inr ⟨_, rfl⟩, others, kept⟩
    | false =>
      have header := @writeAllAt_runs _ _ _ 0 rowValueFileHeader.encode content
        (List.ne_nil_of_length_pos (by rw [rowHeader_length]; decide)) (by rw [rowHeader_length]; decide)
      rw [if_neg (by decide), Prog.bind_eq, header.bind]
      refine ⟨_, Or.inl ⟨rfl, good⟩, fun file apart => ?_, fun b' written => ?_⟩
      · have here : file ≠ .rowShard shardId := fun here => good (apart here)
        simpa [World.setFile, World.setMembers, here] using others file apart
      · have bytes : rowValueFileHeader.encode = b' := by
          simpa [World.setFile, World.setMembers, nothing, patch] using written
        rw [← bytes, rowHeader_length]
        decide
  · rw [if_neg empty]
    by_cases short : b.length < 24
    · rw [if_pos short]
      exact ⟨w₁, Or.inr ⟨_, rfl⟩, others, kept⟩
    · have header := @readAllAt_runs _ _ _ 0 24 content (by omega) small'
      rw [if_neg short, Prog.bind_eq, header.bind]
      simp only
      by_cases valid : isValidFileHeader kRowValueFileMagic (ValueFileHeader.decode (slice b 0 24)) = true
      · have good : ¬ BadShard (w.disk (.rowShard shardId)) := fun bad => (held bad).2 ⟨Nat.not_lt.mp short, valid⟩
        rw [if_neg (not_not.mpr valid)]
        cases readOnly with
        | true =>
          rw [Prog.bind_eq, setRowAppendOffset, (setMembers_runs _ _).bind, if_pos rfl,
            mapReadOnly_runs (Nat.pos_of_ne_zero empty) small']
          exact ⟨_, Or.inl ⟨rfl, good⟩, others, kept⟩
        | false => exact ⟨_, Or.inl ⟨rfl, good⟩, others, kept⟩
      · rw [if_pos valid]
        exact ⟨w₁, Or.inr ⟨_, rfl⟩, others, kept⟩

/-- None of the first `count` shard files has `2 ^ 63` bytes. -/
def SmallShards (w : World) (count : Nat) : Prop := ∀ j < count, ∀ b, w.disk (.rowShard j) = some b → b.length < 2 ^ 63

/-- A bad shard file makes an `Open` fail at it or before. -/
theorem openRowValueFileLoop_fails {count : Nat} (readOnly : Bool) (lower : shardId ≤ i) (upper : i < count)
    (last : shardId + rounds = count) (bad : BadShard (w.disk (.rowShard i))) (small : SmallShards w count) :
    ∃ e w', run system (openRowValueFileLoop readOnly rounds shardId) w = .error e w' ∧
      w'.disk (.rowShard i) = w.disk (.rowShard i) ∧ SmallShards w' count := by
  induction rounds generalizing w shardId with
  | zero => omega
  | succ rounds ih =>
    obtain ⟨w₁, outcome, others, short⟩ := openRowValueFile_returns readOnly shardId (small shardId (by omega))
    have kept : w₁.disk (.rowShard i) = w.disk (.rowShard i) := others _ fun same => by rw [← same]; exact bad
    have small₁ : SmallShards w₁ count := by
      intro j inside b held
      by_cases here : j = shardId
      · subst here
        exact short b held
      · rw [others _ fun same => absurd (FileId.rowShard.inj same) here] at held
        exact small j inside b held
    rw [openRowValueFileLoop, Prog.bind_eq]
    rcases outcome with ⟨ran, good⟩ | ⟨e, failed⟩
    · have further : shardId ≠ i := fun same => good (same ▸ bad)
      obtain ⟨e, w', failed, same, small'⟩ := ih (w := w₁) (show shardId + 1 ≤ i by omega) (by omega) (kept.symm ▸ bad) small₁
      exact ⟨e, w', ran.bind.trans failed, same.trans kept, small'⟩
    · exact ⟨e, w₁, run_bind_error _ failed _, kept, small₁⟩

theorem openRowValueFiles_fails (readOnly : Bool) (inside : i < w.members.options.rowShardCount)
    (bad : BadShard (w.disk (.rowShard i))) (small : SmallShards w w.members.options.rowShardCount) :
    ∃ e w', run system (openRowValueFiles readOnly) w = .error e w' ∧ w'.disk (.rowShard i) = w.disk (.rowShard i) ∧
      SmallShards w' w.members.options.rowShardCount := by
  rw [openRowValueFiles, Prog.bind_eq, (getMembers_runs w).bind, Prog.bind_eq, (setMembers_runs _ w).bind]
  exact openRowValueFileLoop_fails readOnly (Nat.zero_le i) inside (Nat.zero_add _) bad small

theorem shardContents_small {count : Nat} (small : SmallShards w count) (inside : i < count) :
    (shardContents w i).length < 2 ^ 63 := by
  unfold shardContents
  split
  · rw [rowHeader_length]
    decide
  · cases held : w.disk (.rowShard i) with
    | none =>
      rw [World.present, held]
      decide
    | some b =>
      rw [World.present, held]
      exact small i inside b held

theorem hasHeader_rowHeader : HasHeader kRowValueFileMagic rowValueFileHeader.encode := by
  refine ⟨rowHeader_length.ge, ?_⟩
  rw [← List.append_nil rowValueFileHeader.encode, slice_rowHeader]
  rfl

/-- Shard files none of which is bad open. -/
theorem shardsReady_of_good {count : Nat} (good : ¬ ∃ i < count, BadShard (w.disk (.rowShard i))) :
    ShardsReady w (shardContents w) count := by
  intro i inside
  unfold shardContents World.present
  cases held : w.disk (.rowShard i) with
  | none => exact ⟨hasHeader_rowHeader, Or.inr ⟨rfl, Or.inl rfl⟩⟩
  | some b =>
    by_cases empty : b = []
    · subst empty
      exact ⟨hasHeader_rowHeader, Or.inr ⟨rfl, Or.inr rfl⟩⟩
    · rw [Option.getD_some, if_neg empty]
      refine ⟨?_, Or.inl rfl⟩
      by_contra refused
      exact good ⟨i, inside, b, held, empty, refused⟩

end Shards

section Reopen
variable {H : HashFunctions} {w w' u : World} {options rounded : DatabaseOptions} {retries d i : Nat} {e : Status}

/-- The second half of `OpenInternal`. -/
def openRows (H : HashFunctions) (retries : Nat) (readOnly : Bool) : Db Unit :=
  (openRowValueFiles readOnly).bind fun _ => openRowIndexFile H retries readOnly

/-- A closed directory whose value file and object index an `Open` takes as
they are. -/
structure ObjectsReady (w : World) : Prop where
  closed : w.Closed
  directory : w.directory = .directory
  value : ∃ v, w.disk .values = some v ∧ HasHeader kValueFileMagic v ∧ v.length < 2 ^ 63
  index : ∃ b, w.disk .index = some b ∧ Accepted b

/-- The row files of `u` and what `Open` needs to know to open them. -/
structure BeforeRows (w u : World) : Prop where
  disk : u.disk = w.disk
  options : u.members.options = w.members.options
  unmapped : ∀ i, u.members.maps (.rowShard i) = none
  rowIndex : u.members.maps .rowIndex = none

/-- An `Open` of such a directory comes to the row files. -/
theorem ObjectsReady.openFiles (ready : ObjectsReady w) (retries : Nat) (readOnly : Bool) (rounded : DatabaseOptions) :
    ∃ u, run system (LumoDB.openFiles H retries readOnly) (w.starting rounded readOnly) = run system (openRows H retries readOnly) u ∧
      BeforeRows (w.starting rounded readOnly) u ∧ u.directory = .directory ∧ u.members.isOpen = false := by
  obtain ⟨v, values, headed, small⟩ := ready.value
  obtain ⟨b, index, accepted⟩ := ready.index
  obtain ⟨n, file⟩ := id accepted
  have length := file.length
  have short := file.small
  set s := w.starting rounded readOnly with s_eq
  cases readOnly with
  | false =>
    have opens := openValueFile_headed (w := s) values headed small
    rw [World.setFile_self (show s.disk .values = some v from values)] at opens
    set u := s.setMembers fun m => { m.setDescriptor .values true with appendOffset := v.length } with u_eq
    have keeps : Runs (openIndexFile H false) u () (u.opened .index b) := openIndexFile_keeps index accepted
    refine ⟨u.opened .index b, ?_, ⟨?_, rfl, fun i => ?_, ?_⟩, rfl, ready.closed.isOpen⟩
    · rw [LumoDB.openFiles, Prog.bind_eq, opens.bind, Prog.bind_eq, keeps.bind]
      rfl
    · funext file
      by_cases here : file = .index
      · subst here
        rw [World.opened_disk]
        exact index.symm
      · exact World.opened_disk_ne _ _ here
    · rw [World.opened_maps_ne _ _ (by simp)]
      exact ready.closed.maps _
    · rw [World.opened_maps_ne _ _ (by decide)]
      exact ready.closed.maps _
  | true =>
    have opens := openValueFile_viewed (w := s) values headed small
    set u := (s.viewed .values v).setMembers fun m => { m with appendOffset := v.length } with u_eq
    have sees : (u.viewed .index b).Sees .index b := World.sees_of_map (show u.disk .index = some b from index) (u.viewed_map .index b)
    have keeps : Runs (openIndexFile H true) u () (u.viewed .index b) :=
      openChecked_viewed index (by omega) (by omega) (hasValidIndexLayout_accepts sees accepted)
    refine ⟨u.viewed .index b, ?_, ⟨rfl, rfl, fun i => ?_, ?_⟩, rfl, ready.closed.isOpen⟩
    · rw [LumoDB.openFiles, Prog.bind_eq, opens.bind, Prog.bind_eq, keeps.bind]
      rfl
    · rw [World.viewed_maps_ne _ _ (by simp)]
      exact (s.viewed_maps_ne v (show FileId.rowShard i ≠ .values by simp)).trans (ready.closed.maps _)
    · rw [World.viewed_maps_ne _ _ (by decide)]
      exact (s.viewed_maps_ne v (show FileId.rowIndex ≠ .values by decide)).trans (ready.closed.maps _)

/-- What the row files leave of the outcome of an `Open`. -/
theorem ObjectsReady.open_eq (ready : ObjectsReady w) (accepted : options.Accepted) (given : options.rounded = some rounded)
    (retries : Nat) (readOnly : Bool) :
    ∃ u, run system (openInternal H retries options readOnly) w = Outcome.opened (run system (openRows H retries readOnly) u) ∧
      BeforeRows (w.starting rounded readOnly) u ∧
      ∀ u', (run system (openRows H retries readOnly) u).state? = some u' → ObjectsReady (u'.setMembers Members.closed) := by
  obtain ⟨u, comes, before, directory, isOpen⟩ := ready.openFiles (H := H) retries readOnly rounded
  refine ⟨u, by rw [openInternal_opens ready.closed.isOpen (Or.inl ready.directory) accepted given, comes], before, fun u' ended => ?_⟩
  have same := sameObjects_of_only (spares_openRows H retries readOnly) ended
  obtain ⟨v, values, headed⟩ := ready.value
  obtain ⟨b, index, layout⟩ := ready.index
  have kept : u'.directory = .directory := keeps_directory ended directory
  refine ⟨⟨same.isOpen.trans isOpen, fun _ => rfl, fun _ => rfl⟩, kept, ⟨v, ?_, headed⟩, ⟨b, ?_, layout⟩⟩
  · exact same.values.trans ((congrFun before.disk .values).trans values)
  · exact same.index.trans ((congrFun before.disk .index).trans index)

/-- A bad shard file makes every `Open` fail, and stays. -/
theorem ObjectsReady.fails (ready : ObjectsReady w) (accepted : options.Accepted) (given : options.rounded = some rounded)
    (retries : Nat) (readOnly : Bool) (inside : i < options.rowShardCount) (bad : BadShard (w.disk (.rowShard i)))
    (small : SmallShards w options.rowShardCount) :
    ∃ e w', run system (openInternal H retries options readOnly) w = .error e w' ∧ ObjectsReady w' ∧
      BadShard (w'.disk (.rowShard i)) ∧ SmallShards w' options.rowShardCount := by
  obtain ⟨u, opens, before, after⟩ := ready.open_eq (H := H) accepted given retries readOnly
  have count : u.members.options.rowShardCount = options.rowShardCount := by
    rw [before.options]
    exact (DatabaseOptions.rounded_same given).1
  have disk : u.disk = w.disk := before.disk
  obtain ⟨e, u', failed, kept, small'⟩ := openRowValueFiles_fails readOnly (by rw [count]; exact inside) (by rw [disk]; exact bad)
    (by rw [count, SmallShards, disk]; exact small)
  rw [count] at small'
  have stops : run system (openRows H retries readOnly) u = .error e u' := run_bind_error _ failed _
  refine ⟨e, u'.setMembers Members.closed, by rw [opens, stops]; rfl, after u' (by rw [stops]; rfl), ?_, small'⟩
  change BadShard (u'.disk (.rowShard i))
  rw [kept, disk]
  exact bad

theorem failsAgain_of_bad (ready : ObjectsReady w) (accepted : options.Accepted) (given : options.rounded = some rounded)
    (inside : i < options.rowShardCount) (bad : BadShard (w.disk (.rowShard i)))
    (small : SmallShards w options.rowShardCount) : FailsAgain H retries options w := by
  intro w₁ retried
  have invariant : ObjectsReady w₁ ∧ BadShard (w₁.disk (.rowShard i)) ∧ SmallShards w₁ options.rowShardCount := by
    induction retried with
    | start => exact ⟨ready, bad, small⟩
    | again before failed ih =>
      obtain ⟨ready₁, bad₁, small₁⟩ := ih
      obtain ⟨e, w₂, failed', later⟩ := ready₁.fails (H := H) accepted given retries _ inside bad₁ small₁
      cases failed'.symm.trans failed
      exact later
  obtain ⟨ready₁, bad₁, small₁⟩ := invariant
  intro readOnly
  obtain ⟨e, w₂, failed, _⟩ := ready₁.fails (H := H) accepted given retries readOnly inside bad₁ small₁
  exact ⟨e, w₂, failed⟩

/-- The row files are such that an `Open` for writing takes them as they
are. -/
structure RowsReady (w : World) (count : Nat) : Prop where
  good : ¬ ∃ i < count, BadShard (w.disk (.rowShard i))
  small : SmallShards w count
  rowIndex : ∃ b, w.disk .rowIndex = some b ∧ RowAccepted b count

theorem ObjectsReady.reopens (ready : ObjectsReady w) (accepted : options.Accepted) (given : options.rounded = some rounded)
    (retries : Nat) (rows : RowsReady w options.rowShardCount) : ∃ w', Runs (openReadWrite H retries options) w () w' := by
  obtain ⟨u, opens, before, after⟩ := ready.open_eq (H := H) accepted given retries false
  obtain ⟨b, present, layout⟩ := rows.rowIndex
  have count : u.members.options.rowShardCount = options.rowShardCount := by
    rw [before.options]
    exact (DatabaseOptions.rounded_same given).1
  have disk : u.disk = w.disk := before.disk
  obtain ⟨u₁, opened, frame⟩ := openRowValueFiles_runs (w := u)
    (shardsReady_of_good (by rw [count, disk]; exact rows.good)) fun i inside =>
      @shardContents_small u _ options.rowShardCount (by rw [SmallShards, disk]; exact rows.small) (by omega)
  obtain ⟨found, descriptors, rowShards, offsets, same⟩ := frame.same
  have options₁ : u₁.members.options = u.members.options := by rw [same]
  have keeps : Runs (openRowIndexFile H retries false) u₁ () (u₁.opened .rowIndex b) :=
    openRowIndexFile_keeps ((frame.others .rowIndex fun _ _ => by simp).trans ((congrFun disk .rowIndex).trans present))
      (by rw [options₁, count]; exact layout)
  have ran : Runs (openRows H retries false) u () (u₁.opened .rowIndex b) := opened.bind.trans keeps
  exact ⟨_, opens.trans (by rw [ran]; rfl)⟩

/-- What a rejected shard leaves: the row files as the next `Open` takes
them. -/
theorem rejectedShards_ready (good : ¬ ∃ i < w.members.options.rowShardCount, BadShard (w.disk (.rowShard i)))
    (few : SmallShards w w.members.options.rowShardCount) (short : (w.present .rowIndex).length < 2 ^ 63)
    (unmapped : ∀ i, w.members.maps (.rowShard i) = none) (rowIndex : w.members.maps .rowIndex = none)
    (roomy : RowRoomy w (shardContents w) w.members.options.rowShardCount d)
    (buckets : ∀ n, roundUpPowerOfTwo w.members.options.initialRowBucketCount = some n → 64 + 64 * n < 2 ^ 63)
    (shards : Runs (openRowValueFiles false) w () u) (failed : run system (openRowIndexFile H (retries + 1) false) u = .error e w') :
    RowsReady w' w.members.options.rowShardCount := by
  have ready := shardsReady_of_good good
  have small : ∀ i < w.members.options.rowShardCount, (shardContents w i).length < 2 ^ 63 := fun i inside =>
    shardContents_small few inside
  obtain ⟨u', opened, frame⟩ := openRowValueFiles_runs ready small
  obtain ⟨_, rfl⟩ := Runs.unique shards opened
  obtain ⟨found, descriptors, rowShards, offsets, same⟩ := frame.same
  have options : u.members.options = w.members.options := by rw [same]
  have maps : u.members.maps = w.members.maps := by rw [same]
  have index : u.present .rowIndex = w.present .rowIndex := by
    rw [World.present, World.present, frame.others .rowIndex fun _ _ => by simp]
  obtain ⟨⟨b, present, layout⟩, content⟩ := @openRowIndexFile_leaves H u _ (shardContents w) d _ _
    ⟨⟨by rw [options]; exact frame.shardCount, by rw [options]; exact frame.content, by rw [options]; exact small,
      fun i _ => Or.inl (by rw [maps]; exact unmapped i)⟩, fun i _ => by rw [maps]; exact unmapped i⟩
    (by rw [options]; exact fun i inside => (ready i inside).1.1) (by rw [options]; exact roomy.congr (by rw [options]))
    (by rw [maps]; exact rowIndex) (by rw [index]; exact short) (by rw [options]; exact buckets) failed
  rw [options] at layout content
  refine ⟨?_, fun j inside b held => ?_, ⟨b, present, layout⟩⟩
  · rintro ⟨i, inside, bad⟩
    rw [content i inside] at bad
    obtain ⟨b, held, _, refused⟩ := bad
    exact refused (Option.some.inj held ▸ (ready i inside).1)
  · rw [← Option.some.inj ((content j inside).symm.trans held)]
    exact small j inside

/-- An `Open` that fails at the row files leaves them so that the next one
takes them as they are. -/
theorem ObjectsReady.rejected (ready : ObjectsReady w) (accepted : options.Accepted) (given : options.rounded = some rounded)
    (good : ¬ ∃ i < options.rowShardCount, BadShard (w.disk (.rowShard i)))
    (few : SmallShards w options.rowShardCount) (short : (w.present .rowIndex).length < 2 ^ 63)
    (roomy : RowRoomy (w.starting rounded false) (shardContents w) options.rowShardCount d)
    (buckets : ∀ n, roundUpPowerOfTwo rounded.initialRowBucketCount = some n → 64 + 64 * n < 2 ^ 63)
    (failed : run system (openReadWrite H (retries + 1) options) w = .error e w') :
    ObjectsReady w' ∧ RowsReady w' options.rowShardCount := by
  obtain ⟨u, opens, before, after⟩ := ready.open_eq (H := H) accepted given (retries + 1) false
  have count : u.members.options.rowShardCount = options.rowShardCount := by
    rw [before.options]
    exact (DatabaseOptions.rounded_same given).1
  have disk : u.disk = w.disk := before.disk
  have contents : shardContents u = shardContents w := by
    funext i
    rw [shardContents, shardContents, World.present, World.present, disk]
  rw [openReadWrite, opens] at failed
  cases ended : run system (openRows H (retries + 1) false) u with
  | error e₁ u' =>
    rw [ended] at failed
    cases failed
    have objects := after u' (congrArg Outcome.state? ended)
    refine ⟨objects, ?_⟩
    have shards : ShardsReady u (shardContents u) u.members.options.rowShardCount :=
      shardsReady_of_good (by rw [count, disk]; exact good)
    have few' : SmallShards u u.members.options.rowShardCount := by
      rw [count, SmallShards, disk]
      exact few
    obtain ⟨u₁, opened, _⟩ := openRowValueFiles_runs shards fun i inside => shardContents_small few' inside
    rw [openRows, opened.bind] at ended
    have rows := rejectedShards_ready (H := H) (by rw [count, disk]; exact good) few'
      (by rw [World.present, disk]; exact short) before.unmapped before.rowIndex
      (by rw [count, contents]; exact roomy.congr (by rw [before.options])) (by rw [before.options]; exact buckets) opened ended
    rw [count] at rows
    exact ⟨rows.good, rows.small, rows.rowIndex⟩
  | _ =>
    rw [ended] at failed
    cases failed

/-- What `OpenIndexFile` leaves in an `Open`, however it returns. -/
structure IndexLeft (w u : World) (rounded : DatabaseOptions) : Prop where
  value : ∃ v, u.disk .values = some v ∧ HasHeader kValueFileMagic v ∧ v.length < 2 ^ 63
  index : ∃ b, u.disk .index = some b ∧ Accepted b
  shards : ∀ i, u.disk (.rowShard i) = w.disk (.rowShard i)
  rowIndex : u.disk .rowIndex = w.disk .rowIndex
  directory : u.directory = .directory
  isOpen : u.members.isOpen = false
  options : u.members.options = rounded
  unmapped : ∀ i, u.members.maps (.rowShard i) = none
  unmappedIndex : u.members.maps .rowIndex = none

theorem openIndexFile_left {u₁ : World} (closed : w.Closed) (spacious : Spacious (w.opening rounded) d)
    (opens : Runs (openValueFile false) (w.opening rounded) () u) (ended : (run system (openIndexFile H false) u).state? = some u₁) :
    IndexLeft w u₁ rounded := by
  have opened := openValueFile_opens (fun b => spacious.files .values b) opens
  obtain ⟨v, value, headed⟩ := opened.value
  obtain ⟨small, roomy⟩ := spacious.values u v opens value
  have index : (u.present .index).length < 2 ^ 63 := by
    rw [World.present]
    cases held : u.disk .index with
    | none => decide
    | some b =>
      rcases opened.index with same | gone
      · exact spacious.files .index b (same.symm.trans held)
      · cases gone.symm.trans held
  have others := opened.others
  obtain ⟨disk, descriptors, offset, same⟩ := opened.same
  have maps : ∀ file, u.members.maps file = none := fun file => by
    rw [same]
    exact closed.maps file
  have options : u.members.options = rounded := by rw [same]; rfl
  have directory : u.directory = .directory := by rw [same]; rfl
  have isOpen : u.members.isOpen = false := by rw [same]; exact closed.isOpen
  obtain ⟨b, append, accepted, rfl⟩ := openIndexFile_leaves (H := H) ⟨value, small, Or.inl (maps _)⟩ roomy headed.1 (maps _) index
    (by rw [options]; exact spacious.buckets) ended
  refine ⟨⟨v, ?_, headed, small⟩, ⟨b, u.opened_disk .index b, accepted⟩, fun i => ?_, ?_, directory, isOpen, options, fun i => ?_, ?_⟩
  · exact (u.opened_disk_ne b (show FileId.values ≠ .index by decide)).trans value
  · exact (u.opened_disk_ne b (show FileId.rowShard i ≠ .index by simp)).trans (others _ (by simp) (by simp) (by simp))
  · exact (u.opened_disk_ne b (show FileId.rowIndex ≠ .index by decide)).trans (others _ (by decide) (by decide) (by decide))
  · exact (u.opened_maps_ne b (show FileId.rowShard i ≠ .index by simp)).trans (maps _)
  · exact (u.opened_maps_ne b (show FileId.rowIndex ≠ .index by decide)).trans (maps _)

/-- The first `Open` that a scan makes fail leaves the objects as later ones
take them. If a shard was rejected, so it leaves the rows. -/
theorem RejectsScan.leaves {w₁ : World} {e₁ : Status} (rejected : RejectsScan H (retries + 1) (w.opening rounded) e₁ w₁)
    (closed : w.Closed) (spacious : Spacious (w.opening rounded) d) :
    ObjectsReady (w₁.setMembers Members.closed) ∧
      ((∀ i, w₁.disk (.rowShard i) = w.disk (.rowShard i)) ∧ w₁.disk .rowIndex = w.disk .rowIndex ∨
        (¬ ∃ i < rounded.rowShardCount, BadShard (w.disk (.rowShard i))) ∧ RowsReady w₁ rounded.rowShardCount) := by
  cases rejected with
  | values opens rebuilds rejects =>
    have left := openIndexFile_left (H := H) closed spacious opens (congrArg Outcome.state? (rebuilds.trans rejects))
    exact ⟨⟨⟨left.isOpen, fun _ => rfl, fun _ => rfl⟩, left.directory, left.value, left.index⟩,
      Or.inl ⟨left.shards, left.rowIndex⟩⟩
  | @shards u u₁ u₂ created _ _ opens index shards rebuilds rejects =>
    have left := openIndexFile_left (H := H) closed spacious opens (congrArg Outcome.state? index)
    have rows : run system (openRows H (retries + 1) false) u₁ = .error e₁ w₁ := by
      rw [openRows, shards.bind]
      exact rebuilds.trans rejects
    have same := sameObjects_of_only (spares_openRows H (retries + 1) false) (congrArg Outcome.state? rows)
    have directory : w₁.directory = .directory := keeps_directory (congrArg Outcome.state? rows) left.directory
    have count : u₁.members.options.rowShardCount = rounded.rowShardCount := by rw [left.options]
    have small : SmallShards u₁ u₁.members.options.rowShardCount := fun j _ b held =>
      spacious.files (.rowShard j) b ((left.shards j).symm.trans held)
    have good : ¬ ∃ i < rounded.rowShardCount, BadShard (w.disk (.rowShard i)) := by
      rintro ⟨i, inside, bad⟩
      obtain ⟨e, w', failed, _⟩ := openRowValueFiles_fails false (by rw [count]; exact inside)
        (by rw [left.shards]; exact bad) small
      cases shards.symm.trans failed
    have contents : shardContents u₁ = shardContents (w.opening rounded) := by
      funext i
      rw [shardContents, shardContents, World.present, World.present, left.shards]
      rfl
    have short : (u₁.present .rowIndex).length < 2 ^ 63 := by
      rw [World.present, left.rowIndex]
      cases held : w.disk .rowIndex with
      | none => decide
      | some b => exact spacious.files .rowIndex b held
    have ready := rejectedShards_ready (H := H) (d := d) (by simpa only [count, left.shards] using good) small short left.unmapped
      left.unmappedIndex (by rw [count, contents]; exact spacious.rows.congr (by rw [left.options]; rfl))
      (by rw [left.options]; exact spacious.rowBuckets) shards (rebuilds.trans rejects)
    rw [count] at ready
    obtain ⟨v, values, headed⟩ := left.value
    obtain ⟨b, held, layout⟩ := left.index
    exact ⟨⟨⟨same.isOpen.trans left.isOpen, fun _ => rfl, fun _ => rfl⟩, directory, ⟨v, same.values.trans values, headed⟩,
      ⟨b, same.index.trans held, layout⟩⟩, Or.inr ⟨good, ready⟩⟩

theorem RejectsScan.fails {w₁ : World} (rejected : RejectsScan H retries w e w₁) :
    run system (openFiles H retries false) w = .error e w₁ := by
  unfold openFiles
  rw [Prog.bind_eq]
  cases rejected with
  | values opens rebuilds rejects =>
    rw [opens.bind, Prog.bind_eq]
    exact run_bind_error _ (rebuilds.trans rejects) _
  | shards opens index shards rebuilds rejects =>
    rw [opens.bind, Prog.bind_eq, index.bind, Prog.bind_eq, shards.bind]
    exact rebuilds.trans rejects

/-- After an `Open` that fails because a scan rejects the value file or a shard
file, every later one fails if and only if one of the shard files has no
valid header. The index that the rejected scan has begun is taken for a whole
one. -/
theorem failsAgain_iff (closed : w.Closed) (directory : w.directory ≠ .other) (accepted : options.Accepted)
    (given : options.rounded = some rounded) (spacious : Spacious (w.opening rounded) d) {w₁ : World} {e₁ : Status}
    (rejected : RejectsScan H (retries + 1) (w.opening rounded) e₁ w₁)
    (failed : run system (openReadWrite H (retries + 1) options) w = .error e w') :
    FailsAgain H (retries + 1) options w' ↔ ∃ i < options.rowShardCount, BadShard (w.disk (.rowShard i)) := by
  have count : rounded.rowShardCount = options.rowShardCount := (DatabaseOptions.rounded_same given).1
  obtain ⟨objects, rows⟩ := rejected.leaves closed spacious
  rw [count] at rows
  have opens := @openInternal_opens H w options rounded false closed.isOpen (Or.inr ⟨rfl, directory⟩) accepted given (retries + 1)
  have stops : run system (openFiles H (retries + 1) false) (w.starting rounded false) = .error e₁ w₁ := rejected.fails
  rw [stops] at opens
  obtain rfl : w₁.setMembers Members.closed = w' := by
    have same := opens.symm.trans failed
    cases same
    rfl
  constructor
  · intro again
    by_contra good
    rcases rows with ⟨shards, rowIndex⟩ | ⟨_, ready⟩
    · obtain ⟨e₂, w₂, failed₂⟩ := again _ .start false
      have same : shardContents (w₁.setMembers Members.closed) = shardContents (w.opening rounded) := by
        funext i
        exact congrArg (fun content : Option Bytes => if content.getD [] = [] then rowValueFileHeader.encode else content.getD [])
          (shards i)
      have short : ((w₁.setMembers Members.closed).present .rowIndex).length < 2 ^ 63 := by
        rw [World.present, show (w₁.setMembers Members.closed).disk .rowIndex = w.disk .rowIndex from rowIndex]
        cases held : w.disk .rowIndex with
        | none => decide
        | some b => exact spacious.files .rowIndex b held
      obtain ⟨objects₂, rows₂⟩ := objects.rejected accepted given (by
          rintro ⟨i, inside, bad⟩
          exact good ⟨i, inside, shards i ▸ bad⟩) (fun j _ b held => spacious.files (.rowShard j) b ((shards j).symm.trans held)) short
        (by rw [same, ← count]; exact spacious.rows.congr rfl) spacious.rowBuckets failed₂
      obtain ⟨w₃, ran⟩ := objects₂.reopens (H := H) accepted given (retries + 1) rows₂
      obtain ⟨e₃, w₃', failed₃⟩ := again _ (.again .start failed₂) false
      cases ran.symm.trans failed₃
    · obtain ⟨w₂, ran⟩ := objects.reopens (H := H) accepted given (retries + 1) ⟨ready.good, ready.small, ready.rowIndex⟩
      obtain ⟨e₂, w₂', failed₂⟩ := again _ .start false
      cases ran.symm.trans failed₂
  · rintro ⟨i, inside, bad⟩
    rcases rows with ⟨shards, rowIndex⟩ | ⟨good, _⟩
    · exact failsAgain_of_bad objects accepted given inside (show BadShard (w₁.disk (.rowShard i)) by rw [shards]; exact bad)
        fun j _ b held => spacious.files (.rowShard j) b ((shards j).symm.trans held)
    · exact absurd ⟨i, inside, bad⟩ good

end Reopen

section Samples

/-- Two records with a header of zeros between them. -/
def brokenBytes : Bytes := valueFileBytes [(([2], [1]), [7])] ++ (List.replicate 24 0 ++ encodeRecord ([2], [3]) [8])

/-- A directory with this value file and a shard file. -/
def brokenValues (shard : Option Bytes) : World :=
  (({} : World).setFile .values (some brokenBytes)).setFile (.rowShard 0) shard

/-- The second `Open` takes the index of the first, which has stopped at the
zeros, and the record behind them is not found. -/
theorem rejected_scan_reopens : ∃ w₁ w₂ w₃ w₄,
    run system (openReadWrite .shipped 1 (smallOptions 1)) (brokenValues none) =
      .error (.corruption "value record header is invalid") w₁ ∧
    Runs (openReadWrite .shipped 1 (smallOptions 1)) w₁ () w₂ ∧ Runs (getStruct .shipped [2] [1]) w₂ [7] w₃ ∧
    run system (getStruct .shipped [2] [3]) w₂ = .error (.notFound "key not found") w₄ := by
  have answers : (run system (openReadWrite .shipped 1 (smallOptions 1)) (brokenValues none)).error? =
        some (.corruption "value record header is invalid") ∧
      ((run system (openReadWrite .shipped 1 (smallOptions 1)) (brokenValues none)).state?.bind fun w₁ =>
        ((run system (openReadWrite .shipped 1 (smallOptions 1)) w₁).value?.bind fun _ =>
          (run system (openReadWrite .shipped 1 (smallOptions 1)) w₁).state?.map fun w₂ =>
          ((run system (getStruct .shipped [2] [1]) w₂).value?, (run system (getStruct .shipped [2] [3]) w₂).error?))) =
        some (some [7], some (.notFound "key not found")) := by
    decide +kernel
  obtain ⟨rejected, later⟩ := answers
  obtain ⟨w₁, failed⟩ := Outcome.exists_of_error? rejected
  rw [failed] at later
  cases reopened : run system (openReadWrite .shipped 1 (smallOptions 1)) w₁ with
  | ok a w₂ =>
    simp only [Outcome.state?, Option.bind_some, reopened, Outcome.value?, Option.map_some, Option.some.injEq, Prod.mk.injEq] at later
    obtain ⟨found, missing⟩ := later
    obtain ⟨w₄, absent⟩ := Outcome.exists_of_error? missing
    cases held : run system (getStruct .shipped [2] [1]) w₂ with
    | ok value w₃ =>
      rw [held] at found
      cases found
      exact ⟨w₁, w₂, w₃, w₄, failed, reopened, held, absent⟩
    | _ =>
      rw [held] at found
      cases found
  | _ =>
    simp [Outcome.state?, reopened, Outcome.value?] at later

section Directory
variable {shard : Option Bytes}

/-- The directory as the `Open` with small options starts to open its files. -/
def openingBroken (shard : Option Bytes) : World := (brokenValues shard).opening (smallOptions 1 oneShard_lt)

theorem openingBroken_disk (shard : Option Bytes) (file : FileId) : (openingBroken shard).disk file =
    if file = .rowShard 0 then shard else if file = .values then some brokenBytes else none := by
  simp [openingBroken, brokenValues, World.opening, World.configured, World.setFile, World.setMembers, Function.update_apply]

theorem brokenBytes_length : brokenBytes.length = 102 := by decide +kernel

theorem openingBroken_opens (shard : Option Bytes) : Runs (openValueFile false) (openingBroken shard) ()
    (((openingBroken shard).setFile .values (some brokenBytes)).setMembers fun m =>
      { m.setDescriptor .values true with appendOffset := brokenBytes.length }) :=
  openValueFile_headed (openingBroken_disk shard .values) (hasHeader_of_begins rfl) (by rw [brokenBytes_length]; decide)

theorem openingBroken_load (shard : Option Bytes) : (openingBroken shard).members.options.maxLoadFactor = 4 / 5 := rfl

theorem openingBroken_spacious (short : (shard.getD []).length ≤ 1) : Spacious (openingBroken shard) 10 where
  files file b held := by
    have length := brokenBytes_length
    rw [openingBroken_disk] at held
    split at held
    · rw [held, Option.getD_some] at short
      omega
    · split at held
      · rw [← Option.some.inj held]
        omega
      · cases held
  values u v opens present := by
    obtain ⟨_, rfl⟩ := Runs.unique opens (openingBroken_opens shard)
    obtain rfl : brokenBytes = v := Option.some.inj (by simpa [World.setFile, World.setMembers] using present)
    have length := brokenBytes_length
    have load : (0 : ℚ) < 4 / 5 ∧ (4 / 5 : ℚ) < 95 / 100 := by norm_num
    have room : (toDouble (102 + 1) : ℚ) ≤ 4 / 5 * (2 ^ 10 : ℕ) := by decide +kernel
    refine ⟨by omega, roomy_of_length load ⟨by decide, ?_⟩⟩
    rw [length]
    exact room
  rows := by
    have content : (shardContents (openingBroken shard) 0).length ≤ 24 := by
      unfold shardContents World.present
      rw [openingBroken_disk, if_pos rfl]
      split
      · exact rowHeader_length.le
      · omega
    have load := openingBroken_load shard
    refine rowRoomy_of_length ⟨by rw [load]; norm_num, by rw [load]; norm_num⟩ ⟨by decide, ?_⟩
    have few : (((List.range 1).map fun i => (shardContents (openingBroken shard) i).length).sum + 1 : ℕ) ≤ 25 := by
      simp only [List.range_one, List.map_cons, List.map_nil, List.sum_singleton]
      omega
    calc ((((List.range 1).map fun i => (shardContents (openingBroken shard) i).length).sum + 1 : ℕ) : ℚ) ≤ (25 : ℕ) := by
          exact_mod_cast few
      _ ≤ (openingBroken shard).members.options.maxLoadFactor * (2 ^ 10 : ℕ) := by rw [load]; norm_num
  buckets n given := by
    obtain rfl : 16 = n := Option.some.inj ((by decide : roundUpPowerOfTwo 16 = some 16).symm.trans given)
    decide
  rowBuckets n given := by
    obtain rfl : 16 = n := Option.some.inj ((by decide : roundUpPowerOfTwo 16 = some 16).symm.trans given)
    decide

end Directory

/-- With a shard file of one byte every `Open` fails. -/
theorem failsAgain_sample : ∃ w₁, run system (openReadWrite .shipped 1 (smallOptions 1)) (brokenValues (some [1])) =
      .error (.corruption "value record header is invalid") w₁ ∧ FailsAgain .shipped 1 (smallOptions 1) w₁ := by
  have given : (smallOptions 1 oneShard_lt).rounded = some (smallOptions 1 oneShard_lt) := by decide +kernel
  have rejected : (run system (openReadWrite .shipped 1 (smallOptions 1)) (brokenValues (some [1]))).error? =
      some (.corruption "value record header is invalid") := by decide +kernel
  obtain ⟨w₁, failed⟩ := Outcome.exists_of_error? rejected
  set u := ((openingBroken (some [1])).setFile .values (some brokenBytes)).setMembers fun m =>
    { m.setDescriptor .values true with appendOffset := brokenBytes.length } with u_eq
  have empty : u.present .index = [] := by decide +kernel
  have rebuilds := @openIndexFile_scans .shipped u 16 rfl (by rw [empty]; decide) (by rw [empty]; exact not_accepted_nil)
    (by rw [empty]; exact not_overreads_nil) (by decide +kernel) (by decide)
  have scans : (rebuilding .shipped (u.found .index (u.present .index)) 16).error? =
      some (.corruption "value record header is invalid") := by
    decide +kernel
  obtain ⟨w₂, stops⟩ := Outcome.exists_of_error? scans
  have spacious : Spacious (openingBroken (some [1])) 10 := openingBroken_spacious (by decide)
  refine ⟨w₁, failed, (failsAgain_iff (w := brokenValues (some [1])) ⟨rfl, fun _ => rfl, fun _ => rfl⟩ nofun (by decide +kernel)
    given spacious (.values (openingBroken_opens (some [1])) rebuilds stops) failed).mpr ?_⟩
  refine ⟨0, by decide, [1], by decide +kernel, by decide, fun headed => absurd headed.1 (by decide)⟩

end Samples

end LumoDB
