import LumoDB.Migration
import LumoDB.OpenObjects
import LumoDB.Replay

namespace LumoDB
open ByteCodec Effects

/-- The directory after a migration that wrote `v`: the value file is
replaced, and the temporary file and the object index are gone. -/
def World.migrated (w : World) (v : Bytes) : World :=
  ((w.setFile .values (some v)).setFile .migrating none).setFile .index none

section Migrate
variable {w : World} {reserved : Nat} {records : List LegacyRecord}

theorem legacyFileBytes_header (reserved : Nat) (records : List LegacyRecord) :
    isValidFileHeader kLegacyValueFileMagic
      (ValueFileHeader.decode (slice (legacyFileBytes reserved records) 0 24)) = true := by
  have length := ValueFileHeader.encode_length { magic := kLegacyValueFileMagic, reserved := reserved } rfl
  have front : slice (legacyFileBytes reserved records) 0 24 =
      ({ magic := kLegacyValueFileMagic, reserved := reserved } : ValueFileHeader).encode := by
    rw [legacyFileBytes, slice_append_left (by omega)]
    simp only [slice, List.drop_zero, List.take_of_length_le length.le]
  rw [front, ValueFileHeader.decode_encode _ rfl]
  simp [isValidFileHeader, kStorageVersion]

/-- The migration writes the file header and runs the loop from there. -/
theorem writeMigrationFile_starts {old : Bytes} (temporary : w.disk .migrating = some old) (size : Nat) :
    run system (writeMigrationFile size) w =
      run system ((migrateLoop size (size + 1) 24 24).bind fun offset => (syncFile .migrating).bind fun _ => .ret offset)
        (w.setFile .migrating (some (valueFileBytes (migratedLog [])))) := by
  have truncating := @truncateFile_runs w .migrating old 0 temporary (by decide)
  have writing := @writeAllAt_runs (w.setFile .migrating (some [])) .migrating [] 0 { : ValueFileHeader }.encode
    (by simp [World.setFile]) (List.ne_nil_of_length_pos (by rw [valueHeader_length]; decide))
    (by rw [valueHeader_length]; decide)
  have emptied : truncateBytes old 0 = [] := by simp [truncateBytes]
  have header : patch [] 0 { : ValueFileHeader }.encode = valueFileBytes (migratedLog []) := by
    simp [migratedLog, patch, valueFileBytes, encodeLog]
  rw [emptied] at truncating
  rw [header, World.setFile_setFile] at writing
  unfold writeMigrationFile
  rw [Prog.bind_eq, truncating.bind, Prog.bind_eq, writing.bind]
  rfl

/-- The members after a migration. -/
def Members.migrated (m : Members) (offset : Nat) : Members :=
  { ((m.setDescriptor .migrating false).setDescriptor .values true) with appendOffset := offset }

/-- The end of `MigrateLegacyValueFile`, when the new file is complete. -/
def finishMigration (offset : Nat) : Db Unit := do
  resetDescriptor .migrating
  resetDescriptor .values
  renameFile .migrating .values
  removeFile .index
  openReadWriteCreate .values
  setMembers fun m => { m with appendOffset := offset }

theorem finishMigration_runs {t : Bytes} (temporary : w.disk .migrating = some t) (offset : Nat) :
    Runs (finishMigration offset) w () ((w.migrated t).setMembers (·.migrated offset)) := by
  have renamed : Runs (renameFile .migrating .values)
      ((w.setMembers (·.setDescriptor .migrating false)).setMembers (·.setDescriptor .values false)) ()
      ((((w.setMembers (·.setDescriptor .migrating false)).setMembers (·.setDescriptor .values false)).setFile .values
        (some t)).setFile .migrating none) := by
    simp [Runs, renameFile, run, system, World.setMembers, temporary, checked]
  unfold Runs finishMigration
  rw [Prog.bind_eq, (resetDescriptor_runs .migrating w).bind, Prog.bind_eq, (resetDescriptor_runs .values _).bind,
    Prog.bind_eq, renamed.bind, Prog.bind_eq]
  have removing : ∀ w : World, Runs (removeFile .index) w () (w.setFile .index none) := fun _ => rfl
  rw [(removing _).bind, Prog.bind_eq, (openReadWriteCreate_runs _ .values).bind]
  refine (setMembers_runs _ _).trans ?_
  simp [World.setFile, World.setMembers, World.migrated, Members.migrated, Members.setDescriptor, Function.update_idem]

/-- The migration up to its complete temporary file. -/
def prepareMigration (size : Nat) : Db Nat :=
  (openReadWriteCreate .migrating).bind fun _ =>
    (writeMigrationFile size).orElse fun e => (resetDescriptor .migrating).bind fun _ => .fail e

theorem migrateLegacyValueFile_eq (size : Nat) :
    migrateLegacyValueFile size = (prepareMigration size).bind finishMigration := by
  rw [prepareMigration, Prog.bind_assoc]
  rfl

/-- `w` with the temporary file made and open. -/
def World.migrating (w : World) : World := w.found .migrating (w.present .migrating)

theorem prepareMigration_runs {t : Bytes} {size offset : Nat}
    (writes : Runs (writeMigrationFile size) w.migrating offset (w.migrating.setFile .migrating (some t))) :
    Runs (prepareMigration size) w offset (w.migrating.setFile .migrating (some t)) := by
  have opening : Runs (openReadWriteCreate .migrating) w () w.migrating := openReadWriteCreate_runs w .migrating
  rw [Runs, prepareMigration, opening.bind, run_orElse, writes, recover_ok]

theorem migrateLegacyValueFile_runs {t : Bytes} {size offset : Nat}
    (writes : Runs (writeMigrationFile size) w.migrating offset (w.migrating.setFile .migrating (some t))) :
    Runs (migrateLegacyValueFile size) w () ((w.migrated t).setMembers (·.migrated offset)) := by
  rw [Runs, migrateLegacyValueFile_eq, (prepareMigration_runs writes).bind]
  refine (finishMigration_runs (t := t) (by simp [World.setFile]) offset).trans ?_
  simp [World.migrated, World.migrating, World.found, World.setFile, World.setMembers, Members.migrated,
    Members.setDescriptor, Function.update_comm]

/-- A migration that returns Ok has put its temporary file in place. -/
theorem migrateLegacyValueFile_inv {w' : World} {size : Nat} (runs : Runs (migrateLegacyValueFile size) w () w') :
    ∃ offset w₁, Runs (writeMigrationFile size) w.migrating offset w₁ ∧ w'.disk .values = w₁.disk .migrating := by
  have opening : Runs (openReadWriteCreate .migrating) w () w.migrating := openReadWriteCreate_runs w .migrating
  rw [Runs, migrateLegacyValueFile_eq] at runs
  obtain ⟨offset, w₁, writes, finishes⟩ := Runs.split runs
  refine ⟨offset, w₁, ?_, ?_⟩
  · rw [Runs, prepareMigration, opening.bind, run_orElse] at writes
    cases first : run system (writeMigrationFile size) w.migrating with
    | ok a w₂ =>
      rw [first, recover_ok] at writes
      exact first.trans writes
    | error e w₂ => rw [first] at writes; cases writes
    | fault => rw [first] at writes; cases writes
    | overflow => rw [first] at writes; cases writes
    | spin => rw [first] at writes; cases writes
  · cases held : w₁.disk .migrating with
    | some t =>
      obtain ⟨_, rfl⟩ := Runs.unique finishes (finishMigration_runs held offset)
      simp [World.migrated, World.setFile, World.setMembers]
    | none =>
      have refused : run system (renameFile .migrating .values)
          ((w₁.setMembers (·.setDescriptor .migrating false)).setMembers (·.setDescriptor .values false)) =
          .error (.ioError "rename: No such file or directory")
            ((w₁.setMembers (·.setDescriptor .migrating false)).setMembers (·.setDescriptor .values false)) := by
        simp [renameFile, run, system, World.setMembers, held, checked]
      rw [Runs, finishMigration, Prog.bind_eq, (resetDescriptor_runs .migrating w₁).bind, Prog.bind_eq,
        (resetDescriptor_runs .values _).bind, Prog.bind_eq, run_bind_error _ refused] at finishes
      cases finishes

/-- From the start of the file the loop comes to the first record that is not
narrow. -/
theorem migrateLoop_start {s post : Bytes} {good : List LegacyRecord} (content : s = legacyFileBytes reserved good ++ post)
    (values : w.disk .values = some s) (small : s.length < 2 ^ 63) (fits : ∀ r ∈ good, r.key.Fits)
    (narrow : ∀ r ∈ good, r.Narrow) :
    run system (migrateLoop s.length (s.length + 1) 24 24)
        (w.setFile .migrating (some (valueFileBytes (migratedLog [])))) =
      run system (migrateLoop s.length ((s.length - good.length) + 1) (legacyFileBytes reserved good).length
        (valueFileBytes (migratedLog good)).length) (w.setFile .migrating (some (valueFileBytes (migratedLog good)))) := by
  have start : (legacyFileBytes reserved []).length = 24 := by
    rw [legacyFileBytes_length]
    exact valueFileBytes_length []
  have header : (valueFileBytes (migratedLog [])).length = 24 := valueFileBytes_length []
  have count : s.length + 1 = (s.length - good.length) + 1 + good.length := by
    have total := legacyFileBytes_length reserved good
    have ends := congrArg List.length content
    rw [List.length_append] at ends
    omega
  have loop := @migrateLoop_written w s post ((s.length - good.length) + 1) reserved [] good (by rw [content, List.nil_append])
    values small fits narrow
  rwa [start, header, ← count, List.nil_append] at loop

theorem writeMigrationFile_runs {old : Bytes} (values : w.disk .values = some (legacyFileBytes reserved records))
    (temporary : w.disk .migrating = some old) (small : (legacyFileBytes reserved records).length < 2 ^ 63)
    (fits : ∀ r ∈ records, r.key.Fits) (narrow : ∀ r ∈ records, r.Narrow) :
    Runs (writeMigrationFile (legacyFileBytes reserved records).length) w
      (valueFileBytes (migratedLog records)).length
      (w.setFile .migrating (some (valueFileBytes (migratedLog records)))) := by
  have loop := migrateLoop_start (List.append_nil _).symm values small fits narrow
  have ended : ∀ size rounds offset w, Runs (migrateLoop size (rounds + 1) size offset) w offset w := by
    intro size rounds offset w
    rw [Runs, migrateLoop, if_neg (lt_irrefl _)]
    rfl
  rw [Runs, writeMigrationFile_starts temporary, Runs.bind (loop.trans (ended _ _ _ _)), (syncFile_runs _ _).bind]
  rfl

theorem exists_wide (wide : ¬ ∀ r ∈ records, r.Narrow) :
    ∃ good r later, records = good ++ r :: later ∧ (∀ r ∈ good, r.Narrow) ∧ ¬ r.Narrow := by
  induction records with
  | nil => exact absurd nofun wide
  | cons r records ih =>
    by_cases narrow : r.Narrow
    · obtain ⟨good, r', later, rfl, before, wide'⟩ := ih fun all => wide (List.forall_mem_cons.mpr ⟨narrow, all⟩)
      exact ⟨r :: good, r', later, rfl, List.forall_mem_cons.mpr ⟨narrow, before⟩, wide'⟩
    · exact ⟨[], r, records, rfl, nofun, narrow⟩

/-- A migration of a file with a record that is not narrow fails or writes
another file. -/
theorem writeMigrationFile_wide {old : Bytes} {w' : World} {offset : Nat}
    (values : w.disk .values = some (legacyFileBytes reserved records)) (temporary : w.disk .migrating = some old)
    (small : (legacyFileBytes reserved records).length < 2 ^ 63) (fits : ∀ r ∈ records, r.key.Fits)
    (wide : ¬ ∀ r ∈ records, r.Narrow)
    (runs : Runs (writeMigrationFile (legacyFileBytes reserved records).length) w offset w') :
    w'.disk .migrating ≠ some (valueFileBytes (migratedLog records)) := by
  obtain ⟨good, r, later, rfl, narrow, wide⟩ := exists_wide wide
  have split : legacyFileBytes reserved (good ++ r :: later) =
      legacyFileBytes reserved good ++ (r.encode ++ later.flatMap LegacyRecord.encode) := by
    rw [legacyFileBytes_append, List.flatMap_cons]
  have whole : valueFileBytes (migratedLog (good ++ r :: later)) =
      valueFileBytes (migratedLog (good ++ [r])) ++ encodeLog (migratedLog later) := by
    rw [← valueFileBytes_append, ← migratedLog_append, List.append_assoc, List.singleton_append]
  have loop := migrateLoop_start split values small (fun r member => fits r (List.mem_append_left _ member)) narrow
  rw [Runs, writeMigrationFile_starts temporary] at runs
  obtain ⟨offset', w₁, looped, runs⟩ := Runs.split runs
  rw [Runs, loop] at looped
  obtain ⟨_, rfl⟩ := Runs.unique runs (show Runs ((syncFile .migrating).bind fun _ => .ret offset') w₁ offset' w₁ from rfl)
  rw [whole]
  exact migrateLoop_wide split values small (fits r (by simp)) wide looped _

end Migrate

section Open
variable {H : HashFunctions} {w : World} {reserved retries : Nat} {records : List LegacyRecord}

/-- Opening a legacy file migrates it. -/
theorem openValueFile_legacy (values : w.disk .values = some (legacyFileBytes reserved records))
    (small : (legacyFileBytes reserved records).length < 2 ^ 63) (fits : ∀ r ∈ records, r.key.Fits)
    (narrow : ∀ r ∈ records, r.Narrow) :
    Runs (openValueFile false) w ()
      ((w.migrated (valueFileBytes (migratedLog records))).setMembers
        (·.migrated (valueFileBytes (migratedLog records)).length)) := by
  set s := legacyFileBytes reserved records with s_eq
  have long : 24 ≤ s.length := by
    have total := legacyFileBytes_length reserved records
    rw [← s_eq, valueFileBytes_length] at total
    omega
  have found : w.present .values = s := by rw [World.present, values]; rfl
  have opening : Runs (openAs false .values) w () (w.found .values s) := by
    rw [← found]
    exact openReadWriteCreate_runs w .values
  have content := w.found_disk .values s
  have header := @readAllAt_runs _ _ _ 0 24 content (by omega) small
  have migrating : (w.found .values s).migrating.disk .values = some s := by
    rw [World.migrating, World.found_disk_ne _ _ (by decide), content]
  have writes := writeMigrationFile_runs migrating (World.found_disk _ _ _) small fits narrow
  unfold Runs openValueFile
  rw [Prog.bind_eq, opening.bind, Prog.bind_eq, (getFileSize_runs content).bind, if_neg (by omega), if_neg (by omega),
    Prog.bind_eq, header.bind]
  simp only
  rw [if_pos (legacyFileBytes_header reserved records), if_neg (by decide)]
  refine (migrateLegacyValueFile_runs writes).trans ?_
  simp [World.migrated, World.found, World.setFile, World.setMembers, Members.migrated, Members.setDescriptor,
    Function.update_comm]

/-- The records of a legacy value file survive: its migration returns Ok and
leaves them in the current format, and an `Open` that returns Ok serves
them. -/
structure Migrates (H : HashFunctions) (w : World) (reserved : Nat) (records : List LegacyRecord) : Prop where
  file : ∃ w', Runs (migrateLegacyValueFile (legacyFileBytes reserved records).length) w () w' ∧
    w'.disk .values = some (valueFileBytes (migratedLog records)) ∧
    w'.members.appendOffset = (valueFileBytes (migratedLog records)).length
  serves : ∀ retries options w', Bounded (openReadWrite H (retries + 1) options) w →
    Runs (openReadWrite H (retries + 1) options) w () w' → ServesObjects H w' (migratedLog records)

theorem migratedLog_fits (fits : ∀ r ∈ records, r.key.Fits) : ∀ r ∈ migratedLog records, r.1.Fits := by
  intro record member
  obtain ⟨r, source, rfl⟩ := List.mem_map.mp member
  exact fits r source

theorem migrates_of_narrow (closed : w.Closed) (values : w.disk .values = some (legacyFileBytes reserved records))
    (small : (legacyFileBytes reserved records).length < 2 ^ 63) (fits : ∀ r ∈ records, r.key.Fits)
    (narrow : ∀ r ∈ records, r.Narrow) : Migrates H w reserved records where
  file := by
    have values' : w.migrating.disk .values = some (legacyFileBytes reserved records) := by
      rw [World.migrating, World.found_disk_ne _ _ (by decide), values]
    refine ⟨_, migrateLegacyValueFile_runs (writeMigrationFile_runs values' (World.found_disk _ _ _) small fits narrow),
      ?_, rfl⟩
    simp [World.migrated, World.setFile, World.setMembers]
  serves retries options w' bounded runs := by
    obtain ⟨rounded, w₁, given, load, opened, rfl, inner⟩ := openReadWrite_inv closed runs
    have values' : (w.opening rounded).disk .values = some (legacyFileBytes reserved records) := values
    have shorter := migratedLog_length_le reserved records
    have load' : LoadFactorOk rounded.maxLoadFactor := by
      rw [(DatabaseOptions.rounded_same given).2]
      exact load
    obtain ⟨store, _⟩ := openFiles_store (openValueFile_legacy values' small fits narrow)
      (by simp [World.migrated, World.setFile, World.setMembers]) (by omega) closed.maps
      (fun b present => by simp [World.migrated, World.setFile, World.setMembers] at present) load' (migratedLog_fits fits)
      rfl (inner bounded) (congrArg Outcome.state? opened)
    have store' : ObjectStore H (w₁.setMembers fun m => { m with isOpen := true }) (migratedLog records) :=
      store.transfer rfl rfl rfl rfl rfl
    exact store'.serves rfl

theorem not_migrates_of_wide (values : w.disk .values = some (legacyFileBytes reserved records))
    (small : (legacyFileBytes reserved records).length < 2 ^ 63) (fits : ∀ r ∈ records, r.key.Fits)
    (wide : ¬ ∀ r ∈ records, r.Narrow) : ¬ Migrates H w reserved records := by
  rintro ⟨⟨w', migrated, written, _⟩, _⟩
  have values' : w.migrating.disk .values = some (legacyFileBytes reserved records) := by
    rw [World.migrating, World.found_disk_ne _ _ (by decide), values]
  obtain ⟨offset, w₁, writes, placed⟩ := migrateLegacyValueFile_inv migrated
  have other := writeMigrationFile_wide values' (World.found_disk _ _ _) small fits wide writes
  exact other (placed.symm.trans written)

/-- The migration preserves the records of a legacy file exactly when column
and key of every record have a 32-bit size together. -/
theorem migrates_iff (closed : w.Closed) (values : w.disk .values = some (legacyFileBytes reserved records))
    (small : (legacyFileBytes reserved records).length < 2 ^ 63) (fits : ∀ r ∈ records, r.key.Fits) :
    Migrates H w reserved records ↔ ∀ r ∈ records, r.Narrow := by
  refine ⟨fun migrates => ?_, migrates_of_narrow closed values small fits⟩
  by_contra wide
  exact not_migrates_of_wide values small fits wide migrates

/-- A record whose column and key have `2 ^ 31` bytes each. -/
def wideRecord : LegacyRecord := { key := (List.replicate (2 ^ 31) 0, List.replicate (2 ^ 31) 0), value := [] }

/-- The migration does not preserve a legacy file with a wide record. -/
theorem wide_record_not_migrated : ∃ w : World, w.Closed ∧ w.disk .values = some (legacyFileBytes 0 [wideRecord]) ∧
    (legacyFileBytes 0 [wideRecord]).length < 2 ^ 63 ∧ wideRecord.key.Fits ∧
    ¬ Migrates .shipped w 0 [wideRecord] := by
  have column : wideRecord.key.1.length = 2 ^ 31 := List.length_replicate
  have key : wideRecord.key.2.length = 2 ^ 31 := List.length_replicate
  have fits : wideRecord.key.Fits := ⟨by rw [column]; decide, by rw [key]; decide⟩
  have small : (legacyFileBytes 0 [wideRecord]).length < 2 ^ 63 := by
    rw [legacyFileBytes_length, valueFileBytes_length]
    have size := encodeRecord_length wideRecord.key wideRecord.value
    have single : encodeLog (migratedLog [wideRecord]) = encodeRecord wideRecord.key wideRecord.value :=
      encodeLog_singleton (wideRecord.key, wideRecord.value)
    have value : wideRecord.value.length = 0 := rfl
    rw [single, size, column, key, value, List.length_singleton]
    decide
  refine ⟨({} : World).setFile .values (some (legacyFileBytes 0 [wideRecord])), ⟨rfl, fun _ => rfl, fun _ => rfl⟩, rfl,
    small, fits, not_migrates_of_wide rfl small ?_ ?_⟩
  · simpa using fits
  · intro narrow
    have both : wideRecord.key.1.length + wideRecord.key.2.length < 2 ^ 32 := narrow wideRecord (by simp)
    rw [column, key] at both
    exact absurd both (by decide)

def sampleRecords : List LegacyRecord := [⟨1, 2, 3, ([1], [2]), [3]⟩, ⟨4, 5, 6, ([1], [2]), [4]⟩]

theorem migrates_iff_sample : ∃ w w', Runs (openReadWrite .shipped 1 (smallOptions 1)) w () w' ∧
    Runs (getStruct .shipped [1] [2]) w' [4] w' := by
  set w := ({} : World).setFile .values (some (legacyFileBytes 7 sampleRecords)) with w_eq
  have narrow : ∀ r ∈ sampleRecords, r.Narrow := by
    unfold LegacyRecord.Narrow
    decide
  have migrates := (@migrates_iff .shipped w 7 sampleRecords ⟨rfl, fun _ => rfl, fun _ => rfl⟩ rfl (by decide +kernel)
    (by unfold ObjectKey.Fits; decide)).mpr narrow
  have opens : (run system (openReadWrite .shipped 1 (smallOptions 1)) w).value? = some () ∧
      Bounded (openReadWrite .shipped 1 (smallOptions 1)) w := by decide +kernel
  cases ended : run system (openReadWrite .shipped 1 (smallOptions 1)) w with
  | ok a w' => exact ⟨w, w', ended, (migrates.serves 0 _ w' opens.2 ended [1] [2]).1 [4] (by decide)⟩
  | _ =>
    rw [ended] at opens
    exact absurd opens.1 (by simp [Outcome.value?])

end Open

end LumoDB
