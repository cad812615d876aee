import LumoDB.Faults
import LumoDB.LegacyOpen

namespace LumoDB
open ByteCodec Effects

section Stop
variable {w t : World} {reserved : Nat} {records : List LegacyRecord}

/-- An operation that changes no file but the temporary one. -/
def Op.OnTemporary (o : Op) : Prop := (∀ f, o ≠ .setMembers f) ∧ ∀ file, file ≠ .migrating → file ∉ o.touched

/-- The two states have the same files but for the temporary one. -/
def SameSource (w w' : World) : Prop := ∀ file, file ≠ .migrating → w'.disk file = w.disk file

abbrev OnTemporary {α : Type} (p : Db α) : Prop := p.Only (S := signature) Op.OnTemporary

theorem onTemporary_of_touched {o : Op} (named : ∀ f, o ≠ .setMembers f)
    (touched : o.touched = [] ∨ o.touched = [.migrating]) : o.OnTemporary := by
  refine ⟨named, fun file other => ?_⟩
  rcases touched with none | one
  · rw [none]
    exact List.not_mem_nil
  · rw [one, List.mem_singleton]
    exact other

theorem onTemporary_checked {α : Type} (answer : Except Status α) : OnTemporary (checked answer) := by
  cases answer <;> exact trivial

theorem onTemporary_readAllAt (file : FileId) (offset size : Nat) : OnTemporary (readAllAt file offset size) :=
  ⟨onTemporary_of_touched nofun (Or.inl rfl), fun _ => onTemporary_checked _⟩

theorem onTemporary_writeAllAt (offset : Nat) (data : Bytes) : OnTemporary (writeAllAt .migrating offset data) :=
  ⟨onTemporary_of_touched nofun (Or.inr rfl), fun _ => onTemporary_checked _⟩

theorem onTemporary_copyLoop (rounds remaining source destination : Nat) :
    OnTemporary (copyLoop rounds remaining source destination) := by
  induction rounds generalizing remaining source destination with
  | zero => exact trivial
  | succ rounds ih =>
    exact .ite trivial (.bind (onTemporary_readAllAt _ _ _) fun _ => .bind (onTemporary_writeAllAt _ _) fun _ => ih _ _ _)

theorem onTemporary_migrateLoop (size rounds source destination : Nat) :
    OnTemporary (migrateLoop size rounds source destination) := by
  induction rounds generalizing source destination with
  | zero => exact trivial
  | succ rounds ih =>
    exact .ite (.bind (onTemporary_readAllAt _ _ _) fun _ => .ite trivial (.ite trivial
      (.bind (onTemporary_writeAllAt _ _) fun _ => .bind (onTemporary_copyLoop _ _ _ _) fun _ => ih _ _))) trivial

theorem onTemporary_writeMigrationFile (size : Nat) : OnTemporary (writeMigrationFile size) :=
  .bind ⟨onTemporary_of_touched nofun (Or.inr rfl), fun _ => onTemporary_checked _⟩ fun _ =>
    .bind (onTemporary_writeAllAt _ _) fun _ => .bind (onTemporary_migrateLoop _ _ _ _) fun _ =>
      .bind ⟨onTemporary_of_touched nofun (Or.inl rfl), fun _ => onTemporary_checked _⟩ fun _ => trivial

theorem strict_copyLoop (rounds remaining source destination : Nat) :
    Strict (copyLoop rounds remaining source destination) := by
  induction rounds generalizing remaining source destination with
  | zero => exact trivial
  | succ rounds ih =>
    exact .ite trivial (.bind (strict_readAllAt _ _) fun _ => .bind (strict_writeAllAt _ _) fun _ => ih _ _ _)

theorem strict_migrateLoop (size rounds source destination : Nat) :
    Strict (migrateLoop size rounds source destination) := by
  induction rounds generalizing source destination with
  | zero => exact trivial
  | succ rounds ih =>
    exact .ite (.bind (strict_readAllAt _ _) fun _ => .ite trivial (.ite trivial
      (.bind (strict_writeAllAt _ _) fun _ => .bind (strict_copyLoop _ _ _ _) fun _ => ih _ _))) trivial

theorem strict_writeMigrationFile (size : Nat) : Strict (writeMigrationFile size) :=
  .bind (strict_truncateFile _) fun _ => .bind (strict_writeAllAt _ _) fun _ => .bind (strict_migrateLoop _ _ _ _) fun _ =>
    .bind strict_syncFile fun _ => trivial

theorem prepareMigration_stops {size : Nat} (stops : Stops faulty Op.Partial (prepareMigration size) w t) :
    SameSource w t := by
  have only : OnTemporary (prepareMigration size) :=
    .bind ⟨onTemporary_of_touched nofun (Or.inr rfl), fun _ => onTemporary_checked _⟩ fun _ =>
      .orElse (onTemporary_writeMigrationFile size) fun _ => ⟨onTemporary_of_touched nofun (Or.inl rfl), fun _ => trivial⟩
  refine only.stops (fun _ _ _ => rfl) (fun _ _ _ first second file other => ?_) (fun o _ _ _ good step file other => ?_)
    (fun o _ _ good inside file other => ?_) stops
  · exact (second file other).trans (first file other)
  · exact faulty_touched step good.1 (good.2 file other)
  · exact partial_touched inside (good.2 file other)

/-- A step that went well did what the machine does. -/
theorem prepareMigration_finishes {offset size : Nat} (done : Finishes faulty (prepareMigration size) w offset t) :
    Runs (writeMigrationFile size) w.migrating offset t := by
  obtain ⟨_, w₁, opened, written⟩ := finishes_bind done
  have opening : Runs (openReadWriteCreate .migrating) w () w.migrating := openReadWriteCreate_runs w .migrating
  obtain ⟨_, rfl⟩ := Runs.unique (strict_openReadWriteCreate.run opened) opening
  have barren : ∀ e : Status, ((resetDescriptor .migrating).bind fun _ => (.fail e : Db Nat)).Barren := fun _ _ => trivial
  exact (strict_writeMigrationFile size).run (finishes_orElse barren written)

/-- An operation that changes no file. -/
def Op.Untouching (o : Op) : Prop := (∀ f, o ≠ .setMembers f) ∧ o.touched = []

theorem faulty_untouching {o : Op} {r : o.Resp} (quiet : o.Untouching) (step : faulty o w r t) : t.disk = w.disk := by
  funext file
  exact faulty_touched step quiet.1 (by rw [quiet.2]; exact List.not_mem_nil)

theorem faulty_rename {source target : FileId} {v : Bytes} {r : Except Status Unit} (content : w.disk source = some v)
    (step : faulty (.rename source target) w r t) :
    r = .ok () ∧ t = (w.setFile target (some v)).setFile source none ∨ (∃ e, r = .error e) ∧ t = w := by
  rcases step with done | ⟨e, refused⟩ | cut
  · simp only [system, content, Option.some.injEq, Prod.mk.injEq] at done
    exact Or.inl ⟨done.1.symm, done.2.symm⟩
  · cases refused
    exact Or.inr ⟨⟨e, rfl⟩, rfl⟩
  · exact cut.elim

theorem faulty_remove {file : FileId} {r : Except Status Unit} (step : faulty (.remove file) w r t) :
    r = .ok () ∧ t = w.setFile file none ∨ (∃ e, r = .error e) ∧ t = w := by
  rcases step with done | ⟨e, refused⟩ | cut
  · cases done
    exact Or.inl ⟨rfl, rfl⟩
  · cases refused
    exact Or.inr ⟨⟨e, rfl⟩, rfl⟩
  · exact cut.elim

theorem faulty_openFile {file : FileId} {v : Bytes} {r : Except Status Unit} (content : w.disk file = some v)
    (step : faulty (.openFile file true) w r t) : t.disk = w.disk := by
  rcases step with done | ⟨e, refused⟩ | cut
  · simp only [system, content, Option.some.injEq, Prod.mk.injEq] at done
    rw [← done.2]
    rfl
  · cases refused
    rfl
  · exact cut.elim

/-- The files after the rename: the new value file, with or without the old
index. -/
structure Renamed (w t : World) (v : Bytes) : Prop where
  values : t.disk .values = some v
  index : t.disk .index = w.disk .index ∨ t.disk .index = none

/-- Behind the removal of the index nothing changes the files. -/
theorem reopenMigrated_stops {offset : Nat} {v : Bytes} (content : w.disk .values = some v)
    (stops : Stops faulty Op.Partial ((openReadWriteCreate .values).bind fun _ =>
      setMembers fun m => { m with appendOffset := offset }) w t) : t.disk = w.disk := by
  rcases stops with rfl | inside | ⟨r, w₁, step, later⟩
  · rfl
  · exact inside.elim
  · have same := faulty_openFile content step
    cases r with
    | error e =>
      cases later
      exact same
    | ok _ =>
      rcases later with rfl | inside | ⟨_, w₂, step', rfl⟩
      · exact same
      · exact inside.elim
      · rcases step' with done | ⟨e, refused⟩ | cut
        · cases done
          exact same
        · cases refused
          exact same
        · exact cut.elim

/-- The end of the migration leaves the old files, or the new value file. -/
theorem finishMigration_stops {offset : Nat} {v : Bytes} (temporary : w.disk .migrating = some v)
    (stops : Stops faulty Op.Partial (finishMigration offset) w t) :
    t.disk .values = w.disk .values ∧ t.disk .index = w.disk .index ∨ Renamed w t v := by
  have quiet : ∀ file, (Op.closeFile file).Untouching := fun file => ⟨nofun, rfl⟩
  rcases stops with rfl | inside | ⟨_, w₁, step₁, stops⟩
  · exact Or.inl ⟨rfl, rfl⟩
  · exact inside.elim
  have same₁ := faulty_untouching (quiet .migrating) step₁
  rcases stops with rfl | inside | ⟨_, w₂, step₂, stops⟩
  · exact Or.inl ⟨by rw [same₁], by rw [same₁]⟩
  · exact inside.elim
  have same₂ := (faulty_untouching (quiet .values) step₂).trans same₁
  rcases stops with rfl | inside | ⟨r, w₃, step₃, stops⟩
  · exact Or.inl ⟨by rw [same₂], by rw [same₂]⟩
  · exact inside.elim
  rcases faulty_rename (show w₂.disk .migrating = some v by rw [same₂, temporary]) step₃ with
    ⟨rfl, rfl⟩ | ⟨⟨e, rfl⟩, rfl⟩
  swap
  · cases stops
    exact Or.inl ⟨by rw [same₂], by rw [same₂]⟩
  have values : ((w₂.setFile .values (some v)).setFile .migrating none).disk .values = some v := by simp [World.setFile]
  have index : ((w₂.setFile .values (some v)).setFile .migrating none).disk .index = w.disk .index := by
    simp [World.setFile, same₂]
  rcases stops with rfl | inside | ⟨r, w₄, step₄, stops⟩
  · exact Or.inr ⟨values, Or.inl index⟩
  · exact inside.elim
  rcases faulty_remove step₄ with ⟨rfl, rfl⟩ | ⟨⟨e, rfl⟩, rfl⟩
  swap
  · cases stops
    exact Or.inr ⟨values, Or.inl index⟩
  have values' : (((w₂.setFile .values (some v)).setFile .migrating none).setFile .index none).disk .values = some v := by
    simp [World.setFile]
  have same := reopenMigrated_stops values' stops
  exact Or.inr ⟨by rw [same, values'], Or.inr (by rw [same]; simp [World.setFile])⟩

/-- Wherever a migration stops, the value file is the legacy file, with the
index as it was, or the complete new file. -/
theorem migration_stops (values : w.disk .values = some (legacyFileBytes reserved records))
    (small : (legacyFileBytes reserved records).length < 2 ^ 63) (fits : ∀ r ∈ records, r.key.Fits)
    (narrow : ∀ r ∈ records, r.Narrow)
    (stops : Stops faulty Op.Partial (migrateLegacyValueFile (legacyFileBytes reserved records).length) w t) :
    t.disk .values = some (legacyFileBytes reserved records) ∧ t.disk .index = w.disk .index ∨
      Renamed w t (valueFileBytes (migratedLog records)) := by
  rw [migrateLegacyValueFile_eq] at stops
  rcases stops_bind stops with early | ⟨offset, w₁, done, late⟩
  · have same := prepareMigration_stops early
    exact Or.inl ⟨(same _ (by decide)).trans values, same _ (by decide)⟩
  · have values' : w.migrating.disk .values = some (legacyFileBytes reserved records) := by
      rw [World.migrating, World.found_disk_ne _ _ (by decide), values]
    obtain ⟨rfl, rfl⟩ := Runs.unique (prepareMigration_finishes done)
      (writeMigrationFile_runs values' (World.found_disk _ _ _) small fits narrow)
    have index : (w.migrating.setFile .migrating (some (valueFileBytes (migratedLog records)))).disk .index =
        w.disk .index := by simp [World.migrating, World.found, World.setFile, World.setMembers]
    have kept : (w.migrating.setFile .migrating (some (valueFileBytes (migratedLog records)))).disk .values =
        some (legacyFileBytes reserved records) := by
      simp [World.migrating, World.found, World.setFile, World.setMembers, values]
    rcases finishMigration_stops (v := valueFileBytes (migratedLog records)) (by simp [World.setFile]) late with
      ⟨same, old⟩ | renamed
    · exact Or.inl ⟨same.trans kept, old.trans index⟩
    · exact Or.inr ⟨renamed.values, renamed.index.imp_left fun old => old.trans index⟩

/-- A migration can be killed between the rename and the removal of the
index. -/
theorem migration_stops_renamed (values : w.disk .values = some (legacyFileBytes reserved records))
    (small : (legacyFileBytes reserved records).length < 2 ^ 63) (fits : ∀ r ∈ records, r.key.Fits)
    (narrow : ∀ r ∈ records, r.Narrow) :
    ∃ t, Stops faulty Op.Partial (migrateLegacyValueFile (legacyFileBytes reserved records).length) w t ∧
      t.disk = ((w.setFile .values (some (valueFileBytes (migratedLog records)))).setFile .migrating none).disk := by
  have values' : w.migrating.disk .values = some (legacyFileBytes reserved records) := by
    rw [World.migrating, World.found_disk_ne _ _ (by decide), values]
  have prepared := prepareMigration_runs (writeMigrationFile_runs values' (World.found_disk _ _ _) small fits narrow)
  set v := valueFileBytes (migratedLog records)
  set w₁ := ((w.migrating.setFile .migrating (some v)).setMembers (·.setDescriptor .migrating false)).setMembers
    (·.setDescriptor .values false) with w₁_eq
  have renamed : system (.rename .migrating .values) w₁ = some (.ok (), (w₁.setFile .values (some v)).setFile .migrating none) := by
    simp [system, w₁_eq, World.setFile, World.setMembers]
  refine ⟨(w₁.setFile .values (some v)).setFile .migrating none, ?_, ?_⟩
  · rw [migrateLegacyValueFile_eq]
    refine stops_bind_right (fun _ _ _ _ taken => Or.inl taken) prepared (Or.inr (Or.inr ⟨(), _, Or.inl rfl, ?_⟩))
    exact Or.inr (Or.inr ⟨(), w₁, Or.inl rfl, Or.inr (Or.inr ⟨.ok (), _, Or.inl renamed, stops_start _ _⟩)⟩)
  · funext file
    by_cases temporary : file = .migrating
    · simp [temporary, World.setFile]
    · simp [w₁_eq, World.migrating, World.found, World.setFile, World.setMembers, Function.update_apply, temporary]

end Stop

section Recovery
variable {H : HashFunctions} {w w' t : World} {reserved retries : Nat} {records : List LegacyRecord}

/-- A closed directory with the legacy file, or with the complete new file and
no index that passes the layout check but indexes something else. -/
structure Recoverable (H : HashFunctions) (w : World) (reserved : Nat) (records : List LegacyRecord) : Prop where
  closed : w.Closed
  files : w.disk .values = some (legacyFileBytes reserved records) ∨
    w.disk .values = some (valueFileBytes (migratedLog records)) ∧ StaleOrIndexed H (w.disk .index) (migratedLog records)

/-- The first `Open` that returns Ok, after any number that fail, leaves
`w'`. -/
inductive Reopened (H : HashFunctions) : World → World → Prop
  | opened {retries options w w'} (bounded : Bounded (openReadWrite H (retries + 1) options) w)
      (runs : Runs (openReadWrite H (retries + 1) options) w () w') : Reopened H w w'
  | failed {retries options w w₁ w' e} (bounded : Bounded (openReadWrite H (retries + 1) options) w)
      (fails : run system (openReadWrite H (retries + 1) options) w = .error e w₁) (later : Reopened H w₁ w') :
      Reopened H w w'

/-- Opening the files of such a directory gives an object store when it
returns. -/
theorem Recoverable.store {rounded : DatabaseOptions} (recoverable : Recoverable H w reserved records)
    (small : (legacyFileBytes reserved records).length < 2 ^ 63) (fits : ∀ r ∈ records, r.key.Fits)
    (narrow : ∀ r ∈ records, r.Narrow) (load : LoadFactorOk rounded.maxLoadFactor)
    (bounded : Bounded (openFiles H retries false) (w.opening rounded))
    (ended : (run system (openFiles H retries false) (w.opening rounded)).state? = some w') :
    ObjectStore H w' (migratedLog records) ∧ w'.members.isOpen = false := by
  have shorter := migratedLog_length_le reserved records
  have isOpen := recoverable.closed.isOpen
  rcases recoverable.files with legacy | ⟨current, index⟩
  · obtain ⟨store, same⟩ := openFiles_store (openValueFile_legacy (show (w.opening rounded).disk .values = _ from legacy)
      small fits narrow) (by simp [World.migrated, World.setFile, World.setMembers]) (by omega) recoverable.closed.maps
      (fun b present => by simp [World.migrated, World.setFile, World.setMembers] at present) load (migratedLog_fits fits)
      rfl bounded ended
    exact ⟨store, same.trans isOpen⟩
  · have opens := openValueFile_runs (w := w.opening rounded) (Or.inl current) (show _ < 2 ^ 63 by omega)
    have index' : StaleOrIndexed H ((w.opening rounded).disk .index) (migratedLog records) := index
    obtain ⟨store, same⟩ := openFiles_store opens (by simp [World.setFile, World.setMembers]) (by omega)
      recoverable.closed.maps (by simpa [World.setFile, World.setMembers] using index') load (migratedLog_fits fits) rfl
      bounded ended
    exact ⟨store, same.trans isOpen⟩

theorem Recoverable.failed {options : DatabaseOptions} {e : Status} (recoverable : Recoverable H w reserved records)
    (small : (legacyFileBytes reserved records).length < 2 ^ 63) (fits : ∀ r ∈ records, r.key.Fits)
    (narrow : ∀ r ∈ records, r.Narrow) (bounded : Bounded (openReadWrite H retries options) w)
    (fails : run system (openReadWrite H retries options) w = .error e w') : Recoverable H w' reserved records := by
  rcases openReadWrite_failed recoverable.closed fails with ⟨disk, closed⟩ | ⟨rounded, w₁, given, load, opened, rfl, inner⟩
  · exact ⟨closed, by rw [disk]; exact recoverable.files⟩
  · have load' : LoadFactorOk rounded.maxLoadFactor := by
      rw [(DatabaseOptions.rounded_same given).2]
      exact load
    obtain ⟨⟨b, n, slot, off, files⟩, isOpen⟩ := recoverable.store small fits narrow load' (inner bounded)
      (congrArg Outcome.state? opened)
    refine ⟨⟨isOpen, fun _ => rfl, fun _ => rfl⟩, Or.inr ⟨files.content, fun b' present => ?_⟩⟩
    obtain rfl : b' = b := Option.some.inj (present.symm.trans files.index)
    exact Or.inr ⟨n, slot, off, files.table, files.represents⟩

/-- The first `Open` that returns Ok serves the records of the legacy file. -/
theorem Reopened.serves (reopened : Reopened H w w') (recoverable : Recoverable H w reserved records)
    (small : (legacyFileBytes reserved records).length < 2 ^ 63) (fits : ∀ r ∈ records, r.key.Fits)
    (narrow : ∀ r ∈ records, r.Narrow) : ServesObjects H w' (migratedLog records) := by
  induction reopened with
  | opened bounded runs =>
    obtain ⟨rounded, w₁, given, load, opened, rfl, inner⟩ := openReadWrite_inv recoverable.closed runs
    have load' : LoadFactorOk rounded.maxLoadFactor := by
      rw [(DatabaseOptions.rounded_same given).2]
      exact load
    obtain ⟨store, _⟩ := recoverable.store small fits narrow load' (inner bounded) (congrArg Outcome.state? opened)
    have store' : ObjectStore H (w₁.setMembers fun m => { m with isOpen := true }) (migratedLog records) :=
      store.transfer rfl rfl rfl rfl rfl
    exact store'.serves rfl
  | failed bounded fails _ ih => exact ih (recoverable.failed small fits narrow bounded fails)

/-- A stopped migration leaves the legacy file or the complete new one, and
later `Open`s serve its records, unless the stop fell between the rename and
the removal of an index that passes the layout check. Such an index is kept. -/
theorem interrupted_migration_serves (values : w.disk .values = some (legacyFileBytes reserved records))
    (small : (legacyFileBytes reserved records).length < 2 ^ 63) (fits : ∀ r ∈ records, r.key.Fits)
    (narrow : ∀ r ∈ records, r.Narrow)
    (stops : Stops faulty Op.Partial (migrateLegacyValueFile (legacyFileBytes reserved records).length) w t) :
    (t.disk .values = some (legacyFileBytes reserved records) ∨
      t.disk .values = some (valueFileBytes (migratedLog records))) ∧
    ∀ left : World, left.Closed → left.disk = t.disk →
      ((t.disk .values = some (valueFileBytes (migratedLog records)) → ∀ b, t.disk .index = some b → ¬ Accepted b) →
        ∀ w', Reopened H left w' → ServesObjects H w' (migratedLog records)) ∧
      ∀ b, t.disk .values = some (valueFileBytes (migratedLog records)) → t.disk .index = some b → Accepted b →
        ∀ retries options w', Runs (openReadWrite H retries options) left () w' → w'.disk .index = some b := by
  have stopped := migration_stops values small fits narrow stops
  have shorter := migratedLog_length_le reserved records
  refine ⟨stopped.imp And.left Renamed.values, fun left closed same => ⟨fun clean w' reopened => ?_, ?_⟩⟩
  · refine reopened.serves ⟨closed, ?_⟩ small fits narrow
    rw [same]
    rcases stopped with ⟨legacy, _⟩ | renamed
    · exact Or.inl legacy
    · exact Or.inr ⟨renamed.values, fun b present => Or.inl (clean renamed.values b present)⟩
  · intro b current present accepted retries options w' runs
    obtain ⟨rounded, w₁, _, _, opened, rfl, _⟩ := openReadWrite_inv closed runs
    have current' : (left.opening rounded).disk .values = some (valueFileBytes (migratedLog records)) := by
      change left.disk .values = _
      rw [same, current]
    have opens := openValueFile_runs (Or.inl current') (show _ < 2 ^ 63 by omega)
    have index : (left.opening rounded).disk .index = some b := by
      change left.disk .index = _
      rw [same, present]
    have kept : w₁.disk .index = some b := openFiles_keepsIndex opens
      (by simpa [World.setFile, World.setMembers] using index) accepted (congrArg Outcome.state? opened)
    exact kept

/-- A directory with a legacy file and the object index `index`. -/
def legacyWorld (index : Option Bytes) : World :=
  (({} : World).setFile .values (some (legacyFileBytes 0 sampleRecords))).setFile .index index

/-- What a migration killed between the rename and the removal of the index
leaves. -/
def halfMigrated (index : Option Bytes) : World :=
  ((legacyWorld index).setFile .values (some (valueFileBytes (migratedLog sampleRecords)))).setFile .migrating none

theorem stops_halfMigrated (index : Option Bytes) : ∃ t, Stops faulty Op.Partial
    (migrateLegacyValueFile (legacyFileBytes 0 sampleRecords).length) (legacyWorld index) t ∧
      t.disk = (halfMigrated index).disk :=
  @migration_stops_renamed (legacyWorld index) 0 sampleRecords rfl (by decide +kernel) (by unfold ObjectKey.Fits; decide)
    (by unfold LegacyRecord.Narrow; decide)

/-- A kill after the rename, with an index that the next `Open` rejects. -/
theorem interrupted_migration_serves_sample : ∃ t left w', Stops faulty Op.Partial
      (migrateLegacyValueFile (legacyFileBytes 0 sampleRecords).length) (legacyWorld (some [1])) t ∧
    t.disk .values = some (valueFileBytes (migratedLog sampleRecords)) ∧ left.disk = t.disk ∧
    Reopened .shipped left w' ∧ Runs (getStruct .shipped [1] [2]) w' [4] w' := by
  obtain ⟨t, stops, same⟩ := stops_halfMigrated (some [1])
  have serves := (@interrupted_migration_serves .shipped (legacyWorld (some [1])) t 0 sampleRecords
    rfl (by decide +kernel) (by unfold ObjectKey.Fits; decide) (by unfold LegacyRecord.Narrow; decide) stops).2
    (halfMigrated (some [1])) ⟨rfl, fun _ => rfl, fun _ => rfl⟩ same.symm
  have opens : (run system (openReadWrite .shipped 1 (smallOptions 1)) (halfMigrated (some [1]))).value? = some () ∧
      Bounded (openReadWrite .shipped 1 (smallOptions 1)) (halfMigrated (some [1])) := by decide +kernel
  cases ended : run system (openReadWrite .shipped 1 (smallOptions 1)) (halfMigrated (some [1])) with
  | ok a w' =>
    have reopened : Reopened .shipped (halfMigrated (some [1])) w' := .opened opens.2 ended
    refine ⟨t, _, w', stops, by rw [same]; rfl, same.symm, reopened, (serves.1 (fun _ b present => ?_) w' reopened [1] [2]).1 [4]
      (by decide)⟩
    obtain rfl : [1] = b := by
      rw [same] at present
      exact Option.some.inj present
    rintro ⟨n, file⟩
    have long := file.length
    simp at long
    omega
  | _ =>
    rw [ended] at opens
    exact absurd opens.1 (by simp [Outcome.value?])

/-- After such a kill with an empty index an `Open` returns Ok, and the records
are gone. -/
theorem half_migrated_hides_records : ∃ t left w', Stops faulty Op.Partial
      (migrateLegacyValueFile (legacyFileBytes 0 sampleRecords).length) (legacyWorld (some (emptyIndex 16))) t ∧
    left.Closed ∧ left.disk = t.disk ∧ Reopened .shipped left w' ∧
    ¬ ServesObjects .shipped w' (migratedLog sampleRecords) := by
  obtain ⟨t, stops, same⟩ := stops_halfMigrated (some (emptyIndex 16))
  have opens : (run system ((openReadWrite .shipped 1 (smallOptions 1)).bind fun _ =>
      ((getStruct .shipped [1] [2]).bind fun _ => .ret true).orElse fun _ => .ret false)
        (halfMigrated (some (emptyIndex 16)))).value? = some false ∧
      Bounded (openReadWrite .shipped 1 (smallOptions 1)) (halfMigrated (some (emptyIndex 16))) := by decide +kernel
  cases ended : run system (openReadWrite .shipped 1 (smallOptions 1)) (halfMigrated (some (emptyIndex 16))) with
  | ok a w' =>
    refine ⟨t, halfMigrated (some (emptyIndex 16)), w', stops, ⟨rfl, fun _ => rfl, fun _ => rfl⟩, same.symm,
      .opened opens.2 ended, fun serves => ?_⟩
    have found := (serves [1] [2]).1 [4] (by decide)
    have answer := opens.1
    rw [run_bind, ended, andThen_ok, run_orElse, found.bind] at answer
    cases answer
  | _ =>
    rw [run_bind, ended] at opens
    exact absurd opens.1 (by simp [Outcome.value?, Outcome.andThen])

end Recovery

end LumoDB
