import LumoDB.Machine
import LumoDB.Open

namespace LumoDB
open ByteCodec Effects

/-- The files whose bytes or mapping an operation can change. -/
def Op.touched : Op → List FileId
  | .openFile file _ => [file]
  | .truncate file _ => [file]
  | .writeAt file _ _ => [file]
  | .rename source target => [source, target]
  | .remove file => [file]
  | .map file _ _ => [file]
  | .unmap file => [file]
  | .store file _ _ _ => [file]
  | .storeBytes file _ _ => [file]
  | .cas file _ _ _ _ => [file]
  | .fetchAdd file _ _ _ => [file]
  | _ => []

/-- An operation leaves the object files, their mappings and the append offset
as they are, and the database open or closed. -/
def Op.SparesObjects : Op → Prop
  | .setMembers f => ∀ m, (f m).maps .values = m.maps .values ∧ (f m).maps .index = m.maps .index ∧
      (f m).appendOffset = m.appendOffset ∧ (f m).isOpen = m.isOpen
  | o => FileId.values ∉ o.touched ∧ FileId.index ∉ o.touched

structure SameObjects (w w' : World) : Prop where
  values : w'.disk .values = w.disk .values
  index : w'.disk .index = w.disk .index
  valuesMap : w'.members.maps .values = w.members.maps .values
  indexMap : w'.members.maps .index = w.members.maps .index
  appendOffset : w'.members.appendOffset = w.members.appendOffset
  isOpen : w'.members.isOpen = w.members.isOpen

section Step
variable {w w' : World} {o : Op} {r : o.Resp} {file : FileId}

theorem setFile_apart {other : FileId} (w : World) (content : Option Bytes) (apart : ¬ file = other) :
    (w.setFile other content).disk file = w.disk file ∧
      (w.setFile other content).members.maps file = w.members.maps file ∧
      (w.setFile other content).members.appendOffset = w.members.appendOffset ∧
      (w.setFile other content).members.isOpen = w.members.isOpen := by
  simp [World.setFile, apart]

theorem setMap_apart {other : FileId} (w : World) (map : Option Mapping) (apart : ¬ file = other) :
    (w.setMembers (·.setMap other map)).disk file = w.disk file ∧
      (w.setMembers (·.setMap other map)).members.maps file = w.members.maps file ∧
      (w.setMembers (·.setMap other map)).members.appendOffset = w.members.appendOffset ∧
      (w.setMembers (·.setMap other map)).members.isOpen = w.members.isOpen := by
  simp [World.setMembers, Members.setMap, apart]

theorem pendingSub_step {amount : Nat} {r : Unit} (step : system (.pendingSub amount) w = some (r, w')) :
    ∃ count, w' = w.setMembers (·.setPending count) := by
  rw [system] at step
  exact ⟨_, (congrArg Prod.snd (Option.some.inj step)).symm⟩

/-- An operation changes no file and no mapping but those it names. -/
theorem system_touched (step : system o w = some (r, w')) (named : ∀ f, o ≠ .setMembers f) (apart : file ∉ o.touched) :
    w'.disk file = w.disk file ∧ w'.members.maps file = w.members.maps file ∧
      w'.members.appendOffset = w.members.appendOffset ∧ w'.members.isOpen = w.members.isOpen := by
  cases o with
  | setMembers f => exact absurd rfl (named f)
  | rename source target =>
    obtain ⟨notSource, notTarget⟩ : ¬ file = source ∧ ¬ file = target := by simpa [Op.touched] using apart
    simp only [system] at step
    split at step
    · cases step
      simp [World.setFile, notSource, notTarget]
    · cases step
      exact ⟨rfl, rfl, rfl, rfl⟩
  | remove other =>
    cases step
    exact setFile_apart w none (by simpa [Op.touched] using apart)
  | unmap other =>
    cases step
    exact setMap_apart w none (by simpa [Op.touched] using apart)
  | openFile other create =>
    have ne : ¬ file = other := by simpa [Op.touched] using apart
    simp only [system] at step
    split at step
    · cases step
      exact ⟨rfl, rfl, rfl, rfl⟩
    · split at step
      · cases step
        exact setFile_apart w (some []) ne
      · cases step
        exact ⟨rfl, rfl, rfl, rfl⟩
  | map other size writable =>
    have ne : ¬ file = other := by simpa [Op.touched] using apart
    simp only [system] at step
    split at step
    · cases step
      exact setMap_apart w none ne
    · cases step
      exact setMap_apart w _ ne
  | truncate other size =>
    have ne : ¬ file = other := by simpa [Op.touched] using apart
    simp only [system] at step
    split at step
    · split at step
      · cases step
        exact setFile_apart w _ ne
      · cases step
        exact ⟨rfl, rfl, rfl, rfl⟩
    · cases step
      exact ⟨rfl, rfl, rfl, rfl⟩
  | writeAt other offset data =>
    have ne : ¬ file = other := by simpa [Op.touched] using apart
    simp only [system] at step
    split at step
    · split at step
      · cases step
        exact ⟨rfl, rfl, rfl, rfl⟩
      · split at step
        · cases step
          exact setFile_apart w _ ne
        · cases step
          exact ⟨rfl, rfl, rfl, rfl⟩
    · cases step
      exact ⟨rfl, rfl, rfl, rfl⟩
  | store other _ _ _ | storeBytes other _ _ | fetchAdd other _ _ _ =>
    have ne : ¬ file = other := by simpa [Op.touched] using apart
    simp only [system] at step
    split at step
    · cases step
      exact setFile_apart w _ ne
    · cases step
  | cas other _ _ _ _ =>
    have ne : ¬ file = other := by simpa [Op.touched] using apart
    simp only [system] at step
    split at step
    · split at step
      · cases step
        exact setFile_apart w _ ne
      · cases step
        exact ⟨rfl, rfl, rfl, rfl⟩
    · cases step
  | load _ _ _ | loadBytes _ _ _ =>
    simp only [system, Option.map_eq_some_iff] at step
    obtain ⟨_, _, same⟩ := step
    cases same
    exact ⟨rfl, rfl, rfl, rfl⟩
  | ensureDirectory | fileSize _ | pendingCas _ _ =>
    simp only [system] at step
    split at step <;> cases step <;> exact ⟨rfl, rfl, rfl, rfl⟩
  | msync _ =>
    simp only [system] at step
    split at step
    · cases step
      exact ⟨rfl, rfl, rfl, rfl⟩
    · split at step <;> cases step <;> exact ⟨rfl, rfl, rfl, rfl⟩
  | readAt _ _ _ =>
    simp only [system] at step
    split at step
    · split at step
      · cases step
        exact ⟨rfl, rfl, rfl, rfl⟩
      · split at step
        · cases step
          exact ⟨rfl, rfl, rfl, rfl⟩
        · split at step <;> cases step <;> exact ⟨rfl, rfl, rfl, rfl⟩
    · cases step
      exact ⟨rfl, rfl, rfl, rfl⟩
  | pendingSub amount =>
    obtain ⟨count, rfl⟩ := pendingSub_step step
    exact ⟨rfl, rfl, rfl, rfl⟩
  | members | isDirectory | closeFile _ | sync _ | appendFetchAdd _ _ | pendingLoad =>
    cases step
    exact ⟨rfl, rfl, rfl, rfl⟩

theorem Op.SparesObjects.same (spares : o.SparesObjects) (step : system o w = some (r, w')) : SameObjects w w' := by
  by_cases named : ∃ f, o = .setMembers f
  · obtain ⟨f, rfl⟩ := named
    cases step
    obtain ⟨values, index, append, isOpen⟩ := spares w.members
    exact ⟨rfl, rfl, values, index, append, isOpen⟩
  · have apart : FileId.values ∉ o.touched ∧ FileId.index ∉ o.touched := by
      cases o <;> first | exact spares | exact absurd ⟨_, rfl⟩ named
    have values := system_touched step (fun f same => named ⟨f, same⟩) apart.1
    have index := system_touched step (fun f same => named ⟨f, same⟩) apart.2
    exact ⟨values.1, index.1, values.2.1, index.2.1, values.2.2.1, values.2.2.2⟩

theorem SameObjects.refl (w : World) : SameObjects w w := ⟨rfl, rfl, rfl, rfl, rfl, rfl⟩

theorem SameObjects.trans {w'' : World} (first : SameObjects w w') (second : SameObjects w' w'') : SameObjects w w'' :=
  ⟨second.values.trans first.values, second.index.trans first.index, second.valuesMap.trans first.valuesMap,
    second.indexMap.trans first.indexMap, second.appendOffset.trans first.appendOffset,
    second.isOpen.trans first.isOpen⟩

theorem sameObjects_of_only {α : Type} {p : Db α} (only : p.Only Op.SparesObjects)
    (ended : (run system p w).state? = some w') : SameObjects w w' :=
  only.preserves SameObjects.refl (fun _ _ _ => SameObjects.trans) (fun _ _ _ _ spares step => spares.same step) ended

end Step

section Calls
variable {α : Type} {file : FileId}

/-- A file whose changes spare the objects. -/
def FileId.Apart (file : FileId) : Prop := file ≠ .values ∧ file ≠ .index

theorem rowIndex_apart : FileId.rowIndex.Apart := ⟨by decide, by decide⟩

theorem rowShard_apart (i : Nat) : (FileId.rowShard i).Apart := ⟨by simp, by simp⟩

/-- All operations of the program spare the objects. -/
abbrev Spares (p : Db α) : Prop := p.Only (S := signature) Op.SparesObjects

theorem spares_checked (answer : Except Status α) : Spares (checked answer) := by
  cases answer <;> exact trivial

theorem spares_orOverflow (answer : Option α) : Spares (orOverflow answer) := by
  cases answer <;> exact trivial

theorem Op.sparesObjects_of_untouched {o : Op} (named : ∀ f, o ≠ .setMembers f) (untouched : o.touched = []) :
    o.SparesObjects := by
  cases o <;> first
    | exact absurd rfl (named _)
    | exact ⟨by rw [untouched]; exact List.not_mem_nil, by rw [untouched]; exact List.not_mem_nil⟩

theorem Op.sparesObjects_of_touched {o : Op} (named : ∀ f, o ≠ .setMembers f) (touched : o.touched = [file])
    (apart : file.Apart) : o.SparesObjects := by
  have values : FileId.values ∉ o.touched := by rw [touched, List.mem_singleton]; exact apart.1.symm
  have index : FileId.index ∉ o.touched := by rw [touched, List.mem_singleton]; exact apart.2.symm
  cases o <;> first
    | exact absurd rfl (named _)
    | exact ⟨values, index⟩

theorem spares_perform {o : Op} (spares : o.SparesObjects) : Spares (.perform (S := signature) o) :=
  ⟨spares, fun _ => trivial⟩

theorem spares_getMembers : Spares getMembers := spares_perform (Op.sparesObjects_of_untouched nofun rfl)

theorem spares_load (offset width : Nat) : Spares (load file offset width) :=
  spares_perform (Op.sparesObjects_of_untouched nofun rfl)

theorem spares_loadBytes (offset size : Nat) : Spares (loadBytes file offset size) :=
  spares_perform (Op.sparesObjects_of_untouched nofun rfl)

theorem spares_getFileSize : Spares (getFileSize file) :=
  ⟨Op.sparesObjects_of_untouched nofun rfl, fun _ => spares_checked _⟩

theorem spares_readAllAt (offset size : Nat) : Spares (readAllAt file offset size) :=
  ⟨Op.sparesObjects_of_untouched nofun rfl, fun _ => spares_checked _⟩

theorem spares_store (apart : file.Apart) (offset width value : Nat) : Spares (store file offset width value) :=
  spares_perform (Op.sparesObjects_of_touched nofun rfl apart)

theorem spares_storeBytes (apart : file.Apart) (offset : Nat) (data : Bytes) : Spares (storeBytes file offset data) :=
  spares_perform (Op.sparesObjects_of_touched nofun rfl apart)

theorem spares_unmap (apart : file.Apart) : Spares (unmap file) :=
  spares_perform (Op.sparesObjects_of_touched nofun rfl apart)

theorem spares_truncateFile (apart : file.Apart) (size : Nat) : Spares (truncateFile file size) :=
  ⟨Op.sparesObjects_of_touched nofun rfl apart, fun _ => spares_checked _⟩

theorem spares_writeAllAt (apart : file.Apart) (offset : Nat) (data : Bytes) : Spares (writeAllAt file offset data) :=
  ⟨Op.sparesObjects_of_touched nofun rfl apart, fun _ => spares_checked _⟩

theorem spares_openAs (apart : file.Apart) (readOnly : Bool) : Spares (openAs readOnly file) := by
  unfold openAs openForReading openReadWriteCreate
  exact .ite ⟨Op.sparesObjects_of_touched nofun rfl apart, fun _ => spares_checked _⟩
    ⟨Op.sparesObjects_of_touched nofun rfl apart, fun _ => spares_checked _⟩

theorem spares_mapAs (apart : file.Apart) (readOnly : Bool) (size : Nat) : Spares (mapAs readOnly file size) := by
  unfold mapAs mapReadOnly mapFile
  exact .ite ⟨Op.sparesObjects_of_touched nofun rfl apart, fun _ => spares_checked _⟩
    ⟨Op.sparesObjects_of_touched nofun rfl apart, fun _ => spares_checked _⟩

theorem spares_mapFile (apart : file.Apart) (size : Nat) : Spares (mapFile file size) :=
  ⟨Op.sparesObjects_of_touched nofun rfl apart, fun _ => spares_checked _⟩

theorem spares_setRowAppendOffset (shardId offset : Nat) : Spares (setRowAppendOffset shardId offset) :=
  spares_perform (o := .setMembers _) fun _ => ⟨rfl, rfl, rfl, rfl⟩

end Calls

section RowFiles
variable (H : HashFunctions)

theorem spares_openRowValueFile (readOnly : Bool) (shardId : Nat) : Spares (openRowValueFile readOnly shardId) := by
  have apart := rowShard_apart shardId
  refine .bind (spares_openAs apart _) fun _ => .bind spares_getFileSize fun fileSize => .ite (.ite trivial ?_) ?_
  · exact .bind (spares_writeAllAt apart _ _) fun _ => spares_setRowAppendOffset _ _
  · refine .ite trivial (.bind (spares_readAllAt _ _) fun bytes => .ite trivial ?_)
    exact .bind (spares_setRowAppendOffset _ _) fun _ => .ite (spares_mapAs apart true _) trivial

theorem spares_openRowValueFileLoop (readOnly : Bool) (rounds shardId : Nat) :
    Spares (openRowValueFileLoop readOnly rounds shardId) := by
  induction rounds generalizing shardId with
  | zero => exact trivial
  | succ rounds ih => exact .bind (spares_openRowValueFile _ _) fun _ => ih _

theorem spares_openRowValueFiles (readOnly : Bool) : Spares (openRowValueFiles readOnly) :=
  .bind spares_getMembers fun _ => .bind (spares_perform (o := .setMembers _) fun _ => ⟨rfl, rfl, rfl, rfl⟩) fun _ =>
    spares_openRowValueFileLoop _ _ _

theorem spares_countRowFilled (rounds index : Nat) : Spares (countRowFilled rounds index) := by
  induction rounds generalizing index with
  | zero => exact trivial
  | succ rounds ih => exact .bind (spares_load _ _) fun _ => .ite trivial (.bind (ih _) fun _ => trivial)

theorem spares_hasValidRowIndexLayout (fileSize : Nat) : Spares (hasValidRowIndexLayout fileSize) :=
  .bind spares_getMembers fun _ => .ite trivial (.bind (spares_loadBytes _ _) fun _ => .ite trivial (.ite trivial
    (.ite trivial (.bind (spares_countRowFilled _ _) fun _ => trivial))))

theorem spares_createEmptyRowIndex (bucketCount : Nat) : Spares (createEmptyRowIndex bucketCount) :=
  .bind spares_getMembers fun _ => .bind (spares_orOverflow _) fun _ => .bind (spares_unmap rowIndex_apart) fun _ =>
    .bind (spares_truncateFile rowIndex_apart _) fun _ => .bind (spares_mapFile rowIndex_apart _) fun _ =>
      .bind (spares_storeBytes rowIndex_apart _ _) fun _ => spares_storeBytes rowIndex_apart _ _

theorem spares_collectRowBuckets (rounds index : Nat) : Spares (collectRowBuckets rounds index) := by
  induction rounds generalizing index with
  | zero => exact trivial
  | succ rounds ih =>
    exact .bind (.bind (spares_loadBytes _ _) fun _ => trivial) fun _ => .bind (ih _) fun _ => trivial

theorem spares_placeRowBucketLoop (bucket : RowIndexBucket) (mask start rounds probe : Nat) :
    Spares (placeRowBucketLoop bucket mask start rounds probe) := by
  induction rounds generalizing probe with
  | zero => exact trivial
  | succ rounds ih =>
    exact .bind (.bind (spares_loadBytes _ _) fun _ => trivial) fun _ =>
      .ite (spares_storeBytes rowIndex_apart _ _) (ih _)

theorem spares_addRowItem : Spares addRowItem :=
  .bind (spares_load _ _) fun _ => spares_store rowIndex_apart _ _ _

theorem spares_placeRowBuckets (buckets : List RowIndexBucket) : Spares (placeRowBuckets H buckets) := by
  induction buckets with
  | nil => exact trivial
  | cons bucket later ih =>
    exact .bind (.bind (spares_load _ _) fun _ => spares_placeRowBucketLoop _ _ _ _ _) fun _ =>
      .bind spares_addRowItem fun _ => ih

theorem spares_ensureRowCapacityForInsert : Spares (ensureRowCapacityForInsert H) := by
  refine .bind spares_getMembers fun _ => .bind (spares_load _ _) fun _ => .bind (spares_load _ _) fun _ => .ite trivial ?_
  exact .bind (spares_load _ _) fun _ => .bind (spares_collectRowBuckets _ _) fun _ => .bind (spares_load _ _) fun _ =>
    .bind (spares_createEmptyRowIndex _) fun _ => .bind (spares_store rowIndex_apart _ _ _) fun _ =>
      spares_placeRowBuckets H _

theorem spares_readRowValueAt (shardId offset size : Nat) : Spares (readRowValueAt shardId offset size) := by
  refine .bind spares_getMembers fun m => .ite trivial ?_
  cases m.maps (.rowShard shardId) with
  | none => exact spares_readAllAt _ _
  | some mapping => exact .ite trivial (.ite (spares_loadBytes _ _) trivial)

theorem spares_rowBlockMatches (bucket : RowIndexBucket) (column : Bytes) (rowId : Nat) :
    Spares (rowBlockMatches bucket column rowId) :=
  .bind spares_getMembers fun _ => .ite trivial (.bind (.bind (spares_readRowValueAt _ _ _) fun _ => trivial) fun _ =>
    .ite trivial (.ite trivial (.bind (spares_readRowValueAt _ _ _) fun _ => trivial)))

theorem spares_loadRowBucketSnapshot (index : Nat) : Spares (loadRowBucketSnapshot index) :=
  .bind (spares_load _ _) fun _ => .ite trivial (.ite trivial (.ite trivial (.bind (spares_load _ _) fun _ =>
    .bind (spares_load _ _) fun _ => .bind (spares_load _ _) fun _ => .bind (spares_load _ _) fun _ =>
      .bind (spares_load _ _) fun _ => .bind (spares_load _ _) fun _ => .bind (spares_load _ _) fun _ =>
        .ite trivial trivial)))

theorem spares_findRowPass (column : Bytes) (rowId columnHash mask start rounds probe : Nat) :
    Spares (findRowPass column rowId columnHash mask start rounds probe) := by
  induction rounds generalizing probe with
  | zero => exact trivial
  | succ rounds ih =>
    refine .bind (spares_loadRowBucketSnapshot _) fun snapshot => ?_
    cases snapshot with
    | empty => exact trivial
    | writing => exact trivial
    | filled bucket =>
      refine .ite (ih _) (.bind (spares_rowBlockMatches _ _ _) fun matched => ?_)
      cases matched with
      | none => exact ih _
      | some h => exact trivial

theorem spares_findRowBucket (column : Bytes) (rowId columnHash retries : Nat) :
    Spares (findRowBucket H column rowId columnHash retries) := by
  refine .bind (spares_load _ _) fun bucketCount => ?_
  induction retries with
  | zero => exact trivial
  | succ retries ih =>
    refine .bind (spares_findRowPass _ _ _ _ _ _ _) fun lookup => ?_
    cases lookup with
    | none => exact ih
    | some lookup => exact trivial

theorem spares_rebuildRowBlock (retries shardId fileSize offset : Nat) :
    Spares (rebuildRowBlock H retries shardId fileSize offset) := by
  refine .bind (spares_readAllAt _ _) fun _ => .ite trivial (.ite trivial (.bind (spares_readRowValueAt _ _ _) fun _ =>
    .bind (spares_ensureRowCapacityForInsert H) fun _ => .bind (spares_findRowBucket H _ _ _ _) fun lookup =>
      .bind (spares_storeBytes rowIndex_apart _ _) fun _ => .bind ?_ fun _ => trivial))
  exact .ite trivial spares_addRowItem

theorem spares_rebuildRowLoop (retries shardId fileSize rounds offset nextSequence : Nat) :
    Spares (rebuildRowLoop H retries shardId fileSize rounds offset nextSequence) := by
  induction rounds generalizing offset nextSequence with
  | zero => exact trivial
  | succ rounds ih => exact .ite (.bind (spares_rebuildRowBlock H _ _ _ _) fun _ => ih _ _) trivial

theorem spares_rebuildShards (retries rounds shardId nextSequence : Nat) :
    Spares (rebuildShards H retries rounds shardId nextSequence) := by
  induction rounds generalizing shardId nextSequence with
  | zero => exact trivial
  | succ rounds ih =>
    exact .bind spares_getFileSize fun _ => .bind (spares_rebuildRowLoop H _ _ _ _ _ _) fun _ =>
      .bind (spares_setRowAppendOffset _ _) fun _ => ih _ _

theorem spares_openRowIndexFile (retries : Nat) (readOnly : Bool) : Spares (openRowIndexFile H retries readOnly) := by
  refine .bind (spares_openAs rowIndex_apart _) fun _ => .bind spares_getFileSize fun fileSize => .ite trivial
    (.bind ?_ fun _ => .ite trivial (.ite trivial ?_))
  · exact .ite trivial (.bind (spares_mapAs rowIndex_apart _ _) fun _ => .bind (spares_hasValidRowIndexLayout _) fun _ =>
      .ite trivial (.bind (spares_unmap rowIndex_apart) fun _ => trivial))
  · exact .bind spares_getMembers fun _ => .bind (spares_createEmptyRowIndex _) fun _ => .bind spares_getMembers fun _ =>
      .bind (spares_rebuildShards H _ _ _ _) fun _ => spares_store rowIndex_apart _ _ _

/-- Opening the row files changes nothing of the objects, whatever the row
files hold. -/
theorem spares_openRows (retries : Nat) (readOnly : Bool) :
    Spares ((openRowValueFiles readOnly).bind fun _ => openRowIndexFile H retries readOnly) :=
  .bind (spares_openRowValueFiles readOnly) fun _ => spares_openRowIndexFile H retries readOnly

end RowFiles

end LumoDB
