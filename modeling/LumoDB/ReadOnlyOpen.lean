import LumoDB.ColumnContents
import LumoDB.ReadSteps

namespace LumoDB
open ByteCodec Effects LinearProbing

/-- `w` with the whole of `file` open and mapped for reading. -/
def World.viewed (w : World) (file : FileId) (b : Bytes) : World :=
  w.setMembers fun m => (m.setDescriptor file true).setMap file (some ⟨b.length, false⟩)

/-- The step changed descriptors, mappings and append offsets only. -/
structure Browsed (w w' : World) : Prop where
  disk : w'.disk = w.disk
  directory : w'.directory = w.directory
  options : w'.members.options = w.members.options
  isOpen : w'.members.isOpen = w.members.isOpen
  readOnly : w'.members.readOnly = w.members.readOnly

theorem Browsed.trans {w w' w'' : World} (first : Browsed w w') (second : Browsed w' w'') : Browsed w w'' :=
  ⟨second.disk.trans first.disk, second.directory.trans first.directory, second.options.trans first.options,
    second.isOpen.trans first.isOpen, second.readOnly.trans first.readOnly⟩

section Files
variable {w : World} {file : FileId} {b : Bytes}

theorem World.viewed_maps_ne (w : World) {other : FileId} (b : Bytes) (ne : other ≠ file) :
    (w.viewed file b).members.maps other = w.members.maps other := by
  simp [viewed, setMembers, Members.setMap, Members.setDescriptor, ne]

theorem World.viewed_map (w : World) (file : FileId) (b : Bytes) :
    (w.viewed file b).members.maps file = some ⟨b.length, false⟩ := by
  simp [viewed, setMembers, Members.setMap]

theorem World.browsed_viewed (w : World) (file : FileId) (b : Bytes) : Browsed w (w.viewed file b) :=
  ⟨rfl, rfl, rfl, rfl, rfl⟩

/-- An open for reading keeps an index that passes the check. -/
theorem openChecked_viewed {hasValidLayout : Nat → Db Bool} {rebuild : Db Unit} {emptyMessage invalidMessage : String}
    (held : w.disk file = some b) (positive : 0 < b.length) (small : b.length < 2 ^ 63)
    (valid : Runs (hasValidLayout b.length) (w.viewed file b) true (w.viewed file b)) :
    Runs (openChecked file emptyMessage invalidMessage hasValidLayout rebuild true) w () (w.viewed file b) := by
  have content : (w.setMembers (·.setDescriptor file true)).disk file = some b := held
  have mapped := @mapReadOnly_runs (w.setMembers (·.setDescriptor file true)) file _ positive small
  have checked : Runs (mapChecked file hasValidLayout true b.length) (w.setMembers (·.setDescriptor file true)) false
      (w.viewed file b) := by
    unfold Runs mapChecked
    rw [if_neg (by omega), Prog.bind_eq, Runs.bind (p := mapAs true file _) mapped, Prog.bind_eq]
    refine (Runs.bind valid).trans ?_
    rw [if_pos rfl]
    rfl
  unfold Runs openChecked
  rw [Prog.bind_eq, Runs.bind (p := openAs true file) (openForReading_runs held), Prog.bind_eq,
    (getFileSize_runs content).bind, if_neg (by omega), Prog.bind_eq, checked.bind, if_pos (by decide)]
  rfl

theorem openValueFile_viewed {v : Bytes} (held : w.disk .values = some v) (headed : HasHeader kValueFileMagic v)
    (small : v.length < 2 ^ 63) :
    Runs (openValueFile true) w () ((w.viewed .values v).setMembers fun m => { m with appendOffset := v.length }) := by
  obtain ⟨long, valid⟩ := headed
  have content : (w.setMembers (·.setDescriptor .values true)).disk .values = some v := held
  have header := @readAllAt_runs _ _ _ 0 24 content (by omega) small
  unfold Runs openValueFile
  rw [Prog.bind_eq, Runs.bind (p := openAs true .values) (openForReading_runs held), Prog.bind_eq,
    (getFileSize_runs content).bind, if_neg (by omega), if_neg (by omega), Prog.bind_eq, header.bind]
  simp only
  rw [if_neg (not_legacy_of_valid valid), if_neg (not_not.mpr valid), Prog.bind_eq, setAppendOffset, (setMembers_runs _ _).bind,
    if_pos trivial]
  exact mapReadOnly_runs (by omega) small

theorem openRowValueFile_viewed {log : RowLog} {shardId : Nat}
    (held : w.disk (.rowShard shardId) = some (shardBytes log shardId))
    (small : (shardBytes log shardId).length < 2 ^ 63) :
    Runs (openRowValueFile true shardId) w () ((w.viewed (.rowShard shardId) (shardBytes log shardId)).setMembers
      (·.setAppendOffset shardId (shardBytes log shardId).length)) := by
  have content : (w.setMembers (·.setDescriptor (.rowShard shardId) true)).disk (.rowShard shardId) =
      some (shardBytes log shardId) := held
  have long := shardBytes_length log shardId
  have header := @readAllAt_runs _ _ _ 0 24 content (by omega) small
  unfold Runs openRowValueFile
  rw [Prog.bind_eq, Runs.bind (p := openAs true _) (openForReading_runs held), Prog.bind_eq,
    (getFileSize_runs content).bind, if_neg (by omega), if_neg (by omega), Prog.bind_eq, header.bind, shardBytes_header]
  simp only
  rw [if_neg (by decide), Prog.bind_eq, setRowAppendOffset, (setMembers_runs _ _).bind, if_pos trivial]
  exact mapReadOnly_runs (by omega) small

/-- The shard files from `shardId` on are mapped for reading. -/
structure ShardsViewed (w w' : World) (log : RowLog) (shardId rounds : Nat) : Prop where
  browsed : Browsed w w'
  rowShards : w'.members.rowShards = w.members.rowShards
  mapped : ∀ i, shardId ≤ i → i < shardId + rounds →
    w'.members.maps (.rowShard i) = some ⟨(shardBytes log i).length, false⟩
  others : ∀ other, (∀ i, shardId ≤ i → i < shardId + rounds → other ≠ .rowShard i) →
    w'.members.maps other = w.members.maps other

theorem openRowValueFileLoop_viewed {log : RowLog} {rounds shardId : Nat}
    (held : ∀ i, shardId ≤ i → i < shardId + rounds → w.disk (.rowShard i) = some (shardBytes log i))
    (small : ∀ i, shardId ≤ i → i < shardId + rounds → (shardBytes log i).length < 2 ^ 63) :
    ∃ w', Runs (openRowValueFileLoop true rounds shardId) w () w' ∧ ShardsViewed w w' log shardId rounds := by
  induction rounds generalizing w shardId with
  | zero =>
    exact ⟨w, rfl, ⟨rfl, rfl, rfl, rfl, rfl⟩, rfl, fun i _ _ => by omega, fun _ _ => rfl⟩
  | succ rounds ih =>
    have opened := openRowValueFile_viewed (held shardId le_rfl (by omega)) (small shardId le_rfl (by omega))
    set u := (w.viewed (.rowShard shardId) (shardBytes log shardId)).setMembers
      (·.setAppendOffset shardId (shardBytes log shardId).length) with u_eq
    have held' : ∀ i, shardId + 1 ≤ i → i < shardId + 1 + rounds → u.disk (.rowShard i) = some (shardBytes log i) :=
      fun i lower upper => held i (by omega) (by omega)
    obtain ⟨w', later, viewed⟩ := ih held' fun i lower upper => small i (by omega) (by omega)
    refine ⟨w', ?_, ?_⟩
    · unfold Runs openRowValueFileLoop
      rw [Prog.bind_eq, opened.bind]
      exact later
    · have first : Browsed w u := ⟨rfl, rfl, rfl, rfl, rfl⟩
      refine ⟨first.trans viewed.browsed, viewed.rowShards, fun i lower upper => ?_, fun other apart => ?_⟩
      · by_cases here : i = shardId
        · subst here
          rw [viewed.others _ fun j above _ same => by
            have index := FileId.rowShard.inj same
            omega]
          exact w.viewed_map _ _
        · exact viewed.mapped i (by omega) (by omega)
      · rw [viewed.others other fun i lower upper => apart i (by omega) (by omega)]
        exact w.viewed_maps_ne _ (apart shardId le_rfl (by omega))

theorem openRowValueFiles_viewed {log : RowLog}
    (held : ∀ i < w.members.options.rowShardCount, w.disk (.rowShard i) = some (shardBytes log i))
    (small : ∀ i < w.members.options.rowShardCount, (shardBytes log i).length < 2 ^ 63) :
    ∃ w', Runs (openRowValueFiles true) w () w' ∧ Browsed w w' ∧
      w'.members.rowShards = w.members.options.rowShardCount ∧
      (∀ i < w.members.options.rowShardCount,
        w'.members.maps (.rowShard i) = some ⟨(shardBytes log i).length, false⟩) ∧
      ∀ other, (∀ i, other ≠ .rowShard i) → w'.members.maps other = w.members.maps other := by
  set u := w.setMembers fun m => { m with
    rowShards := w.members.options.rowShardCount
    rowAppendOffsets := fun _ => 0 } with u_eq
  obtain ⟨w', ran, viewed⟩ := @openRowValueFileLoop_viewed u log w.members.options.rowShardCount 0
    (fun i _ upper => held i (by omega)) fun i _ upper => small i (by omega)
  have first : Browsed w u := ⟨rfl, rfl, rfl, rfl, rfl⟩
  refine ⟨w', ?_, first.trans viewed.browsed, viewed.rowShards,
    fun i upper => viewed.mapped i (Nat.zero_le i) (by omega),
    fun other apart => viewed.others other fun i _ _ => apart i⟩
  unfold Runs openRowValueFiles
  rw [Prog.bind_eq, (getMembers_runs w).bind, Prog.bind_eq]
  exact (Runs.bind (setMembers_runs _ w)).trans ran

end Files

end LumoDB
