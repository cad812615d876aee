import LumoDB.Machine
import LumoDB.Open

namespace LumoDB
open ByteCodec Effects

namespace World

theorem setFile_withMapped (w : World) (file : FileId) (content : Option Bytes) (b : Bytes) :
    (w.setFile file content).withMapped file b = w.withMapped file b := by
  simp [withMapped, setFile]

theorem setDescriptor_withMapped (w : World) (file other : FileId) (valid : Bool) (b : Bytes) :
    (w.setMembers (·.setDescriptor other valid)).withMapped file b =
      (w.withMapped file b).setMembers (·.setDescriptor other valid) := rfl

theorem setFile_self {w : World} {file : FileId} {content : Option Bytes} (held : w.disk file = content) :
    w.setFile file content = w := by
  unfold setFile
  rw [← held, Function.update_eq_self]

@[simp] theorem setFile_setFile (w : World) (file : FileId) (old content : Option Bytes) :
    (w.setFile file old).setFile file content = w.setFile file content := by
  simp only [setFile, Function.update_idem]

/-- `file` holds `b`, and is open. -/
def found (w : World) (file : FileId) (b : Bytes) : World :=
  (w.setFile file (some b)).setMembers (·.setDescriptor file true)

/-- `file` holds `b`, and is open and mapped for writing. -/
def opened (w : World) (file : FileId) (b : Bytes) : World :=
  (w.withMapped file b).setMembers (·.setDescriptor file true)

@[simp] theorem found_disk (w : World) (file : FileId) (b : Bytes) : (w.found file b).disk file = some b := by
  simp [found, setFile, setMembers]

theorem found_disk_ne (w : World) {file other : FileId} (b : Bytes) (ne : other ≠ file) :
    (w.found file b).disk other = w.disk other := by
  simp [found, setFile, setMembers, ne]

theorem found_withMapped (w : World) (file : FileId) (old b : Bytes) :
    (w.found file old).withMapped file b = w.opened file b := by
  rw [found, setDescriptor_withMapped, setFile_withMapped]
  rfl

theorem sees_opened (w : World) (file : FileId) (b : Bytes) : (w.opened file b).Sees file b :=
  @sees_of_map _ _ _ true (by simp [opened, setMembers])
    (by simp [opened, setMembers, Members.setDescriptor, Members.setMap])

@[simp] theorem opened_disk (w : World) (file : FileId) (b : Bytes) : (w.opened file b).disk file = some b := by
  simp [opened, setMembers]

theorem opened_disk_ne (w : World) {file other : FileId} (b : Bytes) (ne : other ≠ file) :
    (w.opened file b).disk other = w.disk other := by
  simp [opened, setMembers, withMapped_disk_ne w b ne]

@[simp] theorem opened_maps (w : World) (file : FileId) (b : Bytes) :
    (w.opened file b).members.maps file = some ⟨b.length, true⟩ := by
  simp [opened, setMembers, Members.setDescriptor, Members.setMap]

theorem opened_maps_ne (w : World) {file other : FileId} (b : Bytes) (ne : other ≠ file) :
    (w.opened file b).members.maps other = w.members.maps other := by
  simp [opened, setMembers, Members.setDescriptor, Members.setMap, ne]

end World

section Map
variable {w : World} {file : FileId} {b : Bytes} {hasValidLayout : Nat → Db Bool}

theorem Bounded.mapFile {size : Nat} (bounded : Bounded (mapFile file size) w) : size < 2 ^ 63 := bounded.1

theorem mapFile_found {old : Bytes} (w : World) (positive : 0 < b.length) (small : b.length < 2 ^ 63) :
    Runs (mapFile file b.length) ((w.found file old).setFile file (some b)) () (w.opened file b) := by
  have mapping := @mapFile_runs ((w.found file old).setFile file (some b)) file _ positive small
  have same : ((w.found file old).setFile file (some b)).setMembers (·.setMap file (some ⟨b.length, true⟩)) =
      w.opened file b := by
    rw [← World.withMapped, World.found_withMapped]
  rwa [same] at mapping

theorem mapChecked_accepts (positive : 0 < b.length) (small : b.length < 2 ^ 63)
    (valid : Runs (hasValidLayout b.length) (w.opened file b) true (w.opened file b)) :
    Runs (mapChecked file hasValidLayout false b.length) (w.found file b) false (w.opened file b) := by
  have mapping := @mapFile_found file _ b w positive small
  rw [World.setFile_self (w.found_disk file b)] at mapping
  unfold Runs mapChecked
  rw [if_neg (by omega), Prog.bind_eq, Runs.bind (p := mapAs false file _) mapping, Prog.bind_eq, valid.bind,
    if_pos rfl]
  rfl

/-- A file that fails the check is unmapped again. -/
theorem mapChecked_rejects (unmapped : w.members.maps file = none) (small : b.length < 2 ^ 63)
    (refused : 0 < b.length → Runs (hasValidLayout b.length) (w.opened file b) false (w.opened file b)) :
    Runs (mapChecked file hasValidLayout false b.length) (w.found file b) true (w.found file b) := by
  unfold Runs mapChecked
  by_cases empty : b.length = 0
  · rw [if_pos empty]
    rfl
  · have mapping := @mapFile_found file _ b w (by omega) small
    rw [World.setFile_self (w.found_disk file b)] at mapping
    have back : (w.opened file b).setMembers (·.setMap file none) = w.found file b := by
      simp only [World.opened, World.found, World.withMapped, World.setMembers, World.setFile, Members.setMap,
        Members.setDescriptor, Function.update_idem]
      rw [← unmapped, Function.update_eq_self]
    rw [if_neg empty, Prog.bind_eq, Runs.bind (p := mapAs false file _) mapping, Prog.bind_eq,
      (refused (by omega)).bind, if_neg (by decide), Prog.bind_eq, (unmap_runs _ _).bind, back]
    rfl

end Map

section Open
variable {w : World} {file : FileId} {hasValidLayout : Nat → Db Bool} {rebuild : Db Unit}
  {emptyMessage invalidMessage : String}

/-- The file an open for writing finds: the one on disk, or a new empty
one. -/
def World.present (w : World) (file : FileId) : Bytes := (w.disk file).getD []

/-- An index that passes the check is kept as it is. -/
theorem openChecked_keeps {b : Bytes} (present : w.disk file = some b) (positive : 0 < b.length) (small : b.length < 2 ^ 63)
    (valid : Runs (hasValidLayout b.length) (w.opened file b) true (w.opened file b)) :
    Runs (openChecked file emptyMessage invalidMessage hasValidLayout rebuild false) w () (w.opened file b) := by
  have found : w.present file = b := by rw [World.present, present]; rfl
  have opening : Runs (openAs false file) w () (w.found file b) := by
    rw [← found]
    exact openReadWriteCreate_runs w file
  unfold Runs openChecked
  rw [Prog.bind_eq, opening.bind, Prog.bind_eq, (getFileSize_runs (w.found_disk file b)).bind, if_neg (by simp),
    Prog.bind_eq, (mapChecked_accepts positive small valid).bind, if_pos (by decide)]
  rfl

/-- An index that fails the check is rebuilt. -/
theorem openChecked_rebuilds (unmapped : w.members.maps file = none) (small : (w.present file).length < 2 ^ 63)
    (refused : 0 < (w.present file).length → Runs (hasValidLayout (w.present file).length)
      (w.opened file (w.present file)) false (w.opened file (w.present file))) :
    run system (openChecked file emptyMessage invalidMessage hasValidLayout rebuild false) w =
      run system rebuild (w.found file (w.present file)) := by
  have opening : Runs (openAs false file) w () (w.found file (w.present file)) := openReadWriteCreate_runs w file
  unfold openChecked
  rw [Prog.bind_eq, opening.bind, Prog.bind_eq, (getFileSize_runs (w.found_disk file _)).bind, if_neg (by simp), Prog.bind_eq,
    (mapChecked_rejects unmapped small refused).bind, if_neg (by decide), if_neg (by decide)]

/-- A layout check that reads past the file ends the process. -/
theorem openChecked_faults (positive : 0 < (w.present file).length) (small : (w.present file).length < 2 ^ 63)
    (overreads : run system (hasValidLayout (w.present file).length) (w.opened file (w.present file)) = .fault) :
    run system (openChecked file emptyMessage invalidMessage hasValidLayout rebuild false) w = .fault := by
  have opening : Runs (openAs false file) w () (w.found file (w.present file)) := openReadWriteCreate_runs w file
  have mapping := @mapFile_found file _ (w.present file) w positive small
  rw [World.setFile_self (w.found_disk file _)] at mapping
  have faults : run system (mapChecked file hasValidLayout false (w.present file).length) (w.found file (w.present file)) =
      .fault := by
    unfold mapChecked
    rw [if_neg (by omega), Prog.bind_eq, Runs.bind (p := mapAs false file _) mapping, Prog.bind_eq]
    exact run_bind_fault _ overreads _
  unfold openChecked
  rw [Prog.bind_eq, opening.bind, Prog.bind_eq, (getFileSize_runs (w.found_disk file _)).bind, if_neg (by simp), Prog.bind_eq]
  exact run_bind_fault _ faults _

/-- An open for writing keeps an index that passes the check, and rebuilds
any other. -/
theorem openChecked_runs {Good : Bytes → Prop} (unmapped : w.members.maps file = none)
    (checks : (0 < (w.present file).length ∧ (w.present file).length < 2 ^ 63 ∧ Good (w.present file) ∧
        Runs (hasValidLayout (w.present file).length) (w.opened file (w.present file)) true
          (w.opened file (w.present file))) ∨
      ((w.present file).length < 2 ^ 63 → 0 < (w.present file).length →
        Runs (hasValidLayout (w.present file).length) (w.opened file (w.present file)) false
          (w.opened file (w.present file))) ∧
      (Bounded rebuild (w.found file (w.present file)) →
        ∃ b, Runs rebuild (w.found file (w.present file)) () (w.opened file b) ∧ Good b))
    (bounded : Bounded (openChecked file emptyMessage invalidMessage hasValidLayout rebuild false) w) :
    ∃ b, Runs (openChecked file emptyMessage invalidMessage hasValidLayout rebuild false) w () (w.opened file b) ∧
      Good b := by
  set b := w.present file with b_eq
  have opening : Runs (openAs false file) w () (w.found file b) := openReadWriteCreate_runs w file
  have size := getFileSize_runs (w.found_disk file b)
  unfold openChecked at bounded
  replace bounded := (bounded.rest opening).rest size
  rw [if_neg (by simp)] at bounded
  rcases checks with ⟨positive, small, good, valid⟩ | ⟨refused, rebuilds⟩
  · refine ⟨b, ?_, good⟩
    unfold Runs openChecked
    rw [Prog.bind_eq, opening.bind, Prog.bind_eq, size.bind, if_neg (by simp), Prog.bind_eq,
      (mapChecked_accepts positive small valid).bind, if_pos (by decide)]
    rfl
  · have small : b.length < 2 ^ 63 := by
      by_cases empty : b.length = 0
      · omega
      · have first := bounded.first
        unfold mapChecked at first
        rw [if_neg empty] at first
        exact Bounded.mapFile first.first
    replace bounded := bounded.rest (mapChecked_rejects unmapped small (refused small))
    rw [if_neg (by decide), if_neg (by decide)] at bounded
    obtain ⟨b', rebuilt, good⟩ := rebuilds bounded
    exact ⟨b', (openChecked_rebuilds unmapped small (refused small)).trans rebuilt, good⟩

end Open

end LumoDB
