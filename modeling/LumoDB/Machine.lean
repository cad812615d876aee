import LumoDB.File

namespace LumoDB
open ByteCodec Effects

/-- `p` returns `a` from `w` and leaves `w'`. -/
abbrev Runs {α : Type} (p : Db α) (w : World) (a : α) (w' : World) : Prop :=
  run system p w = .ok a w'

/-- No size or offset overflows and no system call of `p` is refused for its
arguments. -/
abbrev Bounded {α : Type} (p : Db α) (w : World) : Prop := Within system Op.Fits p w

theorem Runs.bind {α β : Type} {p : Db α} {f : α → Db β} {w w' : World} {a : α}
    (first : Runs p w a w') : run system (p.bind f) w = run system (f a) w' :=
  run_bind_ok system first f

/-- What runs in sequence runs one after the other. -/
theorem Runs.split {α β : Type} {p : Db α} {f : α → Db β} {w w' : World} {b : β} (runs : Runs (p.bind f) w b w') :
    ∃ a w₁, Runs p w a w₁ ∧ Runs (f a) w₁ b w' := by
  unfold Runs at runs
  rw [run_bind] at runs
  cases first : run system p w with
  | ok a w₁ => exact ⟨a, w₁, first, by rwa [first] at runs⟩
  | error e w₁ => rw [first] at runs; cases runs
  | fault => rw [first] at runs; cases runs
  | overflow => rw [first] at runs; cases runs
  | spin => rw [first] at runs; cases runs

theorem Runs.unique {α : Type} {p : Db α} {w w₁ w₂ : World} {a b : α}
    (first : Runs p w a w₁) (second : Runs p w b w₂) : a = b ∧ w₁ = w₂ := by
  have same := first.symm.trans second
  simpa only [Outcome.ok.injEq] using same

namespace World

/-- `w` with the whole of `file` mapped for writing and holding `bytes`. -/
def withMapped (w : World) (file : FileId) (bytes : Bytes) : World :=
  (w.setFile file (some bytes)).setMembers (·.setMap file (some ⟨bytes.length, true⟩))

@[simp] theorem withMapped_disk (w : World) (file : FileId) (bytes : Bytes) :
    (w.withMapped file bytes).disk file = some bytes := by
  simp [withMapped, setFile, setMembers]

theorem withMapped_disk_ne (w : World) {file other : FileId} (bytes : Bytes) (ne : other ≠ file) :
    (w.withMapped file bytes).disk other = w.disk other := by
  simp [withMapped, setFile, setMembers, ne]

@[simp] theorem withMapped_maps (w : World) (file : FileId) (bytes : Bytes) :
    (w.withMapped file bytes).members.maps file = some ⟨bytes.length, true⟩ := by
  simp [withMapped, setFile, setMembers, Members.setMap]

theorem withMapped_maps_ne (w : World) {file other : FileId} (bytes : Bytes) (ne : other ≠ file) :
    (w.withMapped file bytes).members.maps other = w.members.maps other := by
  simp [withMapped, setFile, setMembers, Members.setMap, ne]

@[simp] theorem withMapped_members (w : World) (file : FileId) (bytes : Bytes) :
    (w.withMapped file bytes).members = w.members.setMap file (some ⟨bytes.length, true⟩) := rfl

@[simp] theorem withMapped_withMapped (w : World) (file : FileId) (old bytes : Bytes) :
    (w.withMapped file old).withMapped file bytes = w.withMapped file bytes := by
  simp [withMapped, setFile, setMembers, Members.setMap]

/-- A world that has the mapping already is of this form. -/
theorem withMapped_self {w : World} {file : FileId} {bytes : Bytes} (content : w.disk file = some bytes)
    (map : w.members.maps file = some ⟨bytes.length, true⟩) : w.withMapped file bytes = w := by
  have disk : Function.update w.disk file (some bytes) = w.disk := by
    rw [← content, Function.update_eq_self]
  have maps : Function.update w.members.maps file (some ⟨bytes.length, true⟩) = w.members.maps := by
    rw [← map, Function.update_eq_self]
  simp only [withMapped, setFile, setMembers, Members.setMap, disk, maps]

theorem withMapped_setFile (w : World) {file : FileId} {old bytes : Bytes}
    (same : bytes.length = old.length) :
    (w.withMapped file old).setFile file (some bytes) = w.withMapped file bytes := by
  simp [withMapped, setFile, setMembers, same]

theorem mapped_withMapped (w : World) {file : FileId} {bytes : Bytes} {offset size : Nat}
    (inside : offset + size ≤ bytes.length) :
    (w.withMapped file bytes).mapped file offset size = some bytes := by
  simp only [mapped, withMapped_maps, withMapped_disk, inside, and_self, if_true]

theorem writable_withMapped (w : World) (file : FileId) (bytes : Bytes) :
    (w.withMapped file bytes).writable file = true := by
  simp only [writable, withMapped_maps]

end World

/-- `file` holds `bytes` and is mapped as a whole, writable or not. -/
def World.Sees (w : World) (file : FileId) (bytes : Bytes) : Prop :=
  ∀ offset size, offset + size ≤ bytes.length → w.mapped file offset size = some bytes

section Sees
variable {w : World} {file : FileId} {bytes : Bytes}

theorem World.sees_of_map {writable : Bool} (content : w.disk file = some bytes)
    (map : w.members.maps file = some ⟨bytes.length, writable⟩) : w.Sees file bytes := by
  intro offset size inside
  simp only [World.mapped, map, content, inside, and_self, if_true]

theorem World.sees_withMapped (w : World) (file : FileId) (bytes : Bytes) :
    (w.withMapped file bytes).Sees file bytes := fun _ _ inside => w.mapped_withMapped inside

theorem World.Sees.load_runs {offset width : Nat} (sees : w.Sees file bytes)
    (inside : offset + width ≤ bytes.length) : Runs (load file offset width) w (natAt bytes offset width) w := by
  refine run_perform_of system ?_
  simp only [system, sees _ _ inside, Option.map_some]

theorem World.Sees.loadBytes_runs {offset size : Nat} (sees : w.Sees file bytes)
    (inside : offset + size ≤ bytes.length) : Runs (loadBytes file offset size) w (slice bytes offset size) w := by
  refine run_perform_of system ?_
  simp only [system, sees _ _ inside, Option.map_some]

/-- A load past the end of a wholly mapped file is undefined. -/
theorem World.Sees.load_outside {α : Type} {offset width : Nat} (sees : w.Sees file bytes)
    (outside : bytes.length < offset + width) (f : Nat → Db α) :
    run system ((load file offset width).bind f) w = .fault := by
  suffices refused : system (.load file offset width) w = none by
    unfold load
    rw [Prog.perform_bind, run, refused]
  have whole := sees 0 0 (Nat.zero_le _)
  unfold World.mapped at whole
  simp only [system, World.mapped]
  split at whole
  · simp only [Nat.zero_le, Nat.add_zero, and_self, if_true, Option.some.injEq] at whole
    subst whole
    rw [if_neg (by omega)]
    rfl
  · cases whole

end Sees

section Memory
variable (w : World) {file : FileId} {bytes : Bytes}

theorem load_runs {offset width : Nat} (inside : offset + width ≤ bytes.length) :
    Runs (load file offset width) (w.withMapped file bytes) (natAt bytes offset width)
      (w.withMapped file bytes) := (w.sees_withMapped file bytes).load_runs inside

theorem loadBytes_runs {offset size : Nat} (inside : offset + size ≤ bytes.length) :
    Runs (loadBytes file offset size) (w.withMapped file bytes) (slice bytes offset size)
      (w.withMapped file bytes) := (w.sees_withMapped file bytes).loadBytes_runs inside

theorem store_runs {offset width : Nat} (value : Nat) (inside : offset + width ≤ bytes.length) :
    Runs (store file offset width value) (w.withMapped file bytes) ()
      (w.withMapped file (patch bytes offset (leBytes width value))) := by
  refine run_perform_of system ?_
  have same : (patch bytes offset (leBytes width value)).length = bytes.length :=
    patch_length_of_le (by rw [leBytes_length]; exact inside)
  simp only [system, w.mapped_withMapped inside, w.writable_withMapped, w.withMapped_setFile same]

theorem storeBytes_runs {offset : Nat} {data : Bytes} (inside : offset + data.length ≤ bytes.length) :
    Runs (storeBytes file offset data) (w.withMapped file bytes) ()
      (w.withMapped file (patch bytes offset data)) := by
  refine run_perform_of system ?_
  have same : (patch bytes offset data).length = bytes.length := patch_length_of_le inside
  simp only [system, w.mapped_withMapped inside, w.writable_withMapped, w.withMapped_setFile same]

theorem cas_runs {offset width expected : Nat} (desired : Nat) (inside : offset + width ≤ bytes.length)
    (held : natAt bytes offset width = expected) :
    Runs (.perform (S := signature) (.cas file offset width expected desired)) (w.withMapped file bytes) true
      (w.withMapped file (patch bytes offset (leBytes width desired))) := by
  refine run_perform_of system ?_
  have same : (patch bytes offset (leBytes width desired)).length = bytes.length :=
    patch_length_of_le (by rw [leBytes_length]; exact inside)
  simp only [system, w.mapped_withMapped inside, w.writable_withMapped, held, if_true,
    w.withMapped_setFile same]

theorem fetchAdd_runs {offset width : Nat} (amount : Nat) (inside : offset + width ≤ bytes.length) :
    Runs (.perform (S := signature) (.fetchAdd file offset width amount)) (w.withMapped file bytes)
      (natAt bytes offset width)
      (w.withMapped file (patch bytes offset (leBytes width (natAt bytes offset width + amount)))) := by
  refine run_perform_of system ?_
  have same : (patch bytes offset (leBytes width (natAt bytes offset width + amount))).length =
      bytes.length := patch_length_of_le (by rw [leBytes_length]; exact inside)
  simp only [system, w.mapped_withMapped inside, w.writable_withMapped, w.withMapped_setFile same]

end Memory

section Calls
variable {w : World} {file : FileId} {bytes : Bytes}

theorem getMembers_runs (w : World) : Runs getMembers w w.members w := rfl

theorem setMembers_runs (f : Members → Members) (w : World) :
    Runs (setMembers f) w () (w.setMembers f) := rfl

theorem unmap_runs (file : FileId) (w : World) :
    Runs (unmap file) w () (w.setMembers (·.setMap file none)) := rfl

theorem resetDescriptor_runs (file : FileId) (w : World) :
    Runs (resetDescriptor file) w () (w.setMembers (·.setDescriptor file false)) := rfl

theorem getFileSize_runs (content : w.disk file = some bytes) :
    Runs (getFileSize file) w bytes.length w := by
  simp [Runs, getFileSize, run, system, content, checked]

theorem openReadWriteCreate_runs (w : World) (file : FileId) :
    Runs (openReadWriteCreate file) w ()
      ((w.setFile file (some ((w.disk file).getD []))).setMembers (·.setDescriptor file true)) := by
  cases content : w.disk file with
  | none => simp [Runs, openReadWriteCreate, run, system, content, checked]
  | some bytes =>
    have same : w.setFile file (some bytes) = w := by
      unfold World.setFile
      rw [← content, Function.update_eq_self]
    simp [Runs, openReadWriteCreate, run, system, content, checked, same]

theorem openForReading_runs (content : w.disk file = some bytes) :
    Runs (openForReading file) w () (w.setMembers (·.setDescriptor file true)) := by
  simp [Runs, openForReading, run, system, content, checked]

theorem truncateFile_runs {size : Nat} (content : w.disk file = some bytes) (fits : size < 2 ^ 63) :
    Runs (truncateFile file size) w () (w.setFile file (some (truncateBytes bytes size))) := by
  have exact : u64 size = size := u64_of_lt (by omega)
  simp only [Runs, truncateFile, run, system, content, exact, fits,
    if_true, checked]

theorem Bounded.truncateFile {size : Nat} (bounded : Bounded (truncateFile file size) w) :
    size < 2 ^ 63 := bounded.1

theorem mapFile_runs {size : Nat} (positive : 0 < size) (fits : size < 2 ^ 63) :
    Runs (mapFile file size) w () (w.setMembers (·.setMap file (some ⟨size, true⟩))) := by
  have exact : u64 size = size := u64_of_lt (by omega)
  simp only [Runs, mapFile, run, system, exact,
    if_neg (Nat.ne_of_gt positive), checked]

theorem mapReadOnly_runs {size : Nat} (positive : 0 < size) (fits : size < 2 ^ 63) :
    Runs (mapReadOnly file size) w () (w.setMembers (·.setMap file (some ⟨size, false⟩))) := by
  have exact : u64 size = size := u64_of_lt (by omega)
  simp only [Runs, mapReadOnly, run, system, exact,
    if_neg (Nat.ne_of_gt positive), checked]

theorem readAllAt_runs {offset size : Nat} (content : w.disk file = some bytes)
    (inside : offset + size ≤ bytes.length) (fits : bytes.length < 2 ^ 63) :
    Runs (readAllAt file offset size) w (slice bytes offset size) w := by
  have exact : u64 offset = offset := u64_of_lt (by omega)
  simp only [Runs, readAllAt, run, system, content, exact]
  by_cases zero : size = 0
  · simp only [zero, if_true, checked, run, slice_zero]
  · simp only [if_neg zero, if_neg (show ¬ 2 ^ 63 ≤ offset + size by omega), if_pos inside, checked, run]

theorem readAllAt_fails {offset size : Nat} (content : w.disk file = some bytes) (positive : 0 < size)
    (bound : offset < 2 ^ 64) (outside : bytes.length < offset + size) :
    ∃ status, run system (readAllAt file offset size) w = .error status w := by
  simp only [readAllAt, run, system, content, u64_of_lt bound, if_neg (Nat.pos_iff_ne_zero.mp positive),
    if_neg (Nat.not_le.mpr outside)]
  by_cases large : 2 ^ 63 ≤ offset + size
  · rw [if_pos large]
    exact ⟨_, rfl⟩
  · rw [if_neg large]
    exact ⟨_, rfl⟩

theorem writeAllAt_runs {offset : Nat} {data : Bytes} (content : w.disk file = some bytes)
    (nonempty : data ≠ []) (fits : offset + data.length < 2 ^ 63) :
    Runs (writeAllAt file offset data) w () (w.setFile file (some (patch bytes offset data))) := by
  have exact : u64 offset = offset := u64_of_lt (by omega)
  simp only [Runs, writeAllAt, run, system, content, exact,
    if_neg nonempty, if_pos fits, checked]

theorem Bounded.writeAllAt {offset : Nat} {data : Bytes} (bounded : Bounded (writeAllAt file offset data) w) :
    offset + data.length < 2 ^ 63 := bounded.1

theorem syncFile_runs (file : FileId) (w : World) : Runs (syncFile file) w () w := rfl

theorem msyncFile_runs (file : FileId) (writable : w.members.maps file = none ∨ w.writable file = true) :
    Runs (msyncFile file) w () w := by
  simp only [Runs, msyncFile, run, system]
  cases map : w.members.maps file with
  | none => rfl
  | some mapping =>
    have allowed : mapping.writable = true := by
      simpa only [map, reduceCtorEq, false_or, World.writable] using writable
    simp only [allowed, if_true, checked, run]

end Calls

end LumoDB
