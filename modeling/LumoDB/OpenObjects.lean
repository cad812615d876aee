import LumoDB.Lifecycle
import LumoDB.RowFrame

namespace LumoDB
open ByteCodec Effects

/-- A database that is not open holds no mapping and no descriptor. -/
structure World.Closed (w : World) : Prop where
  isOpen : w.members.isOpen = false
  maps : ∀ file, w.members.maps file = none
  descriptors : ∀ file, w.members.descriptors file = false

/-- `GetStruct` answers from the records of `log`. -/
def ServesObjects (H : HashFunctions) (w : World) (log : ObjectLog) : Prop :=
  ∀ column key,
    (∀ value, putAll (fun _ => none) log (column, key) = some value → Runs (getStruct H column key) w value w) ∧
    (putAll (fun _ => none) log (column, key) = none →
      ∃ message, run system (getStruct H column key) w = .error (.notFound message) w)

theorem ObjectStore.serves {H : HashFunctions} {w : World} {log : ObjectLog} (store : ObjectStore H w log)
    (isOpen : w.members.isOpen = true) : ServesObjects H w log := fun _ _ =>
  ⟨fun _ held => getStruct_runs store isOpen held, fun absent => ⟨_, getStruct_absent store isOpen absent⟩⟩

section Index
variable {H : HashFunctions} {w : World} {log : ObjectLog}

/-- Opening the index of a complete value file gives an object store. -/
theorem openIndexFile_store (values : w.disk .values = some (valueFileBytes log))
    (small : (valueFileBytes log).length < 2 ^ 63) (unmapped : ∀ file, w.members.maps file = none)
    (index : IndexOnDisk H w log) (load : LoadFactorOk w.members.options.maxLoadFactor) (fits : ∀ r ∈ log, r.1.Fits)
    (append : w.members.appendOffset = (valueFileBytes log).length) (bounded : Bounded (openIndexFile H false) w) :
    ∃ b, Runs (openIndexFile H false) w () (w.opened .index b) ∧ ObjectStore H (w.opened .index b) log := by
  obtain ⟨b, opened, n, slot, off, indexed⟩ := openIndexFile_runs index (unmapped .index)
    ⟨values, small, Or.inl (unmapped .values)⟩ load fits append bounded
  refine ⟨b, opened, b, n, slot, off, ?_, small, ?_, World.opened_disk _ _ _, World.opened_maps _ _ _, append, fits,
    indexed.table, indexed.represents⟩
  · rw [World.opened_disk_ne _ _ (by decide), values]
  · rw [World.opened_maps_ne _ _ (by decide)]
    exact unmapped .values

end Index

section Open
variable {H : HashFunctions} {w w' : World} {options : DatabaseOptions} {retries : Nat}

/-- The state in which an `Open` starts to open the files. -/
def World.opening (w : World) (options : DatabaseOptions) : World :=
  { w.configured options with directory := .directory }

/-- What an `Open` makes of the outcome of opening the files. -/
def Outcome.opened (out : Outcome Status Unit World) : Outcome Status Unit World :=
  (out.recover fun e w => .error e (w.setMembers Members.closed)).andThen fun _ w =>
    .ok () (w.setMembers fun m => { m with isOpen := true })

/-- The state in which an `Open` or an `OpenReadOnly` starts to open the
files. -/
def World.starting (w : World) (options : DatabaseOptions) (readOnly : Bool) : World :=
  { w.setMembers fun m => { m with options := options, readOnly := readOnly, rowPendingInsertCount := 0 } with
    directory := .directory }

theorem openInternal_opens {rounded : DatabaseOptions} {readOnly : Bool} (isOpen : w.members.isOpen = false)
    (directory : w.directory = .directory ∨ readOnly = false ∧ w.directory ≠ .other) (accepted : options.Accepted)
    (given : options.rounded = some rounded) (retries : Nat) :
    run system (openInternal H retries options readOnly) w =
      Outcome.opened (run system (openFiles H retries readOnly) (w.starting rounded readOnly)) := by
  have closing : Runs (closeIf w.members.isOpen) w () w := by
    rw [isOpen]
    rfl
  have load : ¬ (options.maxLoadFactor ≤ 0 ∨ 95 / 100 ≤ options.maxLoadFactor) := by
    rintro (low | high)
    · exact absurd accepted.load.1 (not_lt.mpr low)
    · exact absurd accepted.load.2 (not_lt.mpr high)
  have found : Runs (openDirectory readOnly)
      (w.setMembers fun m => { m with options := rounded, readOnly := readOnly, rowPendingInsertCount := 0 }) ()
      (w.starting rounded readOnly) := by
    rcases directory with present | ⟨rfl, notOther⟩
    · obtain ⟨kind, disk, members⟩ := w
      obtain rfl : kind = .directory := present
      cases readOnly <;> rfl
    · exact openDirectory_runs notOther
  unfold openInternal
  rw [Prog.bind_eq, (getMembers_runs w).bind, Prog.bind_eq, closing.bind, if_neg load, given, Prog.bind_eq]
  refine (Runs.bind (p := orOverflow (some rounded)) rfl).trans ?_
  rw [Prog.bind_eq, (setMembers_runs _ w).bind, if_neg accepted.shards, Prog.bind_eq]
  refine (Runs.bind found).trans ?_
  rw [Prog.bind_eq, run_bind, closingOnError, run_orElse]
  rfl

/-- An `Open` refuses its arguments, or opens the files. -/
theorem openReadWrite_cases (H : HashFunctions) (retries : Nat) (options : DatabaseOptions) (closed : w.Closed) :
    (∃ e w', run system (openReadWrite H retries options) w = .error e w' ∧ w'.disk = w.disk ∧ w'.Closed) ∨
      run system (openReadWrite H retries options) w = .overflow ∨
      ∃ rounded, options.rounded = some rounded ∧ LoadFactorOk options.maxLoadFactor ∧ options.rowShardCount ≠ 0 ∧
        run system (openReadWrite H retries options) w =
          Outcome.opened (run system (openFiles H retries false) (w.opening rounded)) ∧
        (Bounded (openReadWrite H retries options) w → Bounded (openFiles H retries false) (w.opening rounded)) := by
  have closing : Runs (closeIf w.members.isOpen) w () w := by
    rw [closed.isOpen]
    rfl
  unfold openReadWrite openInternal
  rw [Prog.bind_eq, (getMembers_runs w).bind, Prog.bind_eq, closing.bind]
  by_cases load : options.maxLoadFactor ≤ 0 ∨ 95 / 100 ≤ options.maxLoadFactor
  · rw [if_pos load]
    exact Or.inl ⟨_, w, rfl, rfl, closed⟩
  · rw [if_neg load]
    cases given : options.rounded with
    | none => exact Or.inr (Or.inl rfl)
    | some rounded =>
      have kept : Runs (orOverflow (some rounded)) w rounded w := rfl
      rw [Prog.bind_eq, kept.bind, Prog.bind_eq, (setMembers_runs _ w).bind]
      by_cases shards : options.rowShardCount = 0
      · rw [if_pos shards]
        exact Or.inl ⟨_, _, rfl, rfl, closed.isOpen, closed.maps, closed.descriptors⟩
      · rw [if_neg shards, Prog.bind_eq]
        by_cases directory : w.directory = .other
        · have refused : run system (openDirectory false) (w.configured rounded) =
              .error (.invalidArgument "is not a directory") (w.configured rounded) := by
            have same : (w.configured rounded).directory = .other := directory
            simp only [openDirectory, Bool.false_eq_true, if_false, ensureDirectory, run, system, same, checked]
          exact Or.inl ⟨_, _, run_bind_error _ refused _, rfl, closed.isOpen, closed.maps, closed.descriptors⟩
        · have made := openDirectory_runs (w := w.configured rounded) directory
          refine Or.inr (Or.inr ⟨rounded, rfl, ?_, shards, ?_, fun bounded => ?_⟩)
          · rw [not_or, not_le, not_le] at load
            exact load
          · refine (Runs.bind (p := openDirectory false) made).trans ?_
            rw [Prog.bind_eq, run_bind, closingOnError, run_orElse]
            rfl
          · replace bounded := (bounded.rest (getMembers_runs w)).rest closing
            replace bounded := (bounded.rest kept).rest (setMembers_runs _ w)
            exact Bounded.closingOnError (bounded.rest made).first

/-- An `Open` that returns Ok has opened the files. -/
theorem openReadWrite_inv (closed : w.Closed) (runs : Runs (openReadWrite H retries options) w () w') :
    ∃ rounded w₁, options.rounded = some rounded ∧ LoadFactorOk options.maxLoadFactor ∧
      Runs (openFiles H retries false) (w.opening rounded) () w₁ ∧
      w' = w₁.setMembers (fun m => { m with isOpen := true }) ∧
      (Bounded (openReadWrite H retries options) w → Bounded (openFiles H retries false) (w.opening rounded)) := by
  rcases openReadWrite_cases H retries options closed with ⟨e, w₁, refused, _⟩ | overflow | ⟨rounded, given, load, _, same, inner⟩
  · cases refused.symm.trans runs
  · cases overflow.symm.trans runs
  · have opened := same.symm.trans runs
    cases ended : run system (openFiles H retries false) (w.opening rounded) with
    | ok a w₁ =>
      rw [ended] at opened
      cases opened
      exact ⟨rounded, w₁, given, load, ended, rfl, inner⟩
    | _ =>
      rw [ended] at opened
      cases opened

/-- A failed `Open` leaves the files as opening them did, and nothing open. -/
theorem openReadWrite_failed {e : Status} (closed : w.Closed)
    (failed : run system (openReadWrite H retries options) w = .error e w') :
    w'.disk = w.disk ∧ w'.Closed ∨
      ∃ rounded w₁, options.rounded = some rounded ∧ LoadFactorOk options.maxLoadFactor ∧
        run system (openFiles H retries false) (w.opening rounded) = .error e w₁ ∧ w' = w₁.setMembers Members.closed ∧
        (Bounded (openReadWrite H retries options) w → Bounded (openFiles H retries false) (w.opening rounded)) := by
  rcases openReadWrite_cases H retries options closed with ⟨e, w₁, refused, disk, closed'⟩ | overflow |
    ⟨rounded, given, load, _, same, inner⟩
  · cases refused.symm.trans failed
    exact Or.inl ⟨disk, closed'⟩
  · cases overflow.symm.trans failed
  · have opened := same.symm.trans failed
    cases ended : run system (openFiles H retries false) (w.opening rounded) with
    | error e' w₁ =>
      rw [ended] at opened
      cases opened
      exact Or.inr ⟨rounded, w₁, given, load, ended, rfl, inner⟩
    | _ =>
      rw [ended] at opened
      cases opened

end Open

section Files
variable {H : HashFunctions} {w w' w₁ : World} {retries : Nat} {log : ObjectLog} {b : Bytes}

/-- The layout check of a file whose header claims more buckets than the file
holds reads past the mapping. -/
theorem openIndexFile_overreads (present : w.disk .index = some b) (exceeds : Overreads b) :
    run system (openIndexFile H false) w = .fault := by
  have found : w.present .index = b := by rw [World.present, present]; rfl
  have length := exceeds.length_eq.1
  refine openChecked_faults (by rw [found]; omega) (by rw [found]; omega) ?_
  rw [found]
  exact hasValidIndexLayout_overreads (w.sees_opened .index b) exceeds

/-- The index is missing or rejected, or it indexes the records. -/
def StaleOrIndexed (H : HashFunctions) (index : Option Bytes) (log : ObjectLog) : Prop :=
  ∀ b, index = some b → ¬ Accepted b ∨ ∃ n slot off, Indexed H (valueFileBytes log) b log n slot off

/-- Once the value file is open and complete, opening the other files gives an
object store when it returns, whatever the row files hold. -/
theorem openFiles_store (opens : Runs (openValueFile false) w () w₁)
    (values : w₁.disk .values = some (valueFileBytes log)) (small : (valueFileBytes log).length < 2 ^ 63)
    (unmapped : ∀ file, w₁.members.maps file = none) (index : StaleOrIndexed H (w₁.disk .index) log)
    (load : LoadFactorOk w₁.members.options.maxLoadFactor) (fits : ∀ r ∈ log, r.1.Fits)
    (append : w₁.members.appendOffset = (valueFileBytes log).length) (bounded : Bounded (openFiles H retries false) w)
    (ended : (run system (openFiles H retries false) w).state? = some w') :
    ObjectStore H w' log ∧ w'.members.isOpen = w₁.members.isOpen := by
  unfold openFiles at bounded ended
  rw [Prog.bind_eq, opens.bind, Prog.bind_eq] at ended
  have onDisk : IndexOnDisk H w₁ log := by
    intro b present
    rcases index b present with rejected | indexed
    · left
      refine ⟨rejected, fun exceeds => ?_⟩
      have faults := openIndexFile_overreads (H := H) present exceeds
      rw [run_bind_fault _ faults] at ended
      cases ended
    · exact Or.inr indexed
  obtain ⟨b, opened, store⟩ := openIndexFile_store values small unmapped onDisk load fits append
    (bounded.rest opens).first
  rw [opened.bind] at ended
  have same := sameObjects_of_only (spares_openRows H retries false) ended
  exact ⟨store.transfer same.values same.index same.valuesMap same.indexMap same.appendOffset, same.isOpen⟩

/-- An index that passes the layout check is kept as it is. -/
theorem openIndexFile_keeps (present : w.disk .index = some b) (accepted : Accepted b) :
    Runs (openIndexFile H false) w () (w.opened .index b) := by
  obtain ⟨n, file⟩ := id accepted
  have length := file.length
  have small := file.small
  exact openChecked_keeps present (by omega) (by omega) (hasValidIndexLayout_accepts (w.sees_opened .index b) accepted)

theorem openFiles_keepsIndex (opens : Runs (openValueFile false) w () w₁) (present : w₁.disk .index = some b)
    (accepted : Accepted b) (ended : (run system (openFiles H retries false) w).state? = some w') : w'.disk .index = some b := by
  unfold openFiles at ended
  rw [Prog.bind_eq, opens.bind, Prog.bind_eq] at ended
  have kept := openIndexFile_keeps (H := H) present accepted
  rw [kept.bind] at ended
  rw [(sameObjects_of_only (spares_openRows H retries false) ended).index]
  exact World.opened_disk _ _ _

end Files

end LumoDB
