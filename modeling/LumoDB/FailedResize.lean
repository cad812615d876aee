import LumoDB.Faults
import LumoDB.ObjectRefinement

namespace LumoDB
open ByteCodec Effects LinearProbing

/-- The system calls with which `CreateEmptyIndex` makes the new file. -/
inductive ResizeCall where
  | truncate
  | map

def ResizeCall.isCall : ResizeCall → Op → Bool
  | truncate, .truncate .index _ => true
  | map, .map .index _ _ => true
  | _, _ => false

/-- `EnsureCapacityForInsert` finds the index too full for `insertCount` more
entries and resizes it. -/
def World.Resizes (w : World) (insertCount : Nat) : Prop :=
  ∃ n items grown, Runs bucketCount w n w ∧ Runs entryCount w items w ∧
    growBucketCount w.members.options.maxLoadFactor (u64 (items + insertCount)) 66 n = some grown ∧ grown ≠ n

/-- `w'` is open with a valid index in its mapping, and answers every object
call as `w` does. -/
structure KeepsObjects (H : HashFunctions) (w w' : World) : Prop where
  isOpen : w'.members.isOpen = true
  index : ∃ b writable, w'.disk .index = some b ∧ w'.members.maps .index = some ⟨b.length, writable⟩ ∧ Accepted b
  values : ∀ column key, SameAnswer (getStruct H column key) w w'
  count : SameAnswer entryCount w w'

section Unmapped
variable {H : HashFunctions} {w w' : World}

theorem load_unmapped {α : Type} {file : FileId} (unmapped : w.members.maps file = none) (offset width : Nat)
    (f : Nat → Db α) : run system ((load file offset width).bind f) w = .fault := by
  have refused : system (.load file offset width) w = none := by
    simp only [system, World.mapped, unmapped]
    rfl
  unfold load
  rw [Prog.perform_bind, run, refused]

/-- Without a mapping `GetStruct` follows a null pointer. -/
theorem getStruct_unmapped (isOpen : w.members.isOpen = true) (unmapped : w.members.maps .index = none)
    (column key : Bytes) : run system (getStruct H column key) w = .fault := by
  unfold getStruct findBucket loadBucketCount
  rw [Prog.bind_eq, (getMembers_runs w).bind, if_neg (by rw [isOpen]; decide)]
  simp only [Prog.bind_eq]
  rw [Prog.bind_assoc, load_unmapped unmapped]

theorem entryCount_unmapped (unmapped : w.members.maps .index = none) : Runs entryCount w 0 w := by
  unfold Runs entryCount
  rw [Prog.bind_eq, (getMembers_runs w).bind, if_pos (by rw [unmapped]; rfl)]
  rfl

theorem not_keepsObjects (unmapped : w'.members.maps .index = none) : ¬ KeepsObjects H w w' := by
  rintro ⟨_, ⟨b, writable, _, mapped, _⟩, _, _⟩
  rw [unmapped] at mapped
  cases mapped

end Unmapped

section Counts
variable {H : HashFunctions} {w : World} {log : ObjectLog} {b : Bytes} {n : Nat} {slot : Nat → Option ObjectKey}
  {off : ObjectKey → Nat}

theorem bucketCount_runs (files : ObjectFiles H w log b n slot off) : Runs bucketCount w n w := by
  have mapped : (w.members.maps .index).isNone = false := by rw [files.mapped]; rfl
  have counts := loadBucketCount_runs w files.table.toIndexFile
  rw [files.self] at counts
  unfold Runs bucketCount
  rw [Prog.bind_eq, (getMembers_runs w).bind, mapped, if_neg (by decide)]
  exact counts

end Counts

section Refused
variable {H : HashFunctions} {w : World} {b : Bytes} {n grown n' : Nat} {slot : Nat → Option ObjectKey}
  {off : ObjectKey → Nat} {log : ObjectLog} {column : Bytes} {entries : List StructEntry}

theorem growBucketCount_lt {maxLoadFactor : ℚ} {items rounds n : Nat} (small : n < 2 ^ 64)
    (run : growBucketCount maxLoadFactor items rounds n = some grown) : grown < 2 ^ 64 := by
  induction rounds generalizing n with
  | zero => cases run
  | succ rounds ih =>
    rw [growBucketCount] at run
    split at run
    · exact ih (u64_lt _) run
    · exact Option.some.inj run ▸ small

/-- A power of two of 64 bits can be rounded. -/
theorem roundUpPowerOfTwo_isSome {e : Nat} (small : 2 ^ e < 2 ^ 64) : ∃ n, roundUpPowerOfTwo (2 ^ e) = some n := by
  by_cases lower : 4 ≤ e
  · exact ⟨_, roundUpPowerOfTwo_pow lower ((Nat.pow_lt_pow_iff_right (by decide)).mp small)⟩
  · have bound : 2 ^ e ≤ 2 ^ 4 := Nat.pow_le_pow_right (by decide) (by omega)
    exact ⟨16, by rw [roundUpPowerOfTwo, roundUpLoop, if_neg (by unfold kMinimumBucketCount; omega)]; rfl⟩

theorem checked_only {α : Type} {good : Op → Prop} (answer : Except Status α) :
    (checked answer : Db α).Only (S := signature) good := by
  cases answer <;> exact trivial

theorem truncateFile_cases (file : FileId) (size : Nat) (w : World) :
    (∃ e, run system (truncateFile file size) w = .error e w) ∨
      ∃ w', Runs (truncateFile file size) w () w' ∧ w'.members = w.members := by
  cases content : w.disk file with
  | none =>
    left
    exact ⟨.ioError "ftruncate: Bad file descriptor", by simp only [truncateFile, run, system, content, checked]⟩
  | some bytes =>
    by_cases fits : u64 size < 2 ^ 63
    · right
      exact ⟨w.setFile file (some (truncateBytes bytes (u64 size))),
        by simp only [Runs, truncateFile, run, system, content, fits, if_true, checked], rfl⟩
    · left
      exact ⟨.ioError "ftruncate: Invalid argument",
        by simp only [truncateFile, run, system, content, fits, if_false, checked]⟩

/-- The old mapping is gone before the first system call that can fail. -/
theorem createEmptyIndex_refused (call : ResizeCall) (e : Status) (rounded : roundUpPowerOfTwo n = some n') (w : World) :
    ∃ e' w', run (refusing call.isCall e) (createEmptyIndex n) w = .error e' w' ∧
      w'.members = w.members.setMap .index none := by
  unfold createEmptyIndex
  rw [rounded]
  simp only [orOverflow, Prog.bind_eq, Prog.ret_bind]
  rw [(unmap_runs .index w).refusing_bind ⟨by cases call <;> rfl, fun _ => trivial⟩]
  set w₁ := w.setMembers (·.setMap .index none)
  cases call with
  | truncate =>
    have refused : run (refusing ResizeCall.truncate.isCall e) (truncateFile .index (64 + n' * 16)) w₁ =
      .error e w₁ := rfl
    exact ⟨e, w₁, run_bind_error _ refused _, rfl⟩
  | map =>
    have untouched : (truncateFile .index (64 + n' * 16)).Only fun o => ResizeCall.map.isCall o = false :=
      ⟨rfl, fun answer => checked_only answer⟩
    rcases truncateFile_cases .index (64 + n' * 16) w₁ with ⟨e', failed⟩ | ⟨w₂, truncated, members⟩
    · exact ⟨e', w₁, run_bind_error _ ((run_refusing untouched w₁).trans failed) _, rfl⟩
    · rw [truncated.refusing_bind untouched]
      have refused : run (refusing ResizeCall.map.isCall e) (mapFile .index (64 + n' * 16)) w₂ =
        .error e (w₂.setMembers (·.setMap .index none)) := rfl
      refine ⟨e, _, run_bind_error _ refused _, ?_⟩
      simp [World.setMembers, members, w₁, Members.setMap]

theorem collectBuckets_only {good : Op → Prop} (loads : ∀ offset size, good (.loadBytes .index offset size))
    (rounds index : Nat) : (collectBuckets rounds index).Only good := by
  induction rounds generalizing index with
  | zero => exact trivial
  | succ rounds ih =>
    refine .bind (.bind ⟨loads _ _, fun _ => trivial⟩ fun _ => trivial) fun bucket => .bind (ih _) fun later => ?_
    exact trivial

theorem resizeIndex_refused (t : IndexTable H b n slot off) (rounded : roundUpPowerOfTwo grown = some n')
    (call : ResizeCall) (e : Status) :
    ∃ e' w', run (refusing call.isCall e) (resizeIndex grown) (w.withMapped .index b) = .error e' w' ∧
      w'.members = (w.withMapped .index b).members.setMap .index none := by
  have loads : ∀ file offset size, call.isCall (.loadBytes file offset size) = false := by
    intro file offset size
    cases call <;> rfl
  have loaded : ∀ file offset width, (load file offset width).Only fun o => call.isCall o = false := by
    intro file offset width
    exact ⟨by cases call <;> rfl, fun _ => trivial⟩
  have nextSequence : Runs loadNextSequence (w.withMapped .index b) (natAt b 32 8) (w.withMapped .index b) :=
    load_runs w (by rw [t.length]; have := t.positive; omega)
  obtain ⟨e', w', failed, members⟩ := createEmptyIndex_refused call e rounded (w.withMapped .index b)
  unfold resizeIndex
  rw [Prog.bind_eq, (loadBucketCount_runs w t.toIndexFile).refusing_bind (loaded _ _ _), Prog.bind_eq,
    (collectBuckets_runs t.entries (Nat.zero_add n)).refusing_bind (collectBuckets_only (loads .index) _ _), Prog.bind_eq,
    nextSequence.refusing_bind (loaded _ _ _), Prog.bind_eq]
  exact ⟨e', w', run_bind_error _ failed _, members⟩

/-- A refused resize fails and leaves the index unmapped. -/
theorem putStructs_refused (store : ObjectStore H w log) (serving : Serving w) (accepted : AcceptsStructs column entries)
    (given : entries ≠ []) (resizes : w.Resizes entries.length) (call : ResizeCall) (e : Status) :
    ∃ e' w', run (refusing call.isCall e) (putStructs H column entries) w = .error e' w' ∧
      w'.members = w.members.setMap .index none := by
  obtain ⟨b, n, slot, off, files⟩ := store
  have self := files.self
  have counts := loadBucketCount_runs w files.table.toIndexFile
  have items := loadItemCount_runs w files.table.toIndexFile
  have members := getMembers_runs w
  obtain ⟨n', items', grown, counted, itemised, grow, other⟩ := resizes
  obtain ⟨rfl, _⟩ := Runs.unique counted (bucketCount_runs files)
  obtain ⟨rfl, _⟩ := Runs.unique itemised (entryCount_runs ⟨b, n', slot, off, files⟩)
  obtain ⟨x, power⟩ := files.table.power
  have small : n' < 2 ^ 64 := by
    have below := files.table.count_lt
    omega
  have exponent : x < 64 := (Nat.pow_lt_pow_iff_right (by decide)).mp (power ▸ small)
  have doubled := grow
  rw [power] at doubled
  obtain ⟨_, x', _, value⟩ := growBucketCount_spec exponent serving.load.1.le doubled
  obtain ⟨rounded, rounds⟩ := roundUpPowerOfTwo_isSome (value ▸ growBucketCount_lt small grow)
  rw [← value] at rounds
  obtain ⟨e', w', failed, unmapped⟩ := resizeIndex_refused files.table rounds call e (w := w)
  rw [self] at failed unmapped
  refine ⟨e', w', ?_, unmapped⟩
  have columnFits := (fitsUint32_iff column.length).mpr accepted.1
  have keysFit : entries.all (fun entry => fitsUint32 entry.key.length) = true :=
    List.all_eq_true.mpr fun entry member => (fitsUint32_iff _).mpr (accepted.2 entry member)
  have untouched : getMembers.Only fun o => call.isCall o = false := ⟨by cases call <;> rfl, fun _ => trivial⟩
  have loaded : ∀ offset width, (load .index offset width).Only fun o => call.isCall o = false := by
    intro offset width
    exact ⟨by cases call <;> rfl, fun _ => trivial⟩
  have ensured : run (refusing call.isCall e) (ensureCapacityForInsert entries.length) w = .error e' w' := by
    rw [self] at counts items
    unfold ensureCapacityForInsert
    rw [Prog.bind_eq, members.refusing_bind untouched, Prog.bind_eq, counts.refusing_bind (loaded _ _), Prog.bind_eq,
      items.refusing_bind (loaded _ _), files.nodup_keys, grow]
    simp only [orOverflow, Prog.bind_eq, Prog.ret_bind]
    rw [if_neg other]
    exact failed
  unfold putStructs writeStructs
  rw [Prog.bind_eq, members.refusing_bind untouched, if_neg (by rw [serving.isOpen]; decide),
    if_neg (by rw [serving.writable]; decide), if_neg (not_not.mpr columnFits), if_neg given,
    if_neg (not_not.mpr keysFit)]
  exact run_bind_error _ ensured _

end Refused

section Failure
variable {H : HashFunctions} {retries : Nat} {start : DatabaseOptions} {trace : Trace} {w : World} {column : Bytes}
  {entries : List StructEntry}

/-- After a `PutStructs` whose resize fails at `ftruncate` or `mmap` the
database is open without an index: no `GetStruct` has a defined result, and
`EntryCount` is zero. -/
theorem failed_resize_loses_index (history : History H retries start trace w) (accepted : AcceptsStructs column entries)
    (given : entries ≠ []) (resizes : w.Resizes entries.length) (call : ResizeCall) (e : Status) :
    ∃ e' w', run (refusing call.isCall e) (putStructs H column entries) w = .error e' w' ∧
      ¬ KeepsObjects H w w' ∧ w'.members.isOpen = true ∧
      (∀ column key, run system (getStruct H column key) w' = .fault) ∧ Runs entryCount w' 0 w' := by
  obtain ⟨s, active, _⟩ := history.active
  obtain ⟨e', w', failed, members⟩ := putStructs_refused active.objects active.serving accepted given resizes call e
  have unmapped : w'.members.maps .index = none := by rw [members]; simp [Members.setMap]
  have isOpen : w'.members.isOpen = true := by rw [members]; exact active.serving.isOpen
  exact ⟨e', w', failed, not_keepsObjects unmapped, isOpen, getStruct_unmapped isOpen unmapped,
    entryCount_unmapped unmapped⟩

/-- Thirteen entries for an index with sixteen buckets. -/
def fullBatch : List StructEntry := (List.range 13).map fun i => ⟨[UInt8.ofNat i], []⟩

theorem fullBatch_accepted : AcceptsStructs [] fullBatch := ⟨by decide, by decide⟩

theorem fullBatch_resizes : ∃ w, History .shipped 0 (smallOptions 1) [] w ∧ w.Resizes fullBatch.length := by
  obtain ⟨w, history, buckets, items, grows⟩ := @History.exists_of_replay .shipped 0 (smallOptions 1) [] []
    (fun w => (run system bucketCount w).value? = some 16 ∧ (run system entryCount w).value? = some 0 ∧
      growBucketCount w.members.options.maxLoadFactor (u64 (0 + fullBatch.length)) 66 16 = some 32) _ (by decide +kernel)
  obtain ⟨s, active, _⟩ := history.active
  obtain ⟨b, n, slot, off, files⟩ := active.objects
  have counted := bucketCount_runs files
  have itemised := entryCount_runs active.objects
  rw [counted] at buckets
  rw [itemised] at items
  cases buckets
  cases items
  exact ⟨w, history, 16, 0, 32, counted, itemised, grows, by decide⟩

/-- A batch of thirteen entries resizes a new index of sixteen buckets, and a
refused `ftruncate` or `mmap` takes the index away. -/
theorem failed_resize_not_usable : ¬ ∀ (H : HashFunctions) (start : DatabaseOptions) (trace : Trace) (w : World)
    (column : Bytes) (entries : List StructEntry) (call : ResizeCall) (e e' : Status) (w' : World),
    History H 0 start trace w → AcceptsStructs column entries → w.Resizes entries.length →
    run (refusing call.isCall e) (putStructs H column entries) w = .error e' w' → KeepsObjects H w w' := by
  intro kept
  obtain ⟨w, history, resizes⟩ := fullBatch_resizes
  obtain ⟨s, active, _⟩ := history.active
  obtain ⟨e', w', failed, members⟩ := putStructs_refused active.objects active.serving fullBatch_accepted (by decide)
    resizes .truncate (.ioError "ftruncate")
  exact not_keepsObjects (by rw [members]; simp [Members.setMap])
    (kept _ _ _ _ _ _ _ _ e' w' history fullBatch_accepted resizes failed)

theorem failed_resize_loses_index_sample : ∃ w e' w', History .shipped 0 (smallOptions 1) [] w ∧
    run (refusing ResizeCall.map.isCall (.ioError "mmap")) (putStructs .shipped [] fullBatch) w = .error e' w' ∧
    run system (getStruct .shipped [] []) w' = .fault := by
  obtain ⟨w, history, resizes⟩ := fullBatch_resizes
  obtain ⟨e', w', failed, _, _, lost, _⟩ := failed_resize_loses_index history fullBatch_accepted (by decide) resizes .map
    (.ioError "mmap")
  exact ⟨w, e', w', history, failed, lost [] []⟩

end Failure

end LumoDB
