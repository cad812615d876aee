import LumoDB.ObjectCalls
import LumoDB.ObjectSteps
import LumoDB.RowFrame

namespace LumoDB
open ByteCodec Effects LinearProbing

/-- The mapped index is a header without any of the buckets it counts. This is
what a resize leaves whose file size has wrapped. -/
def World.HeaderOnly (w : World) : Prop := ∃ b, w.Sees .index b ∧ b.length = 64 ∧ 0 < natAt b 16 8

section HeaderOnly
variable {H : HashFunctions} {w : World}

theorem World.Sees.loadBytes_none {file : FileId} {bytes : Bytes} {offset size : Nat} (sees : w.Sees file bytes)
    (outside : bytes.length < offset + size) : system (.loadBytes file offset size) w = none := by
  have whole := sees 0 0 (Nat.zero_le _)
  unfold World.mapped at whole
  simp only [system, World.mapped]
  split at whole
  · simp only [Nat.zero_le, Nat.add_zero, and_self, if_true, Option.some.injEq] at whole
    subst whole
    rw [if_neg (by omega)]
    rfl
  · cases whole

theorem loadBucket_outside {α : Type} {b : Bytes} (sees : w.Sees .index b) (short : b.length = 64) (index : Nat)
    (f : IndexBucket → Db α) : run system ((loadBucket index).bind f) w = .fault := by
  have refused := @World.Sees.loadBytes_none w .index b (indexBucketOffset index) 16 sees
    (by unfold indexBucketOffset; omega)
  unfold loadBucket loadBytes
  rw [Prog.bind_eq, Prog.bind_assoc, Prog.perform_bind, run, refused]

theorem findBucket_headerOnly (broken : w.HeaderOnly) (column key : Bytes) (columnHash keyHash : Nat) :
    run system (findBucket H column key columnHash keyHash) w = .fault := by
  obtain ⟨b, sees, short, positive⟩ := broken
  unfold findBucket loadBucketCount
  rw [Prog.bind_eq, (sees.load_runs (by omega)).bind]
  obtain ⟨rounds, more⟩ := Nat.exists_eq_succ_of_ne_zero (Nat.ne_of_gt positive)
  rw [more, findBucketLoop, Prog.bind_eq]
  exact loadBucket_outside sees short _ _

/-- The lookup ends before it reads a record. -/
theorem findBucket_headerOnly_within {fits : Op → Prop} (broken : w.HeaderOnly)
    (loads : ∀ offset width, fits (.load .index offset width)) (buckets : ∀ offset size, fits (.loadBytes .index offset size))
    (column key : Bytes) (columnHash keyHash : Nat) :
    Within system fits (findBucket H column key columnHash keyHash) w := by
  obtain ⟨b, sees, short, positive⟩ := broken
  have counted := sees.load_runs (show 16 + 8 ≤ b.length by omega)
  obtain ⟨rounds, more⟩ := Nat.exists_eq_succ_of_ne_zero (Nat.ne_of_gt positive)
  refine within_bind.mpr ⟨⟨loads _ _, fun _ _ _ => trivial⟩, fun count w' done => ?_⟩
  obtain ⟨rfl, rfl⟩ := Runs.unique counted done
  rw [more]
  refine ⟨buckets _ _, fun r w' step => ?_⟩
  have refused := fun index => @World.Sees.loadBytes_none w .index b (indexBucketOffset index) 16 sees
    (by unfold indexBucketOffset; omega)
  rw [refused] at step
  cases step

theorem placeBucket_headerOnly {message : String} (broken : w.HeaderOnly) (bucket : IndexBucket) :
    run system (placeBucket message bucket) w = .fault := by
  obtain ⟨b, sees, short, positive⟩ := broken
  unfold placeBucket loadBucketCount
  rw [Prog.bind_eq, (sees.load_runs (by omega)).bind]
  obtain ⟨rounds, more⟩ := Nat.exists_eq_succ_of_ne_zero (Nat.ne_of_gt positive)
  rw [more, placeBucketLoop, Prog.bind_eq]
  exact loadBucket_outside sees short _ _

theorem placeBuckets_headerOnly {w' : World} (broken : w.HeaderOnly) (buckets : List IndexBucket)
    (runs : Runs (placeBuckets buckets) w () w') : w' = w := by
  cases buckets with
  | nil =>
    cases runs
    rfl
  | cons bucket later =>
    unfold Runs placeBuckets placeExistingBucket at runs
    rw [Prog.bind_eq, run_bind_fault _ (placeBucket_headerOnly broken bucket)] at runs
    cases runs

end HeaderOnly

section Resize
variable {H : HashFunctions} {w w' : World} {b : Bytes} {n newCount insertCount : Nat} {slot : Nat → Option ObjectKey}
  {off : ObjectKey → Nat}

/-- A file size whose buckets take a multiple of `2 ^ 64` bytes wraps to that of
the header. -/
theorem u64_wrapped_of_le {e width : Nat} (large : 64 ≤ e + width) : u64 (64 + 2 ^ e * 2 ^ width) = 64 := by
  obtain ⟨d, sum⟩ := Nat.exists_eq_add_of_le large
  rw [← pow_add, sum, pow_add, u64, Nat.add_mul_mod_self_left]
  rfl

/-- From `2 ^ 60` buckets on the size of an index file wraps to that of its
header. -/
theorem u64_wrapped {e : Nat} (large : 60 ≤ e) : u64 (64 + 2 ^ e * 16) = 64 :=
  @u64_wrapped_of_le e 4 (by omega)

/-- The size of an index file of at least 64-bit size is 64 for the kernel, or
negative. -/
theorem u64_fileSize {e : Nat} (large : 2 ^ 63 ≤ 64 + 2 ^ e * 16) :
    u64 (64 + 2 ^ e * 16) = 64 ∨ 2 ^ 63 ≤ u64 (64 + 2 ^ e * 16) := by
  have exponent : 59 ≤ e := by
    by_contra small
    have : 2 ^ e ≤ 2 ^ 58 := Nat.pow_le_pow_right (by decide) (by omega)
    omega
  rcases Nat.lt_or_eq_of_le exponent with more | rfl
  · exact Or.inl (u64_wrapped more)
  · exact Or.inr (by decide)

/-- `CreateEmptyIndex` and `CreateEmptyRowIndex` from the point where the size
of the new file is known. -/
def recreate (file : FileId) (fileSize : Nat) (header : Bytes) : Db Unit := do
  unmap file
  truncateFile file fileSize
  mapFile file fileSize
  storeBytes file 0 (List.replicate (u64 fileSize) 0)
  storeBytes file 0 header

/-- A file size that wraps to that of the header leaves the header alone. -/
theorem recreate_wrapped {file : FileId} {fileSize : Nat} {header old : Bytes} (content : w.disk file = some old)
    (length : header.length = 64) (wrapped : u64 fileSize = 64) :
    Runs (recreate file fileSize header) w () (w.withMapped file header) := by
  have shortened := truncateBytes_length old 64
  have truncated : Runs (truncateFile file fileSize) (w.setMembers (·.setMap file none)) ()
      ((w.setMembers (·.setMap file none)).setFile file (some (truncateBytes old 64))) := by
    simp only [Runs, truncateFile, run, system, World.setMembers, content, wrapped, checked]
    rfl
  have mapped : Runs (mapFile file fileSize)
      ((w.setMembers (·.setMap file none)).setFile file (some (truncateBytes old 64))) ()
      (w.withMapped file (truncateBytes old 64)) := by
    simp only [Runs, mapFile, run, system, wrapped, checked]
    simp [World.withMapped, World.setFile, World.setMembers, Members.setMap, truncateBytes_length]
  have cleared := @storeBytes_runs w file (truncateBytes old 64) 0 (List.replicate 64 0)
    (by rw [List.length_replicate, shortened])
  rw [patch_whole (by rw [List.length_replicate, shortened])] at cleared
  have stored := @storeBytes_runs w file (List.replicate 64 0) 0 header (by rw [length, List.length_replicate])
  rw [patch_whole (by rw [length, List.length_replicate])] at stored
  unfold recreate Runs
  rw [wrapped, Prog.bind_eq, (unmap_runs file w).bind, Prog.bind_eq, truncated.bind, Prog.bind_eq, mapped.bind,
    Prog.bind_eq, cleared.bind]
  exact stored

/-- A file size from `2 ^ 63` on is refused. -/
theorem recreate_negative {file : FileId} {fileSize : Nat} {header old : Bytes} (content : w.disk file = some old)
    (negative : 2 ^ 63 ≤ u64 fileSize) :
    run system (recreate file fileSize header) w =
      .error (.ioError "ftruncate: Invalid argument") (w.setMembers (·.setMap file none)) := by
  have refused : run system (truncateFile file fileSize) (w.setMembers (·.setMap file none)) =
      .error (.ioError "ftruncate: Invalid argument") (w.setMembers (·.setMap file none)) := by
    simp only [truncateFile, run, system, World.setMembers, content, if_neg (not_lt.mpr negative), checked]
  unfold recreate
  rw [Prog.bind_eq, (unmap_runs file w).bind, Prog.bind_eq, run_bind_error _ refused]

theorem createEmptyIndex_eq {n : Nat} (rounded : roundUpPowerOfTwo newCount = some n) :
    createEmptyIndex newCount =
      recreate .index (64 + n * 16) { bucketCount := n : IndexFileHeader }.encode := by
  unfold createEmptyIndex
  rw [rounded]
  rfl

theorem createEmptyIndex_wrapped {old : Bytes} {n : Nat} (content : w.disk .index = some old)
    (rounded : roundUpPowerOfTwo newCount = some n) (wrapped : u64 (64 + n * 16) = 64) :
    Runs (createEmptyIndex newCount) w () (w.withMapped .index { bucketCount := n : IndexFileHeader }.encode) := by
  rw [createEmptyIndex_eq rounded]
  exact recreate_wrapped content (IndexFileHeader.encode_length _ rfl) wrapped

theorem createEmptyIndex_negative {old : Bytes} {n : Nat} (content : w.disk .index = some old)
    (rounded : roundUpPowerOfTwo newCount = some n) (negative : 2 ^ 63 ≤ u64 (64 + n * 16)) :
    run system (createEmptyIndex newCount) w =
      .error (.ioError "ftruncate: Invalid argument") (w.setMembers (·.setMap .index none)) := by
  rw [createEmptyIndex_eq rounded]
  exact recreate_negative content negative

/-- An index is created with the size asked for, or its file is left with the
header alone. -/
theorem createEmptyIndex_inv {old : Bytes} (content : w.disk .index = some old)
    (runs : Runs (createEmptyIndex newCount) w () w') :
    ∃ n, roundUpPowerOfTwo newCount = some n ∧
      (64 + 16 * n < 2 ^ 63 ∨ w' = w.withMapped .index { bucketCount := n : IndexFileHeader }.encode ∧ 0 < n ∧ n < 2 ^ 64) := by
  cases rounded : roundUpPowerOfTwo newCount with
  | none =>
    unfold createEmptyIndex at runs
    rw [rounded] at runs
    cases runs
  | some n =>
    obtain ⟨_, e, _, bound, rfl⟩ := roundUpPowerOfTwo_spec rounded
    refine ⟨2 ^ e, rfl, ?_⟩
    by_cases small : 64 + 16 * 2 ^ e < 2 ^ 63
    · exact Or.inl small
    · right
      rcases u64_fileSize (e := e) (by omega) with wrapped | negative
      · exact ⟨(Runs.unique runs (createEmptyIndex_wrapped content rounded wrapped)).2, Nat.two_pow_pos e,
          Nat.pow_lt_pow_right (by decide) bound⟩
      · have refused := runs.symm.trans (createEmptyIndex_negative content rounded negative)
        cases refused

theorem resizeIndex_inv (t : IndexEntries H b n slot off) (runs : Runs (resizeIndex newCount) (w.withMapped .index b) () w') :
    ∃ n', roundUpPowerOfTwo newCount = some n' ∧ (64 + 16 * n' < 2 ^ 63 ∨ w'.HeaderOnly) := by
  have loaded := @load_runs w .index b 32 8 (by rw [t.length]; have := t.positive; omega)
  unfold resizeIndex at runs
  unfold Runs at runs
  rw [Prog.bind_eq, (loadBucketCount_runs w t.toIndexFile).bind, Prog.bind_eq,
    (collectBuckets_runs t (by omega)).bind, Prog.bind_eq, Runs.bind (p := loadNextSequence) loaded,
    Prog.bind_eq] at runs
  obtain ⟨_, w₁, created, later⟩ := Runs.split runs
  obtain ⟨n', rounded, small | ⟨rfl, positive, bound⟩⟩ := createEmptyIndex_inv (World.withMapped_disk w _ b) created
  · exact ⟨n', rounded, Or.inl small⟩
  refine ⟨n', rounded, Or.inr ?_⟩
  have header : ({ bucketCount := n' : IndexFileHeader }.encode).length = 64 := IndexFileHeader.encode_length _ rfl
  rw [World.withMapped_withMapped] at later
  have sequence := @store_runs w .index ({ bucketCount := n' : IndexFileHeader }.encode) 32 8 (natAt b 32 8) (by omega)
  unfold Runs at later
  rw [Prog.bind_eq, Runs.bind (p := storeNextSequence _) sequence] at later
  have counted : natAt ({ bucketCount := n' : IndexFileHeader }.encode) 16 8 = n' := by
    have fields := IndexFileHeader.decode_encode { bucketCount := n' } rfl
    simp only [IndexFileHeader.decode, IndexFileHeader.mk.injEq] at fields
    rw [fields.2.2.2.1]
    exact Nat.mod_eq_of_lt bound
  have width : (leBytes 8 (natAt b 32 8)).length = 8 := leBytes_length _ _
  have broken : (w.withMapped .index (patch ({ bucketCount := n' : IndexFileHeader }.encode) 32
      (leBytes 8 (natAt b 32 8)))).HeaderOnly := by
    refine ⟨_, World.sees_withMapped w .index _, (patch_length_of_le (by omega)).trans header, ?_⟩
    rw [natAt_patch_disjoint (by omega), counted]
    exact positive
  rw [placeBuckets_headerOnly broken _ later]
  exact broken

theorem updates_fits : UpdatesIndex fun _ p => p.Only Op.Fits where
  toCompositional := compositional_only _
  members := ⟨trivial, fun _ => trivial⟩
  load _ _ := ⟨trivial, fun _ => trivial⟩
  loadBytes _ _ := ⟨trivial, fun _ => trivial⟩
  loadValues _ _ := ⟨trivial, fun _ => trivial⟩
  readAllAt _ _ := ⟨trivial, fun answer => by cases answer <;> exact trivial⟩
  store _ _ _ := ⟨trivial, fun _ => trivial⟩
  storeBytes _ _ := ⟨trivial, fun _ => trivial⟩

/-- Nothing but the two calls that make the file can exceed a bound in a
resize. -/
theorem resizeIndex_fits {n' : Nat} (rounded : roundUpPowerOfTwo newCount = some n') (small : 64 + 16 * n' < 2 ^ 63) :
    (resizeIndex newCount).Only Op.Fits := by
  have size : 64 + n' * 16 < 2 ^ 63 := by omega
  have created : (createEmptyIndex newCount).Only Op.Fits := by
    unfold createEmptyIndex
    rw [rounded]
    simp only [orOverflow, Prog.bind_eq, Prog.ret_bind]
    refine .bind ⟨trivial, fun _ => trivial⟩ fun _ => .bind ⟨size, fun answer => by cases answer <;> exact trivial⟩ fun _ =>
      .bind ⟨size, fun answer => by cases answer <;> exact trivial⟩ fun _ => .bind (updates_fits.storeBytes _ _) fun _ =>
      updates_fits.storeBytes _ _
  exact .bind (updates_fits.load _ _) fun _ => .bind (updates_fits.collectBuckets _ _) fun _ =>
    .bind (updates_fits.load _ _) fun _ => .bind created fun _ => .bind (updates_fits.store _ _ _) fun _ =>
    updates_fits.placeBuckets _

theorem Bounded.of_bind {α β : Type} {p : Db α} {f : α → Db β} {a : α} (first : Bounded p w) (runs : Runs p w a w')
    (rest : Bounded (f a) w') : Bounded (p.bind f) w := by
  refine within_bind.mpr ⟨first, fun a' w'' done => ?_⟩
  obtain ⟨rfl, rfl⟩ := Runs.unique runs done
  exact rest

/-- An `EnsureCapacityForInsert` that returns has kept every bound, or left an
index in which no bucket can be read. -/
theorem ensureCapacityForInsert_inv (t : IndexTable H b n slot off)
    (runs : Runs (ensureCapacityForInsert insertCount) (w.withMapped .index b) () w') :
    Bounded (ensureCapacityForInsert insertCount) (w.withMapped .index b) ∨ w'.HeaderOnly := by
  have members := getMembers_runs (w.withMapped .index b)
  have counts := loadBucketCount_runs w t.toIndexFile
  have items := loadItemCount_runs w t.toIndexFile
  unfold ensureCapacityForInsert at runs ⊢
  unfold Runs at runs
  rw [Prog.bind_eq, members.bind, Prog.bind_eq, counts.bind, Prog.bind_eq, items.bind, Prog.bind_eq] at runs
  suffices rest : Bounded ((orOverflow (growBucketCount (w.withMapped .index b).members.options.maxLoadFactor
      (u64 (filled n slot + insertCount)) 66 n)).bind fun grown => if grown = n then pure () else resizeIndex grown)
      (w.withMapped .index b) ∨ w'.HeaderOnly by
    rcases rest with within | broken
    · exact Or.inl (.of_bind (updates_fits.members.within members) members
        (.of_bind ((updates_fits.load _ _).within counts) counts
          (.of_bind ((updates_fits.load _ _).within items) items within)))
    · exact Or.inr broken
  cases grow : growBucketCount (w.withMapped .index b).members.options.maxLoadFactor
      (u64 (filled n slot + insertCount)) 66 n with
  | none =>
    rw [grow] at runs
    cases runs
  | some grown =>
    rw [grow] at runs
    simp only [orOverflow, Prog.ret_bind] at runs ⊢
    by_cases same : grown = n
    · left
      rw [if_pos same]
      exact trivial
    · rw [if_neg same] at runs ⊢
      obtain ⟨n', rounded, small | broken⟩ := resizeIndex_inv t.entries runs
      · exact Or.inl ((resizeIndex_fits rounded small).within runs)
      · exact Or.inr broken

end Resize

section Batch
variable {H : HashFunctions} {w w' : World} {log : ObjectLog} {tail b : Bytes} {n : Nat} {slot : Nat → Option ObjectKey}
  {off : ObjectKey → Nat} {column : Bytes} {entries : List StructEntry} {keysAreUnique : Bool}

theorem writeAllAt_inv {file : FileId} {old data : Bytes} {offset : Nat} (content : w.disk file = some old)
    (small : offset < 2 ^ 64) (nonempty : data ≠ []) (runs : Runs (writeAllAt file offset data) w () w') :
    offset + data.length < 2 ^ 63 := by
  by_contra large
  simp only [Runs, writeAllAt, run, system, content, u64_of_lt small, if_neg nonempty, if_neg large, checked] at runs
  cases runs

theorem World.HeaderOnly.writeAllAt {offset : Nat} {data : Bytes} (broken : w.HeaderOnly)
    (runs : Runs (LumoDB.writeAllAt .values offset data) w () w') : w'.HeaderOnly := by
  obtain ⟨b, sees, short, positive⟩ := broken
  refine ⟨b, fun start size inside => ?_, short, positive⟩
  have seen := sees start size inside
  simp only [Runs, LumoDB.writeAllAt, run] at runs
  cases step : system (.writeAt .values offset data) w with
  | none =>
    rw [step] at runs
    cases runs
  | some out =>
    have apart := @system_touched _ _ _ _ FileId.index step (by simp) (by simp [Op.touched])
    rw [step] at runs
    obtain ⟨answer, w₁⟩ := out
    cases answer with
    | error e => cases runs
    | ok =>
      cases runs
      have disk : w'.disk .index = w.disk .index := apart.1
      have maps : w'.members.maps .index = w.members.maps .index := apart.2.1
      simpa only [World.mapped, disk, maps] using seen

/-- No record of a batch can be indexed without buckets. -/
theorem indexRecords_headerOnly (broken : w.HeaderOnly) {columnHash : Nat} {records : List PendingRecord}
    (given : records ≠ []) :
    run system (indexRecords H column columnHash keysAreUnique records) w = .fault := by
  obtain ⟨r, later, rfl⟩ := List.exists_cons_of_ne_nil given
  unfold indexRecords indexRecord
  cases keysAreUnique with
  | true =>
    simp only [if_true, Prog.bind_eq]
    rw [Prog.bind_assoc]
    exact run_bind_fault _ (placeBucket_headerOnly broken _) _
  | false =>
    simp only [Bool.false_eq_true, if_false, Prog.bind_eq]
    rw [Prog.bind_assoc]
    exact run_bind_fault _ (findBucket_headerOnly broken _ _ _ _) _

/-- A batch that was written has kept every bound. -/
theorem TailedFiles.bounded (files : TailedFiles H w log tail b n slot off) (serving : Serving w)
    (accepted : AcceptsStructs column entries) (runs : Runs (LumoDB.writeStructs H column entries keysAreUnique) w () w') :
    Bounded (LumoDB.writeStructs H column entries keysAreUnique) w := by
  by_cases given : entries = []
  · subst given
    have columnFits := (fitsUint32_iff column.length).mpr accepted.1
    unfold LumoDB.writeStructs
    refine .of_bind (updates_fits.members.within (getMembers_runs w)) (getMembers_runs w) ?_
    rw [if_neg (by rw [serving.isOpen]; decide), if_neg (by rw [serving.writable]; decide),
      if_neg (not_not.mpr columnFits), if_pos rfl]
    exact trivial
  · obtain ⟨steps, split, same⟩ := @writeStructs_accepted H _ _ keysAreUnique accepted given
    rw [split] at runs ⊢
    unfold Runs at runs
    rw [(getMembers_runs w).bind] at runs
    refine .of_bind (updates_fits.members.within (getMembers_runs w)) (getMembers_runs w) ?_
    rw [same _ serving.isOpen serving.writable] at runs ⊢
    obtain ⟨_, w₁, ensured, written⟩ := Runs.split runs
    obtain ⟨_, w₂, appended, later⟩ := Runs.split written
    obtain ⟨_, w₃, indexed, _⟩ := Runs.split later
    have nonempty := encodeLog_ne_nil column given
    have kept : Bounded (LumoDB.ensureCapacityForInsert entries.length) w ∨ w₁.HeaderOnly := by
      have self := files.self
      have cases_of := @ensureCapacityForInsert_inv H w w₁ b n entries.length slot off files.table (by rw [self]; exact ensured)
      rwa [self] at cases_of
    rcases kept with bounded | broken
    · obtain ⟨b₁, n₁, slot₁, ensured', files₁, _⟩ := files.ensureCapacityForInsert serving.load bounded
      obtain ⟨_, rfl⟩ := Runs.unique ensured ensured'
      have small := files.small
      rw [List.length_append] at small
      have fits := writeAllAt_inv files₁.content (by rw [files.appendOffset]; omega) nonempty appended
      refine .of_bind bounded ensured (.of_bind ⟨fits, fun answer _ _ => ?_⟩ appended
        (.of_bind ((updates_fits.indexRecords _ _ _ _).within indexed) indexed ⟨trivial, fun _ _ _ => trivial⟩))
      cases answer <;> exact trivial
    · have records : (pendingRecords H column entries w.members.appendOffset).1 ≠ [] := by
        obtain ⟨entry, later, rfl⟩ := List.exists_cons_of_ne_nil given
        nofun
      rw [Runs, indexRecords_headerOnly (broken.writeAllAt appended) records] at indexed
      cases indexed

end Batch

end LumoDB
