import LumoDB.FailedResize
import LumoDB.RowResize
import LumoDB.WrappedIndex

namespace LumoDB
open ByteCodec Effects LinearProbing

/-- Accesses to the mapped memory and reads: the members stay as they are. -/
def Op.Resident : Op → Prop
  | .members | .readAt _ _ _ | .load _ _ _ | .loadBytes _ _ _ | .store _ _ _ _ | .storeBytes _ _ _ => True
  | _ => False

section Resident
variable {H : HashFunctions} {α : Type} {p : Db α} {w w' : World} {a : α}

theorem system_resident {o : Op} {r : o.Resp} (resident : o.Resident) (step : system o w = some (r, w')) :
    w'.members = w.members := by
  cases o with
  | members | readAt _ _ _ | load _ _ _ | loadBytes _ _ _ =>
    rw [system_reads (by trivial) step]
  | store _ _ _ _ | storeBytes _ _ _ =>
    simp only [system] at step
    split at step
    · cases step
      rfl
    · cases step
  | _ => exact resident.elim

theorem Runs.resident (runs : Runs p w a w') (only : p.Only Op.Resident) : w'.members = w.members :=
  only.preserves (R := fun s t : World => t.members = s.members) (fun _ => rfl)
    (fun _ _ _ first second => Eq.trans second first)
    (fun _ _ _ _ resident step => system_resident resident step) (by rw [runs]; rfl)

theorem updates_resident : UpdatesIndex fun _ p => p.Only Op.Resident where
  toCompositional := compositional_only _
  members := ⟨trivial, fun _ => trivial⟩
  load _ _ := ⟨trivial, fun _ => trivial⟩
  loadBytes _ _ := ⟨trivial, fun _ => trivial⟩
  loadValues _ _ := ⟨trivial, fun _ => trivial⟩
  readAllAt _ _ := ⟨trivial, fun answer => checked_only answer⟩
  store _ _ _ := ⟨trivial, fun _ => trivial⟩
  storeBytes _ _ := ⟨trivial, fun _ => trivial⟩

theorem resident_placeRowBuckets (buckets : List RowIndexBucket) : (placeRowBuckets H buckets).Only Op.Resident := by
  have loop : ∀ bucket mask start rounds probe, (placeRowBucketLoop bucket mask start rounds probe).Only Op.Resident := by
    intro bucket mask start rounds
    induction rounds with
    | zero => exact fun _ => trivial
    | succ rounds ih =>
      intro probe
      exact .bind (.bind ⟨trivial, fun _ => trivial⟩ fun _ => trivial) fun _ => .ite ⟨trivial, fun _ => trivial⟩ (ih _)
  induction buckets with
  | nil => exact trivial
  | cons bucket later ih =>
    exact .bind (.bind ⟨trivial, fun _ => trivial⟩ fun _ => loop _ _ _ _ _) fun _ =>
      .bind (.bind ⟨trivial, fun _ => trivial⟩ fun _ => ⟨trivial, fun _ => trivial⟩) fun _ => ih

end Resident

section Objects
variable {H : HashFunctions} {w w' : World} {b b' v : Bytes} {n n' e : Nat} {slot slot' : Nat → Option ObjectKey}
  {off : ObjectKey → Nat}

/-- Every search of the new index ends, and it ends as the search of the old
index did: at a bucket with the same contents, or without one. -/
def SameLookups (H : HashFunctions) (w : World) (b b' : Bytes) : Prop :=
  ∀ k : ObjectKey, ∃ lookup',
    Runs (findBucket H k.1 k.2 (H.hashString k.1) (H.hashString k.2)) (w.withMapped .index b') lookup'
      (w.withMapped .index b') ∧
    ∀ lookup, Runs (findBucket H k.1 k.2 (H.hashString k.1) (H.hashString k.2)) (w.withMapped .index b) lookup
        (w.withMapped .index b) →
      lookup'.found = lookup.found ∧ (lookup.found = true → bucketAt b' lookup'.index = bucketAt b lookup.index)

/-- What a resize to `2 ^ e` buckets owes its caller, unless the system refuses
to make the file. -/
def ResizesIndex (H : HashFunctions) (w : World) (b : Bytes) (off : ObjectKey → Nat) (e : Nat) : Prop :=
  (∀ status w', run system (createEmptyIndex (2 ^ e)) (w.withMapped .index b) ≠ .error status w') →
  ∃ b' slot', Runs (resizeIndex (2 ^ e)) (w.withMapped .index b) () (w.withMapped .index b') ∧
    IndexTable H b' (2 ^ max 4 e) slot' off ∧ natAt b' 24 8 = natAt b 24 8 ∧ natAt b' 32 8 = natAt b 32 8 ∧
    SameLookups H w b b'

theorem sameLookups_of_stored_iff (t : IndexEntries H b n slot off) (t' : IndexTable H b' n' slot' off)
    (named : Named v n slot off) (reads : ReadsValues w v) (same : ∀ k, Stored n' slot' k ↔ Stored n slot k) :
    SameLookups H w b b' := by
  have named' : Named v n' slot' off := by
    intro i inside k at_i
    obtain ⟨j, inside', at_j⟩ := (same k).mp ⟨i, inside, at_i⟩
    exact named j inside' k at_j
  intro k
  obtain ⟨lookup', ran', looked'⟩ := t'.findBucket_named named' (w.sees_withMapped .index b') (reads.withIndex b') k
  refine ⟨lookup', ran', fun lookup ran => ?_⟩
  rcases t.findBucket named (w.sees_withMapped .index b) (reads.withIndex b) k with ⟨other, ran'', looked⟩ | ⟨failed, _⟩
  · obtain ⟨rfl, _⟩ := Runs.unique ran ran''
    have reported : lookup'.found = lookup.found := by
      rw [Bool.eq_iff_iff, ← looked'.stored_iff t'.table.arranged, ← looked.stored_iff t.arranged]
      exact same k
    refine ⟨reported, fun found => ?_⟩
    rw [t.stored _ looked.inside k (looked.found found),
      t'.stored _ looked'.inside k (looked'.found (reported.trans found))]
  · have impossible := ran.symm.trans failed
    cases impossible

/-- A resize whose file size wraps leaves a mapping of the header alone. -/
theorem resizeIndex_wrapped (t : IndexEntries H b n slot off) (small : e < 64) (large : 60 ≤ e)
    (runs : Runs (resizeIndex (2 ^ e)) (w.withMapped .index b) () w') :
    w'.members.maps .index = some ⟨64, true⟩ := by
  have rounded := roundUpPowerOfTwo_max small
  rw [max_eq_right (by omega)] at rounded
  have created := createEmptyIndex_wrapped (World.withMapped_disk w _ b) rounded (u64_wrapped large)
  have loaded := @load_runs w .index b 32 8 (by rw [t.length]; have := t.positive; omega)
  unfold resizeIndex at runs
  unfold Runs at runs
  rw [Prog.bind_eq, (loadBucketCount_runs w t.toIndexFile).bind, Prog.bind_eq,
    (collectBuckets_runs t (by omega)).bind, Prog.bind_eq, Runs.bind (p := loadNextSequence) loaded,
    Prog.bind_eq, created.bind] at runs
  have kept := Runs.resident runs (.bind (updates_resident.store _ _ _) fun _ => updates_resident.placeBuckets _)
  rw [kept, World.withMapped_maps, IndexFileHeader.encode_length _ rfl]

/-- A resize does what it owes exactly below the bucket counts whose file size
wraps. -/
theorem resizesIndex_iff (t : IndexEntries H b n slot off) (named : Named v n slot off) (reads : ReadsValues w v)
    (small : e < 64) (room : filled n slot < 2 ^ e) : ResizesIndex H w b off e ↔ e < 60 := by
  have rounded := roundUpPowerOfTwo_max small
  have content := World.withMapped_disk w .index b
  constructor
  · intro resizes
    by_contra large
    have created := createEmptyIndex_wrapped content (by rwa [max_eq_right (by omega)] at rounded)
      (u64_wrapped (Nat.not_lt.mp large))
    obtain ⟨b', slot', ran, t', _⟩ := resizes fun status w' failed => by
      have impossible := created.symm.trans failed
      cases impossible
    have maps := resizeIndex_wrapped t small (Nat.not_lt.mp large) ran
    have length := t'.length
    have positive := t'.positive
    simp only [World.withMapped_maps, Option.some.injEq, Mapping.mk.injEq] at maps
    omega
  · intro fits created
    by_cases last : e = 59
    · exfalso
      subst last
      exact created _ _ (createEmptyIndex_negative content rounded (by decide))
    · have bound : 2 ^ max 4 e ≤ 2 ^ 58 := Nat.pow_le_pow_right (by decide) (by omega)
      have larger : 2 ^ e ≤ 2 ^ max 4 e := Nat.pow_le_pow_right (by decide) (by omega)
      obtain ⟨b', slot', ran, t', same, count, sequence⟩ :=
        resizeIndex_runs (w := w) t rounded (by omega) (by omega)
      refine ⟨b', slot', ran, t', ?_, sequence, sameLookups_of_stored_iff t t' named reads same⟩
      rw [t'.itemCount, t.itemCount, count]

end Objects

section Rows
variable {H : HashFunctions} {w w' : World} {b b' : Bytes} {n n' shardCount count newCount e : Nat}
  {slot slot' : Nat → Option RowKey} {ref : RowKey → BlockRef} {shards : Nat → Bytes}

/-- From `2 ^ 58` buckets on the size of a row index file wraps to that of its
header. -/
theorem u64_rowWrapped (large : 58 ≤ e) : u64 (64 + 2 ^ e * 64) = 64 :=
  @u64_wrapped_of_le e 6 (by omega)

theorem createEmptyRowIndex_eq (rounded : roundUpPowerOfTwo newCount = some n) :
    run system (createEmptyRowIndex newCount) w = run system (recreate .rowIndex (64 + n * 64)
      { bucketCount := n, shardCount := w.members.options.rowShardCount : RowIndexFileHeader }.encode) w := by
  unfold createEmptyRowIndex
  rw [Prog.bind_eq, (getMembers_runs w).bind, rounded]
  rfl

/-- `SameLookups` for the row index. The caller sees the bucket and the block
header that a search returns. -/
def SameRowLookups (H : HashFunctions) (w : World) (b b' : Bytes) : Prop :=
  ∀ (k : RowKey) (retries : Nat), ∃ lookup',
    Runs (findRowBucket H k.1 k.2 (H.hashString k.1) (retries + 1)) (w.withMapped .rowIndex b') lookup'
      (w.withMapped .rowIndex b') ∧
    ∀ lookup, Runs (findRowBucket H k.1 k.2 (H.hashString k.1) (retries + 1)) (w.withMapped .rowIndex b) lookup
        (w.withMapped .rowIndex b) →
      lookup'.found = lookup.found ∧
        (lookup.found = true → lookup'.bucket = lookup.bucket ∧ lookup'.blockHeader = lookup.blockHeader)

/-- `ResizesIndex` for the row index. -/
def ResizesRowIndex (H : HashFunctions) (w : World) (b : Bytes) (ref : RowKey → BlockRef) (e : Nat) : Prop :=
  (∀ status w', run system (createEmptyRowIndex (2 ^ e)) (w.withMapped .rowIndex b) ≠ .error status w') →
  ∃ b' slot', Runs (resizeRowIndex H (2 ^ e)) (w.withMapped .rowIndex b) () (w.withMapped .rowIndex b') ∧
    RowTable H b' (2 ^ max 4 e) w.members.options.rowShardCount slot' ref ∧ natAt b' 24 8 = natAt b 24 8 ∧
    rowSequence b' = rowSequence b ∧ SameRowLookups H w b b'

theorem sameRowLookups_of_stored_iff (t : RowIndexEntries H b n shardCount slot ref)
    (t' : RowTable H b' n' shardCount slot' ref) (named : RowNamed H shards count n slot ref)
    (reads : ReadsShards w shards count) (same : ∀ k, Stored n' slot' k ↔ Stored n slot k) :
    SameRowLookups H w b b' := by
  have named' : RowNamed H shards count n' slot' ref := by
    intro i inside k at_i
    obtain ⟨j, inside', at_j⟩ := (same k).mp ⟨i, inside, at_i⟩
    exact named j inside' k at_j
  intro k retries
  obtain ⟨lookup', ran', looked', found'⟩ :=
    t'.findRowBucket_named named' (w.sees_withMapped .rowIndex b') (reads.withRowIndex b') k retries
  refine ⟨lookup', ran', fun lookup ran => ?_⟩
  rcases t.findRowBucket (w.sees_withMapped .rowIndex b) named (reads.withRowIndex b) k retries with
    ⟨other, ran'', looked, found⟩ | ⟨failed, _⟩
  · obtain ⟨rfl, _⟩ := Runs.unique ran ran''
    have reported : lookup'.found = lookup.found := by
      rw [Bool.eq_iff_iff, ← looked'.stored_iff t'.table.arranged, ← looked.stored_iff t.arranged]
      exact same k
    refine ⟨reported, fun here => ?_⟩
    have before := found here
    have after := found' (reported.trans here)
    exact ⟨after.bucket.trans before.bucket.symm, after.head.header.symm.trans before.head.header⟩
  · have impossible := ran.symm.trans failed
    cases impossible

theorem resizeRowIndex_wrapped (t : RowIndexEntries H b n w.members.options.rowShardCount slot ref) (small : e < 64)
    (large : 58 ≤ e) (runs : Runs (resizeRowIndex H (2 ^ e)) (w.withMapped .rowIndex b) () w') :
    w'.members.maps .rowIndex = some ⟨64, true⟩ := by
  have rounded := roundUpPowerOfTwo_max small
  rw [max_eq_right (by omega)] at rounded
  have created := recreate_wrapped (World.withMapped_disk w .rowIndex b) (RowIndexFileHeader.encode_length
    { bucketCount := 2 ^ e, shardCount := w.members.options.rowShardCount } rfl) (u64_rowWrapped large)
  have whole := (createEmptyRowIndex_eq (w := w.withMapped .rowIndex b) rounded).trans created
  have loaded := @load_runs w .rowIndex b 32 8 (by rw [t.length]; have := t.positive; omega)
  unfold resizeRowIndex at runs
  unfold Runs at runs
  rw [Prog.bind_eq, (loadRowBucketCount_runs w t.toRowIndexFile).bind, Prog.bind_eq,
    (collectRowBuckets_runs t (by omega)).bind, Prog.bind_eq, loaded.bind, Prog.bind_eq,
    Runs.bind (p := createEmptyRowIndex _) whole] at runs
  have kept := Runs.resident runs (.bind ⟨trivial, fun _ => trivial⟩ fun _ => resident_placeRowBuckets _)
  rw [kept, World.withMapped_maps, RowIndexFileHeader.encode_length _ rfl]

theorem resizesRowIndex_iff (t : RowIndexEntries H b n w.members.options.rowShardCount slot ref)
    (named : RowNamed H shards count n slot ref) (reads : ReadsShards w shards count) (small : e < 64)
    (room : filled n slot < 2 ^ e) : ResizesRowIndex H w b ref e ↔ e < 58 := by
  have rounded := roundUpPowerOfTwo_max small
  have content := World.withMapped_disk w .rowIndex b
  have made := createEmptyRowIndex_eq (w := w.withMapped .rowIndex b) rounded
  constructor
  · intro resizes
    by_contra large
    rw [max_eq_right (by omega)] at made
    have created := made.trans (recreate_wrapped content (RowIndexFileHeader.encode_length _ rfl)
      (u64_rowWrapped (Nat.not_lt.mp large)))
    obtain ⟨b', slot', ran, t', _⟩ := resizes fun status w' failed => by
      have impossible := created.symm.trans failed
      cases impossible
    have maps := resizeRowIndex_wrapped t small (Nat.not_lt.mp large) ran
    have length := t'.length
    have positive := t'.positive
    simp only [World.withMapped_maps, Option.some.injEq, Mapping.mk.injEq] at maps
    omega
  · intro fits created
    by_cases last : e = 57
    · exfalso
      subst last
      exact created _ _ (made.trans (recreate_negative content (by decide)))
    · have bound : 2 ^ max 4 e ≤ 2 ^ 56 := Nat.pow_le_pow_right (by decide) (by omega)
      have larger : 2 ^ e ≤ 2 ^ max 4 e := Nat.pow_le_pow_right (by decide) (by omega)
      obtain ⟨b', slot', ran, t', same, filled, sequence⟩ :=
        resizeRowIndex_runs (w := w) t rounded (by omega) (by omega)
      refine ⟨b', slot', ran, t', ?_, sequence, sameRowLookups_of_stored_iff t t' named reads same⟩
      rw [t'.itemCount, t.itemCount, filled]

end Rows

section Both
variable {H : HashFunctions} {w : World} {b rows v : Bytes} {n m count e d : Nat} {slot : Nat → Option ObjectKey}
  {off : ObjectKey → Nat} {rowSlot : Nat → Option RowKey} {ref : RowKey → BlockRef} {shards : Nat → Bytes}

/-- Resizes keep every lookup unless the size of the new file wraps. -/
theorem resizes_iff (index : IndexEntries H b n slot off) (named : Named v n slot off) (reads : ReadsValues w v)
    (small : e < 64) (room : filled n slot < 2 ^ e)
    (rowIndex : RowIndexEntries H rows m w.members.options.rowShardCount rowSlot ref)
    (rowNamed : RowNamed H shards count m rowSlot ref) (rowReads : ReadsShards w shards count) (rowSmall : d < 64)
    (rowRoom : filled m rowSlot < 2 ^ d) :
    (ResizesIndex H w b off e ∧ ResizesRowIndex H w rows ref d) ↔ (e < 60 ∧ d < 58) :=
  and_congr (resizesIndex_iff index named reads small room)
    (resizesRowIndex_iff rowIndex rowNamed rowReads rowSmall rowRoom)

/-- Two records and two rows that start at one bucket of 16, and at two of 32. -/
theorem resizes_sample :
    objectHash .shipped ([2], [4]) % 16 = objectHash .shipped ([2], [6]) % 16 ∧
    rowHome .shipped ([2], 1) % 16 = rowHome .shipped ([2], 2) % 16 ∧
    ∃ w b rows off ref, w.disk .index = some b ∧ b.length = 64 + 16 * 16 ∧ natAt b 24 8 = 2 ∧
      w.disk .rowIndex = some rows ∧ rows.length = 64 + 64 * 16 ∧ natAt rows 24 8 = 2 ∧
      ResizesIndex .shipped w b off 5 ∧ ResizesRowIndex .shipped w rows ref 5 := by
  refine ⟨by decide +kernel, by decide +kernel, ?_⟩
  obtain ⟨w, history, ⟨length, items⟩, rowLength, rowItems⟩ := @History.exists_of_replay .shipped 0 (smallOptions 1)
    [.putStructs [2] [⟨[4], [7]⟩, ⟨[6], [8]⟩], .putRowStructs [2] 1 [⟨[5], [8]⟩], .putRowStructs [2] 2 [⟨[5], [9]⟩]]
    [(.putStructs [2] [⟨[4], [7]⟩, ⟨[6], [8]⟩], true), (.putRowStructs [2] 1 [⟨[5], [8]⟩], true),
      (.putRowStructs [2] 2 [⟨[5], [9]⟩], true)]
    (fun w => (((w.disk .index).getD []).length = 64 + 16 * 16 ∧ natAt ((w.disk .index).getD []) 24 8 = 2) ∧
      ((w.disk .rowIndex).getD []).length = 64 + 64 * 16 ∧ natAt ((w.disk .rowIndex).getD []) 24 8 = 2) _
    (by decide +kernel)
  obtain ⟨s, active, _⟩ := history.active
  obtain ⟨b, n, slot, off, files⟩ := active.objects
  obtain ⟨rows, m, rowSlot, ref, rowFiles⟩ := active.rows
  rw [files.index, Option.getD_some] at length items
  rw [rowFiles.index, Option.getD_some] at rowLength rowItems
  have count := files.table.itemCount
  have rowCount := rowFiles.table.itemCount
  have named := files.represents.located.named (files.small.trans (by decide))
  have both := (resizes_iff files.table.entries named files.reads (e := 5) (by decide) (by omega)
    rowFiles.table.entries rowFiles.represents.named rowFiles.reads (d := 5) (by decide) (by omega)).mpr (by decide)
  exact ⟨w, b, rows, off, ref, files.index, length, items, rowFiles.index, rowLength, rowItems, both⟩

/-- An index of 16 empty buckets cannot be resized to `2 ^ 60` buckets. -/
theorem resize_of_wrapped_size : ¬ ∀ (H : HashFunctions) w b n slot off v e, IndexEntries H b n slot off →
    Named v n slot off → ReadsValues w v → e < 64 → filled n slot < 2 ^ e → ResizesIndex H w b off e := by
  intro resizes
  have table : IndexTable .shipped (emptyIndex 16) 16 (fun _ => none) fun _ => 0 :=
    emptyIndex_table .shipped (fun _ => 0) (e := 4) rfl (by decide)
  have named : Named [] 16 (fun _ => none) fun _ => 0 := fun _ _ _ at_i => nomatch at_i
  have reads : ReadsValues (({} : World).setFile .values (some [])) [] := ⟨rfl, by decide, Or.inl rfl⟩
  have room : filled 16 (fun _ => (none : Option ObjectKey)) < 2 ^ 60 := by
    rw [filled_none]
    decide
  have bound := (resizesIndex_iff table.entries named reads (e := 60) (by decide) room).mp
    (resizes _ _ _ _ _ _ _ _ table.entries named reads (by decide) room)
  omega

end Both

end LumoDB
