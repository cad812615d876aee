import LumoDB.ObjectResize
import LumoDB.RowStore

namespace LumoDB
open ByteCodec Effects LinearProbing

section Create
variable {w : World} {bucketCount n : Nat}

theorem Bounded.createEmptyRowIndex (bounded : Bounded (createEmptyRowIndex bucketCount) w) :
    ∃ n, roundUpPowerOfTwo bucketCount = some n ∧ 64 + 64 * n < 2 ^ 63 := by
  unfold LumoDB.createEmptyRowIndex at bounded
  replace bounded := bounded.rest (getMembers_runs w)
  cases rounded : roundUpPowerOfTwo bucketCount with
  | none =>
    rw [rounded] at bounded
    exact bounded.elim
  | some n =>
    rw [rounded] at bounded
    have truncate := ((bounded.rest rfl).rest (unmap_runs .rowIndex w)).first
    refine ⟨n, rfl, ?_⟩
    have fits := Bounded.truncateFile truncate
    omega

/-- Truncating, mapping, clearing and storing the header leave exactly an
empty row index, whatever the file held before. -/
theorem createEmptyRowIndex_runs {old : Bytes} (content : w.disk .rowIndex = some old)
    (rounded : roundUpPowerOfTwo bucketCount = some n) (small : 64 + 64 * n < 2 ^ 63) :
    Runs (createEmptyRowIndex bucketCount) w ()
      (w.withMapped .rowIndex (emptyRowIndex n w.members.options.rowShardCount)) := by
  have size : u64 (64 + n * 64) = 64 + n * 64 := u64_of_lt (by omega)
  set header : Bytes :=
    { bucketCount := n, shardCount := w.members.options.rowShardCount : RowIndexFileHeader }.encode with header_eq
  have headerLength : header.length = 64 := RowIndexFileHeader.encode_length _ rfl
  have length := truncateBytes_length old (64 + n * 64)
  have cleared : patch (truncateBytes old (64 + n * 64)) 0 (List.replicate (64 + n * 64) 0) =
      List.replicate (64 + n * 64) 0 := patch_whole (by rw [List.length_replicate, length])
  have finished : patch (List.replicate (64 + n * 64) 0) 0 header =
      emptyRowIndex n w.members.options.rowShardCount := by
    simp only [patch, headerLength, emptyRowIndex, List.take_zero, List.length_replicate, Nat.zero_sub,
      List.replicate_zero, List.nil_append, Nat.zero_add, List.drop_replicate]
    rw [show 64 + n * 64 - 64 = 64 * n by omega]
  have mapped : ((w.setMembers (·.setMap .rowIndex none)).setFile .rowIndex
        (some (truncateBytes old (64 + n * 64)))).setMembers
          (·.setMap .rowIndex (some ⟨64 + n * 64, true⟩)) =
      w.withMapped .rowIndex (truncateBytes old (64 + n * 64)) := by
    simp [World.withMapped, World.setFile, World.setMembers, Members.setMap, length]
  unfold createEmptyRowIndex Runs
  rw [Prog.bind_eq, (getMembers_runs w).bind, rounded]
  simp only [orOverflow, Prog.bind_eq, Prog.ret_bind, size]
  rw [(unmap_runs .rowIndex w).bind,
    (truncateFile_runs (w := w.setMembers (·.setMap .rowIndex none)) content (by omega)).bind,
    (mapFile_runs (by omega) (by omega)).bind, mapped,
    (storeBytes_runs w (by rw [List.length_replicate, length]; omega)).bind, cleared]
  have stored := @storeBytes_runs w .rowIndex (List.replicate (64 + n * 64) 0) 0 header
    (by rw [headerLength, List.length_replicate]; omega)
  rw [finished] at stored
  exact stored

end Create

section Resize
variable {H : HashFunctions} {b : Bytes} {n shardCount : Nat} {slot : Nat → Option RowKey}
  {ref : RowKey → BlockRef} {w : World}

theorem collectRowBuckets_runs (t : RowIndexEntries H b n shardCount slot ref) {rounds i : Nat} (sum : i + rounds = n) :
    Runs (collectRowBuckets rounds i) (w.withMapped .rowIndex b)
      (((List.range' i rounds).filterMap slot).map fun k => rowBucket H k (ref k)) (w.withMapped .rowIndex b) := by
  induction rounds generalizing i with
  | zero => rfl
  | succ rounds ih =>
    have inside : i < n := by omega
    unfold Runs collectRowBuckets
    rw [Prog.bind_eq, (loadRowBucket_runs w t.toRowIndexFile inside).bind, Prog.bind_eq, (ih (by omega)).bind,
      Prog.pure_eq, run_ret, List.range'_succ, List.filterMap_cons]
    cases at_i : slot i with
    | none =>
      rw [t.empty i inside at_i]
      rfl
    | some k =>
      rw [t.stored i inside k at_i]
      rfl

/-- The search for an empty bucket finds, for a new row, the bucket that a
lookup of the row reports. -/
theorem placeRowBucketLoop_runs {k : RowKey} {rounds probe : Nat} (t : RowTable H b n shardCount slot ref)
    (absent : ¬ Stored n slot k) (fits : (rowBucket H k (ref k)).Fits) (sum : rounds + probe = n)
    (occupied : ∀ q < probe, slot (probeSlot n (rowHome H k) q) ≠ none) :
    ∃ i b', Runs (placeRowBucketLoop (rowBucket H k (ref k)) (n - 1) (rowHome H k &&& (n - 1)) rounds probe)
        (w.withMapped .rowIndex b) () (w.withMapped .rowIndex b') ∧
      Lookup n (rowHome H) slot k i false ∧ RowBucketSet b i (rowBucket H k (ref k)) b' := by
  have positive := t.positive
  have passed := Passed.of_absent positive (fun i inside at_i => absent ⟨i, inside, at_i⟩) occupied
  induction rounds generalizing probe with
  | zero =>
    have short := passed.lt_size t.table.vacancy
    omega
  | succ rounds ih =>
    have target := probeSlot_lt positive (rowHome H k) probe
    simp only [placeRowBucketLoop, Prog.bind_eq, t.probe]
    unfold Runs
    rw [(loadRowBucket_runs w t.toRowIndexFile target).bind]
    cases here : slot (probeSlot n (rowHome H k) probe) with
    | none =>
      obtain ⟨b', stored, set⟩ := storeRowBucket_runs w t.toRowIndexFile target fits
      refine ⟨_, b', ?_, ⟨target, nofun, fun _ => ⟨probe, rfl, passed, here⟩⟩, set⟩
      rw [if_pos (t.empty _ target here)]
      exact stored
    | some k' =>
      have other : k' ≠ k := by
        rintro rfl
        exact absent ⟨_, target, here⟩
      rw [t.stored _ target k' here, if_neg (show ¬ (rowBucket H k' (ref k')).state = kRowBucketEmpty from
        (by decide : ¬ kRowBucketFilled = kRowBucketEmpty))]
      have further := passed.succ here other
      exact ih (by omega) (fun q before => by
        obtain ⟨held, at_q, _⟩ := further q before
        rw [at_q]
        exact Option.some_ne_none held) further

theorem placeRowBucket_runs {k : RowKey} (t : RowTable H b n shardCount slot ref) (absent : ¬ Stored n slot k)
    (fits : (rowBucket H k (ref k)).Fits) (room : filled n slot + 1 < n) :
    ∃ i b', run system ((placeExistingRowBucket H (rowBucket H k (ref k))).bind fun _ => addRowItem)
          (w.withMapped .rowIndex b) = .ok () (w.withMapped .rowIndex b') ∧
      RowTable H b' n shardCount (Function.update slot i (some k)) ref ∧ Lookup n (rowHome H) slot k i false ∧
      rowSequence b' = rowSequence b := by
  obtain ⟨i, b₁, placed, looked, set⟩ := placeRowBucketLoop_runs (w := w) t absent fits (Nat.add_zero n)
    fun _ before => absurd before (Nat.not_lt_zero _)
  have start : H.mixHashes (rowBucket H k (ref k)).columnHash (rowBucket H k (ref k)).rowId = rowHome H k := rfl
  have table := t.point looked (fun _ => room) set
  rw [Function.update_eq_self, if_neg (by decide)] at table
  refine ⟨i, addItem b₁, ?_, table, looked, (rowSequence_addItem b₁).trans set.sequence⟩
  have placing : Runs (placeExistingRowBucket H (rowBucket H k (ref k))) (w.withMapped .rowIndex b) ()
      (w.withMapped .rowIndex b₁) := by
    unfold Runs placeExistingRowBucket
    rw [Prog.bind_eq, (loadRowBucketCount_runs w t.toRowIndexFile).bind,
      mask_of_count t.positive (t.count_lt.trans (by decide)), start]
    exact placed
  rw [placing.bind]
  exact addRowItem_runs w (t.toRowIndexFile.bucketSet set)

theorem placeRowBuckets_runs (ks : List RowKey) (nodup : ks.Nodup) (t : RowTable H b n shardCount slot ref)
    (fits : ∀ k ∈ ks, (rowBucket H k (ref k)).Fits) (absent : ∀ k ∈ ks, ¬ Stored n slot k)
    (room : filled n slot + ks.length < n) :
    ∃ b' slot', Runs (placeRowBuckets H (ks.map fun k => rowBucket H k (ref k))) (w.withMapped .rowIndex b) ()
        (w.withMapped .rowIndex b') ∧ RowTable H b' n shardCount slot' ref ∧
      (∀ k, Stored n slot' k ↔ k ∈ ks ∨ Stored n slot k) ∧ rowSequence b' = rowSequence b := by
  induction ks generalizing b slot with
  | nil => exact ⟨b, slot, rfl, t, fun k => by simp, rfl⟩
  | cons k ks ih =>
    rw [List.length_cons] at room
    obtain ⟨i, b₁, placed, t', looked, kept⟩ := placeRowBucket_runs (w := w) t (absent k List.mem_cons_self)
      (fits k List.mem_cons_self) (by omega)
    have fresh := stored_update looked.inside looked.free
    have fill := looked.filled_le.2
    have distinct := List.nodup_cons.mp nodup
    obtain ⟨b₂, slot', rest, t'', stored, kept'⟩ := ih distinct.2 t'
      (fun k' member => fits k' (List.mem_cons_of_mem k member))
      (fun k' member => by
        rw [fresh k', not_or]
        exact ⟨fun same => distinct.1 (same ▸ member), absent k' (List.mem_cons_of_mem k member)⟩)
      (by omega)
    refine ⟨b₂, slot', ?_, t'', fun k' => ?_, kept'.trans kept⟩
    · unfold Runs at rest ⊢
      rw [List.map_cons, placeRowBuckets, Prog.bind_eq, Prog.bind_eq, ← Prog.bind_assoc, run_bind, placed, andThen_ok]
      exact rest
    · rw [stored k', fresh k', List.mem_cons]
      tauto

theorem emptyRowIndex_table (H : HashFunctions) (ref : RowKey → BlockRef) {e : Nat} (power : n = 2 ^ e)
    (small : 64 + 64 * n < 2 ^ 63) (shards : shardCount < 2 ^ 32) :
    RowTable H (emptyRowIndex n shardCount) n shardCount (fun _ => none) ref where
  toRowIndexFile := by
    rw [filled_none]
    exact emptyRowIndex_file power small shards
  table := Table.empty (by rw [power]; exact Nat.two_pow_pos e)
  empty _ _ _ := rowBucketAt_empty n shardCount _
  stored _ _ _ at_i := nomatch at_i

/-- A resize moves every row with its block into the new table. -/
theorem resizeRowIndex_runs {newCount n' : Nat} (t : RowIndexEntries H b n w.members.options.rowShardCount slot ref)
    (rounded : roundUpPowerOfTwo newCount = some n') (small : 64 + 64 * n' < 2 ^ 63) (room : filled n slot < n') :
    ∃ b' slot', Runs (resizeRowIndex H newCount) (w.withMapped .rowIndex b) () (w.withMapped .rowIndex b') ∧
      RowTable H b' n' w.members.options.rowShardCount slot' ref ∧ (∀ k, Stored n' slot' k ↔ Stored n slot k) ∧
      filled n' slot' = filled n slot ∧ rowSequence b' = rowSequence b := by
  obtain ⟨_, e, _, _, power⟩ := roundUpPowerOfTwo_spec rounded
  have whole : (List.range' 0 n).filterMap slot = keys n slot := by
    rw [keys, List.range_eq_range']
  have count : (keys n slot).length = filled n slot := (filled_eq_length_keys n slot).symm
  have fresh := (emptyRowIndex_table H ref power small w.members.options.rowShardCount_lt).setSequence (natAt b 32 8)
  obtain ⟨b', slot', placed, t', stored, kept⟩ := placeRowBuckets_runs (w := w) (keys n slot) t.arranged.keys_nodup fresh
    (fun k member => by
      obtain ⟨i, inside, at_i⟩ := mem_keys.mp member
      have fits := rowBucketAt_fits b i
      rwa [t.stored i inside k at_i] at fits)
    (fun k _ => stored_none) (by rw [filled_none, count, Nat.zero_add]; exact room)
  have same : ∀ k, Stored n' slot' k ↔ Stored n slot k := by
    intro k
    rw [stored k, mem_keys]
    exact ⟨fun h => h.elim id fun none => absurd none stored_none, Or.inl⟩
  have sequence : rowSequence b' = rowSequence b := by
    rw [kept, rowSequence_setSequence]
    exact u64_of_lt (rowSequence_lt b)
  refine ⟨b', slot', ?_, t', same, filled_eq_of_stored_iff t.arranged t'.table.arranged same, sequence⟩
  have length := t.length
  have positive := t.positive
  have loaded := @load_runs w .rowIndex b 32 8 (by omega)
  have created := createEmptyRowIndex_runs (w := w.withMapped .rowIndex b) (World.withMapped_disk w _ b) rounded small
  rw [World.withMapped_withMapped] at created
  have storedSequence := @store_runs w .rowIndex (emptyRowIndex n' w.members.options.rowShardCount) 32 8
    (natAt b 32 8) (by rw [emptyRowIndex_length]; omega)
  unfold Runs resizeRowIndex
  rw [Prog.bind_eq, (loadRowBucketCount_runs w t.toRowIndexFile).bind, Prog.bind_eq,
    (collectRowBuckets_runs t (by omega)).bind, Prog.bind_eq, loaded.bind, Prog.bind_eq, created.bind, Prog.bind_eq]
  refine (Runs.bind storedSequence).trans ?_
  rw [whole]
  exact placed

theorem Bounded.resizeRowIndex {newCount : Nat} (t : RowIndexEntries H b n shardCount slot ref)
    (bounded : Bounded (resizeRowIndex H newCount) (w.withMapped .rowIndex b)) :
    ∃ n', roundUpPowerOfTwo newCount = some n' ∧ 64 + 64 * n' < 2 ^ 63 := by
  have loaded := @load_runs w .rowIndex b 32 8 (by rw [t.length]; have := t.positive; omega)
  unfold LumoDB.resizeRowIndex at bounded
  have later := ((bounded.rest (loadRowBucketCount_runs w t.toRowIndexFile)).rest
    (collectRowBuckets_runs t (by omega))).rest loaded
  exact Bounded.createEmptyRowIndex later.first

/-- What `EnsureRowCapacityForInsert` makes of the bucket count: it is doubled,
once, when one more row would exceed the load factor. -/
def EnsuredCount (maxLoadFactor : ℚ) (n items n' : Nat) : Prop :=
  ((items + 1 : Nat) : ℚ) ≤ maxLoadFactor * n ∧ n' = n ∨
    maxLoadFactor * n < ((items + 1 : Nat) : ℚ) ∧ n' = max 16 (n * 2)

theorem roundUpPowerOfTwo_double {e n' : Nat} (rounded : roundUpPowerOfTwo (2 ^ e * 2) = some n') (small : e + 1 < 64) :
    n' = max 16 (2 ^ e * 2) := by
  have value := roundUpPowerOfTwo_max small
  rw [pow_succ] at value
  rw [value] at rounded
  cases rounded
  rcases Nat.le_total 4 (e + 1) with large | few
  · have more : 2 ^ 4 ≤ 2 ^ (e + 1) := Nat.pow_le_pow_right (by decide) large
    rw [max_eq_right large, ← pow_succ, max_eq_right (by omega)]
  · have less : 2 ^ (e + 1) ≤ 2 ^ 4 := Nat.pow_le_pow_right (by decide) few
    rw [max_eq_left few, ← pow_succ, max_eq_left (by omega)]
    rfl

/-- `EnsureRowCapacityForInsert` leaves room for one more row, if the doubled
table has a file size whenever it is needed. -/
theorem ensureRowCapacityForInsert_grown (t : RowTable H b n w.members.options.rowShardCount slot ref)
    (load : LoadFactorOk w.members.options.maxLoadFactor)
    (fits : ¬ ((filled n slot + 1 : Nat) : ℚ) ≤ w.members.options.maxLoadFactor * n →
      ∃ n', roundUpPowerOfTwo (n * 2) = some n' ∧ 64 + 64 * n' < 2 ^ 63) :
    ∃ b' n' slot', Runs (ensureRowCapacityForInsert H) (w.withMapped .rowIndex b) () (w.withMapped .rowIndex b') ∧
      RowTable H b' n' w.members.options.rowShardCount slot' ref ∧ (∀ k, Stored n' slot' k ↔ Stored n slot k) ∧
      filled n' slot' = filled n slot ∧ filled n slot + 1 < n' ∧
      EnsuredCount w.members.options.maxLoadFactor n (filled n slot) n' := by
  have options : (w.withMapped .rowIndex b).members.options = w.members.options := rfl
  have below := t.count_lt
  have short := t.filled_lt
  have total : u64 (filled n slot + 1) = filled n slot + 1 := u64_of_lt (by omega)
  have doubled : u64 (n * 2) = n * 2 := u64_of_lt (by omega)
  unfold Runs ensureRowCapacityForInsert
  rw [Prog.bind_eq, (getMembers_runs _).bind, Prog.bind_eq, (loadRowItemCount_runs w t.toRowIndexFile).bind,
    Prog.bind_eq, (loadRowBucketCount_runs w t.toRowIndexFile).bind, options, total, doubled]
  by_cases enough : ((filled n slot + 1 : Nat) : ℚ) ≤ w.members.options.maxLoadFactor * n
  · exact ⟨b, n, slot, by rw [if_pos enough]; rfl, t, fun k => Iff.rfl, rfl, lt_of_load load t.positive enough,
      .inl ⟨enough, rfl⟩⟩
  · obtain ⟨n', rounded, small⟩ := fits enough
    have larger := (roundUpPowerOfTwo_spec rounded).1
    obtain ⟨b', slot', ran, t', stored, count, _⟩ := resizeRowIndex_runs (w := w) t.entries rounded small (by omega)
    obtain ⟨e, power⟩ := t.power
    have exponent : e + 1 < 64 := by
      by_contra large
      have more : 2 ^ 63 ≤ 2 ^ e := Nat.pow_le_pow_right (by decide) (by omega)
      omega
    rw [if_neg enough]
    refine ⟨b', n', slot', ran, t', stored, count, by omega, .inr ⟨not_le.mp enough, ?_⟩⟩
    rw [power] at rounded ⊢
    exact roundUpPowerOfTwo_double rounded exponent

theorem ensureRowCapacityForInsert_runs (t : RowTable H b n w.members.options.rowShardCount slot ref)
    (load : LoadFactorOk w.members.options.maxLoadFactor)
    (bounded : Bounded (ensureRowCapacityForInsert H) (w.withMapped .rowIndex b)) :
    ∃ b' n' slot', Runs (ensureRowCapacityForInsert H) (w.withMapped .rowIndex b) () (w.withMapped .rowIndex b') ∧
      RowTable H b' n' w.members.options.rowShardCount slot' ref ∧ (∀ k, Stored n' slot' k ↔ Stored n slot k) ∧
      filled n' slot' = filled n slot ∧ filled n slot + 1 < n' ∧
      EnsuredCount w.members.options.maxLoadFactor n (filled n slot) n' := by
  have options : (w.withMapped .rowIndex b).members.options = w.members.options := rfl
  have below := t.count_lt
  have short := t.filled_lt
  have total : u64 (filled n slot + 1) = filled n slot + 1 := u64_of_lt (by omega)
  have doubled : u64 (n * 2) = n * 2 := u64_of_lt (by omega)
  refine ensureRowCapacityForInsert_grown t load fun exceeded => ?_
  unfold LumoDB.ensureRowCapacityForInsert at bounded
  replace bounded := ((bounded.rest (getMembers_runs _)).rest (loadRowItemCount_runs w t.toRowIndexFile)).rest
    (loadRowBucketCount_runs w t.toRowIndexFile)
  rw [options, total, if_neg exceeded, doubled] at bounded
  exact Bounded.resizeRowIndex t.entries bounded

/-- A row table of `2 ^ d` buckets has a file size and takes the items. -/
structure RowGrowable (w : World) (items d : Nat) : Prop where
  small : 64 + 64 * 2 ^ max 4 d < 2 ^ 63
  enough : (items : ℚ) ≤ w.members.options.maxLoadFactor * (2 ^ d : Nat)

theorem ensureRowCapacityForInsert_growable {d : Nat} (t : RowTable H b n w.members.options.rowShardCount slot ref)
    (load : LoadFactorOk w.members.options.maxLoadFactor) (room : RowGrowable w (filled n slot + 1) d) :
    ∃ b' n' slot', Runs (ensureRowCapacityForInsert H) (w.withMapped .rowIndex b) () (w.withMapped .rowIndex b') ∧
      RowTable H b' n' w.members.options.rowShardCount slot' ref ∧ (∀ k, Stored n' slot' k ↔ Stored n slot k) ∧
      filled n' slot' = filled n slot ∧ filled n slot + 1 < n' ∧
      EnsuredCount w.members.options.maxLoadFactor n (filled n slot) n' := by
  refine ensureRowCapacityForInsert_grown t load fun exceeded => ?_
  obtain ⟨e, power⟩ := t.power
  have small := room.small
  have exponent : max 4 d < 57 := by
    by_contra large
    have : 2 ^ 57 ≤ 2 ^ max 4 d := Nat.pow_le_pow_right (by decide) (Nat.not_lt.mp large)
    omega
  have below : e < d := by
    by_contra above
    have larger : (2 ^ d : Nat) ≤ n := power ▸ Nat.pow_le_pow_right (by decide) (Nat.not_lt.mp above)
    have more : w.members.options.maxLoadFactor * ((2 ^ d : Nat) : ℚ) ≤ w.members.options.maxLoadFactor * n :=
      mul_le_mul_of_nonneg_left (by exact_mod_cast larger) load.1.le
    exact exceeded (room.enough.trans more)
  have smaller : 2 ^ max 4 (e + 1) ≤ 2 ^ max 4 d := Nat.pow_le_pow_right (by decide) (by omega)
  refine ⟨2 ^ max 4 (e + 1), ?_, by omega⟩
  rw [power, ← pow_succ]
  exact roundUpPowerOfTwo_max (by omega)

end Resize

end LumoDB
