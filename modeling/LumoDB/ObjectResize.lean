import LumoDB.ObjectUpdate

namespace LumoDB
open ByteCodec Effects LinearProbing

section Create
variable {w : World} {bucketCount n : Nat}

theorem patch_whole {bs data : Bytes} (same : data.length = bs.length) : patch bs 0 data = data := by
  simp [patch, same]

theorem truncateBytes_length (bs : Bytes) (size : Nat) : (truncateBytes bs size).length = size := by
  simp only [truncateBytes, List.length_append, List.length_take, List.length_replicate]
  omega

theorem Bounded.createEmptyIndex (bounded : Bounded (createEmptyIndex bucketCount) w) :
    ∃ n, roundUpPowerOfTwo bucketCount = some n ∧ 64 + 16 * n < 2 ^ 63 := by
  unfold LumoDB.createEmptyIndex at bounded
  cases rounded : roundUpPowerOfTwo bucketCount with
  | none =>
    rw [rounded] at bounded
    exact bounded.elim
  | some n =>
    rw [rounded] at bounded
    have truncate := ((bounded.rest rfl).rest (unmap_runs .index w)).first
    refine ⟨n, rfl, ?_⟩
    have fits := Bounded.truncateFile truncate
    omega

/-- The header makes a cleared file an empty index. -/
theorem storeHeader_runs (w : World) (n : Nat) :
    Runs (storeBytes .index 0 { bucketCount := n : IndexFileHeader }.encode)
      (w.withMapped .index (List.replicate (64 + n * 16) 0)) () (w.withMapped .index (emptyIndex n)) := by
  have header : ({ bucketCount := n : IndexFileHeader }.encode).length = 64 :=
    IndexFileHeader.encode_length _ rfl
  have finished : patch (List.replicate (64 + n * 16) 0) 0 { bucketCount := n : IndexFileHeader }.encode =
      emptyIndex n := by
    simp only [patch, header, emptyIndex, List.take_zero, List.length_replicate, Nat.zero_sub,
      List.replicate_zero, List.nil_append, Nat.zero_add, List.drop_replicate]
    rw [show 64 + n * 16 - 64 = 16 * n by omega]
  have stored := @storeBytes_runs w .index (List.replicate (64 + n * 16) 0) 0
    ({ bucketCount := n : IndexFileHeader }.encode) (by rw [header, List.length_replicate]; omega)
  rwa [finished] at stored

/-- Truncating, mapping, clearing and storing the header leave exactly an
empty index, whatever the file held before. -/
theorem createEmptyIndex_runs {old : Bytes} (content : w.disk .index = some old)
    (rounded : roundUpPowerOfTwo bucketCount = some n) (small : 64 + 16 * n < 2 ^ 63) :
    Runs (createEmptyIndex bucketCount) w () (w.withMapped .index (emptyIndex n)) := by
  have size : u64 (64 + n * 16) = 64 + n * 16 := u64_of_lt (by omega)
  have length := truncateBytes_length old (64 + n * 16)
  have cleared : patch (truncateBytes old (64 + n * 16)) 0 (List.replicate (64 + n * 16) 0) =
      List.replicate (64 + n * 16) 0 := patch_whole (by rw [List.length_replicate, length])
  have mapped : ((w.setMembers (·.setMap .index none)).setFile .index
        (some (truncateBytes old (64 + n * 16)))).setMembers
          (·.setMap .index (some ⟨64 + n * 16, true⟩)) =
      w.withMapped .index (truncateBytes old (64 + n * 16)) := by
    simp [World.withMapped, World.setFile, World.setMembers, Members.setMap, length]
  unfold createEmptyIndex Runs
  rw [rounded]
  simp only [orOverflow, Prog.bind_eq, Prog.ret_bind, size]
  rw [(unmap_runs .index w).bind,
    (truncateFile_runs (w := w.setMembers (·.setMap .index none)) content (by omega)).bind,
    (mapFile_runs (by omega) (by omega)).bind, mapped,
    (storeBytes_runs w (by rw [List.length_replicate, length]; omega)).bind, cleared]
  exact storeHeader_runs w n

end Create

section Resize
variable {H : HashFunctions} {b : Bytes} {n : Nat} {slot : Nat → Option ObjectKey}
  {off : ObjectKey → Nat} {w : World}

def bucketOf (H : HashFunctions) (off : ObjectKey → Nat) (k : ObjectKey) : IndexBucket :=
  ⟨objectHash H k, off k⟩

theorem collectBuckets_runs (t : IndexEntries H b n slot off) {rounds i : Nat} (sum : i + rounds = n) :
    Runs (collectBuckets rounds i) (w.withMapped .index b)
      (((List.range' i rounds).filterMap slot).map (bucketOf H off)) (w.withMapped .index b) := by
  induction rounds generalizing i with
  | zero => rfl
  | succ rounds ih =>
    have inside : i < n := by omega
    unfold Runs collectBuckets
    rw [Prog.bind_eq, (loadBucket_runs w t.toIndexFile inside).bind, Prog.bind_eq,
      (ih (by omega)).bind, Prog.pure_eq, run_ret, List.range'_succ, List.filterMap_cons]
    cases at_i : slot i with
    | none => simp only [t.empty i inside at_i, ne_eq, not_true, if_false]
    | some k =>
      rw [t.stored i inside k at_i]
      simp only [objectHash_ne_zero, ne_eq, not_false_iff, if_true, List.map_cons, bucketOf]

theorem placeBuckets_runs (ks : List ObjectKey) (nodup : ks.Nodup) (t : IndexTable H b n slot off)
    (bounds : ∀ k ∈ ks, off k < 2 ^ 64) (absent : ∀ k ∈ ks, ¬ Stored n slot k)
    (room : filled n slot + ks.length < n) :
    ∃ b' slot', Runs (placeBuckets (ks.map (bucketOf H off))) (w.withMapped .index b) ()
        (w.withMapped .index b') ∧ IndexTable H b' n slot' off ∧
      (∀ k, Stored n slot' k ↔ k ∈ ks ∨ Stored n slot k) ∧ natAt b' 32 8 = natAt b 32 8 := by
  induction ks generalizing b slot with
  | nil => exact ⟨b, slot, rfl, t, fun k => by simp, rfl⟩
  | cons k ks ih =>
    rw [List.length_cons] at room
    obtain ⟨b', i, placed, t', looked, kept⟩ := @placeCounted_runs _ _ _ _ _ w
      "index table is full during resize" k (off k) t (absent k List.mem_cons_self)
      (by omega) (bounds k List.mem_cons_self)
    rw [Function.update_eq_self] at t'
    have fresh := stored_update looked.inside looked.free
    have fill := looked.filled_le.2
    have distinct := List.nodup_cons.mp nodup
    obtain ⟨b'', slot', run', t'', stored, kept'⟩ := ih distinct.2 t'
      (fun k' member => bounds k' (List.mem_cons_of_mem k member))
      (fun k' member => by
        rw [fresh k', not_or]
        exact ⟨fun same => distinct.1 (same ▸ member), absent k' (List.mem_cons_of_mem k member)⟩)
      (by simp only at fill; omega)
    refine ⟨b'', slot', ?_, t'', fun k' => ?_, kept'.trans kept⟩
    · unfold Runs at run' ⊢
      rw [List.map_cons, placeBuckets, Prog.bind_eq, Prog.bind_eq, ← Prog.bind_assoc, run_bind]
      unfold placeExistingBucket bucketOf
      rw [placed, andThen_ok]
      exact run'
    · rw [stored k', fresh k', List.mem_cons]
      tauto

theorem emptyIndex_table (H : HashFunctions) (off : ObjectKey → Nat) {e : Nat} (power : n = 2 ^ e)
    (small : 64 + 16 * n < 2 ^ 63) : IndexTable H (emptyIndex n) n (fun _ => none) off where
  toIndexFile := by
    rw [filled_none]
    exact emptyIndex_file power small
  table := Table.empty (by rw [power]; exact Nat.two_pow_pos e)
  empty _ _ _ := by rw [bucketAt_emptyIndex]
  stored _ _ _ at_i := nomatch at_i

/-- The table does not depend on the sequence in its header. -/
theorem IndexTable.storeSequence (t : IndexTable H b n slot off) (sequence : Nat) :
    IndexTable H (patch b 32 (leBytes 8 sequence)) n slot off := by
  have length := t.length
  have width : (leBytes 8 sequence).length = 8 := leBytes_length _ _
  have inside : 32 + (leBytes 8 sequence).length ≤ b.length := by omega
  refine { toIndexFile := ⟨(patch_length_of_le inside).trans length, ?_, ?_, ?_, ?_, ?_, t.power, t.small⟩,
           table := t.table, empty := fun i below empty => ?_, stored := fun i below k at_i => ?_ }
  · rw [slice_patch_before (by omega) (by omega), t.magic]
  · rw [natAt_patch_disjoint (by omega), t.version]
  · rw [natAt_patch_disjoint (by omega), t.headerSize]
  · rw [natAt_patch_disjoint (by omega), t.bucketCount]
  · rw [natAt_patch_disjoint (by omega), t.itemCount]
  · rw [bucketAt_patch_of_apart (by unfold indexBucketOffset; omega)]
    exact t.empty i below empty
  · rw [bucketAt_patch_of_apart (by unfold indexBucketOffset; omega)]
    exact t.stored i below k at_i

/-- A resize moves every key with its record offset into the new table. -/
theorem resizeIndex_runs {newCount n' : Nat} (t : IndexEntries H b n slot off)
    (rounded : roundUpPowerOfTwo newCount = some n') (small : 64 + 16 * n' < 2 ^ 63)
    (room : filled n slot < n') :
    ∃ b' slot', Runs (resizeIndex newCount) (w.withMapped .index b) () (w.withMapped .index b') ∧
      IndexTable H b' n' slot' off ∧ (∀ k, Stored n' slot' k ↔ Stored n slot k) ∧
      filled n' slot' = filled n slot ∧ natAt b' 32 8 = natAt b 32 8 := by
  obtain ⟨_, e, _, _, power⟩ := roundUpPowerOfTwo_spec rounded
  have whole : (List.range' 0 n).filterMap slot = keys n slot := by
    rw [keys, List.range_eq_range']
  have count : (keys n slot).length = filled n slot := (filled_eq_length_keys n slot).symm
  have fresh := emptyIndex_table H off power small
  have sequence := fresh.storeSequence (natAt b 32 8)
  obtain ⟨b', slot', placed, t', stored, kept⟩ := placeBuckets_runs (w := w) (keys n slot) t.arranged.keys_nodup
    sequence
    (fun k member => by
      obtain ⟨i, inside, at_i⟩ := mem_keys.mp member
      have bound := (bucketAt_lt b i).2
      rwa [t.stored i inside k at_i] at bound)
    (fun k _ => stored_none)
    (by rw [filled_none, count, Nat.zero_add]; exact room)
  have same : ∀ k, Stored n' slot' k ↔ Stored n slot k := by
    intro k
    rw [stored k, mem_keys]
    exact or_iff_left stored_none
  refine ⟨b', slot', ?_, t', same, filled_eq_of_stored_iff t.arranged t'.table.arranged same, kept.trans ?_⟩
  rotate_left
  · rw [natAt_patch_leBytes]
    exact Nat.mod_eq_of_lt (natAt_lt b 32 8)
  have loaded := @load_runs w .index b 32 8 (by rw [t.length]; have := t.positive; omega)
  have created := createEmptyIndex_runs (w := w.withMapped .index b) (World.withMapped_disk w _ b)
    rounded small
  rw [World.withMapped_withMapped] at created
  have storedSequence := @store_runs w .index (emptyIndex n') 32 8 (natAt b 32 8) (by rw [fresh.length]; omega)
  unfold Runs resizeIndex
  rw [Prog.bind_eq, (loadBucketCount_runs w t.toIndexFile).bind, Prog.bind_eq,
    (collectBuckets_runs t (by omega)).bind, Prog.bind_eq, Runs.bind (p := loadNextSequence) loaded,
    Prog.bind_eq, created.bind, Prog.bind_eq, Runs.bind (p := storeNextSequence _) storedSequence, whole]
  exact placed

theorem Bounded.resizeIndex {newCount : Nat} (t : IndexEntries H b n slot off)
    (bounded : Bounded (resizeIndex newCount) (w.withMapped .index b)) :
    ∃ n', roundUpPowerOfTwo newCount = some n' ∧ 64 + 16 * n' < 2 ^ 63 := by
  have loaded := @load_runs w .index b 32 8 (by rw [t.length]; have := t.positive; omega)
  unfold LumoDB.resizeIndex at bounded
  have later := ((bounded.rest (loadBucketCount_runs w t.toIndexFile)).rest
    (collectBuckets_runs t (by omega))).rest (p := loadNextSequence) loaded
  exact Bounded.createEmptyIndex later.first

end Resize

end LumoDB
