import LumoDB.IndexLayout

namespace LumoDB
open ByteCodec Effects LinearProbing

/-- The index represents the records `log` of the value bytes `v`. -/
structure Indexed (H : HashFunctions) (v b : Bytes) (log : ObjectLog) (n : Nat)
    (slot : Nat → Option ObjectKey) (off : ObjectKey → Nat) : Prop where
  table : IndexTable H b n slot off
  represents : Represents v n slot off (putAll (fun _ => none) log)

section Scan
variable {H : HashFunctions} {w : World} {v b rest value : Bytes} {log done : ObjectLog} {k : ObjectKey}
  {n : Nat} {slot : Nat → Option ObjectKey} {off : ObjectKey → Nat}

theorem encodeLog_cons (r : ObjectKey × Bytes) (log : ObjectLog) :
    encodeLog (r :: log) = encodeRecord r.1 r.2 ++ encodeLog log := rfl

theorem encodeLog_singleton (r : ObjectKey × Bytes) : encodeLog [r] = encodeRecord r.1 r.2 := by
  rw [encodeLog_cons, encodeLog, List.flatMap_nil, List.append_nil]

/-- The scan of one record points the bucket of its key at the record, if there
is room. Of the value it sees only the size. -/
theorem rebuildRecord_head {b₁ : Bytes} {offset valueSize : Nat} (reads : ReadsValues w v)
    (head : RecordHead v offset k valueSize)
    (inside : u64 (24 + k.1.length + k.2.length + valueSize) ≤ v.length - offset)
    (ensured : Runs (ensureCapacityForInsert 1) (w.withMapped .index b) () (w.withMapped .index b₁))
    (table : IndexTable H b₁ n slot off) (named : Named v n slot off) (room : filled n slot + 1 < n) :
    ∃ b' lookup, Runs (rebuildRecord H v.length offset) (w.withMapped .index b)
        (u64 (24 + k.1.length + k.2.length + valueSize)) (w.withMapped .index b') ∧
      Looked H n slot k lookup ∧
      IndexTable H b' n (Function.update slot lookup.index (some k)) (Function.update off k offset) := by
  have extent := head.inside
  have small := reads.small
  have reads' := reads.withIndex b
  have header := @readAllAt_runs (w.withMapped .index b) _ _ _ 24 reads'.content (show offset + 24 ≤ v.length by omega) small
  obtain ⟨lookup, found, looked⟩ := table.findBucket_named named (w.sees_withMapped .index b₁) (reads.withIndex b₁) k
  have stored := storeLooked_runs (w := w) table looked ⟨objectHash H k, offset⟩
  refine ⟨_, lookup, ?_, looked, table.point looked room (show offset < 2 ^ 64 by omega)⟩
  unfold Runs rebuildRecord
  rw [Prog.bind_eq, header.bind, head.header]
  simp only [isValidRecordHeader_default, not_true, if_false]
  rw [if_neg (by omega)]
  simp only [Prog.bind_eq]
  rw [(head.readRecordColumnKey reads').bind, ensured.bind, found.bind, ← Prog.bind_assoc, run_bind]
  unfold objectHash at stored
  rw [stored]
  rfl

/-- The scan of one complete record adds its key to the index. -/
theorem rebuildRecord_runs (reads : ReadsValues w v) (load : LoadFactorOk w.members.options.maxLoadFactor)
    (indexed : Indexed H v b done n slot off)
    (record : RecordAt v (valueFileBytes done).length k value)
    (bounded : Bounded (rebuildRecord H v.length (valueFileBytes done).length) (w.withMapped .index b)) :
    ∃ b' n' slot' off', Runs (rebuildRecord H v.length (valueFileBytes done).length) (w.withMapped .index b)
        (24 + k.1.length + k.2.length + value.length) (w.withMapped .index b') ∧
      Indexed H v b' (done ++ [(k, value)]) n' slot' off' := by
  have inside := record.inside
  have small := reads.small
  have fits := record.fits
  have reads' := reads.withIndex b
  have header := @readAllAt_runs (w.withMapped .index b) _ _ _ 24 reads'.content
    (show (valueFileBytes done).length + 24 ≤ v.length by omega) small
  have size : u64 (24 + k.1.length + k.2.length + value.length) =
      24 + k.1.length + k.2.length + value.length := u64_of_lt (by omega)
  unfold rebuildRecord at bounded
  replace bounded := bounded.rest header
  rw [record.header (by omega)] at bounded
  simp only [isValidRecordHeader_default, not_true, if_false, size] at bounded
  rw [if_neg (by omega)] at bounded
  replace bounded := bounded.rest (readRecordColumnKey_runs reads' record)
  obtain ⟨b₁, n₁, slot₁, ensured, table₁, stored₁, count₁, load₁⟩ := ensureCapacityForInsert_runs
    indexed.table load bounded.first
  have below := indexed.table.count_lt
  have before := indexed.table.filled_lt
  rw [u64_of_lt (show filled n slot + 1 < 2 ^ 64 by omega)] at load₁
  have room : filled n₁ slot₁ + 1 < n₁ := by
    rw [count₁]
    exact lt_of_rounded_load load table₁.positive load₁
  have represents₁ : Represents v n₁ slot₁ off (putAll (fun _ => none) done) := by
    intro k
    rw [stored₁ k]
    exact indexed.represents k
  obtain ⟨b', lookup, scanned, looked, table'⟩ := rebuildRecord_head reads (record.head (by omega)) (by omega) ensured
    table₁ (represents₁.located.named (by omega)) room
  rw [size] at scanned
  refine ⟨b', _, _, _, scanned, table', ?_⟩
  rw [putAll_append]
  exact represents₁.update looked.inside looked.free record

/-- The scan of a file runs through the complete records at its start, and
goes on with the bytes after them. -/
theorem rebuildLoop_prefix {rounds : Nat} (content : v = valueFileBytes (done ++ log) ++ rest)
    (reads : ReadsValues w v) (load : LoadFactorOk w.members.options.maxLoadFactor)
    (fits : ∀ r ∈ log, r.1.Fits) (indexed : Indexed H v b done n slot off)
    (bounded : Bounded (rebuildLoop H v.length (rounds + log.length) (valueFileBytes done).length)
      (w.withMapped .index b)) :
    ∃ b' n' slot' off',
      run system (rebuildLoop H v.length (rounds + log.length) (valueFileBytes done).length)
          (w.withMapped .index b) =
        run system (rebuildLoop H v.length rounds (valueFileBytes (done ++ log)).length)
          (w.withMapped .index b') ∧
      Indexed H v b' (done ++ log) n' slot' off' ∧
      Bounded (rebuildLoop H v.length rounds (valueFileBytes (done ++ log)).length)
        (w.withMapped .index b') := by
  induction log generalizing done b n slot off with
  | nil =>
    rw [List.append_nil] at content ⊢
    exact ⟨b, n, slot, off, rfl, indexed, bounded⟩
  | cons r log ih =>
    obtain ⟨k, value⟩ := r
    have size := encodeRecord_length k value
    have split : v = valueFileBytes done ++ (encodeRecord k value ++ (encodeLog log ++ rest)) := by
      rw [content, valueFileBytes_append, encodeLog_cons, List.append_assoc, List.append_assoc]
    have record : RecordAt v (valueFileBytes done).length k value := by
      rw [split]
      exact recordAt_split (fits _ List.mem_cons_self)
    have inside := record.inside
    have small := reads.small
    have rounds_eq : rounds + ((k, value) :: log).length = rounds + log.length + 1 := rfl
    rw [rounds_eq] at bounded ⊢
    unfold rebuildLoop at bounded
    rw [if_pos (by omega)] at bounded
    obtain ⟨b₁, n₁, slot₁, off₁, scanned, indexed₁⟩ := rebuildRecord_runs reads load indexed record bounded.first
    replace bounded := bounded.rest scanned
    have next : u64 ((valueFileBytes done).length + (24 + k.1.length + k.2.length + value.length)) =
        (valueFileBytes (done ++ [(k, value)])).length := by
      rw [valueFileBytes_append, encodeLog_singleton, List.length_append, size]
      exact u64_of_lt (by omega)
    rw [next] at bounded
    have regroup : done ++ (k, value) :: log = (done ++ [(k, value)]) ++ log := by
      rw [List.append_assoc, List.singleton_append]
    rw [regroup] at content ⊢
    obtain ⟨b₂, n₂, slot₂, off₂, later, indexed₂, bounded₂⟩ := ih content
      (fun r member => fits r (List.mem_cons_of_mem _ member)) indexed₁ bounded
    refine ⟨b₂, n₂, slot₂, off₂, ?_, indexed₂, bounded₂⟩
    rw [← later, rebuildLoop, if_pos (by omega), Prog.bind_eq, scanned.bind, next]

end Scan

section Rebuild
variable {H : HashFunctions} {w : World} {log : ObjectLog} {n : Nat}

theorem indexed_empty (H : HashFunctions) (v : Bytes) {e : Nat} (power : n = 2 ^ e) (small : 64 + 16 * n < 2 ^ 63) :
    Indexed H v (emptyIndex n) [] n (fun _ => none) (fun _ => 0) :=
  ⟨emptyIndex_table H _ power small, fun _ => ⟨fun _ ⟨_, _, at_i⟩ => (nomatch at_i), nofun⟩⟩

/-- Scanning a file of complete records indexes them all, whatever the empty
table's size. -/
theorem rebuildIndexFromValues_runs (reads : ReadsValues w (valueFileBytes log))
    (load : LoadFactorOk w.members.options.maxLoadFactor) (fits : ∀ r ∈ log, r.1.Fits) {e : Nat}
    (power : n = 2 ^ e) (small : 64 + 16 * n < 2 ^ 63)
    (bounded : Bounded (rebuildIndexFromValues H) (w.withMapped .index (emptyIndex n))) :
    ∃ b n' slot off, Runs (rebuildIndexFromValues H) (w.withMapped .index (emptyIndex n)) ()
        ((w.withMapped .index b).setMembers fun m => { m with appendOffset := (valueFileBytes log).length }) ∧
      Indexed H (valueFileBytes log) b log n' slot off := by
  have reads' := reads.withIndex (emptyIndex n)
  have amount := encodeLog_length_ge log
  have total : (valueFileBytes log).length = 24 + (encodeLog log).length := by
    rw [valueFileBytes, List.length_append, valueHeader_length]
  unfold Runs rebuildIndexFromValues
  unfold rebuildIndexFromValues at bounded
  replace bounded := bounded.rest (getFileSize_runs reads'.content)
  rw [Prog.bind_eq, (getFileSize_runs reads'.content).bind, Prog.bind_eq]
  obtain ⟨rounds, rounds_eq⟩ : ∃ rounds, (valueFileBytes log).length + 1 = (rounds + 1) + log.length :=
    ⟨(valueFileBytes log).length - log.length, by omega⟩
  have start : (24 : Nat) = (valueFileBytes []).length := by rw [valueFileBytes, encodeLog, List.flatMap_nil,
    List.append_nil, valueHeader_length]
  rw [rounds_eq] at bounded ⊢
  have first := bounded.first
  rw [start] at first
  obtain ⟨b, n', slot, off, scanned, indexed, _⟩ := rebuildLoop_prefix
    (show _ = valueFileBytes ([] ++ log) ++ [] by rw [List.nil_append, List.append_nil]) reads load fits (indexed_empty H _ power small) first
  rw [← start, List.nil_append, rebuildLoop, if_neg (by omega)] at scanned
  refine ⟨b, n', slot, off, ?_, indexed⟩
  rw [Runs.bind (p := rebuildLoop H _ _ _) scanned]
  rfl

end Rebuild

end LumoDB
