import LumoDB.RowWrite

namespace LumoDB
open ByteCodec Effects LinearProbing

section Write
variable {H : HashFunctions} {w : World} {log : RowLog} {k : RowKey} {entries : List RowStructEntry} {reserve : Bool}

/-- What a row write does: it fails and stores nothing, or it appends one
record of the row. It fails for lack of room only if it reserves a slot in a
full index. -/
structure RowWritten (H : HashFunctions) (w w' : World) (log : RowLog) (k : RowKey) (content : RowMap)
    (r : RowRecord) : Prop where
  store : RowStore H w' (log ++ [r])
  step : RowStep w w'
  key : r.key = k
  content : r.content = content
  shard : r.shardId = rowHome H k % w.members.options.rowShardCount
  sequence : r.sequence = w.nextSequence
  next : w'.nextSequence = u64 (w.nextSequence + 1)
  buckets : w'.rowBuckets = w.rowBuckets

structure RowRefused (H : HashFunctions) (w w' : World) (log : RowLog) (reserve : Bool) (e : Status) : Prop where
  store : RowStore H w' log
  step : RowStep w w'
  next : w'.nextSequence = w.nextSequence ∨ w'.nextSequence = u64 (w.nextSequence + 1)
  buckets : w'.rowBuckets = w.rowBuckets
  capacity : e = capacityExceeded → reserve = true ∧ w.RowsFull

theorem RowRefused.same {e : Status} (store : RowStore H w log) (capacity : e = capacityExceeded → reserve = true ∧ w.RowsFull) :
    RowRefused H w w log reserve e :=
  ⟨store, RowStep.refl w, Or.inl rfl, rfl, capacity⟩

theorem reserveIf_cases {shards : Nat → Bytes} {m : RowKey → Option RowMap} {b : Bytes} {n : Nat}
    {slot : Nat → Option RowKey} {ref : RowKey → BlockRef} (store : ShardStore H w shards m b n slot ref)
    (load : LoadFactorOk w.members.options.maxLoadFactor) (stored : reserve = false → Stored n slot k) (retries : Nat) :
    (reserve = true ∧ w.RowsFull ∧ run system (reserveIf reserve (retries + 1)) w = .error capacityExceeded w) ∨
    (Runs (reserveIf reserve (retries + 1)) w () (w.reserved reserve) ∧
      (¬ Stored n slot k → filled n slot + 1 < n)) := by
  cases reserve with
  | false => exact Or.inr ⟨rfl, fun absent => absurd (stored rfl) absent⟩
  | true =>
    rcases reserve_cases store load retries with ⟨full, refused⟩ | ⟨runs, _, room⟩
    · exact Or.inl ⟨rfl, full, refused⟩
    · exact Or.inr ⟨runs, fun _ => room⟩

/-- `WriteRowStructs` up to the finished layout, which it returns with its
sequence. -/
def prepareRow (H : HashFunctions) (retries : Nat) (k : RowKey) (entries : List RowStructEntry) (reserve : Bool) :
    Db (Nat × RowBlockLayout) := do
  let m ← getMembers
  if ¬ m.isOpen then .fail (.notOpen "database is not open")
  else if m.readOnly then .fail (.invalidArgument "database is read-only")
  else if ¬ fitsUint32 k.1.length then .fail (.invalidArgument "column must fit in uint32 length")
  else if entries = [] then .fail (.invalidArgument "row entries must not be empty")
  else do
    reserveIf reserve retries
    let sequence ← nextRowSequence
    let layout ← releasing reserve
      (buildRowBlockLayout H m.options.maxLoadFactor k.1 k.2 entries sequence (H.hashString k.1))
    return (sequence, layout)

theorem writeRowStructs_eq (retries : Nat) : writeRowStructs H retries k.1 k.2 entries reserve =
    (prepareRow H retries k entries reserve).bind fun p => writeLayout H retries k p.1 p.2 reserve := by
  unfold writeRowStructs prepareRow
  simp only [Prog.bind_eq, Prog.bind_assoc]
  congr 1
  funext m
  split
  · rfl
  · split
    · rfl
    · split
      · rfl
      · split
        · rfl
        · simp only [Prog.bind_assoc, Prog.pure_eq, Prog.ret_bind]
          rfl

/-- The ways in which preparing a row can end: with the index `b` as it was or
with the next sequence number. -/
inductive Prepared (H : HashFunctions) (w : World) (b : Bytes) (n : Nat) (slot : Nat → Option RowKey) (k : RowKey)
    (entries : List RowStructEntry) (reserve : Bool) : Outcome Status (Nat × RowBlockLayout) World → Prop where
  | refused e (capacity : e = capacityExceeded → reserve = true ∧ w.RowsFull) :
      Prepared H w b n slot k entries reserve (.error e w)
  | unbuilt e (other : e ≠ capacityExceeded) : Prepared H w b n slot k entries reserve
      (.error e (((w.reserved reserve).withMapped .rowIndex (setRowSequence b (rowSequence b + 1))).released reserve))
  | overflow : Prepared H w b n slot k entries reserve .overflow
  | built {n' e t kslot} (power : n' = 2 ^ e) (small : n' < 2 ^ 32) (placed : KeysPlaced H k.2 n' entries t kslot)
      (column : k.1.length < 2 ^ 32) (room : ¬ Stored n slot k → filled n slot + 1 < n)
      (builds : Runs (buildRowBlockLayout H w.members.options.maxLoadFactor k.1 k.2 entries (rowSequence b)
        (H.hashString k.1)) w (layoutOf H k.1 k.2 (rowSequence b) n' entries t) w) :
      Prepared H w b n slot k entries reserve (.ok (rowSequence b, layoutOf H k.1 k.2 (rowSequence b) n' entries t)
        ((w.reserved reserve).withMapped .rowIndex (setRowSequence b (rowSequence b + 1))))

theorem prepareRow_cases (entries : List RowStructEntry) {shards : Nat → Bytes} {m : RowKey → Option RowMap} {b : Bytes} {n : Nat}
    {slot : Nat → Option RowKey} {ref : RowKey → BlockRef} (store : ShardStore H w shards m b n slot ref)
    (serving : Serving w) (stored : reserve = false → m k ≠ none) (retries : Nat) :
    Prepared H w b n slot k entries reserve (run system (prepareRow H (retries + 1) k entries reserve) w) := by
  unfold prepareRow
  rw [Prog.bind_eq, (getMembers_runs w).bind, if_neg (by rw [serving.isOpen]; decide),
    if_neg (by rw [serving.writable]; decide)]
  by_cases long : ¬ fitsUint32 k.1.length
  · rw [if_pos long]
    exact .refused _ fun same => absurd same (by decide)
  rw [if_neg long]
  by_cases empty : entries = []
  · rw [if_pos empty]
    exact .refused _ fun same => absurd same (by decide)
  rw [if_neg empty, Prog.bind_eq]
  rcases reserveIf_cases store serving.load (fun given => (store.represents.stored_iff k).mpr (stored given))
    retries with ⟨reserves, full, refused⟩ | ⟨reserved, room⟩
  · rw [run_bind_error system refused]
    exact .refused _ fun _ => ⟨reserves, full⟩
  have self : (w.reserved reserve).withMapped .rowIndex b = w.reserved reserve :=
    World.withMapped_self (by rw [World.reserved_disk, store.index]) (by rw [World.reserved_maps, store.mapped])
  have numbered := nextRowSequence_runs (w.reserved reserve) store.table.toRowIndexFile
  rw [self] at numbered
  rw [reserved.bind, Prog.bind_eq, numbered.bind, Prog.bind_eq]
  rcases @buildRowBlockLayout_cases H k.1 k.2 (rowSequence b) entries _ serving.load with ⟨e, other, failed⟩ | overflows | ⟨n', e, t, kslot, built, power, small, placed⟩
  · rw [run_bind_error system (releasing_error (failed _) fun given => by subst given; rfl)]
    exact .unbuilt _ other
  · rw [run_bind, releasing, run_orElse, overflows]
    exact .overflow
  · rw [(releasing_runs (built _)).bind]
    exact .built power small placed ((fitsUint32_iff k.1.length).mp (not_not.mp long)) room (built w)

theorem writeRowStructs_cases (reserve : Bool) (store : RowStore H w log) (serving : Serving w) (rowId : k.2 < 2 ^ 64)
    (stored : reserve = false → putRows noRows log k ≠ none) (retries : Nat)
    (bounded : Bounded (writeRowStructs H (retries + 1) k.1 k.2 entries reserve) w) :
    (∃ e w', run system (writeRowStructs H (retries + 1) k.1 k.2 entries reserve) w = .error e w' ∧
      RowRefused H w w' log reserve e) ∨
    ∃ w' r, Runs (writeRowStructs H (retries + 1) k.1 k.2 entries reserve) w () w' ∧
      RowWritten H w w' log k (rowMap entries) r := by
  obtain ⟨b, n, slot, ref, files⟩ := id store
  have prepared := prepareRow_cases entries files.shardStore serving stored retries
  rw [writeRowStructs_eq] at bounded ⊢
  have table := files.table.setSequence (rowSequence b + 1)
  have next : rowSequence (setRowSequence b (rowSequence b + 1)) = u64 (w.nextSequence + 1) := by
    rw [rowSequence_setSequence, World.nextSequence_eq files.index]
  generalize prepares : run system (prepareRow H (retries + 1) k entries reserve) w = out at prepared
  cases prepared with
  | refused e capacity => exact Or.inl ⟨e, w, run_bind_error system prepares _, RowRefused.same store capacity⟩
  | unbuilt e other =>
    refine Or.inl ⟨e, _, run_bind_error system prepares _, ⟨_, n, slot, ref, files.reindex table⟩,
      RowStep.reindex w reserve _, Or.inr ?_, ?_, fun same => absurd same other⟩
    · rw [← next, World.nextSequence_eq (World.released_index ..)]
    · rw [World.rowBuckets_eq (World.released_index ..) table.toRowIndexFile,
        World.rowBuckets_eq files.index files.table.toRowIndexFile]
  | overflow => exact absurd prepares bounded.first.not_overflow
  | built power small placed column room =>
    obtain ⟨w', r, written, store', step, key, content, shard, sequence, after, buckets⟩ := writeLayout_runs k
      _ entries _ files table (rowSequence_lt b)
      (fun block block_eq fits => by
        rw [block_eq] at fits ⊢
        exact layoutOf_block power small placed column rowId (rowSequence_lt b) fits)
      column rowId room retries (bounded.rest prepares)
    refine Or.inr ⟨w', r, ?_, store', step, key, content, shard, ?_, after.trans next, buckets⟩
    · unfold Runs
      rw [Runs.bind prepares]
      exact written
    · rw [sequence, World.nextSequence_eq files.index]

/-- The stored entries of a row are loaded, and nothing of a row that is not
stored. -/
theorem RowView.loadRowEntries {shards : Nat → Bytes} {m : RowKey → Option RowMap} {b : Bytes} {n count : Nat}
    {slot : Nat → Option RowKey} {ref : RowKey → BlockRef} (view : RowView H w shards count b n slot ref m) (k : RowKey)
    (retries : Nat) :
    (m k = none → Runs (loadRowEntries H (retries + 1) k.1 k.2 (H.hashString k.1)) w none w) ∧
    (∀ content, m k = some content → ∃ entries,
      Runs (loadRowEntries H (retries + 1) k.1 k.2 (H.hashString k.1)) w (some entries) w ∧
      (entries.map StructEntry.key).Nodup ∧ rowMap entries = content) := by
  obtain ⟨lookup, ran, looked, found⟩ := view.table.findRowBucket view.sees view.represents view.reads k retries
  have reported := looked.stored_iff view.table.table.arranged
  rw [view.represents.stored_iff k] at reported
  unfold Runs LumoDB.loadRowEntries
  rw [Prog.bind_eq, ran.bind]
  constructor
  · intro absent
    have missing : lookup.found = false := by
      cases present : lookup.found with
      | false => rfl
      | true => exact absurd absent (reported.mpr present)
    rw [missing, if_pos (by decide)]
    rfl
  · intro content held
    have present := reported.mp (by rw [held]; exact Option.some_ne_none content)
    obtain ⟨bucket, content', block, held', at_ref, _⟩ := found present
    cases Option.some.inj (held.symm.trans held')
    have stored := view.table.stored _ looked.inside k (looked.found present)
    have snapshot := (view.table.toRowIndexFile.loadRowBucketSnapshot view.sees looked.inside).2 (by rw [stored]; rfl)
    rw [stored] at snapshot
    have filledSnapshot : Runs (loadFilledRowBucketSnapshot lookup.index (retries + 1)) w (rowBucket H k (ref k)) w := by
      unfold Runs loadFilledRowBucketSnapshot
      rw [Prog.bind_eq, snapshot.bind]
      rfl
    obtain ⟨n', keySize, valueSize, kslot, t⟩ := at_ref.row
    obtain ⟨entries, decoded, nodup, same, _⟩ := decodeRowBlockEntries_runs (w := w) t
    refine ⟨entries, ?_, nodup, same⟩
    rw [present, if_neg (by decide), Prog.bind_eq, filledSnapshot.bind, Prog.bind_eq,
      (loadRowBlock_runs view.reads at_ref).bind, Prog.bind_eq, decoded.bind]
    rfl

theorem loadRowEntries_runs (store : RowStore H w log) (k : RowKey) (retries : Nat) :
    (putRows noRows log k = none → Runs (loadRowEntries H (retries + 1) k.1 k.2 (H.hashString k.1)) w none w) ∧
    (∀ content, putRows noRows log k = some content → ∃ entries,
      Runs (loadRowEntries H (retries + 1) k.1 k.2 (H.hashString k.1)) w (some entries) w ∧
      (entries.map StructEntry.key).Nodup ∧ rowMap entries = content) := by
  obtain ⟨b, n, slot, ref, files⟩ := store
  exact files.view.loadRowEntries k retries

/-- `PutRowStructs` replaces the row, or changes nothing. -/
theorem putRowStructs_cases (store : RowStore H w log) (serving : Serving w) (rowId : k.2 < 2 ^ 64) (retries : Nat)
    (bounded : Bounded (putRowStructs H (retries + 1) k.1 k.2 entries) w) :
    (∃ e w', run system (putRowStructs H (retries + 1) k.1 k.2 entries) w = .error e w' ∧
      RowRefused H w w' log true e) ∨
    ∃ w' r, Runs (putRowStructs H (retries + 1) k.1 k.2 entries) w () w' ∧
      RowWritten H w w' log k (rowMap entries) r :=
  writeRowStructs_cases true store serving rowId (fun given => nomatch given) retries bounded

/-- `PutRowStruct` sets one key of the row and keeps the others, or changes
nothing. -/
theorem putRowStruct_cases {key flatBufferBytes : Bytes} (store : RowStore H w log) (serving : Serving w)
    (rowId : k.2 < 2 ^ 64) (retries : Nat)
    (bounded : Bounded (putRowStruct H (retries + 1) k.1 k.2 key flatBufferBytes) w) :
    (∃ e w', run system (putRowStruct H (retries + 1) k.1 k.2 key flatBufferBytes) w = .error e w' ∧
      RowRefused H w w' log (putRows noRows log k).isNone e) ∨
    ∃ w' r, Runs (putRowStruct H (retries + 1) k.1 k.2 key flatBufferBytes) w () w' ∧
      RowWritten H w w' log k
        (Function.update ((putRows noRows log k).getD fun _ => none) key (some flatBufferBytes)) r := by
  unfold putRowStruct at bounded
  replace bounded := bounded.rest (getMembers_runs w)
  unfold Runs putRowStruct
  rw [Prog.bind_eq, (getMembers_runs w).bind]
  rw [if_neg (by rw [serving.isOpen]; decide), if_neg (by rw [serving.writable]; decide)] at bounded ⊢
  by_cases long : ¬ fitsUint32 k.1.length ∨ ¬ fitsUint32 key.length
  · rw [if_pos long]
    exact Or.inl ⟨_, w, rfl, RowRefused.same store fun same => absurd same (by decide)⟩
  rw [if_neg long] at bounded ⊢
  obtain ⟨onAbsent, onStored⟩ := loadRowEntries_runs store k retries
  cases held : putRows noRows log k with
  | none =>
    replace bounded := bounded.rest (onAbsent held)
    rw [Prog.bind_eq, (onAbsent held).bind]
    exact writeRowStructs_cases true store serving rowId (fun given => nomatch given) retries bounded
  | some content =>
    obtain ⟨entries, loaded, nodup, same⟩ := onStored content held
    replace bounded := bounded.rest loaded
    rw [Prog.bind_eq, loaded.bind]
    have written := writeRowStructs_cases false store serving rowId
      (fun _ => by rw [held]; exact Option.some_ne_none content) retries bounded
    rw [Option.getD_some, rowMap_mergeEntry nodup, same] at written
    exact written

end Write

end LumoDB
