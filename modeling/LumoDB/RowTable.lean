import LumoDB.RowIndexFile

namespace LumoDB
open ByteCodec Effects LinearProbing

/-- Where the search for a row starts. -/
def rowHome (H : HashFunctions) (k : RowKey) : Nat := H.mixHashes (H.hashString k.1) k.2

/-- The representation invariant of the row index. `slot` shows the row of
each bucket and `ref` the block a bucket of that row points to. -/
structure RowTable (H : HashFunctions) (b : Bytes) (n shardCount : Nat) (slot : Nat → Option RowKey)
    (ref : RowKey → BlockRef) : Prop extends RowIndexFile b n (filled n slot) shardCount where
  table : Table n (rowHome H) slot
  empty : ∀ i < n, slot i = none → (rowBucketAt b i).state = kRowBucketEmpty
  stored : ∀ i < n, ∀ k, slot i = some k → rowBucketAt b i = rowBucket H k (ref k)

/-- The entries of a row index that may be full, as `RowTable` has them. -/
structure RowIndexEntries (H : HashFunctions) (b : Bytes) (n shardCount : Nat) (slot : Nat → Option RowKey)
    (ref : RowKey → BlockRef) : Prop extends RowIndexFile b n (filled n slot) shardCount where
  arranged : Arranged n (rowHome H) slot
  empty : ∀ i < n, slot i = none → (rowBucketAt b i).state = kRowBucketEmpty
  stored : ∀ i < n, ∀ k, slot i = some k → rowBucketAt b i = rowBucket H k (ref k)

/-- Every bucket of an indexed row points to the head of a block of the row. -/
def RowNamed (H : HashFunctions) (shards : Nat → Bytes) (count n : Nat) (slot : Nat → Option RowKey)
    (ref : RowKey → BlockRef) : Prop :=
  ∀ i < n, ∀ k, slot i = some k → ∃ h, BlockHead H shards count (ref k) k h

/-- The index and the shard files represent the rows `m`. -/
def RowRepresents (H : HashFunctions) (shards : Nat → Bytes) (count n : Nat) (slot : Nat → Option RowKey)
    (ref : RowKey → BlockRef) (m : RowKey → Option RowMap) : Prop :=
  ∀ k, (m k = none → ¬ Stored n slot k) ∧
    ∀ content, m k = some content → Stored n slot k ∧ ∃ block, BlockAt H shards count (ref k) k content block

section Search
variable {H : HashFunctions} {b : Bytes} {n shardCount count : Nat} {slot : Nat → Option RowKey}
  {ref : RowKey → BlockRef} {shards : Nat → Bytes} {m : RowKey → Option RowMap} {w : World}

theorem RowTable.filled_lt (t : RowTable H b n shardCount slot ref) : filled n slot < n :=
  filled_lt_of_vacancy t.table.vacancy

theorem RowRepresents.stored_iff (rep : RowRepresents H shards count n slot ref m) (k : RowKey) :
    Stored n slot k ↔ m k ≠ none := by
  refine ⟨fun stored absent => (rep k).1 absent stored, fun present => ?_⟩
  obtain ⟨content, held⟩ := Option.ne_none_iff_exists'.mp present
  exact ((rep k).2 content held).1

theorem RowRepresents.located (rep : RowRepresents H shards count n slot ref m) {i : Nat} {k : RowKey}
    (inside : i < n) (at_i : slot i = some k) :
    ∃ content block, m k = some content ∧ BlockAt H shards count (ref k) k content block := by
  obtain ⟨content, held⟩ := Option.ne_none_iff_exists'.mp ((rep.stored_iff k).mp ⟨i, inside, at_i⟩)
  obtain ⟨_, block, at_ref⟩ := (rep k).2 content held
  exact ⟨content, block, held, at_ref⟩

/-- Shard files that keep the indexed blocks represent the same rows. -/
theorem RowRepresents.keep {shards' : Nat → Bytes} (rep : RowRepresents H shards count n slot ref m)
    (kept : ∀ k, Stored n slot k → ∀ block, (ref k).blockSize = block.length →
      BlockIn (shards (ref k).shardId) (ref k).blockOffset block → BlockIn (shards' (ref k).shardId) (ref k).blockOffset block) :
    RowRepresents H shards' count n slot ref m := by
  refine fun k => ⟨(rep k).1, fun content held => ?_⟩
  obtain ⟨stored, block, at_ref⟩ := (rep k).2 content held
  exact ⟨stored, block, at_ref.shard, kept k stored block at_ref.size at_ref.located, at_ref.size, at_ref.row⟩

/-- A row lookup that found its row carries the bucket and the header of the
block it compared. -/
structure RowFound (H : HashFunctions) (shards : Nat → Bytes) (count : Nat) (ref : RowKey → BlockRef)
    (m : RowKey → Option RowMap) (k : RowKey) (lookup : RowBucketLookup) : Prop where
  bucket : lookup.bucket = rowBucket H k (ref k)
  block : ∃ content block, m k = some content ∧ BlockAt H shards count (ref k) k content block ∧
    lookup.blockHeader = RowBlockHeader.decode (slice block 0 72)

theorem hashes_eq_iff {k k' : RowKey} :
    ¬ (H.hashString k'.1 ≠ H.hashString k.1 ∨ k'.2 ≠ k.2) ↔ H.hashString k'.1 = H.hashString k.1 ∧ k'.2 = k.2 := by
  rw [not_or, not_not, not_not]

theorem RowTable.entries (t : RowTable H b n shardCount slot ref) : RowIndexEntries H b n shardCount slot ref where
  toRowIndexFile := t.toRowIndexFile
  arranged := t.table.arranged
  empty := t.empty
  stored := t.stored

theorem RowRepresents.named (rep : RowRepresents H shards count n slot ref m) : RowNamed H shards count n slot ref := by
  intro i inside k at_i
  obtain ⟨content, block, _, at_ref⟩ := rep.located inside at_i
  exact ⟨_, at_ref.head⟩

/-- A row lookup that found its row carries the bucket and the header of a
block of the row. -/
structure RowHeadFound (H : HashFunctions) (shards : Nat → Bytes) (count : Nat) (ref : RowKey → BlockRef)
    (k : RowKey) (lookup : RowBucketLookup) : Prop where
  bucket : lookup.bucket = rowBucket H k (ref k)
  head : BlockHead H shards count (ref k) k lookup.blockHeader

/-- The comparison of a row of the index with the searched row `k` is exact:
it returns a header if they are the same row, and nothing if not. -/
def MatchesExactly (H : HashFunctions) (w : World) (n : Nat) (slot : Nat → Option RowKey) (ref : RowKey → BlockRef)
    (column : Bytes) (k : RowKey) (good : RowBlockHeader → Prop) : Prop :=
  ∀ i < n, ∀ k', slot i = some k' → H.hashString k'.1 = H.hashString k.1 → k'.2 = k.2 →
    ∃ h, Runs (rowBlockMatches (rowBucket H k' (ref k')) column k.2) w (if k' = k then some h else none) w ∧
      (k' = k → good h)

/-- The search for a row ends at its bucket or at an empty one. In a full index
the search for an absent row fails. -/
theorem RowIndexEntries.findRowPass {good : RowBlockHeader → Prop} {column : Bytes}
    (t : RowIndexEntries H b n shardCount slot ref) (sees : w.Sees .rowIndex b) (k : RowKey)
    (matches_exactly : MatchesExactly H w n slot ref column k good) {rounds probe : Nat}
    (sum : rounds + probe = n) (passed : Passed n (rowHome H) slot k probe) :
    (∃ lookup, Runs (findRowPass column k.2 (H.hashString k.1) (n - 1) (rowHome H k &&& (n - 1)) rounds probe) w
        (some lookup) w ∧
      Lookup n (rowHome H) slot k lookup.index lookup.found ∧
      (lookup.found = true → lookup.bucket = rowBucket H k (ref k) ∧ good lookup.blockHeader)) ∨
    (run system (LumoDB.findRowPass column k.2 (H.hashString k.1) (n - 1) (rowHome H k &&& (n - 1)) rounds probe) w =
        .error (.corruption "row index table is full") w ∧ ∀ i < n, slot i ≠ none ∧ slot i ≠ some k) := by
  have positive := t.positive
  induction rounds generalizing probe with
  | zero =>
    obtain rfl : probe = n := by omega
    exact Or.inr ⟨rfl, passed.whole⟩
  | succ rounds ih =>
    have target := probeSlot_lt positive (rowHome H k) probe
    obtain ⟨onEmpty, onFilled⟩ := t.toRowIndexFile.loadRowBucketSnapshot sees target
    simp only [LumoDB.findRowPass, Prog.bind_eq, t.probe]
    unfold Runs at onEmpty onFilled ⊢
    cases here : slot (probeSlot n (rowHome H k) probe) with
    | none =>
      refine Or.inl ⟨⟨_, false, {}, {}⟩, ?_, ⟨target, nofun, fun _ => ⟨probe, rfl, passed, here⟩⟩, nofun⟩
      rw [Runs.bind (onEmpty (t.empty _ target here))]
      rfl
    | some k' =>
      have bucket := t.stored _ target k' here
      rw [bucket] at onFilled
      rw [Runs.bind (onFilled rfl)]
      have next : k' ≠ k → _ := fun other => ih (by omega) (passed.succ here other)
      by_cases differ : H.hashString k'.1 ≠ H.hashString k.1 ∨ k'.2 ≠ k.2
      · have condition : (rowBucket H k' (ref k')).columnHash ≠ H.hashString k.1 ∨
            (rowBucket H k' (ref k')).rowId ≠ k.2 := differ
        simp only
        rw [if_pos condition]
        exact next fun same => by simp [same] at differ
      · obtain ⟨hashes, rowIds⟩ := hashes_eq_iff.mp differ
        obtain ⟨h, matched, found⟩ := matches_exactly _ target k' here hashes rowIds
        have condition : ¬ ((rowBucket H k' (ref k')).columnHash ≠ H.hashString k.1 ∨
            (rowBucket H k' (ref k')).rowId ≠ k.2) := differ
        simp only
        rw [if_neg condition, matched.bind]
        by_cases same : k' = k
        · subst same
          refine Or.inl ⟨⟨_, true, rowBucket H k' (ref k'), h⟩, ?_, ⟨target, fun _ => here, nofun⟩,
            fun _ => ⟨rfl, found rfl⟩⟩
          rw [if_pos rfl]
          rfl
        · rw [if_neg same]
          exact next same

theorem RowIndexEntries.findRowBucket_of_matches {good : RowBlockHeader → Prop} {column : Bytes}
    (t : RowIndexEntries H b n shardCount slot ref) (sees : w.Sees .rowIndex b) (k : RowKey)
    (matches_exactly : MatchesExactly H w n slot ref column k good) (retries : Nat) :
    (∃ lookup, Runs (findRowBucket H column k.2 (H.hashString k.1) (retries + 1)) w lookup w ∧
      Lookup n (rowHome H) slot k lookup.index lookup.found ∧
      (lookup.found = true → lookup.bucket = rowBucket H k (ref k) ∧ good lookup.blockHeader)) ∨
    (run system (LumoDB.findRowBucket H column k.2 (H.hashString k.1) (retries + 1)) w =
        .error (.corruption "row index table is full") w ∧ ∀ i < n, slot i ≠ none ∧ slot i ≠ some k) := by
  have start : H.mixHashes (H.hashString k.1) k.2 = rowHome H k := rfl
  unfold Runs LumoDB.findRowBucket findRowLoop
  rw [Prog.bind_eq, (t.toRowIndexFile.loadRowBucketCount sees).bind,
    mask_of_count t.positive (t.count_lt.trans (by decide)), start, Prog.bind_eq]
  rcases t.findRowPass sees k matches_exactly (Nat.add_zero n) (Passed.zero k) with ⟨lookup, ran, found⟩ | ⟨failed, whole⟩
  · refine Or.inl ⟨lookup, ?_, found⟩
    rw [Runs.bind (p := LumoDB.findRowPass _ _ _ _ _ _ _) ran]
    rfl
  · exact Or.inr ⟨run_bind_error _ failed _, whole⟩

theorem RowNamed.matches_exactly (named : RowNamed H shards count n slot ref) (reads : ReadsShards w shards count) (k : RowKey) :
    MatchesExactly H w n slot ref k.1 k fun h => BlockHead H shards count (ref k) k h := by
  intro i inside k' at_i _ rowIds
  obtain ⟨h, head⟩ := named i inside k' at_i
  have matched := head.rowBlockMatches reads k.1
  rw [rowIds] at matched
  refine ⟨h, ?_, fun same => same ▸ head⟩
  by_cases same : k'.1 = k.1
  · rw [if_pos same] at matched
    rwa [if_pos (Prod.ext same rowIds)]
  · rw [if_neg same] at matched
    rwa [if_neg fun key => same (congrArg Prod.fst key)]

theorem RowIndexEntries.findRowBucket (t : RowIndexEntries H b n shardCount slot ref) (sees : w.Sees .rowIndex b)
    (named : RowNamed H shards count n slot ref) (reads : ReadsShards w shards count) (k : RowKey) (retries : Nat) :
    (∃ lookup, Runs (findRowBucket H k.1 k.2 (H.hashString k.1) (retries + 1)) w lookup w ∧
      Lookup n (rowHome H) slot k lookup.index lookup.found ∧
      (lookup.found = true → RowHeadFound H shards count ref k lookup)) ∨
    (run system (LumoDB.findRowBucket H k.1 k.2 (H.hashString k.1) (retries + 1)) w =
        .error (.corruption "row index table is full") w ∧ ∀ i < n, slot i ≠ none ∧ slot i ≠ some k) := by
  rcases t.findRowBucket_of_matches sees k (named.matches_exactly reads k) retries with ⟨lookup, ran, looked, found⟩ | failed
  · exact Or.inl ⟨lookup, ran, looked, fun reported => ⟨(found reported).1, (found reported).2⟩⟩
  · exact Or.inr failed

theorem RowTable.findRowBucket_named (t : RowTable H b n shardCount slot ref) (named : RowNamed H shards count n slot ref)
    (sees : w.Sees .rowIndex b) (reads : ReadsShards w shards count) (k : RowKey) (retries : Nat) :
    ∃ lookup, Runs (findRowBucket H k.1 k.2 (H.hashString k.1) (retries + 1)) w lookup w ∧
      Lookup n (rowHome H) slot k lookup.index lookup.found ∧
      (lookup.found = true → RowHeadFound H shards count ref k lookup) := by
  rcases t.entries.findRowBucket sees named reads k retries with found | ⟨_, whole⟩
  · exact found
  · obtain ⟨i, inside, vacant⟩ := t.table.vacancy
    exact absurd vacant (whole i inside).1

theorem RowTable.findRowBucket (t : RowTable H b n shardCount slot ref) (sees : w.Sees .rowIndex b)
    (rep : RowRepresents H shards count n slot ref m) (reads : ReadsShards w shards count) (k : RowKey) (retries : Nat) :
    ∃ lookup, Runs (findRowBucket H k.1 k.2 (H.hashString k.1) (retries + 1)) w lookup w ∧
      Lookup n (rowHome H) slot k lookup.index lookup.found ∧
      (lookup.found = true → RowFound H shards count ref m k lookup) := by
  obtain ⟨lookup, ran, looked, found⟩ := t.findRowBucket_named rep.named sees reads k retries
  refine ⟨lookup, ran, looked, fun reported => ?_⟩
  obtain ⟨bucket, head⟩ := found reported
  obtain ⟨content, block, held, at_ref⟩ := rep.located looked.inside (looked.found reported)
  obtain ⟨_, _, _, _, table⟩ := at_ref.row
  have length := table.shape.length
  refine ⟨bucket, content, block, held, at_ref, ?_⟩
  rw [← head.header, at_ref.front (by omega)]

theorem findRowBucket_runs (t : RowTable H b n shardCount slot ref) (rep : RowRepresents H shards count n slot ref m)
    (reads : ReadsShards w shards count) (k : RowKey) (retries : Nat) :
    ∃ lookup, Runs (findRowBucket H k.1 k.2 (H.hashString k.1) (retries + 1)) (w.withMapped .rowIndex b) lookup
        (w.withMapped .rowIndex b) ∧
      Lookup n (rowHome H) slot k lookup.index lookup.found ∧
      (lookup.found = true → RowFound H shards count ref m k lookup) :=
  t.findRowBucket (w.sees_withMapped .rowIndex b) rep (reads.withRowIndex b) k retries

end Search

section Update
variable {H : HashFunctions} {b b' : Bytes} {n shardCount count : Nat} {slot : Nat → Option RowKey}
  {ref : RowKey → BlockRef} {shards : Nat → Bytes} {m : RowKey → Option RowMap} {w : World} {k : RowKey}
  {r : BlockRef} {content : RowMap} {block : Bytes}

theorem RowTable.setSequence (t : RowTable H b n shardCount slot ref) (sequence : Nat) :
    RowTable H (setRowSequence b sequence) n shardCount slot ref where
  toRowIndexFile := t.toRowIndexFile.setSequence sequence
  table := t.table
  empty i inside at_i := by rw [rowBucketAt_setSequence]; exact t.empty i inside at_i
  stored i inside k at_i := by rw [rowBucketAt_setSequence]; exact t.stored i inside k at_i

/-- A looked-up bucket that was replaced by one of its row, and counted if it
is new, keeps the table. -/
theorem RowTable.point {index : Nat} {found : Bool} (t : RowTable H b n shardCount slot ref)
    (looked : Lookup n (rowHome H) slot k index found) (room : found = false → filled n slot + 1 < n)
    (set : RowBucketSet b index (rowBucket H k r) b') :
    RowTable H (if found then b' else addItem b') n shardCount (Function.update slot index (some k))
      (Function.update ref k r) := by
  have file := t.toRowIndexFile.bucketSet set
  have others := looked.others t.table
  have count := t.count_lt
  have below := t.filled_lt
  have buckets : ∀ i, rowBucketAt (if found then b' else addItem b') i = rowBucketAt b' i := by
    intro i
    split
    · rfl
    · exact rowBucketAt_addItem b' i
  refine { toRowIndexFile := ?_, table := looked.table t.table room, empty := ?_, stored := ?_ }
  · rw [looked.filled_eq]
    split
    · exact file
    · exact file.addItem (by omega)
  · intro i inside empty
    by_cases here : i = index
    · rw [here, Function.update_self] at empty
      cases empty
    · rw [Function.update_of_ne here] at empty
      rw [buckets, set.others i here (t.bucket_inside inside)]
      exact t.empty i inside empty
  · intro i inside k' at_i
    rw [buckets]
    by_cases here : i = index
    · rw [here, Function.update_self] at at_i
      cases Option.some.inj at_i
      rw [here, set.here, Function.update_self]
    · rw [Function.update_of_ne here] at at_i
      have other : k' ≠ k := by
        rintro rfl
        exact others i inside here at_i
      rw [set.others i here (t.bucket_inside inside), Function.update_of_ne other]
      exact t.stored i inside k' at_i

theorem RowRepresents.update {index : Nat} (rep : RowRepresents H shards count n slot ref m) (inside : index < n)
    (free : slot index = none ∨ slot index = some k) (at_r : BlockAt H shards count r k content block) :
    RowRepresents H shards count n (Function.update slot index (some k)) (Function.update ref k r)
      (Function.update m k (some content)) := by
  intro k'
  rw [stored_update inside free k']
  by_cases same : k' = k
  · subst same
    simp only [Function.update_self]
    refine ⟨nofun, fun content' held => ⟨Or.inl trivial, block, ?_⟩⟩
    rwa [← Option.some.inj held]
  · simp only [Function.update_of_ne same, same, false_or]
    exact rep k'

/-- What a bucket of `k` is to be filled with. -/
def rowData (H : HashFunctions) (k : RowKey) (r : BlockRef) : RowBucketData :=
  ⟨H.hashString k.1, k.2, r.shardId, r.blockOffset, r.blockSize, r.sequence⟩

theorem insertOrUpdatePass_runs (t : RowTable H b n shardCount slot ref)
    (rep : RowRepresents H shards count n slot ref m) (reads : ReadsShards w shards count)
    (fits : (rowBucket H k r).Fits) {rounds probe : Nat} (sum : rounds + probe = n)
    (passed : Passed n (rowHome H) slot k probe) :
    ∃ inserted index b', Runs (insertOrUpdatePass k.1 (rowData H k r) (n - 1) (rowHome H k &&& (n - 1)) rounds probe)
        (w.withMapped .rowIndex b) (some inserted) (w.withMapped .rowIndex b') ∧
      Lookup n (rowHome H) slot k index (!inserted) ∧ RowBucketSet b index (rowBucket H k r) b' := by
  have positive := t.positive
  induction rounds generalizing probe with
  | zero =>
    have short := passed.lt_size t.table.vacancy
    omega
  | succ rounds ih =>
    have target := probeSlot_lt positive (rowHome H k) probe
    obtain ⟨onEmpty, onFilled⟩ := loadRowBucketSnapshot_runs w t.toRowIndexFile target
    simp only [insertOrUpdatePass, Prog.bind_eq, t.probe]
    unfold Runs at onEmpty onFilled ⊢
    cases here : slot (probeSlot n (rowHome H k) probe) with
    | none =>
      have vacant := t.empty _ target here
      obtain ⟨b₁, b', claimed, published, set⟩ := publishRowBucket_runs w (rowData H k r) t.toRowIndexFile
        target vacant rfl fits
      refine ⟨true, _, b', ?_, ⟨target, nofun, fun _ => ⟨probe, rfl, passed, here⟩⟩, set⟩
      rw [Runs.bind (onEmpty vacant)]
      simp only
      rw [claimed.bind, if_pos rfl, ← Prog.bind_assoc, run_bind_ok system published]
      rfl
    | some k' =>
      have bucket := t.stored _ target k' here
      have full : (rowBucketAt b (probeSlot n (rowHome H k) probe)).state = kRowBucketFilled := by rw [bucket]; rfl
      rw [Runs.bind (onFilled full), bucket]
      obtain ⟨content', block', held, at_ref⟩ := rep.located target here
      have next : k' ≠ k → _ := fun other => ih (by omega) (passed.succ here other)
      by_cases differ : H.hashString k'.1 ≠ H.hashString k.1 ∨ k'.2 ≠ k.2
      · have condition : (rowBucket H k' (ref k')).columnHash ≠ (rowData H k r).columnHash ∨
            (rowBucket H k' (ref k')).rowId ≠ (rowData H k r).rowId := differ
        simp only
        rw [if_pos condition]
        exact next fun same => by simp [same] at differ
      · obtain ⟨_, rowIds⟩ := hashes_eq_iff.mp differ
        have matched := at_ref.head.rowBlockMatches (reads.withRowIndex b) k.1
        rw [show k'.2 = (rowData H k r).rowId from rowIds] at matched
        have condition : ¬ ((rowBucket H k' (ref k')).columnHash ≠ (rowData H k r).columnHash ∨
            (rowBucket H k' (ref k')).rowId ≠ (rowData H k r).rowId) := differ
        simp only
        rw [if_neg condition, Runs.bind (p := rowBlockMatches _ _ _) matched]
        by_cases same : k'.1 = k.1
        · have key : k' = k := Prod.ext same rowIds
          obtain ⟨b₁, b', claimed, published, set⟩ := publishRowBucket_runs w (rowData H k r) t.toRowIndexFile
            target full rfl fits
          refine ⟨false, _, b', ?_, ⟨target, fun _ => key ▸ here, nofun⟩, set⟩
          rw [if_pos same]
          simp only
          rw [claimed.bind, if_pos rfl, ← Prog.bind_assoc, run_bind_ok system published]
          rfl
        · rw [if_neg same]
          exact next fun key => same (by rw [key])

theorem insertOrUpdateRowBucket_runs (t : RowTable H b n shardCount slot ref)
    (rep : RowRepresents H shards count n slot ref m) (reads : ReadsShards w shards count)
    (fits : (rowBucket H k r).Fits) (retries : Nat) :
    ∃ inserted index b', Runs (insertOrUpdateRowBucket H k.1 (rowData H k r) (retries + 1)) (w.withMapped .rowIndex b)
        inserted (w.withMapped .rowIndex b') ∧
      Lookup n (rowHome H) slot k index (!inserted) ∧ RowBucketSet b index (rowBucket H k r) b' := by
  obtain ⟨inserted, index, b', ran, looked, set⟩ := insertOrUpdatePass_runs t rep reads fits (Nat.add_zero n) (Passed.zero k)
  refine ⟨inserted, index, b', ?_, looked, set⟩
  have start : H.mixHashes (rowData H k r).columnHash (rowData H k r).rowId = rowHome H k := rfl
  unfold Runs insertOrUpdateRowBucket insertOrUpdateLoop
  rw [Prog.bind_eq, (loadRowBucketCount_runs w t.toRowIndexFile).bind,
    mask_of_count t.positive (t.count_lt.trans (by decide)), start, Prog.bind_eq,
    Runs.bind (p := insertOrUpdatePass _ _ _ _ _ _) ran]
  rfl

end Update

end LumoDB
