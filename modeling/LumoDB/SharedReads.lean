import LumoDB.SharedRows

namespace LumoDB
open ByteCodec Effects LinearProbing

namespace Round
variable {ι : Type}

/-- The machine the calls share, on the states they are reasoned about. -/
def arena (_R : Round ι) : Arena signature World (Shared ι) := ⟨system, Op.FitsAt, Shared.world⟩

/-- The call `i` does nothing undefined and ends as said, whatever the others
do meanwhile, and moves the state only as it may. -/
abbrev SafeFor (R : Round ι) (i : ι) {α : Type} (done : α → Shared ι → Prop) (failed : Status → Shared ι → Prop)
    (p : Db α) (x : Shared ι) : Prop :=
  Safe R.arena (R.Moves (· ≠ i)) (R.Moves (· = i)) done failed p x

section Reads
variable {R : Round ι} {i : ι} {α β : Type} {x y : Shared ι} {failed : Status → Shared ι → Prop}

/-- A part that leaves the state to the others comes before the rest. -/
theorem SafeFor.after {p : Db α} {f : α → Db β} {done : β → Shared ι → Prop} {found : α → Shared ι → Prop}
    (first : R.SafeFor i (fun a y => R.Moves (· ≠ i) x y ∧ found a y) failed p x) (holds : R.Holds x)
    (rest : ∀ a y, R.Moves (· ≠ i) x y → R.Holds y → found a y → R.SafeFor i done failed (f a) y) :
    R.SafeFor i done failed (p.bind f) x :=
  Safe.bind first fun a y ⟨moves, shown⟩ => rest a y moves (moves.holds holds) shown

theorem safe_getMembers : R.SafeFor i (fun m y => R.Moves (· ≠ i) x y ∧ m = y.world.members) failed getMembers x :=
  safe_read (Moves.refl _) fun y moves => ⟨y.world.members, rfl, moves, rfl⟩

theorem safe_loadPending : R.SafeFor i (fun pending y => R.Moves (· ≠ i) x y ∧ pending = y.world.members.rowPendingInsertCount)
    failed loadPending x :=
  safe_read (Moves.refl _) fun y moves => ⟨y.world.members.rowPendingInsertCount, rfl, moves, rfl⟩

theorem safe_load {offset width : Nat} (holds : R.Holds x) (inside : offset + width ≤ 64 + 64 * R.n) :
    R.SafeFor i (fun value y => R.Moves (· ≠ i) x y ∧ value = natAt y.bytes offset width) failed
      (load .rowIndex offset width) x := by
  refine safe_read (Moves.refl _) fun y moves => ⟨natAt y.bytes offset width, ?_, moves, rfl⟩
  have holds' := moves.holds holds
  obtain ⟨items, file, _⟩ := holds'.indexed.file
  have seen := holds'.sees offset width (by rw [file.length]; exact inside)
  simp only [arena, system, seen, Option.map_some]

theorem safe_loadRowBucketCount (holds : R.Holds x) :
    R.SafeFor i (fun n y => R.Moves (· ≠ i) x y ∧ n = R.n) failed loadRowBucketCount x := by
  refine Safe.mono (safe_load holds (by omega)) ?_ fun _ _ => id
  rintro n y ⟨moves, value⟩
  obtain ⟨items, file, _⟩ := (moves.holds holds).indexed.file
  exact ⟨moves, value.trans file.bucketCount⟩

end Reads

section Snapshots
variable {R : Round ι} {i : ι} {j : Nat} {k : RowKey} {e : RowEntry} {x y : Shared ι} {failed : Status → Shared ι → Prop}

theorem Holds.bucket_inside (holds : R.Holds x) (inside : j < R.n) : rowBucketOffset j + 64 ≤ 64 + 64 * R.n := by
  obtain ⟨items, file, _⟩ := holds.indexed.file
  exact file.length ▸ file.bucket_inside inside

/-- The hashes in a bucket are those of its row, also while a new block of the
row is being published. -/
theorem Holds.keyed (holds : R.Holds x) (inside : j < R.n) (at_j : x.slot j = some k)
    (known : x.entry k ≠ none ∨ R.rows k ≠ none) :
    (rowBucketAt x.bytes j).columnHash = R.H.hashString k.1 ∧ (rowBucketAt x.bytes j).rowId = k.2 := by
  cases at_k : x.entry k with
  | some e =>
    rw [holds.indexed.full j inside k at_j e at_k]
    exact ⟨rfl, rfl⟩
  | none =>
    obtain ⟨l, _, rfl, bucket, claim⟩ := holds.indexed.claimed j inside k at_j at_k
    obtain ⟨_, _, _, _, bucket_eq, _, named⟩ := holds.indexed.claims l j bucket claim
    rw [bucket_eq]
    exact named (known.resolve_left (not_not.mpr at_k))

/-- The state of a bucket tells whether it is free, published or claimed. -/
theorem Holds.state_cases (holds : R.Holds x) (inside : j < R.n) :
    (x.slot j = none ∧ (rowBucketAt x.bytes j).state = kRowBucketEmpty) ∨
    (∃ k, x.slot j = some k ∧ x.entry k = none ∧ (rowBucketAt x.bytes j).state = kRowBucketWriting) ∨
    ∃ k e, x.slot j = some k ∧ x.entry k = some e ∧ rowBucketAt x.bytes j = rowBucket R.H k e.ref := by
  cases at_j : x.slot j with
  | none => exact Or.inl ⟨rfl, holds.indexed.empty j inside at_j⟩
  | some k =>
    cases at_k : x.entry k with
    | some e => exact Or.inr (Or.inr ⟨k, e, rfl, at_k, holds.indexed.full j inside k at_j e at_k⟩)
    | none =>
      obtain ⟨l, _, rfl, bucket, claim⟩ := holds.indexed.claimed j inside k at_j at_k
      obtain ⟨_, _, _, _, bucket_eq, writing, _⟩ := holds.indexed.claims l j bucket claim
      exact Or.inr (Or.inl ⟨R.row l, rfl, at_k, by rw [bucket_eq, writing]⟩)

/-- The bucket is one of the row in slot `j`, and its published one if no other
call writes the row. -/
structure PointsTo (R : Round ι) (i : ι) (x : Shared ι) (j : Nat) (bucket : RowIndexBucket) (k : RowKey) : Prop where
  at_j : x.slot j = some k
  columnHash : bucket.columnHash = R.H.hashString k.1
  rowId : bucket.rowId = k.2
  exact_of : R.Steady i k → ∃ e, x.entry k = some e ∧ bucket = rowBucket R.H k e.ref

/-- What a snapshot says of its bucket. -/
def SnapshotOf (R : Round ι) (i : ι) (x : Shared ι) (j : Nat) : RowBucketSnapshot → Prop
  | .empty => x.slot j = none
  | .writing => True
  | .filled bucket => ∃ k, R.PointsTo i x j bucket k

/-- A bucket that was seen Filled keeps its row, and its block if no other call
writes the row. -/
theorem Holds.later_bucket (holds : R.Holds y) (inside : j < R.n) (at_j : x.slot j = some k) (at_k : x.entry k = some e)
    (moves : R.Moves (· ≠ i) x y) :
    ((rowBucketAt y.bytes j).columnHash = R.H.hashString k.1 ∧ (rowBucketAt y.bytes j).rowId = k.2) ∧
      (R.Steady i k → rowBucketAt y.bytes j = rowBucket R.H k e.ref) := by
  have here := moves.kept j k at_j
  refine ⟨holds.keyed inside here ?_, fun steady => holds.indexed.full j inside k here e (moves.steady steady at_k)⟩
  by_cases fresh : R.rows k = none
  · left
    rw [moves.final k e at_k fresh]
    exact Option.some_ne_none e
  · exact Or.inr fresh

theorem safe_loadRowBucketSnapshot (holds : R.Holds x) (inside : j < R.n) :
    R.SafeFor i (fun snapshot y => R.Moves (· ≠ i) x y ∧ R.SnapshotOf i y j snapshot) failed
      (loadRowBucketSnapshot j) x := by
  have within := holds.bucket_inside inside
  have field : ∀ {y : Shared ι} (f width : Nat), R.Holds y → f + width ≤ 64 →
      R.SafeFor i (fun value z => R.Moves (· ≠ i) y z ∧ value = natAt z.bytes (rowBucketOffset j + f) width) failed
        (load .rowIndex (rowBucketOffset j + f) width) y := fun f width holds' fits => safe_load holds' (by omega)
  unfold loadRowBucketSnapshot
  simp only [Prog.bind_eq]
  refine SafeFor.after (field 0 4 holds (by omega)) holds fun state z moves holds_z value => ?_
  have state_eq : state = (rowBucketAt z.bytes j).state := by
    rw [value, rowBucketAt_eq]
    rfl
  rcases holds_z.state_cases inside with ⟨free, empty⟩ | ⟨k, _, _, writing⟩ | ⟨k, e, at_j, at_k, full⟩
  · rw [state_eq, empty, if_pos rfl]
    exact ⟨moves, free⟩
  · rw [state_eq, writing, if_neg (by decide), if_pos rfl]
    exact ⟨moves, trivial⟩
  rw [state_eq, show (rowBucketAt z.bytes j).state = kRowBucketFilled by rw [full]; rfl, if_neg (by decide),
    if_neg (by decide), if_neg (by decide)]
  have later : ∀ {y : Shared ι}, R.Moves (· ≠ i) z y → R.Holds y → _ := fun moves' holds' =>
    holds'.later_bucket inside at_j at_k moves'
  refine SafeFor.after (field 4 4 holds_z (by omega)) holds_z fun shardId y₁ m₁ h₁ v₁ => ?_
  refine SafeFor.after (field 8 8 h₁ (by omega)) h₁ fun columnHash y₂ m₂ h₂ v₂ => ?_
  refine SafeFor.after (field 16 8 h₂ (by omega)) h₂ fun rowId y₃ m₃ h₃ v₃ => ?_
  refine SafeFor.after (field 24 8 h₃ (by omega)) h₃ fun blockOffset y₄ m₄ h₄ v₄ => ?_
  refine SafeFor.after (field 32 8 h₄ (by omega)) h₄ fun blockSize y₅ m₅ h₅ v₅ => ?_
  refine SafeFor.after (field 40 8 h₅ (by omega)) h₅ fun sequence y₆ m₆ h₆ v₆ => ?_
  refine SafeFor.after (field 0 4 h₆ (by omega)) h₆ fun stateAfter y₇ m₇ h₇ v₇ => ?_
  have n₂ := m₁.trans m₂
  have n₃ := n₂.trans m₃
  have n₄ := n₃.trans m₄
  have n₅ := n₄.trans m₅
  have n₆ := n₅.trans m₆
  have n₇ := n₆.trans m₇
  have l₁ := later m₁ h₁
  have l₂ := later n₂ h₂
  have l₃ := later n₃ h₃
  have l₄ := later n₄ h₄
  have l₅ := later n₅ h₅
  have l₆ := later n₆ h₆
  rw [rowBucketAt_eq] at l₁ l₂ l₃ l₄ l₅ l₆
  split
  · exact ⟨moves.trans n₇, trivial⟩
  · refine ⟨moves.trans n₇, k, n₇.kept j k at_j, v₂.trans l₂.1.1, v₃.trans l₃.1.2, fun steady =>
      ⟨e, n₇.steady steady at_k, ?_⟩⟩
    have s₁ := congrArg RowIndexBucket.shardId (l₁.2 steady)
    have s₄ := congrArg RowIndexBucket.blockOffset (l₄.2 steady)
    have s₅ := congrArg RowIndexBucket.blockSize (l₅.2 steady)
    have s₆ := congrArg RowIndexBucket.sequence (l₆.2 steady)
    rw [v₁.trans s₁, v₂.trans l₂.1.1, v₃.trans l₃.1.2, v₄.trans s₄, v₅.trans s₅, v₆.trans s₆]
    rfl

end Snapshots

section Blocks
variable {R : Round ι} {i : ι} {k : RowKey} {e : RowEntry} {x y : Shared ι} {failed : Status → Shared ι → Prop}

theorem readAt_step {w : World} {file : FileId} {bytes : Bytes} {offset size : Nat} (content : w.disk file = some bytes)
    (inside : offset + size ≤ bytes.length) (small : bytes.length < 2 ^ 63) :
    system (.readAt file offset size) w = some (.ok (slice bytes offset size), w) := by
  simp only [system, content, u64_of_lt (show offset < 2 ^ 64 by omega)]
  by_cases zero : size = 0
  · rw [if_pos zero, zero, slice_zero]
  · rw [if_neg zero, if_neg (by omega), if_pos inside]

/-- What is read of a published block is the block's, also while other blocks
are written. -/
theorem safe_readRowValueAt {f size : Nat} (holds : R.Holds x) (at_k : x.entry k = some e) (steady : R.Steady i k)
    (within : f + size ≤ e.block.length) :
    R.SafeFor i (fun value y => R.Moves (· ≠ i) x y ∧ value = slice e.block f size) failed
      (readRowValueAt e.ref.shardId (e.ref.blockOffset + f) size) x := by
  have shard := (holds.blockAt at_k).shard
  unfold readRowValueAt
  rw [Prog.bind_eq]
  refine SafeFor.after safe_getMembers holds fun m y moves holds_y members => ?_
  rw [members, holds_y.session.shardCount, holds_y.session.unmapped _ shard, if_neg (by omega)]
  intro z moved _
  have holds_z := moved.holds holds_y
  have at_z := holds_z.blockAt ((moves.trans moved).steady steady at_k)
  have inside := at_z.located.inside
  have small := holds_z.reads.small _ shard
  refine ⟨.ok (slice e.block f size), z, ?_, Moves.refl _ z, moves.trans moved, rfl⟩
  rw [← at_z.located.part f size within]
  exact readAt_step (holds_z.session.content _ shard) (by omega) small

theorem safe_rowBlockMatches (holds : R.Holds x) (at_k : x.entry k = some e) (steady : R.Steady i k) (column : Bytes) :
    R.SafeFor i (fun header y => R.Moves (· ≠ i) x y ∧
        header = if k.1 = column then some (RowBlockHeader.decode (slice e.block 0 72)) else none) failed
      (rowBlockMatches (rowBucket R.H k e.ref) column k.2) x := by
  have head := (holds.blockAt at_k).head
  have offset := (holds.blockAt at_k).offset_lt holds.reads
  obtain ⟨n, keySize, valueSize, slot, t⟩ := (holds.blockAt at_k).row
  have length := t.shape.length
  have buckets := congrArg RowBlockHeader.bucketCount t.shape.header
  have shard := head.shard
  set h := RowBlockHeader.decode (slice e.block 0 72) with h_eq
  have agrees : ¬ (isValidRowBlockHeader h = false ∨ h.columnHash ≠ (rowBucket R.H k e.ref).columnHash ∨ h.rowId ≠ k.2 ∨
      h.blockSize ≠ (rowBucket R.H k e.ref).blockSize) := by
    simp [rowBucket, head.valid, head.columnHash, head.rowId, head.blockSize]
  unfold rowBlockMatches
  rw [Prog.bind_eq]
  refine SafeFor.after safe_getMembers holds fun m y moves holds_y members => ?_
  have at_y := moves.steady steady at_k
  rw [members, holds_y.session.shardCount,
    if_neg (show ¬ R.count ≤ (rowBucket R.H k e.ref).shardId from Nat.not_le.mpr shard)]
  unfold readRowBlockHeader
  rw [Prog.bind_eq, Prog.bind_eq, Prog.bind_assoc]
  have front : R.SafeFor i (fun value z => R.Moves (· ≠ i) y z ∧ value = slice e.block 0 72) failed
      (readRowValueAt e.ref.shardId (e.ref.blockOffset + 0) 72) y := safe_readRowValueAt holds_y at_y steady (by omega)
  refine SafeFor.after front holds_y fun front z moves' holds_z read => ?_
  have at_z := moves'.steady steady at_y
  simp only [Prog.pure_eq, Prog.ret_bind]
  rw [read, ← h_eq, if_neg agrees]
  by_cases sizes : h.columnSize ≠ column.length
  · rw [if_pos sizes, if_neg fun same => sizes (by rw [head.columnSize, same])]
    exact ⟨moves.trans moves', rfl⟩
  · rw [if_neg sizes, Prog.bind_eq]
    unfold readRowBlockColumn
    rw [buckets, show (rowBucket R.H k e.ref).blockOffset + 72 + n * 48 = e.ref.blockOffset + (72 + n * 48) by
      simp only [rowBucket]; omega, u64_of_lt (by omega), head.columnSize]
    have column_inside : 72 + n * 48 + k.1.length ≤ e.block.length := by omega
    refine SafeFor.after (safe_readRowValueAt holds_z at_z steady column_inside) holds_z fun stored z' moved _ same => ?_
    rw [same, t.shape.columnBytes]
    exact ⟨(moves.trans moves').trans moved, rfl⟩

/-- How a read of a key of a row with the content `m` ends. -/
def Answers (m : RowMap) (key : Bytes) (value : Bytes) : Prop := m key = some value

def Misses (m : RowMap) (key : Bytes) (e : Status) : Prop := m key = none ∧ e = .notFound "key not found in row"

theorem safe_findValueLoop {n keySize valueSize : Nat} {slot : Nat → Option Bytes} {h : RowBlockHeader} (holds : R.Holds x)
    (at_k : x.entry k = some e) (steady : R.Steady i k)
    (t : BlockTable R.H k.1 k.2 e.ref.sequence e.content e.block n keySize valueSize slot)
    (keys : h.keyBytesSize = keySize) (values : h.valueBytesSize = valueSize) (key : Bytes) {rounds probe : Nat}
    (sum : rounds + probe = n) (passed : Passed n (keyHome R.H k.2) slot key probe) :
    R.SafeFor i (fun value y => R.Moves (· ≠ i) x y ∧ Answers e.content key value)
      (fun e' y => R.Moves (· ≠ i) x y ∧ Misses e.content key e')
      (findValueLoop (rowBucket R.H k e.ref) h key (R.H.hashString key) (n - 1) (keyHome R.H k.2 key &&& (n - 1))
        (72 + n * 48 + k.1.length) (72 + n * 48 + k.1.length + keySize) rounds probe) x := by
  have length := t.shape.length
  have small := t.shape.small
  have offset := (holds.blockAt at_k).offset_lt holds.reads
  obtain ⟨e₂, power⟩ := t.shape.power
  have positive : 0 < n := power ▸ Nat.two_pow_pos e₂
  suffices from_x : ∀ y, R.Moves (· ≠ i) x y → R.SafeFor i (fun value z => R.Moves (· ≠ i) x z ∧ Answers e.content key value)
      (fun e' z => R.Moves (· ≠ i) x z ∧ Misses e.content key e')
      (findValueLoop (rowBucket R.H k e.ref) h key (R.H.hashString key) (n - 1) (keyHome R.H k.2 key &&& (n - 1))
        (72 + n * 48 + k.1.length) (72 + n * 48 + k.1.length + keySize) rounds probe) y by
    exact from_x x (Moves.refl _ x)
  induction rounds generalizing probe with
  | zero =>
    have short := passed.lt_size t.table.vacancy
    omega
  | succ rounds ih =>
    intro y moves
    have holds_y := moves.holds holds
    have target := probeSlot_lt positive (keyHome R.H k.2 key) probe
    have bucket_inside : 72 + probeSlot n (keyHome R.H k.2 key) probe * 48 + 48 ≤ e.block.length := by omega
    rw [findValueLoop, probe_index power (by omega)]
    simp only [rowBucket]
    rw [Nat.add_assoc, u64_of_lt (by omega), Prog.bind_eq]
    refine SafeFor.after (safe_readRowValueAt holds_y (moves.steady steady at_k) steady bucket_inside) holds_y
      fun bytes z moved holds_z read => ?_
    replace moved := moves.trans moved
    rw [read]
    change R.SafeFor i _ _ (if (keyBucketAt e.block (probeSlot n (keyHome R.H k.2 key) probe)).state = kBucketEmpty then _
      else _) z
    cases here : slot (probeSlot n (keyHome R.H k.2 key) probe) with
    | none =>
      rw [if_pos (t.empty _ target here)]
      have missing := t.table.absent_of_vacant passed (passed.lt_size t.table.vacancy) here
      refine ⟨moved, ?_, rfl⟩
      by_contra held
      obtain ⟨j, inside, at_j⟩ := t.present key held
      exact absurd at_j (missing j inside)
    | some key' =>
      obtain ⟨keyOffset, valueOffset, value, held, bucket, keyRoom, keyBytes, valueRoom, valueBytes⟩ :=
        t.stored _ target key' here
      unfold keyBucketAt at bucket
      rw [keyBucketAt, bucket, if_neg (show ¬ kBucketFilled = kBucketEmpty by decide),
        if_neg (show ¬ kBucketFilled ≠ kBucketFilled by decide)]
      by_cases differ : R.H.hashString key' ≠ R.H.hashString key ∨ key'.length ≠ key.length
      · have other : key' ≠ key := by
          rintro rfl
          simp at differ
        rw [if_pos differ]
        exact ih (by omega) (passed.succ here other) z moved
      · have sizes : key'.length = key.length := by
          by_contra unequal
          exact differ (Or.inr unequal)
        have key_inside : 72 + n * 48 + k.1.length + keyOffset + key.length ≤ e.block.length := by omega
        have value_inside : 72 + n * 48 + k.1.length + keySize + valueOffset + value.length ≤ e.block.length := by omega
        have keyBytes' : slice e.block (72 + n * 48 + k.1.length + keyOffset) key.length = key' := by
          rw [← sizes, keyBytes]
        rw [if_neg differ]
        simp only [keys, values]
        rw [if_neg (by omega), Nat.add_assoc e.ref.blockOffset, u64_of_lt (by omega), Prog.bind_eq]
        refine SafeFor.after (safe_readRowValueAt holds_z (moved.steady steady at_k) steady key_inside) holds_z
          fun storedKey z' moved' holds_z' read' => ?_
        replace moved' := moved.trans moved'
        rw [read', keyBytes']
        by_cases same : key' = key
        · subst same
          rw [if_neg (not_not.mpr rfl), Nat.add_assoc e.ref.blockOffset, u64_of_lt (by omega)]
          refine Safe.mono (safe_readRowValueAt holds_z' (moved'.steady steady at_k) steady value_inside) ?_ fun _ _ => id
          rintro found z'' ⟨moved'', read''⟩
          rw [valueBytes] at read''
          exact ⟨moved'.trans moved'', by rw [Answers, held, read'']⟩
        · rw [if_pos same]
          exact ih (by omega) (passed.succ here same) z' moved'

theorem safe_findValueInRowBlockAt (holds : R.Holds x) (at_k : x.entry k = some e) (steady : R.Steady i k) (key : Bytes) :
    R.SafeFor i (fun value y => R.Moves (· ≠ i) x y ∧ Answers e.content key value)
      (fun e' y => R.Moves (· ≠ i) x y ∧ Misses e.content key e')
      (findValueInRowBlockAt R.H (rowBucket R.H k e.ref) (RowBlockHeader.decode (slice e.block 0 72)) key) x := by
  have at_e := holds.blockAt at_k
  obtain ⟨n, keySize, valueSize, slot, t⟩ := at_e.row
  have length := t.shape.length
  have small := t.shape.small
  unfold findValueInRowBlockAt
  rw [Prog.bind_eq]
  refine SafeFor.after safe_getMembers holds fun m y moves holds_y members => ?_
  rw [members, holds_y.session.shardCount,
    if_neg (show ¬ R.count ≤ (rowBucket R.H k e.ref).shardId from Nat.not_le.mpr at_e.shard), t.shape.header,
    if_neg (by rw [isValidRowBlockHeader_of _ _ _ _ t.shape.power length small]; simp [rowBucket, at_e.size])]
  simp only
  rw [u64_of_lt (by omega), u64_of_lt (by omega)]
  refine Safe.mono (safe_findValueLoop holds_y (moves.steady steady at_k) steady t rfl rfl key (Nat.add_zero n) (Passed.zero key))
    ?_ ?_
  · rintro value z ⟨moved, answer⟩
    exact ⟨moves.trans moved, answer⟩
  · rintro e' z ⟨moved, miss⟩
    exact ⟨moves.trans moved, miss⟩

end Blocks

end Round

end LumoDB
