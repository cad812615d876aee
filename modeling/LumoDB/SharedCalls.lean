import LumoDB.SharedInserts

namespace LumoDB
open ByteCodec Effects LinearProbing

section Computations
variable {H : HashFunctions} {column : Bytes} {rowId sequence : Nat} {entries : List RowStructEntry} {maxLoadFactor : ℚ}
  {good : Op → Prop}

theorem blockBytes_only (block : Bytes) (offset size : Nat) : (blockBytes block offset size).Only (S := signature) good :=
  .ite trivial (.ite trivial trivial)

theorem keyBucketField_only (block : Bytes) (index field size : Nat) :
    (keyBucketField block index field size).Only (S := signature) good :=
  .bind (blockBytes_only block _ _) fun _ => trivial

theorem decodeBuckets_only (block : Bytes) (h : RowBlockHeader) (keyBytesOffset valueBytesOffset rounds index : Nat) :
    (decodeBuckets block h keyBytesOffset valueBytesOffset rounds index).Only (S := signature) good := by
  induction rounds generalizing index with
  | zero => exact trivial
  | succ rounds ih =>
    rw [decodeBuckets]
    simp only [Prog.bind_eq]
    refine .bind (keyBucketField_only block _ _ _) fun state => .ite (ih _) (.ite trivial ?_)
    refine .bind (keyBucketField_only block _ _ _) fun keyOffset => .bind (keyBucketField_only block _ _ _) fun keySize =>
      .ite trivial ?_
    refine .bind (keyBucketField_only block _ _ _) fun valueOffset => .bind (keyBucketField_only block _ _ _) fun valueSize =>
      .ite trivial ?_
    exact .bind (blockBytes_only block _ _) fun key => .bind (blockBytes_only block _ _) fun value => .bind (ih _) fun _ => trivial

theorem decodeRowBlockEntries_only (block : Bytes) :
    (decodeRowBlockEntries H block column rowId).Only (S := signature) good := by
  unfold decodeRowBlockEntries
  refine .ite trivial (.ite trivial (.ite trivial ?_))
  rw [Prog.bind_eq]
  refine .bind (blockBytes_only block _ _) fun stored => .ite trivial ?_
  rw [Prog.bind_eq]
  exact .bind (decodeBuckets_only block _ _ _ _ _) fun entries => .ite trivial trivial

/-- `BuildRowBlockLayout` returns an argument error or the layout of a table
that holds every key, unless its bucket count overflows. -/
theorem buildRowBlockLayout_ends (load : LoadFactorOk maxLoadFactor) :
    (∃ message, Status.invalidArgument message ≠ capacityExceeded ∧ ¬ EntriesFit maxLoadFactor column entries ∧
      buildRowBlockLayout H maxLoadFactor column rowId entries sequence (H.hashString column) = .fail (.invalidArgument message)) ∨
    buildRowBlockLayout H maxLoadFactor column rowId entries sequence (H.hashString column) = .overflow ∨
    ∃ n e t slot, buildRowBlockLayout H maxLoadFactor column rowId entries sequence (H.hashString column) =
        .ret (layoutOf H column rowId sequence n entries t) ∧ n = 2 ^ e ∧ n < 2 ^ 32 ∧ KeysPlaced H rowId n entries t slot := by
  by_cases many : 2 ^ 32 - 1 < entries.length
  · refine Or.inl ⟨"row entry count must fit in uint32", by decide, fun fits => absurd fits.count (by omega), ?_⟩
    rw [buildRowBlockLayout, if_pos many]
  cases count : rowKeyBucketCount maxLoadFactor entries.length with
  | none =>
    refine Or.inr (Or.inl ?_)
    rw [buildRowBlockLayout, if_neg many, count]
    rfl
  | some n =>
    by_cases fits : n < 2 ^ 32
    · obtain ⟨e, t, slot, power, placed, runs⟩ := buildRowBlockLayout_runs H column rowId sequence load count fits
      exact Or.inr (Or.inr ⟨n, e, t, slot, (buildRowBlockLayout_only _).eq_ret (runs ({} : World)), power, fits, placed⟩)
    · refine Or.inl ⟨"row key bucket count must fit in uint32", by decide, fun given => fits (given.buckets n count), ?_⟩
      rw [buildRowBlockLayout, if_neg many, count]
      simp only [orOverflow, Prog.bind_eq, Prog.ret_bind]
      rw [if_pos (by omega)]

end Computations

namespace Round
variable {ι : Type} {R : Round ι} {i : ι} {x y : Shared ι} {p : Progress} {e : Option RowEntry} {t : Nat} {r : RowRecord}
  {ref : BlockRef} {entries : List RowStructEntry} {reserve : Bool}

section Ends

/-- A write that has returned: its block is in place, and the row points to
it. -/
def Returned (R : Round ι) (i : ι) (y : Shared ι) : Prop :=
  ∃ t e, R.At i { place := some t, written := true, published := true } (some e) y ∧ e.content = R.content i

/-- The capacity error stands for a crowded row index, any other one for
arguments that do not fit. -/
structure Reason (R : Round ι) (i : ι) (status : Status) : Prop where
  invalid : ∃ message, status = .invalidArgument message
  crowded : status = capacityExceeded → R.Crowded
  other : ∀ {column rowId entries}, R.calls i = .putRowStructs column rowId entries →
    EntriesFit R.options.maxLoadFactor column entries → status = capacityExceeded

/-- A write that has failed, which has left nothing behind. -/
def Refused (R : Round ι) (i : ι) (e : Option RowEntry) (status : Status) (y : Shared ι) : Prop :=
  R.At i {} e y ∧ R.Reason i status

/-- A part of a write that returns no error needs no release of its
reservation. -/
theorem SafeFor.releasing {α : Type} {q : Db α} {done : α → Shared ι → Prop} {failed : Status → Shared ι → Prop}
    (safe : R.SafeFor i done (fun _ _ => False) q x) : R.SafeFor i done failed (releasing reserve q) x :=
  Safe.orElse safe fun _ _ impossible => impossible.elim

/-- A bucket can hold where the block was placed. -/
theorem PlacedAt.fits (placed : R.PlacedAt t r ref x) (holds : R.Holds x) (complete : r.Complete R.H) (shard : r.shardId < R.count)
    (key : r.key = R.row i) : (rowBucket R.H (R.row i) ref).Fits := by
  obtain ⟨items, file, _⟩ := holds.indexed.file
  have count : R.count < 2 ^ 32 := file.shards ▸ natAt_lt x.bytes 40 4
  have inside := R.refAt_inside placed.at_t
  have small := holds.blocks.small _ shard
  rw [← placed.ref_eq]
  have offset : (R.refAt x.added t r).blockOffset < 2 ^ 64 := by omega
  have size : r.block.length < 2 ^ 64 := by omega
  exact
    { state := show kRowBucketFilled < 2 ^ 32 by decide, shardId := shard.trans count, columnHash := R.H.hashString_lt _
      rowId := key ▸ complete.rowId, blockOffset := offset, blockSize := size
      sequence := complete.sequence }

theorem safe_shardForRow (holds : R.Holds x) {failed : Status → Shared ι → Prop} :
    R.SafeFor i (fun shardId y => R.Moves (· ≠ i) x y ∧ shardId = rowHome R.H (R.row i) % R.count) failed
      (shardForRow R.H (R.H.hashString (R.row i).1) (R.row i).2) x := by
  unfold shardForRow
  rw [Prog.bind_eq]
  refine SafeFor.after safe_getMembers holds fun m y moves holds_y members => ?_
  rw [members, holds_y.session.shardCount]
  exact ⟨moves, rfl⟩

end Ends

section Write
variable [DecidableEq ι]

omit [DecidableEq ι] in
/-- An argument error of a write whose entries do not fit. -/
theorem Reason.unfit {message : String} (built : (R.calls i).Entries R.rows entries)
    (other : Status.invalidArgument message ≠ capacityExceeded)
    (unfit : ¬ EntriesFit R.options.maxLoadFactor (R.row i).1 entries) : R.Reason i (.invalidArgument message) where
  invalid := ⟨message, rfl⟩
  crowded same := absurd same other
  other call fits := by
    rw [call] at built
    obtain rfl := built
    rw [Round.row, call] at unfit
    exact absurd fits unfit

/-- The release on an error return. -/
theorem safe_releaseAndFail {status : Status} (at_x : R.At i { pending := reserve } e x) (writer : i ∈ R.writers)
    (reason : R.Reason i status) {α : Type} {done : α → Shared ι → Prop} :
    R.SafeFor i done (R.Refused i e) (releasing reserve (.fail status)) x := by
  refine Safe.bind (safe_releaseIf at_x writer) fun _ y at_y => ?_
  exact ⟨at_y, reason⟩

/-- The steps of a write behind its layout: the block gets a place and is
written, and the index is pointed to it. -/
theorem safe_writeLayout {layout : RowBlockLayout} {sequence : Nat} {block : Bytes} (at_x : R.At i { pending := reserve } e x)
    (writer : i ∈ R.writers) (bytes : (layout.slices (R.row i).1).flatten = block)
    (complete : RowRecord.Complete R.H ⟨R.row i, rowHome R.H (R.row i) % R.count, sequence, R.content i, block⟩)
    (blockSize : layout.header.blockSize = block.length) (retries : Nat) {failed : Status → Shared ι → Prop} :
    R.SafeFor i (fun _ y => R.Returned i y) failed (writeLayout R.H retries (R.row i) sequence layout reserve) x := by
  obtain ⟨n, keySize, valueSize, slot, table⟩ := id complete.row
  have length := table.shape.length
  unfold writeLayout
  rw [Prog.bind_eq]
  refine SafeFor.keeping at_x writer (safe_shardForRow at_x.holds) fun shardId y₁ _ at₁ shard => ?_
  rw [shard, blockSize, bytes, Prog.bind_eq]
  set r : RowRecord := ⟨R.row i, rowHome R.H (R.row i) % R.count, sequence, R.content i, block⟩
  have inside : r.shardId < R.count := Nat.mod_lt _ R.positive
  refine Safe.bind (safe_appendFetchAdd at₁ writer (r := r) rfl rfl complete inside rfl rfl) ?_
  rintro offset y₂ ⟨t, at₂, placed⟩
  rw [Prog.bind_eq]
  refine Safe.bind (safe_writeBlock at₂ writer rfl placed (List.ne_nil_of_length_pos (by omega))).releasing ?_
  rintro _ y₃ ⟨at₃, placed₃⟩
  rw [Prog.bind_eq]
  have inserts : R.SafeFor i _ (fun _ _ => False) _ y₃ :=
    safe_insertOrUpdateRowBucket ⟨at₃, placed₃, rfl, rfl, rfl, rfl, rfl⟩ writer (placed₃.fits at₃.holds complete inside rfl) retries
  refine Safe.bind inserts.releasing fun inserted y₄ at₄ => ?_
  rw [Prog.bind_eq]
  refine Safe.bind (safe_countIf at₄ writer) fun _ y₅ at₅ => ?_
  refine Safe.mono (safe_releaseIf at₅ writer) (fun _ y at_y => ⟨t, _, at_y, rfl⟩) fun _ _ => id

theorem safe_writeRowStructs (at_x : R.At i {} e x) (writer : i ∈ R.writers) (built : (R.calls i).Entries R.rows entries)
    (retries : Nat) :
    R.SafeFor i (fun _ y => R.Returned i y) (R.Refused i e)
      (writeRowStructs R.H retries (R.row i).1 (R.row i).2 entries reserve) x := by
  have load : LoadFactorOk R.options.maxLoadFactor := R.loadFactor
  rw [writeRowStructs_eq]
  unfold prepareRow
  simp only [Prog.bind_eq, Prog.bind_assoc]
  refine SafeFor.keeping at_x writer safe_getMembers fun m y _ at_y members => ?_
  have options : m.options = R.options := by rw [members, at_y.holds.session.options]
  rw [if_neg (by rw [members, at_y.holds.session.isOpen]; decide), if_neg (by rw [members, at_y.holds.session.writable]; decide)]
  by_cases long : ¬ fitsUint32 (R.row i).1.length
  · rw [if_pos long]
    exact ⟨at_y, .unfit built (by decide) fun fits => long fits.column⟩
  rw [if_neg long]
  by_cases none : entries = []
  · rw [if_pos none]
    exact ⟨at_y, .unfit built (by decide) fun fits => fits.some none⟩
  rw [if_neg none, Prog.bind_assoc]
  refine Safe.bind (Safe.mono (safe_reserveIf at_y writer reserve retries) (fun _ _ => id) ?_) fun _ z at_z => ?_
  · rintro status z ⟨⟨full, crowded⟩, at_z⟩
    exact ⟨at_z, ⟨_, full⟩, fun _ => crowded, fun _ _ => full⟩
  rw [Prog.bind_assoc]
  refine Safe.bind (safe_nextRowSequence at_z writer) ?_
  rintro sequence z' ⟨at_z', numbered⟩
  rw [Prog.bind_assoc, options]
  have sized := R.sized i writer entries sequence
  rcases @buildRowBlockLayout_ends R.H (R.row i).1 (R.row i).2 sequence entries _ load with
    ⟨message, other, unfit, fails⟩ | overflows | ⟨n, e', t, slot, builds, power, small, placed⟩
  · rw [fails]
    exact Safe.bind (safe_releaseAndFail at_z' writer (.unfit built other unfit)) fun _ _ impossible => impossible
  · rw [overflows]
    exact trivial
  · rw [builds]
    obtain ⟨row, blockSize⟩ := layoutOf_block power small placed ((fitsUint32_iff _).mp (not_not.mp long)) (R.calls i).rowId_lt
      numbered (sized _ built builds)
    rw [built.content] at row
    exact safe_writeLayout at_z' writer rfl ⟨row, (fitsUint32_iff _).mp (not_not.mp long), (R.calls i).rowId_lt, numbered⟩
      blockSize retries

end Write

section Load
variable {en : RowEntry} {failed : Status → Shared ι → Prop}

/-- The bucket of a published row that only the call writes. -/
theorem safe_loadFilledRowBucketSnapshot {j : Nat} (holds : R.Holds x) (inside : j < R.n) (at_j : x.slot j = some (R.row i))
    (at_row : x.entry (R.row i) = some en) (retries : Nat) :
    R.SafeFor i (fun bucket y => R.Moves (· ≠ i) x y ∧ bucket = rowBucket R.H (R.row i) en.ref) failed
      (loadFilledRowBucketSnapshot j retries) x := by
  have own : R.Steady i (R.row i) := steady_of_hashes rfl rfl
  suffices from_x : ∀ {y : Shared ι}, R.Holds y → R.Moves (· ≠ i) x y →
      R.SafeFor i (fun bucket z => R.Moves (· ≠ i) x z ∧ bucket = rowBucket R.H (R.row i) en.ref) failed
        (loadFilledRowBucketSnapshot j retries) y from from_x holds (Moves.refl _ x)
  induction retries with
  | zero => exact fun _ _ => trivial
  | succ retries ih =>
    intro y holds_y moves
    rw [loadFilledRowBucketSnapshot, Prog.bind_eq]
    refine SafeFor.after (safe_loadRowBucketSnapshot holds_y inside) holds_y fun snapshot z moved holds_z seen => ?_
    replace moves := moves.trans moved
    have at_j := moves.kept _ _ at_j
    cases snapshot with
    | empty => cases at_j.symm.trans seen
    | writing => exact ih holds_z moves
    | filled bucket =>
      obtain ⟨k, points⟩ := seen
      cases Option.some.inj (at_j.symm.trans points.at_j)
      obtain ⟨e, at_k, rfl⟩ := points.exact_of own
      cases Option.some.inj (at_k.symm.trans (moves.steady own at_row))
      exact ⟨moves, rfl⟩

theorem safe_loadRowBlock (holds : R.Holds x) (at_row : x.entry (R.row i) = some en) :
    R.SafeFor i (fun block y => R.Moves (· ≠ i) x y ∧ block = en.block) failed
      (loadRowBlock (rowBucket R.H (R.row i) en.ref)) x := by
  have own : R.Steady i (R.row i) := steady_of_hashes rfl rfl
  have at_ref := holds.blockAt at_row
  unfold loadRowBlock
  rw [Prog.bind_eq]
  refine SafeFor.after safe_getMembers holds fun m y moves holds_y members => ?_
  rw [members, holds_y.session.shardCount,
    if_neg (show ¬ R.count ≤ (rowBucket R.H (R.row i) en.ref).shardId from Nat.not_le.mpr at_ref.shard)]
  have whole : R.SafeFor i (fun block z => R.Moves (· ≠ i) y z ∧ block = slice en.block 0 en.block.length) failed
      (readRowValueAt en.ref.shardId (en.ref.blockOffset + 0) en.block.length) y :=
    safe_readRowValueAt holds_y (moves.steady own at_row) own (by omega)
  rw [slice_self, Nat.add_zero, ← at_ref.size] at whole
  exact Safe.mono whole (fun _ _ read => ⟨moves.trans read.1, read.2⟩) fun _ _ => id

/-- What a write finds of its row: nothing, or the entries it holds. -/
def Loaded (R : Round ι) (i : ι) (y : Shared ι) : Option (List RowStructEntry) → Prop
  | none => ¬ Stored R.n y.slot (R.row i)
  | some entries => (entries.map StructEntry.key).Nodup ∧ ∃ e, y.entry (R.row i) = some e ∧ rowMap entries = e.content

theorem safe_loadRowEntries (holds : R.Holds x) (retries : Nat) :
    R.SafeFor i (fun stored y => R.Moves (· ≠ i) x y ∧ R.Loaded i y stored) failed
      (loadRowEntries R.H retries (R.row i).1 (R.row i).2 (R.H.hashString (R.row i).1)) x := by
  have own : R.Steady i (R.row i) := steady_of_hashes rfl rfl
  unfold loadRowEntries
  rw [Prog.bind_eq]
  refine SafeFor.after (safe_findRowBucket holds retries) holds fun lookup y moves holds_y looked => ?_
  unfold LookedUp at looked
  cases found : lookup.found with
  | false =>
    rw [found, if_neg (by decide)] at looked
    rw [if_pos (by decide)]
    exact ⟨moves, looked⟩
  | true =>
    rw [found, if_pos rfl] at looked
    obtain ⟨en, looked⟩ := looked
    rw [if_neg (by decide), Prog.bind_eq]
    refine SafeFor.after (safe_loadFilledRowBucketSnapshot holds_y looked.inside looked.at_index looked.entry retries) holds_y
      fun bucket z moved holds_z bucket_eq => ?_
    have at_z := moved.steady own looked.entry
    rw [bucket_eq, Prog.bind_eq]
    refine SafeFor.after (safe_loadRowBlock holds_z at_z) holds_z fun block z' moved' holds_z' block_eq => ?_
    obtain ⟨n, keySize, valueSize, slot, t⟩ := (holds_z.blockAt at_z).row
    obtain ⟨entries, decoded, nodup, same, _⟩ := @decodeRowBlockEntries_runs _ _ _ _ _ _ _ _ _ _ ({} : World) t
    rw [block_eq, Prog.bind_eq, (decodeRowBlockEntries_only _).eq_ret decoded]
    exact ⟨(moves.trans moved).trans moved', nodup, en, moved'.steady own at_z, same⟩

end Load

section Calls
variable [DecidableEq ι]

omit [DecidableEq ι] in
/-- The entries a write builds its block from are those of its row, changed as
the call says. -/
theorem Loaded.merged {column key value : Bytes} {rowId : UInt64} {stored : Option (List RowStructEntry)}
    (loaded : R.Loaded i y stored) (at_y : R.At i {} e y) (writer : i ∈ R.writers)
    (call : R.calls i = .putRowStruct column rowId key value) :
    (R.calls i).Entries R.rows (mergeEntry key value (stored.getD [])) := by
  have row : R.row i = (column, rowId.toNat) := by rw [Round.row, call]; rfl
  rw [call]
  cases stored with
  | none =>
    refine ⟨[], List.nodup_nil, ?_, rfl⟩
    have absent : R.rows (R.row i) = none := by
      by_contra present
      exact loaded (at_y.holds.indexed.kept _ ((R.stored _).mpr present))
    rw [← row, absent]
    rfl
  | some entries =>
    obtain ⟨nodup, en, at_row, same⟩ := loaded
    refine ⟨entries, nodup, ?_, rfl⟩
    rw [← row, at_y.holds.stored_before writer (by rw [at_y.progress]) at_row, same]
    rfl

theorem safe_putRowStruct {column key value : Bytes} {rowId : UInt64} (at_x : R.At i {} e x) (writer : i ∈ R.writers)
    (call : R.calls i = .putRowStruct column rowId key value) (retries : Nat) :
    R.SafeFor i (fun _ y => R.Returned i y) (R.Refused i e)
      (putRowStruct R.H retries (R.row i).1 (R.row i).2 key value) x := by
  unfold putRowStruct
  rw [Prog.bind_eq]
  refine SafeFor.keeping at_x writer safe_getMembers fun m y _ at_y members => ?_
  rw [if_neg (by rw [members, at_y.holds.session.isOpen]; decide), if_neg (by rw [members, at_y.holds.session.writable]; decide)]
  refine Safe.ite (fun _ => ⟨at_y, ⟨_, rfl⟩, fun same => absurd same (by decide), fun other => ?_⟩) fun _ => ?_
  · rw [call] at other
    cases other
  rw [Prog.bind_eq]
  refine SafeFor.keeping at_y writer (safe_loadRowEntries at_y.holds retries) fun stored z _ at_z loaded => ?_
  exact safe_writeRowStructs at_z writer (loaded.merged at_z writer call) retries

/-- How a call ends that began in `x`. -/
def Done (R : Round ι) (i : ι) (x : Shared ι) : RowCall → Option Bytes → Shared ι → Prop
  | .putRowStructs _ _ _, _, y => R.Returned i y
  | .putRowStruct _ _ _ _, _, y => R.Returned i y
  | .getRowStruct _ _ key, result, y => R.Moves (· ≠ i) x y ∧ ∃ value, result = some value ∧ R.ReadDone i key value y

def Failed (R : Round ι) (i : ι) (x : Shared ι) : RowCall → Status → Shared ι → Prop
  | .putRowStructs _ _ _, status, y => R.Refused i (x.entry (R.row i)) status y
  | .putRowStruct _ _ _ _, status, y => R.Refused i (x.entry (R.row i)) status y
  | .getRowStruct _ _ key, status, y => R.Moves (· ≠ i) x y ∧ R.ReadMissed i key x status y

/-- Every call is safe beside the others. -/
theorem safe_program {c : RowCall} (call : R.calls i = c) (holds : R.Holds x) (unbegun : i ∈ R.writers → x.progress i = {}) :
    R.SafeFor i (R.Done i x c) (R.Failed i x c) (c.program R.H R.retries) x := by
  have writes := R.writes i
  have column_eq : (R.row i).1 = c.row.1 := by rw [Round.row, call]
  have rowId_eq : (R.row i).2 = c.row.2 := by rw [Round.row, call]
  rw [call] at writes
  cases c with
  | putRowStructs column rowId entries =>
    have built : (R.calls i).Entries R.rows entries := by
      rw [call]
      rfl
    have safe : R.SafeFor i _ _ (writeRowStructs R.H R.retries (R.row i).1 (R.row i).2 entries true) x :=
      safe_writeRowStructs ⟨holds, unbegun (writes.mpr trivial), rfl⟩ (writes.mpr trivial) built R.retries
    rw [column_eq, rowId_eq] at safe
    exact Safe.bind safe fun _ y ended => ended
  | putRowStruct column rowId key value =>
    have safe := safe_putRowStruct ⟨holds, unbegun (writes.mpr trivial), rfl⟩ (writes.mpr trivial) call R.retries
    rw [column_eq, rowId_eq] at safe
    exact Safe.bind safe fun _ y ended => ended
  | getRowStruct column rowId key =>
    have safe := safe_getRowStruct (i := i) holds R.retries key
    rw [column_eq, rowId_eq] at safe
    exact Safe.bind safe fun value y ended => ⟨ended.1, value, rfl, ended.2⟩

end Calls

end Round

end LumoDB
