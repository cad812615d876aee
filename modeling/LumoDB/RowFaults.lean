import LumoDB.FailedAppend
import LumoDB.KilledRowRecovery
import LumoDB.ReadSteps

namespace LumoDB
open ByteCodec Effects LinearProbing

abbrev IsShard (file : FileId) : Prop := ∃ i, file = .rowShard i

/-- The steps of a machine on which only reads from the shard files and writes
to them can fail. -/
abbrev failingRows : Steps signature World := failing IsShard IsShard

/-- Operations that are no system call. -/
def Op.Internal : Op → Prop
  | .members | .setMembers _ | .load _ _ _ | .loadBytes _ _ _ | .store _ _ _ _ | .storeBytes _ _ _ | .cas _ _ _ _ _
  | .fetchAdd _ _ _ _ | .appendFetchAdd _ _ | .pendingLoad | .pendingCas _ _ | .pendingSub _ => True
  | _ => False

/-- An open database whose shard files may hold remains of failed writes
beside the blocks of the rows `m`. -/
structure Holed (H : HashFunctions) (objects : ObjectLog) (m : RowKey → Option RowMap) (w : World) (shards : Nat → Bytes)
    (b : Bytes) (n : Nat) (slot : Nat → Option RowKey) (ref : RowKey → BlockRef) : Prop where
  serving : Serving w
  directory : w.directory ≠ .other
  objects : ObjectStore H w objects
  store : ShardStore H w shards m b n slot ref
  behind : AppendsBehind w n slot ref
  headers : ∀ i < w.members.options.rowShardCount, BlockIn (shards i) 0 rowValueFileHeader.encode
  offsets : ∀ i < w.members.options.rowShardCount, 24 ≤ w.members.rowAppendOffsets i

/-- The indexed blocks hold the bytes they held. -/
def KeepsBlocks (shards shards' : Nat → Bytes) (n : Nat) (slot : Nat → Option RowKey) (ref : RowKey → BlockRef) : Prop :=
  ∀ k, Stored n slot k → slice (shards' (ref k).shardId) (ref k).blockOffset (ref k).blockSize =
    slice (shards (ref k).shardId) (ref k).blockOffset (ref k).blockSize

section Internal
variable {α β : Type} {o : Op} {p : Db α} {f : α → Db β} {w s t : World} {r : o.Resp} {a : α} {c : β} {e : Status}
  {H : HashFunctions} {reserve : Bool} {reads writes : FileId → Prop}

theorem Op.Internal.faulty (internal : o.Internal) (step : LumoDB.faulty o w r s) : system o w = some (r, s) := by
  rcases step with done | ⟨e, refused⟩ | cut
  · exact done
  · cases o <;> first | exact refused | exact internal.elim
  · cases o <;> first | exact cut.elim | exact internal.elim

theorem Op.Internal.sure (internal : o.Internal) : o.Sure reads writes := by
  cases o <;> first | exact trivial | exact internal.elim

theorem strict_of_internal (only : p.Only Op.Internal) : Strict p := by
  induction p with
  | op o k ih => exact ⟨fun w r s step => Or.inl (only.1.faulty step), fun r => ih r (only.2 r)⟩
  | _ => exact trivial

/-- What a program does before it reaches a shard file does not fail. -/
theorem finishes_after (internal : p.Only Op.Internal) (runs : Runs p w a s)
    (done : Finishes (failing reads writes) (p.bind f) w c t) : Finishes (failing reads writes) (f a) s c t := by
  obtain ⟨a', s', first, later⟩ := finishes_bind done
  obtain ⟨rfl, rfl⟩ := Runs.unique runs (runs_of_sure (internal.mono fun _ => Op.Internal.sure) first)
  exact later

theorem fails_after (internal : p.Only Op.Internal) (runs : Runs p w a s)
    (failed : Fails (failing reads writes) (p.bind f) w e t) : Fails (failing reads writes) (f a) s e t := by
  have sure : p.Only (Op.Sure reads writes) := internal.mono fun _ => Op.Internal.sure
  rcases fails_bind failed with early | ⟨a', s', first, later⟩
  · cases (error_of_sure sure early).symm.trans runs
  · obtain ⟨rfl, rfl⟩ := Runs.unique runs (runs_of_sure sure first)
    exact later

theorem internal_perform (internal : o.Internal) : (Prog.perform (S := signature) o : Db o.Resp).Only Op.Internal :=
  ⟨internal, fun _ => trivial⟩

theorem internal_releaseIf (reserve : Bool) : (releaseIf reserve).Only Op.Internal := .ite (internal_perform trivial) trivial

theorem internal_releasing (only : p.Only Op.Internal) : (releasing reserve p).Only Op.Internal :=
  .orElse only fun _ => .bind (internal_releaseIf reserve) fun _ => trivial

theorem internal_reserveIf (retries : Nat) : (reserveIf reserve retries).Only Op.Internal := by
  have loop : ∀ maxLoadFactor bucketCount, (reserveLoop maxLoadFactor bucketCount retries).Only Op.Internal := by
    intro maxLoadFactor bucketCount
    induction retries with
    | zero => exact trivial
    | succ retries ih =>
      exact .bind (internal_perform trivial) fun _ => .bind (internal_perform trivial) fun _ =>
        .ite trivial (.bind (internal_perform trivial) fun _ => .ite trivial ih)
  exact .ite (.bind (internal_perform trivial) fun _ => .bind (internal_perform trivial) fun _ => loop _ _) trivial

theorem internal_prepareRow (retries : Nat) (k : RowKey) (entries : List RowStructEntry) :
    (prepareRow H retries k entries reserve).Only Op.Internal :=
  .bind (internal_perform trivial) fun _ => .ite trivial (.ite trivial (.ite trivial (.ite trivial
    (.bind (internal_reserveIf retries) fun _ => .bind (internal_perform trivial) fun _ =>
      .bind (internal_releasing (buildRowBlockLayout_only _)) fun _ => trivial))))

theorem internal_shardForRow (columnHash rowId : Nat) : (shardForRow H columnHash rowId).Only Op.Internal :=
  .bind (internal_perform trivial) fun _ => trivial

theorem internal_publishRow (index expected : Nat) (data : RowBucketData) (inserted : Bool) :
    (publishRow index expected data inserted).Only Op.Internal :=
  .bind (internal_perform trivial) fun _ => .ite (.bind (.bind (internal_perform trivial) fun _ =>
    .bind (internal_perform trivial) fun _ => .bind (internal_perform trivial) fun _ => .bind (internal_perform trivial)
    fun _ => .bind (internal_perform trivial) fun _ => internal_perform trivial) fun _ =>
      .bind (internal_perform trivial) fun _ => trivial) trivial

end Internal

section Strict
variable {H : HashFunctions} {retries : Nat} {reserve : Bool}

/-- The readers of the row index stop at a failing read. -/
theorem strict_buckets (n rowCount : Nat) : ReadsBuckets (fun _ p => Strict p) n rowCount where
  toCompositional := compositional_strict _ _
  members := strict_of_internal (internal_perform trivial)
  loadValues _ _ := strict_of_internal (internal_perform trivial)
  readAllAt _ _ := strict_readAllAt _ _
  loadShard _ _ _ := strict_of_internal (internal_perform trivial)
  readShard _ _ _ := strict_readAllAt _ _
  load _ _ _ := strict_of_internal (internal_perform trivial)
  loadBytes _ _ _ := strict_of_internal (internal_perform trivial)
  loadRow _ _ _ := strict_of_internal (internal_perform trivial)

theorem strict_releasing {α : Type} {p : Db α} (strict : Strict p) : Strict (releasing reserve p) := by
  refine strict.orElse (fun e => ?_) fun e => strict_of_internal (.bind (internal_releaseIf reserve) fun _ => trivial)
  cases reserve with
  | false => exact trivial
  | true => exact fun _ => trivial

theorem strict_appendBlock (k : RowKey) (sequence : Nat) (layout : RowBlockLayout) :
    Strict (appendBlock H k sequence layout reserve) :=
  (strict_of_internal (internal_shardForRow _ _)).bind fun shardId =>
    (strict_of_internal (internal_perform (o := .appendFetchAdd shardId layout.header.blockSize) trivial)).bind fun _ =>
      (strict_releasing (strict_writeAllAt _ _)).bind fun _ => trivial

theorem strict_insertOrUpdatePass (column : Bytes) (data : RowBucketData) (mask start rounds probe : Nat) :
    Strict (insertOrUpdatePass column data mask start rounds probe) := by
  induction rounds generalizing probe with
  | zero => exact trivial
  | succ rounds ih =>
    refine ((strict_buckets 0 _).loadRowBucketSnapshot (Nat.lt_succ_self _)).bind fun snapshot => ?_
    cases snapshot with
    | empty => exact strict_of_internal (internal_publishRow _ _ _ _)
    | writing => exact trivial
    | filled bucket =>
      refine .ite (ih _) (((strict_buckets 0 0).rowBlockMatches _ _ _).bind fun matched => ?_)
      cases matched with
      | none => exact ih _
      | some h => exact strict_of_internal (internal_publishRow _ _ _ _)

theorem strict_insertOrUpdateRowBucket (column : Bytes) (data : RowBucketData) :
    Strict (insertOrUpdateRowBucket H column data retries) := by
  refine (strict_of_internal (internal_perform (o := .load .rowIndex 16 8) trivial)).bind fun bucketCount => ?_
  induction retries with
  | zero => exact trivial
  | succ retries ih =>
    refine (strict_insertOrUpdatePass _ _ _ _ _ _).bind fun result => ?_
    cases result with
    | none => exact ih
    | some inserted => exact trivial

theorem strict_pointRow (k : RowKey) (r : BlockRef) : Strict (pointRow H retries k reserve r) :=
  (strict_releasing (strict_insertOrUpdateRowBucket _ _)).bind fun _ => strict_of_internal
    (.bind (.ite (.bind (internal_perform trivial) fun _ => trivial) trivial) fun _ => internal_releaseIf reserve)

theorem strict_writeRowStructs (k : RowKey) (entries : List RowStructEntry) :
    Strict (writeRowStructs H retries k.1 k.2 entries reserve) := by
  rw [writeRowStructs_eq]
  refine (strict_of_internal (internal_prepareRow _ _ _)).bind fun prepared => ?_
  rw [writeLayout_eq]
  exact (strict_appendBlock _ _ _).bind fun _ => strict_pointRow _ _

theorem strict_putRowStruct (k : RowKey) (key flatBufferBytes : Bytes) :
    Strict (putRowStruct H retries k.1 k.2 key flatBufferBytes) :=
  (strict_of_internal (internal_perform (o := .members) trivial)).bind fun _ => .ite trivial (.ite trivial (.ite trivial
    ((loadRowEntries_of_reads strict_buckets H _ _ _ _).bind fun _ => strict_writeRowStructs k _)))

/-- A row write that returns Ok met no failing system call. -/
theorem strict_rowWrite {call : Call} (puts : call.PutsRow) : Strict (call.program H retries) := by
  cases call with
  | putRowStructs column rowId entries => exact strict_writeRowStructs (column, rowId.toNat) entries
  | putRowStruct column rowId key value => exact strict_putRowStruct (column, rowId.toNat) key value
  | _ => exact puts.elim

end Strict

section Unchanged
variable {α : Type} {o : Op} {p : Db α} {r : o.Resp} {s t : World} {a : α} {e : Status} {H : HashFunctions} {column : Bytes}
  {data : RowBucketData} {retries : Nat} {reads writes : FileId → Prop}

theorem failing_reads (only : o.Reads) (step : failing reads writes o s r t) : t = s := by
  rcases step with done | failed
  · exact system_reads only done
  · cases o with
    | readAt file offset size => exact failed.2.2
    | writeAt file offset data => exact only.elim
    | _ => exact failed.elim

theorem finishes_reads (only : p.Only Op.Reads) (done : Finishes (failing reads writes) p s a t) : t = s :=
  only.finishes_same (fun _ _ _ _ => failing_reads) done

theorem fails_reads (only : p.Only Op.Reads) (failed : Fails (failing reads writes) p s e t) : t = s :=
  only.fails_same (fun _ _ _ _ => failing_reads) failed

theorem unfailing_publishRow (index expected : Nat) (data : RowBucketData) (inserted : Bool) :
    (publishRow index expected data inserted).Unfailing := by
  intro claimed
  cases claimed with
  | false => exact trivial
  | true => exact fun _ _ _ _ _ _ _ => trivial

theorem cas_unclaimed {file : FileId} {offset width expected desired : Nat}
    (runs : Runs (.perform (S := signature) (.cas file offset width expected desired)) s false t) : t = s := by
  simp only [Runs, Prog.perform, run, system] at runs
  split at runs
  · rename_i claimed w' taken
    split at taken
    · split at taken
      · cases taken
        cases runs
      · cases taken
        cases runs
        rfl
    · cases taken
  · cases runs

/-- A bucket that could not be claimed is as it was. -/
theorem publishRow_retries {index expected : Nat} {inserted : Bool}
    (done : Finishes (failing reads writes) (publishRow index expected data inserted) s none t) : t = s := by
  have runs := runs_of_failing (strict_of_internal (internal_publishRow _ _ _ _)) done
  obtain ⟨claimed, s', first, later⟩ := Runs.split runs
  cases claimed with
  | true =>
    obtain ⟨_, _, _, later⟩ := Runs.split later
    obtain ⟨_, _, _, later⟩ := Runs.split later
    cases later
  | false =>
    cases later
    exact cas_unclaimed first

theorem insertOrUpdatePass_fails {mask start rounds probe : Nat}
    (failed : Fails (failing reads writes) (insertOrUpdatePass column data mask start rounds probe) s e t) : t = s := by
  induction rounds generalizing probe with
  | zero => exact failed.2.symm
  | succ rounds ih =>
    rcases fails_bind failed with early | ⟨snapshot, s', loaded, later⟩
    · exact fails_reads ((reads_buckets 0 _).loadRowBucketSnapshot (Nat.lt_succ_self _)) early
    obtain rfl := finishes_reads ((reads_buckets 0 _).loadRowBucketSnapshot (Nat.lt_succ_self _)) loaded
    cases snapshot with
    | empty => exact absurd later (unfailing_publishRow _ _ _ _).not_fails
    | writing => exact later.elim
    | filled bucket =>
      dsimp only at later
      split at later
      · exact ih later
      rcases fails_bind later with early | ⟨matched, s'', read, later⟩
      · exact fails_reads ((reads_buckets 0 0).rowBlockMatches _ _ _) early
      obtain rfl := finishes_reads ((reads_buckets 0 0).rowBlockMatches _ _ _) read
      cases matched with
      | none => exact ih later
      | some h => exact absurd later (unfailing_publishRow _ _ _ _).not_fails

theorem insertOrUpdatePass_retries {mask start rounds probe : Nat}
    (done : Finishes (failing reads writes) (insertOrUpdatePass column data mask start rounds probe) s none t) : t = s := by
  induction rounds generalizing probe with
  | zero => exact done.elim
  | succ rounds ih =>
    obtain ⟨snapshot, s', loaded, later⟩ := finishes_bind done
    obtain rfl := finishes_reads ((reads_buckets 0 _).loadRowBucketSnapshot (Nat.lt_succ_self _)) loaded
    cases snapshot with
    | empty => exact publishRow_retries later
    | writing => exact later.2.symm
    | filled bucket =>
      dsimp only at later
      split at later
      · exact ih later
      obtain ⟨matched, s'', read, later⟩ := finishes_bind later
      obtain rfl := finishes_reads ((reads_buckets 0 0).rowBlockMatches _ _ _) read
      cases matched with
      | none => exact ih later
      | some h => exact publishRow_retries later

/-- The row index is as it was when `InsertOrUpdateRowBucket` returns an
error. -/
theorem insertOrUpdateRowBucket_fails
    (failed : Fails (failing reads writes) (insertOrUpdateRowBucket H column data retries) s e t) : t = s := by
  rcases fails_bind failed with early | ⟨bucketCount, s', loaded, later⟩
  · exact fails_reads (reads_load _ _ _) early
  obtain rfl := finishes_reads (reads_load _ _ _) loaded
  clear failed loaded
  induction retries with
  | zero => exact later.elim
  | succ retries ih =>
    rcases fails_bind later with early | ⟨result, s'', passed, rest⟩
    · exact insertOrUpdatePass_fails early
    cases result with
    | none =>
      rw [insertOrUpdatePass_retries passed] at rest
      exact ih rest
    | some inserted => exact rest.elim

end Unchanged

section Steps
variable {H : HashFunctions} {objects : ObjectLog} {w w' : World} {n n' sequence offset shardId : Nat}
  {m m' : RowKey → Option RowMap} {shards shards' : Nat → Bytes} {b b' b₁ : Bytes} {slot slot' : Nat → Option RowKey}
  {ref ref' : RowKey → BlockRef} {k : RowKey} {layout : RowBlockLayout} {reserve : Bool} {e : Status}

theorem Holed.step (holed : Holed H objects m w shards b n slot ref) (step : RowStep w w')
    (store : ShardStore H w' shards' m' b' n' slot' ref') (behind : AppendsBehind w' n' slot' ref')
    (headers : ∀ i < w.members.options.rowShardCount, BlockIn (shards' i) 0 rowValueFileHeader.encode)
    (offsets : ∀ i < w.members.options.rowShardCount, 24 ≤ w'.members.rowAppendOffsets i) :
    Holed H objects m' w' shards' b' n' slot' ref' where
  serving := holed.serving.rowStep step
  directory := by rw [step.directory]; exact holed.directory
  objects := holed.objects.rowStep step
  store := store
  behind := behind
  headers := by rw [step.options]; exact headers
  offsets := by rw [step.options]; exact offsets

/-- A call that took a sequence number and failed then. -/
theorem Holed.numbered (holed : Holed H objects m w shards b n slot ref) (reserve : Bool)
    (table : RowTable H b' n w.members.options.rowShardCount slot ref) :
    Holed H objects m (((w.reserved reserve).withMapped .rowIndex b').released reserve) shards b' n slot ref := by
  refine holed.step (RowStep.reindex w reserve b') (holed.store.reindex reserve table) ?_ holed.headers ?_
  · cases reserve <;> exact holed.behind
  · cases reserve <;> exact holed.offsets

/-- The write of a block that fails has moved the append offset, and may have
stored a part of the block. -/
theorem appendBlock_fails (store : ShardStore H w shards m b n slot ref)
    (shard : shardId = rowHome H k % w.members.options.rowShardCount) (at_offset : w.members.rowAppendOffsets shardId = offset)
    (small : offset < 2 ^ 64)
    (failed : Fails failingRows (appendBlock H k sequence layout reserve) ((w.reserved reserve).withMapped .rowIndex b₁) e w') :
    ∃ shard', w' = ((w.appended reserve shardId layout.header.blockSize shard').withMapped .rowIndex b₁).released reserve ∧
      shard'.length < 2 ^ 63 ∧ (shard' = shards shardId ∨ ∃ part, shard' = patch (shards shardId) offset part) := by
  have found := shardForRow_runs store k reserve b₁
  rw [← shard] at found
  have fetched := appendFetchAdd_runs w reserve shardId layout.header.blockSize b₁
  rw [at_offset] at fetched
  have inside : shardId < w.members.options.rowShardCount := shard ▸ Nat.mod_lt _ store.positive
  have content := (World.placed_disk w reserve shardId shardId layout.header.blockSize b₁).trans (store.reads.content shardId inside)
  unfold appendBlock at failed
  replace failed := fails_after (internal_shardForRow _ _) found failed
  replace failed := fails_after (internal_perform (o := .appendFetchAdd _ _) trivial) fetched failed
  rcases fails_bind failed with early | ⟨_, _, _, other⟩
  · obtain ⟨d, w₁, writes, handled⟩ := fails_orElse early
    have left := writeAllAt_fails content writes
    rw [u64_of_lt small] at left
    obtain ⟨shard', same, short, patched⟩ : ∃ shard', w₁ = (w.placed reserve shardId layout.header.blockSize b₁).setFile
        (.rowShard shardId) (some shard') ∧ shard'.length < 2 ^ 63 ∧
        (shard' = shards shardId ∨ ∃ part, shard' = patch (shards shardId) offset part) := by
      have whole := store.reads.small shardId inside
      rcases left with rfl | ⟨amount, _, within, fits, rfl⟩
      · refine ⟨shards shardId, ?_, whole, Or.inl rfl⟩
        rw [World.setFile, ← content, Function.update_eq_self]
      · refine ⟨_, rfl, ?_, Or.inr ⟨_, rfl⟩⟩
        rw [patch_length, List.length_take]
        omega
    rw [World.placed_setFile] at same
    refine ⟨shard', ?_, short, patched⟩
    have released : Runs (releaseIf reserve) w₁ () (w₁.released reserve) := releaseIf_runs fun given => by
      rw [same]
      subst given
      rfl
    obtain ⟨_, last⟩ := fails_after (internal_releaseIf reserve) released handled
    rw [← last, same]
  · exact other.elim

/-- The index is as it was when the block could not be pointed to, and the
reservation is given back. -/
theorem pointRow_fails {retries : Nat} {r : BlockRef} {s : World}
    (pending : reserve = true → s.members.rowPendingInsertCount = 1)
    (failed : Fails failingRows (pointRow H retries k reserve r) s e w') : w' = s.released reserve := by
  rcases fails_bind failed with early | ⟨inserted, s', _, later⟩
  · obtain ⟨d, s', first, handled⟩ := fails_orElse early
    obtain rfl := insertOrUpdateRowBucket_fails first
    obtain ⟨_, last⟩ := fails_after (internal_releaseIf reserve) (releaseIf_runs pending) handled
    exact last.symm
  · have unfailing : (countIf inserted >>= fun _ => releaseIf reserve).Unfailing := by
      cases inserted <;> cases reserve <;> repeat first | exact trivial | intro
    exact absurd later unfailing.not_fails

theorem World.appended_offsets (w : World) (reserve : Bool) (shardId amount : Nat) (shard b : Bytes) :
    (((w.appended reserve shardId amount shard).withMapped .rowIndex b).released reserve).members.rowAppendOffsets =
      Function.update w.members.rowAppendOffsets shardId (u64 (w.members.rowAppendOffsets shardId + amount)) := by
  cases reserve <;> rfl

/-- A store to a shard file behind its append offset, whole or not, that moved
the offset. -/
theorem Holed.appended {amount : Nat} {shard : Bytes} (holed : Holed H objects m w shards b n slot ref) (reserve : Bool)
    (inside : shardId < w.members.options.rowShardCount) (fits : w.members.rowAppendOffsets shardId + amount < 2 ^ 64)
    (small : shard.length < 2 ^ 63)
    (stored : shard = shards shardId ∨ ∃ part, shard = patch (shards shardId) (w.members.rowAppendOffsets shardId) part)
    (table : RowTable H b' n w.members.options.rowShardCount slot' ref')
    (represents : RowRepresents H (Function.update shards shardId shard) w.members.options.rowShardCount n slot' ref' m')
    (behind : ∀ k, Stored n slot' k → (ref' k).shardId = shardId ∧
        (ref' k).blockOffset + (ref' k).blockSize = w.members.rowAppendOffsets shardId + amount ∨
      Stored n slot k ∧ ref' k = ref k) :
    Holed H objects m' (((w.appended reserve shardId amount shard).withMapped .rowIndex b').released reserve)
      (Function.update shards shardId shard) b' n slot' ref' := by
  have offsets := World.appended_offsets w reserve shardId amount shard b'
  rw [u64_of_lt fits] at offsets
  refine holed.step (RowStep.append inside reserve amount shard b')
    (holed.store.append reserve amount small table represents) (fun k at_k => ?_) (fun i below => ?_) fun i below => ?_
  · rw [offsets]
    rcases behind k at_k with ⟨here, ends⟩ | ⟨old, same⟩
    · rw [here, Function.update_self, ends]
    · have ends := holed.behind k old
      rw [same]
      by_cases here : (ref k).shardId = shardId
      · rw [here] at ends ⊢
        rw [Function.update_self]
        omega
      · rwa [Function.update_of_ne here]
  · by_cases here : i = shardId
    · subst here
      rw [Function.update_self]
      rcases stored with rfl | ⟨part, rfl⟩
      · exact holed.headers i below
      · exact (holed.headers i below).patch part (by rw [rowHeader_length]; have := holed.offsets i below; omega)
    · rw [Function.update_of_ne here]
      exact holed.headers i below
  · rw [offsets]
    by_cases here : i = shardId
    · rw [here, Function.update_self]
      have := holed.offsets shardId inside
      omega
    · rw [Function.update_of_ne here]
      exact holed.offsets i below

/-- The indexed blocks are as they were after a store behind the append
offset. -/
theorem Holed.keeps {shard : Bytes} (holed : Holed H objects m w shards b n slot ref)
    (stored : shard = shards shardId ∨ ∃ part, shard = patch (shards shardId) (w.members.rowAppendOffsets shardId) part) :
    RowRepresents H (Function.update shards shardId shard) w.members.options.rowShardCount n slot ref m := by
  refine holed.store.represents.keep fun k old block size located => ?_
  by_cases here : (ref k).shardId = shardId
  · have ends := holed.behind k old
    rw [here] at ends located ⊢
    rw [Function.update_self]
    rcases stored with rfl | ⟨part, rfl⟩
    · exact located
    · exact located.patch part (by omega)
  · rwa [Function.update_of_ne here]

theorem Holed.keepsBlocks {shard : Bytes} (holed : Holed H objects m w shards b n slot ref)
    (stored : shard = shards shardId ∨ ∃ part, shard = patch (shards shardId) (w.members.rowAppendOffsets shardId) part) :
    KeepsBlocks shards (Function.update shards shardId shard) n slot ref := by
  intro k at_k
  by_cases here : (ref k).shardId = shardId
  · obtain ⟨i, below, at_i⟩ := at_k
    obtain ⟨_, block, _, at_ref⟩ := holed.store.represents.located below at_i
    have inside := at_ref.located.inside
    have ends := holed.behind k ⟨i, below, at_i⟩
    rw [at_ref.size] at ends ⊢
    rw [here] at ends inside ⊢
    rw [Function.update_self]
    rcases stored with rfl | ⟨part, rfl⟩
    · rfl
    · exact slice_patch_before ends inside
  · rw [Function.update_of_ne here]

theorem Holed.patched_small {data : Bytes} (holed : Holed H objects m w shards b n slot ref)
    (inside : shardId < w.members.options.rowShardCount) (fits : w.members.rowAppendOffsets shardId + data.length < 2 ^ 63) :
    (patch (shards shardId) (w.members.rowAppendOffsets shardId) data).length < 2 ^ 63 := by
  have whole := holed.store.reads.small shardId inside
  rw [patch_length]
  omega

end Steps

section Writes
variable {H : HashFunctions} {objects : ObjectLog} {w w' : World} {n retries : Nat} {m : RowKey → Option RowMap}
  {shards : Nat → Bytes} {b : Bytes} {slot : Nat → Option RowKey} {ref : RowKey → BlockRef} {k : RowKey} {reserve : Bool}
  {entries : List RowStructEntry} {e : Status}

/-- The state of a write whose block has its place: the block and what it takes
to store it. -/
structure Placing (H : HashFunctions) (w : World) (b₁ : Bytes) (n : Nat) (slot : Nat → Option RowKey) (ref : RowKey → BlockRef)
    (k : RowKey) (entries : List RowStructEntry) (sequence : Nat) (layout : RowBlockLayout) : Prop where
  table : RowTable H b₁ n w.members.options.rowShardCount slot ref
  row : RowBlock H k.1 k.2 sequence (rowMap entries) (layout.slices k.1).flatten
  size : layout.header.blockSize = (layout.slices k.1).flatten.length
  fits : w.members.rowAppendOffsets (rowHome H k % w.members.options.rowShardCount) + (layout.slices k.1).flatten.length < 2 ^ 63
  numbered : sequence < 2 ^ 64
  room : ¬ Stored n slot k → filled n slot + 1 < n

theorem Placing.nonempty {b₁ : Bytes} {sequence : Nat} {layout : RowBlockLayout}
    (placing : Placing H w b₁ n slot ref k entries sequence layout) : (layout.slices k.1).flatten ≠ [] := by
  obtain ⟨_, _, _, _, shape⟩ := placing.row
  have long := shape.shape.length
  exact List.ne_nil_of_length_pos (by omega)

theorem Holed.placing (holed : Holed H objects m w shards b n slot ref) (rowId : k.2 < 2 ^ 64)
    (stored : reserve = false → m k ≠ none) (bounded : Bounded (writeRowStructs H (retries + 1) k.1 k.2 entries reserve) w)
    {s : World} {p : Nat × RowBlockLayout} (prepares : Runs (prepareRow H (retries + 1) k entries reserve) w p s) :
    ∃ b₁, s = (w.reserved reserve).withMapped .rowIndex b₁ ∧ Placing H w b₁ n slot ref k entries p.1 p.2 := by
  have prepared := prepareRow_cases entries holed.store holed.serving stored retries
  rw [writeRowStructs_eq] at bounded
  replace bounded := bounded.rest prepares
  rw [prepares] at prepared
  cases prepared with
  | @built n' e t kslot power small placed column room =>
    have found := shardForRow_runs holed.store k reserve (setRowSequence b (rowSequence b + 1))
    have fetched := appendFetchAdd_runs w reserve (rowHome H k % w.members.options.rowShardCount)
      (layoutOf H k.1 k.2 (rowSequence b) n' entries t).header.blockSize (setRowSequence b (rowSequence b + 1))
    have fits := Bounded.writeAllAt (Bounded.releasing ((bounded.rest found).rest fetched).first)
    obtain ⟨row, size⟩ := layoutOf_block power small placed column rowId (rowSequence_lt b)
      ((Nat.le_add_left _ _).trans_lt fits)
    exact ⟨_, rfl, holed.store.table.setSequence _, row, size, fits, rowSequence_lt b, room⟩

/-- A block that has its place is stored there, and the index is pointed to it. -/
theorem Holed.repoints {b₁ : Bytes} {sequence : Nat} {layout : RowBlockLayout} (holed : Holed H objects m w shards b n slot ref)
    (rowId : k.2 < 2 ^ 64) (placing : Placing H w b₁ n slot ref k entries sequence layout) (reserve : Bool) (retries : Nat) :
    ∃ b' slot' ref' r s, Runs (appendBlock H k sequence layout reserve) ((w.reserved reserve).withMapped .rowIndex b₁) r s ∧
      Runs (pointRow H (retries + 1) k reserve r) s () (((w.appended reserve (rowHome H k % w.members.options.rowShardCount)
        (layout.slices k.1).flatten.length (patch (shards (rowHome H k % w.members.options.rowShardCount))
          (w.members.rowAppendOffsets (rowHome H k % w.members.options.rowShardCount)) (layout.slices k.1).flatten)).withMapped
            .rowIndex b').released reserve) ∧
      Repointed H (Function.update shards (rowHome H k % w.members.options.rowShardCount)
        (patch (shards (rowHome H k % w.members.options.rowShardCount))
          (w.members.rowAppendOffsets (rowHome H k % w.members.options.rowShardCount)) (layout.slices k.1).flatten))
        w.members.options.rowShardCount n m b₁ slot ref k ⟨rowHome H k % w.members.options.rowShardCount,
          w.members.rowAppendOffsets (rowHome H k % w.members.options.rowShardCount), (layout.slices k.1).flatten.length, sequence⟩
        (rowMap entries) b' slot' ref' := by
  obtain ⟨b', slot', ref', runs, repointed⟩ := holed.store.writeLayout_runs reserve k placing.table rfl rfl rfl placing.row
    placing.size placing.fits placing.numbered rowId (fun k' at_k here => here ▸ holed.behind k' at_k) placing.room retries
  rw [writeLayout_eq] at runs
  obtain ⟨r, s, appends, points⟩ := Runs.split runs
  exact ⟨b', slot', ref', r, s, appends, points, repointed⟩

/-- A write that returns Ok sets the row to its entries. -/
theorem Holed.written (holed : Holed H objects m w shards b n slot ref) (rowId : k.2 < 2 ^ 64)
    (stored : reserve = false → m k ≠ none) (bounded : Bounded (writeRowStructs H (retries + 1) k.1 k.2 entries reserve) w)
    (runs : Runs (writeRowStructs H (retries + 1) k.1 k.2 entries reserve) w () w') :
    ∃ shards' b' slot' ref', Holed H objects (Function.update m k (some (rowMap entries))) w' shards' b' n slot' ref' ∧
      RowStep w w' := by
  rw [writeRowStructs_eq] at runs
  obtain ⟨⟨sequence, layout⟩, s, prepares, writes⟩ := Runs.split runs
  obtain ⟨b₁, rfl, placing⟩ := holed.placing rowId stored bounded prepares
  set shardId := rowHome H k % w.members.options.rowShardCount with shard_eq
  have inside : shardId < w.members.options.rowShardCount := Nat.mod_lt _ holed.store.positive
  have fits : w.members.rowAppendOffsets shardId + (layout.slices k.1).flatten.length < 2 ^ 63 := placing.fits
  obtain ⟨b', slot', ref', r, s, appends, points, repointed⟩ := holed.repoints rowId placing reserve retries
  rw [writeLayout_eq] at writes
  obtain ⟨_, rfl⟩ := Runs.unique writes (appends.bind.trans points)
  refine ⟨_, b', slot', ref', holed.appended reserve inside (fits.trans (by decide)) (holed.patched_small inside fits)
    (Or.inr ⟨_, rfl⟩) repointed.table repointed.represents fun k' at_k => ?_, RowStep.append inside reserve _ _ b'⟩
  rcases repointed.others k' at_k with ⟨rfl, new⟩ | old
  · rw [new]
    exact Or.inl ⟨rfl, rfl⟩
  · exact Or.inr old

/-- A write that fails leaves the rows and their blocks. -/
theorem Holed.failed (holed : Holed H objects m w shards b n slot ref) (rowId : k.2 < 2 ^ 64)
    (stored : reserve = false → m k ≠ none) (bounded : Bounded (writeRowStructs H (retries + 1) k.1 k.2 entries reserve) w)
    (fails : Fails failingRows (writeRowStructs H (retries + 1) k.1 k.2 entries reserve) w e w') :
    ∃ shards' b', Holed H objects m w' shards' b' n slot ref ∧ RowStep w w' ∧ KeepsBlocks shards shards' n slot ref := by
  have sure : (prepareRow H (retries + 1) k entries reserve).Only (Op.Sure IsShard IsShard) :=
    (internal_prepareRow _ _ _).mono fun _ => Op.Internal.sure
  rw [writeRowStructs_eq] at fails
  rcases fails_bind fails with early | ⟨⟨sequence, layout⟩, s, prepares, fails⟩
  · have prepared := prepareRow_cases entries holed.store holed.serving stored retries
    rw [error_of_sure sure early] at prepared
    cases prepared with
    | refused => exact ⟨shards, b, holed, .refl w, fun _ _ => rfl⟩
    | unbuilt => exact ⟨shards, _, holed.numbered reserve (holed.store.table.setSequence _), .reindex w reserve _, fun _ _ => rfl⟩
  obtain ⟨b₁, rfl, placing⟩ := holed.placing rowId stored bounded (runs_of_sure sure prepares)
  set shardId := rowHome H k % w.members.options.rowShardCount with shard_eq
  have inside : shardId < w.members.options.rowShardCount := Nat.mod_lt _ holed.store.positive
  have fits : w.members.rowAppendOffsets shardId + (layout.slices k.1).flatten.length < 2 ^ 63 := placing.fits
  have leaves : ∀ shard : Bytes, shard.length < 2 ^ 63 →
      (shard = shards shardId ∨ ∃ part, shard = patch (shards shardId) (w.members.rowAppendOffsets shardId) part) →
      w' = ((w.appended reserve shardId layout.header.blockSize shard).withMapped .rowIndex b₁).released reserve →
      ∃ shards' b', Holed H objects m w' shards' b' n slot ref ∧ RowStep w w' ∧ KeepsBlocks shards shards' n slot ref := by
    rintro shard small left rfl
    rw [placing.size]
    exact ⟨_, b₁, holed.appended reserve inside (fits.trans (by decide)) small left placing.table (holed.keeps left)
      fun k' at_k => Or.inr ⟨at_k, rfl⟩, RowStep.append inside reserve _ _ b₁, holed.keepsBlocks left⟩
  rw [writeLayout_eq] at fails
  rcases fails_bind fails with early | ⟨r, s, appends, points⟩
  · obtain ⟨shard, same, small, left⟩ := appendBlock_fails holed.store shard_eq rfl (by omega) early
    exact leaves shard small left same
  -- the block is whole, and the index was not pointed to it
  · have appended := appendBlock_runs reserve b₁ sequence holed.store k shard_eq rfl rfl placing.nonempty fits
    obtain ⟨rfl, rfl⟩ := Runs.unique (runs_of_failing (strict_appendBlock _ _ _) appends) appended
    refine leaves _ (holed.patched_small inside fits) (Or.inr ⟨_, rfl⟩) (pointRow_fails (fun given => ?_) points)
    subst given
    rfl

end Writes


section Calls
variable {H : HashFunctions} {objects : ObjectLog} {w w' : World} {n retries : Nat} {m : RowKey → Option RowMap}
  {shards : Nat → Bytes} {b : Bytes} {slot : Nat → Option RowKey} {ref : RowKey → BlockRef} {k : RowKey}
  {key value : Bytes} {call : Call} {e : Status}

/-- `PutRowStruct` finds the entries that its row has. -/
theorem Holed.loads (holed : Holed H objects m w shards b n slot ref) (k : RowKey) (key value : Bytes) (retries : Nat) :
    ∃ found, Runs (loadRowEntries H (retries + 1) k.1 k.2 (H.hashString k.1)) w found w ∧
      (found.isNone = false → m k ≠ none) ∧
      rowMap (mergeEntry key value (found.getD [])) = Function.update ((m k).getD fun _ => none) key (some value) := by
  obtain ⟨onAbsent, onStored⟩ := holed.store.view.loadRowEntries k retries
  cases held : m k with
  | none => exact ⟨none, onAbsent held, nofun, rowMap_mergeEntry List.nodup_nil⟩
  | some content =>
    obtain ⟨entries, loaded, nodup, same⟩ := onStored content held
    refine ⟨some entries, loaded, fun _ => Option.some_ne_none content, ?_⟩
    rw [Option.getD_some, Option.getD_some, rowMap_mergeEntry nodup, same]

/-- `PutRowStruct` on an open database is the loading of the row and a write of
its entries, or it is refused. -/
theorem putRowStruct_split (retries : Nat) (k : RowKey) (key value : Bytes) :
    ∃ steps, putRowStruct H retries k.1 k.2 key value = getMembers.bind steps ∧
      ∀ m : Members, m.isOpen = true → m.readOnly = false → (∃ status, steps m = .fail status) ∨
        steps m = (loadRowEntries H retries k.1 k.2 (H.hashString k.1)).bind fun found =>
          writeRowStructs H retries k.1 k.2 (mergeEntry key value (found.getD [])) found.isNone := by
  refine ⟨_, rfl, fun m isOpen writable => ?_⟩
  rw [if_neg (by rw [isOpen]; decide), if_neg (by rw [writable]; decide)]
  split
  · exact Or.inl ⟨_, rfl⟩
  · exact Or.inr rfl

/-- A row write that returns Ok does to the rows what the call says. -/
theorem Holed.put (holed : Holed H objects m w shards b n slot ref) (puts : call.PutsRow)
    (bounded : Bounded (call.program H (retries + 1)) w) (done : Finishes failingRows (call.program H (retries + 1)) w () w') :
    ∃ shards' b' slot' ref', Holed H objects (call.apply m) w' shards' b' n slot' ref' ∧ RowStep w w' := by
  have runs := runs_of_failing (strict_rowWrite puts) done
  cases call with
  | putRowStructs column rowId entries =>
    exact holed.written (k := (column, rowId.toNat)) rowId.toNat_lt (fun given : true = false => nomatch given) bounded runs
  | putRowStruct column rowId key value =>
    obtain ⟨found, loaded, stored, same⟩ := holed.loads (column, rowId.toNat) key value retries
    obtain ⟨steps, split, chosen⟩ := @putRowStruct_split H (retries + 1) (column, rowId.toNat) key value
    simp only [Call.program, split] at bounded runs
    replace bounded := bounded.rest (getMembers_runs w)
    replace runs := (getMembers_runs w).bind.symm.trans runs
    rcases chosen w.members holed.serving.isOpen holed.serving.writable with ⟨status, refused⟩ | accepted
    · rw [refused] at runs
      cases runs
    · rw [accepted] at bounded runs
      have written := holed.written rowId.toNat_lt stored (bounded.rest loaded) (loaded.bind.symm.trans runs)
      rwa [same] at written
  | _ => exact puts.elim

/-- One that returns an error leaves the rows. -/
theorem Holed.fails (holed : Holed H objects m w shards b n slot ref) (puts : call.PutsRow)
    (bounded : Bounded (call.program H (retries + 1)) w) (fails : Fails failingRows (call.program H (retries + 1)) w e w') :
    ∃ shards' b', Holed H objects m w' shards' b' n slot ref ∧ RowStep w w' ∧ KeepsBlocks shards shards' n slot ref := by
  cases call with
  | putRowStructs column rowId entries =>
    exact holed.failed (k := (column, rowId.toNat)) rowId.toNat_lt (fun given : true = false => nomatch given) bounded fails
  | putRowStruct column rowId key value =>
    obtain ⟨found, loaded, stored, _⟩ := holed.loads (column, rowId.toNat) key value retries
    obtain ⟨steps, split, chosen⟩ := @putRowStruct_split H (retries + 1) (column, rowId.toNat) key value
    simp only [Call.program, split] at bounded fails
    replace bounded := bounded.rest (getMembers_runs w)
    replace fails := fails_after (internal_perform (o := .members) trivial) (getMembers_runs w) fails
    rcases chosen w.members holed.serving.isOpen holed.serving.writable with ⟨status, refused⟩ | accepted
    · rw [refused] at fails
      obtain ⟨_, rfl⟩ := fails
      exact ⟨shards, b, holed, .refl w, fun _ _ => rfl⟩
    · rw [accepted] at bounded fails
      rcases fails_bind fails with early | ⟨found', s, read, fails⟩
      · obtain rfl := fails_reads (reads_loadRowEntries H column rowId.toNat (retries + 1)) early
        exact ⟨shards, b, holed, .refl _, fun _ _ => rfl⟩
      obtain ⟨rfl, rfl⟩ := Runs.unique loaded (runs_of_failing (loadRowEntries_of_reads strict_buckets H _ _ _ _) read)
      exact holed.failed rowId.toNat_lt stored (bounded.rest loaded) fails
  | _ => exact puts.elim

end Calls


section Opens
variable {H : HashFunctions} {objects : ObjectLog} {w w' : World} {n retries : Nat} {m : RowKey → Option RowMap}
  {shards : Nat → Bytes} {b : Bytes} {slot : Nat → Option RowKey} {ref : RowKey → BlockRef} {options : DatabaseOptions}

theorem rowHeader_in_shardBytes (log : RowLog) (i : Nat) : BlockIn (shardBytes log i) 0 rowValueFileHeader.encode where
  inside := by rw [shardBytes, List.length_append]; omega
  bytes := by rw [shardBytes, slice_append_left (by omega), slice_self]

theorem hasHeader_of_in {shard : Bytes} (header : BlockIn shard 0 rowValueFileHeader.encode) :
    HasHeader kRowValueFileMagic shard := by
  obtain ⟨long, bytes⟩ := header
  have decoded := slice_rowHeader []
  rw [List.append_nil, ← rowHeader_length, slice_self] at decoded
  rw [rowHeader_length] at long bytes
  refine ⟨by omega, ?_⟩
  rw [bytes, decoded]
  rfl

/-- Open row files whose shards begin with the header. -/
theorem RowsOpen.holed {x : Bytes} {count : Nat} (rows : RowsOpen H w w' shards count m x n slot ref) (serving : Serving w')
    (directory : w'.directory ≠ .other) (store : ObjectStore H w' objects)
    (headers : ∀ i < count, BlockIn (shards i) 0 rowValueFileHeader.encode) : Holed H objects m w' shards x n slot ref := by
  have counted := rows.counted
  refine ⟨serving, directory, store, rows.store, fun k stored => ?_, by rw [counted]; exact headers, fun i below => ?_⟩
  · obtain ⟨i, below, at_i⟩ := stored
    obtain ⟨_, block, _, at_ref⟩ := rows.store.represents.located below at_i
    rw [rows.offsets _ (counted ▸ at_ref.shard), at_ref.size]
    exact at_ref.located.inside
  · rw [counted] at below
    have long := (headers i below).inside
    rw [rowHeader_length] at long
    rw [rows.offsets i below]
    omega

/-- A database no write has failed on. -/
theorem Active.holed {s : RowState} (active : Active H w objects s) :
    ∃ shards b n slot ref, Holed H objects (putRows noRows s.live) w shards b n slot ref := by
  obtain ⟨b, n, slot, ref, files⟩ := active.rows
  refine ⟨shardBytes s.live, b, n, slot, ref, active.serving, active.directory, active.objects, files.shardStore,
    files.appendsBehind, fun i _ => rowHeader_in_shardBytes _ _, fun i below => ?_⟩
  have long := (rowHeader_in_shardBytes s.live i).inside
  rw [rowHeader_length] at long
  rw [files.appendOffsets i below]
  omega

/-- Failed writes do not keep the database from closing. -/
theorem Holed.close_runs (holed : Holed H objects m w shards b n slot ref) : Runs close w () w.shut := by
  obtain ⟨_, _, _, _, files⟩ := holed.objects
  exact close_runs_of_flush holed.serving.isOpen (flush_runs_of_mapped holed.serving.writable files.mapped holed.store.mapped)

/-- The object files a session leaves. -/
theorem Holed.left (holed : Holed H objects m w shards b n slot ref) :
    ValuesOnDisk w.shut objects ∧ (valueFileBytes objects).length < 2 ^ 63 ∧ (∀ r ∈ objects, r.1.Fits) ∧
      IndexOnDisk H w.shut objects := by
  obtain ⟨b', n', slot', off, files⟩ := holed.objects
  refine ⟨Or.inl files.content, files.small, files.fits, fun held present => ?_⟩
  obtain rfl : held = b' := Option.some.inj (present.symm.trans files.index)
  exact Or.inr ⟨n', slot', off, files.table, files.represents⟩

/-- With the same shard count the next session finds the rows again, whatever is
between their blocks. -/
theorem Holed.reopened (holed : Holed H objects m w shards b n slot ref) (accepted : options.Accepted)
    (counted : options.rowShardCount = w.members.options.rowShardCount)
    (bounded : Bounded (openReadWrite H (retries + 1) options) w.shut)
    (opens : Runs (openReadWrite H (retries + 1) options) w.shut () w') :
    Holed H objects m w' shards b n slot ref ∧ w'.members.options.rowShardCount = options.rowShardCount ∧
      ∀ i, options.rowShardCount ≤ i → w'.disk (.rowShard i) = w.disk (.rowShard i) := by
  obtain ⟨values, small, fits, index⟩ := holed.left
  have store := holed.store
  have headers := holed.headers
  rw [← counted] at headers
  have ready : ShardsReady w.shut shards options.rowShardCount := fun i below =>
    ⟨hasHeader_of_in (headers i below), Or.inl (store.reads.content i (counted ▸ below))⟩
  have indexed : RowIndexed H shards options.rowShardCount m b n slot ref := by
    rw [counted]
    exact ⟨store.table, store.represents⟩
  obtain ⟨_, opened, serving, directory, objects', rows⟩ := openReadWrite_keepsRows (w := w.shut)
    ⟨rfl, fun _ => rfl, fun _ => rfl⟩ holed.directory values small fits index ready
    (fun i below => store.reads.small i (counted ▸ below)) store.index
    indexed accepted bounded
  obtain ⟨_, rfl⟩ := Runs.unique opens opened
  exact ⟨rows.holed serving directory objects' headers, rows.counted, rows.unused⟩

/-- With another one the row index is rejected. -/
theorem Holed.rejectsIndex (holed : Holed H objects m w shards b n slot ref) {count : Nat}
    (other : count ≠ w.members.options.rowShardCount) : RowIndexRejected w.shut count := by
  have table := holed.store.table
  intro x present
  obtain rfl : x = b := Option.some.inj (present.symm.trans holed.store.index)
  refine ⟨fun ⟨n', file, _⟩ => ?_, fun exceeds => ?_⟩
  · exact other (file.shards.symm.trans table.shards)
  · exact other (exceeds.1.2.2.2.2.1.symm.trans table.shards)

end Opens

end LumoDB
