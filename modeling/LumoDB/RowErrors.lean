import LumoDB.ColumnContents
import LumoDB.FailedRowAppend
import LumoDB.OneByOne
import LumoDB.ReadOnlySession

namespace LumoDB
open ByteCodec Effects LinearProbing

/-- The first `count` shard files are complete blocks, one directly behind the
other. -/
def WholeShards (H : HashFunctions) (count : Nat) (w : World) : Prop :=
  ∃ stored : RowLog, (∀ r ∈ stored, r.Complete H) ∧ ∀ i < count, w.disk (.rowShard i) = some (shardBytes stored i) ∨
    shardLog stored i = [] ∧ (w.disk (.rowShard i) = none ∨ w.disk (.rowShard i) = some [])

/-- An `Open` with these options keeps the row index of the session, or scans
shard files without remains of failed writes. -/
def KeepsOrScans (H : HashFunctions) (options : DatabaseOptions) (w : World) : Prop :=
  options.rowShardCount = w.members.options.rowShardCount ∨ WholeShards H options.rowShardCount w

/-- The states of the runs in which reads and writes of the shard files can fail
during row writes, and nothing else fails. `admits` is what the options of a
further `Open` and the state before it are to meet. -/
inductive Reached (H : HashFunctions) (retries : Nat) (admits : DatabaseOptions → World → Prop) : ObjectLog → World → Prop where
  | opened {w} {options : DatabaseOptions} (accepted : options.Accepted)
      (bounded : Bounded (openReadWrite H (retries + 1) options) {})
      (opens : Runs (openReadWrite H (retries + 1) options) {} () w) : Reached H retries admits [] w
  | put {objects w w'} {call : Call} (before : Reached H retries admits objects w) (puts : call.PutsRow)
      (bounded : Bounded (call.program H (retries + 1)) w)
      (done : Finishes failingRows (call.program H (retries + 1)) w () w') : Reached H retries admits objects w'
  | failed {objects w e w'} {call : Call} (before : Reached H retries admits objects w) (puts : call.PutsRow)
      (bounded : Bounded (call.program H (retries + 1)) w)
      (fails : Fails failingRows (call.program H (retries + 1)) w e w') : Reached H retries admits objects w'
  | called {objects w ok w'} {call : Call} (before : Reached H retries admits objects w) (other : ¬ call.PutsRow)
      (stays : ∀ options, call ≠ .reopen options) (contract : call.Contract objects)
      (bounded : Bounded (call.program H (retries + 1)) w) (returns : Returns (call.program H (retries + 1)) w ok w') :
      Reached H retries admits (objects ++ if ok then call.records else []) w'
  | reopened {objects w w₁ w'} {options : DatabaseOptions} (before : Reached H retries admits objects w)
      (accepted : options.Accepted) (admitted : admits options w) (closes : Runs close w () w₁)
      (bounded : Bounded (openReadWrite H (retries + 1) options) w₁)
      (opens : Runs (openReadWrite H (retries + 1) options) w₁ () w') : Reached H retries admits objects w'

/-- Row writes one after another, each of which returned an error. -/
inductive FailedWrites (H : HashFunctions) (retries : Nat) (w : World) : World → Prop where
  | none : FailedWrites H retries w w
  | more {w₁ e w'} {call : Call} (before : FailedWrites H retries w w₁) (puts : call.PutsRow)
      (bounded : Bounded (call.program H (retries + 1)) w₁)
      (fails : Fails failingRows (call.program H (retries + 1)) w₁ e w') : FailedWrites H retries w w'

/-- The row bucket is empty, or filled with a block whose bytes are the same in
both states. -/
inductive SameBucket (w w' : World) (i : Nat) : Prop where
  | empty (before : Runs (loadRowBucketSnapshot i) w .empty w) (after : Runs (loadRowBucketSnapshot i) w' .empty w')
  | filled {bucket : RowIndexBucket} {bytes bytes' : Bytes} (before : Runs (loadRowBucketSnapshot i) w (.filled bucket) w)
      (after : Runs (loadRowBucketSnapshot i) w' (.filled bucket) w')
      (stored : w.disk (.rowShard bucket.shardId) = some bytes) (stored' : w'.disk (.rowShard bucket.shardId) = some bytes')
      (inside : bucket.blockOffset + bucket.blockSize ≤ bytes.length)
      (same : slice bytes' bucket.blockOffset bucket.blockSize = slice bytes bucket.blockOffset bucket.blockSize)

/-- Every answer of `w'` is that of `w`, and so is the room for insertions. -/
structure LeavesDatabase (H : HashFunctions) (retries : Nat) (w w' : World) : Prop where
  rows : ∀ column (rowId : UInt64) key, SameAnswer (getRowStruct H retries column rowId.toNat key) w w'
  objects : ∀ column key, SameAnswer (getStruct H column key) w w'
  stats : SameAnswer (getColumnStats retries) w w'
  rowCount : SameAnswer rowCount w w'
  rowBucketCount : SameAnswer rowBucketCount w w'
  buckets : ∀ n, Runs LumoDB.rowBucketCount w n w → ∀ i < n, SameBucket w w' i
  pending : w'.members.rowPendingInsertCount = w.members.rowPendingInsertCount

/-- No shard file, opened or not, is too large. -/
def SmallFiles (w : World) : Prop := ∀ i x, w.disk (.rowShard i) = some x → x.length < 2 ^ 63

section Calls
variable {H : HashFunctions} {objects : ObjectLog} {w w' : World} {n retries : Nat} {m : RowKey → Option RowMap}
  {shards shards' : Nat → Bytes} {b b' : Bytes} {slot : Nat → Option RowKey} {ref : RowKey → BlockRef} {call : Call} {ok : Bool}
  {options : DatabaseOptions}

theorem Holed.withObjects {more : ObjectLog} {x : Bytes} (holed : Holed H objects m w shards b n slot ref)
    (store : ObjectStore H (w.withObjects (valueFileBytes (objects ++ more)) x) (objects ++ more)) :
    Holed H (objects ++ more) m (w.withObjects (valueFileBytes (objects ++ more)) x) shards b n slot ref := by
  have rows := holed.store
  have disk : ∀ v y file, file ≠ .values → file ≠ .index → (w.withObjects v y).disk file = w.disk file :=
    fun v y file notValues notIndex => by
      simp [World.withObjects, World.withMapped, World.setFile, World.setMembers, notValues, notIndex]
  have maps : ∀ v y file, file ≠ .index → (w.withObjects v y).members.maps file = w.members.maps file :=
    fun v y file notIndex => by
      simp [World.withObjects, World.withMapped, World.setFile, World.setMembers, Members.setMap, notIndex]
  exact
    { serving := holed.serving.withObjects _ _
      directory := holed.directory
      objects := store
      store :=
        { reads := ⟨rows.reads.shardCount, fun i inside => (disk _ _ _ (by simp) (by simp)).trans (rows.reads.content i inside),
            rows.reads.small, fun i inside => by rw [maps _ _ _ (by simp)]; exact rows.reads.map i inside⟩
          positive := rows.positive
          unmapped := fun i inside => (maps _ _ _ (by simp)).trans (rows.unmapped i inside)
          index := (disk _ _ _ (by decide) (by decide)).trans rows.index
          mapped := (maps _ _ _ (by decide)).trans rows.mapped
          pending := rows.pending
          table := rows.table
          represents := rows.represents }
      behind := holed.behind
      headers := holed.headers
      offsets := holed.offsets }

theorem Returns.unchanged {p : Db Unit} (only : p.Only Op.Reads) (returns : Returns p w ok w') : w' = w := by
  cases returns with
  | ok runs => exact unchanged_of_only only (congrArg Outcome.state? runs)
  | error failed => exact unchanged_of_only only (congrArg Outcome.state? failed)

/-- An object write leaves the rows, whether it returns Ok or is refused. -/
theorem Holed.structs (holed : Holed H objects m w shards b n slot ref) (column : Bytes) (entries : List StructEntry)
    {keysAreUnique : Bool} (fresh : keysAreUnique = true → FreshKeys objects column entries)
    (bounded : Bounded (writeStructs H column entries keysAreUnique) w)
    (returns : Returns (writeStructs H column entries keysAreUnique) w ok w') :
    Holed H (objects ++ if ok then recordsOf column entries else []) m w' shards b n slot ref ∧
      ∀ i, w'.disk (.rowShard i) = w.disk (.rowShard i) := by
  by_cases accepted : AcceptsStructs column entries
  · obtain ⟨x, runs, store⟩ := writeStructs_runs holed.objects holed.serving accepted fresh bounded
    obtain ⟨rfl, rfl⟩ := returns.unique (.ok runs)
    exact ⟨holed.withObjects store, fun i => by simp [World.withObjects, World.withMapped, World.setFile, World.setMembers]⟩
  · obtain ⟨e, refused⟩ := writeStructs_rejects (H := H) holed.serving accepted keysAreUnique
    obtain ⟨rfl, rfl⟩ := returns.unique (.error refused)
    rw [if_neg (by decide), List.append_nil]
    exact ⟨holed, fun _ => rfl⟩

/-- So does every call but a row write and a further `Open`. -/
theorem Holed.called (holed : Holed H objects m w shards b n slot ref) (other : ¬ call.PutsRow)
    (stays : ∀ options, call ≠ .reopen options) (contract : call.Contract objects)
    (bounded : Bounded (call.program H (retries + 1)) w) (returns : Returns (call.program H (retries + 1)) w ok w') :
    Holed H (objects ++ if ok then call.records else []) m w' shards b n slot ref ∧
      ∀ i, w'.disk (.rowShard i) = w.disk (.rowShard i) := by
  have nothing : ∀ {call : Call}, call.records = [] → w' = w →
      Holed H (objects ++ if ok then call.records else []) m w' shards b n slot ref ∧
        ∀ i, w'.disk (.rowShard i) = w.disk (.rowShard i) := by
    rintro call none rfl
    rw [none, ite_self, List.append_nil]
    exact ⟨holed, fun _ => rfl⟩
  have answered : ∀ {α : Type} {p : Db α}, p.Only Op.Reads → Returns (p.bind fun _ => .ret ()) w ok w' → w' = w :=
    fun only returns => returns.unchanged (only.bind fun _ => show (.ret () : Db Unit).Only Op.Reads from trivial)
  have unpromised : (false = true → ∀ {column entries}, FreshKeys objects column entries) := fun given => nomatch given
  cases call with
  | put key value =>
    exact holed.structs kStringColumn [⟨key, value⟩] (fun given => unpromised given) bounded returns
  | putStruct column key value =>
    exact holed.structs column [⟨key, value⟩] (fun given => unpromised given) bounded returns
  | putStructs column entries => exact holed.structs column entries (fun given => unpromised given) bounded returns
  | putUniqueStructs column entries => exact holed.structs column entries (fun _ => contract) bounded returns
  | getStruct column key => exact nothing rfl (answered (reads_only.getStruct _ _) returns)
  | entryCount => exact nothing rfl (answered (reads_counted (reads_load _ _ _)) returns)
  | getRowStruct column rowId key => exact nothing rfl (answered (reads_getRowStruct _ _ _) returns)
  | rowCount => exact nothing rfl (answered (reads_counted (reads_load _ _ _)) returns)
  | flush =>
    obtain ⟨_, _, _, _, files⟩ := holed.objects
    have runs := flush_runs_of_mapped holed.serving.writable files.mapped holed.store.mapped
    exact nothing rfl (returns.unique (.ok runs)).2
  | putRowStructs | putRowStruct => exact absurd trivial other
  | reopen options => exact absurd rfl (stays options)

/-- An `Open` with another shard count that finds whole shard files makes an
index of them. -/
theorem Holed.rescanned (holed : Holed H objects m w shards b n slot ref) (accepted : options.Accepted)
    (other : options.rowShardCount ≠ w.members.options.rowShardCount) (whole : WholeShards H options.rowShardCount w)
    (small : SmallFiles w)
    (bounded : Bounded (openReadWrite H (retries + 1) options) w.shut)
    (opens : Runs (openReadWrite H (retries + 1) options) w.shut () w') :
    ∃ m' shards' b' n' slot' ref', Holed H objects m' w' shards' b' n' slot' ref' ∧
      w'.members.options.rowShardCount = options.rowShardCount ∧
      ∀ i, options.rowShardCount ≤ i → w'.disk (.rowShard i) = w.disk (.rowShard i) := by
  obtain ⟨values, smallValues, fits, index⟩ := holed.left
  obtain ⟨stored, complete, content⟩ := whole
  have ready : ShardsReady w.shut (shardBytes stored) options.rowShardCount := fun i below => by
    refine ⟨hasHeader_of_in (rowHeader_in_shardBytes stored i), (content i below).imp_right fun fresh => ⟨?_, fresh.2⟩⟩
    rw [shardBytes, fresh.1]
    exact List.append_nil _
  have short : ∀ i < options.rowShardCount, (shardBytes stored i).length < 2 ^ 63 := fun i below => by
    rcases content i below with present | ⟨none, _⟩
    · exact small i _ present
    · rw [shardBytes_length, none]
      decide
  obtain ⟨_, x, n', slot', ref', opened, serving, directory, objects', rows⟩ := openReadWrite_rebuildsRows (w := w.shut)
    ⟨rfl, fun _ => rfl, fun _ => rfl⟩ holed.directory values smallValues fits index ready short complete
    (holed.rejectsIndex other) accepted bounded
  obtain ⟨_, rfl⟩ := Runs.unique opens opened
  exact ⟨_, _, x, n', slot', ref', rows.holed serving directory objects' fun i _ => rowHeader_in_shardBytes stored i,
    rows.counted, rows.unused⟩

theorem RowArchive.smallFiles {rows : RowLog} (archive : RowArchive H w rows) : SmallFiles w := by
  intro i x present
  rcases archive.disk i with whole | ⟨_, missing | empty⟩
  · obtain rfl := Option.some.inj (whole.symm.trans present)
    exact archive.small i
  · rw [missing] at present
    cases present
  · obtain rfl := Option.some.inj (empty.symm.trans present)
    decide

theorem Holed.smallFiles (holed : Holed H objects m w' shards b n slot ref) (small : SmallFiles w)
    (unused : ∀ i, w'.members.options.rowShardCount ≤ i → w'.disk (.rowShard i) = w.disk (.rowShard i)) : SmallFiles w' := by
  intro i x present
  by_cases below : i < w'.members.options.rowShardCount
  · obtain rfl := Option.some.inj ((holed.store.reads.content i below).symm.trans present)
    exact holed.store.reads.small i below
  · rw [unused i (not_lt.mp below)] at present
    exact small i x present

/-- Every state of such a run serves rows, whatever the failed writes have
left. -/
theorem Reached.holed (reached : Reached H retries (KeepsOrScans H) objects w) :
    SmallFiles w ∧ ∃ m shards b n slot ref, Holed H objects m w shards b n slot ref := by
  induction reached with
  | opened accepted bounded opens =>
    have active := first_open accepted bounded opens
    exact ⟨active.archive.smallFiles, _, active.holed⟩
  | put before puts bounded done ih =>
    obtain ⟨small, m, shards, b, n, slot, ref, holed⟩ := ih
    obtain ⟨shards', b', slot', ref', holed', step⟩ := holed.put puts bounded done
    exact ⟨holed'.smallFiles small fun i above => step.unused i (step.options ▸ above), _, shards', b', n, slot', ref', holed'⟩
  | failed before puts bounded fails ih =>
    obtain ⟨small, m, shards, b, n, slot, ref, holed⟩ := ih
    obtain ⟨shards', b', holed', step, _⟩ := holed.fails puts bounded fails
    exact ⟨holed'.smallFiles small fun i above => step.unused i (step.options ▸ above), m, shards', b', n, slot, ref, holed'⟩
  | called before other stays contract bounded returns ih =>
    obtain ⟨small, m, shards, b, n, slot, ref, holed⟩ := ih
    obtain ⟨holed', same⟩ := holed.called other stays contract bounded returns
    exact ⟨holed'.smallFiles small fun i _ => same i, m, shards, b, n, slot, ref, holed'⟩
  | @reopened objects w w₁ w' options before accepted admitted closes bounded opens ih =>
    obtain ⟨small, m, shards, b, n, slot, ref, holed⟩ := ih
    obtain ⟨_, rfl⟩ := Runs.unique closes holed.close_runs
    by_cases same : options.rowShardCount = w.members.options.rowShardCount
    · obtain ⟨holed', counted, unused⟩ := holed.reopened accepted same bounded opens
      exact ⟨holed'.smallFiles small fun i above => unused i (counted ▸ above), m, shards, b, n, slot, ref, holed'⟩
    · obtain ⟨m', shards', b', n', slot', ref', holed', counted, unused⟩ :=
        holed.rescanned accepted same (admitted.resolve_left same) small bounded opens
      exact ⟨holed'.smallFiles small fun i above => unused i (counted ▸ above), m', shards', b', n', slot', ref', holed'⟩

/-- Failed row writes change neither the index nor the blocks it points to. -/
theorem FailedWrites.holed (failed : FailedWrites H retries w w') (holed : Holed H objects m w shards b n slot ref) :
    ∃ shards' b', Holed H objects m w' shards' b' n slot ref ∧ KeepsBlocks shards shards' n slot ref := by
  induction failed with
  | none => exact ⟨shards, b, holed, fun _ _ => rfl⟩
  | more before puts bounded fails ih =>
    obtain ⟨shards₁, b₁, holed₁, kept⟩ := ih
    obtain ⟨shards', b', holed', _, kept'⟩ := holed₁.fails puts bounded fails
    exact ⟨shards', b', holed', fun k stored => (kept' k stored).trans (kept k stored)⟩

end Calls

section Answers
variable {H : HashFunctions} {objects : ObjectLog} {w w' : World} {n i : Nat} {m : RowKey → Option RowMap}
  {shards shards' : Nat → Bytes} {b b' : Bytes} {slot : Nat → Option RowKey} {ref : RowKey → BlockRef}

theorem Holed.sameBucket (holed : Holed H objects m w shards b n slot ref) (after : Holed H objects m w' shards' b' n slot ref)
    (kept : KeepsBlocks shards shards' n slot ref) (inside : i < n) : SameBucket w w' i := by
  have before := holed.store.table
  have later := after.store.table
  obtain ⟨onEmpty, onFilled⟩ := before.toRowIndexFile.loadRowBucketSnapshot holed.store.view.sees inside
  obtain ⟨onEmpty', onFilled'⟩ := later.toRowIndexFile.loadRowBucketSnapshot after.store.view.sees inside
  cases at_i : slot i with
  | none => exact .empty (onEmpty (before.empty i inside at_i)) (onEmpty' (later.empty i inside at_i))
  | some k =>
    rw [before.stored i inside k at_i] at onFilled
    rw [later.stored i inside k at_i] at onFilled'
    obtain ⟨_, block, _, at_ref⟩ := holed.store.represents.located inside at_i
    obtain ⟨_, _, _, at_ref'⟩ := after.store.represents.located inside at_i
    refine .filled (onFilled rfl) (onFilled' rfl) (holed.store.reads.content _ at_ref.shard)
      (after.store.reads.content _ at_ref'.shard) ?_ (kept k ⟨i, inside, at_i⟩)
    change (ref k).blockOffset + (ref k).blockSize ≤ _
    rw [at_ref.size]
    exact at_ref.located.inside

/-- Two states with the same index answer alike. -/
theorem Holed.leaves (holed : Holed H objects m w shards b n slot ref) (after : Holed H objects m w' shards' b' n slot ref)
    (kept : KeepsBlocks shards shards' n slot ref) (retries : Nat) : LeavesDatabase H (retries + 1) w w' := by
  have isOpen := holed.serving.isOpen
  have isOpen' := after.serving.isOpen
  have view := holed.store.view
  have view' := after.store.view
  refine ⟨fun column rowId key => ?_, fun column key => ?_, ?_, .ok view.rowCount view'.rowCount,
    .ok view.rowBucketCount view'.rowBucketCount, fun n' count i inside => ?_, after.store.pending.trans holed.store.pending.symm⟩
  · exact sameAnswer_rowAnswer (view.getRowStruct isOpen (column, rowId.toNat) key retries)
      (view'.getRowStruct isOpen' (column, rowId.toNat) key retries)
  · cases stored : putAll (fun _ => none) objects (column, key) with
    | some value => exact .ok (getStruct_runs holed.objects isOpen stored) (getStruct_runs after.objects isOpen' stored)
    | none => exact .error (getStruct_absent holed.objects isOpen stored) (getStruct_absent after.objects isOpen' stored)
  · obtain ⟨_, _, _, _, files⟩ := holed.objects
    obtain ⟨_, _, _, _, files'⟩ := after.objects
    obtain ⟨stats, runs, counted⟩ := getColumnStats_runs files.view view isOpen retries
    obtain ⟨stats', runs', counted'⟩ := getColumnStats_runs files'.view view' isOpen' retries
    obtain rfl := counted.unique counted'
    exact .ok runs runs'
  · obtain rfl := (Runs.unique count view.rowBucketCount).1
    exact holed.sameBucket after kept inside

end Answers

/-- Row writes that return an error leave every answer of the database, its
buckets and its indexed blocks, in all runs in which no rebuild scans remains
of failed writes. -/
theorem failed_rowWrites_leave {H : HashFunctions} {retries : Nat} {objects : ObjectLog} {w w' : World}
    (reached : Reached H retries (KeepsOrScans H) objects w) (failed : FailedWrites H retries w w') :
    LeavesDatabase H (retries + 1) w w' := by
  obtain ⟨_, m, shards, b, n, slot, ref, holed⟩ := reached.holed
  obtain ⟨shards', b', after, kept⟩ := failed.holed holed
  exact holed.leaves after kept retries

section Samples
variable {admits : DatabaseOptions → World → Prop} {objects : ObjectLog} {w w' : World} {call : Call} {options : DatabaseOptions}

theorem Call.records_of_putsRow (puts : call.PutsRow) : call.records = [] := by
  cases call with
  | putRowStructs | putRowStruct => rfl
  | _ => exact puts.elim

/-- Calls without a further `Open` of which none meets a failing system call. -/
theorem Reached.of_calls {H : HashFunctions} {retries : Nat} {origin : World} {trace : Trace}
    (calls : Calls H retries [] origin trace w) (first : Reached H retries admits [] origin)
    (stays : ∀ step ∈ trace, ∀ options, step.1 ≠ .reopen options) : Reached H retries admits (written trace) w := by
  induction calls with
  | start => exact first
  | @call trace w call ok w' before contract bounded returns ih =>
    have earlier := ih fun step member => stays step (List.mem_append_left _ member)
    rw [written_append]
    by_cases puts : call.PutsRow
    · rw [Call.records_of_putsRow puts, ite_self, List.append_nil]
      cases returns with
      | ok runs => exact .put earlier puts bounded (finishes_of_run (fun _ _ _ _ done => Or.inl done) runs)
      | error failed => exact .failed earlier puts bounded (fails_of_run (fun _ _ _ _ done => Or.inl done) failed)
    · exact .called earlier puts (stays (call, ok) (List.mem_append_right _ (List.mem_singleton_self _))) contract bounded returns

/-- A failing write beside a stored row, and another one behind what it left. -/
theorem failed_rowWrites_leave_sample : ∃ w w', Reached .shipped 0 (KeepsOrScans .shipped) [] w ∧
    FailedWrites .shipped 0 w w' ∧ w'.disk (.rowShard 0) ≠ w.disk (.rowShard 0) ∧ LeavesDatabase .shipped 1 w w' ∧
    (run system (getRowStruct .shipped 1 [1] 4 [2]) w').value? = some [3] := by
  obtain ⟨w, history, torn⟩ := @History.exists_of_replay .shipped 0 (smallOptions 1) [storedRow] [(storedRow, true)]
    (fun w => ((afterTornRow 1 tornRow w).any fun w₁ => (afterTornRow 80 storedRow w₁).any fun w₂ =>
      decide (w₂.disk (.rowShard 0) ≠ w.disk (.rowShard 0) ∧
        (run system (getRowStruct .shipped 1 [1] 4 [2]) w₂).value? = some [3])) = true) _
    (by decide +kernel)
  obtain ⟨w₁, first, torn⟩ := Option.any_eq_true _ _ |>.mp torn
  obtain ⟨w₂, second, result⟩ := Option.any_eq_true _ _ |>.mp torn
  obtain ⟨other, value⟩ := of_decide_eq_true result
  obtain ⟨bounded₁, _, fails₁⟩ := afterTornRow_fails first
  obtain ⟨bounded₂, _, fails₂⟩ := afterTornRow_fails second
  obtain ⟨accepted, bounded, opens, calls⟩ := history
  have reached : Reached .shipped 0 (KeepsOrScans .shipped) [] w :=
    .of_calls calls (.opened accepted bounded opens) fun step member options => by
      rw [List.mem_singleton.mp member]
      nofun
  have failed : FailedWrites .shipped 0 w w₂ := .more (.more .none (show tornRow.PutsRow from trivial) bounded₁
    (fails₁.mono failingBlocks_rows)) (show storedRow.PutsRow from trivial) bounded₂ (fails₂.mono failingBlocks_rows)
  exact ⟨w, w₂, reached, failed, other, failed_rowWrites_leave reached failed, value⟩

/-- What `Close` and `Open` leave. -/
def afterReopen (options : DatabaseOptions) (w : World) : Option World :=
  match run system close w with
  | .ok () w₁ =>
    if options.Accepted ∧ Bounded (openReadWrite .shipped 1 options) w₁ then
      match run system (openReadWrite .shipped 1 options) w₁ with
      | .ok () w' => some w'
      | _ => none
    else none
  | _ => none

theorem Reached.afterReopen (before : Reached .shipped 0 admits objects w) (admitted : admits options w)
    (reopened : afterReopen options w = some w') : Reached .shipped 0 admits objects w' := by
  unfold LumoDB.afterReopen at reopened
  split at reopened
  · rename_i closes
    split at reopened
    · rename_i given
      split at reopened
      · rename_i opens
        cases reopened
        exact .reopened before given.1 admitted closes given.2 opens
      · cases reopened
    · cases reopened
  · cases reopened

/-- What a row write leaves that returns Ok. -/
def afterRow (call : Call) (w : World) : Option World :=
  if Bounded (call.program .shipped 1) w then
    match run system (call.program .shipped 1) w with
    | .ok () w' => some w'
    | _ => none
  else none

theorem Reached.afterRow (before : Reached .shipped 0 admits objects w) (puts : call.PutsRow)
    (written : afterRow call w = some w') : Reached .shipped 0 admits objects w' := by
  unfold LumoDB.afterRow at written
  split at written
  · rename_i bounded
    split at written
    · rename_i runs
      cases written
      exact .put before puts bounded (finishes_of_run (fun _ _ _ _ done => Or.inl done) runs)
    · cases written
  · cases written

/-- The first byte of every block header. -/
def strayKey : Bytes := (leBytes 4 kRowBlockMagic).take 1

/-- A block of the column `[9]` whose sizes add up to its own only with a wrap,
so that its key lies behind its end. -/
def strayBlock : Bytes :=
  ({ sequence := 7, columnHash := HashFunctions.shipped.hashString [9], columnSize := 1, itemCount := 1, bucketCount := 1,
     keyBytesSize := 2 ^ 64 - 1, valueBytesSize := 1, blockSize := 121 : RowBlockHeader }).encode ++
  (({ state := kBucketFilled, keyHash := HashFunctions.shipped.hashString strayKey, keySize := 1 : RowKeyBucket }).encode ++ [9])

/-- The block of this row would end where, once it is cut behind its header, the
value of the next row begins. -/
def cutRow : Call := .putRowStructs [1] 5 [⟨[2], List.replicate 72 0⟩]

def strayRow : Call := .putRowStructs [1] 5 [⟨[2], strayBlock⟩]

/-- A cut block, a value behind it that reads as a block, and a rebuild that
takes both for blocks. -/
def strayed (w : World) : Option World :=
  (afterTornRow 72 cutRow w).bind fun w₁ => (afterReopen (smallOptions 1 oneShard_lt) w₁).bind fun w₂ =>
    (afterRow strayRow w₂).bind fun w₃ => afterReopen (smallOptions 2 twoShards_lt) w₃

theorem strayed_reached (before : Reached .shipped 0 (fun _ _ => True) objects w) (strays : strayed w = some w') :
    Reached .shipped 0 (fun _ _ => True) objects w' := by
  obtain ⟨w₁, torn, strays⟩ := Option.bind_eq_some_iff.mp strays
  obtain ⟨w₂, reopened, strays⟩ := Option.bind_eq_some_iff.mp strays
  obtain ⟨w₃, written, rebuilt⟩ := Option.bind_eq_some_iff.mp strays
  obtain ⟨bounded, _, fails⟩ := afterTornRow_fails torn
  have cut := Reached.failed before (show cutRow.PutsRow from trivial) bounded (fails.mono failingBlocks_rows)
  have stored := (cut.afterReopen trivial reopened).afterRow (show strayRow.PutsRow from trivial) written
  exact stored.afterReopen trivial rebuilt

/-- With such a block in the index a failed write of one byte changes what
`GetRowStruct` returns. -/
theorem failed_rowWrite_shows : ¬ ∀ (H : HashFunctions) (objects : ObjectLog) (w w' : World),
    Reached H 0 (fun _ _ => True) objects w → FailedWrites H 0 w w' → LeavesDatabase H 1 w w' := by
  intro leaves
  obtain ⟨w, history, shows⟩ := @History.exists_of_replay .shipped 0 (smallOptions 1) [] []
    (fun w => ((strayed w).any fun w₁ => (afterTornRow 1 (.putRowStructs [1] 1 [⟨[2], []⟩]) w₁).any fun w₂ =>
      decide ((run system (getRowStruct .shipped 1 [9] 0 strayKey) w₁).value? = none ∧
        (run system (getRowStruct .shipped 1 [9] 0 strayKey) w₂).value? = some [])) = true) _
    (by decide +kernel)
  obtain ⟨w₁, strays, shows⟩ := Option.any_eq_true _ _ |>.mp shows
  obtain ⟨w₂, torn, answers⟩ := Option.any_eq_true _ _ |>.mp shows
  obtain ⟨nothing, something⟩ := of_decide_eq_true answers
  obtain ⟨bounded, _, fails⟩ := afterTornRow_fails torn
  obtain ⟨accepted, bounded₀, opens, calls⟩ := history
  have origin : Reached .shipped 0 (fun _ _ => True) [] w := .of_calls calls (.opened accepted bounded₀ opens) nofun
  have failed : FailedWrites .shipped 0 w₁ w₂ := .more .none (show Call.PutsRow (.putRowStructs [1] 1 [⟨[2], []⟩]) from trivial)
    bounded (fails.mono failingBlocks_rows)
  have same := (leaves _ _ _ _ (strayed_reached origin strays) failed).rows [9] 0 strayKey
  cases same with
  | ok before after =>
    rw [show (0 : UInt64).toNat = 0 from rfl] at before
    rw [before] at nothing
    cases nothing
  | error before after =>
    rw [show (0 : UInt64).toNat = 0 from rfl] at after
    rw [after] at something
    cases something

end Samples

end LumoDB
