import LumoDB.Replay

namespace LumoDB
open ByteCodec Effects LinearProbing

/-- Every `Open` of the run uses `count` shards. -/
def SameShards (count : Nat) (trace : Trace) : Prop :=
  ∀ options ok, (Call.reopen options, ok) ∈ trace → options.rowShardCount = count

section Rows
variable {H : HashFunctions} {retries : Nat} {start : DatabaseOptions} {trace : Trace} {w : World}
  {objects : ObjectLog} {s s' : RowState} {count : Nat}

theorem RowEffect.rows {call : Call} {ok : Bool} (effect : RowEffect H s call ok s')
    (same : ∀ options, call = .reopen options → options.rowShardCount = s.count) :
    putRows noRows s'.live = if ok then call.apply (putRows noRows s.live) else putRows noRows s.live := by
  cases effect with
  | @kept _ ok nothing =>
    cases ok with
    | false => rfl
    | true => rw [if_pos rfl, Call.apply, nothing rfl]
  | failed => rfl
  | written write shard sequence => rw [if_pos rfl, Call.apply, write, putRows_append, putRows_singleton]
  | @reopened options =>
    rw [RowState.reopened, if_pos (same options rfl), if_pos rfl]
    rfl

/-- With one shard count every block lies in the shard of its row, and the
served rows are those the calls wrote. -/
structure Fixed (H : HashFunctions) (count : Nat) (trace : Trace) (s : RowState) : Prop where
  counted : s.count = count
  live : s.live = s.rows
  rows : putRows noRows s.live = rowsAfter trace
  home : ∀ r ∈ s.rows, r.shardId = rowHome H r.key % count

theorem SameShards.front {step : Call × Bool} (same : SameShards count (trace ++ [step])) : SameShards count trace :=
  fun options ok member => same options ok (List.mem_append_left _ member)

theorem RowHistory.fixed (history : RowHistory H (.fresh count) trace s) (same : SameShards count trace) :
    Fixed H count trace s := by
  induction history with
  | start => exact ⟨rfl, rfl, rfl, nofun⟩
  | @call trace s call ok s' before effect ih =>
    obtain ⟨counted, live, rows, home⟩ := ih same.front
    have again : ∀ options, call = .reopen options → options.rowShardCount = s.count := by
      rintro options rfl
      rw [counted]
      exact same options ok (List.mem_append_right _ (List.mem_singleton_self _))
    have content := effect.rows again
    rw [rows, ← rowsAfter_append] at content
    cases effect with
    | kept => exact ⟨counted, live, content, home⟩
    | failed => exact ⟨counted, live, content, home⟩
    | written write shard sequence =>
      refine ⟨counted, ?_, content, fun r member => ?_⟩
      · simp only [live]
      · rcases List.mem_append.mp member with old | new
        · exact home r old
        · rw [List.mem_singleton.mp new, shard, counted]
    | @reopened options =>
      have kept : s.reopened options.rowShardCount = s := by rw [RowState.reopened, if_pos (again options rfl)]
      rw [kept] at content ⊢
      exact ⟨counted, live, content, home⟩

/-- In every state of every run with one shard count `GetRowStruct` returns
what the nested map of the successful row writes holds, and `RowCount` the
number of its rows. -/
theorem rows_refine (history : History H retries start trace w) (same : SameShards start.rowShardCount trace) :
    (∀ column (rowId : UInt64) key,
      (∀ value, (rowsAfter trace (column, rowId.toNat)).bind (· key) = some value →
        Runs (getRowStruct H (retries + 1) column rowId.toNat key) w value w) ∧
      ((rowsAfter trace (column, rowId.toNat)).bind (· key) = none →
        ∃ message, run system (getRowStruct H (retries + 1) column rowId.toNat key) w = .error (.notFound message) w)) ∧
    (∃ stored : List RowKey, stored.Nodup ∧ (∀ k, k ∈ stored ↔ rowsAfter trace k ≠ none) ∧
      Runs rowCount w stored.length w) ∧
    ∀ call : Call, call.Contract (written trace) → Bounded (call.program H (retries + 1)) w →
      ∃ ok w', Returns (call.program H (retries + 1)) w ok w' ∧ ((∃ options, call = .reopen options) → ok = true) := by
  obtain ⟨s, active, rowHistory⟩ := history.active
  have fixed := rowHistory.fixed same
  refine ⟨fun column rowId key => ?_, ⟨(s.live.map RowRecord.key).dedup, List.nodup_dedup _, fun k => ?_,
    rowCount_runs active.rows⟩, fun call contract bounded => history.progress contract bounded⟩
  · rw [← fixed.rows]
    exact getRowStruct_runs active.rows active.serving.isOpen (column, rowId.toNat) key retries
  · rw [← fixed.rows, putRows_ne_none, List.mem_dedup]
    simp [noRows]

def sampleRowCalls : List Call :=
  [.putRowStructs [1] 4 [⟨[2], [3]⟩, ⟨[5], [6]⟩, ⟨[2], [7]⟩], .putRowStruct [1] 4 [5] [8], .put [1] [1],
    .reopen (smallOptions 2), .putRowStruct [1] 9 [2] []]

theorem sample_rowHistory :
    ∃ w, History .shipped 0 (smallOptions 2) (sampleRowCalls.map fun call => (call, true)) w ∧
      Bounded (openReadWrite .shipped 1 (smallOptions 2)) (w.shut.setFile .rowIndex none) :=
  @History.exists_of_replay _ _ _ sampleRowCalls _
    (fun w => Bounded (openReadWrite .shipped 1 (smallOptions 2)) (w.shut.setFile .rowIndex none)) _
    (by decide +kernel)

theorem sample_sameShards : SameShards 2 (sampleRowCalls.map fun call => (call, true)) := by
  intro options ok member
  simp only [sampleRowCalls, List.map_cons, List.map_nil, List.mem_cons, Prod.mk.injEq, Call.reopen.injEq,
    List.not_mem_nil, or_false, reduceCtorEq, false_and, false_or] at member
  rw [member.1]
  rfl

theorem rows_refine_sample : ∃ w, Runs (getRowStruct .shipped 1 [1] 4 [5]) w [8] w ∧
    ∃ message, run system (getRowStruct .shipped 1 [1] 4 [9]) w = .error (.notFound message) w := by
  obtain ⟨w, history, _⟩ := sample_rowHistory
  have reads := (rows_refine history sample_sameShards).1 [1] 4
  exact ⟨w, (reads [5]).1 [8] (by decide), (reads [9]).2 (by decide)⟩

end Rows

section Blocks
variable {H : HashFunctions} {bytes : Bytes} {log : RowLog} {offset : Nat}

/-- The offsets of the blocks in a shard file: each one starts where the one
before it ends. -/
inductive BlockStart (bytes : Bytes) : Nat → Prop where
  | first (inside : 24 < bytes.length) : BlockStart bytes 24
  | next {offset size} (before : BlockStart bytes offset)
      (length : (RowBlockHeader.decode (slice bytes offset 72)).blockSize = size)
      (inside : offset + size < bytes.length) : BlockStart bytes (offset + size)

/-- The sequence in the header of the block at `offset`. -/
def blockSequence (bytes : Bytes) (offset : Nat) : Nat := (RowBlockHeader.decode (slice bytes offset 72)).sequence

theorem RowRecord.Complete.header {r : RowRecord} (complete : r.Complete H) (front rest : Bytes) :
    (RowBlockHeader.decode (slice (front ++ (r.block ++ rest)) front.length 72)).sequence = r.sequence ∧
      (RowBlockHeader.decode (slice (front ++ (r.block ++ rest)) front.length 72)).blockSize = r.block.length := by
  obtain ⟨n, keySize, valueSize, slot, t⟩ := id complete.row
  have long := complete.block_length
  have start : slice (front ++ (r.block ++ rest)) front.length 72 = slice r.block 0 72 := by
    rw [slice_append_right le_rfl, Nat.sub_self, slice_append_left (by omega)]
  rw [start, t.shape.header]
  exact ⟨rfl, rfl⟩

/-- In a file of complete blocks every block is one of them. -/
theorem BlockStart.record (start : BlockStart (rowFileBytes log) offset) (complete : ∀ r ∈ log, r.Complete H) :
    ∃ done r later, log = done ++ r :: later ∧ offset = (rowFileBytes done).length := by
  have header : (rowFileBytes []).length = 24 := by
    rw [rowFileBytes, encodeRows, List.map_nil, List.flatten_nil, List.append_nil, rowHeader_length]
  induction start with
  | first inside =>
    cases log with
    | nil => omega
    | cons r later => exact ⟨[], r, later, rfl, header.symm⟩
  | @next offset size before length inside ih =>
    obtain ⟨done, r, later, split, at_offset⟩ := ih
    have grouped : rowFileBytes log = rowFileBytes done ++ (r.block ++ encodeRows later) := by
      rw [split, rowFileBytes, encodeRows_append, rowFileBytes, List.append_assoc]
      rfl
    have found := (complete r (by rw [split]; simp)).header (rowFileBytes done) (encodeRows later)
    rw [← grouped, ← at_offset, length] at found
    have ended : offset + size = (rowFileBytes (done ++ [r])).length := by
      rw [rowFileBytes_append, List.length_append, at_offset, found.2]
    cases later with
    | nil =>
      rw [split, ended] at inside
      omega
    | cons r' later => exact ⟨done ++ [r], r', later, by rw [split, List.append_assoc]; rfl, ended⟩

theorem blockSequence_of {done later : RowLog} {r : RowRecord} (complete : r.Complete H) :
    blockSequence (rowFileBytes (done ++ r :: later)) (rowFileBytes done).length = r.sequence := by
  have grouped : rowFileBytes (done ++ r :: later) = rowFileBytes done ++ (r.block ++ encodeRows later) := by
    rw [rowFileBytes, encodeRows_append, rowFileBytes, List.append_assoc]
    rfl
  rw [blockSequence, grouped]
  exact (complete.header _ _).1

end Blocks

section Numbers
variable {H : HashFunctions} {retries : Nat} {start options : DatabaseOptions} {trace : Trace} {w origin : World}
  {objects : ObjectLog} {s s' : RowState} {count : Nat}

/-- The next sequence is greater than that of every block. -/
def Numbered (s : RowState) : Prop := ∀ r ∈ s.rows, r.sequence < s.next

/-- In no state of the run is the sequence counter at its last value. -/
def Unwrapped (run : Trace → World → Prop) (trace : Trace) : Prop :=
  ∀ before after w, trace = before ++ after → run before w → w.nextSequence + 1 < 2 ^ 64

theorem RowEffect.numbered {call : Call} {ok : Bool} (effect : RowEffect H s call ok s') (numbered : Numbered s)
    (fits : s.next + 1 < 2 ^ 64) (same : ∀ options, call = .reopen options → options.rowShardCount = s.count) :
    Numbered s' ∧ s'.count = s.count := by
  cases effect with
  | kept => exact ⟨numbered, rfl⟩
  | failed =>
    refine ⟨fun r member => ?_, rfl⟩
    rw [u64_of_lt fits]
    exact (numbered r member).trans (Nat.lt_succ_self _)
  | written write shard sequence =>
    refine ⟨fun r' member => ?_, rfl⟩
    rw [u64_of_lt fits]
    rcases List.mem_append.mp member with old | new
    · exact (numbered r' old).trans (Nat.lt_succ_self _)
    · rw [List.mem_singleton.mp new, sequence]
      exact Nat.lt_succ_self _
  | reopened =>
    rw [RowState.reopened, if_pos (same _ rfl)]
    exact ⟨numbered, rfl⟩

/-- Runs with one shard count number every block after all blocks before
it. -/
theorem Calls.numbered (active : Active H origin objects s) (numbered : Numbered s)
    (calls : Calls H retries objects origin trace w) (same : SameShards s.count trace)
    (unwrapped : Unwrapped (Calls H retries objects origin) trace) :
    ∃ s', Active H w (objects ++ written trace) s' ∧ RowHistory H s trace s' ∧ Numbered s' ∧ s'.count = s.count := by
  induction calls with
  | start =>
    refine ⟨s, ?_, .start, numbered, rfl⟩
    rw [written, List.flatMap_nil, List.append_nil]
    exact active
  | @call trace w call ok w' before contract bounded returns ih =>
    obtain ⟨s', active', rowHistory, numbered', counted⟩ := ih same.front fun before after w split =>
      unwrapped before (after ++ [(call, ok)]) w (by rw [split, List.append_assoc])
    obtain ⟨ok', w'', s'', served, _⟩ := active'.serves contract bounded
    obtain ⟨rfl, rfl⟩ := returns.unique served.returns
    have fits := unwrapped trace [(call, ok)] w rfl before
    rw [active'.next] at fits
    obtain ⟨numbered'', counted'⟩ := served.effect.numbered numbered' fits (by
      rintro options rfl
      rw [counted]
      exact same options ok (List.mem_append_right _ (List.mem_singleton_self _)))
    refine ⟨s'', ?_, .call rowHistory served.effect, numbered'', counted'.trans counted⟩
    rw [written_append, ← List.append_assoc]
    exact served.active

theorem RowHistory.next_le (history : RowHistory H (.fresh count) trace s) (same : SameShards count trace) :
    s.next ≤ 1 + trace.length := by
  induction history with
  | start => exact le_rfl
  | @call trace s call ok s' before effect ih =>
    have bound := ih same.front
    have bump : u64 (s.next + 1) ≤ s.next + 1 := Nat.mod_le _ _
    rw [List.length_append, List.length_singleton]
    cases effect with
    | kept => omega
    | failed => exact bump.trans (by omega)
    | written => exact bump.trans (by omega)
    | @reopened options =>
      have again := same options true (List.mem_append_right _ (List.mem_singleton_self _))
      rw [RowState.reopened, if_pos (again.trans (before.fixed same.front).counted.symm)]
      omega

/-- A run of fewer than `2 ^ 64 - 2` calls does not wrap the counter. -/
theorem unwrapped_of_length (same : SameShards start.rowShardCount trace) (short : trace.length + 2 < 2 ^ 64) :
    Unwrapped (History H retries start) trace := by
  rintro before after w rfl history
  obtain ⟨s, active, rowHistory⟩ := history.active
  have bound := rowHistory.next_le fun options ok member => same options ok (List.mem_append_left _ member)
  rw [List.length_append] at short
  rw [active.next]
  omega

/-- A sequence that is handed out is greater than that of every block in
every shard file. -/
theorem Active.blocks_below (active : Active H w objects s) (numbered : Numbered s) {sequence : Nat} {w' : World}
    (handed : Runs nextRowSequence w sequence w') {i : Nat} (inside : i < s.count) {bytes : Bytes}
    (content : w.disk (.rowShard i) = some bytes) {offset : Nat} (start : BlockStart bytes offset) :
    blockSequence bytes offset < sequence := by
  obtain ⟨b, n, slot, ref, files⟩ := active.rows
  have number := nextRowSequence_runs w files.table.toRowIndexFile
  rw [files.self] at number
  have next : sequence = s.next := by
    rw [(Runs.unique handed number).1, ← active.next, World.nextSequence_eq files.index]
  have held := files.reads.content i (by rw [active.count]; exact inside)
  have same : bytes = rowFileBytes (shardLog s.rows i) := by
    rw [← Option.some.inj (held.symm.trans content), active.covers.shardBytes inside]
    rfl
  subst same
  have complete : ∀ r ∈ shardLog s.rows i, r.Complete H := fun r member =>
    active.archive.complete r (mem_shardLog.mp member).1
  obtain ⟨done, r, later, split, rfl⟩ := start.record complete
  have member : r ∈ shardLog s.rows i := by
    rw [split]
    simp
  rw [next, split, blockSequence_of (complete r member)]
  exact numbered r (mem_shardLog.mp member).1

end Numbers

section Answers
variable {H : HashFunctions} {w w' : World} {row : Option RowMap} {key : Bytes} {log log' : RowLog}

theorem sameAnswer_rowAnswer {p : Db Bytes} (before : run system p w = rowAnswer row key w)
    (after : run system p w' = rowAnswer row key w') : SameAnswer p w w' := by
  unfold rowAnswer at before after
  cases row with
  | none => exact .error before after
  | some content =>
    simp only at before after
    cases held : content key with
    | none =>
      rw [held] at before after
      exact .error before after
    | some value =>
      rw [held] at before after
      exact .ok before after

theorem rowKeys_length (same : putRows noRows log = putRows noRows log') :
    (log.map RowRecord.key).dedup.length = (log'.map RowRecord.key).dedup.length := by
  refine ((List.perm_ext_iff_of_nodup (List.nodup_dedup _) (List.nodup_dedup _)).mpr fun k => ?_).length_eq
  have left := putRows_ne_none noRows log k
  have right := putRows_ne_none noRows log' k
  rw [same, right] at left
  simpa [noRows] using left.symm

end Answers

/-- A scan of the shards finds the rows the calls wrote. -/
theorem Fixed.rescanned {H : HashFunctions} {count : Nat} {trace : Trace} {s : RowState} (fixed : Fixed H count trace s)
    (positive : 0 < count) : putRows noRows (scanLog s.rows 0 count) = putRows noRows s.live := by
  obtain ⟨_, live, _, home⟩ := fixed
  have inside : ∀ r ∈ s.rows, r.shardId < count := fun r member => by
    rw [home r member]
    exact Nat.mod_lt _ positive
  rw [live]
  refine putRows_scanLog inside fun k r last r' member key => ?_
  rw [home r' member, home r (lastWrite_mem last).1, key, (lastWrite_mem last).2]

section Rebuild
variable {H : HashFunctions} {retries : Nat} {start options : DatabaseOptions} {trace : Trace} {w : World}
  {objects : ObjectLog} {rows live : RowLog} {count : Nat} {s : RowState}

/-- A file that the layout check of the row index rejects for a shard count
without reading past its end. -/
def RejectedRowIndex (options : DatabaseOptions) (b : Bytes) : Prop :=
  b.length < 2 ^ 63 ∧
    Runs (hasValidRowIndexLayout b.length) (World.withMapped { members := { options := options } } .rowIndex b) false
      (World.withMapped { members := { options := options } } .rowIndex b)

theorem RejectedRowIndex.refused {b : Bytes} (rejected : RejectedRowIndex options b) :
    ¬ RowAccepted b options.rowShardCount ∧ ¬ RowOverreads b options.rowShardCount := by
  obtain ⟨_, verdict, inside⟩ := hasValidRowIndexLayout_inv
    (World.sees_withMapped { members := { options := options } } .rowIndex b) rejected.1 rejected.2
  exact ⟨fun accepted => (nomatch verdict.mpr accepted), inside⟩

theorem Resting.replaceRowIndex (rest : Resting H w objects rows live count) {index : Option Bytes}
    (rejected : RowIndexRejected (w.setFile .rowIndex index) count) :
    Resting H (w.setFile .rowIndex index) objects rows (scanLog rows 0 count) count where
  closed := rest.closed
  unmapped := rest.unmapped
  directory := rest.directory
  values := by simpa [ValuesOnDisk, World.setFile] using rest.values
  small := rest.small
  fits := rest.fits
  index := by simpa [IndexOnDisk, World.setFile] using rest.index
  archive := ⟨fun i => by simpa [World.setFile] using rest.archive.disk i, rest.archive.small, rest.archive.complete⟩
  rowIndex := Or.inl rejected
  covers := covers_scanLog rows count

/-- With its row index removed or replaced by a file that fails the layout
check, the database opens with the same shard count, serves the same rows and
numbers new blocks after all blocks of all shards. -/
theorem rebuilt_rowIndex_serves (history : History H retries start trace w)
    (same : SameShards start.rowShardCount trace)
    (unwrapped : Unwrapped (History H retries start) trace)
    (accepted : options.Accepted) (count : options.rowShardCount = start.rowShardCount) {index : Option Bytes}
    (rejected : ∀ b, index = some b → RejectedRowIndex options b)
    (bounded : Bounded (openReadWrite H (retries + 1) options) (w.shut.setFile .rowIndex index)) :
    Runs close w () w.shut ∧
    ∃ w', Runs (openReadWrite H (retries + 1) options) (w.shut.setFile .rowIndex index) () w' ∧
      (∀ column (rowId : UInt64) key, SameAnswer (getRowStruct H (retries + 1) column rowId.toNat key) w w') ∧
      SameAnswer rowCount w w' ∧
      ∀ trace' w'', Calls H retries (written trace) w' trace' w'' → SameShards start.rowShardCount trace' →
        Unwrapped (Calls H retries (written trace) w') trace' → ∀ sequence w₃, Runs nextRowSequence w'' sequence w₃ →
        ∀ i < start.rowShardCount, ∀ bytes, w''.disk (.rowShard i) = some bytes →
        ∀ offset, BlockStart bytes offset → blockSequence bytes offset < sequence := by
  obtain ⟨accepted₀, bounded₀, opens, calls⟩ := history
  obtain ⟨s, active, rowHistory, numbered, counted⟩ := calls.numbered (first_open accepted₀ bounded₀ opens)
    (fun _ member => nomatch member) same fun before after w split run =>
      unwrapped before after w split (.opened accepted₀ bounded₀ opens run)
  have fixed := rowHistory.fixed same
  obtain ⟨counted, _, _, home⟩ := id fixed
  rw [← count] at counted home fixed ⊢
  have refused : RowIndexRejected (w.shut.setFile .rowIndex index) options.rowShardCount :=
    fun b present => (rejected b (by simpa [World.setFile] using present)).refused
  have rest := active.resting (Or.inr active.keepsIndex) active.covers
  rw [counted] at rest
  obtain ⟨w', live', next, opened, active', choice, _⟩ := openReadWrite_runs (rest.replaceRowIndex refused) accepted retries
    bounded
  obtain ⟨_, rfl, rfl⟩ := choice.resolve_left fun kept => kept.1 refused
  have positive := Nat.pos_of_ne_zero accepted.shards
  have inside : ∀ r ∈ s.rows, r.shardId < options.rowShardCount := fun r member => by
    rw [home r member]
    exact Nat.mod_lt _ positive
  have same_rows := fixed.rescanned positive
  refine ⟨close_runs active, w', opened, fun column rowId key => ?_, ?_, ?_⟩
  · have before := getRowStruct_eq active.rows active.serving.isOpen (column, rowId.toNat) key retries
    have after := getRowStruct_eq active'.rows active'.serving.isOpen (column, rowId.toNat) key retries
    rw [same_rows] at after
    exact sameAnswer_rowAnswer before after
  · have before := rowCount_runs active.rows
    have after := rowCount_runs active'.rows
    rw [rowKeys_length same_rows] at after
    exact .ok before after
  · intro trace' w'' calls' same' unwrapped' sequence w₃ handed i below bytes content offset blockStart
    have numbered' : Numbered ⟨s.rows, scanLog s.rows 0 options.rowShardCount, options.rowShardCount,
        nextAfter 1 (scanLog s.rows 0 options.rowShardCount)⟩ := by
      intro r member
      have bound := numbered r member
      have small : s.next < 2 ^ 64 := by
        obtain ⟨b, _, _, _, files⟩ := active.rows
        rw [← active.next, World.nextSequence_eq files.index]
        exact rowSequence_lt b
      exact lt_nextAfter (mem_scanLog.mpr ⟨member, Nat.zero_le _, by rw [Nat.zero_add]; exact inside r member⟩) (by omega)
    obtain ⟨s', active'', _, numbered'', counted'⟩ := calls'.numbered active' numbered' same' unwrapped'
    exact active''.blocks_below numbered'' handed (by rw [counted']; exact below) content blockStart

theorem rebuilt_rowIndex_serves_sample : ∃ w w', Runs close w () w.shut ∧
    Runs (openReadWrite .shipped 1 (smallOptions 2)) (w.shut.setFile .rowIndex none) () w' ∧
    SameAnswer (getRowStruct .shipped 1 [1] 4 [5]) w w' ∧ SameAnswer rowCount w w' := by
  obtain ⟨w, history, bounded⟩ := sample_rowHistory
  have rejected : ∀ b, (none : Option Bytes) = some b → RejectedRowIndex (smallOptions 2) b := nofun
  obtain ⟨closed, w', opened, same, counts, _⟩ := rebuilt_rowIndex_serves history sample_sameShards
    (unwrapped_of_length sample_sameShards (by decide)) (by decide +kernel) rfl rejected bounded
  exact ⟨w, w', closed, opened, same [1] 4 [5], counts⟩

end Rebuild

end LumoDB
