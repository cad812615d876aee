import LumoDB.ConcurrentRows
import LumoDB.RowRefinement
import Mathlib.Data.Fin.VecNotation

namespace LumoDB
open ByteCodec Effects LinearProbing

section Frames
variable {H : HashFunctions} {w w' : World} {objects : ObjectLog} {s : RowState} {live : RowLog}

/-- The blocks of the shards from `count` on, and those of `live`. -/
def keepAbove (rows : RowLog) (count : Nat) (live : RowLog) : RowLog := rows.filter (fun r => count ≤ r.shardId) ++ live

theorem shardLog_keepAbove {rows : RowLog} {count i : Nat} (inside : ∀ r ∈ live, r.shardId < count) :
    shardLog (keepAbove rows count live) i = if i < count then shardLog live i else shardLog rows i := by
  unfold shardLog keepAbove
  rw [List.filter_append, List.filter_filter]
  by_cases below : i < count
  · have above : (rows.filter fun r => decide (r.shardId = i) && decide (count ≤ r.shardId)) = [] :=
      List.filter_eq_nil_iff.mpr fun r _ => by simp; omega
    rw [above, List.nil_append, if_pos below]
  · have outside : (live.filter fun r => decide (r.shardId = i)) = [] :=
      List.filter_eq_nil_iff.mpr fun r member => by
        have := inside r member
        simp
        omega
    rw [outside, List.append_nil, if_neg below]
    refine List.filter_congr fun r _ => ?_
    simp
    omega

/-- After steps on the row side that leave a served row store the database is
open and serves the rows it has now. -/
theorem Active.withRows (active : Active H w objects s) (step : RowStep w w') (store : RowStore H w' live) :
    ∃ s', Active H w' objects s' ∧ s'.live = live ∧ s'.count = s.count := by
  obtain ⟨b, n, slot, ref, files⟩ := id store
  have count : w'.members.options.rowShardCount = s.count := by rw [step.options, active.count]
  have inside : ∀ r ∈ live, r.shardId < s.count := by
    rw [← count]
    exact files.shards
  have log : ∀ i, shardLog (keepAbove s.rows s.count live) i = if i < s.count then shardLog live i else shardLog s.rows i :=
    fun i => shardLog_keepAbove inside
  have bytes : ∀ i, shardBytes (keepAbove s.rows s.count live) i =
      if i < s.count then shardBytes live i else shardBytes s.rows i := by
    intro i
    unfold shardBytes
    rw [log i]
    split <;> rfl
  refine ⟨⟨keepAbove s.rows s.count live, live, s.count, w'.nextSequence⟩, ?_, rfl, rfl⟩
  refine ⟨active.serving.rowStep step, by rw [step.directory]; exact active.directory, active.objects.rowStep step,
    ⟨fun i => ?_, fun i => ?_, fun r member => ?_⟩, ⟨inside, fun i below => by rw [log i, if_pos below]⟩, store, count, rfl⟩
  · by_cases below : i < s.count
    · rw [bytes i, if_pos below]
      exact Or.inl (files.reads.content i (by rw [count]; exact below))
    · rw [bytes i, log i, if_neg below, if_neg below, step.unused i (by rw [active.count]; omega)]
      exact active.archive.disk i
  · rw [bytes i]
    split
    · exact files.reads.small i (by rw [count]; assumption)
    · exact active.archive.small i
  · rcases List.mem_append.mp member with old | new
    · exact active.archive.complete r (List.mem_of_mem_filter old)
    · exact files.complete r new

end Frames

section Rounds
variable {ι : Type} [DecidableEq ι] {H : HashFunctions} {retries : Nat} {w w' : World} {objects : ObjectLog} {s : RowState}
  {calls : ι → RowCall} {writers : Finset ι} {P : RowPool ι}

/-- When the writes have ended the database serves the rows as they leave
them. -/
theorem Active.settled (active : Active H w objects s) (promised : Promised H w (putRows noRows s.live) calls writers)
    (reaches : Pool.Reaches system Op.FitsAt (rowPool H (retries + 1) calls, w) (P, w')) (ended : WritesEnded writers P) :
    ∃ s', Active H w' objects s' ∧ s'.count = s.count ∧
      ∀ order, Succeeded writers P order → putRows noRows s'.live = inTurn calls (putRows noRows s.live) order := by
  obtain ⟨R, hashes, times, given, writes, log, begins⟩ := active.exists_round promised (retries + 1)
  have pool : R.pool = rowPool H (retries + 1) calls := by rw [Round.pool, hashes, times, given]
  have rows : R.rows = putRows noRows s.live := congrArg (putRows noRows) log
  rw [← pool] at reaches
  rw [← writes] at ended
  obtain ⟨more, store, step, settled⟩ := Round.settles begins reaches ended
  rw [hashes] at store
  obtain ⟨s', active', live, count⟩ := active.withRows step store
  refine ⟨s', active', count, fun order succeeded => ?_⟩
  rw [← writes] at succeeded
  rw [live, settled order succeeded, given, rows]

end Rounds

section History
variable {H : HashFunctions} {retries : Nat} {start : DatabaseOptions} {objects : ObjectLog} {rows : RowKey → Option RowMap}
  {w : World}

/-- The runs from the first `Open` on, with one shard count, in which calls are
made one at a time, and row calls also at the same time: the records written,
the rows and the state. -/
inductive ThreadedHistory (H : HashFunctions) (retries : Nat) (start : DatabaseOptions) :
    ObjectLog → (RowKey → Option RowMap) → World → Prop where
  | opened {origin : World} (accepted : start.Accepted) (bounded : Bounded (openReadWrite H (retries + 1) start) {})
      (opens : Runs (openReadWrite H (retries + 1) start) {} () origin) : ThreadedHistory H retries start [] noRows origin
  | call {objects : ObjectLog} {rows : RowKey → Option RowMap} {w w' : World} {call : Call} {ok : Bool}
      (before : ThreadedHistory H retries start objects rows w) (contract : call.Contract objects)
      (shards : ∀ options, call = .reopen options → options.rowShardCount = start.rowShardCount)
      (bounded : Bounded (call.program H (retries + 1)) w) (returns : Returns (call.program H (retries + 1)) w ok w') :
      ThreadedHistory H retries start (objects ++ if ok then call.records else []) (if ok then call.apply rows else rows) w'
  | round {objects : ObjectLog} {rows : RowKey → Option RowMap} {w w' : World} {ι : Type} [DecidableEq ι] {calls : ι → RowCall}
      {writers : Finset ι} {P : RowPool ι} {order : List ι} (before : ThreadedHistory H retries start objects rows w)
      (promised : Promised H w rows calls writers)
      (reaches : Pool.Reaches system Op.FitsAt (rowPool H (retries + 1) calls, w) (P, w')) (ended : WritesEnded writers P)
      (succeeded : Succeeded writers P order) : ThreadedHistory H retries start objects (inTurn calls rows order) w'

/-- Runs without calls at the same time are among them. -/
theorem ThreadedHistory.of_history {trace : Trace} (history : History H retries start trace w)
    (same : SameShards start.rowShardCount trace) : ThreadedHistory H retries start (written trace) (rowsAfter trace) w := by
  obtain ⟨accepted, bounded, opens, calls⟩ := history
  induction calls with
  | start => exact .opened accepted bounded opens
  | @call trace w call ok w' before contract bounded returns ih =>
    rw [written_append, rowsAfter_append]
    refine .call (ih same.front) contract ?_ bounded returns
    rintro options rfl
    exact same options ok (List.mem_append_right _ (List.mem_singleton_self _))

/-- In every state the database serves the records and the rows. -/
theorem ThreadedHistory.active (history : ThreadedHistory H retries start objects rows w) :
    ∃ s, Active H w objects s ∧ putRows noRows s.live = rows ∧ s.count = start.rowShardCount := by
  induction history with
  | opened accepted bounded opens => exact ⟨_, first_open accepted bounded opens, rfl, rfl⟩
  | @call objects rows w w' call ok before contract shards bounded returns ih =>
    obtain ⟨s, active, live, count⟩ := ih
    obtain ⟨ok, w', s', served, _⟩ := active.serves contract bounded
    obtain ⟨rfl, rfl⟩ := returns.unique served.returns
    have again : ∀ options, call = .reopen options → options.rowShardCount = s.count := by
      intro options same
      rw [count]
      exact shards options same
    refine ⟨s', served.active, ?_, ?_⟩
    · rw [served.effect.rows again, live]
    · cases served.effect with
      | @reopened options =>
        rw [RowState.reopened, if_pos (again options rfl)]
        exact count
      | _ => exact count
  | round before promised reaches ended succeeded ih =>
    obtain ⟨s, active, rfl, count⟩ := ih
    obtain ⟨s', active', same, live⟩ := active.settled promised reaches ended
    exact ⟨s', active', live _ succeeded, same.trans count⟩

end History

/-- Calls that are made at the same time in a state of a run. -/
structure Concurrent {ι : Type} (H : HashFunctions) (retries : Nat) (start : DatabaseOptions) (rows : RowKey → Option RowMap) (w : World)
    (calls : ι → RowCall) (writers : Finset ι) : Prop where
  reached : ∃ objects, ThreadedHistory H retries start objects rows w
  promised : Promised H w rows calls writers

section Sample

/-- Two rows are written while one of them is read. -/
def twoWriters : Fin 3 → RowCall :=
  ![.putRowStructs [2] 6 [⟨[1], [9]⟩], .putRowStruct [2] 7 [1] [8], .getRowStruct [2] 6 [1]]

/-- The first write gets ahead of the second. -/
def writeTurns : List (Fin 3) := (List.replicate 12 [0, 0, 1]).flatten

/-- The read and the rest of the second write take turns. -/
def readTurns : List (Fin 3) := (List.replicate 30 [2, 1]).flatten

theorem twoWriters_promised {w : World} (load : w.members.options.maxLoadFactor = 4 / 5) (counts : Runs rowCount w 0 w)
    (size : Runs rowBucketCount w 16 w) : Promised .shipped w noRows twoWriters {0, 1} where
  writes i := by
    match i with
    | 0 => simp [twoWriters, RowCall.Writes]
    | 1 => simp [twoWriters, RowCall.Writes]
    | 2 => simp [twoWriters, RowCall.Writes]
  distinct := by decide
  alone i _ stored := absurd rfl stored
  room := ⟨0, 16, counts, size, by decide⟩
  sized i writer := by
    rw [load]
    refine RowCall.sized_of_blockLength (show 843 < 2 ^ 63 by decide) fun entries built => ?_
    rcases Finset.mem_insert.mp writer with rfl | second
    · obtain rfl : entries = [⟨[1], [9]⟩] := built
      decide +kernel
    · rw [Finset.mem_singleton.mp second] at built ⊢
      obtain ⟨stored, nodup, none, rfl⟩ := built
      obtain rfl : stored = [] := by
        refine List.eq_nil_iff_forall_not_mem.mpr fun entry member => ?_
        have held := rowMap_stored nodup entry member
        rw [none] at held
        cases held
      decide +kernel

theorem RowHistory.eq_start {H : HashFunctions} {start s : RowState} {trace : Trace} (history : RowHistory H start trace s)
    (none : trace = []) : s = start := by
  cases history with
  | start => rfl
  | call => simp at none

/-- The three calls on a new database. In `s₁` the first write has returned and
the second has not, in `s₂` all three have. -/
structure WritesAndRead (w s₁ s₂ : World) (P₁ P₂ : RowPool (Fin 3)) : Prop where
  concurrent : Concurrent .shipped 0 (smallOptions 1) noRows w twoWriters {0, 1}
  load : w.members.options.maxLoadFactor = 4 / 5
  counts : Runs rowCount w 0 w
  size : Runs rowBucketCount w 16 w
  first : Pool.Reaches system Op.FitsAt (rowPool .shipped 1 twoWriters, w) (P₁, s₁)
  rest : Pool.Reaches system Op.FitsAt (P₁, s₁) (P₂, s₂)
  returned : P₁ 0 = .ret none
  running : P₁ 1 ≠ .ret none
  unbegun : P₁ 2 = rowPool .shipped 1 twoWriters 2
  kept : P₂ 0 = .ret none
  written : P₂ 1 = .ret none
  value : P₂ 2 = .ret (some [9])

theorem exists_writesAndRead : ∃ w s₁ s₂ P₁ P₂, WritesAndRead w s₁ s₂ P₁ P₂ := by
  obtain ⟨w, history, buckets, load, put, other, kept, written, got⟩ :=
    @History.exists_of_replay .shipped 0 (smallOptions 1) [] []
    (fun w => w.rowBuckets = 16 ∧ w.members.options.maxLoadFactor = 4 / 5 ∧
      ((Pool.follow system Op.FitsAt writeTurns (rowPool .shipped 1 twoWriters, w)).1 0).returned? = some none ∧
      ((Pool.follow system Op.FitsAt writeTurns (rowPool .shipped 1 twoWriters, w)).1 1).returned? = none ∧
      ((Pool.follow system Op.FitsAt readTurns
        (Pool.follow system Op.FitsAt writeTurns (rowPool .shipped 1 twoWriters, w))).1 0).returned? = some none ∧
      ((Pool.follow system Op.FitsAt readTurns
        (Pool.follow system Op.FitsAt writeTurns (rowPool .shipped 1 twoWriters, w))).1 1).returned? = some none ∧
      ((Pool.follow system Op.FitsAt readTurns
        (Pool.follow system Op.FitsAt writeTurns (rowPool .shipped 1 twoWriters, w))).1 2).returned? = some (some [9])) _
    (by decide +kernel)
  obtain ⟨s, active, rows⟩ := history.active
  obtain rfl := rows.eq_start rfl
  have counts : Runs rowCount w 0 w := rowCount_runs active.rows
  have size : Runs rowBucketCount w 16 w := buckets ▸ rowBucketCount_runs active.rows
  have writes : Pool.Reaches system Op.FitsAt (rowPool .shipped 1 twoWriters, w)
      (Pool.follow system Op.FitsAt writeTurns (rowPool .shipped 1 twoWriters, w)) := Pool.reaches_follow _
  have unbegun : (Pool.follow system Op.FitsAt writeTurns (rowPool .shipped 1 twoWriters, w)).1 2 =
      rowPool .shipped 1 twoWriters 2 := Pool.follow_other (by decide) _
  generalize Pool.follow system Op.FitsAt writeTurns (rowPool .shipped 1 twoWriters, w) = x₁ at *
  have reads : Pool.Reaches system Op.FitsAt x₁ (Pool.follow system Op.FitsAt readTurns x₁) := Pool.reaches_follow _
  generalize Pool.follow system Op.FitsAt readTurns x₁ = x₂ at *
  refine ⟨w, x₁.2, x₂.2, x₁.1, x₂.1, ⟨⟨_, .of_history history nofun⟩, twoWriters_promised load counts size⟩, load, counts, size,
    writes, reads, Prog.eq_ret_of_returned? put, fun ended => ?_, unbegun, Prog.eq_ret_of_returned? kept,
    Prog.eq_ret_of_returned? written, Prog.eq_ret_of_returned? got⟩
  rw [ended] at other
  cases other

theorem WritesAndRead.ended {w s₁ s₂ : World} {P₁ P₂ : RowPool (Fin 3)} (sample : WritesAndRead w s₁ s₂ P₁ P₂) :
    WritesEnded {0, 1} P₂ := by
  intro i writer
  rcases Finset.mem_insert.mp writer with rfl | second
  · exact Or.inl ⟨none, sample.kept⟩
  · exact Or.inl ⟨none, Finset.mem_singleton.mp second ▸ sample.written⟩

theorem WritesAndRead.succeeded {w s₁ s₂ : World} {P₁ P₂ : RowPool (Fin 3)} (sample : WritesAndRead w s₁ s₂ P₁ P₂) :
    Succeeded {0, 1} P₂ [1, 0] where
  once := by decide
  mem i := by
    match i with
    | 0 => exact iff_of_true (by decide) ⟨by decide, none, sample.kept⟩
    | 1 => exact iff_of_true (by decide) ⟨by decide, none, sample.written⟩
    | 2 => exact iff_of_false (by decide) fun both => absurd both.1 (by decide)

/-- A row is replaced while it is read. -/
def replaceAndGet : Fin 2 → RowCall := ![.putRowStructs [2] 5 [⟨[1], [9, 9]⟩], .getRowStruct [2] 5 [1]]

/-- The write falls between the two halves of the snapshot of the row's bucket. -/
def tearingTurns : List (Fin 2) := List.replicate 7 1 ++ (List.replicate 40 0 ++ List.replicate 20 1)

/-- What `alone` leaves out: the read sees the place of the old block with the
size of the new one. -/
theorem replaced_while_read : ∃ w s P, History .shipped 0 (smallOptions 1) [(.putRowStructs [2] 5 [⟨[1], [9]⟩], true)] w ∧
    Pool.Reaches system Op.FitsAt (rowPool .shipped 1 replaceAndGet, w) (P, s) ∧
    P 1 = .fail (.corruption "row index points to an invalid row block") := by
  obtain ⟨w, history, failed⟩ :=
    @History.exists_of_replay .shipped 0 (smallOptions 1) [.putRowStructs [2] 5 [⟨[1], [9]⟩]]
      [(.putRowStructs [2] 5 [⟨[1], [9]⟩], true)] (fun w => ((Pool.follow system Op.FitsAt tearingTurns (rowPool .shipped 1 replaceAndGet, w)).1 1).failed? =
        some (.corruption "row index points to an invalid row block")) _ (by decide +kernel)
  exact ⟨w, _, _, history, Pool.reaches_follow _, Prog.eq_fail_of_failed? failed⟩

end Sample

section Refinement
variable {H : HashFunctions} {retries : Nat} {start : DatabaseOptions} {objects : ObjectLog} {rows : RowKey → Option RowMap}
  {w : World}

end Refinement

section Calls
variable {ι : Type} [DecidableEq ι] {H : HashFunctions} {retries : Nat} {start : DatabaseOptions} {objects : ObjectLog}
  {rows : RowKey → Option RowMap} {w s s₁ s₂ : World} {calls : ι → RowCall} {writers : Finset ι} {P P₁ P₂ : RowPool ι}
  {i j : ι} {column key : Bytes} {rowId : UInt64}

omit [DecidableEq ι] in
theorem Concurrent.exists_round (concurrent : Concurrent H retries start rows w calls writers) :
    ∃ R : Round ι, R.H = H ∧ R.calls = calls ∧ R.writers = writers ∧ R.rows = rows ∧ R.count = start.rowShardCount ∧
      R.n = w.rowBuckets ∧ R.options = w.members.options ∧ R.pool = rowPool H (retries + 1) calls ∧ R.Begins w := by
  obtain ⟨objects, history⟩ := concurrent.reached
  obtain ⟨s, active, rfl, count⟩ := history.active
  obtain ⟨R, hashes, times, given, writes, log, begins⟩ := active.exists_round concurrent.promised (retries + 1)
  obtain ⟨b, ref, files⟩ := id begins.files
  refine ⟨R, hashes, given, writes, congrArg (putRows noRows) log, ?_, ?_, begins.options.symm, ?_, begins⟩
  · rw [← count, ← active.count, begins.options]
  · exact (World.rowBuckets_eq files.index files.table.toRowIndexFile).symm
  · rw [Round.pool, hashes, times, given]

/-- No write is refused for lack of room when the rows and twice the writes, less
one, are within the load of the row index. -/
theorem Concurrent.writes_admitted (concurrent : Concurrent H retries start rows w calls writers)
    (reaches : Pool.Reaches system Op.FitsAt (rowPool H (retries + 1) calls, w) (P, s)) {count buckets : Nat}
    (counts : Runs rowCount w count w) (size : Runs rowBucketCount w buckets w)
    (room : (count + 2 * writers.card : Nat) ≤ w.members.options.maxLoadFactor * buckets + 1) :
    P i ≠ .fail capacityExceeded := by
  obtain ⟨R, rfl, rfl, rfl, _, _, _, options, pool, begins⟩ := concurrent.exists_round
  rw [← pool] at reaches
  intro failed
  have crowded := Round.crowded_of_capacityExceeded begins reaches failed
  obtain ⟨rfl, _⟩ := Runs.unique counts begins.counts.1
  obtain ⟨rfl, _⟩ := Runs.unique size begins.counts.2
  rw [Round.Crowded, options] at crowded
  exact absurd room (not_le.mpr crowded)

theorem writes_admitted_twoWriters : ∃ (w s : World) (P : RowPool (Fin 3)),
    Pool.Reaches system Op.FitsAt (rowPool .shipped 1 twoWriters, w) (P, s) ∧ P 1 ≠ .fail capacityExceeded := by
  obtain ⟨w, s₁, s₂, P₁, P₂, sample⟩ := exists_writesAndRead
  have room : ((0 + 2 * ({0, 1} : Finset (Fin 3)).card : Nat) : ℚ) ≤ w.members.options.maxLoadFactor * (16 : Nat) + 1 := by
    rw [sample.load, show ({0, 1} : Finset (Fin 3)).card = 2 by decide]
    norm_num
  exact ⟨w, s₁, P₁, sample.first, sample.concurrent.writes_admitted sample.first sample.counts sample.size room⟩

/-- A read returns from one content of its row, which is the one before the
calls or the complete one of a write that does not fail. -/
theorem Concurrent.reads_whole (concurrent : Concurrent H retries start rows w calls writers)
    (reaches : Pool.Reaches system Op.FitsAt (rowPool H (retries + 1) calls, w) (P, s))
    (call : calls i = .getRowStruct column rowId key) :
    (∀ result, P i = .ret result → ∃ content value, Visible calls writers rows P (column, rowId.toNat) content ∧
      content key = some value ∧ result = some value) ∧
    ∀ status, P i = .fail status → (status = .notFound "row not found" ∧ rows (column, rowId.toNat) = none) ∨
      (status = .notFound "key not found in row" ∧
        ∃ content, Visible calls writers rows P (column, rowId.toNat) content ∧ content key = none) := by
  obtain ⟨R, rfl, rfl, rfl, rfl, _, _, _, pool, begins⟩ := concurrent.exists_round
  rw [← pool] at reaches
  have whole := Round.read_atomic begins reaches call
  rw [show R.row i = (column, rowId.toNat) by rw [Round.row, call]; rfl] at whole
  exact whole

theorem reads_whole_twoWriters : ∃ (w s : World) (P : RowPool (Fin 3)),
    Pool.Reaches system Op.FitsAt (rowPool .shipped 1 twoWriters, w) (P, s) ∧ P 2 = .ret (some [9]) ∧
      ∃ content, Visible twoWriters {0, 1} noRows P ([2], 6) content ∧ content [1] = some [9] := by
  obtain ⟨w, s₁, s₂, P₁, P₂, sample⟩ := exists_writesAndRead
  have reaches := sample.first.trans sample.rest
  have call : twoWriters 2 = .getRowStruct [2] 6 [1] := rfl
  obtain ⟨content, value, visible, held, same⟩ := (sample.concurrent.reads_whole reaches call).1 _ sample.value
  obtain rfl := Option.some.inj same
  exact ⟨w, s₂, P₂, reaches, sample.value, content, visible, held⟩

/-- Once a call has ended that wrote a row or found it, no read that begins
then misses the row. -/
theorem Concurrent.reads_follow (concurrent : Concurrent H retries start rows w calls writers)
    (before : Pool.Reaches system Op.FitsAt (rowPool H (retries + 1) calls, w) (P₁, s₁)) (saw : SawRow P₁ j)
    (unbegun : P₁ i = rowPool H (retries + 1) calls i) (after : Pool.Reaches system Op.FitsAt (P₁, s₁) (P₂, s₂))
    (call : calls i = .getRowStruct column rowId key) (row : (calls j).row = (column, rowId.toNat)) :
    P₂ i ≠ .fail (.notFound "row not found") := by
  obtain ⟨R, rfl, rfl, rfl, rfl, _, _, _, pool, begins⟩ := concurrent.exists_round
  rw [← pool] at before unbegun
  exact Round.read_after begins before saw unbegun after call (row.trans (by rw [Round.row, call]; rfl))

theorem reads_follow_twoWriters : ∃ (w s₁ s₂ : World) (P₁ P₂ : RowPool (Fin 3)),
    Pool.Reaches system Op.FitsAt (rowPool .shipped 1 twoWriters, w) (P₁, s₁) ∧ SawRow P₁ 0 ∧ P₁ 1 ≠ .ret none ∧
      P₁ 2 = rowPool .shipped 1 twoWriters 2 ∧ Pool.Reaches system Op.FitsAt (P₁, s₁) (P₂, s₂) ∧
      P₂ 2 ≠ .fail (.notFound "row not found") := by
  obtain ⟨w, s₁, s₂, P₁, P₂, sample⟩ := exists_writesAndRead
  have saw : SawRow P₁ 0 := Or.inl ⟨_, sample.returned⟩
  have call : twoWriters 2 = .getRowStruct [2] 6 [1] := rfl
  exact ⟨w, s₁, s₂, P₁, P₂, sample.first, saw, sample.running, sample.unbegun, sample.rest,
    sample.concurrent.reads_follow sample.first saw sample.unbegun sample.rest call rfl⟩

/-- At all times the row index has one bucket for each row, in which a reader
finds a complete block, and an empty one. No bucket becomes empty again or
another row's. -/
theorem Concurrent.buckets_stay (concurrent : Concurrent H retries start rows w calls writers)
    (before : Pool.Reaches system Op.FitsAt (rowPool H (retries + 1) calls, w) (P₁, s₁))
    (after : Pool.Reaches system Op.FitsAt (P₁, s₁) (P₂, s₂)) :
    ∃ slot₁ slot₂, IndexServes H calls writers rows P₁ s₁ start.rowShardCount w.rowBuckets slot₁ ∧
      IndexServes H calls writers rows P₂ s₂ start.rowShardCount w.rowBuckets slot₂ ∧
      ∀ j k, slot₁ j = some k → slot₂ j = some k := by
  obtain ⟨R, rfl, rfl, rfl, rfl, count, buckets, _, pool, begins⟩ := concurrent.exists_round
  rw [← pool] at before
  rw [← count, ← buckets]
  exact Round.buckets_kept begins before after

theorem buckets_stay_twoWriters : ∃ (w s₁ s₂ : World) (P₁ P₂ : RowPool (Fin 3)) (slot : Nat → Option RowKey),
    Pool.Reaches system Op.FitsAt (rowPool .shipped 1 twoWriters, w) (P₁, s₁) ∧ Pool.Reaches system Op.FitsAt (P₁, s₁) (P₂, s₂) ∧
      P₁ 1 ≠ .ret none ∧ IndexServes .shipped twoWriters {0, 1} noRows P₂ s₂ 1 w.rowBuckets slot := by
  obtain ⟨w, s₁, s₂, P₁, P₂, sample⟩ := exists_writesAndRead
  obtain ⟨_, slot, _, serves, _⟩ := sample.concurrent.buckets_stay sample.first sample.rest
  exact ⟨w, s₁, s₂, P₁, P₂, slot, sample.first, sample.rest, sample.running, serves⟩

end Calls

end LumoDB
