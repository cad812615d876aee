import LumoDB.RowRefinement

namespace LumoDB
open ByteCodec Effects LinearProbing

/-- The row that a call writes. -/
def Call.rowKey (call : Call) : Option RowKey := (call.rowWrite noRows).map Prod.fst

/-- The shards in which a run put the blocks of the row `k`, in the order of
its writes. -/
def blockShards (H : HashFunctions) (k : RowKey) : DatabaseOptions → Trace → List Nat
  | _, [] => []
  | options, (call, ok) :: later =>
    (if ok = true ∧ call.rowKey = some k then [rowHome H k % options.rowShardCount] else []) ++
      blockShards H k (lastOptions options [(call, ok)]) later

/-- No `Open` of the run has fewer shards than the one before it. -/
def GrowingShards (start : DatabaseOptions) (trace : Trace) : Prop :=
  ∀ earlier options ok later, trace = earlier ++ (.reopen options, ok) :: later →
    (lastOptions start earlier).rowShardCount ≤ options.rowShardCount

/-- The most recent block of every row lies in the last of the shards that hold
blocks of the row. -/
def NewestLast (H : HashFunctions) (start : DatabaseOptions) (trace : Trace) : Prop :=
  ∀ k, ∀ newest ∈ (blockShards H k start trace).getLast?, ∀ shard ∈ blockShards H k start trace, shard ≤ newest

/-- Every `Open` with a new shard count finds the most recent blocks in the last
shards. -/
def GrowsAligned (H : HashFunctions) (start : DatabaseOptions) (trace : Trace) : Prop :=
  ∀ earlier options ok later, trace = earlier ++ (.reopen options, ok) :: later →
    options.rowShardCount ≠ (lastOptions start earlier).rowShardCount → NewestLast H start earlier

section Traces
variable {H : HashFunctions} {start : DatabaseOptions} {trace : Trace} {call : Call} {ok : Bool} {k : RowKey}

theorem lastOptions_append (start : DatabaseOptions) (trace more : Trace) :
    lastOptions start (trace ++ more) = lastOptions (lastOptions start trace) more := List.foldl_append ..

theorem blockShards_append (H : HashFunctions) (k : RowKey) (start : DatabaseOptions) (trace : Trace) (call : Call) (ok : Bool) :
    blockShards H k start (trace ++ [(call, ok)]) = blockShards H k start trace ++
      if ok = true ∧ call.rowKey = some k then [rowHome H k % (lastOptions start trace).rowShardCount] else [] := by
  induction trace generalizing start with
  | nil =>
    rw [List.nil_append, blockShards, blockShards, blockShards, List.append_nil, List.nil_append]
    rfl
  | cons step later ih =>
    rw [List.cons_append, blockShards, ih, blockShards, List.append_assoc, ← lastOptions_append]
    rfl

theorem Call.rowKey_of_write {m : RowKey → Option RowMap} {content : RowMap} (write : call.rowWrite m = some (k, content)) :
    call.rowKey = some k := by
  cases call with
  | putRowStructs | putRowStruct =>
    simp only [Call.rowWrite, Option.some.injEq, Prod.mk.injEq] at write
    rw [Call.rowKey, Call.rowWrite, Option.map_some, write.1]
  | _ => cases write

theorem Call.rowKey_of_none {m : RowKey → Option RowMap} (nothing : call.rowWrite m = none) : call.rowKey = none := by
  cases call with
  | putRowStructs | putRowStruct => cases nothing
  | _ => rfl

theorem blockShards_kept (nothing : ok = true → call.rowKey = none) :
    blockShards H k start (trace ++ [(call, ok)]) = blockShards H k start trace := by
  rw [blockShards_append, if_neg, List.append_nil]
  rintro ⟨done, writes⟩
  rw [nothing done] at writes
  cases writes

theorem GrowingShards.front {step : Call × Bool} (growing : GrowingShards start (trace ++ [step])) :
    GrowingShards start trace := by
  rintro earlier options ok later rfl
  exact growing earlier options ok (later ++ [step]) (by simp)

theorem GrowsAligned.front {step : Call × Bool} (aligned : GrowsAligned H start (trace ++ [step])) :
    GrowsAligned H start trace := by
  rintro earlier options ok later rfl
  exact aligned earlier options ok (later ++ [step]) (by simp)

/-- What holds of every `Open` of a run and of its last call holds of every
`Open` of both. -/
theorem reopens_snoc {P : Trace → DatabaseOptions → Prop}
    (before : ∀ earlier options ok later, trace = earlier ++ (.reopen options, ok) :: later → P earlier options)
    (last : ∀ options, call = .reopen options → P trace options) :
    ∀ earlier options ok' later, trace ++ [(call, ok)] = earlier ++ (.reopen options, ok') :: later → P earlier options := by
  intro earlier options ok' later split
  rcases later.eq_nil_or_concat with rfl | ⟨front, step, rfl⟩
  · obtain ⟨rfl, same⟩ := List.append_inj' split rfl
    cases same
    exact last options rfl
  · rw [List.concat_eq_append, ← List.cons_append, ← List.append_assoc] at split
    obtain ⟨rfl, _⟩ := List.append_inj' split rfl
    exact before earlier options ok' front rfl

theorem GrowingShards.snoc (growing : GrowingShards start trace)
    (last : ∀ options, call = .reopen options → (lastOptions start trace).rowShardCount ≤ options.rowShardCount) :
    GrowingShards start (trace ++ [(call, ok)]) :=
  reopens_snoc growing last

theorem GrowsAligned.snoc (aligned : GrowsAligned H start trace)
    (last : ∀ options, call = .reopen options → NewestLast H start trace) : GrowsAligned H start (trace ++ [(call, ok)]) :=
  reopens_snoc (P := fun earlier options =>
    options.rowShardCount ≠ (lastOptions start earlier).rowShardCount → NewestLast H start earlier) aligned
    fun options again _ => last options again

theorem growingShards_nil (start : DatabaseOptions) : GrowingShards start [] := by
  rintro (_ | ⟨_, _⟩) options ok later split <;> cases split

theorem growsAligned_nil (H : HashFunctions) (start : DatabaseOptions) : GrowsAligned H start [] := by
  rintro (_ | ⟨_, _⟩) options ok later split <;> cases split

theorem newestLast_single (H : HashFunctions) (start : DatabaseOptions) (step : Call × Bool) :
    NewestLast H start [step] := by
  intro k newest last shard member
  rw [blockShards, blockShards, List.append_nil] at last member
  split at member
  · rename_i writes
    rw [if_pos writes, List.getLast?_singleton, Option.mem_some] at last
    rw [List.mem_singleton.mp member, last]
  · cases member

end Traces

/-- The blocks of the shard files are those that the calls wrote, and the served
rows hold the most recent ones. -/
structure Grown (H : HashFunctions) (start : DatabaseOptions) (trace : Trace) (s : RowState) : Prop where
  counted : s.count = (lastOptions start trace).rowShardCount
  rows : putRows noRows s.rows = rowsAfter trace
  live : putRows noRows s.live = rowsAfter trace
  shards : ∀ k, (rowWrites s.rows k).map RowRecord.shardId = blockShards H k start trace
  inside : ∀ r ∈ s.rows, r.shardId < s.count

section Steps
variable {H : HashFunctions} {retries : Nat} {start options : DatabaseOptions} {trace : Trace} {w w' origin : World}
  {objects : ObjectLog} {s s' : RowState} {call : Call} {ok : Bool} {count : Nat}

theorem Grown.keeps (grown : Grown H start trace s) (counted : s'.count = (lastOptions start (trace ++ [(call, ok)])).rowShardCount)
    (more : s.count ≤ s'.count) (rows : s'.rows = s.rows) (live : putRows noRows s'.live = putRows noRows s.live)
    (nothing : ok = true → call.rowKey = none) : Grown H start (trace ++ [(call, ok)]) s' := by
  have same : rowsAfter (trace ++ [(call, ok)]) = rowsAfter trace := by
    rw [rowsAfter_append]
    cases ok with
    | false => rfl
    | true =>
      rw [if_pos rfl, Call.apply]
      cases write : call.rowWrite (rowsAfter trace) with
      | none => rfl
      | some written => cases (nothing rfl).symm.trans (Call.rowKey_of_write write)
  refine ⟨counted, ?_, ?_, fun k => ?_, fun r member => ?_⟩
  · rw [rows, same, grown.rows]
  · rw [live, same, grown.live]
  · rw [rows, blockShards_kept nothing, grown.shards]
  · rw [rows] at member
    exact lt_of_lt_of_le (grown.inside r member) more

theorem RowEffect.grown (effect : RowEffect H s call ok s') (grown : Grown H start trace s)
    (other : ∀ options, call ≠ .reopen options) (positive : 0 < s.count) : Grown H start (trace ++ [(call, ok)]) s' := by
  have counted : s.count = (lastOptions start (trace ++ [(call, ok)])).rowShardCount := by
    rw [lastOptions_other start trace ok other]
    exact grown.counted
  cases effect with
  | kept nothing => exact grown.keeps counted le_rfl rfl rfl fun done => Call.rowKey_of_none (nothing done)
  | failed => exact grown.keeps counted le_rfl rfl rfl (fun done => by cases done)
  | @written _ r write shard sequence =>
    have key := Call.rowKey_of_write write
    rw [grown.live] at write
    have content : rowsAfter (trace ++ [(call, true)]) = Function.update (rowsAfter trace) r.key (some r.content) := by
      rw [rowsAfter_append, if_pos rfl, Call.apply, write]
    refine ⟨counted, ?_, ?_, fun k => ?_, fun r' member => ?_⟩
    · rw [content, putRows_append, putRows_singleton, grown.rows]
    · rw [content, putRows_append, putRows_singleton, grown.live]
    · rw [blockShards_append, key, rowWrites_append, List.map_append, grown.shards, ← grown.counted]
      by_cases same : r.key = k
      · rw [if_pos ⟨rfl, by rw [same]⟩]
        simp [rowWrites, same, shard]
      · rw [if_neg fun both => same (Option.some.inj both.2)]
        simp [rowWrites, same]
    · rcases List.mem_append.mp member with old | new
      · exact grown.inside r' old
      · rw [List.mem_singleton.mp new, shard]
        exact Nat.mod_lt _ positive
  | reopened => exact absurd rfl (other _)

/-- A rebuild over more shards selects the most recent blocks when these lie in
the last shards. -/
theorem Grown.reopened (grown : Grown H start trace s) (more : s.count ≤ options.rowShardCount)
    (aligned : options.rowShardCount ≠ s.count → NewestLast H start trace) :
    Grown H start (trace ++ [(.reopen options, ok)]) (s.reopened options.rowShardCount) := by
  have last := lastOptions_reopen start options trace ok
  by_cases again : options.rowShardCount = s.count
  · rw [RowState.reopened, if_pos again]
    exact grown.keeps (by rw [last, again]) le_rfl rfl rfl fun _ => rfl
  · rw [RowState.reopened, if_neg again]
    refine grown.keeps (by rw [last]) more rfl ?_ fun _ => rfl
    have selected : putRows noRows (scanLog s.rows 0 options.rowShardCount) = putRows noRows s.rows := by
      refine putRows_scanLog (fun r member => lt_of_lt_of_le (grown.inside r member) more) fun k r newest r' member key => ?_
      refine aligned again k r.shardId ?_ r'.shardId ?_
      · rw [← grown.shards, List.getLast?_map, show (rowWrites s.rows k).getLast? = some r from newest]
        rfl
      · rw [← grown.shards]
        exact List.mem_map.mpr ⟨r', mem_rowWrites.mpr ⟨member, key⟩, rfl⟩
    rw [selected, grown.rows, grown.live]

theorem Calls.grown (calls : Calls H retries objects origin trace w) (active : Active H origin objects s)
    (fresh : Grown H start [] s) (positive : start.rowShardCount ≠ 0) (growing : GrowingShards start trace)
    (aligned : GrowsAligned H start trace) :
    ∃ s', Active H w (objects ++ written trace) s' ∧ Grown H start trace s' ∧ 0 < s'.count := by
  induction calls with
  | start =>
    refine ⟨s, ?_, fresh, ?_⟩
    · rw [written, List.flatMap_nil, List.append_nil]
      exact active
    · rw [fresh.counted]
      exact Nat.pos_of_ne_zero positive
  | @call trace w call ok w' before contract bounded returns ih =>
    obtain ⟨s', active', grown, filled⟩ := ih growing.front aligned.front
    by_cases again : ∃ options, call = .reopen options
    · obtain ⟨options, rfl⟩ := again
      have closed := close_runs active'
      obtain ⟨u, opened, active'', _⟩ := reopen_runs active' contract retries (bounded.rest closed)
      have runs : Runs ((Call.reopen options).program H (retries + 1)) w () u := by
        unfold Runs Call.program
        rw [closed.bind]
        exact opened
      obtain ⟨_, rfl⟩ := returns.unique (.ok runs)
      have more := growing trace options ok [] rfl
      have newest := aligned trace options ok [] rfl
      rw [← grown.counted] at more newest
      have next : Grown H start (trace ++ [(.reopen options, ok)]) (s'.reopened options.rowShardCount) :=
        grown.reopened more newest
      refine ⟨_, ?_, next, ?_⟩
      · rw [written_append, show (Call.reopen options).records = [] from rfl, ite_self, List.append_nil]
        exact active''
      · rw [next.counted, lastOptions_reopen]
        exact Nat.pos_of_ne_zero contract.shards
    · have other : ∀ options, call ≠ .reopen options := fun options same => again ⟨options, same⟩
      obtain ⟨ok', w'', s'', served, _⟩ := active'.serves contract bounded
      obtain ⟨rfl, rfl⟩ := returns.unique served.returns
      have next := served.effect.grown grown other filled
      refine ⟨s'', ?_, next, ?_⟩
      · rw [written_append, ← List.append_assoc]
        exact served.active
      · rw [next.counted, lastOptions_other start trace ok other, ← grown.counted]
        exact filled

/-- In a run that only ever adds shards, and adds them while the most recent
block of every row lies in the last shard that holds blocks of the row,
`GetRowStruct` returns after every `Open` what the row writes before it say. -/
theorem newest_wins (history : History H retries start trace w) (growing : GrowingShards start trace)
    (aligned : GrowsAligned H start trace) (column : Bytes) (rowId : UInt64) (key : Bytes) :
    (∀ value, (rowsAfter trace (column, rowId.toNat)).bind (· key) = some value →
      Runs (getRowStruct H (retries + 1) column rowId.toNat key) w value w) ∧
    ((rowsAfter trace (column, rowId.toNat)).bind (· key) = none →
      ∃ message, run system (getRowStruct H (retries + 1) column rowId.toNat key) w = .error (.notFound message) w) := by
  obtain ⟨accepted, bounded, opens, calls⟩ := history
  have fresh : Grown H start [] (.fresh start.rowShardCount) := ⟨rfl, rfl, rfl, fun _ => rfl, nofun⟩
  obtain ⟨s, active, grown, _⟩ := calls.grown (first_open accepted bounded opens) fresh accepted.shards growing aligned
  rw [← grown.live]
  exact getRowStruct_runs active.rows active.serving.isOpen (column, rowId.toNat) key retries

theorem threeShards_lt : 3 < 2 ^ 32 := by decide

theorem fourShards_lt : 4 < 2 ^ 32 := by decide

/-- A row is written with one shard and again with two. -/
def twoVersions : Trace :=
  [(.putRowStructs [2] 10 [⟨[1], [9]⟩], true), (.reopen (smallOptions 2 twoShards_lt), true),
    (.putRowStructs [2] 10 [⟨[1], [7]⟩], true)]

/-- The second version of the row lies behind the first. -/
theorem newestLast_twoVersions : NewestLast .shipped (smallOptions 1) twoVersions := by
  intro k newest last shard member
  by_cases same : k = ([2], 10)
  · have shards : blockShards .shipped ([2], 10) (smallOptions 1) twoVersions = [0, 1] := by decide +kernel
    rw [same, shards] at last member
    cases Option.mem_def.mp last
    rcases List.mem_pair.mp member with rfl | rfl <;> decide
  · have other : ∀ value, (Call.putRowStructs [2] 10 [⟨[1], value⟩]).rowKey ≠ some k := by
      intro value again
      exact same (Option.some.inj again).symm
    have none : blockShards .shipped k (smallOptions 1) twoVersions = [] := by
      have reopened : (Call.reopen (smallOptions 2 twoShards_lt)).rowKey ≠ some k := nofun
      simp only [twoVersions, blockShards, other, reopened, and_false, if_false, List.nil_append]
    rw [none] at member
    cases member

/-- With a third shard the index is rebuilt from both versions of the row, and
the second one is served. -/
theorem newest_wins_sample : ∃ w, History .shipped 0 (smallOptions 1)
      (twoVersions ++ [(.reopen (smallOptions 3 threeShards_lt), true)]) w ∧
    blockShards .shipped ([2], 10) (smallOptions 1) twoVersions = [0, 1] ∧ Runs (getRowStruct .shipped 1 [2] 10 [1]) w [7] w := by
  obtain ⟨w, history, _⟩ := @History.exists_of_replay .shipped 0 (smallOptions 1)
    (twoVersions.map Prod.fst ++ [.reopen (smallOptions 3 threeShards_lt)])
    (twoVersions ++ [(.reopen (smallOptions 3 threeShards_lt), true)]) (fun _ => True) _ (by decide +kernel)
  have growing : GrowingShards (smallOptions 1) (twoVersions ++ [(.reopen (smallOptions 3 threeShards_lt), true)]) :=
    ((((growingShards_nil _).snoc (by simp)).snoc (by rintro options ⟨⟩; decide)).snoc (by simp)).snoc
      (by rintro options ⟨⟩; decide)
  have aligned : GrowsAligned .shipped (smallOptions 1) (twoVersions ++ [(.reopen (smallOptions 3 threeShards_lt), true)]) :=
    ((((growsAligned_nil _ _).snoc (by simp)).snoc (fun _ _ => newestLast_single _ _ _)).snoc (by simp)).snoc
      fun _ _ => newestLast_twoVersions
  exact ⟨w, history, by decide +kernel, (newest_wins history growing aligned [2] 10 [1]).1 [7] (by decide)⟩

/-- A row whose block moves from shard 1 to shard 0 when the third shard comes.
The fourth makes a rebuild meet the older block last. -/
def threeGrowths : Trace :=
  [(.putRowStructs [2] 10 [⟨[1], [9]⟩], true), (.reopen (smallOptions 3 threeShards_lt), true),
    (.putRowStructs [2] 10 [⟨[1], [7]⟩], true), (.reopen (smallOptions 4 fourShards_lt), true)]

theorem older_version_served : ¬ ∀ (H : HashFunctions) (start : DatabaseOptions) (trace : Trace) (w : World)
    (column : Bytes) (rowId : UInt64) (key value : Bytes), History H 0 start trace w → GrowingShards start trace →
    (rowsAfter trace (column, rowId.toNat)).bind (· key) = some value →
    Runs (getRowStruct H 1 column rowId.toNat key) w value w := by
  intro newest
  obtain ⟨w, history, old⟩ := @History.exists_of_replay .shipped 0 (smallOptions 2) (threeGrowths.map Prod.fst) threeGrowths
    (fun w => (run system (getRowStruct .shipped 1 [2] 10 [1]) w).value? = some [9]) _ (by decide +kernel)
  have growing : GrowingShards (smallOptions 2) threeGrowths :=
    ((((growingShards_nil _).snoc (by simp)).snoc (by rintro options ⟨⟩; decide)).snoc (by simp)).snoc
      (by rintro options ⟨⟩; decide)
  have runs : Runs (getRowStruct .shipped 1 [2] 10 [1]) w [7] w :=
    newest .shipped (smallOptions 2) threeGrowths w [2] 10 [1] [7] history growing (by decide)
  rw [runs] at old
  cases old

end Steps

end LumoDB
