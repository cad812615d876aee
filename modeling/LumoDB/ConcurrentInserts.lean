import LumoDB.ConcurrentHistory
import LumoDB.OpenedCapacity

namespace LumoDB
open ByteCodec Effects LinearProbing

section Reached
variable {ι : Type} {H : HashFunctions} {retries : Nat} {objects : ObjectLog} {rows rows' : RowKey → Option RowMap} {w w' : World}
  {s : RowState} {calls : ι → RowCall} {writers : Finset ι} {P : RowPool ι}

/-- `GetRowStruct` answers from these rows. -/
def ServesRows (H : HashFunctions) (retries : Nat) (w : World) (rows : RowKey → Option RowMap) : Prop :=
  ∀ column (rowId : UInt64) key,
    run system (getRowStruct H (retries + 1) column rowId.toNat key) w = rowAnswer (rows (column, rowId.toNat)) key w

theorem rowAnswer_none_ne (content : RowMap) (key : Bytes) : rowAnswer none key w ≠ rowAnswer (some content) key w := by
  intro same
  unfold rowAnswer at same
  cases held : content key with
  | none =>
    simp only [held] at same
    exact absurd (Outcome.error.inj same).1 (by decide)
  | some value =>
    simp only [held] at same
    cases same

theorem rowAnswer_injective {row row' : Option RowMap} (same : ∀ key, rowAnswer row key w = rowAnswer row' key w) : row = row' := by
  cases row with
  | none =>
    cases row' with
    | none => rfl
    | some content => exact absurd (same []) (rowAnswer_none_ne content [])
  | some content =>
    cases row' with
    | none => exact absurd (same []).symm (rowAnswer_none_ne content [])
    | some content' =>
      congr 1
      funext key
      have answer := same key
      cases held : content key <;> cases held' : content' key <;> simp [rowAnswer, held, held'] at answer ⊢
      exact answer

theorem ServesRows.unique (serves : ServesRows H retries w rows) (serves' : ServesRows H retries w rows') (column : Bytes)
    (rowId : UInt64) : rows (column, rowId.toNat) = rows' (column, rowId.toNat) :=
  rowAnswer_injective fun key => (serves column rowId key).symm.trans (serves' column rowId key)

theorem Active.servesRows (active : Active H w objects s) (retries : Nat) : ServesRows H retries w (putRows noRows s.live) :=
  fun column rowId key => getRowStruct_eq active.rows active.serving.isOpen (column, rowId.toNat) key retries

/-- The promises are about the rows the calls can name. -/
theorem Promised.congr (promised : Promised H w rows calls writers)
    (same : ∀ column (rowId : UInt64), rows (column, rowId.toNat) = rows' (column, rowId.toNat)) :
    Promised H w rows' calls writers where
  writes := promised.writes
  distinct := promised.distinct
  alone i writer stored := by
    refine promised.alone i writer ?_
    have equal : rows (calls i).row = rows' (calls i).row := by cases calls i <;> exact same ..
    rwa [equal]
  room := promised.room
  sized i writer entries sequence layout built := by
    refine promised.sized i writer entries sequence layout ?_
    cases call : calls i with
    | putRowStruct column rowId key value =>
      rw [call] at built
      obtain ⟨stored, nodup, content, merged⟩ := built
      exact ⟨stored, nodup, by rw [same]; exact content, merged⟩
    | _ =>
      rw [call] at built
      exact built

variable [DecidableEq ι]

/-- The states between the calls of a run, with the records written: after the
first `Open`, after each call made alone, reopens with any options among them,
and after each round of row calls made at the same time, when its writes have
ended. -/
inductive Quiescent (H : HashFunctions) (retries : Nat) : ObjectLog → World → Prop where
  | opened {start : DatabaseOptions} {w : World} (accepted : start.Accepted)
      (bounded : Bounded (openReadWrite H (retries + 1) start) {}) (opens : Runs (openReadWrite H (retries + 1) start) {} () w) :
      Quiescent H retries [] w
  | call {objects : ObjectLog} {w w' : World} {call : Call} {ok : Bool} (before : Quiescent H retries objects w)
      (contract : call.Contract objects) (bounded : Bounded (call.program H (retries + 1)) w)
      (returns : Returns (call.program H (retries + 1)) w ok w') :
      Quiescent H retries (objects ++ if ok then call.records else []) w'
  | round {objects : ObjectLog} {rows : RowKey → Option RowMap} {w w' : World} {ι : Type} [DecidableEq ι] {calls : ι → RowCall}
      {writers : Finset ι} {P : RowPool ι} (before : Quiescent H retries objects w) (serves : ServesRows H retries w rows)
      (promised : Promised H w rows calls writers)
      (reaches : Pool.Reaches system Op.FitsAt (rowPool H (retries + 1) calls, w) (P, w')) (ended : WritesEnded writers P) :
      Quiescent H retries objects w'

theorem Quiescent.active (reached : Quiescent H retries objects w) : ∃ s, Active H w objects s := by
  induction reached with
  | opened accepted bounded opens => exact ⟨_, first_open accepted bounded opens⟩
  | call before contract bounded returns ih =>
    obtain ⟨s, active⟩ := ih
    obtain ⟨ok, w', s', served, _⟩ := active.serves contract bounded
    obtain ⟨rfl, rfl⟩ := returns.unique served.returns
    exact ⟨s', served.active⟩
  | round before serves promised reaches ended ih =>
    obtain ⟨s, active⟩ := ih
    obtain ⟨s', active', _⟩ := active.settled (promised.congr (serves.unique (active.servesRows _))) reaches ended
    exact ⟨s', active'⟩

end Reached

section Inserts
variable {ι : Type} {H : HashFunctions} {retries : Nat} {objects : ObjectLog} {rows : RowKey → Option RowMap}
  {w s s₁ : World} {state : RowState} {calls : ι → RowCall} {writers : Finset ι} {P P₁ : RowPool ι} {i j : ι}

/-- Calls made at the same time: `PutRowStructs` for different rows, none of
which is stored, with room for all of them in the load of the row index, and
`GetRowStruct`. No block reaches `2 ^ 63` bytes. -/
structure Inserts (H : HashFunctions) (retries : Nat) (w : World) (calls : ι → RowCall) (writers : Finset ι) : Prop where
  puts : ∀ i ∈ writers, ∃ column rowId entries, calls i = .putRowStructs column rowId entries
  gets : ∀ i, i ∉ writers → ∃ column rowId key, calls i = .getRowStruct column rowId key
  distinct : ∀ i ∈ writers, ∀ j ∈ writers, (calls i).row = (calls j).row → i = j
  new : ∀ i ∈ writers, ¬ StoresRow H retries w (calls i).row
  room : ∃ rows buckets, Runs rowCount w rows w ∧ Runs rowBucketCount w buckets w ∧
    ((rows + writers.card : Nat) : ℚ) ≤ w.members.options.maxLoadFactor * buckets
  sized : ∀ i ∈ writers, (calls i).Sized H w.members.options.maxLoadFactor noRows

theorem Inserts.promised (inserts : Inserts H (retries + 1) w calls writers) (active : Active H w objects state) :
    Promised H w (putRows noRows state.live) calls writers where
  writes i := by
    by_cases writer : i ∈ writers
    · obtain ⟨column, rowId, entries, call⟩ := inserts.puts i writer
      exact iff_of_true writer (by rw [call]; trivial)
    · obtain ⟨column, rowId, key, call⟩ := inserts.gets i writer
      exact iff_of_false writer (by rw [call]; exact id)
  distinct := inserts.distinct
  alone i writer stored := absurd ((storesRow_iff active.rows _ retries).mpr stored) (inserts.new i writer)
  room := by
    obtain ⟨rows, buckets, counts, size, within⟩ := inserts.room
    refine ⟨rows, buckets, counts, size, ?_⟩
    obtain ⟨_, load⟩ := active.serving.load
    obtain ⟨b, n, slot, ref, files⟩ := id active.rows
    have same := (Runs.unique size (rowBucketCount_runs active.rows)).1
    rw [World.rowBuckets_eq files.index files.table.toRowIndexFile] at same
    have positive : (0 : ℚ) < buckets := by
      rw [same]
      exact_mod_cast files.table.positive
    have below : ((rows + writers.card : Nat) : ℚ) < buckets := by nlinarith
    exact_mod_cast below
  sized i writer entries sequence layout built := by
    refine inserts.sized i writer entries sequence layout ?_
    obtain ⟨column, rowId, given, call⟩ := inserts.puts i writer
    rw [call] at built ⊢
    exact built

/-- How a read of the key ends when it sees this content of the row. -/
structure Reads (content : RowMap) (key : Bytes) (p : Db (Option Bytes)) : Prop where
  found : ∀ result, p = .ret result → ∃ value, content key = some value ∧ result = some value
  missed : ∀ status, p = .fail status → status = .notFound "key not found in row" ∧ content key = none

variable [DecidableEq ι]

omit [DecidableEq ι] in
/-- The round that the inserts make up. -/
theorem Inserts.exists_round (inserts : Inserts H (retries + 1) w calls writers) (active : Active H w objects state) :
    ∃ R : Round ι, R.H = H ∧ R.calls = calls ∧ R.writers = writers ∧ R.rows = putRows noRows state.live ∧
      R.options = w.members.options ∧ R.pool = rowPool H (retries + 1) calls ∧ R.Begins w ∧
      ∀ i ∈ writers, putRows noRows state.live (calls i).row = none := by
  obtain ⟨R, hashes, times, given, writes, log, begins⟩ := active.exists_round (inserts.promised active) (retries + 1)
  refine ⟨R, hashes, given, writes, congrArg (putRows noRows) log, begins.options.symm, ?_, begins, fun i writer => ?_⟩
  · rw [Round.pool, hashes, times, given]
  · by_contra stored
    exact inserts.new i writer ((storesRow_iff active.rows _ retries).mpr stored)

omit [DecidableEq ι] in
/-- A content of a row that a read can see is the one of the only write of the
row, or the one of before if there is none. -/
theorem Visible.cases {k : RowKey} {content : RowMap} (visible : Visible calls writers rows P k content)
    (distinct : ∀ i ∈ writers, ∀ j ∈ writers, (calls i).row = (calls j).row → i = j)
    (new : ∀ i ∈ writers, rows (calls i).row = none) :
    (rows k = some content ∧ ∀ i ∈ writers, (calls i).row ≠ k) ∨
      ∃ i ∈ writers, (calls i).row = k ∧ content = (calls i).content rows ∧ (∀ status, P i ≠ .fail status) ∧
        ∀ j ∈ writers, (calls j).row = k → j = i := by
  rcases visible with stored | ⟨i, writer, rfl, rfl, runs⟩
  · refine Or.inl ⟨stored, fun i writer same => ?_⟩
    rw [← same, new i writer] at stored
    cases stored
  · exact Or.inr ⟨i, writer, rfl, rfl, runs, fun j other same => distinct j other i writer same⟩

theorem Inserts.writer (inserts : Inserts H retries w calls writers) {column : Bytes} {rowId : UInt64}
    {entries : List RowStructEntry} (call : calls i = .putRowStructs column rowId entries) : i ∈ writers := by
  by_contra reads
  obtain ⟨_, _, _, other⟩ := inserts.gets i reads
  cases call.symm.trans other

/-- What the rows are when the inserts have ended. -/
theorem Active.inserted (active : Active H w objects state) (inserts : Inserts H (retries + 1) w calls writers)
    (reaches : Pool.Reaches system Op.FitsAt (rowPool H (retries + 1) calls, w) (P, s)) (ended : WritesEnded writers P) :
    ∃ after, ServesRows H retries s after ∧
      (∀ i ∈ writers, (∃ result, P i = .ret result) →
        after (calls i).row = some ((calls i).content (putRows noRows state.live))) ∧
      (∀ k, (∀ i ∈ writers, (calls i).row = k → ∃ status, P i = .fail status) → after k = putRows noRows state.live k) ∧
      ∃ stored : Finset RowKey, (∀ k, k ∈ stored ↔ after k ≠ none) ∧ Runs rowCount s stored.card s := by
  classical
  obtain ⟨state', active', _, turns⟩ := active.settled (inserts.promised active) reaches ended
  have succeeded : Succeeded writers P (writers.filter fun i => ∃ result, P i = .ret result).toList :=
    ⟨Finset.nodup_toList _, fun i => by rw [Finset.mem_toList, Finset.mem_filter]⟩
  obtain ⟨R, rfl, rfl, rfl, rows, _⟩ := inserts.exists_round active
  have live := turns _ succeeded
  rw [← rows] at live ⊢
  obtain ⟨wrote, others⟩ := Round.inTurn_eq (R := R) (fun i member => ((succeeded.mem i).mp member).1) succeeded.once
  refine ⟨putRows noRows state'.live, active'.servesRows _, fun i writer returned => ?_, fun k untouched => ?_,
    (state'.live.map RowRecord.key).toFinset, fun k => ?_, ?_⟩
  · rw [live]
    exact wrote i ((succeeded.mem i).mpr ⟨writer, returned⟩)
  · rw [live]
    refine others k fun i member row => ?_
    obtain ⟨writer, result, returned⟩ := (succeeded.mem i).mp member
    obtain ⟨status, failed⟩ := untouched i writer row
    cases returned.symm.trans failed
  · rw [putRows_ne_none, List.mem_toFinset]
    simp [noRows]
  · rw [List.card_toFinset]
    exact rowCount_runs active'.rows

end Inserts

section Sample

theorem Quiescent.of_history {H : HashFunctions} {retries : Nat} {start : DatabaseOptions} {trace : Trace} {w : World}
    (history : History H retries start trace w) : Quiescent H retries (written trace) w := by
  obtain ⟨accepted, bounded, opens, calls⟩ := history
  induction calls with
  | start => exact .opened accepted bounded opens
  | call before contract bounded returns ih =>
    rw [written_append]
    exact .call ih contract bounded returns

end Sample
end LumoDB
