import LumoDB.Lifecycle

namespace LumoDB
open ByteCodec Effects LinearProbing

/-- The calls on an open database. `reopen` is `Close` followed by `Open`. -/
inductive Call where
  | put (key value : Bytes)
  | putStruct (column key value : Bytes)
  | putStructs (column : Bytes) (entries : List StructEntry)
  | putUniqueStructs (column : Bytes) (entries : List StructEntry)
  | getStruct (column key : Bytes)
  | entryCount
  | putRowStructs (column : Bytes) (rowId : UInt64) (entries : List RowStructEntry)
  | putRowStruct (column : Bytes) (rowId : UInt64) (key value : Bytes)
  | getRowStruct (column : Bytes) (rowId : UInt64) (key : Bytes)
  | rowCount
  | flush
  | reopen (options : DatabaseOptions)
  deriving DecidableEq

/-- The program of a call, without the value it returns. -/
def Call.program (H : HashFunctions) (retries : Nat) : Call → Db Unit
  | put key value => LumoDB.put H key value
  | putStruct column key value => LumoDB.putStruct H column key value
  | putStructs column entries => LumoDB.putStructs H column entries
  | putUniqueStructs column entries => LumoDB.putUniqueStructs H column entries
  | getStruct column key => (LumoDB.getStruct H column key).bind fun _ => .ret ()
  | entryCount => LumoDB.entryCount.bind fun _ => .ret ()
  | putRowStructs column rowId entries => LumoDB.putRowStructs H retries column rowId.toNat entries
  | putRowStruct column rowId key value => LumoDB.putRowStruct H retries column rowId.toNat key value
  | getRowStruct column rowId key => (LumoDB.getRowStruct H retries column rowId.toNat key).bind fun _ => .ret ()
  | rowCount => LumoDB.rowCount.bind fun _ => .ret ()
  | flush => LumoDB.flush
  | reopen options => close.bind fun _ => openReadWrite H retries options

/-- The records a call writes when it returns Ok. -/
def Call.records : Call → ObjectLog
  | put key value => [((kStringColumn, key), value)]
  | putStruct column key value => [((column, key), value)]
  | putStructs column entries => recordsOf column entries
  | putUniqueStructs column entries => recordsOf column entries
  | _ => []

/-- The row a call writes when it returns Ok and finds the rows `m`. -/
def Call.rowWrite (m : RowKey → Option RowMap) : Call → Option (RowKey × RowMap)
  | putRowStructs column rowId entries => some ((column, rowId.toNat), rowMap entries)
  | putRowStruct column rowId key value =>
    some ((column, rowId.toNat),
      Function.update ((m (column, rowId.toNat)).getD fun _ => none) key (some value))
  | _ => none

/-- The calls of a run, each with whether it returned Ok. -/
abbrev Trace := List (Call × Bool)

def written (trace : Trace) : ObjectLog := trace.flatMap fun step => if step.2 then step.1.records else []

/-- The options of the last `Open` of a run. -/
def lastOptions (start : DatabaseOptions) (trace : Trace) : DatabaseOptions :=
  trace.foldl (fun options step => match step.1 with
    | .reopen later => later
    | _ => options) start

def Call.apply (call : Call) (m : RowKey → Option RowMap) : RowKey → Option RowMap :=
  match call.rowWrite m with
  | some (k, content) => Function.update m k (some content)
  | none => m

/-- The rows after the calls that returned Ok. -/
def rowsAfter (trace : Trace) : RowKey → Option RowMap :=
  trace.foldl (fun m step => if step.2 then step.1.apply m else m) noRows

/-- What the caller of each call promises: `PutUniqueStructs` writes new pairs
only, and `Open` is given options it accepts. -/
def Call.Contract (log : ObjectLog) : Call → Prop
  | putUniqueStructs column entries => FreshKeys log column entries
  | reopen options => options.Accepted
  | _ => True

/-- `p` returns from `w`, with Ok or an error, and leaves `w'`. -/
inductive Returns (p : Db Unit) (w : World) : Bool → World → Prop where
  | ok {w'} : Runs p w () w' → Returns p w true w'
  | error {e w'} : run system p w = .error e w' → Returns p w false w'

/-- The runs of calls made one at a time on an open database that holds the
records `objects`. No call makes a size, an offset or a counter overflow. -/
inductive Calls (H : HashFunctions) (retries : Nat) (objects : ObjectLog) (origin : World) : Trace → World → Prop where
  | start : Calls H retries objects origin [] origin
  | call {trace w call ok w'} (before : Calls H retries objects origin trace w)
      (contract : call.Contract (objects ++ written trace)) (bounded : Bounded (call.program H (retries + 1)) w)
      (returns : Returns (call.program H (retries + 1)) w ok w') :
      Calls H retries objects origin (trace ++ [(call, ok)]) w'

/-- The runs from the first `Open` in an empty place on. -/
inductive History (H : HashFunctions) (retries : Nat) (start : DatabaseOptions) (trace : Trace) (w : World) : Prop where
  | opened {origin} (accepted : start.Accepted) (bounded : Bounded (openReadWrite H (retries + 1) start) {})
      (opens : Runs (openReadWrite H (retries + 1) start) {} () origin)
      (calls : Calls H retries [] origin trace w) : History H retries start trace w

theorem Returns.unique {p : Db Unit} {w w₁ w₂ : World} {ok₁ ok₂ : Bool} (first : Returns p w ok₁ w₁)
    (second : Returns p w ok₂ w₂) : ok₁ = ok₂ ∧ w₁ = w₂ := by
  cases first with
  | ok first =>
    cases second with
    | ok second => exact ⟨rfl, (Runs.unique first second).2⟩
    | error second => cases first.symm.trans second
  | error first =>
    cases second with
    | ok second => cases first.symm.trans second
    | error second =>
      have same := first.symm.trans second
      simp only [Outcome.error.injEq] at same
      exact ⟨rfl, same.2⟩

theorem written_append (trace : Trace) (call : Call) (ok : Bool) :
    written (trace ++ [(call, ok)]) = written trace ++ if ok then call.records else [] := by
  simp [written]

theorem rowsAfter_append (trace : Trace) (call : Call) (ok : Bool) :
    rowsAfter (trace ++ [(call, ok)]) = if ok then call.apply (rowsAfter trace) else rowsAfter trace := by
  simp [rowsAfter]

theorem lastOptions_reopen (start options : DatabaseOptions) (trace : Trace) (ok : Bool) :
    lastOptions start (trace ++ [(.reopen options, ok)]) = options := by
  simp [lastOptions]

theorem lastOptions_other (start : DatabaseOptions) (trace : Trace) {call : Call} (ok : Bool)
    (other : ∀ options, call ≠ .reopen options) : lastOptions start (trace ++ [(call, ok)]) = lastOptions start trace := by
  rw [lastOptions, List.foldl_append]
  cases call with
  | reopen options => exact absurd rfl (other options)
  | _ => rfl

/-- What a call does to the row side. -/
inductive RowEffect (H : HashFunctions) (s : RowState) : Call → Bool → RowState → Prop where
  | kept {call ok} (nothing : ok = true → call.rowWrite (putRows noRows s.live) = none) : RowEffect H s call ok s
  | failed {call} : RowEffect H s call false { s with next := u64 (s.next + 1) }
  | written {call r} (write : call.rowWrite (putRows noRows s.live) = some (r.key, r.content))
      (shard : r.shardId = rowHome H r.key % s.count) (sequence : r.sequence = s.next) :
      RowEffect H s call true ⟨s.rows ++ [r], s.live ++ [r], s.count, u64 (s.next + 1)⟩
  | reopened {options} : RowEffect H s (.reopen options) true (s.reopened options.rowShardCount)

section Steps
variable {H : HashFunctions} {w : World} {objects : ObjectLog} {s : RowState} {call : Call} {retries : Nat}

/-- A call on an open database returns and leaves an open database. -/
structure Served (H : HashFunctions) (retries : Nat) (w : World) (objects : ObjectLog) (s : RowState)
    (call : Call) (ok : Bool) (w' : World) (s' : RowState) : Prop where
  returns : Returns (call.program H (retries + 1)) w ok w'
  active : Active H w' (objects ++ if ok then call.records else []) s'
  effect : RowEffect H s call ok s'

theorem Served.unchanged (active : Active H w objects s) {ok : Bool}
    (returns : Returns (call.program H (retries + 1)) w ok w) (records : ok = true → call.records = [])
    (noRow : ok = true → call.rowWrite (putRows noRows s.live) = none) : Served H retries w objects s call ok w s := by
  refine ⟨returns, ?_, .kept noRow⟩
  cases ok with
  | false =>
    rw [if_neg (by decide), List.append_nil]
    exact active
  | true =>
    rw [if_pos rfl, records rfl, List.append_nil]
    exact active

theorem Active.withObjects {more : ObjectLog} {b : Bytes} (active : Active H w objects s)
    (store : ObjectStore H (w.withObjects (valueFileBytes (objects ++ more)) b) (objects ++ more)) :
    Active H (w.withObjects (valueFileBytes (objects ++ more)) b) (objects ++ more) s := by
  refine ⟨⟨active.serving.isOpen, active.serving.writable, active.serving.load⟩, active.directory, store,
    active.archive.withObjects _ _, active.covers, active.rows.withObjects _ _, active.count, ?_⟩
  rw [← active.next]
  simp [World.nextSequence, World.withObjects, World.withMapped, World.setFile, World.setMembers]

/-- The four object writes are one: a batch of records of a column. -/
theorem served_writeStructs {column : Bytes} {entries : List StructEntry} {keysAreUnique : Bool}
    (active : Active H w objects s)
    (program : call.program H (retries + 1) = writeStructs H column entries keysAreUnique)
    (records : call.records = recordsOf column entries) (noRow : ∀ m, call.rowWrite m = none)
    (fresh : keysAreUnique = true → FreshKeys objects column entries)
    (bounded : Bounded (call.program H (retries + 1)) w) :
    ∃ ok w' s', Served H retries w objects s call ok w' s' := by
  rw [program] at bounded
  by_cases accepted : AcceptsStructs column entries
  · obtain ⟨b, runs, store⟩ := writeStructs_runs active.objects active.serving accepted fresh bounded
    refine ⟨true, w.withObjects (valueFileBytes (objects ++ recordsOf column entries)) b, s,
      .ok (by rw [program]; exact runs), ?_, .kept fun _ => noRow _⟩
    rw [if_pos rfl, records]
    exact active.withObjects store
  · obtain ⟨e, refused⟩ := writeStructs_rejects (H := H) active.serving accepted keysAreUnique
    exact ⟨false, w, s, Served.unchanged active (.error (by rw [program]; exact refused)) nofun nofun⟩

/-- The two row writes either append one block or store nothing. -/
theorem served_rowWrite {k : RowKey} {content : RowMap} {reserve : Bool} (active : Active H w objects s)
    (write : call.rowWrite (putRows noRows s.live) = some (k, content)) (records : call.records = [])
    (cases_of : (∃ e w', run system (call.program H (retries + 1)) w = .error e w' ∧
        RowRefused H w w' s.live reserve e) ∨
      ∃ w' r, Runs (call.program H (retries + 1)) w () w' ∧ RowWritten H w w' s.live k content r) :
    ∃ ok w' s', Served H retries w objects s call ok w' s' := by
  have count := active.count
  have next := active.next
  have covers := active.covers
  rw [← count] at covers
  rcases cases_of with ⟨e, w', failed, refused⟩ | ⟨w', r, runs, done⟩
  · have kept : ∀ next', w'.nextSequence = next' →
        Active H w' (objects ++ if false then call.records else []) { s with next := next' } := by
      intro next' numbered
      rw [if_neg (by decide), List.append_nil]
      exact ⟨active.serving.rowStep refused.step, by rw [refused.step.directory]; exact active.directory,
        active.objects.rowStep refused.step, active.archive.refused covers refused.step refused.store, active.covers,
        refused.store, by rw [refused.step.options]; exact count, numbered⟩
    rcases refused.next with same | bumped
    · exact ⟨false, w', s, .error failed, kept s.next (same.trans next), .kept nofun⟩
    · rw [next] at bumped
      exact ⟨false, w', _, .error failed, kept _ bumped, .failed⟩
  · obtain ⟨_, _, _, _, files⟩ := done.store
    have inside := files.shards r (List.mem_append_right _ (List.mem_singleton_self r))
    rw [done.step.options] at inside
    refine ⟨true, w', ⟨s.rows ++ [r], s.live ++ [r], s.count, u64 (s.next + 1)⟩, .ok runs, ?_, ?_⟩
    · rw [if_pos rfl, records, List.append_nil]
      exact ⟨active.serving.rowStep done.step, by rw [done.step.directory]; exact active.directory,
        active.objects.rowStep done.step, active.archive.written covers inside done.step done.store,
        active.covers.append (by rw [← count]; exact inside), done.store,
        by rw [done.step.options]; exact count, by rw [done.next, next]⟩
    · refine .written ?_ ?_ ?_
      · rw [write, done.key, done.content]
      · rw [done.shard, done.key, count]
      · rw [done.sequence, next]

theorem served_reopen {options : DatabaseOptions} (active : Active H w objects s) (accepted : options.Accepted)
    (bounded : Bounded ((Call.reopen options).program H (retries + 1)) w) :
    ∃ w' s', Served H retries w objects s (.reopen options) true w' s' := by
  have closed := close_runs active
  obtain ⟨w', opened, active', _⟩ := reopen_runs active accepted retries (bounded.rest closed)
  refine ⟨w', _, .ok ?_, ?_, .reopened⟩
  · unfold Runs Call.program
    rw [closed.bind]
    exact opened
  · rw [if_pos rfl, show (Call.reopen options).records = [] from rfl, List.append_nil]
    exact active'

/-- Every call that keeps its contract returns, and serves what was written
before and by the call. -/
theorem Active.serves (active : Active H w objects s) (contract : call.Contract objects)
    (bounded : Bounded (call.program H (retries + 1)) w) :
    ∃ ok w' s', Served H retries w objects s call ok w' s' ∧ ((∃ options, call = .reopen options) → ok = true) := by
  have apart : ∀ {call : Call}, (∀ options, call ≠ .reopen options) →
      (∃ ok w' s', Served H retries w objects s call ok w' s') →
      ∃ ok w' s', Served H retries w objects s call ok w' s' ∧ ((∃ options, call = .reopen options) → ok = true) := by
    rintro call other ⟨ok, w', s', served⟩
    exact ⟨ok, w', s', served, fun ⟨options, same⟩ => absurd same (other options)⟩
  have isOpen := active.serving.isOpen
  have single : ∀ {call : Call} (column key value : Bytes),
      call.program H (retries + 1) = writeStructs H column [⟨key, value⟩] false →
      call.records = recordsOf column [⟨key, value⟩] → (∀ m, call.rowWrite m = none) →
      Bounded (call.program H (retries + 1)) w → ∃ ok w' s', Served H retries w objects s call ok w' s' :=
    fun column key value program records noRow bounded =>
      served_writeStructs active program records noRow (fun given => nomatch given) bounded
  cases call with
  | put key value =>
    exact apart nofun (single kStringColumn key value rfl rfl (fun _ => rfl) bounded)
  | putStruct column key value =>
    exact apart nofun (single column key value rfl rfl (fun _ => rfl) bounded)
  | putStructs column entries =>
    exact apart nofun (served_writeStructs active rfl rfl (fun _ => rfl) (fun given => nomatch given) bounded)
  | putUniqueStructs column entries =>
    exact apart nofun (served_writeStructs active rfl rfl (fun _ => rfl) (fun _ => contract) bounded)
  | getStruct column key =>
    refine apart nofun ?_
    cases held : putAll (fun _ => none) objects (column, key) with
    | some value =>
      have runs := getStruct_runs active.objects isOpen held
      exact ⟨true, w, s, Served.unchanged active (.ok runs.bind) (fun _ => rfl) (fun _ => rfl)⟩
    | none =>
      have failed := getStruct_absent active.objects isOpen held
      exact ⟨false, w, s, Served.unchanged active (.error (run_bind_error system failed _)) nofun nofun⟩
  | entryCount =>
    exact apart nofun ⟨true, w, s,
      Served.unchanged active (.ok (entryCount_runs active.objects).bind) (fun _ => rfl) (fun _ => rfl)⟩
  | putRowStructs column rowId entries =>
    exact apart nofun (served_rowWrite active rfl rfl
      (putRowStructs_cases (k := (column, rowId.toNat)) active.rows active.serving rowId.toNat_lt retries bounded))
  | putRowStruct column rowId key value =>
    exact apart nofun (served_rowWrite active rfl rfl
      (putRowStruct_cases (k := (column, rowId.toNat)) active.rows active.serving rowId.toNat_lt retries bounded))
  | getRowStruct column rowId key =>
    refine apart nofun ?_
    have reads := getRowStruct_runs active.rows isOpen (column, rowId.toNat) key retries
    cases held : (putRows noRows s.live (column, rowId.toNat)).bind (· key) with
    | some value =>
      exact ⟨true, w, s, Served.unchanged active (.ok (reads.1 value held).bind) (fun _ => rfl) (fun _ => rfl)⟩
    | none =>
      obtain ⟨message, failed⟩ := reads.2 held
      exact ⟨false, w, s, Served.unchanged active (.error (run_bind_error system failed _)) nofun nofun⟩
  | rowCount =>
    exact apart nofun ⟨true, w, s,
      Served.unchanged active (.ok (rowCount_runs active.rows).bind) (fun _ => rfl) (fun _ => rfl)⟩
  | flush =>
    exact apart nofun ⟨true, w, s, Served.unchanged active (.ok (flush_runs active)) (fun _ => rfl) (fun _ => rfl)⟩
  | reopen options =>
    obtain ⟨w', s', served⟩ := served_reopen active contract bounded
    exact ⟨true, w', s', served, fun _ => rfl⟩

end Steps

section Runs
variable {H : HashFunctions} {retries : Nat} {start : DatabaseOptions} {trace : Trace} {w origin : World}
  {objects : ObjectLog} {s : RowState}

/-- How the row side came about. -/
inductive RowHistory (H : HashFunctions) (start : RowState) : Trace → RowState → Prop where
  | start : RowHistory H start [] start
  | call {trace s call ok s'} (before : RowHistory H start trace s) (effect : RowEffect H s call ok s') :
      RowHistory H start (trace ++ [(call, ok)]) s'

/-- In every state of every run the database serves what was written before
and by the run. -/
theorem Calls.active (active : Active H origin objects s) (calls : Calls H retries objects origin trace w) :
    ∃ s', Active H w (objects ++ written trace) s' ∧ RowHistory H s trace s' := by
  induction calls with
  | start =>
    refine ⟨s, ?_, .start⟩
    rw [written, List.flatMap_nil, List.append_nil]
    exact active
  | call before contract bounded returns ih =>
    obtain ⟨s', active', rowHistory⟩ := ih
    obtain ⟨ok, w', s'', served, _⟩ := active'.serves contract bounded
    obtain ⟨rfl, rfl⟩ := returns.unique served.returns
    refine ⟨s'', ?_, .call rowHistory served.effect⟩
    rw [written_append, ← List.append_assoc]
    exact served.active

/-- The row side of a new database. -/
def RowState.fresh (count : Nat) : RowState := ⟨[], [], count, 1⟩

theorem first_open (accepted : start.Accepted) (bounded : Bounded (openReadWrite H (retries + 1) start) {})
    (opens : Runs (openReadWrite H (retries + 1) start) {} () origin) :
    Active H origin [] (.fresh start.rowShardCount) := by
  obtain ⟨w', live', next, opened, active, choice, _⟩ := openReadWrite_runs (resting_fresh H _) accepted retries bounded
  have same := (Runs.unique opens opened).2
  subst same
  obtain ⟨_, rfl, rfl⟩ := choice.resolve_left fun kept => kept.1 nofun
  have empty : scanLog [] 0 start.rowShardCount = [] := scanLog_eq_nil fun r member => (nomatch member)
  rw [empty] at active
  exact active

theorem History.active (history : History H retries start trace w) :
    ∃ s, Active H w (written trace) s ∧ RowHistory H (.fresh start.rowShardCount) trace s := by
  obtain ⟨accepted, bounded, opens, calls⟩ := history
  exact calls.active (first_open accepted bounded opens)

/-- A run never gets stuck: every call returns, and every `Open` returns
Ok. -/
theorem History.progress (history : History H retries start trace w) {call : Call}
    (contract : call.Contract (written trace)) (bounded : Bounded (call.program H (retries + 1)) w) :
    ∃ ok w', Returns (call.program H (retries + 1)) w ok w' ∧ ((∃ options, call = .reopen options) → ok = true) := by
  obtain ⟨s, active, _⟩ := history.active
  obtain ⟨ok, w', _, served, reopened⟩ := active.serves contract bounded
  exact ⟨ok, w', served.returns, reopened⟩

end Runs

end LumoDB
