import LumoDB.ReadOnlyRefinement
import LumoDB.Replay

namespace LumoDB
open ByteCodec Effects LinearProbing

/-- The calls of a session, all but those that begin and end one. -/
inductive SessionCall where
  | flush
  | put (key value : Bytes)
  | get (key : Bytes)
  | putStruct (column key value : Bytes)
  | putStructs (column : Bytes) (entries : List StructEntry)
  | putUniqueStructs (column : Bytes) (entries : List StructEntry)
  | getStruct (column key : Bytes)
  | putRowStruct (column : Bytes) (rowId : UInt64) (key value : Bytes)
  | putRowStructs (column : Bytes) (rowId : UInt64) (entries : List RowStructEntry)
  | getRowStruct (column : Bytes) (rowId : UInt64) (key : Bytes)
  | getMany (column : Bytes) (keys : List Bytes)
  | getColumnStats
  | dumpColumnStats
  | dump
  | dumpColumn (column : Bytes) (deserialize : Option DumpDeserializer)
  | isOpen
  | entryCount
  | bucketCount
  | rowCount
  | rowBucketCount

def SessionCall.Answer : SessionCall → Type
  | flush | put .. | putStruct .. | putStructs .. | putUniqueStructs .. | putRowStruct .. | putRowStructs .. => Unit
  | get .. | getStruct .. | getRowStruct .. => Bytes
  | getMany .. => List Bytes
  | getColumnStats => List ColumnStats
  | dumpColumnStats | dump | dumpColumn .. => List DumpLine
  | isOpen => Bool
  | entryCount | bucketCount | rowCount | rowBucketCount => Nat

def SessionCall.program (H : HashFunctions) (retries : Nat) : (call : SessionCall) → Db call.Answer
  | flush => LumoDB.flush
  | put key value => LumoDB.put H key value
  | get key => LumoDB.get H key
  | putStruct column key value => LumoDB.putStruct H column key value
  | putStructs column entries => LumoDB.putStructs H column entries
  | putUniqueStructs column entries => LumoDB.putUniqueStructs H column entries
  | getStruct column key => LumoDB.getStruct H column key
  | putRowStruct column rowId key value => LumoDB.putRowStruct H retries column rowId.toNat key value
  | putRowStructs column rowId entries => LumoDB.putRowStructs H retries column rowId.toNat entries
  | getRowStruct column rowId key => LumoDB.getRowStruct H retries column rowId.toNat key
  | getMany column keys => LumoDB.getMany H column keys
  | getColumnStats => LumoDB.getColumnStats retries
  | dumpColumnStats => LumoDB.dumpColumnStats retries
  | dump => LumoDB.dump H retries
  | dumpColumn column deserialize => LumoDB.dumpColumn H retries column deserialize
  | isOpen => do
    let m ← getMembers
    return m.isOpen
  | entryCount => LumoDB.entryCount
  | bucketCount => LumoDB.bucketCount
  | rowCount => LumoDB.rowCount
  | rowBucketCount => LumoDB.rowBucketCount

def SessionCall.isWrite : SessionCall → Bool
  | put .. | putStruct .. | putStructs .. | putUniqueStructs .. | putRowStruct .. | putRowStructs .. => true
  | _ => false

/-- The calls whose answer is a function of the stored data. -/
def SessionCall.isLookup : SessionCall → Bool
  | get .. | getStruct .. | getMany .. | getRowStruct .. | getColumnStats | entryCount | rowCount => true
  | _ => false

/-- Calls made one after another, each of which returned. -/
inductive SessionRun (H : HashFunctions) (retries : Nat) (origin : World) : List SessionCall → World → Prop where
  | start : SessionRun H retries origin [] origin
  | call {calls w w'} (before : SessionRun H retries origin calls w) (call : SessionCall)
      (ended : (run system (call.program H (retries + 1)) w).state? = some w') :
      SessionRun H retries origin (calls ++ [call]) w'

section Readers
variable {H : HashFunctions} {retries : Nat}

theorem reads_getMany (column : Bytes) (keys : List Bytes) : (getMany H column keys).Only Op.Reads := by
  have loop : (getManyLoop H column keys).Only Op.Reads := by
    induction keys with
    | nil => exact trivial
    | cons key later ih => exact .bind (reads_only.getStruct _ _) fun _ => .bind ih fun _ => trivial
  exact .bind reads_members fun _ => .ite trivial loop

theorem reads_getRowStruct (column : Bytes) (rowId : Nat) (key : Bytes) :
    (getRowStruct H retries column rowId key).Only Op.Reads := by
  have find : (findRowBucket H column rowId (H.hashString column) retries).Only Op.Reads :=
    .bind (reads_load _ _ _) fun bucketCount => (reads_buckets 0 (u64 (bucketCount + 2 ^ 64 - 1) + 1)).findRowLoop
      (Nat.lt_succ_self _) _ _ _ _
  exact .bind reads_members fun _ => .ite trivial (.bind find fun _ =>
    .ite trivial ((reads_buckets 0 0).findValueInRowBlockAt _ _ _))

theorem reads_dumpInternal (columnFilter : Option Bytes) (deserialize : Option DumpDeserializer) :
    (dumpInternal H retries columnFilter deserialize).Only Op.Reads :=
  .bind reads_members fun _ => .ite trivial (.bind (reads_unfiltered (reads_counted (reads_load _ _ _))) fun _ =>
    .bind (reads_counted (reads_load _ _ _)) fun _ => .bind (reads_load _ _ _) fun _ => .bind (reads_dumpObjects _) fun _ =>
    .bind (reads_unfiltered (reads_counted (reads_load _ _ _))) fun _ => .bind (reads_counted (reads_load _ _ _)) fun _ =>
    .bind (reads_unfiltered (reads_load _ _ _)) fun _ => .bind (reads_load _ _ _) fun _ => .bind (reads_dumpRows _) fun _ =>
    .bind reads_getColumnStats fun _ => trivial)

/-- Every call that neither writes nor flushes has no other operations than
reads. -/
theorem reads_sessionCall {call : SessionCall} (noWrite : call.isWrite = false) (noFlush : call ≠ .flush) :
    (call.program H retries).Only Op.Reads := by
  cases call with
  | flush => exact absurd rfl noFlush
  | get key => exact reads_only.getStruct _ _
  | getStruct column key => exact reads_only.getStruct _ _
  | getRowStruct column rowId key => exact reads_getRowStruct _ _ _
  | getMany column keys => exact reads_getMany _ _
  | getColumnStats => exact reads_getColumnStats
  | dumpColumnStats => exact .bind reads_getColumnStats fun _ => trivial
  | dump => exact reads_dumpInternal _ _
  | dumpColumn column deserialize => exact reads_dumpInternal _ _
  | isOpen => exact .bind reads_members fun _ => trivial
  | entryCount | bucketCount | rowCount | rowBucketCount => exact reads_counted (reads_load _ _ _)
  | _ => cases noWrite

theorem unchanged_of_only {α : Type} {p : Db α} {w w' : World} (only : p.Only Op.Reads)
    (ended : (run system p w).state? = some w') : w' = w :=
  only.preserves (R := fun s t => t = s) (fun _ => rfl) (fun _ _ _ first second => second.trans first)
    (fun _ _ _ _ reads step => system_reads reads step) ended

end Readers

section Refusals
variable {H : HashFunctions} {retries : Nat} {w : World}

/-- A database that is open for reading refuses every write. -/
theorem readOnly_refuses {call : SessionCall} (isOpen : w.members.isOpen = true) (readOnly : w.members.readOnly = true)
    (write : call.isWrite = true) :
    run system (call.program H retries) w = .error (.invalidArgument "database is read-only") w := by
  have objects : ∀ column entries keysAreUnique, run system (writeStructs H column entries keysAreUnique) w =
      .error (.invalidArgument "database is read-only") w := by
    intro column entries keysAreUnique
    unfold writeStructs
    rw [Prog.bind_eq, (getMembers_runs w).bind, if_neg (by rw [isOpen]; decide), if_pos readOnly]
    rfl
  have rowEntry : ∀ column rowId key value, run system (putRowStruct H retries column rowId key value) w =
      .error (.invalidArgument "database is read-only") w := by
    intro column rowId key value
    unfold putRowStruct
    rw [Prog.bind_eq, (getMembers_runs w).bind, if_neg (by rw [isOpen]; decide), if_pos readOnly]
    rfl
  have row : ∀ column rowId entries, run system (putRowStructs H retries column rowId entries) w =
      .error (.invalidArgument "database is read-only") w := by
    intro column rowId entries
    unfold putRowStructs writeRowStructs
    rw [Prog.bind_eq, (getMembers_runs w).bind, if_neg (by rw [isOpen]; decide), if_pos readOnly]
    rfl
  cases call with
  | put | putStruct | putStructs | putUniqueStructs => exact objects _ _ _
  | putRowStruct => exact rowEntry _ _ _ _
  | putRowStructs => exact row _ _ _
  | _ => cases write

theorem flush_readOnly (readOnly : w.members.readOnly = true) : Runs flush w () w := by
  unfold Runs flush
  rw [Prog.bind_eq, (getMembers_runs w).bind, if_pos readOnly]
  rfl

/-- No call changes a database that is open for reading. -/
theorem readOnly_unchanged {call : SessionCall} {w' : World} (isOpen : w.members.isOpen = true)
    (readOnly : w.members.readOnly = true) (ended : (run system (call.program H retries) w).state? = some w') :
    w' = w := by
  cases write : call.isWrite with
  | true =>
    rw [readOnly_refuses isOpen readOnly write] at ended
    exact (Option.some.inj ended).symm
  | false =>
    by_cases flushes : call = .flush
    · subst flushes
      have flushed := congrArg Outcome.state? (flush_readOnly readOnly)
      exact (Option.some.inj (flushed.symm.trans ended)).symm
    · exact unchanged_of_only (reads_sessionCall write flushes) ended

theorem SessionRun.unchanged {calls : List SessionCall} {w' : World} (session : SessionRun H retries w calls w')
    (isOpen : w.members.isOpen = true) (readOnly : w.members.readOnly = true) : w' = w := by
  induction session with
  | start => rfl
  | call before call ended ih =>
    subst ih
    exact readOnly_unchanged isOpen readOnly ended

end Refusals

section Options
variable {H : HashFunctions} {retries : Nat} {w w' : World} {objects : ObjectLog} {s : RowState} {start : DatabaseOptions}
  {trace : Trace}

def Op.KeepsOptions : Op → Prop
  | .setMembers f => ∀ m, (f m).options = m.options
  | _ => True

theorem system_keepsOptions {o : Op} {r : o.Resp} (keeps : o.KeepsOptions) (step : system o w = some (r, w')) :
    w'.members.options = w.members.options := by
  cases o with
  | setMembers f =>
    cases step
    exact keeps _
  | pendingSub amount =>
    obtain ⟨count, rfl⟩ := pendingSub_step step
    rfl
  | load | loadBytes =>
    simp only [system, Option.map_eq_some_iff] at step
    obtain ⟨_, _, same⟩ := step
    cases same
    rfl
  | _ =>
    simp only [system] at step
    repeat' split at step
    all_goals
      cases step
      try rfl

theorem keepsOptions : WritesObjects fun _ p => p.Only Op.KeepsOptions where
  toCompositional := compositional_only _
  members := ⟨trivial, fun _ => trivial⟩
  loadValues _ _ := ⟨trivial, fun _ => trivial⟩
  readAllAt _ _ := ⟨trivial, fun answer => by cases answer <;> exact trivial⟩
  load _ _ := ⟨trivial, fun _ => trivial⟩
  loadBytes _ _ := ⟨trivial, fun _ => trivial⟩
  store _ _ _ := ⟨trivial, fun _ => trivial⟩
  storeBytes _ _ := ⟨trivial, fun _ => trivial⟩
  unmap := ⟨trivial, fun _ => trivial⟩
  truncateFile _ := ⟨trivial, fun answer => by cases answer <;> exact trivial⟩
  mapFile _ := ⟨trivial, fun answer => by cases answer <;> exact trivial⟩
  writeAllAt _ _ := ⟨trivial, fun answer => by cases answer <;> exact trivial⟩
  setAppendOffset _ := ⟨fun _ => rfl, fun _ => trivial⟩

theorem options_of_only {α : Type} {p : Db α} (only : p.Only Op.KeepsOptions) (ended : (run system p w).state? = some w') :
    w'.members.options = w.members.options :=
  only.preserves (R := fun s t : World => t.members.options = s.members.options) (fun _ => rfl)
    (fun _ _ _ first second => second.trans first) (fun _ _ _ _ keeps step => system_keepsOptions keeps step) ended

/-- A call that does not open the database again keeps its options. -/
theorem Active.keepsOptions {call : Call} {ok : Bool} (active : Active H w objects s) (other : ∀ options, call ≠ .reopen options)
    (bounded : Bounded (call.program H (retries + 1)) w) (returns : Returns (call.program H (retries + 1)) w ok w') :
    w'.members.options = w.members.options := by
  have ended := returns.state
  have reading : ∀ {α : Type} {p : Db α}, p.Only Op.Reads → (run system (p.bind fun _ => .ret ()) w).state? = some w' →
      w'.members.options = w.members.options := fun only ended =>
    congrArg (·.members.options) (unchanged_of_only (reads_only.bind only fun _ => reads_only.ret ()) ended)
  have rowWrite : (∃ u, RowStep w u ∧ w' = u) → w'.members.options = w.members.options := by
    rintro ⟨u, step, rfl⟩
    exact step.options
  cases call with
  | put | putStruct | putStructs | putUniqueStructs =>
    exact options_of_only (LumoDB.keepsOptions.writeStructs _ _ _) ended
  | getStruct column key => exact reading (reads_only.getStruct _ _) ended
  | entryCount | rowCount => exact reading (reads_counted (reads_load _ _ _)) ended
  | getRowStruct column rowId key => exact reading (reads_getRowStruct _ _ _) ended
  | putRowStructs column rowId entries =>
    rcases putRowStructs_cases (k := (column, rowId.toNat)) active.rows active.serving rowId.toNat_lt retries bounded with
      ⟨e, u, failed, refused⟩ | ⟨u, r, runs, done⟩
    · exact rowWrite ⟨u, refused.step, (returns.unique (.error failed)).2⟩
    · exact rowWrite ⟨u, done.step, (returns.unique (.ok runs)).2⟩
  | putRowStruct column rowId key value =>
    rcases putRowStruct_cases (k := (column, rowId.toNat)) active.rows active.serving rowId.toNat_lt retries bounded with
      ⟨e, u, failed, refused⟩ | ⟨u, r, runs, done⟩
    · exact rowWrite ⟨u, refused.step, (returns.unique (.error failed)).2⟩
    · exact rowWrite ⟨u, done.step, (returns.unique (.ok runs)).2⟩
  | flush =>
    have same := (returns.unique (.ok (flush_runs active))).2
    rw [same]
  | reopen options => exact absurd rfl (other options)

/-- The options of an open database are those of the last `Open`, with the
bucket counts rounded. -/
theorem Calls.options {origin : World} (calls : Calls H retries objects origin trace w) (active : Active H origin objects s)
    (accepted : start.Accepted) (given : start.rounded = some origin.members.options) :
    (lastOptions start trace).Accepted ∧ (lastOptions start trace).rounded = some w.members.options := by
  induction calls with
  | start => exact ⟨accepted, given⟩
  | @call trace w call ok w' before contract bounded returns ih =>
    obtain ⟨s', active', _⟩ := before.active active
    by_cases again : ∃ options, call = .reopen options
    · obtain ⟨options, rfl⟩ := again
      have closed := close_runs active'
      obtain ⟨u, opened, _, rounded, given', capacity⟩ := reopen_runs active' contract retries (bounded.rest closed)
      have runs : Runs ((Call.reopen options).program H (retries + 1)) w () u := by
        unfold Runs Call.program
        rw [closed.bind]
        exact opened
      obtain ⟨_, rfl⟩ := returns.unique (.ok runs)
      rw [lastOptions_reopen, given', capacity.kept]
      exact ⟨contract, rfl⟩
    · have other : ∀ options, call ≠ .reopen options := fun options same => again ⟨options, same⟩
      rw [lastOptions_other start trace ok other, active'.keepsOptions other bounded returns]
      exact ih

theorem History.options (history : History H retries start trace w) :
    (lastOptions start trace).Accepted ∧ (lastOptions start trace).rounded = some w.members.options := by
  obtain ⟨accepted, bounded, opens, calls⟩ := history
  obtain ⟨_, _, _, opened, _, _, rounded, given, capacity⟩ := openReadWrite_runs (resting_fresh H _) accepted retries bounded
  cases (Runs.unique opens opened).2
  exact calls.options (first_open accepted bounded opens) accepted (by rw [given, capacity.kept])

end Options

section Session
variable {H : HashFunctions} {retries : Nat} {w w' w₀ : World} {objects : ObjectLog} {live : RowLog}
  {start : DatabaseOptions} {trace : Trace}

theorem Showing.agrees {call : SessionCall} (here : Showing H w objects live) (there : Showing H w' objects live)
    (lookup : call.isLookup = true) : Agrees (call.program H (retries + 1)) w w' := by
  cases call with
  | get key => exact here.getStruct there _ _
  | getStruct column key => exact here.getStruct there _ _
  | getMany column keys => exact here.getMany there _ _
  | getRowStruct column rowId key => exact here.getRowStruct there _ _ _ _
  | getColumnStats => exact here.getColumnStats there _
  | entryCount => exact here.entryCount there
  | rowCount => exact here.rowCount there
  | _ => cases lookup

/-- What a run leaves can be opened for reading with the options of its last
`Open`. Whatever calls are then made, every lookup answers as after an `Open`
for writing, every write is refused, and no file changes up to and with the
`Close`. -/
theorem readOnly_agrees (history : History H retries start trace w) (closes : Runs close w () w₀) :
    ∃ w₁, Runs (openReadOnly H (retries + 1) (lastOptions start trace)) w₀ () w₁ ∧ w₁.disk = w₀.disk ∧
      (∀ calls w₂, SessionRun H retries w₁ calls w₂ →
        w₂.disk = w₀.disk ∧ (∃ w₃, Runs close w₂ () w₃ ∧ w₃.disk = w₀.disk) ∧
        ∀ call : SessionCall, call.isWrite = true → ∃ message,
          run system (call.program H (retries + 1)) w₂ = .error (.invalidArgument message) w₂) ∧
      (Bounded (openReadWrite H (retries + 1) (lastOptions start trace)) w₀ →
        ∃ u, Runs (openReadWrite H (retries + 1) (lastOptions start trace)) w₀ () u ∧
          ∀ calls w₂, SessionRun H retries w₁ calls w₂ → ∀ call : SessionCall, call.isLookup = true →
            Agrees (call.program H (retries + 1)) w₂ u) := by
  obtain ⟨s, active, _⟩ := history.active
  obtain ⟨accepted, given⟩ := history.options
  cases (Runs.unique closes (close_runs active)).2
  have count : (lastOptions start trace).rowShardCount = s.count := by
    rw [← active.count]
    exact (DatabaseOptions.rounded_same given).1.symm
  obtain ⟨b, n, slot, off, rb, rn, rslot, ref, files⟩ := active.readable
  rw [← count] at files
  have closedFiles : Readable H w.shut (written trace) s.live b n slot off rb rn rslot ref
      (lastOptions start trace).rowShardCount :=
    ⟨files.values, files.small, files.index, files.table, files.represents, files.shards, files.shardsSmall,
      files.rowIndex, files.rows⟩
  obtain ⟨w₁, opened, disk, viewing⟩ := openReadOnly_runs closedFiles rfl history.directory accepted given (retries + 1)
  refine ⟨w₁, opened, disk, fun calls w₂ session => ?_, fun bounded => ?_⟩
  · obtain rfl := session.unchanged viewing.isOpen viewing.readOnly
    refine ⟨disk, ⟨_, close_runs_of_flush viewing.isOpen (flush_readOnly viewing.readOnly), disk⟩, fun call write => ?_⟩
    exact ⟨_, readOnly_refuses viewing.isOpen viewing.readOnly write⟩
  · obtain ⟨u, reopened, active', _⟩ := reopen_runs active accepted retries bounded
    refine ⟨u, reopened, fun calls w₂ session call lookup => ?_⟩
    obtain rfl := session.unchanged viewing.isOpen viewing.readOnly
    rw [count, RowState.reopened, if_pos rfl] at active'
    exact viewing.showing.agrees active'.showing lookup

def oneOfEach : List Call := [.putStructs [2] [⟨[1], [7]⟩], .putRowStructs [2] 6 [⟨[1], [9]⟩]]

theorem readOnly_agrees_sample : ∃ w w₀ w₁ u, History .shipped 0 (smallOptions 1) (oneOfEach.map fun call => (call, true)) w ∧
    Runs close w () w₀ ∧ Runs (openReadOnly .shipped 1 (smallOptions 1)) w₀ () w₁ ∧
    Runs (openReadWrite .shipped 1 (smallOptions 1)) w₀ () u ∧ Agrees (getRowStruct .shipped 1 [2] 6 [1]) w₁ u ∧
    ∃ w₃, Runs close w₁ () w₃ ∧ w₃.disk = w₀.disk := by
  obtain ⟨w, history, bounded⟩ := @History.exists_of_replay .shipped 0 (smallOptions 1) oneOfEach
    (oneOfEach.map fun call => (call, true)) (fun w => Bounded (openReadWrite .shipped 1 (smallOptions 1)) w.shut) _
    (by decide +kernel)
  obtain ⟨s, active, _⟩ := history.active
  obtain ⟨w₁, opened, _, session, writing⟩ := readOnly_agrees history (close_runs active)
  obtain ⟨u, reopened, agrees⟩ := writing bounded
  exact ⟨w, w.shut, w₁, u, history, close_runs active, opened, reopened, agrees [] w₁ .start (.getRowStruct [2] 6 [1]) rfl,
    (session [] w₁ .start).2.1⟩

end Session

end LumoDB
