import LumoDB.RowReservation
import LumoDB.SharedSettled

namespace LumoDB
open ByteCodec Effects LinearProbing

/-- What a write stores depends on the row it finds, and on no other one. -/
theorem RowCall.content_congr {m m' : RowKey → Option RowMap} (c : RowCall) (same : m c.row = m' c.row) :
    c.content m = c.content m' := by
  cases c with
  | putRowStruct column rowId key value =>
    exact congrArg (fun held : Option RowMap => Function.update (held.getD fun _ => none) key (some value)) same
  | _ => rfl

/-- The call as one that is made while no other one runs. -/
def RowCall.call : RowCall → Call
  | putRowStructs column rowId entries => .putRowStructs column rowId entries
  | putRowStruct column rowId key value => .putRowStruct column rowId key value
  | getRowStruct column rowId key => .getRowStruct column rowId key

theorem RowCall.apply_eq (m : RowKey → Option RowMap) (c : RowCall) (writes : c.Writes) :
    c.call.apply m = Function.update m c.row (some (c.content m)) := by
  cases c with
  | getRowStruct column rowId key => exact writes.elim
  | _ => rfl

/-- Row calls that are made at the same time: what each of them has still to
do. -/
abbrev RowPool (ι : Type) := Pool signature Status fun _ : ι => Option Bytes

section Calls
variable {ι : Type} (H : HashFunctions) (retries : Nat) (calls : ι → RowCall) (writers : Finset ι) (rows : RowKey → Option RowMap)
  (P : RowPool ι)

/-- The programs of the calls. -/
def rowPool : RowPool ι := fun i => (calls i).program H retries

/-- The call has ended and has seen its row in the index: it is a write that
has returned Ok or a read that has found the row. -/
def SawRow (i : ι) : Prop := (∃ result, P i = .ret result) ∨ P i = .fail (.notFound "key not found in row")

/-- `content` is what a row holds before the calls or what a write that does not
fail puts there. -/
def Visible (k : RowKey) (content : RowMap) : Prop :=
  rows k = some content ∨ ∃ i ∈ writers, (calls i).row = k ∧ (calls i).content rows = content ∧ ∀ status, P i ≠ .fail status

/-- Every write has ended. -/
def WritesEnded : Prop := ∀ i ∈ writers, (∃ result, P i = .ret result) ∨ ∃ status, P i = .fail status

/-- `order` has the writes that have returned Ok. -/
structure Succeeded (order : List ι) : Prop where
  once : order.Nodup
  mem : ∀ i, i ∈ order ↔ i ∈ writers ∧ ∃ result, P i = .ret result

/-- What a bucket of the row index holds while the calls run: nothing, the
bucket of a complete block of its row, or what a write of its row is filling in
that has not ended. -/
inductive BucketHolds (s : World) (count : Nat) (bucket : RowIndexBucket) : Option RowKey → Prop where
  | empty (state : bucket.state = kRowBucketEmpty) : BucketHolds s count bucket none
  | filled {k : RowKey} {ref : BlockRef} {content : RowMap} {block : Bytes} (points : bucket = rowBucket H k ref)
      (at_ref : BlockAt H (fun i => s.present (.rowShard i)) count ref k content block)
      (visible : Visible calls writers rows P k content) : BucketHolds s count bucket (some k)
  | writing {i : ι} (state : bucket.state = kRowBucketWriting) (writer : i ∈ writers)
      (running : (∀ result, P i ≠ .ret result) ∧ ∀ status, P i ≠ .fail status) : BucketHolds s count bucket (some (calls i).row)

/-- The row index of `s` has a bucket for each row of `slot`, where probing
finds it, and an empty one. The header counts no row that has no bucket, and
only the writes hold reservations. -/
structure IndexServes (s : World) (count n : Nat) (slot : Nat → Option RowKey) : Prop where
  buckets : s.rowBuckets = n
  arranged : Arranged n (rowHome H) slot
  vacancy : ∃ j < n, slot j = none
  holds : ∃ bytes, s.disk .rowIndex = some bytes ∧
    (∀ j < n, BucketHolds H calls writers rows P s count (rowBucketAt bytes j) (slot j)) ∧ natAt bytes 24 8 ≤ filled n slot
  reserved : s.members.rowPendingInsertCount ≤ writers.card

/-- The rows after calls made one after the other. -/
def inTurn (order : List ι) : RowKey → Option RowMap := order.foldl (fun m i => (calls i).call.apply m) rows

end Calls

namespace Round
variable {ι : Type} {R : Round ι} {w : World} {i : ι} {k : RowKey}

section Start

/-- The calls before their first operations. -/
def pool (R : Round ι) : RowPool ι := rowPool R.H R.retries R.calls

/-- The calls begin in `w`, where no other call is running. -/
structure Begins (R : Round ι) (w : World) : Prop where
  serving : Serving w
  options : w.members.options = R.options
  files : ∃ b ref, RowFiles R.H w R.log b R.n R.slot ref

/-- No call has moved the state yet. -/
structure Unmoved (R : Round ι) (w : World) (x : Shared ι) : Prop where
  world : x.world = w
  holds : R.Holds x
  progress : ∀ i, x.progress i = {}
  added : x.added = []
  rows : ∀ k, (x.entry k).map RowEntry.content = R.rows k

theorem Begins.exists_unmoved (begins : R.Begins w) : ∃ x, R.Unmoved w x := by
  obtain ⟨b, ref, files⟩ := begins.files
  have count : w.members.options.rowShardCount = R.count := by rw [begins.options]
  have entries : ∀ k, ∃ e : Option RowEntry, e.map RowEntry.content = R.rows k ∧
      ∀ en, e = some en → en.ref = ref k ∧ BlockAt R.H (shardBytes R.log) R.count en.ref k en.content en.block := by
    intro k
    cases held : R.rows k with
    | none => exact ⟨none, rfl, fun en same => by cases same⟩
    | some content =>
      obtain ⟨_, block, at_ref⟩ := (files.represents k).2 content held
      rw [count] at at_ref
      refine ⟨some ⟨ref k, content, block⟩, rfl, fun en same => ?_⟩
      cases same
      exact ⟨rfl, at_ref⟩
  choose entry content located using entries
  have stored_iff : ∀ k, entry k ≠ none ↔ Stored R.n R.slot k := by
    intro k
    have same := content k
    rw [R.stored]
    cases held : entry k with
    | none =>
      rw [held] at same
      simp [← same]
    | some e =>
      rw [held] at same
      simp [← same]
  refine ⟨⟨w, b, shardBytes R.log, R.slot, entry, [], fun _ => {}⟩, rfl, ⟨?_, ?_, ?_⟩, fun _ => rfl, rfl, content⟩
  · exact
      { isOpen := begins.serving.isOpen, writable := begins.serving.writable, options := begins.options
        shardCount := files.reads.shardCount.trans count, unmapped := by rw [← count]; exact files.unmapped
        content := by rw [← count]; exact files.reads.content, index := files.index, mapped := files.mapped
        pending := files.pending.trans (by simp) }
  · refine
      { file := ⟨filled R.n R.slot, by rw [← count]; exact files.table.toRowIndexFile, by simp [uncounted]⟩
        arranged := files.table.table.arranged, empty := files.table.empty, full := ?_, claimed := ?_, claims := ?_
        stored := fun k present => (stored_iff k).mp present, kept := fun k => id, known := fun k => Or.inl }
    · intro j inside k at_j e at_k
      rw [files.table.stored j inside k at_j, (located k e at_k).1]
    · intro j inside k at_j absent
      exact absurd absent ((stored_iff k).mpr ⟨j, inside, at_j⟩)
    · intro i j bucket claim
      cases claim
  · exact
      { offsets := by rw [← count]; simpa using files.appendOffsets
        small := by rw [← count]; simpa using files.reads.small
        base := fun s _ => ⟨by rw [Nat.zero_add], slice_self _⟩
        short := fun s _ => by rw [List.append_nil]
        owned := fun t within => absurd within (Nat.not_lt_zero t)
        placed := fun i t at_i => by cases at_i
        located := fun i t r at_i => by cases at_i
        published := fun i published => by cases published
        entries := fun k e at_k => Or.inr ⟨(content k).symm.trans (congrArg _ at_k), (located k e at_k).2⟩ }

/-- What `RowCount` and `RowBucketCount` return. -/
theorem Begins.counts (begins : R.Begins w) : Runs rowCount w (filled R.n R.slot) w ∧ Runs rowBucketCount w R.n w := by
  obtain ⟨b, ref, files⟩ := begins.files
  have store : RowStore R.H w R.log := ⟨b, R.n, R.slot, ref, files⟩
  have buckets := rowBucketCount_runs store
  rw [World.rowBuckets_eq files.index files.table.toRowIndexFile] at buckets
  rw [files.filled_eq]
  exact ⟨rowCount_runs store, buckets⟩

end Start

end Round

section Promises
variable {ι : Type} {H : HashFunctions} {w : World} {objects : ObjectLog} {s : RowState} {calls : ι → RowCall}
  {writers : Finset ι}

/-- What the callers of row calls promise that are made at the same time on a
database with these rows: different rows for the writes, no other call for a
row that is being replaced, and room. -/
structure Promised (H : HashFunctions) (w : World) (rows : RowKey → Option RowMap) (calls : ι → RowCall) (writers : Finset ι) :
    Prop where
  writes : ∀ i, i ∈ writers ↔ (calls i).Writes
  distinct : ∀ i ∈ writers, ∀ j ∈ writers, (calls i).row = (calls j).row → i = j
  alone : ∀ i ∈ writers, rows (calls i).row ≠ none → ∀ j, j ≠ i →
    ¬ (H.hashString (calls i).row.1 = H.hashString (calls j).row.1 ∧ (calls i).row.2 = (calls j).row.2)
  room : ∃ count buckets, Runs rowCount w count w ∧ Runs rowBucketCount w buckets w ∧ count + writers.card < buckets
  sized : ∀ i ∈ writers, (calls i).Sized H w.members.options.maxLoadFactor rows

/-- On an open database calls can be made at the same time that keep the
promises. -/
theorem Active.exists_round (active : Active H w objects s) (promised : Promised H w (putRows noRows s.live) calls writers)
    (retries : Nat) :
    ∃ R : Round ι, R.H = H ∧ R.retries = retries ∧ R.calls = calls ∧ R.writers = writers ∧ R.log = s.live ∧ R.Begins w := by
  obtain ⟨b, n, slot, ref, files⟩ := id active.rows
  have room : filled n slot + writers.card < n := by
    obtain ⟨count, buckets, counts, holds, fewer⟩ := promised.room
    have stored := (Runs.unique counts (rowCount_runs active.rows)).1
    have size := (Runs.unique holds (rowBucketCount_runs active.rows)).1
    rw [World.rowBuckets_eq files.index files.table.toRowIndexFile] at size
    rw [files.filled_eq, ← stored, ← size]
    exact fewer
  refine
    ⟨{ H := H, retries := retries, options := w.members.options, log := s.live, n := n, slot := slot, calls := calls
       writers := writers, loadFactor := active.serving.load, positive := files.positive, complete := files.complete
       shards := files.shards, stored := files.represents.stored_iff, writes := promised.writes, distinct := promised.distinct
       alone := promised.alone, room := room, sized := promised.sized }, rfl, rfl, rfl, rfl, rfl, ?_⟩
  exact ⟨active.serving, rfl, b, ref, files⟩

end Promises

section Sizes
variable {H : HashFunctions} {column : Bytes} {rowId : Nat} {entries : List RowStructEntry} {maxLoadFactor : ℚ}
  {m : RowKey → Option RowMap} {c : RowCall}

/-- The size of the block that is written for a layout. -/
def blockLength (column : Bytes) (layout : Db RowBlockLayout) : Option Nat :=
  layout.returned?.map fun layout => (layout.slices column).flatten.length

/-- It does not depend on the sequence in the block. -/
theorem blockLength_build (sequence columnHash : Nat) :
    blockLength column (buildRowBlockLayout H maxLoadFactor column rowId entries sequence columnHash) =
      blockLength column (buildRowBlockLayout H maxLoadFactor column rowId entries 0 columnHash) := by
  unfold buildRowBlockLayout
  by_cases many : 2 ^ 32 - 1 < entries.length
  · rw [if_pos many, if_pos many]
  rw [if_neg many, if_neg many]
  cases count : rowKeyBucketCount maxLoadFactor entries.length with
  | none => rfl
  | some n =>
    simp only [orOverflow, Prog.bind_eq, Prog.ret_bind]
    by_cases large : 2 ^ 32 - 1 < n
    · rw [if_pos large, if_pos large]
    rw [if_neg large, if_neg large]
    split
    · rfl
    · simp only [blockLength, Prog.pure_eq, Prog.returned?, Option.map_some, RowBlockLayout.slices_flatten, List.length_append,
        RowBlockHeader.encode_length]

theorem RowCall.sized_of_blockLength {size : Nat} (small : size < 2 ^ 63) (each : ∀ entries, c.Entries m entries →
      blockLength c.row.1 (buildRowBlockLayout H maxLoadFactor c.row.1 c.row.2 entries 0 (H.hashString c.row.1)) = some size) :
    c.Sized H maxLoadFactor m := by
  intro entries sequence layout built builds
  have same := @blockLength_build H c.row.1 c.row.2 entries maxLoadFactor sequence (H.hashString c.row.1)
  rw [builds, each entries built] at same
  exact (Option.some.inj same).trans_lt small

end Sizes

namespace Round
variable {ι : Type} {R : Round ι} {w : World} {i : ι} {k : RowKey}

section Ends
variable {P : RowPool ι} {x : Shared ι} {begun : ι → Shared ι} {column key : Bytes}
  {rowId : UInt64}

/-- Each call is on its way to an end that suits the state it began in. -/
def Underway (R : Round ι) (begun : ι → Shared ι) (P : RowPool ι) (x : Shared ι) : Prop :=
  Pool.Guarded R.arena (fun i => R.Moves (· ≠ i)) (fun i => R.Moves (· = i)) (fun i => R.Done i (begun i) (R.calls i))
    (fun i => R.Failed i (begun i) (R.calls i)) P x

/-- A write that has failed has left nothing behind. -/
theorem Underway.refused (underway : R.Underway begun P x) (writer : i ∈ R.writers) {status : Status} (failed : P i = .fail status) :
    x.progress i = {} ∧ R.Reason i status := by
  obtain ⟨y, later, ended⟩ := Pool.Guarded.at_failure underway failed
  have progress := later.progress i (not_not.mpr rfl)
  rw [R.writes] at writer
  cases call : R.calls i with
  | getRowStruct column rowId key =>
    rw [call] at writer
    exact writer.elim
  | _ =>
    rw [call] at ended
    exact ⟨progress.trans ended.1.progress, ended.2⟩

/-- A write that has returned has stored its row. -/
theorem Underway.returned (underway : R.Underway begun P x) (writer : i ∈ R.writers) {result : Option Bytes}
    (returned : P i = .ret result) : R.Returned i x := by
  obtain ⟨y, later, ended⟩ := Pool.Guarded.at_return underway returned
  have writes := (R.writes i).mp writer
  have stored : R.Returned i y := by
    cases call : R.calls i with
    | getRowStruct column rowId key =>
      rw [call] at writes
      exact writes.elim
    | _ =>
      rw [call] at ended
      exact ended
  obtain ⟨t, e, at_y, content⟩ := stored
  exact ⟨t, e, at_y.later writer later, content⟩

/-- What a read that has ended has found of its row, which has not changed
since. -/
theorem Underway.read (underway : R.Underway begun P x) (call : R.calls i = .getRowStruct column rowId key) :
    (∀ result, P i = .ret result → ∃ e value, x.entry (R.row i) = some e ∧ e.content key = some value ∧ result = some value) ∧
    ∀ status, P i = .fail status → (status = .notFound "row not found" ∧ (begun i).entry (R.row i) = none) ∨
      (status = .notFound "key not found in row" ∧ ∃ e, x.entry (R.row i) = some e ∧ e.content key = none) := by
  have own : R.Steady i (R.row i) := steady_of_hashes rfl rfl
  constructor
  · intro result returned
    obtain ⟨y, later, ended⟩ := Pool.Guarded.at_return underway returned
    rw [call] at ended
    obtain ⟨_, value, rfl, e, at_row, answer⟩ := ended
    exact ⟨e, value, later.steady own at_row, answer, rfl⟩
  · intro status failed
    obtain ⟨y, later, ended⟩ := Pool.Guarded.at_failure underway failed
    rw [call] at ended
    obtain ⟨_, ⟨rfl, absent⟩ | ⟨rfl, e, at_row, miss⟩⟩ := ended
    · exact Or.inl ⟨rfl, absent⟩
    · exact Or.inr ⟨rfl, e, later.steady own at_row, miss⟩

theorem Underway.saw (underway : R.Underway begun P x) (saw : SawRow P i) : ∃ e, x.entry (R.row i) = some e := by
  by_cases writer : i ∈ R.writers
  · rcases saw with ⟨result, returned⟩ | failed
    · obtain ⟨t, e, at_x, _⟩ := underway.returned writer returned
      exact ⟨e, at_x.entry⟩
    · obtain ⟨_, reason⟩ := underway.refused writer failed
      obtain ⟨message, impossible⟩ := reason.invalid
      cases impossible
  · rw [R.writes] at writer
    cases call : R.calls i with
    | getRowStruct column rowId key =>
      obtain ⟨answers, misses⟩ := underway.read call
      rcases saw with ⟨result, returned⟩ | failed
      · obtain ⟨e, _, at_row, _⟩ := answers result returned
        exact ⟨e, at_row⟩
      · rcases misses _ failed with ⟨impossible, _⟩ | ⟨_, e, at_row, _⟩
        · exact absurd impossible (by decide)
        · exact ⟨e, at_row⟩
    | _ =>
      rw [call] at writer
      exact absurd trivial writer

theorem Underway.visible {e : RowEntry} (underway : R.Underway begun P x) (holds : R.Holds x) (at_k : x.entry k = some e) :
    Visible R.calls R.writers R.rows P k e.content := by
  rcases holds.blocks.entries k e at_k with ⟨i, writer, row, published⟩ | based
  · obtain ⟨_, t, r, _, _, entry⟩ := holds.blocks.published i published
    rw [row, at_k] at entry
    cases entry
    refine Or.inr ⟨i, writer, row, rfl, fun status failed => ?_⟩
    rw [(underway.refused writer failed).1] at published
    cases published
  · exact Or.inl based.1

/-- The row index serves the calls at all times. -/
theorem Underway.indexServes (underway : R.Underway begun P x) (holds : R.Holds x) :
    IndexServes R.H R.calls R.writers R.rows P x.world R.count R.n x.slot where
  buckets := by
    obtain ⟨items, file, _⟩ := holds.indexed.file
    exact World.rowBuckets_eq holds.session.index file
  arranged := holds.indexed.arranged
  vacancy := vacancy_of_filled_lt holds.filled_lt
  reserved := by
    rw [holds.session.pending]
    exact Finset.card_filter_le _ _
  holds := by
    obtain ⟨items, file, counted⟩ := holds.indexed.file
    refine ⟨x.bytes, holds.session.index, fun j inside => ?_, by rw [file.itemCount]; omega⟩
    cases at_j : x.slot j with
    | none => exact .empty (holds.indexed.empty j inside at_j)
    | some k =>
      cases at_k : x.entry k with
      | some e =>
        have at_ref : BlockAt R.H (fun i => x.world.present (.rowShard i)) R.count e.ref k e.content e.block := by
          obtain ⟨shard, located, size, row⟩ := holds.blockAt at_k
          refine ⟨shard, ?_, size, row⟩
          rw [World.present, holds.session.content _ shard]
          exact located
        exact .filled (holds.indexed.full j inside k at_j e at_k) at_ref (underway.visible holds at_k)
      | none =>
        obtain ⟨i, writer, rfl, bucket, claim⟩ := holds.indexed.claimed j inside k at_j at_k
        obtain ⟨_, _, _, _, same, state, _⟩ := holds.indexed.claims i j bucket claim
        refine .writing (by rw [same]; exact state) writer ⟨fun result returned => ?_, fun status failed => ?_⟩
        · obtain ⟨t, e, at_x, _⟩ := underway.returned writer returned
          cases at_k.symm.trans at_x.entry
        · rw [(underway.refused writer failed).1] at claim
          cases claim

end Ends

section Interleavings
variable [DecidableEq ι] {P P₁ P₂ : RowPool ι} {s s₁ s₂ : World} {x : Shared ι}
  {begun : ι → Shared ι} {column key : Bytes} {rowId : UInt64}

/-- Whatever the order of the operations, the state stays one the calls reckon
with. -/
theorem Underway.reaches (underway : R.Underway begun P₁ x) (holds : R.Holds x)
    (reaches : Pool.Reaches system Op.FitsAt (P₁, x.world) (P₂, s₂)) :
    ∃ y, y.world = s₂ ∧ R.Holds y ∧ R.Moves (fun _ => True) x y ∧ R.Underway begun P₂ y := by
  obtain ⟨y, world, moves, underway'⟩ := Pool.Guarded.reaches R.compatible underway reaches
  have moves' : R.Moves (fun _ => True) x y := by
    clear underway' world
    induction moves with
    | refl => exact Moves.refl _ x
    | tail _ step ih =>
      obtain ⟨i, step⟩ := step
      exact ih.trans (step.mono fun _ _ => trivial)
  exact ⟨y, world, moves'.holds holds, moves', underway'⟩

theorem Begins.underway (begins : R.Begins w) (reaches : Pool.Reaches system Op.FitsAt (R.pool, w) (P, s)) :
    ∃ x₀ x, R.Unmoved w x₀ ∧ x.world = s ∧ R.Holds x ∧ R.Moves (fun _ => True) x₀ x ∧ R.Underway (fun _ => x₀) P x := by
  obtain ⟨x₀, unmoved⟩ := begins.exists_unmoved
  have start : R.Underway (fun _ => x₀) R.pool x₀ :=
    Pool.Guarded.start R.compatible fun i => safe_program rfl unmoved.holds fun _ => unmoved.progress i
  rw [← unmoved.world] at reaches
  obtain ⟨x, world, holds, moves, underway⟩ := start.reaches unmoved.holds reaches
  exact ⟨x₀, x, unmoved, world, holds, moves, underway⟩

/-- A read that has not begun yet begins in the present state. -/
theorem Underway.begin (underway : R.Underway begun P x) (holds : R.Holds x) (unbegun : P i = R.pool i)
    (reads : i ∉ R.writers) : R.Underway (Function.update begun i x) P x := by
  intro j
  change ∃ y, R.Moves (· ≠ j) y x ∧ R.SafeFor j (R.Done j (Function.update begun i x j) (R.calls j))
    (R.Failed j (Function.update begun i x j) (R.calls j)) (P j) y
  by_cases here : j = i
  · subst here
    rw [Function.update_self, unbegun]
    exact ⟨x, Moves.refl _ x, safe_program rfl holds fun writer => absurd writer reads⟩
  · rw [Function.update_of_ne here]
    exact underway j

/-- No call ever does anything undefined, in whatever order the operations of
the calls follow each other. A write fails with an argument error only, a read
only where it finds no value. -/
theorem never_faults (begins : R.Begins w) (reaches : Pool.Reaches system Op.FitsAt (R.pool, w) (P, s)) :
    ¬ Pool.Faults system Op.FitsAt P s ∧ ∀ i status, P i = .fail status →
      (i ∈ R.writers ∧ ∃ message, status = .invalidArgument message) ∨ (i ∉ R.writers ∧ ∃ message, status = .notFound message) := by
  obtain ⟨x₀, x, unmoved, rfl, holds, moves, underway⟩ := begins.underway reaches
  refine ⟨Pool.Guarded.not_faults underway, fun i status failed => ?_⟩
  by_cases writer : i ∈ R.writers
  · obtain ⟨_, reason⟩ := underway.refused writer failed
    exact Or.inl ⟨writer, reason.invalid⟩
  · refine Or.inr ⟨writer, ?_⟩
    rw [R.writes] at writer
    cases call : R.calls i with
    | getRowStruct column rowId key =>
      rcases (underway.read call).2 status failed with ⟨rfl, _⟩ | ⟨rfl, _⟩
      · exact ⟨_, rfl⟩
      · exact ⟨_, rfl⟩
    | _ =>
      rw [call] at writer
      exact absurd trivial writer

/-- Why a write has failed. -/
theorem reason_of_failed (begins : R.Begins w) (reaches : Pool.Reaches system Op.FitsAt (R.pool, w) (P, s)) (writer : i ∈ R.writers)
    {status : Status} (failed : P i = .fail status) : R.Reason i status := by
  obtain ⟨x₀, x, unmoved, rfl, holds, moves, underway⟩ := begins.underway reaches
  exact (underway.refused writer failed).2

/-- A write is refused for lack of room only if the row index is crowded. -/
theorem crowded_of_capacityExceeded (begins : R.Begins w) (reaches : Pool.Reaches system Op.FitsAt (R.pool, w) (P, s))
    (failed : P i = .fail capacityExceeded) : R.Crowded := by
  by_cases writer : i ∈ R.writers
  · exact (reason_of_failed begins reaches writer failed).crowded rfl
  · obtain ⟨_, message, missed⟩ := ((never_faults begins reaches).2 i _ failed).resolve_left fun both => writer both.1
    cases missed

/-- A read returns from one content of its row, which is the one before the
calls or the complete one of a write that does not fail. -/
theorem read_atomic (begins : R.Begins w) (reaches : Pool.Reaches system Op.FitsAt (R.pool, w) (P, s))
    (call : R.calls i = .getRowStruct column rowId key) :
    (∀ result, P i = .ret result → ∃ content value, Visible R.calls R.writers R.rows P (R.row i) content ∧ content key = some value ∧
      result = some value) ∧
    ∀ status, P i = .fail status → (status = .notFound "row not found" ∧ R.rows (R.row i) = none) ∨
      (status = .notFound "key not found in row" ∧ ∃ content, Visible R.calls R.writers R.rows P (R.row i) content ∧ content key = none) := by
  obtain ⟨x₀, x, unmoved, rfl, holds, moves, underway⟩ := begins.underway reaches
  obtain ⟨answers, misses⟩ := underway.read call
  constructor
  · intro result returned
    obtain ⟨e, value, at_row, answer, result_eq⟩ := answers result returned
    exact ⟨e.content, value, underway.visible holds at_row, answer, result_eq⟩
  · intro status failed
    rcases misses status failed with ⟨status_eq, absent⟩ | ⟨status_eq, e, at_row, miss⟩
    · refine Or.inl ⟨status_eq, ?_⟩
      rw [← unmoved.rows, absent]
      rfl
    · exact Or.inr ⟨status_eq, e.content, underway.visible holds at_row, miss⟩

/-- Once a call has ended that wrote a row or found it, no read that begins
then misses the row. -/
theorem read_after {j : ι} (begins : R.Begins w) (before : Pool.Reaches system Op.FitsAt (R.pool, w) (P₁, s₁))
    (saw : SawRow P₁ j) (unbegun : P₁ i = R.pool i) (after : Pool.Reaches system Op.FitsAt (P₁, s₁) (P₂, s₂))
    (call : R.calls i = .getRowStruct column rowId key) (row : R.row j = R.row i) :
    P₂ i ≠ .fail (.notFound "row not found") := by
  obtain ⟨x₀, x, unmoved, rfl, holds, moves, underway⟩ := begins.underway before
  have reads : i ∉ R.writers := by
    rw [R.writes, call]
    exact id
  obtain ⟨y, rfl, _, _, later⟩ := (underway.begin holds unbegun reads).reaches holds after
  intro failed
  obtain ⟨e, at_row⟩ := underway.saw saw
  rcases (later.read call).2 _ failed with ⟨_, absent⟩ | ⟨impossible, _⟩
  · rw [Function.update_self, ← row, at_row] at absent
    cases absent
  · exact absurd impossible (by decide)

/-- At all times the row index has one bucket for each row, in which a reader
finds a complete block. No bucket becomes empty again or another row's. -/
theorem buckets_kept (begins : R.Begins w) (before : Pool.Reaches system Op.FitsAt (R.pool, w) (P₁, s₁))
    (after : Pool.Reaches system Op.FitsAt (P₁, s₁) (P₂, s₂)) :
    ∃ slot₁ slot₂, IndexServes R.H R.calls R.writers R.rows P₁ s₁ R.count R.n slot₁ ∧
      IndexServes R.H R.calls R.writers R.rows P₂ s₂ R.count R.n slot₂ ∧ ∀ j k, slot₁ j = some k → slot₂ j = some k := by
  obtain ⟨x₀, x, _, rfl, holds, _, underway⟩ := begins.underway before
  obtain ⟨y, rfl, holds', moves, underway'⟩ := underway.reaches holds after
  exact ⟨x.slot, y.slot, underway.indexServes holds, underway'.indexServes holds', moves.kept⟩

end Interleavings

section Order
variable {order : List ι}

/-- Writes of different rows do not depend on each other. -/
theorem inTurn_eq (writes : ∀ i ∈ order, i ∈ R.writers) (once : order.Nodup) :
    (∀ i ∈ order, inTurn R.calls R.rows order (R.row i) = some (R.content i)) ∧
      ∀ k, (∀ i ∈ order, R.row i ≠ k) → inTurn R.calls R.rows order k = R.rows k := by
  induction order using List.reverseRecOn with
  | nil => exact ⟨by simp, fun _ _ => rfl⟩
  | append_singleton order i ih =>
    have writer := writes i (by simp)
    have last : inTurn R.calls R.rows (order ++ [i]) = Function.update (inTurn R.calls R.rows order) (R.row i)
        (some ((R.calls i).content (inTurn R.calls R.rows order))) := by
      rw [inTurn, List.foldl_append]
      exact RowCall.apply_eq _ _ ((R.writes i).mp writer)
    rw [List.nodup_append_comm, List.singleton_append, List.nodup_cons] at once
    obtain ⟨earlier, others⟩ := ih (fun j member => writes j (List.mem_append_left _ member)) once.2
    have apart : ∀ j ∈ order, R.row j ≠ R.row i := by
      intro j member same
      have equal := R.distinct j (writes j (List.mem_append_left _ member)) i writer same
      exact once.1 (equal ▸ member)
    have content : (R.calls i).content (inTurn R.calls R.rows order) = R.content i := RowCall.content_congr _ (others _ apart)
    rw [last, content]
    constructor
    · intro j member
      rcases List.mem_append.mp member with old | new
      · rw [Function.update_of_ne (apart j old)]
        exact earlier j old
      · rw [List.mem_singleton.mp new, Function.update_self]
    · intro k untouched
      rw [Function.update_of_ne (Ne.symm (untouched i (by simp)))]
      exact others k fun j member => untouched j (List.mem_append_left _ member)

end Order

section Settles
variable {P : RowPool ι} {s : World} {x : Shared ι} {begun : ι → Shared ι} {order : List ι}

theorem Underway.settled (underway : R.Underway begun P x) (holds : R.Holds x) (ended : WritesEnded R.writers P) : R.Settled x := by
  refine ⟨holds, fun i writer => ?_⟩
  rcases ended i writer with ⟨result, returned⟩ | ⟨status, failed⟩
  · exact Or.inl (underway.returned writer returned)
  · exact Or.inr (underway.refused writer failed).1

/-- The rows are those that the writes leave when they are made one after the
other. -/
theorem Underway.rows (underway : R.Underway begun P x) (holds : R.Holds x) (ended : WritesEnded R.writers P)
    (succeeded : Succeeded R.writers P order) : putRows noRows (R.log ++ x.added) = inTurn R.calls R.rows order := by
  have settled := underway.settled holds ended
  obtain ⟨wrote, others⟩ := inTurn_eq (R := R) (fun i member => ((succeeded.mem i).mp member).1) succeeded.once
  funext k
  rw [settled.rows k]
  by_cases mentioned : ∃ i ∈ order, R.row i = k
  · obtain ⟨i, member, rfl⟩ := mentioned
    obtain ⟨writer, result, returned⟩ := (succeeded.mem i).mp member
    obtain ⟨t, e, at_x, content⟩ := underway.returned writer returned
    rw [wrote i member, at_x.entry, Option.map_some, content]
  · have untouched : ∀ i ∈ order, R.row i ≠ k := fun i member row => mentioned ⟨i, member, row⟩
    rw [others k untouched]
    cases at_k : x.entry k with
    | none =>
      by_contra present
      exact settled.stored_iff.mp (holds.indexed.kept k ((R.stored k).mpr (Ne.symm present))) at_k
    | some e =>
      rcases holds.blocks.entries k e at_k with ⟨i, writer, row, published⟩ | based
      · rcases ended i writer with returned | ⟨status, failed⟩
        · exact absurd row (untouched i ((succeeded.mem i).mpr ⟨writer, returned⟩))
        · rw [(underway.refused writer failed).1] at published
          cases published
      · exact based.1.symm

variable [DecidableEq ι]

/-- When all writes have ended, in whatever order their operations were carried
out, the database is one that serves the rows as the writes that have returned
Ok leave them one after the other, with no reservation and no place in the
shard files left behind. -/
theorem settles (begins : R.Begins w) (reaches : Pool.Reaches system Op.FitsAt (R.pool, w) (P, s)) (ended : WritesEnded R.writers P) :
    ∃ more, RowStore R.H s (R.log ++ more) ∧ RowStep w s ∧
      ∀ order, Succeeded R.writers P order → putRows noRows (R.log ++ more) = inTurn R.calls R.rows order := by
  obtain ⟨x₀, x, unmoved, rfl, holds, moves, underway⟩ := begins.underway reaches
  refine ⟨x.added, ⟨_, _, _, _, (underway.settled holds ended).files⟩, ?_, fun order => underway.rows holds ended⟩
  rw [← unmoved.world]
  exact moves.step

end Settles

end Round

end LumoDB
