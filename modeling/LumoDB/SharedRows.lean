import LumoDB.History
import LumoDB.Lib.Concurrency
import Mathlib.Data.Finset.Card

namespace LumoDB
open ByteCodec Effects LinearProbing

/-- The row calls, which threads may make at the same time. -/
inductive RowCall where
  | putRowStructs (column : Bytes) (rowId : UInt64) (entries : List RowStructEntry)
  | putRowStruct (column : Bytes) (rowId : UInt64) (key value : Bytes)
  | getRowStruct (column : Bytes) (rowId : UInt64) (key : Bytes)
  deriving DecidableEq

namespace RowCall

/-- The program of a call. It returns the value that a read has found. -/
def program (H : HashFunctions) (retries : Nat) : RowCall → Db (Option Bytes)
  | putRowStructs column rowId entries => (LumoDB.putRowStructs H retries column rowId.toNat entries).bind fun _ => .ret none
  | putRowStruct column rowId key value => (LumoDB.putRowStruct H retries column rowId.toNat key value).bind fun _ => .ret none
  | getRowStruct column rowId key => (LumoDB.getRowStruct H retries column rowId.toNat key).bind fun value => .ret (some value)

def row : RowCall → RowKey
  | putRowStructs column rowId _ => (column, rowId.toNat)
  | putRowStruct column rowId _ _ => (column, rowId.toNat)
  | getRowStruct column rowId _ => (column, rowId.toNat)

def Writes : RowCall → Prop
  | getRowStruct _ _ _ => False
  | _ => True

/-- What the row holds after a write that found the rows `m`. -/
def content (m : RowKey → Option RowMap) : RowCall → RowMap
  | putRowStructs _ _ entries => rowMap entries
  | putRowStruct column rowId key value =>
    Function.update ((m (column, rowId.toNat)).getD fun _ => none) key (some value)
  | getRowStruct _ _ _ => fun _ => none

/-- The entries from which a write that found the rows `m` builds its block. -/
def Entries (m : RowKey → Option RowMap) : RowCall → List RowStructEntry → Prop
  | putRowStructs _ _ entries, built => built = entries
  | putRowStruct column rowId key value, built => ∃ stored, (stored.map StructEntry.key).Nodup ∧
      rowMap stored = (m (column, rowId.toNat)).getD (fun _ => none) ∧ built = mergeEntry key value stored
  | getRowStruct _ _ _, _ => False

theorem Entries.content {m : RowKey → Option RowMap} {c : RowCall} {built : List RowStructEntry} (entries : c.Entries m built) :
    rowMap built = c.content m := by
  cases c with
  | putRowStructs column rowId given =>
    obtain rfl := entries
    rfl
  | putRowStruct column rowId key value =>
    obtain ⟨stored, nodup, same, rfl⟩ := entries
    rw [rowMap_mergeEntry nodup, same]
    rfl
  | getRowStruct column rowId key => exact entries.elim

/-- The blocks a write builds are smaller than `2 ^ 63` bytes. -/
def Sized (H : HashFunctions) (maxLoadFactor : ℚ) (m : RowKey → Option RowMap) (c : RowCall) : Prop :=
  ∀ entries sequence layout, c.Entries m entries →
    buildRowBlockLayout H maxLoadFactor c.row.1 c.row.2 entries sequence (H.hashString c.row.1) = .ret layout →
    (layout.slices c.row.1).flatten.length < 2 ^ 63

theorem rowId_lt (c : RowCall) : c.row.2 < 2 ^ 64 := by
  cases c <;> exact UInt64.toNat_lt _

end RowCall

/-- The arguments of a row write pass its checks. -/
structure EntriesFit (maxLoadFactor : ℚ) (column : Bytes) (entries : List RowStructEntry) : Prop where
  column : fitsUint32 column.length
  some : entries ≠ []
  count : entries.length < 2 ^ 32
  buckets : ∀ n, rowKeyBucketCount maxLoadFactor entries.length = Option.some n → n < 2 ^ 32

/-- No size or offset of the operation reaches `2 ^ 63`, the place that an
append takes included. -/
def Op.FitsAt : Op → World → Prop
  | .appendFetchAdd shardId amount, w => w.members.rowAppendOffsets shardId + amount < 2 ^ 63
  | o, _ => o.Fits

instance : (o : Op) → (w : World) → Decidable (o.FitsAt w)
  | .appendFetchAdd shardId amount, w => inferInstanceAs (Decidable (w.members.rowAppendOffsets shardId + amount < 2 ^ 63))
  | .truncate file size, _ => inferInstanceAs (Decidable (Op.truncate file size).Fits)
  | .writeAt file offset data, _ => inferInstanceAs (Decidable (Op.writeAt file offset data).Fits)
  | .map file size writable, _ => inferInstanceAs (Decidable (Op.map file size writable).Fits)
  | .members, _ | .setMembers _, _ | .isDirectory, _ | .ensureDirectory, _ | .openFile _ _, _ | .closeFile _, _
  | .fileSize _, _ | .readAt _ _ _, _ | .sync _, _ | .rename _ _, _ | .remove _, _ | .unmap _, _ | .msync _, _
  | .load _ _ _, _ | .loadBytes _ _ _, _ | .store _ _ _ _, _ | .storeBytes _ _ _, _ | .cas _ _ _ _ _, _
  | .fetchAdd _ _ _ _, _ | .pendingLoad, _ | .pendingCas _ _, _ | .pendingSub _, _ => isTrue trivial

/-- Row calls that are made at the same time on a database whose rows are the
blocks of `log`, found through a row index of `n` buckets. The writes are of
different rows. A stored row that one of them writes is left alone by the
others, and no other column's hash is mistaken for its column's. There is a
bucket for each row and one more, and no block is too large for a file. -/
structure Round (ι : Type) where
  H : HashFunctions
  retries : Nat
  options : DatabaseOptions
  log : RowLog
  n : Nat
  slot : Nat → Option RowKey
  calls : ι → RowCall
  writers : Finset ι
  loadFactor : LoadFactorOk options.maxLoadFactor
  positive : 0 < options.rowShardCount
  complete : ∀ r ∈ log, r.Complete H
  shards : ∀ r ∈ log, r.shardId < options.rowShardCount
  stored : ∀ k, Stored n slot k ↔ putRows noRows log k ≠ none
  writes : ∀ i, i ∈ writers ↔ (calls i).Writes
  distinct : ∀ i ∈ writers, ∀ j ∈ writers, (calls i).row = (calls j).row → i = j
  alone : ∀ i ∈ writers, putRows noRows log (calls i).row ≠ none → ∀ j, j ≠ i →
    ¬ (H.hashString (calls i).row.1 = H.hashString (calls j).row.1 ∧ (calls i).row.2 = (calls j).row.2)
  room : filled n slot + writers.card < n
  sized : ∀ i ∈ writers, (calls i).Sized H options.maxLoadFactor (putRows noRows log)

/-- How far a write has come: whether it holds a reservation, the position of
its block among those appended, whether the block is written, the bucket it is
filling, and whether the bucket is published and counted. -/
structure Progress where
  pending : Bool := false
  place : Option Nat := none
  written : Bool := false
  claim : Option (Nat × RowIndexBucket) := none
  published : Bool := false
  uncounted : Bool := false

/-- The block an indexed row points to, with what the row holds. -/
structure RowEntry where
  ref : BlockRef
  content : RowMap
  block : Bytes

/-- The state the calls share, with the bytes of the row index and of the shard
files, the row of each bucket, the published block of each row, the blocks that have
a place in the shard files, and how far each call has come. -/
structure Shared (ι : Type) where
  world : World
  bytes : Bytes
  shards : Nat → Bytes
  slot : Nat → Option RowKey
  entry : RowKey → Option RowEntry
  added : RowLog
  progress : ι → Progress

theorem RowStep.trans {w w' w'' : World} (first : RowStep w w') (second : RowStep w' w'') : RowStep w w'' where
  values := second.values.trans first.values
  index := second.index.trans first.index
  valuesMap := second.valuesMap.trans first.valuesMap
  indexMap := second.indexMap.trans first.indexMap
  appendOffset := second.appendOffset.trans first.appendOffset
  options := second.options.trans first.options
  isOpen := second.isOpen.trans first.isOpen
  readOnly := second.readOnly.trans first.readOnly
  descriptors := second.descriptors.trans first.descriptors
  directory := second.directory.trans first.directory
  unused i above := (second.unused i (by rw [first.options]; exact above)).trans (first.unused i above)

namespace Round
variable {ι : Type} (R : Round ι)

abbrev row (i : ι) : RowKey := (R.calls i).row

/-- The rows before the calls. -/
abbrev rows : RowKey → Option RowMap := putRows noRows R.log

abbrev count : Nat := R.options.rowShardCount

def content (i : ι) : RowMap := (R.calls i).content R.rows

/-- Where the block at position `t` of the appended ones lies. -/
def refAt (added : RowLog) (t : Nat) (r : RowRecord) : BlockRef := r.appended (R.log ++ added.take t)

/-- The session is as it was opened, and the files are those of the state. -/
structure Session (x : Shared ι) : Prop where
  isOpen : x.world.members.isOpen = true
  writable : x.world.members.readOnly = false
  options : x.world.members.options = R.options
  shardCount : x.world.members.rowShards = R.count
  unmapped : ∀ s < R.count, x.world.members.maps (.rowShard s) = none
  content : ∀ s < R.count, x.world.disk (.rowShard s) = some (x.shards s)
  index : x.world.disk .rowIndex = some x.bytes
  mapped : x.world.members.maps .rowIndex = some ⟨x.bytes.length, true⟩
  pending : x.world.members.rowPendingInsertCount = (R.writers.filter fun i => (x.progress i).pending).card

/-- The number of rows that have a bucket and are not counted yet. -/
def uncounted (x : Shared ι) : Nat := (R.writers.filter fun i => (x.progress i).uncounted).card

/-- The row index has the buckets of the state: each one is empty, points to
the published block of its row, or is being filled by the one call that claimed
it. -/
structure Indexed (x : Shared ι) : Prop where
  file : ∃ items, RowIndexFile x.bytes R.n items R.count ∧ items + R.uncounted x = filled R.n x.slot
  arranged : Arranged R.n (rowHome R.H) x.slot
  empty : ∀ j < R.n, x.slot j = none → (rowBucketAt x.bytes j).state = kRowBucketEmpty
  full : ∀ j < R.n, ∀ k, x.slot j = some k → ∀ e, x.entry k = some e → rowBucketAt x.bytes j = rowBucket R.H k e.ref
  claimed : ∀ j < R.n, ∀ k, x.slot j = some k → x.entry k = none →
    ∃ i ∈ R.writers, R.row i = k ∧ ∃ bucket, (x.progress i).claim = some (j, bucket)
  claims : ∀ i j bucket, (x.progress i).claim = some (j, bucket) → i ∈ R.writers ∧ j < R.n ∧ x.slot j = some (R.row i) ∧
    x.entry (R.row i) = none ∧ rowBucketAt x.bytes j = bucket ∧ bucket.state = kRowBucketWriting ∧
    (R.rows (R.row i) ≠ none → bucket.columnHash = R.H.hashString (R.row i).1 ∧ bucket.rowId = (R.row i).2)
  stored : ∀ k, x.entry k ≠ none → Stored R.n x.slot k
  kept : ∀ k, Stored R.n R.slot k → Stored R.n x.slot k
  known : ∀ k, Stored R.n x.slot k → Stored R.n R.slot k ∨ ∃ i ∈ R.writers, R.row i = k

/-- The shard files have room for the appended blocks, one behind the other,
and hold those that are written. -/
structure Blocks (x : Shared ι) : Prop where
  offsets : ∀ s < R.count, x.world.members.rowAppendOffsets s = (shardBytes (R.log ++ x.added) s).length
  small : ∀ s < R.count, (shardBytes (R.log ++ x.added) s).length < 2 ^ 63
  base : ∀ s < R.count, BlockIn (x.shards s) 0 (shardBytes R.log s)
  short : ∀ s < R.count, (x.shards s).length ≤ (shardBytes (R.log ++ x.added) s).length
  owned : ∀ t < x.added.length, ∃ i, (x.progress i).place = some t
  placed : ∀ i t, (x.progress i).place = some t → i ∈ R.writers ∧ ∃ r, x.added[t]? = some r ∧ r.key = R.row i ∧
    r.content = R.content i ∧ r.Complete R.H ∧ r.shardId < R.count
  located : ∀ i t r, (x.progress i).place = some t → (x.progress i).written = true → x.added[t]? = some r →
    BlockIn (x.shards r.shardId) (R.refAt x.added t r).blockOffset r.block
  published : ∀ i, (x.progress i).published = true → (x.progress i).written = true ∧
    ∃ t r, (x.progress i).place = some t ∧ x.added[t]? = some r ∧
      x.entry (R.row i) = some ⟨R.refAt x.added t r, R.content i, r.block⟩
  entries : ∀ k e, x.entry k = some e → (∃ i ∈ R.writers, R.row i = k ∧ (x.progress i).published = true) ∨
    (R.rows k = some e.content ∧ BlockAt R.H (shardBytes R.log) R.count e.ref k e.content e.block)

structure Holds (x : Shared ι) : Prop where
  session : R.Session x
  indexed : R.Indexed x
  blocks : R.Blocks x

/-- What the calls `movers` may do to the state: no bucket is given up, only
their rows get buckets and new blocks, and a row that was not stored before
keeps the block it gets. -/
structure Moves (movers : ι → Prop) (x y : Shared ι) : Prop where
  holds : R.Holds x → R.Holds y
  step : RowStep x.world y.world
  kept : ∀ j k, x.slot j = some k → y.slot j = some k
  claimed : ∀ j k, y.slot j = some k → x.slot j = some k ∨ ∃ i, movers i ∧ i ∈ R.writers ∧ R.row i = k
  entry : ∀ k, (∀ i, movers i → i ∈ R.writers → R.row i ≠ k) → y.entry k = x.entry k
  final : ∀ k e, x.entry k = some e → R.rows k = none → y.entry k = some e
  added : x.added <+: y.added
  progress : ∀ i, ¬ movers i → y.progress i = x.progress i

section Order
variable {R : Round ι} {movers movers' : ι → Prop} {x y z : Shared ι}

theorem Moves.refl (movers : ι → Prop) (x : Shared ι) : R.Moves movers x x :=
  ⟨id, RowStep.refl _, fun _ _ => id, fun _ _ => Or.inl, fun _ _ => rfl, fun _ _ at_k _ => at_k, List.prefix_refl _,
    fun _ _ => rfl⟩

theorem Moves.trans (first : R.Moves movers x y) (second : R.Moves movers y z) : R.Moves movers x z where
  holds := second.holds ∘ first.holds
  step := first.step.trans second.step
  kept j k at_j := second.kept j k (first.kept j k at_j)
  claimed j k at_j := by
    rcases second.claimed j k at_j with before | claimed
    · exact first.claimed j k before
    · exact Or.inr claimed
  entry k others := (second.entry k others).trans (first.entry k others)
  final k e at_k fresh := second.final k e (first.final k e at_k fresh) fresh
  added := first.added.trans second.added
  progress i still := (second.progress i still).trans (first.progress i still)

theorem Moves.mono (fewer : ∀ i, movers i → movers' i) (moves : R.Moves movers x y) : R.Moves movers' x y where
  holds := moves.holds
  step := moves.step
  kept := moves.kept
  claimed j k at_j := by
    rcases moves.claimed j k at_j with before | ⟨i, moved, writer, row⟩
    · exact Or.inl before
    · exact Or.inr ⟨i, fewer i moved, writer, row⟩
  entry k others := moves.entry k fun i moved => others i (fewer i moved)
  final := moves.final
  added := moves.added
  progress i still := moves.progress i fun moved => still (fewer i moved)

theorem compatible (R : Round ι) : Compatible (fun i => R.Moves (· ≠ i)) (fun i => R.Moves (· = i)) where
  refl i x := Moves.refl _ x
  trans _ _ _ _ := Moves.trans
  moves i j x y other moves := moves.mono fun l here => by
    subst here
    exact other

end Order

section Facts
variable {R : Round ι} {i : ι} {k : RowKey} {e : RowEntry} {x y : Shared ι}

/-- The block of every published row is in its shard file. -/
theorem Holds.blockAt (holds : R.Holds x) (at_k : x.entry k = some e) :
    BlockAt R.H x.shards R.count e.ref k e.content e.block := by
  rcases holds.blocks.entries k e at_k with ⟨i, writer, rfl, published⟩ | ⟨_, based⟩
  · obtain ⟨written, t, r, place, at_t, entry⟩ := holds.blocks.published i published
    cases Option.some.inj (at_k.symm.trans entry)
    obtain ⟨_, r', at_t', key, content, complete, shard⟩ := holds.blocks.placed i t place
    cases Option.some.inj (at_t.symm.trans at_t')
    have row := complete.row
    rw [key, content] at row
    exact ⟨shard, holds.blocks.located i t r place written at_t, rfl, row⟩
  · have base := holds.blocks.base e.ref.shardId based.shard
    have inside := based.located.inside
    have bytes := base.part e.ref.blockOffset e.block.length inside
    rw [Nat.zero_add, based.located.bytes] at bytes
    exact ⟨based.shard, ⟨by have := base.inside; omega, bytes⟩, based.size, based.row⟩

theorem Holds.reads (holds : R.Holds x) : ReadsShards x.world x.shards R.count where
  shardCount := holds.session.shardCount
  content := holds.session.content
  small s inside := (holds.blocks.short s inside).trans_lt (holds.blocks.small s inside)
  map s inside := Or.inl (holds.session.unmapped s inside)

theorem Holds.sees (holds : R.Holds x) : x.world.Sees .rowIndex x.bytes :=
  World.sees_of_map holds.session.index holds.session.mapped

/-- Beside the rows that were stored before only these have buckets. -/
theorem Holds.filled_le_of_known (holds : R.Holds x) (added : Finset RowKey)
    (known : ∀ k, Stored R.n x.slot k → Stored R.n R.slot k ∨ k ∈ added) : filled R.n x.slot ≤ filled R.n R.slot + added.card := by
  have counted : (keys R.n x.slot).toFinset ⊆ (keys R.n R.slot).toFinset ∪ added := by
    intro k member
    rw [List.mem_toFinset, mem_keys] at member
    rw [Finset.mem_union, List.mem_toFinset, mem_keys]
    exact known k member
  have bound := (Finset.card_le_card counted).trans (Finset.card_union_le _ _)
  rw [List.toFinset_card_of_nodup holds.indexed.arranged.keys_nodup, ← filled_eq_length_keys] at bound
  have before := List.toFinset_card_le (keys R.n R.slot)
  rw [← filled_eq_length_keys] at before
  omega

/-- There is always an empty bucket. -/
theorem Holds.filled_lt (holds : R.Holds x) : filled R.n x.slot < R.n := by
  have bound := holds.filled_le_of_known (R.writers.image R.row) fun k stored => by
    rw [Finset.mem_image]
    exact holds.indexed.known k stored
  have writing := Finset.card_image_le (s := R.writers) (f := R.row)
  have room := R.room
  omega

/-- The others do not replace the block of the row while the call runs. -/
def Steady (R : Round ι) (i : ι) (k : RowKey) : Prop := R.rows k ≠ none → ∀ j ∈ R.writers, j ≠ i → R.row j ≠ k

theorem Moves.steady (moves : R.Moves (· ≠ i) x y) (steady : R.Steady i k) (at_k : x.entry k = some e) :
    y.entry k = some e := by
  by_cases fresh : R.rows k = none
  · exact moves.final k e at_k fresh
  · rw [moves.entry k fun j other writer => steady fresh j writer other]
    exact at_k

/-- A row whose hashes are those of the call's own row is steady. -/
theorem steady_of_hashes (columnHash : R.H.hashString k.1 = R.H.hashString (R.row i).1) (rowId : k.2 = (R.row i).2) :
    R.Steady i k := by
  intro stored j writer other same
  subst same
  exact R.alone j writer stored i (Ne.symm other) ⟨columnHash, rowId⟩

end Facts

end Round

end LumoDB
