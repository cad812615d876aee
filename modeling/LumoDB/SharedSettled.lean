import LumoDB.SharedCalls
import LumoDB.RowScan
import LumoDB.Session

namespace LumoDB
open ByteCodec Effects LinearProbing

section Logs
variable {H : HashFunctions} {log more : RowLog} {k : RowKey} {content : RowMap} {m : RowKey → Option RowMap}

theorem BlockIn.adjacent {file first second : Bytes} {offset : Nat} (before : BlockIn file offset first)
    (after : BlockIn file (offset + first.length) second) : BlockIn file offset (first ++ second) where
  inside := by
    have inside := after.inside
    rw [List.length_append]
    omega
  bytes := by rw [List.length_append, slice_add, before.bytes, after.bytes]

/-- A row of which the log has no block stays as it was. -/
theorem putRows_untouched (m : RowKey → Option RowMap) (untouched : ∀ r ∈ log, r.key ≠ k) : putRows m log k = m k := by
  induction log generalizing m with
  | nil => rfl
  | cons r log ih =>
    rw [show putRows m (r :: log) = putRows (Function.update m r.key (some r.content)) log from rfl,
      ih _ fun r' member => untouched r' (List.mem_cons_of_mem r member),
      Function.update_of_ne (Ne.symm (untouched r List.mem_cons_self))]

/-- A row whose blocks all have the same content holds it. -/
theorem putRows_of_content (m : RowKey → Option RowMap) (mentioned : ∃ r ∈ log, r.key = k)
    (same : ∀ r ∈ log, r.key = k → r.content = content) : putRows m log k = some content := by
  induction log using List.reverseRecOn with
  | nil =>
    obtain ⟨r, member, _⟩ := mentioned
    cases member
  | append_singleton log r ih =>
    rw [putRows_append, putRows_singleton]
    by_cases last : r.key = k
    · rw [last, Function.update_self, same r (by simp) last]
    · rw [Function.update_of_ne (Ne.symm last)]
      obtain ⟨r', member, key⟩ := mentioned
      rcases List.mem_append.mp member with old | new
      · exact ih ⟨r', old, key⟩ fun r'' member' => same r'' (List.mem_append_left _ member')
      · rw [List.mem_singleton.mp new] at key
        exact absurd key last

end Logs

/-- Where the published block of a row lies. -/
def Shared.ref {ι : Type} (x : Shared ι) (k : RowKey) : BlockRef := ((x.entry k).map RowEntry.ref).getD ⟨0, 0, 0, 0⟩

namespace Round
variable {ι : Type} {R : Round ι} {i : ι} {k : RowKey} {e : RowEntry} {x : Shared ι}

/-- Every appended block is that of a write. -/
theorem Blocks.owner (blocks : R.Blocks x) {r : RowRecord} (member : r ∈ x.added) :
    ∃ i ∈ R.writers, (∃ t, (x.progress i).place = some t) ∧ R.row i = r.key ∧ r.content = R.content i ∧ r.Complete R.H ∧
      r.shardId < R.count := by
  obtain ⟨t, within, rfl⟩ := List.getElem_of_mem member
  obtain ⟨i, at_i⟩ := blocks.owned t within
  obtain ⟨writer, r, at_t, key, content, complete, shard⟩ := blocks.placed i t at_i
  rw [List.getElem?_eq_getElem within] at at_t
  cases at_t
  exact ⟨i, writer, ⟨t, at_i⟩, key.symm, content, complete, shard⟩

/-- The calls have ended: every write has stored its row or has left nothing
behind. -/
structure Settled (R : Round ι) (x : Shared ι) : Prop where
  holds : R.Holds x
  ended : ∀ i ∈ R.writers, R.Returned i x ∨ x.progress i = {}

section Counts

theorem Settled.released (settled : R.Settled x) {f : Progress → Bool} (ended : ∀ t, f { place := some t, written := true, published := true } = false)
    (unbegun : f {} = false) : (R.writers.filter fun i => f (x.progress i)).card = 0 := by
  rw [Finset.card_eq_zero, Finset.filter_eq_empty_iff]
  intro i writer
  rcases settled.ended i writer with ⟨t, e, at_x, _⟩ | none
  · rw [at_x.progress, ended t]
    decide
  · rw [none, unbegun]
    decide

theorem Settled.unclaimed (settled : R.Settled x) (writer : i ∈ R.writers) : (x.progress i).claim = none := by
  rcases settled.ended i writer with ⟨t, e, at_x, _⟩ | none
  · rw [at_x.progress]
  · rw [none]

/-- Every block that got a place is published. -/
theorem Settled.published (settled : R.Settled x) {t : Nat} (at_i : (x.progress i).place = some t) :
    (x.progress i).published = true ∧ (x.progress i).written = true := by
  obtain ⟨writer, _⟩ := settled.holds.blocks.placed i t at_i
  rcases settled.ended i writer with ⟨t', e, at_x, _⟩ | none
  · rw [at_x.progress]
    exact ⟨rfl, rfl⟩
  · rw [none] at at_i
    cases at_i

/-- No row is in the table without a published block. -/
theorem Settled.stored_iff (settled : R.Settled x) : Stored R.n x.slot k ↔ x.entry k ≠ none := by
  refine ⟨?_, settled.holds.indexed.stored k⟩
  rintro ⟨j, inside, at_j⟩ absent
  obtain ⟨i, writer, _, bucket, claim⟩ := settled.holds.indexed.claimed j inside k at_j absent
  cases (settled.unclaimed writer).symm.trans claim

end Counts

section Files

theorem Settled.prefix_located (settled : R.Settled x) {s : Nat} (inside : s < R.count) {t : Nat} (within : t ≤ x.added.length) :
    BlockIn (x.shards s) 0 (shardBytes (R.log ++ x.added.take t) s) := by
  induction t with
  | zero =>
    rw [List.take_zero, List.append_nil]
    exact settled.holds.blocks.base s inside
  | succ t ih =>
    have before := ih (by omega)
    obtain ⟨r, at_t⟩ : ∃ r, x.added[t]? = some r := ⟨_, List.getElem?_eq_getElem (by omega)⟩
    rw [List.take_add_one, at_t, Option.toList_some, ← List.append_assoc]
    by_cases here : r.shardId = s
    · obtain ⟨i, at_i⟩ := settled.holds.blocks.owned t (by omega)
      have located := settled.holds.blocks.located i t r at_i (settled.published at_i).2 at_t
      subst here
      rw [shardBytes_append_self]
      exact before.adjacent (by rwa [Nat.zero_add])
    · rw [shardBytes_append_ne (Ne.symm here)]
      exact before

/-- The shard files are what the appends in their order leave. -/
theorem Settled.shards (settled : R.Settled x) {s : Nat} (inside : s < R.count) :
    x.shards s = shardBytes (R.log ++ x.added) s := by
  have whole := settled.prefix_located inside le_rfl
  rw [List.take_length] at whole
  have short := settled.holds.blocks.short s inside
  have long := whole.inside
  have length : (shardBytes (R.log ++ x.added) s).length = (x.shards s).length := by omega
  have bytes := whole.bytes
  rwa [length, slice_self] at bytes

/-- The rows are those of the entries. -/
theorem Settled.rows (settled : R.Settled x) (k : RowKey) :
    putRows noRows (R.log ++ x.added) k = (x.entry k).map RowEntry.content := by
  have blocks := settled.holds.blocks
  rw [putRows_append]
  by_cases mentioned : ∃ r ∈ x.added, r.key = k
  · obtain ⟨r, member, key⟩ := id mentioned
    obtain ⟨i, writer, ⟨_, at_i⟩, row, _⟩ := blocks.owner member
    rw [key] at row
    obtain ⟨_, t, r', _, _, entry⟩ := blocks.published i (settled.published at_i).1
    rw [row] at entry
    rw [entry]
    refine putRows_of_content _ mentioned fun r'' member' key' => ?_
    obtain ⟨i', writer', _, row', content, _⟩ := blocks.owner member'
    rw [content, R.distinct i' writer' i writer (row'.trans (key'.trans row.symm))]
  · rw [not_exists] at mentioned
    rw [putRows_untouched _ fun r member key => mentioned r ⟨member, key⟩]
    cases at_k : x.entry k with
    | none =>
      by_contra present
      exact settled.stored_iff.mp (settled.holds.indexed.kept k ((R.stored k).mpr present)) at_k
    | some e =>
      rcases blocks.entries k e at_k with ⟨i, writer, row, published⟩ | based
      · obtain ⟨_, t, r, at_i, at_t, _⟩ := blocks.published i published
        obtain ⟨_, r', at_t', key, _⟩ := blocks.placed i t at_i
        cases Option.some.inj (at_t.symm.trans at_t')
        exact absurd (key.trans row) fun same => mentioned r ⟨List.mem_of_getElem? at_t, same⟩
      · exact based.1

theorem Settled.table (settled : R.Settled x) : RowTable R.H x.bytes R.n R.count x.slot x.ref := by
  have indexed := settled.holds.indexed
  obtain ⟨items, file, sum⟩ := indexed.file
  have uncounted : R.uncounted x = 0 := settled.released (f := Progress.uncounted) (fun _ => rfl) rfl
  obtain rfl : items = filled R.n x.slot := by omega
  refine ⟨file, settled.holds.table, indexed.empty, fun j inside k at_j => ?_⟩
  obtain ⟨e, at_k⟩ := Option.ne_none_iff_exists'.mp (settled.stored_iff.mp ⟨j, inside, at_j⟩)
  rw [indexed.full j inside k at_j e at_k, Shared.ref, at_k]
  rfl

theorem Settled.represents (settled : R.Settled x) :
    RowRepresents R.H (shardBytes (R.log ++ x.added)) R.count R.n x.slot x.ref (putRows noRows (R.log ++ x.added)) := by
  intro k
  rw [settled.rows k, Option.map_eq_none_iff]
  refine ⟨fun absent stored => settled.stored_iff.mp stored absent, fun content held => ?_⟩
  obtain ⟨e, at_k, rfl⟩ := Option.map_eq_some_iff.mp held
  have at_ref := settled.holds.blockAt at_k
  have located := at_ref.located
  rw [settled.shards at_ref.shard] at located
  refine ⟨settled.stored_iff.mpr (by rw [at_k]; exact Option.some_ne_none e), e.block, ?_⟩
  rw [Shared.ref, at_k]
  exact ⟨at_ref.shard, located, at_ref.size, at_ref.row⟩

/-- The state is one that calls made one after the other can leave. -/
theorem Settled.files (settled : R.Settled x) : RowFiles R.H x.world (R.log ++ x.added) x.bytes R.n x.slot x.ref := by
  have session := settled.holds.session
  have blocks := settled.holds.blocks
  have reads := settled.holds.reads
  have count : x.world.members.options.rowShardCount = R.count := by rw [session.options]
  have record : ∀ r ∈ R.log ++ x.added, r.Complete R.H ∧ r.shardId < R.count := by
    intro r member
    rcases List.mem_append.mp member with old | new
    · exact ⟨R.complete r old, R.shards r old⟩
    · obtain ⟨_, _, _, _, _, complete, shard⟩ := blocks.owner new
      exact ⟨complete, shard⟩
  refine
    { reads := ?_, positive := by rw [count]; exact R.positive, unmapped := by rw [count]; exact session.unmapped
      index := session.index, mapped := session.mapped, appendOffsets := by rw [count]; exact blocks.offsets
      pending := session.pending.trans (settled.released (f := Progress.pending) (fun _ => rfl) rfl)
      complete := fun r member => (record r member).1, shards := by rw [count]; exact fun r member => (record r member).2
      table := by rw [count]; exact settled.table, represents := by rw [count]; exact settled.represents }
  rw [count]
  exact ⟨reads.shardCount, fun s inside => by rw [reads.content s inside, settled.shards inside], blocks.small,
    fun s inside => Or.inl (session.unmapped s inside)⟩

end Files

end Round

end LumoDB
