import LumoDB.SharedLookups

namespace LumoDB
open ByteCodec Effects LinearProbing

section Fields
variable {b : Bytes} {j : Nat}

/-- A store inside a bucket replaces that bucket. -/
theorem rowBucketSet_store {f : Nat} {data : Bytes} (inside : rowBucketOffset j + 64 ≤ b.length) (fits : f + data.length ≤ 64) :
    RowBucketSet b j (rowBucketAt (patch b (rowBucketOffset j + f) data) j) (patch b (rowBucketOffset j + f) data) where
  length := patch_length_of_le (by omega)
  header offset size within := by
    have := Nat.zero_le j
    exact slice_patch_before (by unfold rowBucketOffset; omega) (by unfold rowBucketOffset at inside; omega)
  here := rfl
  others other ne within := by
    apply rowBucketAt_patch_of_apart
    unfold rowBucketOffset at *
    omega

theorem natAt_store_self {f width value : Nat} (fits : value < 256 ^ width) :
    natAt (patch b (rowBucketOffset j + f) (leBytes width value)) (rowBucketOffset j + f) width = value := by
  rw [natAt_patch_leBytes, Nat.mod_eq_of_lt fits]

theorem natAt_store_ne {f width value g width' : Nat} (inside : rowBucketOffset j + 64 ≤ b.length) (within : g + width' ≤ 64)
    (apart : g + width' ≤ f ∨ f + width ≤ g) :
    natAt (patch b (rowBucketOffset j + f) (leBytes width value)) (rowBucketOffset j + g) width' =
      natAt b (rowBucketOffset j + g) width' :=
  natAt_patch_disjoint (by rw [leBytes_length]; omega)

/-- The fields of a bucket as the stores of its data fill them. -/
inductive RowField where
  | state
  | shardId
  | columnHash
  | rowId
  | blockOffset
  | blockSize
  | sequence

def RowField.offset : RowField → Nat
  | state => 0
  | shardId => 4
  | columnHash => 8
  | rowId => 16
  | blockOffset => 24
  | blockSize => 32
  | sequence => 40

def RowField.width : RowField → Nat
  | state => 4
  | shardId => 4
  | _ => 8

def RowField.set (value : Nat) (bucket : RowIndexBucket) : RowField → RowIndexBucket
  | state => { bucket with state := value }
  | shardId => { bucket with shardId := value }
  | columnHash => { bucket with columnHash := value }
  | rowId => { bucket with rowId := value }
  | blockOffset => { bucket with blockOffset := value }
  | blockSize => { bucket with blockSize := value }
  | sequence => { bucket with sequence := value }

theorem RowField.inside (f : RowField) : f.offset + f.width ≤ 48 := by cases f <;> decide

/-- A store to a field of a bucket changes that field only. -/
theorem rowBucketAt_store (f : RowField) {value : Nat} (inside : rowBucketOffset j + 64 ≤ b.length) (fits : value < 256 ^ f.width) :
    rowBucketAt (patch b (rowBucketOffset j + f.offset) (leBytes f.width value)) j = f.set value (rowBucketAt b j) := by
  have state : ∀ b, natAt b (rowBucketOffset j) 4 = natAt b (rowBucketOffset j + 0) 4 := fun _ => rfl
  have own := @natAt_store_self b j f.offset f.width value fits
  have other : ∀ g width', g + width' ≤ 64 → g + width' ≤ f.offset ∨ f.offset + f.width ≤ g →
      natAt (patch b (rowBucketOffset j + f.offset) (leBytes f.width value)) (rowBucketOffset j + g) width' =
        natAt b (rowBucketOffset j + g) width' := fun g width' within apart => natAt_store_ne inside within apart
  rw [rowBucketAt_eq, rowBucketAt_eq, state, state]
  cases f <;> simp only [RowField.offset, RowField.width, RowField.set] at own other ⊢ <;>
    simp only [own, other _ _ (by decide : 0 + 4 ≤ 64), other _ _ (by decide : 4 + 4 ≤ 64), other _ _ (by decide : 8 + 8 ≤ 64),
      other _ _ (by decide : 16 + 8 ≤ 64), other _ _ (by decide : 24 + 8 ≤ 64), other _ _ (by decide : 32 + 8 ≤ 64),
      other _ _ (by decide : 40 + 8 ≤ 64), Nat.reduceAdd, Nat.reduceLeDiff, true_or, or_true]

end Fields

namespace Round
variable {ι : Type} {R : Round ι} {i : ι} {x y : Shared ι}

section Parts

/-- A change that leaves the session's members, the shard files and the
reservations keeps the session. -/
theorem Session.transfer (session : R.Session x) (step : RowStep x.world y.world)
    (shardCount : y.world.members.rowShards = x.world.members.rowShards)
    (unmapped : ∀ s, y.world.members.maps (.rowShard s) = x.world.members.maps (.rowShard s))
    (content : ∀ s < R.count, y.world.disk (.rowShard s) = some (y.shards s))
    (index : y.world.disk .rowIndex = some y.bytes)
    (mapped : y.world.members.maps .rowIndex = some ⟨y.bytes.length, true⟩)
    (pending : y.world.members.rowPendingInsertCount = (R.writers.filter fun l => (y.progress l).pending).card) :
    R.Session y where
  isOpen := step.isOpen.trans session.isOpen
  writable := step.readOnly.trans session.writable
  options := step.options.trans session.options
  shardCount := shardCount.trans session.shardCount
  unmapped s inside := (unmapped s).trans (session.unmapped s inside)
  content := content
  index := index
  mapped := mapped
  pending := pending

theorem Indexed.transfer (indexed : R.Indexed x) (bytes : ∃ items, RowIndexFile y.bytes R.n items R.count ∧
      items + R.uncounted y = filled R.n x.slot) (buckets : ∀ j, rowBucketAt y.bytes j = rowBucketAt x.bytes j)
    (slot : y.slot = x.slot) (entry : y.entry = x.entry) (claim : ∀ l, (y.progress l).claim = (x.progress l).claim) :
    R.Indexed y where
  file := by rwa [slot]
  arranged := by rw [slot]; exact indexed.arranged
  empty j inside := by rw [slot, buckets]; exact indexed.empty j inside
  full j inside k := by rw [slot, entry, buckets]; exact indexed.full j inside k
  claimed j inside k := by simp only [slot, entry, claim]; exact indexed.claimed j inside k
  claims l j bucket := by rw [slot, entry, claim, buckets]; exact indexed.claims l j bucket
  stored k := by rw [slot, entry]; exact indexed.stored k
  kept k := by rw [slot]; exact indexed.kept k
  known k := by rw [slot]; exact indexed.known k

theorem Blocks.transfer (blocks : R.Blocks x) (offsets : y.world.members.rowAppendOffsets = x.world.members.rowAppendOffsets)
    (shards : y.shards = x.shards) (added : y.added = x.added) (entry : y.entry = x.entry)
    (place : ∀ l, (y.progress l).place = (x.progress l).place) (written : ∀ l, (y.progress l).written = (x.progress l).written)
    (published : ∀ l, (y.progress l).published = (x.progress l).published) : R.Blocks y where
  offsets := by rw [offsets, added]; exact blocks.offsets
  small := by rw [added]; exact blocks.small
  base := by rw [shards]; exact blocks.base
  short := by rw [shards, added]; exact blocks.short
  owned := by simp only [added, place]; exact blocks.owned
  placed := by simp only [added, place]; exact blocks.placed
  located := by simp only [added, place, written, shards]; exact blocks.located
  published := by simp only [added, place, written, published, entry]; exact blocks.published
  entries := by simp only [entry, published]; exact blocks.entries

/-- The number of writes with a mark grows by the one that gets it. -/
theorem card_mark [DecidableEq ι] {f g : ι → Bool} (writer : i ∈ R.writers) (others : ∀ l, l ≠ i → g l = f l)
    (before : f i = false) (after : g i = true) :
    (R.writers.filter fun l => g l).card = (R.writers.filter fun l => f l).card + 1 := by
  have grown : (R.writers.filter fun l => g l) = insert i (R.writers.filter fun l => f l) := by
    ext l
    rw [Finset.mem_insert, Finset.mem_filter, Finset.mem_filter]
    by_cases mine : l = i
    · subst mine
      simp [writer, after]
    · simp [mine, others l mine]
  rw [grown, Finset.card_insert_of_notMem (by simp [before])]

theorem filter_congr {f g : ι → Bool} (same : ∀ l, g l = f l) :
    (R.writers.filter fun l => g l).card = (R.writers.filter fun l => f l).card := by
  simp only [same]

/-- A step of the call `i` that publishes nothing and claims nothing. -/
theorem Moves.quiet (holds : R.Holds y) (step : RowStep x.world y.world) (slot : y.slot = x.slot) (entry : y.entry = x.entry)
    (added : x.added <+: y.added) (others : ∀ l, l ≠ i → y.progress l = x.progress l) : R.Moves (· = i) x y where
  holds _ := holds
  step := step
  kept j k at_j := by rwa [slot]
  claimed j k at_j := by
    rw [slot] at at_j
    exact Or.inl at_j
  entry k _ := by rw [entry]
  final k e at_k _ := by rwa [entry]
  added := added
  progress := others

theorem Holds.table (holds : R.Holds x) : Table R.n (rowHome R.H) x.slot :=
  ⟨holds.indexed.arranged.unique, holds.indexed.arranged.chain, vacancy_of_filled_lt holds.filled_lt⟩

/-- What the bucket and the entry of the call's row can be: published, or being
filled by the call. -/
inductive Bucketed (R : Round ι) (i : ι) (y : Shared ι) (j : Nat) (bucket : RowIndexBucket) : Prop where
  | published {e} (entry : y.entry (R.row i) = some e) (full : bucket = rowBucket R.H (R.row i) e.ref)
      (claim : (y.progress i).claim = none) : Bucketed R i y j bucket
  | claimed (entry : y.entry (R.row i) = none) (claim : (y.progress i).claim = some (j, bucket))
      (writing : bucket.state = kRowBucketWriting)
      (named : R.rows (R.row i) ≠ none → bucket.columnHash = R.H.hashString (R.row i).1 ∧ bucket.rowId = (R.row i).2) :
      Bucketed R i y j bucket

/-- A step that replaces the bucket of the call's row. -/
theorem Indexed.repoint {j : Nat} {bucket : RowIndexBucket} {present : Bool} (indexed : R.Indexed x)
    (table : Table R.n (rowHome R.H) x.slot) (writer : i ∈ R.writers) (set : RowBucketSet x.bytes j bucket y.bytes)
    (looked : Lookup R.n (rowHome R.H) x.slot (R.row i) j present)
    (slot : y.slot = Function.update x.slot j (some (R.row i))) (entry : ∀ k, k ≠ R.row i → y.entry k = x.entry k)
    (others : ∀ l, l ≠ i → y.progress l = x.progress l) (bucketed : R.Bucketed i y j bucket)
    (counted : R.uncounted y = R.uncounted x + if present then 0 else 1) : R.Indexed y := by
  obtain ⟨items, file, sum⟩ := indexed.file
  have elsewhere := looked.others table
  have grown := stored_update looked.inside looked.free
  have bytes : ∀ l < R.n, l ≠ j → rowBucketAt y.bytes l = rowBucketAt x.bytes l := fun l inside other =>
    set.others l other (file.bucket_inside inside)
  refine
    { file := ⟨items, file.bucketSet set, ?_⟩, arranged := ?_, empty := ?_, full := ?_, claimed := ?_, claims := ?_, stored := ?_,
      kept := ?_, known := ?_ }
  · rw [slot, looked.filled_eq, counted]
    split <;> omega
  · rw [slot]
    exact looked.insert indexed.arranged
  · intro l inside vacant
    by_cases here : l = j
    · rw [slot, here, Function.update_self] at vacant
      cases vacant
    · rw [slot, Function.update_of_ne here] at vacant
      rw [bytes l inside here]
      exact indexed.empty l inside vacant
  · intro l inside k at_l e at_k
    by_cases here : l = j
    · rw [slot, here, Function.update_self] at at_l
      cases Option.some.inj at_l
      rw [here, set.here]
      cases bucketed with
      | published entry full _ =>
        cases Option.some.inj (entry.symm.trans at_k)
        exact full
      | claimed entry => cases entry.symm.trans at_k
    · rw [slot, Function.update_of_ne here] at at_l
      have other : k ≠ R.row i := fun same => elsewhere l inside here (same ▸ at_l)
      rw [bytes l inside here]
      exact indexed.full l inside k at_l e (entry k other ▸ at_k)
  · intro l inside k at_l at_k
    by_cases here : l = j
    · rw [slot, here, Function.update_self] at at_l
      cases Option.some.inj at_l
      cases bucketed with
      | published entry => cases entry.symm.trans at_k
      | claimed _ claim => exact ⟨i, writer, rfl, bucket, here ▸ claim⟩
    · rw [slot, Function.update_of_ne here] at at_l
      have other : k ≠ R.row i := fun same => elsewhere l inside here (same ▸ at_l)
      obtain ⟨o, owner, rfl, held, claim⟩ := indexed.claimed l inside k at_l (entry k other ▸ at_k)
      exact ⟨o, owner, rfl, held, by rwa [others o fun same => other (by rw [same])]⟩
  · intro o l held claim
    by_cases mine : o = i
    · subst mine
      cases bucketed with
      | published _ _ unclaimed => cases unclaimed.symm.trans claim
      | claimed unpublished claim' writing named =>
        cases Option.some.inj (claim'.symm.trans claim)
        exact ⟨writer, looked.inside, by rw [slot, Function.update_self], unpublished, set.here, writing, named⟩
    · rw [others o mine] at claim
      obtain ⟨owner, inside, at_l, unpublished, bucket_eq, writing, named⟩ := indexed.claims o l held claim
      have other : R.row o ≠ R.row i := fun same => mine (R.distinct o owner i writer same)
      have here : l ≠ j := by
        rintro rfl
        rcases looked.free with vacant | own
        · cases vacant.symm.trans at_l
        · exact other (Option.some.inj (at_l.symm.trans own))
      exact ⟨owner, inside, by rw [slot, Function.update_of_ne here, at_l], by rw [entry _ other, unpublished],
        by rw [bytes l inside here, bucket_eq], writing, named⟩
  · intro k present'
    rw [slot, grown]
    by_cases own : k = R.row i
    · exact Or.inl own
    · rw [entry k own] at present'
      exact Or.inr (indexed.stored k present')
  · intro k before
    rw [slot, grown]
    exact Or.inr (indexed.kept k before)
  · intro k now
    rw [slot, grown] at now
    rcases now with rfl | now
    · exact Or.inr ⟨i, writer, rfl⟩
    · exact indexed.known k now

/-- A step that changes the published block of the call's row. -/
theorem Blocks.repoint (blocks : R.Blocks x) (writer : i ∈ R.writers)
    (offsets : y.world.members.rowAppendOffsets = x.world.members.rowAppendOffsets) (shards : y.shards = x.shards)
    (added : y.added = x.added) (entry : ∀ k, k ≠ R.row i → y.entry k = x.entry k)
    (others : ∀ l, l ≠ i → y.progress l = x.progress l) (place : (y.progress i).place = (x.progress i).place)
    (written : (y.progress i).written = (x.progress i).written)
    (own : (y.entry (R.row i) = none ∧ (y.progress i).published = false) ∨
      ((y.progress i).published = true ∧ (y.progress i).written = true ∧ ∃ t r, (y.progress i).place = some t ∧
        y.added[t]? = some r ∧ y.entry (R.row i) = some ⟨R.refAt y.added t r, R.content i, r.block⟩)) : R.Blocks y := by
  have place' : ∀ l, (y.progress l).place = (x.progress l).place := by
    intro l
    by_cases mine : l = i
    · rw [mine, place]
    · rw [others l mine]
  have written' : ∀ l, (y.progress l).written = (x.progress l).written := by
    intro l
    by_cases mine : l = i
    · rw [mine, written]
    · rw [others l mine]
  refine
    { offsets := by rw [offsets, added]; exact blocks.offsets, small := by rw [added]; exact blocks.small
      base := by rw [shards]; exact blocks.base, short := by rw [shards, added]; exact blocks.short
      owned := by simp only [added, place']; exact blocks.owned, placed := by simp only [added, place']; exact blocks.placed
      located := by simp only [added, place', written', shards]; exact blocks.located, published := ?_, entries := ?_ }
  · intro l published
    by_cases mine : l = i
    · subst mine
      rcases own with ⟨_, unpublished⟩ | ⟨_, known⟩
      · cases published.symm.trans unpublished
      · exact known
    · rw [others l mine] at published ⊢
      rw [added]
      obtain ⟨done, t, r, at_t, held, pointed⟩ := blocks.published l published
      have other : R.row l ≠ R.row i := fun same => mine (R.distinct l (blocks.placed l t at_t).1 i writer same)
      exact ⟨done, t, r, at_t, held, by rw [entry _ other, pointed]⟩
  · intro k e at_k
    by_cases here : k = R.row i
    · subst here
      rcases own with ⟨unpublished, _⟩ | ⟨published, _⟩
      · cases unpublished.symm.trans at_k
      · exact Or.inl ⟨i, writer, rfl, published⟩
    · rw [entry k here] at at_k
      rcases blocks.entries k e at_k with ⟨l, owner, row, published⟩ | based
      · exact Or.inl ⟨l, owner, row, by rwa [others l fun same => here (by rw [← row, same])]⟩
      · exact Or.inr based

end Parts

section Places

theorem shardBytes_length_le (log more : RowLog) (s : Nat) : (shardBytes log s).length ≤ (shardBytes (log ++ more) s).length := by
  simp only [shardBytes, shardLog, List.filter_append, encodeRows_append, List.length_append]
  omega

theorem refAt_append {added more : RowLog} {t : Nat} (within : t ≤ added.length) (r : RowRecord) :
    R.refAt (added ++ more) t r = R.refAt added t r := by
  unfold refAt
  rw [List.take_append_of_le_length within]

theorem refAt_extended {added later : RowLog} {t : Nat} {r r' : RowRecord} (grown : added <+: later) (at_t : added[t]? = some r') :
    R.refAt later t r = R.refAt added t r := by
  obtain ⟨more, rfl⟩ := grown
  exact refAt_append (List.getElem?_eq_some_iff.mp at_t).1.le r

/-- Every appended block lies before the next ones of its shard. -/
theorem refAt_before {added : RowLog} {t t' : Nat} {r : RowRecord} (at_t : added[t]? = some r) (before : t < t') :
    (R.refAt added t r).blockOffset + r.block.length ≤ (shardBytes (R.log ++ added.take t') r.shardId).length := by
  have upto : added.take (t + 1) = added.take t ++ [r] := by rw [List.take_add_one, at_t, Option.toList_some]
  have more : added.take t' = added.take (t + 1) ++ (added.take t').drop (t + 1) := by
    have same := (List.take_append_drop (t + 1) (added.take t')).symm
    rwa [List.take_take, Nat.min_eq_left (by omega)] at same
  have grown := shardBytes_length_le (R.log ++ added.take (t + 1)) ((added.take t').drop (t + 1)) r.shardId
  rw [List.append_assoc, ← more] at grown
  rw [upto, ← List.append_assoc, shardBytes_append_self, List.length_append] at grown
  exact grown

theorem refAt_inside {added : RowLog} {t : Nat} {r : RowRecord} (at_t : added[t]? = some r) :
    (R.refAt added t r).blockOffset + r.block.length ≤ (shardBytes (R.log ++ added) r.shardId).length := by
  have before := R.refAt_before at_t (List.getElem?_eq_some_iff.mp at_t).1
  rwa [List.take_length] at before

/-- A store before a block leaves it. -/
theorem BlockIn.patch_after {shard block data : Bytes} {offset start : Nat} (located : BlockIn shard offset block)
    (before : start + data.length ≤ offset) : BlockIn (patch shard start data) offset block where
  inside := by
    have inside := located.inside
    rw [patch_length]
    omega
  bytes := by rw [slice_patch_after before, located.bytes]

/-- A block gets its place at the end of its shard. -/
theorem Blocks.place [DecidableEq ι] {r : RowRecord} (blocks : R.Blocks x) (writer : i ∈ R.writers) (key : r.key = R.row i)
    (content : r.content = R.content i) (complete : r.Complete R.H) (shard : r.shardId < R.count)
    (fits : x.world.members.rowAppendOffsets r.shardId + r.block.length < 2 ^ 63) (before : (x.progress i).place = none)
    (unwritten : (x.progress i).written = false)
    (offsets : y.world.members.rowAppendOffsets = Function.update x.world.members.rowAppendOffsets r.shardId
      (x.world.members.rowAppendOffsets r.shardId + r.block.length))
    (shards : y.shards = x.shards) (added : y.added = x.added ++ [r]) (entry : y.entry = x.entry)
    (progress : y.progress = Function.update x.progress i { x.progress i with place := some x.added.length }) : R.Blocks y := by
  have mine : y.progress i = { x.progress i with place := some x.added.length } := by rw [progress, Function.update_self]
  have others : ∀ l, l ≠ i → y.progress l = x.progress l := fun l other => by rw [progress, Function.update_of_ne other]
  have unpublished : (x.progress i).published = false := by
    cases published : (x.progress i).published with
    | false => rfl
    | true => cases unwritten.symm.trans (blocks.published i published).1
  have whole : R.log ++ (x.added ++ [r]) = (R.log ++ x.added) ++ [r] := (List.append_assoc _ _ _).symm
  have old : ∀ {t : Nat} {r' : RowRecord}, x.added[t]? = some r' → (x.added ++ [r])[t]? = some r' := fun at_t => by
    rw [List.getElem?_append_left (List.getElem?_eq_some_iff.mp at_t).1, at_t]
  have length : ∀ s < R.count, (shardBytes (R.log ++ y.added) s).length =
      Function.update x.world.members.rowAppendOffsets r.shardId
        (x.world.members.rowAppendOffsets r.shardId + r.block.length) s := by
    intro s inside
    rw [added, whole]
    by_cases here : s = r.shardId
    · subst here
      rw [shardBytes_append_self, List.length_append, Function.update_self, blocks.offsets _ inside]
    · rw [shardBytes_append_ne here, Function.update_of_ne here, blocks.offsets s inside]
  refine
    { offsets := fun s inside => ?_, small := fun s inside => ?_, base := ?_, short := fun s inside => ?_, owned := fun t within => ?_
      placed := fun l t at_l => ?_, located := fun l t r' at_l written at_t => ?_, published := fun l published => ?_
      entries := fun k e at_k => ?_ }
  · rw [offsets, length s inside]
  · rw [length s inside]
    by_cases here : s = r.shardId
    · rw [here, Function.update_self]
      exact fits
    · rw [Function.update_of_ne here, blocks.offsets s inside]
      exact blocks.small s inside
  · rw [shards]
    exact blocks.base
  · rw [shards, added, whole]
    exact (blocks.short s inside).trans (shardBytes_length_le _ _ s)
  · rw [added, List.length_append, List.length_singleton] at within
    by_cases last : t = x.added.length
    · exact ⟨i, by rw [mine, last]⟩
    · obtain ⟨l, at_l⟩ := blocks.owned t (by omega)
      have other : l ≠ i := by
        rintro rfl
        cases before.symm.trans at_l
      exact ⟨l, by rw [others l other, at_l]⟩
  · by_cases same : l = i
    · subst same
      rw [mine] at at_l
      cases Option.some.inj at_l
      exact ⟨writer, r, by rw [added, List.getElem?_concat_length], key, content, complete, shard⟩
    · rw [others l same] at at_l
      obtain ⟨owner, r', at_t, rest⟩ := blocks.placed l t at_l
      exact ⟨owner, r', by rw [added]; exact old at_t, rest⟩
  · have other : l ≠ i := by
      rintro rfl
      rw [mine] at written
      cases unwritten.symm.trans written
    rw [others l other] at at_l written
    obtain ⟨_, r₀, at_t₀, _⟩ := blocks.placed l t at_l
    rw [added, old at_t₀] at at_t
    cases Option.some.inj at_t
    rw [shards, added, refAt_append (List.getElem?_eq_some_iff.mp at_t₀).1.le]
    exact blocks.located l t r' at_l written at_t₀
  · have other : l ≠ i := by
      rintro rfl
      rw [mine] at published
      cases unpublished.symm.trans published
    rw [others l other] at published ⊢
    obtain ⟨written, t, r', at_l, at_t, pointed⟩ := blocks.published l published
    refine ⟨written, t, r', at_l, by rw [added]; exact old at_t, ?_⟩
    rw [entry, added, refAt_append (List.getElem?_eq_some_iff.mp at_t).1.le]
    exact pointed
  · rw [entry] at at_k
    rcases blocks.entries k e at_k with ⟨l, owner, row, published⟩ | based
    · refine Or.inl ⟨l, owner, row, ?_⟩
      have other : l ≠ i := by
        rintro rfl
        cases unpublished.symm.trans published
      rwa [others l other]
    · exact Or.inr based

/-- A block is written to its place, and every other block stays. -/
theorem Blocks.write [DecidableEq ι] {t : Nat} {r : RowRecord} (blocks : R.Blocks x) (at_i : (x.progress i).place = some t)
    (at_t : x.added[t]? = some r) (offsets : y.world.members.rowAppendOffsets = x.world.members.rowAppendOffsets)
    (shards : y.shards = Function.update x.shards r.shardId
      (patch (x.shards r.shardId) (R.refAt x.added t r).blockOffset r.block))
    (added : y.added = x.added) (entry : y.entry = x.entry)
    (progress : y.progress = Function.update x.progress i { x.progress i with written := true }) : R.Blocks y := by
  have mine : y.progress i = { x.progress i with written := true } := by rw [progress, Function.update_self]
  have others : ∀ l, l ≠ i → y.progress l = x.progress l := fun l other => by rw [progress, Function.update_of_ne other]
  have place : ∀ l, (y.progress l).place = (x.progress l).place := by
    intro l
    by_cases same : l = i
    · rw [same, mine]
    · rw [others l same]
  have published : ∀ l, (y.progress l).published = (x.progress l).published := by
    intro l
    by_cases same : l = i
    · rw [same, mine]
    · rw [others l same]
  obtain ⟨writer, _, at_t₀, key, _, _, shard⟩ := blocks.placed i t at_i
  cases Option.some.inj (at_t.symm.trans at_t₀)
  have behind : (shardBytes R.log r.shardId).length ≤ (R.refAt x.added t r).blockOffset := shardBytes_length_le _ _ _
  have within := R.refAt_inside at_t
  refine
    { offsets := by rw [offsets, added]; exact blocks.offsets, small := by rw [added]; exact blocks.small
      base := fun s inside => ?_, short := fun s inside => ?_, owned := by simp only [added, place]; exact blocks.owned
      placed := by simp only [added, place]; exact blocks.placed, located := fun l t' r' at_l written at_t' => ?_
      published := fun l given => ?_, entries := by simp only [entry, published]; exact blocks.entries }
  · rw [shards]
    by_cases here : s = r.shardId
    · subst here
      rw [Function.update_self]
      exact (blocks.base _ inside).patch _ (by omega)
    · rw [Function.update_of_ne here]
      exact blocks.base s inside
  · rw [shards, added]
    by_cases here : s = r.shardId
    · subst here
      have short := blocks.short _ inside
      rw [Function.update_self, patch_length]
      omega
    · rw [Function.update_of_ne here]
      exact blocks.short s inside
  · rw [place] at at_l
    rw [added] at at_t' ⊢
    by_cases same : l = i
    · subst same
      cases Option.some.inj (at_l.symm.trans at_i)
      cases Option.some.inj (at_t'.symm.trans at_t)
      rw [shards, Function.update_self]
      exact blockIn_patch _ _ _
    · rw [others l same] at written
      have kept := blocks.located l t' r' at_l written at_t'
      obtain ⟨owner, _, at_t₁, key', _⟩ := blocks.placed l t' at_l
      cases Option.some.inj (at_t'.symm.trans at_t₁)
      rw [shards]
      by_cases here : r'.shardId = r.shardId
      · rw [here, Function.update_self]
        rw [here] at kept
        rcases Nat.lt_trichotomy t' t with before | equal | after
        · have ends := R.refAt_before at_t' before
          rw [here] at ends
          exact kept.patch _ ends
        · subst equal
          cases Option.some.inj (at_t.symm.trans at_t')
          exact absurd (R.distinct l owner i writer (key'.symm.trans key)) same
        · have ends := R.refAt_before at_t after
          rw [← here] at ends
          exact BlockIn.patch_after kept ends
      · rw [Function.update_of_ne here]
        exact kept
  · rw [published] at given
    obtain ⟨written, t', r', at_l, at_t', pointed⟩ := blocks.published l given
    refine ⟨?_, t', r', by rw [place, at_l], by rw [added, at_t'], by rw [entry, added, pointed]⟩
    by_cases same : l = i
    · rw [same, mine]
    · rw [others l same, written]

end Places

end Round

end LumoDB
