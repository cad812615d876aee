import LumoDB.ObjectResize
import Mathlib.Tactic.Linarith
import Mathlib.Tactic.Positivity

namespace LumoDB
open ByteCodec Effects LinearProbing

/-- The load factors `OpenInternal` accepts. -/
def LoadFactorOk (maxLoadFactor : ℚ) : Prop := 0 < maxLoadFactor ∧ maxLoadFactor < 95 / 100

section Capacity
variable {H : HashFunctions} {b : Bytes} {n : Nat} {slot : Nat → Option ObjectKey}
  {off : ObjectKey → Nat} {w : World}

theorem toDouble_of_le {v : Nat} (small : v ≤ 2 ^ 53) : toDouble v = v := Doubles.rounded_of_le (by decide) small

theorem toDouble_mono {u v : Nat} (le : u ≤ v) : toDouble u ≤ toDouble v := Doubles.rounded_mono (by decide) le

theorem growBucketCount_zero {maxLoadFactor : ℚ} {items : Nat} (positive : 0 < toDouble items) (rounds : Nat) :
    growBucketCount maxLoadFactor items rounds 0 = none := by
  induction rounds with
  | zero => rfl
  | succ rounds ih =>
    have exceeded : maxLoadFactor * ((0 : Nat) : ℚ) < toDouble items := by
      rw [Nat.cast_zero, mul_zero]
      exact_mod_cast positive
    rw [growBucketCount, if_pos exceeded]
    exact ih

theorem growBucketCount_spec {maxLoadFactor : ℚ} {items rounds e grown : Nat} (small : e < 64)
    (nonneg : 0 ≤ maxLoadFactor)
    (run : growBucketCount maxLoadFactor items rounds (2 ^ e) = some grown) :
    (toDouble items : ℚ) ≤ maxLoadFactor * grown ∧ ∃ e', e ≤ e' ∧ grown = 2 ^ e' := by
  induction rounds generalizing e with
  | zero => cases run
  | succ rounds ih =>
    rw [growBucketCount] at run
    split at run
    · rename_i exceeded
      rw [← pow_succ] at run
      by_cases last : e + 1 < 64
      · rw [u64_of_lt (Nat.pow_lt_pow_right (by decide) last)] at run
        obtain ⟨enough, e', lower, value⟩ := ih last run
        exact ⟨enough, e', by omega, value⟩
      · have wrapped : u64 (2 ^ (e + 1)) = 0 := by
          rw [show e + 1 = 64 by omega]
          exact Nat.mod_self _
        have positive : 0 < toDouble items := by
          have product : (0 : ℚ) ≤ maxLoadFactor * ((2 ^ e : Nat) : ℚ) :=
            mul_nonneg nonneg (Nat.cast_nonneg _)
          exact_mod_cast product.trans_lt exceeded
        rw [wrapped, growBucketCount_zero positive] at run
        cases run
    · rename_i enough
      cases Option.some.inj run
      exact ⟨not_lt.mp enough, e, le_rfl, rfl⟩

/-- The bucket count is doubled until the count of the items, as a `double`,
fits, and no further. -/
theorem growBucketCount_enough {maxLoadFactor : ℚ} {items rounds e d : Nat} (nonneg : 0 ≤ maxLoadFactor) (large : d < 64)
    (reached : d < e + rounds) (rounded : 0 < rounds) (enough : (toDouble items : ℚ) ≤ maxLoadFactor * (2 ^ d : Nat)) :
    ∃ e', e' ≤ max e d ∧ growBucketCount maxLoadFactor items rounds (2 ^ e) = some (2 ^ e') := by
  induction rounds generalizing e with
  | zero => cases rounded
  | succ rounds ih =>
    rw [growBucketCount]
    by_cases exceeded : maxLoadFactor * ((2 ^ e : Nat) : ℚ) < toDouble items
    · have below : e < d := by
        by_contra above
        have power : (2 ^ d : Nat) ≤ 2 ^ e := Nat.pow_le_pow_right (by decide) (Nat.not_lt.mp above)
        have more : maxLoadFactor * ((2 ^ d : Nat) : ℚ) ≤ maxLoadFactor * (2 ^ e : Nat) :=
          mul_le_mul_of_nonneg_left (by exact_mod_cast power) nonneg
        linarith
      rw [if_pos exceeded, ← pow_succ, u64_of_lt (Nat.pow_lt_pow_right (by decide) (by omega))]
      obtain ⟨e', bound, grown⟩ := ih (e := e + 1) (by omega) (by omega)
      exact ⟨e', by omega, grown⟩
    · exact ⟨e, le_max_left _ _, if_neg exceeded⟩

/-- After `EnsureCapacityForInsert` the counted items fit the load factor, and
the table holds the same keys at the same record offsets. -/
theorem ensureCapacityForInsert_grown {insertCount grown : Nat} (t : IndexTable H b n slot off)
    (nonneg : 0 ≤ w.members.options.maxLoadFactor)
    (grow : growBucketCount w.members.options.maxLoadFactor (u64 (filled n slot + insertCount)) 66 n = some grown)
    (fits : grown ≠ n → ∃ n', roundUpPowerOfTwo grown = some n' ∧ 64 + 16 * n' < 2 ^ 63) :
    ∃ b' n' slot', Runs (ensureCapacityForInsert insertCount) (w.withMapped .index b) ()
        (w.withMapped .index b') ∧ IndexTable H b' n' slot' off ∧
      (∀ k, Stored n' slot' k ↔ Stored n slot k) ∧ filled n' slot' = filled n slot ∧
      (toDouble (u64 (filled n slot + insertCount)) : ℚ) ≤ w.members.options.maxLoadFactor * n' := by
  obtain ⟨e, power⟩ := t.power
  have exponent : e < 64 := by
    by_contra large
    have : 2 ^ 64 ≤ 2 ^ e := Nat.pow_le_pow_right (by decide) (by omega)
    have := t.count_lt
    omega
  have members : (w.withMapped .index b).members.options = w.members.options := rfl
  have doubled : growBucketCount w.members.options.maxLoadFactor (u64 (filled n slot + insertCount)) 66
      (2 ^ e) = some grown := by rw [← power]; exact grow
  obtain ⟨enough, e', later, value⟩ := growBucketCount_spec exponent nonneg doubled
  unfold Runs ensureCapacityForInsert
  rw [Prog.bind_eq, (getMembers_runs _).bind, Prog.bind_eq, (loadBucketCount_runs w t.toIndexFile).bind,
    Prog.bind_eq, (loadItemCount_runs w t.toIndexFile).bind, Prog.bind_eq, members, grow]
  simp only [orOverflow, Prog.ret_bind]
  by_cases same : grown = n
  · subst same
    exact ⟨b, grown, slot, by rw [if_pos rfl]; rfl, t, fun k => Iff.rfl, rfl, enough⟩
  · obtain ⟨n', rounded, small⟩ := fits same
    have larger : grown ≤ n' := (roundUpPowerOfTwo_spec rounded).1
    have grew : n ≤ grown := by
      rw [power, value]
      exact Nat.pow_le_pow_right (by decide) later
    have short := t.filled_lt
    obtain ⟨b', slot', run', t', stored, count, _⟩ := resizeIndex_runs (w := w) t.entries rounded small (by omega)
    rw [if_neg same]
    refine ⟨b', n', slot', run', t', stored, count, enough.trans ?_⟩
    exact mul_le_mul_of_nonneg_left (by exact_mod_cast larger) nonneg

theorem ensureCapacityForInsert_runs {insertCount : Nat} (t : IndexTable H b n slot off)
    (load : LoadFactorOk w.members.options.maxLoadFactor)
    (bounded : Bounded (ensureCapacityForInsert insertCount) (w.withMapped .index b)) :
    ∃ b' n' slot', Runs (ensureCapacityForInsert insertCount) (w.withMapped .index b) ()
        (w.withMapped .index b') ∧ IndexTable H b' n' slot' off ∧
      (∀ k, Stored n' slot' k ↔ Stored n slot k) ∧ filled n' slot' = filled n slot ∧
      (toDouble (u64 (filled n slot + insertCount)) : ℚ) ≤ w.members.options.maxLoadFactor * n' := by
  have members : (w.withMapped .index b).members.options = w.members.options := rfl
  unfold LumoDB.ensureCapacityForInsert at bounded
  replace bounded := ((bounded.rest (getMembers_runs _)).rest (loadBucketCount_runs w t.toIndexFile)).rest
    (loadItemCount_runs w t.toIndexFile)
  rw [members] at bounded
  cases grow : growBucketCount w.members.options.maxLoadFactor (u64 (filled n slot + insertCount)) 66 n with
  | none =>
    rw [grow] at bounded
    exact bounded.elim
  | some grown =>
    refine ensureCapacityForInsert_grown t load.1.le grow fun other => ?_
    rw [grow] at bounded
    simp only [orOverflow, Prog.bind_eq, Prog.ret_bind] at bounded
    rw [if_neg other] at bounded
    exact Bounded.resizeIndex t.entries bounded

/-- A table of `2 ^ d` buckets has a file size and takes the items. -/
structure Growable (w : World) (items d : Nat) : Prop where
  small : 64 + 16 * 2 ^ max 4 d < 2 ^ 63
  enough : (toDouble items : ℚ) ≤ w.members.options.maxLoadFactor * (2 ^ d : Nat)

theorem ensureCapacityForInsert_growable {insertCount d : Nat} (t : IndexTable H b n slot off)
    (nonneg : 0 ≤ w.members.options.maxLoadFactor) (room : Growable w (filled n slot + insertCount) d)
    (few : filled n slot + insertCount < 2 ^ 64) :
    ∃ b' n' slot', Runs (ensureCapacityForInsert insertCount) (w.withMapped .index b) ()
        (w.withMapped .index b') ∧ IndexTable H b' n' slot' off ∧
      (∀ k, Stored n' slot' k ↔ Stored n slot k) ∧ filled n' slot' = filled n slot ∧
      (toDouble (filled n slot + insertCount) : ℚ) ≤ w.members.options.maxLoadFactor * n' := by
  obtain ⟨e, power⟩ := t.power
  have count := t.count_lt
  have small := room.small
  have exponent : max 4 d < 59 := by
    by_contra large
    have : 2 ^ 59 ≤ 2 ^ max 4 d := Nat.pow_le_pow_right (by decide) (Nat.not_lt.mp large)
    omega
  have power_lt : e < 59 := (Nat.pow_lt_pow_iff_right (a := 2) (by decide)).mp (by rw [← power]; exact count)
  obtain ⟨e', bound, grow⟩ := @growBucketCount_enough _ _ 66 e d nonneg (by omega) (by omega) (by decide) room.enough
  rw [← power] at grow
  have whole : u64 (filled n slot + insertCount) = filled n slot + insertCount := u64_of_lt few
  have grown := @ensureCapacityForInsert_grown H b n slot off w insertCount (2 ^ e') t nonneg (by rw [whole]; exact grow)
    fun other => ?_
  · rwa [whole] at grown
  · have smaller : 2 ^ max 4 e' ≤ 2 ^ max 4 d ∨ 2 ^ max 4 e' ≤ 2 ^ 4 ∨ 2 ^ max 4 e' ≤ n := by
      by_cases low : e' ≤ d
      · exact Or.inl (Nat.pow_le_pow_right (by decide) (by omega))
      · by_cases least : e' ≤ 4
        · exact Or.inr (Or.inl (Nat.pow_le_pow_right (by decide) (by omega)))
        · rw [power]
          exact Or.inr (Or.inr (Nat.pow_le_pow_right (by decide) (by omega)))
    have file := t.small
    exact ⟨_, roundUpPowerOfTwo_max (by omega), by omega⟩

/-- A count within the load factor leaves a bucket empty. -/
theorem lt_of_load {maxLoadFactor : ℚ} {items n : Nat} (load : LoadFactorOk maxLoadFactor) (positive : 0 < n)
    (within : (items : ℚ) ≤ maxLoadFactor * n) : items < n := by
  have count : (0 : ℚ) < n := by exact_mod_cast positive
  have strict : maxLoadFactor * n < 1 * n := mul_lt_mul_of_pos_right (by linarith [load.2]) count
  have below : (items : ℚ) < n := by linarith
  exact_mod_cast below

/-- So does a count whose `double` is within the load factor. -/
theorem lt_of_rounded_load {maxLoadFactor : ℚ} {items n : Nat} (load : LoadFactorOk maxLoadFactor) (positive : 0 < n)
    (within : (toDouble items : ℚ) ≤ maxLoadFactor * n) : items < n := by
  have count : (0 : ℚ) < n := by exact_mod_cast positive
  have bound := (Doubles.rounded_bounds (show 0 < 53 by decide) items).1
  have near : (items : ℚ) * 2 ^ 53 ≤ toDouble items * 2 ^ 53 + items := by exact_mod_cast bound
  have share : maxLoadFactor * n < 95 / 100 * n := mul_lt_mul_of_pos_right load.2 count
  have below : (items : ℚ) < n := by linarith
  exact_mod_cast below

end Capacity

section Log

/-- The records of a value file in their order. -/
abbrev ObjectLog := List (ObjectKey × Bytes)

def encodeLog (log : ObjectLog) : Bytes := log.flatMap fun r => encodeRecord r.1 r.2

/-- The map after every record was written in turn: the last one wins. -/
def putAll (m : ObjectKey → Option Bytes) (log : ObjectLog) : ObjectKey → Option Bytes :=
  log.foldl (fun m r => Function.update m r.1 (some r.2)) m

def recordsOf (column : Bytes) (entries : List StructEntry) : ObjectLog :=
  entries.map fun entry => ((column, entry.key), entry.flatBufferBytes)

theorem encodeLog_append (log more : ObjectLog) : encodeLog (log ++ more) = encodeLog log ++ encodeLog more := by
  simp [encodeLog]

theorem putAll_append (m : ObjectKey → Option Bytes) (log more : ObjectLog) :
    putAll m (log ++ more) = putAll (putAll m log) more := by
  simp [putAll]

theorem putAll_ne_none (m : ObjectKey → Option Bytes) (log : ObjectLog) (k : ObjectKey) :
    putAll m log k ≠ none ↔ k ∈ log.map Prod.fst ∨ m k ≠ none := by
  induction log generalizing m with
  | nil => simp [putAll]
  | cons r log ih =>
    have step : putAll m (r :: log) = putAll (Function.update m r.1 (some r.2)) log := rfl
    rw [step, ih, List.map_cons, List.mem_cons]
    by_cases same : k = r.1
    · simp [same]
    · simp [same]

theorem encodeLog_length_ge (log : ObjectLog) : 24 * log.length ≤ (encodeLog log).length := by
  induction log with
  | nil => simp [encodeLog]
  | cons r log ih =>
    have size := encodeRecord_length r.1 r.2
    have split : encodeLog (r :: log) = encodeRecord r.1 r.2 ++ encodeLog log := rfl
    rw [split, List.length_append, List.length_cons, size]
    omega

theorem recordAt_split {pre post value : Bytes} {k : ObjectKey} (fits : k.Fits) :
    RecordAt (pre ++ (encodeRecord k value ++ post)) pre.length k value where
  fits := fits
  inside := by
    rw [List.length_append, List.length_append, encodeRecord_length]
    omega
  bytes := by
    rw [slice_append_right le_rfl, Nat.sub_self, ← encodeRecord_length, slice_append_left (by omega),
      slice_self]

end Log

section Batch
variable {H : HashFunctions}

theorem pendingRecords_bytes (column : Bytes) (entries : List StructEntry) (offset : Nat) :
    ((pendingRecords H column entries offset).1.flatMap (PendingRecord.slices column)).flatten =
      encodeLog (recordsOf column entries) := by
  induction entries generalizing offset with
  | nil => rfl
  | cons entry later ih =>
    have split : encodeLog (recordsOf column (entry :: later)) =
        encodeRecord (column, entry.key) entry.flatBufferBytes ++ encodeLog (recordsOf column later) := rfl
    rw [split, pendingRecords]
    simp only [List.flatMap_cons, List.flatten_append, ih]
    simp [PendingRecord.slices, encodeRecord]

theorem pendingRecords_end (column : Bytes) (entries : List StructEntry) {offset : Nat}
    (small : offset + (encodeLog (recordsOf column entries)).length < 2 ^ 64) :
    (pendingRecords H column entries offset).2 =
      offset + (encodeLog (recordsOf column entries)).length := by
  induction entries generalizing offset with
  | nil => rfl
  | cons entry later ih =>
    have split : encodeLog (recordsOf column (entry :: later)) =
        encodeRecord (column, entry.key) entry.flatBufferBytes ++ encodeLog (recordsOf column later) := rfl
    have size := encodeRecord_length (column, entry.key) entry.flatBufferBytes
    simp only at size
    rw [split, List.length_append, size] at small ⊢
    rw [pendingRecords, u64_of_lt (by omega), u64_of_lt (by omega)]
    simp only
    rw [ih (by omega)]
    omega

variable {b v tail : Bytes} {n : Nat} {slot : Nat → Option ObjectKey} {off : ObjectKey → Nat}
  {m : ObjectKey → Option Bytes} {w : World}

/-- Pointing the bucket of one record: an upsert, or for a new key the
unique fast path. -/
theorem indexRecord_runs (keysAreUnique : Bool) (k : ObjectKey) {value : Bytes} (offset : Nat)
    (r : PendingRecord) (key : r.key = k.2) (hash : r.keyHash = H.hashString k.2)
    (at_offset : r.recordOffset = offset) (t : IndexTable H b n slot off) (reads : ReadsValues w (v ++ tail))
    (rep : Represents v n slot off m) (rec : RecordAt v offset k value)
    (fresh : keysAreUnique = true → m k = none) (room : filled n slot + 1 < n) :
    ∃ b' slot' off', Runs (indexRecord H k.1 (H.hashString k.1) keysAreUnique r) (w.withMapped .index b) ()
        (w.withMapped .index b') ∧ IndexTable H b' n slot' off' ∧
      Represents v n slot' off' (Function.update m k (some value)) ∧
      filled n slot' ≤ filled n slot + 1 := by
  have bound : offset < 2 ^ 64 := by
    have inside := rec.inside
    have small := reads.small
    rw [List.length_append] at small
    omega
  unfold Runs indexRecord
  rw [hash, at_offset, key]
  cases keysAreUnique with
  | true =>
    obtain ⟨b', i, placed, t', looked, _⟩ := @placeCounted_runs _ _ _ _ _ w
      "index table is full during unique insert" k offset t ((rep k).1 (fresh rfl)) room bound
    exact ⟨b', _, _, placed, t', rep.update looked.inside looked.free rec, looked.filled_le.2⟩
  | false =>
    obtain ⟨lookup, found, looked⟩ := findBucket_runs t (rep.append tail).located reads k
    refine ⟨_, _, _, ?_, t.point looked room bound, rep.update looked.inside looked.free rec,
      looked.filled_le.2⟩
    simp only [Bool.false_eq_true, if_false, Prog.bind_eq]
    rw [found.bind]
    exact storeLooked_runs t looked _

/-- The records of `entries` stand in `v` after `done`, and the index, which
represents `m`, has room for them. -/
structure BatchWritten (H : HashFunctions) (w : World) (v tail : Bytes) (column : Bytes) (entries : List StructEntry)
    (done b : Bytes) (n : Nat) (slot : Nat → Option ObjectKey) (off : ObjectKey → Nat)
    (m : ObjectKey → Option Bytes) : Prop where
  content : ∃ post, v = done ++ (encodeLog (recordsOf column entries) ++ post)
  reads : ReadsValues w (v ++ tail)
  fits : ∀ entry ∈ entries, ObjectKey.Fits (column, entry.key)
  table : IndexTable H b n slot off
  represents : Represents v n slot off m
  room : filled n slot + entries.length < n

section Written
variable {done column : Bytes} {entry : StructEntry} {later : List StructEntry}

theorem BatchWritten.record (batch : BatchWritten H w v tail column (entry :: later) done b n slot off m) :
    RecordAt v done.length (column, entry.key) entry.flatBufferBytes := by
  obtain ⟨post, content⟩ := batch.content
  have split : encodeLog (recordsOf column (entry :: later)) =
      encodeRecord (column, entry.key) entry.flatBufferBytes ++ encodeLog (recordsOf column later) := rfl
  rw [content, split, List.append_assoc]
  exact recordAt_split (batch.fits entry List.mem_cons_self)

/-- The first record of the batch is the one at the end of `done`. -/
theorem BatchWritten.pending (batch : BatchWritten H w v tail column (entry :: later) done b n slot off m) :
    ∃ r, (pendingRecords H column (entry :: later) done.length).1 =
        r :: (pendingRecords H column later (done ++ encodeRecord (column, entry.key) entry.flatBufferBytes).length).1 ∧
      r.key = entry.key ∧ r.keyHash = H.hashString entry.key ∧ r.recordOffset = done.length := by
  have inside := batch.record.inside
  have small := batch.reads.small
  have size := encodeRecord_length (column, entry.key) entry.flatBufferBytes
  rw [List.length_append] at small
  simp only at inside size
  rw [pendingRecords, u64_of_lt (by omega), u64_of_lt (by omega), List.length_append, size]
  exact ⟨_, rfl, rfl, rfl, rfl⟩

/-- Once the first record is indexed the others are a batch of their own. -/
theorem BatchWritten.next {b' : Bytes} {slot' : Nat → Option ObjectKey} {off' : ObjectKey → Nat}
    (batch : BatchWritten H w v tail column (entry :: later) done b n slot off m) (table : IndexTable H b' n slot' off')
    (represents : Represents v n slot' off'
      (Function.update m (column, entry.key) (some entry.flatBufferBytes)))
    (count : filled n slot' ≤ filled n slot + 1) :
    BatchWritten H w v tail column later (done ++ encodeRecord (column, entry.key) entry.flatBufferBytes) b' n slot' off'
      (Function.update m (column, entry.key) (some entry.flatBufferBytes)) := by
  obtain ⟨post, content⟩ := batch.content
  have room := batch.room
  rw [List.length_cons] at room
  refine ⟨⟨post, ?_⟩, batch.reads, fun e member => batch.fits e (List.mem_cons_of_mem entry member), table, represents,
    by omega⟩
  have split : encodeLog (recordsOf column (entry :: later)) =
      encodeRecord (column, entry.key) entry.flatBufferBytes ++ encodeLog (recordsOf column later) := rfl
  rw [content, split, List.append_assoc, List.append_assoc]

end Written

/-- The keys of a batch are new and different from each other. -/
def NewKeys (m : ObjectKey → Option Bytes) (column : Bytes) (entries : List StructEntry) : Prop :=
  (entries.map StructEntry.key).Nodup ∧ ∀ entry ∈ entries, m (column, entry.key) = none

theorem NewKeys.next {column value : Bytes} {entry : StructEntry} {later : List StructEntry}
    (fresh : NewKeys m column (entry :: later)) :
    NewKeys (Function.update m (column, entry.key) (some value)) column later := by
  obtain ⟨nodup, absent⟩ := fresh
  rw [List.map_cons, List.nodup_cons] at nodup
  refine ⟨nodup.2, fun e member => ?_⟩
  have other : (column, e.key) ≠ (column, entry.key) := fun same =>
    nodup.1 (List.mem_map.mpr ⟨e, member, (Prod.ext_iff.mp same).2⟩)
  rw [Function.update_of_ne other]
  exact absent e (List.mem_cons_of_mem entry member)

theorem indexRecords_runs (keysAreUnique : Bool) {column done : Bytes} {entries : List StructEntry}
    (batch : BatchWritten H w v tail column entries done b n slot off m)
    (fresh : keysAreUnique = true → NewKeys m column entries) :
    ∃ b' slot' off', Runs
        (indexRecords H column (H.hashString column) keysAreUnique
          (pendingRecords H column entries done.length).1) (w.withMapped .index b) ()
        (w.withMapped .index b') ∧ IndexTable H b' n slot' off' ∧
      Represents v n slot' off' (putAll m (recordsOf column entries)) ∧
      filled n slot' ≤ filled n slot + entries.length := by
  induction entries generalizing b slot off m done with
  | nil => exact ⟨b, slot, off, rfl, batch.table, batch.represents, le_rfl⟩
  | cons entry later ih =>
    have room := batch.room
    rw [List.length_cons] at room
    obtain ⟨r, pending, key, hash, at_offset⟩ := batch.pending
    obtain ⟨b₁, slot₁, off₁, run₁, t₁, rep₁, count₁⟩ := indexRecord_runs keysAreUnique (column, entry.key) done.length r
      key hash at_offset batch.table batch.reads batch.represents batch.record
      (fun unique => (fresh unique).2 entry List.mem_cons_self) (by omega)
    obtain ⟨b₂, slot₂, off₂, run₂, t₂, rep₂, count₂⟩ := ih (batch.next t₁ rep₁ count₁) fun unique => (fresh unique).next
    refine ⟨b₂, slot₂, off₂, ?_, t₂, rep₂, by rw [List.length_cons]; omega⟩
    unfold Runs
    rw [pending, indexRecords, Prog.bind_eq, run₁.bind]
    exact run₂

end Batch

end LumoDB
