import LumoDB.IndexFile

namespace LumoDB
open ByteCodec Effects LinearProbing

/-- A column and a key: what the object store is indexed by. -/
abbrev ObjectKey := Bytes × Bytes

section Records

def encodeRecord (k : ObjectKey) (value : Bytes) : Bytes :=
  { columnSize := k.1.length, keySize := k.2.length, valueSize := value.length : ValueRecordHeader }.encode ++
    (k.1 ++ (k.2 ++ value))

def ObjectKey.Fits (k : ObjectKey) : Prop := k.1.length < 2 ^ 32 ∧ k.2.length < 2 ^ 32

/-- The value file `v` holds the complete record of `k` and `value` at
`offset`. -/
structure RecordAt (v : Bytes) (offset : Nat) (k : ObjectKey) (value : Bytes) : Prop where
  fits : k.Fits
  inside : offset + (24 + k.1.length + k.2.length + value.length) ≤ v.length
  bytes : slice v offset (24 + k.1.length + k.2.length + value.length) = encodeRecord k value

theorem encodeRecord_length (k : ObjectKey) (value : Bytes) :
    (encodeRecord k value).length = 24 + k.1.length + k.2.length + value.length := by
  simp [encodeRecord]
  omega

variable {v : Bytes} {offset : Nat} {k : ObjectKey} {value : Bytes}

theorem RecordAt.append (rec : RecordAt v offset k value) (more : Bytes) :
    RecordAt (v ++ more) offset k value where
  fits := rec.fits
  inside := by
    have inside := rec.inside
    rw [List.length_append]
    omega
  bytes := by rw [slice_append_left rec.inside, rec.bytes]

theorem RecordAt.part (rec : RecordAt v offset k value) (i size : Nat)
    (within : i + size ≤ 24 + k.1.length + k.2.length + value.length) :
    slice v (offset + i) size = slice (encodeRecord k value) i size := by
  rw [← rec.bytes, slice_slice within]

theorem RecordAt.header (rec : RecordAt v offset k value) (small : value.length < 2 ^ 64) :
    ValueRecordHeader.decode (slice v offset 24) =
      { columnSize := k.1.length, keySize := k.2.length, valueSize := value.length } := by
  have front := rec.part 0 24 (by omega)
  rw [Nat.add_zero] at front
  have encoded : slice (encodeRecord k value) 0 24 =
      { columnSize := k.1.length, keySize := k.2.length, valueSize := value.length :
        ValueRecordHeader }.encode := by
    simp only [slice, List.drop_zero, encodeRecord]
    exact List.take_left' (ValueRecordHeader.encode_length _)
  rw [front, encoded, ValueRecordHeader.decode_encode]
  have column : k.1.length % 256 ^ 4 = k.1.length := Nat.mod_eq_of_lt (by simpa using rec.fits.1)
  have key : k.2.length % 256 ^ 4 = k.2.length := Nat.mod_eq_of_lt (by simpa using rec.fits.2)
  have size : value.length % 256 ^ 8 = value.length := Nat.mod_eq_of_lt (by simpa using small)
  simp only [column, key, size]
  rfl

theorem RecordAt.column (rec : RecordAt v offset k value) :
    slice v (offset + 24) k.1.length = k.1 := by
  rw [rec.part _ _ (by omega), encodeRecord, slice_append_right (by simp), ValueRecordHeader.encode_length,
    Nat.sub_self, slice_append_left (by omega), slice_self]

theorem RecordAt.key (rec : RecordAt v offset k value) :
    slice v (offset + 24 + k.1.length) k.2.length = k.2 := by
  rw [Nat.add_assoc, rec.part _ _ (by omega), encodeRecord, slice_append_right (by simp),
    ValueRecordHeader.encode_length, slice_append_right (by omega),
    show 24 + k.1.length - 24 - k.1.length = 0 by omega, slice_append_left (by omega), slice_self]

theorem RecordAt.valueBytes (rec : RecordAt v offset k value) :
    slice v (offset + 24 + k.1.length + k.2.length) value.length = value := by
  rw [show offset + 24 + k.1.length + k.2.length = offset + (24 + k.1.length + k.2.length) by omega,
    rec.part _ _ (by omega), encodeRecord, slice_append_right (by simp; omega),
    ValueRecordHeader.encode_length, slice_append_right (by omega), slice_append_right (by omega),
    show 24 + k.1.length + k.2.length - 24 - k.1.length - k.2.length = 0 by omega, slice_self]

/-- The value file `v` holds a valid record header at `offset`, followed by
the column and the key of `k`. Of the value only its size is said. -/
structure RecordHead (v : Bytes) (offset : Nat) (k : ObjectKey) (valueSize : Nat) : Prop where
  inside : offset + (24 + k.1.length + k.2.length) ≤ v.length
  header : ValueRecordHeader.decode (slice v offset 24) =
    { columnSize := k.1.length, keySize := k.2.length, valueSize := valueSize }
  column : slice v (offset + 24) k.1.length = k.1
  key : slice v (offset + 24 + k.1.length) k.2.length = k.2

theorem RecordAt.head (rec : RecordAt v offset k value) (small : v.length < 2 ^ 64) :
    RecordHead v offset k value.length where
  inside := by have := rec.inside; omega
  header := rec.header (by have := rec.inside; omega)
  column := rec.column
  key := rec.key

end Records

section Reads

/-- The value file holds `v`, read through the descriptor or through a
mapping of the whole file. -/
structure ReadsValues (w : World) (v : Bytes) : Prop where
  content : w.disk .values = some v
  small : v.length < 2 ^ 63
  map : w.members.maps .values = none ∨ ∃ writable, w.members.maps .values = some ⟨v.length, writable⟩

variable {w : World} {v : Bytes}

theorem ReadsValues.withIndex (reads : ReadsValues w v) (b : Bytes) :
    ReadsValues (w.withMapped .index b) v where
  content := by rw [World.withMapped_disk_ne w b (by decide), reads.content]
  small := reads.small
  map := by rw [World.withMapped_maps_ne w b (by decide)]; exact reads.map

theorem readValueAt_runs {offset size : Nat} (reads : ReadsValues w v)
    (inside : offset + size ≤ v.length) : Runs (readValueAt offset size) w (slice v offset size) w := by
  rw [readValueAt, Prog.bind_eq, Runs, (getMembers_runs w).bind]
  rcases reads.map with unmapped | ⟨writable, map⟩
  · rw [unmapped]
    exact readAllAt_runs reads.content inside reads.small
  · rw [map]
    simp only
    rw [if_neg (by omega)]
    by_cases zero : size = 0
    · simp only [zero, ne_eq, not_true, if_false, slice_zero]
      rfl
    · rw [if_pos zero]
      refine run_perform_of system ?_
      have mapped : w.mapped .values offset size = some v := by
        simp only [World.mapped, map, reads.content]
        rw [if_pos ⟨inside, inside⟩]
      simp only [system, mapped, Option.map_some]

theorem isValidRecordHeader_default (columnSize keySize valueSize : Nat) :
    isValidRecordHeader { columnSize := columnSize, keySize := keySize, valueSize := valueSize } := by
  simp [isValidRecordHeader]

section Heads
variable {offset valueSize : Nat} {k : ObjectKey}

theorem RecordHead.readRecordHeader (head : RecordHead v offset k valueSize) (reads : ReadsValues w v) :
    Runs (readRecordHeader offset) w { columnSize := k.1.length, keySize := k.2.length, valueSize := valueSize } w := by
  have inside := head.inside
  rw [LumoDB.readRecordHeader, Prog.bind_eq, Runs, (readValueAt_runs reads (by omega)).bind, Prog.pure_eq,
    run_ret, head.header]

theorem RecordHead.readRecordColumnKey (head : RecordHead v offset k valueSize) (reads : ReadsValues w v) :
    Runs (readRecordColumnKey offset { columnSize := k.1.length, keySize := k.2.length, valueSize := valueSize }) w k w := by
  have inside := head.inside
  have small := reads.small
  simp only [LumoDB.readRecordColumnKey, Prog.bind_eq, Prog.pure_eq]
  rw [u64_of_lt (by omega), u64_of_lt (by omega), Runs,
    (readValueAt_runs reads (by omega)).bind, (readValueAt_runs reads (by omega)).bind, run_ret,
    head.column, head.key]

/-- The comparison of a bucket's record with a queried pair is exact. -/
theorem RecordHead.recordMatches {hash : Nat} (head : RecordHead v offset k valueSize) (reads : ReadsValues w v)
    (column key : Bytes) : Runs (recordMatches ⟨hash, offset⟩ column key) w (decide (k = (column, key))) w := by
  rw [LumoDB.recordMatches, Prog.bind_eq, Runs, (head.readRecordHeader reads).bind,
    if_pos (isValidRecordHeader_default _ _ _)]
  simp only
  by_cases sizes : k.1.length ≠ column.length ∨ k.2.length ≠ key.length
  · have differ : k ≠ (column, key) := by
      rintro rfl
      simp at sizes
    rw [if_pos sizes, decide_eq_false differ]
    rfl
  · rw [if_neg sizes, Prog.bind_eq, (head.readRecordColumnKey reads).bind, Prog.pure_eq, run_ret]
    congr 1
    simp only [Prod.ext_iff]

end Heads

theorem readRecordHeader_runs {offset : Nat} {k : ObjectKey} {value : Bytes} (reads : ReadsValues w v)
    (rec : RecordAt v offset k value) :
    Runs (readRecordHeader offset) w
      { columnSize := k.1.length, keySize := k.2.length, valueSize := value.length } w :=
  (rec.head (reads.small.trans (by decide))).readRecordHeader reads

theorem readRecordColumnKey_runs {offset : Nat} {k : ObjectKey} {value : Bytes} (reads : ReadsValues w v)
    (rec : RecordAt v offset k value) :
    Runs (readRecordColumnKey offset
      { columnSize := k.1.length, keySize := k.2.length, valueSize := value.length }) w k w :=
  (rec.head (reads.small.trans (by decide))).readRecordColumnKey reads

end Reads

section Tables
variable (H : HashFunctions)

def objectHash (k : ObjectKey) : Nat := objectIndexHash H (H.hashString k.1) (H.hashString k.2)

theorem objectHash_ne_zero (k : ObjectKey) : objectHash H k ≠ 0 := objectIndexHash_ne_zero H _ _

theorem objectHash_lt (k : ObjectKey) : objectHash H k < 2 ^ 64 := objectIndexHash_lt H _ _

/-- The representation invariant of the object index. `slot` shows the key
of each bucket and `off` the record a bucket of that key points to. -/
structure IndexTable (b : Bytes) (n : Nat) (slot : Nat → Option ObjectKey) (off : ObjectKey → Nat) :
    Prop extends IndexFile b n (filled n slot) where
  table : Table n (objectHash H) slot
  empty : ∀ i < n, slot i = none → (bucketAt b i).hash = 0
  stored : ∀ i < n, ∀ k, slot i = some k → bucketAt b i = ⟨objectHash H k, off k⟩

/-- Every indexed key has its complete record in the value file. -/
def Located (v : Bytes) (n : Nat) (slot : Nat → Option ObjectKey) (off : ObjectKey → Nat) : Prop :=
  ∀ i < n, ∀ k, slot i = some k → ∃ value, RecordAt v (off k) k value

/-- The entries of an index that may be full, as `IndexTable` has them. -/
structure IndexEntries (b : Bytes) (n : Nat) (slot : Nat → Option ObjectKey) (off : ObjectKey → Nat) :
    Prop extends IndexFile b n (filled n slot) where
  arranged : Arranged n (objectHash H) slot
  empty : ∀ i < n, slot i = none → (bucketAt b i).hash = 0
  stored : ∀ i < n, ∀ k, slot i = some k → bucketAt b i = ⟨objectHash H k, off k⟩

/-- Every bucket of an indexed key points to the head of a record of the key. -/
def Named (v : Bytes) (n : Nat) (slot : Nat → Option ObjectKey) (off : ObjectKey → Nat) : Prop :=
  ∀ i < n, ∀ k, slot i = some k → ∃ valueSize, RecordHead v (off k) k valueSize

variable {H} {b v : Bytes} {n : Nat} {slot : Nat → Option ObjectKey} {off : ObjectKey → Nat} {w : World}

theorem IndexTable.entries (t : IndexTable H b n slot off) : IndexEntries H b n slot off where
  toIndexFile := t.toIndexFile
  arranged := t.table.arranged
  empty := t.empty
  stored := t.stored

theorem Located.named (located : Located v n slot off) (small : v.length < 2 ^ 64) : Named v n slot off := by
  intro i inside k at_i
  obtain ⟨value, rec⟩ := located i inside k at_i
  exact ⟨value.length, rec.head small⟩

theorem IndexFile.count_lt {items : Nat} (file : IndexFile b n items) : n < 2 ^ 59 := by
  have small := file.small
  omega

theorem IndexFile.probe {items : Nat} (file : IndexFile b n items) (hash probe : Nat) :
    u64 ((hash &&& (n - 1)) + probe) &&& (n - 1) = probeSlot n hash probe := by
  obtain ⟨e, power⟩ := file.power
  exact probe_index power (file.count_lt.trans (by decide)) hash probe

theorem IndexTable.filled_lt (t : IndexTable H b n slot off) : filled n slot < n :=
  filled_lt_of_vacancy t.table.vacancy

/-- What a lookup of `k` reports. -/
abbrev Looked (H : HashFunctions) (n : Nat) (slot : Nat → Option ObjectKey) (k : ObjectKey)
    (lookup : BucketLookup) : Prop :=
  Lookup n (objectHash H) slot k lookup.index lookup.found

/-- The search for a key ends at its bucket or at an empty one. In a full index
the search for an absent key fails. -/
theorem IndexEntries.findBucketLoop (t : IndexEntries H b n slot off) (named : Named v n slot off)
    (sees : w.Sees .index b) (reads : ReadsValues w v) (k : ObjectKey) {rounds probe : Nat} (sum : rounds + probe = n)
    (passed : Passed n (objectHash H) slot k probe) :
    (∃ lookup, Runs (findBucketLoop k.1 k.2 (objectHash H k) (n - 1) rounds probe) w lookup w ∧
      Looked H n slot k lookup) ∨
    (run system (LumoDB.findBucketLoop k.1 k.2 (objectHash H k) (n - 1) rounds probe) w =
        .error (.corruption "index table is full") w ∧ ∀ i < n, slot i ≠ none ∧ slot i ≠ some k) := by
  have positive := t.positive
  induction rounds generalizing probe with
  | zero =>
    obtain rfl : probe = n := by omega
    exact Or.inr ⟨rfl, passed.whole⟩
  | succ rounds ih =>
    have target := probeSlot_lt positive (objectHash H k) probe
    simp only [LumoDB.findBucketLoop, Prog.bind_eq, t.probe]
    unfold Runs
    rw [(t.toIndexFile.loadBucket sees target).bind]
    cases here : slot (probeSlot n (objectHash H k) probe) with
    | none =>
      refine Or.inl ⟨⟨_, false⟩, ?_, target, nofun, fun _ => ⟨probe, rfl, passed, here⟩⟩
      rw [if_pos (t.empty _ target here)]
      rfl
    | some k' =>
      obtain ⟨valueSize, head⟩ := named _ target k' here
      rw [t.stored _ target k' here]
      simp only
      rw [if_neg (objectHash_ne_zero H k')]
      have next : k' ≠ k → _ := fun other => ih (by omega) (passed.succ here other)
      by_cases hash : objectHash H k' = objectHash H k
      · rw [if_neg (not_not.mpr hash), (head.recordMatches reads k.1 k.2).bind]
        by_cases same : k' = k
        · subst same
          refine Or.inl ⟨⟨_, true⟩, ?_, target, fun _ => here, nofun⟩
          rw [decide_eq_true rfl, if_pos rfl]
          rfl
        · rw [decide_eq_false same, if_neg (by decide)]
          exact next same
      · rw [if_pos hash]
        exact next fun same => hash (by rw [same])

theorem IndexEntries.findBucket (t : IndexEntries H b n slot off) (named : Named v n slot off)
    (sees : w.Sees .index b) (reads : ReadsValues w v) (k : ObjectKey) :
    (∃ lookup, Runs (findBucket H k.1 k.2 (H.hashString k.1) (H.hashString k.2)) w lookup w ∧
      Looked H n slot k lookup) ∨
    (run system (LumoDB.findBucket H k.1 k.2 (H.hashString k.1) (H.hashString k.2)) w =
        .error (.corruption "index table is full") w ∧ ∀ i < n, slot i ≠ none ∧ slot i ≠ some k) := by
  unfold Runs LumoDB.findBucket
  rw [Prog.bind_eq, (t.toIndexFile.loadBucketCount sees).bind,
    mask_of_count t.positive (t.count_lt.trans (by decide))]
  exact t.findBucketLoop named sees reads k (by omega) (Passed.zero k)

/-- An index with an empty bucket answers every search. -/
theorem IndexTable.findBucket_named (t : IndexTable H b n slot off) (named : Named v n slot off)
    (sees : w.Sees .index b) (reads : ReadsValues w v) (k : ObjectKey) :
    ∃ lookup, Runs (findBucket H k.1 k.2 (H.hashString k.1) (H.hashString k.2)) w lookup w ∧
      Looked H n slot k lookup := by
  obtain ⟨i, inside, vacant⟩ := t.table.vacancy
  rcases t.entries.findBucket named sees reads k with answer | ⟨_, whole⟩
  · exact answer
  · exact absurd vacant (whole i inside).1

theorem IndexTable.findBucket (t : IndexTable H b n slot off) (located : Located v n slot off)
    (sees : w.Sees .index b) (reads : ReadsValues w v) (k : ObjectKey) :
    ∃ lookup, Runs (findBucket H k.1 k.2 (H.hashString k.1) (H.hashString k.2)) w lookup w ∧
      Looked H n slot k lookup :=
  t.findBucket_named (located.named (reads.small.trans (by decide))) sees reads k

theorem findBucket_runs (t : IndexTable H b n slot off) (located : Located v n slot off)
    (reads : ReadsValues w v) (k : ObjectKey) :
    ∃ lookup, Runs (findBucket H k.1 k.2 (H.hashString k.1) (H.hashString k.2))
        (w.withMapped .index b) lookup (w.withMapped .index b) ∧ Looked H n slot k lookup :=
  t.findBucket located (w.sees_withMapped .index b) (reads.withIndex b) k

end Tables

end LumoDB
