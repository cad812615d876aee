import LumoDB.RowBuild

namespace LumoDB
open ByteCodec Effects LinearProbing

def keyBucketAt (block : Bytes) (i : Nat) : RowKeyBucket := RowKeyBucket.decode (slice block (72 + i * 48) 48)

/-- The regions of a block: header, `n` key buckets, column, key bytes and
value bytes. -/
structure BlockShape (H : HashFunctions) (column : Bytes) (rowId sequence : Nat) (block : Bytes)
    (n items keySize valueSize : Nat) : Prop where
  header : RowBlockHeader.decode (slice block 0 72) =
    { sequence := sequence, columnHash := H.hashString column, rowId := rowId, columnSize := column.length,
      itemCount := items, bucketCount := n, keyBytesSize := keySize, valueBytesSize := valueSize,
      blockSize := block.length }
  length : block.length = 72 + n * 48 + column.length + keySize + valueSize
  small : block.length < 2 ^ 63
  power : ∃ e, n = 2 ^ e
  columnBytes : slice block (72 + n * 48) column.length = column

/-- Key bucket `i` points to `key` and to the value `m` has for it. -/
def KeyAt (H : HashFunctions) (block : Bytes) (keyStart valueStart keySize valueSize : Nat) (m : RowMap) (i : Nat)
    (key : Bytes) : Prop :=
  ∃ keyOffset valueOffset value, m key = some value ∧
    keyBucketAt block i =
      { state := kBucketFilled, keyHash := H.hashString key, keyOffset := keyOffset, keySize := key.length,
        valueOffset := valueOffset, valueSize := value.length } ∧
    keyOffset + key.length ≤ keySize ∧ slice block (keyStart + keyOffset) key.length = key ∧
    valueOffset + value.length ≤ valueSize ∧ slice block (valueStart + valueOffset) value.length = value

/-- A complete block of a row with the content `m`. -/
structure BlockTable (H : HashFunctions) (column : Bytes) (rowId sequence : Nat) (m : RowMap) (block : Bytes)
    (n keySize valueSize : Nat) (slot : Nat → Option Bytes) : Prop where
  shape : BlockShape H column rowId sequence block n (filled n slot) keySize valueSize
  table : Table n (keyHome H rowId) slot
  empty : ∀ i < n, slot i = none → (keyBucketAt block i).state = kBucketEmpty
  stored : ∀ i < n, ∀ key, slot i = some key →
    KeyAt H block (72 + n * 48 + column.length) (72 + n * 48 + column.length + keySize) keySize valueSize m i key
  present : ∀ key, m key ≠ none → ∃ i < n, slot i = some key

def RowBlock (H : HashFunctions) (column : Bytes) (rowId sequence : Nat) (m : RowMap) (block : Bytes) : Prop :=
  ∃ n keySize valueSize slot, BlockTable H column rowId sequence m block n keySize valueSize slot

section Values
variable {entries : List RowStructEntry}

def valueBytes (selected : List RowStructEntry) : Bytes := (selected.map StructEntry.flatBufferBytes).flatten

/-- The second loop of `BuildRowBlockLayout` gives each filled bucket the place
of its selected value. -/
theorem layoutValues_spec (buckets : List (RowKeyBucket × Nat)) {start : Nat}
    (small : start + (valueBytes (layoutValues entries buckets start).2.1).length < 2 ^ 64) :
    (layoutValues entries buckets start).1.length = buckets.length ∧
    (layoutValues entries buckets start).2.2 =
      start + (valueBytes (layoutValues entries buckets start).2.1).length ∧
    ∀ (i : Nat) (bucket : RowKeyBucket) (selected : Nat), buckets[i]? = some (bucket, selected) →
      (bucket.state = kBucketEmpty → (layoutValues entries buckets start).1[i]? = some bucket) ∧
      (bucket.state ≠ kBucketEmpty → ∀ entry : RowStructEntry, entries[selected]? = some entry →
        ∃ p, (layoutValues entries buckets start).1[i]? =
            some { bucket with valueOffset := start + p, valueSize := entry.flatBufferBytes.length } ∧
          p + entry.flatBufferBytes.length ≤ (valueBytes (layoutValues entries buckets start).2.1).length ∧
          slice (valueBytes (layoutValues entries buckets start).2.1) p entry.flatBufferBytes.length =
            entry.flatBufferBytes) := by
  induction buckets generalizing start with
  | nil => exact ⟨rfl, rfl, fun i _ _ held => nomatch held⟩
  | cons head later ih =>
    obtain ⟨bucket, selected⟩ := head
    by_cases vacant : bucket.state = kBucketEmpty
    · have step : layoutValues entries ((bucket, selected) :: later) start =
          (bucket :: (layoutValues entries later start).1, (layoutValues entries later start).2.1,
            (layoutValues entries later start).2.2) := by rw [layoutValues, if_pos vacant]
      rw [step] at small ⊢
      obtain ⟨length, total, places⟩ := ih small
      refine ⟨by rw [List.length_cons, List.length_cons, length], total, fun i b s held => ?_⟩
      cases i with
      | zero =>
        cases held
        exact ⟨fun _ => rfl, fun filled => absurd vacant filled⟩
      | succ i => exact places i b s held
    · set entry := entries.getD selected ⟨[], []⟩ with entry_eq
      set next := u64 (start + entry.flatBufferBytes.length) with next_eq
      have step : layoutValues entries ((bucket, selected) :: later) start =
          ({ bucket with valueOffset := start, valueSize := entry.flatBufferBytes.length } ::
              (layoutValues entries later next).1, entry :: (layoutValues entries later next).2.1,
            (layoutValues entries later next).2.2) := by rw [layoutValues, if_neg vacant]
      have bytes : valueBytes (entry :: (layoutValues entries later next).2.1) =
          entry.flatBufferBytes ++ valueBytes (layoutValues entries later next).2.1 := rfl
      rw [step] at small ⊢
      simp only at small ⊢
      rw [bytes, List.length_append] at small ⊢
      have exact_next : next = start + entry.flatBufferBytes.length := u64_of_lt (by omega)
      obtain ⟨length, total, places⟩ := @ih next (by omega)
      refine ⟨by rw [List.length_cons, List.length_cons, length], by omega, fun i b s held => ?_⟩
      cases i with
      | zero =>
        cases held
        refine ⟨fun empty => absurd empty vacant, fun _ chosen at_selected => ?_⟩
        have same : entry = chosen := by
          rw [entry_eq, List.getD_eq_getElem?_getD, at_selected, Option.getD_some]
        rw [← same]
        refine ⟨0, rfl, by omega, ?_⟩
        rw [slice_append_left (by omega), slice_self]
      | succ i =>
        obtain ⟨empty, chosen⟩ := places i b s held
        refine ⟨empty, fun full entry' at_s => ?_⟩
        obtain ⟨p, placed, inside, value⟩ := chosen full entry' at_s
        refine ⟨entry.flatBufferBytes.length + p, ?_, by omega, ?_⟩
        · rw [List.getElem?_cons_succ, placed, exact_next, Nat.add_assoc]
        · rw [slice_append_right (by omega), Nat.add_sub_cancel_left, value]

end Values

section Layout
variable {H : HashFunctions} {column : Bytes} {rowId sequence n : Nat} {entries : List RowStructEntry}
  {t : KeyTable} {slot : Nat → Option Bytes}

/-- The layout `BuildRowBlockLayout` returns for a filled key table. -/
def layoutOf (H : HashFunctions) (column : Bytes) (rowId sequence n : Nat) (entries : List RowStructEntry)
    (t : KeyTable) : RowBlockLayout :=
  let values := layoutValues entries (t.keyBuckets.zip t.selectedEntries) 0
  { header :=
      { sequence := sequence, columnHash := H.hashString column, rowId := rowId, columnSize := column.length,
        itemCount := t.itemCount, bucketCount := n, keyBytesSize := t.keyBytes.length,
        valueBytesSize := values.2.2,
        blockSize := u64 (72 + n * 48 + column.length + t.keyBytes.length + values.2.2) }
    keyBuckets := values.1
    keyBytes := t.keyBytes
    valueEntries := values.2.1 }

theorem RowBlockLayout.slices_flatten (layout : RowBlockLayout) (column : Bytes) :
    (layout.slices column).flatten = layout.header.encode ++ ((layout.keyBuckets.map RowKeyBucket.encode).flatten ++
      (column ++ (layout.keyBytes ++ valueBytes layout.valueEntries))) := rfl

theorem keyBucketAt_block {header : Bytes} {buckets : List RowKeyBucket} {rest : Bytes} {i : Nat}
    {bucket : RowKeyBucket} (front : header.length = 72) (held : buckets[i]? = some bucket) :
    keyBucketAt (header ++ ((buckets.map RowKeyBucket.encode).flatten ++ rest)) i =
      RowKeyBucket.decode bucket.encode := by
  have sizes : ∀ c ∈ buckets.map RowKeyBucket.encode, c.length = 48 := by
    intro c member
    obtain ⟨b, _, rfl⟩ := List.mem_map.mp member
    exact RowKeyBucket.encode_length b
  have inside := (List.getElem?_eq_some_iff.mp held).1
  have total := length_flatten sizes
  have at_i : (buckets.map RowKeyBucket.encode)[i]? = some bucket.encode := by rw [List.getElem?_map, held]; rfl
  rw [List.length_map] at total
  rw [keyBucketAt, slice_append_right (by omega), front, show 72 + i * 48 - 72 = i * 48 by omega,
    slice_append_left (by omega), slice_flatten sizes at_i]

theorem RowKeyBucket.decode_encode_of_lt {b : RowKeyBucket} (state : b.state < 256) (keyHash : b.keyHash < 2 ^ 64)
    (keyOffset : b.keyOffset < 2 ^ 64) (keySize : b.keySize < 2 ^ 64) (valueOffset : b.valueOffset < 2 ^ 64)
    (valueSize : b.valueSize < 2 ^ 64) : decode b.encode = b := by
  rw [decode_encode]
  cases b
  simp only [RowKeyBucket.mk.injEq] at *
  refine ⟨?_, ?_, ?_, ?_, ?_, ?_⟩ <;> exact Nat.mod_eq_of_lt (by omega)

/-- The bytes of a layout are a complete block with the last value of every
key. -/
theorem layoutOf_block {e : Nat} (power : n = 2 ^ e) (small : n < 2 ^ 32) (placed : KeysPlaced H rowId n entries t slot)
    (columnFits : column.length < 2 ^ 32) (rowIdFits : rowId < 2 ^ 64) (sequenceFits : sequence < 2 ^ 64)
    (bytesFit : ((layoutOf H column rowId sequence n entries t).slices column).flatten.length < 2 ^ 63) :
    RowBlock H column rowId sequence (rowMap entries)
        ((layoutOf H column rowId sequence n entries t).slices column).flatten ∧
      (layoutOf H column rowId sequence n entries t).header.blockSize =
        ((layoutOf H column rowId sequence n entries t).slices column).flatten.length := by
  set layout := layoutOf H column rowId sequence n entries t with layout_eq
  set block := (layout.slices column).flatten with block_eq
  have front : layout.header.encode.length = 72 := RowBlockHeader.encode_length _
  have zipped : (t.keyBuckets.zip t.selectedEntries).length = n := by
    rw [List.length_zip, placed.buckets, placed.selections, Nat.min_self]
  rw [RowBlockLayout.slices_flatten] at block_eq
  have values := @layoutValues_spec entries (t.keyBuckets.zip t.selectedEntries) 0 (by
    have total := congrArg List.length block_eq
    simp only [List.length_append] at total
    change 0 + (valueBytes layout.valueEntries).length < 2 ^ 64
    omega)
  obtain ⟨bucketsLength, valueTotal, places⟩ := values
  rw [zipped] at bucketsLength
  rw [Nat.zero_add] at valueTotal
  change layout.keyBuckets.length = n at bucketsLength
  change layout.header.valueBytesSize = (valueBytes layout.valueEntries).length at valueTotal
  have sizes : ∀ c ∈ layout.keyBuckets.map RowKeyBucket.encode, c.length = 48 := by
    intro c member
    obtain ⟨b, _, rfl⟩ := List.mem_map.mp member
    exact RowKeyBucket.encode_length b
  have bucketBytes := length_flatten sizes
  rw [List.length_map, bucketsLength] at bucketBytes
  have keys : layout.keyBytes = t.keyBytes := rfl
  have length : block.length =
      72 + n * 48 + column.length + t.keyBytes.length + (valueBytes layout.valueEntries).length := by
    rw [block_eq]
    simp only [List.length_append, front, bucketBytes, keys]
    omega
  have blockSize : layout.header.blockSize = block.length := by
    change u64 (72 + n * 48 + column.length + t.keyBytes.length + layout.header.valueBytesSize) = _
    rw [valueTotal, ← length]
    exact u64_of_lt (by omega)
  have few := filled_le n slot
  refine ⟨⟨n, t.keyBytes.length, (valueBytes layout.valueEntries).length, slot, ⟨?_, length, bytesFit, ⟨e, power⟩, ?_⟩,
    placed.table, ?_, ?_, placed.present⟩, blockSize⟩
  · have header : slice block 0 72 = layout.header.encode := by
      rw [block_eq, slice_append_left (by omega)]
      have whole := slice_self layout.header.encode
      rwa [front] at whole
    rw [header, RowBlockHeader.decode_encode, valueTotal, blockSize]
    change RowBlockHeader.mk _ _ _ (sequence % _) (H.hashString column % _) (rowId % _) (column.length % _)
      (t.itemCount % _) (n % _) (t.keyBytes.length % _) _ _ = _
    have hash := H.hashString_lt column
    rw [placed.items, Nat.mod_eq_of_lt (show sequence < 256 ^ 8 by omega),
      Nat.mod_eq_of_lt (show H.hashString column < 256 ^ 8 by omega), Nat.mod_eq_of_lt (show rowId < 256 ^ 8 by omega),
      Nat.mod_eq_of_lt (show column.length < 256 ^ 4 by omega),
      Nat.mod_eq_of_lt (show filled n slot < 256 ^ 4 by omega), Nat.mod_eq_of_lt (show n < 256 ^ 4 by omega),
      Nat.mod_eq_of_lt (show t.keyBytes.length < 256 ^ 8 by omega),
      Nat.mod_eq_of_lt (show (valueBytes layout.valueEntries).length < 256 ^ 8 by omega),
      Nat.mod_eq_of_lt (show block.length < 256 ^ 8 by omega)]
    rfl
  · rw [block_eq, slice_append_right (by omega), front, slice_append_right (by omega), bucketBytes,
      show 72 + n * 48 - 72 - n * 48 = 0 by omega, slice_append_left (by omega), slice_self]
  · intro i inside vacant
    have empty := placed.empty i inside vacant
    obtain ⟨selected, at_i⟩ : ∃ selected, t.selectedEntries[i]? = some selected :=
      ⟨_, List.getElem?_eq_getElem (by rw [placed.selections]; exact inside)⟩
    have held := (places i {} selected (by rw [List.getElem?_zip_eq_some]; exact ⟨empty, at_i⟩)).1 rfl
    change layout.keyBuckets[i]? = some {} at held
    rw [block_eq, keyBucketAt_block front held]
    rfl
  · intro i inside key at_i
    have stored := placed.stored i inside key at_i
    obtain ⟨keyOffset, bucket, room, keyBytes⟩ := stored.bucket
    obtain ⟨selected, entry, chosen, at_selected, value⟩ := stored.selected
    obtain ⟨p, held, inner, bytes⟩ := (places i _ selected (by
      rw [List.getElem?_zip_eq_some]; exact ⟨bucket, chosen⟩)).2 (show kBucketFilled ≠ kBucketEmpty by decide) entry at_selected
    rw [Nat.zero_add] at held
    change layout.keyBuckets[i]? = some _ at held
    change p + entry.flatBufferBytes.length ≤ (valueBytes layout.valueEntries).length at inner
    change slice (valueBytes layout.valueEntries) p entry.flatBufferBytes.length = entry.flatBufferBytes at bytes
    have hash := H.hashString_lt key
    refine ⟨keyOffset, p, entry.flatBufferBytes, value, ?_, room, ?_, inner, ?_⟩
    · rw [block_eq, keyBucketAt_block front held]
      exact RowKeyBucket.decode_encode_of_lt (show kBucketFilled < 256 by decide) hash
        (show keyOffset < 2 ^ 64 by omega) (show key.length < 2 ^ 64 by omega) (show p < 2 ^ 64 by omega)
        (show entry.flatBufferBytes.length < 2 ^ 64 by omega)
    · rw [block_eq, slice_append_right (by omega), front, slice_append_right (by omega), bucketBytes,
        slice_append_right (by omega),
        show 72 + n * 48 + column.length + keyOffset - 72 - n * 48 - column.length = keyOffset by omega,
        slice_append_left (by rw [keys]; exact room), keys, keyBytes]
    · rw [block_eq, slice_append_right (by omega), front, slice_append_right (by omega), bucketBytes,
        slice_append_right (by omega), slice_append_right (by rw [keys]; omega), keys,
        show 72 + n * 48 + column.length + t.keyBytes.length + p - 72 - n * 48 - column.length -
          t.keyBytes.length = p by omega, bytes]

end Layout

end LumoDB
