import LumoDB.ObjectStore
import LumoDB.RowCodec
import LumoDB.RowIndex

namespace LumoDB
open ByteCodec Effects LinearProbing

section Build
variable {H : HashFunctions} {column : Bytes} {rowId sequence : Nat} {entries : List RowStructEntry}
  {maxLoadFactor : ℚ} {w : World}

/-- With a bucket count of 32 bits `BuildRowBlockLayout` places every key. -/
theorem buildRowBlockLayout_runs {n : Nat} (H : HashFunctions) (column : Bytes) (rowId sequence : Nat)
    (load : LoadFactorOk maxLoadFactor) (count : rowKeyBucketCount maxLoadFactor entries.length = some n)
    (fits : n < 2 ^ 32) :
    ∃ e t slot, n = 2 ^ e ∧ KeysPlaced H rowId n entries t slot ∧
      ∀ w, Runs (buildRowBlockLayout H maxLoadFactor column rowId entries sequence (H.hashString column)) w
        (layoutOf H column rowId sequence n entries t) w := by
  have below : maxLoadFactor < 1 := by linarith [load.2]
  obtain ⟨room, e, _, power⟩ := rowKeyBucketCount_spec load.1 below count
  have empty := keysPlaced_empty H rowId entries.length (show 0 < n by omega)
  obtain ⟨t, slot, place, placed⟩ := placeKeys_spec power (by omega) entries empty
    (by rw [List.length_nil]; omega)
  refine ⟨e, t, slot, power, placed, fun w => ?_⟩
  rw [List.length_nil] at place
  unfold Runs buildRowBlockLayout
  rw [if_neg (by omega), count]
  simp only [orOverflow, Prog.bind_eq, Prog.ret_bind]
  rw [if_neg (by omega), place]
  rfl

/-- `BuildRowBlockLayout` returns an argument error or the layout of a table
that holds every key, unless its bucket count overflows. -/
theorem buildRowBlockLayout_cases (load : LoadFactorOk maxLoadFactor) :
    (∃ e, e ≠ capacityExceeded ∧
      ∀ w, run system (buildRowBlockLayout H maxLoadFactor column rowId entries sequence (H.hashString column)) w =
        .error e w) ∨
    buildRowBlockLayout H maxLoadFactor column rowId entries sequence (H.hashString column) = .overflow ∨
    ∃ n e t slot, (∀ w, Runs (buildRowBlockLayout H maxLoadFactor column rowId entries sequence (H.hashString column)) w
        (layoutOf H column rowId sequence n entries t) w) ∧ n = 2 ^ e ∧ n < 2 ^ 32 ∧
      KeysPlaced H rowId n entries t slot := by
  by_cases many : 2 ^ 32 - 1 < entries.length
  · refine Or.inl ⟨.invalidArgument "row entry count must fit in uint32", by decide, fun w => ?_⟩
    rw [buildRowBlockLayout, if_pos many]
    rfl
  cases count : rowKeyBucketCount maxLoadFactor entries.length with
  | none =>
    refine Or.inr (Or.inl ?_)
    rw [buildRowBlockLayout, if_neg many, count]
    rfl
  | some n =>
    by_cases fits : n < 2 ^ 32
    · obtain ⟨e, t, slot, power, placed, runs⟩ :=
        buildRowBlockLayout_runs H column rowId sequence load count fits
      exact Or.inr (Or.inr ⟨n, e, t, slot, runs, power, fits, placed⟩)
    · refine Or.inl ⟨.invalidArgument "row key bucket count must fit in uint32", by decide, fun w => ?_⟩
      rw [buildRowBlockLayout, if_neg many, count]
      simp only [orOverflow, Prog.bind_eq, Prog.ret_bind]
      rw [if_pos (by omega)]
      rfl

end Build

section Decode
variable {H : HashFunctions} {column block : Bytes} {rowId sequence n keySize valueSize : Nat} {m : RowMap}
  {slot : Nat → Option Bytes} {w : World}

theorem blockBytes_runs {offset size : Nat} (inside : offset + size ≤ block.length) :
    blockBytes block offset size = .ret (slice block offset size) := by
  unfold blockBytes
  by_cases zero : size = 0
  · rw [if_pos zero, zero, slice_zero]
  · rw [if_neg zero, if_pos inside]

/-- Entries with different keys leave the map that holds exactly them. -/
theorem rowMap_of_nodup {entries : List RowStructEntry} (nodup : (entries.map StructEntry.key).Nodup)
    (held : ∀ entry ∈ entries, m entry.key = some entry.flatBufferBytes)
    (all : ∀ key, m key ≠ none → key ∈ entries.map StructEntry.key) : rowMap entries = m := by
  have prefixes : ∀ es : List RowStructEntry, (es.map StructEntry.key).Nodup →
      (∀ entry ∈ es, m entry.key = some entry.flatBufferBytes) →
      ∀ key, rowMap es key = if key ∈ es.map StructEntry.key then m key else none := by
    intro es
    induction es using List.reverseRecOn with
    | nil => simp [rowMap]
    | append_singleton es entry ih =>
      intro distinct stored key
      rw [List.map_append, List.nodup_append] at distinct
      rw [rowMap_append]
      by_cases same : key = entry.key
      · subst same
        simp [stored entry (by simp)]
      · rw [Function.update_of_ne same, ih distinct.1 fun e member => stored e (List.mem_append_left _ member)]
        simp [same]
  funext key
  rw [prefixes entries nodup held key]
  split
  · rfl
  · rename_i missing
    by_contra other
    exact missing (all key (Ne.symm other))

theorem BlockTable.header_take (t : BlockTable H column rowId sequence m block n keySize valueSize slot) :
    RowBlockHeader.decode (block.take 72) =
      { sequence := sequence, columnHash := H.hashString column, rowId := rowId, columnSize := column.length,
        itemCount := filled n slot, bucketCount := n, keyBytesSize := keySize, valueBytesSize := valueSize,
        blockSize := block.length } := by
  have header := t.shape.header
  rwa [slice, List.drop_zero] at header

theorem isValidRowBlockHeader_of (rowId sequence columnHash items : Nat) {columnSize : Nat} (power : ∃ e, n = 2 ^ e)
    (length : block.length = 72 + n * 48 + columnSize + keySize + valueSize) (small : block.length < 2 ^ 63) :
    isValidRowBlockHeader
      { sequence := sequence, columnHash := columnHash, rowId := rowId, columnSize := columnSize,
        itemCount := items, bucketCount := n, keyBytesSize := keySize, valueBytesSize := valueSize,
        blockSize := block.length } = true := by
  have two := Nat.ne_zero_and_sub_one_eq_zero_iff_isPowerOfTwo.mpr power
  unfold isValidRowBlockHeader
  simp only
  rw [if_neg (by simp), if_neg (by simp [two]), ← length, u64_of_lt (by omega), decide_eq_true rfl]

theorem keyBucketField_runs {index field size : Nat} (inside : 72 + index * 48 + field + size ≤ block.length) :
    keyBucketField block index field size = .ret (natAt block (72 + index * 48 + field) size) := by
  unfold keyBucketField
  rw [Prog.bind_eq, blockBytes_runs inside, Prog.ret_bind]
  rfl

/-- The fields of a key bucket lie behind each other in its bytes. -/
theorem keyBucketAt_fields (block : Bytes) (i : Nat) :
    (keyBucketAt block i).state = natAt block (72 + i * 48) 1 ∧
    (keyBucketAt block i).keyOffset = natAt block (72 + i * 48 + 16) 8 ∧
    (keyBucketAt block i).keySize = natAt block (72 + i * 48 + 24) 8 ∧
    (keyBucketAt block i).valueOffset = natAt block (72 + i * 48 + 32) 8 ∧
    (keyBucketAt block i).valueSize = natAt block (72 + i * 48 + 40) 8 :=
  ⟨natAt_slice (by decide), natAt_slice (by decide), natAt_slice (by decide), natAt_slice (by decide),
    natAt_slice (by decide)⟩

theorem decodeBuckets_runs (t : BlockTable H column rowId sequence m block n keySize valueSize slot)
    {h : RowBlockHeader} (keys : h.keyBytesSize = keySize) (values : h.valueBytesSize = valueSize) {rounds i : Nat}
    (sum : i + rounds = n) :
    ∃ entries, Runs (decodeBuckets block h (72 + n * 48 + column.length) (72 + n * 48 + column.length + keySize) rounds i)
        w entries w ∧
      entries.map StructEntry.key = (List.range' i rounds).filterMap slot ∧
      ∀ entry ∈ entries, m entry.key = some entry.flatBufferBytes := by
  have length := t.shape.length
  have small := t.shape.small
  induction rounds generalizing i with
  | zero => exact ⟨[], rfl, rfl, nofun⟩
  | succ rounds ih =>
    have inside : i < n := by omega
    obtain ⟨later, decoded, laterKeys, laterHeld⟩ := ih (show i + 1 + rounds = n by omega)
    obtain ⟨state, keyOff, keyLen, valueOff, valueLen⟩ := keyBucketAt_fields block i
    unfold Runs decodeBuckets
    rw [Prog.bind_eq, keyBucketField_runs (by omega), Prog.ret_bind, Nat.add_zero, ← state]
    rw [List.range'_succ, List.filterMap_cons]
    cases at_i : slot i with
    | none =>
      refine ⟨later, ?_, laterKeys, laterHeld⟩
      rw [if_pos (t.empty i inside at_i)]
      exact decoded
    | some key =>
      obtain ⟨keyOffset, valueOffset, value, held, bucket, keyRoom, keyBytes, valueRoom, valueBytes⟩ :=
        t.stored i inside key at_i
      have full : (keyBucketAt block i).state = kBucketFilled := by rw [bucket]
      refine ⟨⟨key, value⟩ :: later, ?_, by simp only [List.map_cons, laterKeys], ?_⟩
      · rw [if_neg (by rw [full]; decide), if_neg (not_not.mpr full)]
        simp only [Prog.bind_eq]
        rw [keyBucketField_runs (by omega), Prog.ret_bind, keyBucketField_runs (by omega), Prog.ret_bind, ← keyOff, ← keyLen,
          keyBucketField_runs (by omega), Prog.ret_bind, keyBucketField_runs (by omega), Prog.ret_bind, ← valueOff,
          ← valueLen, bucket]
        simp only [keys, values]
        rw [u64_of_lt (by omega), if_neg (by omega), u64_of_lt (by omega), if_neg (by omega), u64_of_lt (by omega),
          u64_of_lt (by omega), blockBytes_runs (by omega), Prog.ret_bind, keyBytes,
          blockBytes_runs (by omega), Prog.ret_bind, valueBytes, decoded.bind]
        rfl
      · intro entry member
        rcases List.mem_cons.mp member with rfl | member
        · exact held
        · exact laterHeld entry member

/-- Decoding a complete block gives entries with different keys and exactly
the content of the row. -/
theorem decodeRowBlockEntries_runs (t : BlockTable H column rowId sequence m block n keySize valueSize slot) :
    ∃ entries, Runs (decodeRowBlockEntries H block column rowId) w entries w ∧
      (entries.map StructEntry.key).Nodup ∧ rowMap entries = m ∧ entries.length = filled n slot := by
  have length := t.shape.length
  have small := t.shape.small
  obtain ⟨entries, decoded, keys, held⟩ := @decodeBuckets_runs _ _ _ _ _ _ _ _ _ _ w t
    (RowBlockHeader.decode (block.take 72)) (by rw [t.header_take]) (by rw [t.header_take])
    n 0 (by omega)
  have whole : (List.range' 0 n).filterMap slot = LinearProbing.keys n slot := by
    rw [LinearProbing.keys, List.range_eq_range']
  rw [whole] at keys
  have count : entries.length = filled n slot := by
    rw [filled_eq_length_keys, ← keys, List.length_map]
  have nodup : (entries.map StructEntry.key).Nodup := keys ▸ t.table.keys_nodup
  refine ⟨entries, ?_, nodup, rowMap_of_nodup nodup held fun key present => ?_, count⟩
  · rw [t.header_take] at decoded
    unfold Runs decodeRowBlockEntries
    rw [if_neg (by omega)]
    simp only [t.header_take, isValidRowBlockHeader_of _ _ _ _ t.shape.power length small]
    rw [if_neg (by simp), u64_of_lt (by omega), u64_of_lt (by omega), if_neg (not_not.mpr rfl), Prog.bind_eq,
      blockBytes_runs (by omega), Prog.ret_bind, t.shape.columnBytes, if_neg (not_not.mpr rfl), Prog.bind_eq, decoded.bind,
      if_neg (not_not.mpr count)]
    rfl
  · rw [keys, mem_keys]
    exact t.present key present

end Decode

section Merge
variable {key flatBufferBytes : Bytes} {entries : List RowStructEntry}

theorem rowMap_stored (nodup : (entries.map StructEntry.key).Nodup) :
    ∀ entry ∈ entries, rowMap entries entry.key = some entry.flatBufferBytes := by
  induction entries using List.reverseRecOn with
  | nil => exact fun entry member => nomatch member
  | append_singleton entries last ih =>
    intro entry member
    rw [List.map_append, List.nodup_append] at nodup
    rw [rowMap_append]
    rcases List.mem_append.mp member with before | here
    · have other : entry.key ≠ last.key := fun same =>
        nodup.2.2 entry.key (List.mem_map_of_mem before) last.key (by simp) same
      rw [Function.update_of_ne other]
      exact ih nodup.1 entry before
    · rw [List.mem_singleton.mp here, Function.update_self]

theorem rowMap_present {k : Bytes} (held : rowMap entries k ≠ none) : k ∈ entries.map StructEntry.key := by
  induction entries using List.reverseRecOn with
  | nil => exact absurd rfl held
  | append_singleton entries last ih =>
    rw [rowMap_append] at held
    rw [List.map_append]
    by_cases same : k = last.key
    · simp [same]
    · rw [Function.update_of_ne same] at held
      exact List.mem_append_left _ (ih held)

theorem mergeEntry_keys (key flatBufferBytes : Bytes) (entries : List RowStructEntry) :
    (mergeEntry key flatBufferBytes entries).map StructEntry.key =
      if key ∈ entries.map StructEntry.key then entries.map StructEntry.key
      else entries.map StructEntry.key ++ [key] := by
  induction entries with
  | nil => rfl
  | cons entry later ih =>
    rw [mergeEntry]
    by_cases same : entry.key = key
    · simp [same]
    · simp only [if_neg same, List.map_cons, ih, List.mem_cons, Ne.symm same, false_or]
      split <;> simp

theorem mem_mergeEntry (nodup : (entries.map StructEntry.key).Nodup) {entry : RowStructEntry}
    (member : entry ∈ mergeEntry key flatBufferBytes entries) :
    entry.key = key ∧ entry.flatBufferBytes = flatBufferBytes ∨ entry ∈ entries ∧ entry.key ≠ key := by
  induction entries with
  | nil =>
    rw [mergeEntry, List.mem_singleton] at member
    exact Or.inl ⟨by rw [member], by rw [member]⟩
  | cons head later ih =>
    rw [List.map_cons, List.nodup_cons] at nodup
    rw [mergeEntry] at member
    split at member
    · rename_i same
      rcases List.mem_cons.mp member with rfl | rest
      · exact Or.inl ⟨same, rfl⟩
      · refine Or.inr ⟨List.mem_cons_of_mem _ rest, fun again => ?_⟩
        exact nodup.1 (by rw [same, ← again]; exact List.mem_map_of_mem rest)
    · rename_i other
      rcases List.mem_cons.mp member with rfl | rest
      · exact Or.inr ⟨List.mem_cons_self, other⟩
      · rcases ih nodup.2 rest with here | ⟨kept, different⟩
        · exact Or.inl here
        · exact Or.inr ⟨List.mem_cons_of_mem _ kept, different⟩

theorem mergeEntry_nodup (nodup : (entries.map StructEntry.key).Nodup) :
    ((mergeEntry key flatBufferBytes entries).map StructEntry.key).Nodup := by
  rw [mergeEntry_keys]
  split
  · exact nodup
  · rename_i missing
    refine List.nodup_append.mpr ⟨nodup, List.nodup_singleton key, fun k member k' single => ?_⟩
    rw [List.mem_singleton.mp single]
    rintro rfl
    exact missing member

/-- Merging one entry into the entries of a row sets its key and keeps the
others. -/
theorem rowMap_mergeEntry (nodup : (entries.map StructEntry.key).Nodup) :
    rowMap (mergeEntry key flatBufferBytes entries) =
      Function.update (rowMap entries) key (some flatBufferBytes) := by
  refine rowMap_of_nodup (mergeEntry_nodup nodup) (fun entry member => ?_) fun k held => ?_
  · rcases mem_mergeEntry nodup member with ⟨same, value⟩ | ⟨kept, other⟩
    · rw [same, value, Function.update_self]
    · rw [Function.update_of_ne other]
      exact rowMap_stored nodup entry kept
  · rw [mergeEntry_keys]
    by_cases same : k = key
    · split
      · rwa [same]
      · simp [same]
    · rw [Function.update_of_ne same] at held
      have member := rowMap_present held
      split
      · exact member
      · exact List.mem_append_left _ member

end Merge

end LumoDB
