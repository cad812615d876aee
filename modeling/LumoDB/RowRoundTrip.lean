import LumoDB.RowReads

namespace LumoDB
open ByteCodec Effects

section RoundTrip
variable {H : HashFunctions} {maxLoadFactor : ℚ} {column : Bytes} {n : Nat} {entries : List RowStructEntry}

/-- Entries with different keys are the pairs of the map they leave. -/
theorem mem_iff_rowMap (nodup : (entries.map StructEntry.key).Nodup) (key value : Bytes) :
    (⟨key, value⟩ : RowStructEntry) ∈ entries ↔ rowMap entries key = some value := by
  have stored := rowMap_stored nodup
  constructor
  · intro member
    exact stored ⟨key, value⟩ member
  · intro held
    have present := rowMap_present (show rowMap entries key ≠ none by rw [held]; nofun)
    obtain ⟨⟨k, v⟩, member, same⟩ := List.mem_map.mp present
    have value_eq := stored ⟨k, v⟩ member
    simp only at same value_eq
    rw [same, held] at value_eq
    rwa [same, ← Option.some.inj value_eq] at member

theorem RowBlock.valid {rowId sequence : Nat} {m : RowMap} {block : Bytes}
    (row : RowBlock H column rowId sequence m block) :
    isValidRowBlockHeader (RowBlockHeader.decode (slice block 0 72)) = true := by
  obtain ⟨_, _, _, _, t⟩ := row
  rw [t.shape.header]
  exact isValidRowBlockHeader_of _ _ _ _ t.shape.power t.shape.length t.shape.small

theorem RowBlock.decode_runs {rowId sequence : Nat} {m : RowMap} {block : Bytes}
    (row : RowBlock H column rowId sequence m block) (w : World) :
    ∃ decoded, Runs (decodeRowBlockEntries H block column rowId) w decoded w ∧
      (decoded.map StructEntry.key).Nodup ∧
      ∀ key value, (⟨key, value⟩ : RowStructEntry) ∈ decoded ↔ m key = some value := by
  obtain ⟨_, _, _, _, t⟩ := row
  obtain ⟨decoded, runs, nodup, same, _⟩ := decodeRowBlockEntries_runs (w := w) t
  refine ⟨decoded, runs, nodup, fun key value => ?_⟩
  rw [mem_iff_rowMap nodup, same]

/-- What `BuildRowBlockLayout` lays out and `WriteRowStructs` writes is a
block that `DecodeRowBlockEntries` and `FindValueInRowBlockAt` read alike:
the last entry of every key. A block is written only when its bytes fit into
a file. -/
theorem rowBlock_roundTrip (rowId sequence : UInt64) (columnFits : column.length < 2 ^ 32)
    (load : LoadFactorOk maxLoadFactor) (count : rowKeyBucketCount maxLoadFactor entries.length = some n)
    (fits : n < 2 ^ 32) :
    ∃ layout, ∀ w,
      Runs (buildRowBlockLayout H maxLoadFactor column rowId.toNat entries sequence.toNat (H.hashString column)) w
        layout w ∧
      ∀ block, block = (layout.slices column).flatten → block.length < 2 ^ 63 →
        block.length = layout.header.blockSize ∧
        isValidRowBlockHeader (RowBlockHeader.decode (slice block 0 72)) = true ∧
        (∃ decoded, Runs (decodeRowBlockEntries H block column rowId.toNat) w decoded w ∧
          (decoded.map StructEntry.key).Nodup ∧
          ∀ key value, (⟨key, value⟩ : RowStructEntry) ∈ decoded ↔ rowMap entries key = some value) ∧
        ∀ shards count r, ReadsShards w shards count → r.shardId < count →
          BlockIn (shards r.shardId) r.blockOffset block → r.blockSize = block.length →
          r.sequence = sequence.toNat → ∀ key,
            run system (findValueInRowBlockAt H (rowBucket H (column, rowId.toNat) r)
              (RowBlockHeader.decode (slice block 0 72)) key) w =
              match rowMap entries key with
              | some value => .ok value w
              | none => .error (.notFound "key not found in row") w := by
  obtain ⟨e, t, slot, power, placed, built⟩ :=
    buildRowBlockLayout_runs H column rowId.toNat sequence.toNat load count fits
  refine ⟨layoutOf H column rowId.toNat sequence.toNat n entries t, fun w => ⟨built w, ?_⟩⟩
  intro block block_eq small
  obtain ⟨row, size⟩ := layoutOf_block power fits placed columnFits rowId.toNat_lt sequence.toNat_lt
    (by rw [← block_eq]; exact small)
  rw [← block_eq] at row size
  refine ⟨size.symm, row.valid, row.decode_runs w, ?_⟩
  intro shards count r reads shard located blockSize numbered key
  rw [← numbered] at row
  exact findValueInRowBlockAt_runs reads ⟨shard, located, blockSize, row⟩ key

def sampleEntries : List RowStructEntry := [⟨[5], [6]⟩, ⟨[], []⟩, ⟨[5], [7]⟩]

theorem rowBlock_roundTrip_sample :
    ∃ layout, ∀ w, Runs (buildRowBlockLayout .shipped (4 / 5) [1] 7 sampleEntries 1
        (HashFunctions.shipped.hashString [1])) w layout w ∧
      ∃ decoded, Runs (decodeRowBlockEntries .shipped (layout.slices [1]).flatten [1] 7) w decoded w ∧
        (⟨[5], [7]⟩ : RowStructEntry) ∈ decoded := by
  obtain ⟨layout, reads⟩ := @rowBlock_roundTrip .shipped (4 / 5) [1] 16 sampleEntries 7 1 (by decide)
    (by norm_num [LoadFactorOk]) (by decide +kernel) (by decide)
  have size : ((run system (buildRowBlockLayout .shipped (4 / 5) [1] 7 sampleEntries 1
      (HashFunctions.shipped.hashString [1])) {}).value?.any fun layout =>
        decide ((layout.slices [1]).flatten.length < 2 ^ 63)) = true := by decide +kernel
  have built : Runs (buildRowBlockLayout .shipped (4 / 5) [1] 7 sampleEntries 1
      (HashFunctions.shipped.hashString [1])) {} layout {} := (reads {}).1
  rw [built] at size
  refine ⟨layout, fun w => ⟨(reads w).1, ?_⟩⟩
  obtain ⟨_, _, ⟨decoded, runs, _, held⟩, _⟩ := (reads w).2 _ rfl (of_decide_eq_true size)
  exact ⟨decoded, runs, (held [5] [7]).mpr (by decide)⟩

end RoundTrip

end LumoDB
