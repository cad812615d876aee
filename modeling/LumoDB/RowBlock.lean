import LumoDB.ObjectIndex

namespace LumoDB
open ByteCodec Effects

abbrev RowStructEntry := StructEntry

structure RowBlockLayout where
  header : RowBlockHeader
  keyBuckets : List RowKeyBucket
  keyBytes : Bytes
  valueEntries : List RowStructEntry

/-- The vectors `BuildRowBlockLayout` fills while it places the keys. -/
structure KeyTable where
  keyBuckets : List RowKeyBucket
  keyBytes : Bytes
  selectedEntries : List Nat
  itemCount : Nat

def isValidRowBlockHeader (h : RowBlockHeader) : Bool :=
  if h.magic ≠ kRowBlockMagic ∨ h.version ≠ kStorageVersion ∨ h.headerSize ≠ 72 then false
  else if h.bucketCount = 0 ∨ h.bucketCount &&& (h.bucketCount - 1) ≠ 0 then false
  else h.blockSize =
    u64 (72 + h.bucketCount * 48 + h.columnSize + h.keyBytesSize + h.valueBytesSize)

section Build
variable (H : HashFunctions)

/-- The bucket count of a key table. The conversion of a quotient that no
64-bit number holds is undefined. -/
def rowKeyBucketCount (maxLoadFactor : ℚ) (entryCount : Nat) : Option Nat :=
  let quotient := (entryCount / maxLoadFactor : ℚ).floor.toNat
  if quotient + 1 < 2 ^ 64 then roundUpPowerOfTwo (quotient + 1) else none

/-- The probe loop for one key. `none` means that no bucket was found. -/
def placeKeyLoop (entry : RowStructEntry) (entryIndex keyHash mask start : Nat) (t : KeyTable) :
    Nat → Nat → Option KeyTable
  | 0, _ => none
  | rounds + 1, probe =>
    let bucketIndex := u64 (start + probe) &&& mask
    let bucket := t.keyBuckets.getD bucketIndex {}
    if bucket.state = kBucketEmpty then
      some
        { keyBuckets := t.keyBuckets.set bucketIndex
            { bucket with
              state := kBucketFilled
              keyHash := keyHash
              keyOffset := t.keyBytes.length
              keySize := entry.key.length }
          keyBytes := t.keyBytes ++ entry.key
          selectedEntries := t.selectedEntries.set bucketIndex entryIndex
          itemCount := t.itemCount + 1 }
    else if bucket.keyHash ≠ keyHash ∨ bucket.keySize ≠ entry.key.length then
      placeKeyLoop entry entryIndex keyHash mask start t rounds (probe + 1)
    else if slice t.keyBytes bucket.keyOffset bucket.keySize ≠ entry.key then
      placeKeyLoop entry entryIndex keyHash mask start t rounds (probe + 1)
    else some { t with selectedEntries := t.selectedEntries.set bucketIndex entryIndex }

def placeKey (rowId bucketCount : Nat) (entry : RowStructEntry) (entryIndex : Nat) (t : KeyTable) :
    Option KeyTable :=
  let keyHash := H.hashString entry.key
  let mask := bucketCount - 1
  placeKeyLoop entry entryIndex keyHash mask (H.mixHashes keyHash rowId &&& mask) t bucketCount 0

def placeKeys (rowId bucketCount : Nat) : List RowStructEntry → Nat → KeyTable → Option KeyTable
  | [], _, t => some t
  | entry :: later, entryIndex, t =>
    match placeKey H rowId bucketCount entry entryIndex t with
    | some placed => placeKeys rowId bucketCount later (entryIndex + 1) placed
    | none => none

/-- The second loop: value offsets in bucket order. It returns the finished
buckets, the entries whose values follow, and the size of the value region. -/
def layoutValues (entries : List RowStructEntry) :
    List (RowKeyBucket × Nat) → Nat → List RowKeyBucket × List RowStructEntry × Nat
  | [], valueBytesSize => ([], [], valueBytesSize)
  | (bucket, selected) :: later, valueBytesSize =>
    if bucket.state = kBucketEmpty then
      let rest := layoutValues entries later valueBytesSize
      (bucket :: rest.1, rest.2.1, rest.2.2)
    else
      let entry := entries.getD selected ⟨[], []⟩
      let rest := layoutValues entries later (u64 (valueBytesSize + entry.flatBufferBytes.length))
      ({ bucket with
          valueOffset := valueBytesSize
          valueSize := entry.flatBufferBytes.length } :: rest.1, entry :: rest.2.1, rest.2.2)

def buildRowBlockLayout (maxLoadFactor : ℚ) (column : Bytes) (rowId : Nat)
    (entries : List RowStructEntry) (sequence columnHash : Nat) : Db RowBlockLayout :=
  if 2 ^ 32 - 1 < entries.length then
    .fail (.invalidArgument "row entry count must fit in uint32")
  else do
    let bucketCount ← orOverflow (rowKeyBucketCount maxLoadFactor entries.length)
    if 2 ^ 32 - 1 < bucketCount then
      .fail (.invalidArgument "row key bucket count must fit in uint32")
    else
      let empty : KeyTable :=
        { keyBuckets := List.replicate bucketCount {}
          keyBytes := []
          selectedEntries := List.replicate bucketCount entries.length
          itemCount := 0 }
      match placeKeys H rowId bucketCount entries 0 empty with
      | none => .fail (.corruption "row key table is full")
      | some t =>
        let values := layoutValues entries (t.keyBuckets.zip t.selectedEntries) 0
        return {
          header :=
            { sequence := sequence
              columnHash := columnHash
              rowId := rowId
              columnSize := column.length
              itemCount := t.itemCount
              bucketCount := bucketCount
              keyBytesSize := t.keyBytes.length
              valueBytesSize := values.2.2
              blockSize :=
                u64 (72 + bucketCount * 48 + column.length + t.keyBytes.length + values.2.2) }
          keyBuckets := values.1
          keyBytes := t.keyBytes
          valueEntries := values.2.1 }

/-- The bytes `WriteRowStructs` writes for a layout. -/
def RowBlockLayout.slices (layout : RowBlockLayout) (column : Bytes) : List Bytes :=
  layout.header.encode :: (layout.keyBuckets.map RowKeyBucket.encode).flatten :: column ::
    layout.keyBytes :: layout.valueEntries.map StructEntry.flatBufferBytes

end Build

section Decode
variable (H : HashFunctions)

/-- A read of `size` bytes of a block in memory. Outside the block it is
undefined. -/
def blockBytes (block : Bytes) (offset size : Nat) : Db Bytes :=
  if size = 0 then .ret []
  else if offset + size ≤ block.length then .ret (slice block offset size) else .fault

/-- One field of the key bucket at `index`. -/
def keyBucketField (block : Bytes) (index field size : Nat) : Db Nat := do
  let bytes ← blockBytes block (72 + index * 48 + field) size
  return leNat bytes

def decodeBuckets (block : Bytes) (h : RowBlockHeader) (keyBytesOffset valueBytesOffset : Nat) :
    Nat → Nat → Db (List RowStructEntry)
  | 0, _ => return []
  | rounds + 1, index => do
    let state ← keyBucketField block index 0 1
    if state = kBucketEmpty then
      decodeBuckets block h keyBytesOffset valueBytesOffset rounds (index + 1)
    else if state ≠ kBucketFilled then
      .fail (.corruption "row key bucket state is invalid")
    else do
      let keyOffset ← keyBucketField block index 16 8
      let keySize ← keyBucketField block index 24 8
      -- the value fields are loaded only where the key range passes
      if h.keyBytesSize < u64 (keyOffset + keySize) then
        .fail (.corruption "row key bucket points outside block")
      else do
        let valueOffset ← keyBucketField block index 32 8
        let valueSize ← keyBucketField block index 40 8
        if h.valueBytesSize < u64 (valueOffset + valueSize) then
          .fail (.corruption "row key bucket points outside block")
        else do
          let key ← blockBytes block (u64 (keyBytesOffset + keyOffset)) keySize
          let value ← blockBytes block (u64 (valueBytesOffset + valueOffset)) valueSize
          let later ← decodeBuckets block h keyBytesOffset valueBytesOffset rounds (index + 1)
          return ⟨key, value⟩ :: later

def decodeRowBlockEntries (block column : Bytes) (rowId : Nat) : Db (List RowStructEntry) :=
  if block.length < 72 then .fail (.corruption "row block is truncated")
  else
    let h := RowBlockHeader.decode (block.take 72)
    if isValidRowBlockHeader h = false ∨ h.blockSize ≠ block.length ∨ h.rowId ≠ rowId ∨
        h.columnHash ≠ H.hashString column then
      .fail (.corruption "row block header does not match requested row")
    else do
      let columnOffset := 72 + h.bucketCount * 48
      let keyBytesOffset := u64 (columnOffset + h.columnSize)
      let valueBytesOffset := u64 (keyBytesOffset + h.keyBytesSize)
      -- views of different lengths differ before a byte of them is read
      if h.columnSize ≠ column.length then
        .fail (.corruption "row block column does not match requested column")
      else do
        let storedColumn ← blockBytes block columnOffset h.columnSize
        if storedColumn ≠ column then
          .fail (.corruption "row block column does not match requested column")
        else do
          let entries ← decodeBuckets block h keyBytesOffset valueBytesOffset h.bucketCount 0
          if entries.length ≠ h.itemCount then
            .fail (.corruption "row block item count does not match key buckets")
          else return entries

end Decode

end LumoDB
