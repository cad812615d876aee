import LumoDB.RowBlock

namespace LumoDB
open ByteCodec Effects

structure RowBucketData where
  columnHash : Nat
  rowId : Nat
  shardId : Nat
  blockOffset : Nat
  blockSize : Nat
  sequence : Nat
  deriving DecidableEq

/-- The snapshot of a bucket with its state: only a Filled bucket has data. -/
inductive RowBucketSnapshot where
  | empty
  | writing
  | filled (bucket : RowIndexBucket)
  deriving DecidableEq

structure RowBucketLookup where
  index : Nat
  found : Bool
  bucket : RowIndexBucket := {}
  blockHeader : RowBlockHeader := {}

section Header

def rowBucketOffset (index : Nat) : Nat := 64 + 64 * index

def loadRowBucketCount : Db Nat := load .rowIndex 16 8

def loadRowItemCount : Db Nat := load .rowIndex 24 8

def incrementRowItemCount : Db Unit := do
  let _ ← .perform (S := signature) (.fetchAdd .rowIndex 24 8 1)
  pure ()

def countIf (inserted : Bool) : Db Unit := if inserted then incrementRowItemCount else pure ()

def nextRowSequence : Db Nat := .perform (S := signature) (.fetchAdd .rowIndex 32 8 1)

def casRowBucketState (index expected desired : Nat) : Db Bool :=
  .perform (S := signature) (.cas .rowIndex (rowBucketOffset index) 4 expected desired)

def storeRowBucketState (index state : Nat) : Db Unit := store .rowIndex (rowBucketOffset index) 4 state

end Header

section Reservation

def loadPending : Db Nat := .perform (S := signature) .pendingLoad

def casPending (expected desired : Nat) : Db Bool :=
  .perform (S := signature) (.pendingCas expected desired)

/-- The error of `ReserveRowIndexInsertSlot`. -/
def capacityExceeded : Status := .invalidArgument "row index capacity exceeded; increase initialRowBucketCount"

/-- The compare-exchange loop of `ReserveRowIndexInsertSlot`, with a bound on
the number of attempts. -/
def reserveLoop (maxLoadFactor : ℚ) (bucketCount : Nat) : Nat → Db Unit
  | 0 => .spin
  | retries + 1 => do
    let itemCount ← loadRowItemCount
    let pending ← loadPending
    if maxLoadFactor * bucketCount < u64 (itemCount + pending + 1) then
      .fail capacityExceeded
    else do
      let exchanged ← casPending pending (u64 (pending + 1))
      if exchanged then pure () else reserveLoop maxLoadFactor bucketCount retries

def reserveRowIndexInsertSlot (retries : Nat) : Db Unit := do
  let m ← getMembers
  let bucketCount ← loadRowBucketCount
  reserveLoop m.options.maxLoadFactor bucketCount retries

def reserveIf (reserveInsertSlot : Bool) (retries : Nat) : Db Unit :=
  if reserveInsertSlot then reserveRowIndexInsertSlot retries else pure ()

def releaseRowIndexInsertSlot : Db Unit := .perform (S := signature) (.pendingSub 1)

end Reservation

section Blocks

def readRowValueAt (shardId offset size : Nat) : Db Bytes := do
  let m ← getMembers
  if m.rowShards ≤ shardId then .fail (.corruption "row index points to an invalid shard")
  else
    match m.maps (.rowShard shardId) with
    | none => readAllAt (.rowShard shardId) offset size
    | some mapping =>
      if mapping.size < offset ∨ mapping.size - offset < size then
        .fail (.corruption "row value read extends beyond file size")
      else if size ≠ 0 then loadBytes (.rowShard shardId) offset size
      else return []

def readRowBlockHeader (shardId blockOffset : Nat) : Db RowBlockHeader := do
  return RowBlockHeader.decode (← readRowValueAt shardId blockOffset 72)

def readRowBlockColumn (shardId blockOffset : Nat) (h : RowBlockHeader) : Db Bytes :=
  readRowValueAt shardId (u64 (blockOffset + 72 + h.bucketCount * 48)) h.columnSize

/-- The header of the bucket's block, if the block is one of `column`. -/
def rowBlockMatches (bucket : RowIndexBucket) (column : Bytes) (rowId : Nat) :
    Db (Option RowBlockHeader) := do
  let m ← getMembers
  if m.rowShards ≤ bucket.shardId then .fail (.corruption "row index points to an invalid shard")
  else do
    let h ← readRowBlockHeader bucket.shardId bucket.blockOffset
    if isValidRowBlockHeader h = false ∨ h.columnHash ≠ bucket.columnHash ∨ h.rowId ≠ rowId ∨
        h.blockSize ≠ bucket.blockSize then
      .fail (.corruption "row index points to an invalid row block")
    else if h.columnSize ≠ column.length then return none
    else do
      let storedColumn ← readRowBlockColumn bucket.shardId bucket.blockOffset h
      return if storedColumn = column then some h else none

def loadRowBlock (bucket : RowIndexBucket) : Db Bytes := do
  let m ← getMembers
  if m.rowShards ≤ bucket.shardId then .fail (.corruption "row index points to an invalid shard")
  else readRowValueAt bucket.shardId bucket.blockOffset bucket.blockSize

end Blocks

section Snapshots

def loadRowBucketSnapshot (index : Nat) : Db RowBucketSnapshot := do
  let offset := rowBucketOffset index
  let state ← load .rowIndex offset 4
  if state = kRowBucketEmpty then return .empty
  else if state = kRowBucketWriting then return .writing
  else if state ≠ kRowBucketFilled then .fail (.corruption "row index bucket state is invalid")
  else do
    let shardId ← load .rowIndex (offset + 4) 4
    let columnHash ← load .rowIndex (offset + 8) 8
    let rowId ← load .rowIndex (offset + 16) 8
    let blockOffset ← load .rowIndex (offset + 24) 8
    let blockSize ← load .rowIndex (offset + 32) 8
    let sequence ← load .rowIndex (offset + 40) 8
    let stateAfter ← load .rowIndex offset 4
    if stateAfter ≠ kRowBucketFilled then return .writing
    else return (.filled
      { state := kRowBucketFilled
        shardId := shardId
        columnHash := columnHash
        rowId := rowId
        blockOffset := blockOffset
        blockSize := blockSize
        sequence := sequence })

def loadFilledRowBucketSnapshot (index : Nat) : Nat → Db RowIndexBucket
  | 0 => .spin
  | retries + 1 => do
    match ← loadRowBucketSnapshot index with
    | .filled bucket => return bucket
    | .empty => .fail (.corruption "row index bucket is empty")
    | .writing => loadFilledRowBucketSnapshot index retries

def loadFilledRowBucketSnapshotIfPresent (index : Nat) : Nat → Db (Option RowIndexBucket)
  | 0 => .spin
  | retries + 1 => do
    match ← loadRowBucketSnapshot index with
    | .filled bucket => return some bucket
    | .empty => return none
    | .writing => loadFilledRowBucketSnapshotIfPresent index retries

def storeRowBucketData (index : Nat) (data : RowBucketData) : Db Unit := do
  let offset := rowBucketOffset index
  store .rowIndex (offset + 4) 4 data.shardId
  store .rowIndex (offset + 8) 8 data.columnHash
  store .rowIndex (offset + 16) 8 data.rowId
  store .rowIndex (offset + 24) 8 data.blockOffset
  store .rowIndex (offset + 32) 8 data.blockSize
  store .rowIndex (offset + 40) 8 data.sequence

end Snapshots

section Probing
variable (H : HashFunctions)

/-- One pass of `InsertOrUpdateRowBucket` over the probe sequence. It returns
whether it inserted, or `none` where the source sets `retry`. -/
def insertOrUpdatePass (column : Bytes) (data : RowBucketData) (mask start : Nat) :
    Nat → Nat → Db (Option Bool)
  | 0, _ => .fail (.corruption "row index table is full")
  | rounds + 1, probe => do
    let index := u64 (start + probe) &&& mask
    match ← loadRowBucketSnapshot index with
    | .empty => do
      let claimed ← casRowBucketState index kRowBucketEmpty kRowBucketWriting
      if claimed then do
        storeRowBucketData index data
        storeRowBucketState index kRowBucketFilled
        return some true
      else return none
    | .writing => return none
    | .filled bucket =>
      if bucket.columnHash ≠ data.columnHash ∨ bucket.rowId ≠ data.rowId then
        insertOrUpdatePass column data mask start rounds (probe + 1)
      else do
        match ← rowBlockMatches bucket column data.rowId with
        | none => insertOrUpdatePass column data mask start rounds (probe + 1)
        | some _ => do
          let claimed ← casRowBucketState index kRowBucketFilled kRowBucketWriting
          if claimed then do
            storeRowBucketData index data
            storeRowBucketState index kRowBucketFilled
            return some false
          else return none

def insertOrUpdateLoop (column : Bytes) (data : RowBucketData) (bucketCount : Nat) : Nat → Db Bool
  | 0 => .spin
  | retries + 1 => do
    let mask := u64 (bucketCount + 2 ^ 64 - 1)
    let start := H.mixHashes data.columnHash data.rowId &&& mask
    match ← insertOrUpdatePass column data mask start bucketCount 0 with
    | some inserted => return inserted
    | none => insertOrUpdateLoop column data bucketCount retries

def insertOrUpdateRowBucket (column : Bytes) (data : RowBucketData) (retries : Nat) : Db Bool := do
  let bucketCount ← loadRowBucketCount
  insertOrUpdateLoop H column data bucketCount retries

/-- One pass of `FindRowBucket`, `none` where the source sets `retry`. -/
def findRowPass (column : Bytes) (rowId columnHash mask start : Nat) :
    Nat → Nat → Db (Option RowBucketLookup)
  | 0, _ => .fail (.corruption "row index table is full")
  | rounds + 1, probe => do
    let index := u64 (start + probe) &&& mask
    match ← loadRowBucketSnapshot index with
    | .empty => return some { index := index, found := false }
    | .writing => return none
    | .filled bucket =>
      if bucket.columnHash ≠ columnHash ∨ bucket.rowId ≠ rowId then
        findRowPass column rowId columnHash mask start rounds (probe + 1)
      else do
        match ← rowBlockMatches bucket column rowId with
        | none => findRowPass column rowId columnHash mask start rounds (probe + 1)
        | some h => return some { index := index, found := true, bucket := bucket, blockHeader := h }

def findRowLoop (column : Bytes) (rowId columnHash bucketCount : Nat) : Nat → Db RowBucketLookup
  | 0 => .spin
  | retries + 1 => do
    let mask := u64 (bucketCount + 2 ^ 64 - 1)
    let start := H.mixHashes columnHash rowId &&& mask
    match ← findRowPass column rowId columnHash mask start bucketCount 0 with
    | some lookup => return lookup
    | none => findRowLoop column rowId columnHash bucketCount retries

def findRowBucket (column : Bytes) (rowId columnHash retries : Nat) : Db RowBucketLookup := do
  let bucketCount ← loadRowBucketCount
  findRowLoop H column rowId columnHash bucketCount retries

def shardForRow (columnHash rowId : Nat) : Db Nat := do
  let m ← getMembers
  return H.mixHashes columnHash rowId % m.rowShards

/-- The probe loop of `FindValueInRowBlockAt`. -/
def findValueLoop (bucket : RowIndexBucket) (h : RowBlockHeader) (key : Bytes)
    (keyHash mask start keyBytesOffset valueBytesOffset : Nat) : Nat → Nat → Db Bytes
  | 0, _ => .fail (.notFound "key not found in row")
  | rounds + 1, probe => do
    let bucketIndex := u64 (start + probe) &&& mask
    let keyBucket := RowKeyBucket.decode
      (← readRowValueAt bucket.shardId (u64 (bucket.blockOffset + 72 + bucketIndex * 48)) 48)
    if keyBucket.state = kBucketEmpty then .fail (.notFound "key not found in row")
    else if keyBucket.state ≠ kBucketFilled then
      .fail (.corruption "row key bucket state is invalid")
    else if keyBucket.keyHash ≠ keyHash ∨ keyBucket.keySize ≠ key.length then
      findValueLoop bucket h key keyHash mask start keyBytesOffset valueBytesOffset rounds (probe + 1)
    else if h.keyBytesSize < keyBucket.keyOffset ∨
        h.keyBytesSize - keyBucket.keyOffset < keyBucket.keySize ∨
        h.valueBytesSize < keyBucket.valueOffset ∨
        h.valueBytesSize - keyBucket.valueOffset < keyBucket.valueSize then
      .fail (.corruption "row key bucket points outside block")
    else do
      let storedKey ← readRowValueAt bucket.shardId
        (u64 (bucket.blockOffset + keyBytesOffset + keyBucket.keyOffset)) key.length
      if storedKey ≠ key then
        findValueLoop bucket h key keyHash mask start keyBytesOffset valueBytesOffset rounds (probe + 1)
      else
        readRowValueAt bucket.shardId
          (u64 (bucket.blockOffset + valueBytesOffset + keyBucket.valueOffset)) keyBucket.valueSize

def findValueInRowBlockAt (bucket : RowIndexBucket) (h : RowBlockHeader) (key : Bytes) : Db Bytes := do
  let m ← getMembers
  if m.rowShards ≤ bucket.shardId then .fail (.corruption "row index points to an invalid shard")
  else if isValidRowBlockHeader h = false ∨ h.blockSize ≠ bucket.blockSize then
    .fail (.corruption "row index points to an invalid row block")
  else
    let columnOffset := 72 + h.bucketCount * 48
    let keyBytesOffset := u64 (columnOffset + h.columnSize)
    let valueBytesOffset := u64 (keyBytesOffset + h.keyBytesSize)
    let keyHash := H.hashString key
    let mask := h.bucketCount - 1
    findValueLoop bucket h key keyHash mask (H.mixHashes keyHash h.rowId &&& mask) keyBytesOffset
      valueBytesOffset h.bucketCount 0

end Probing

section Calls
variable (H : HashFunctions) (retries : Nat)

/-- The entries of a stored row, `none` if the row is not stored. -/
def loadRowEntries (column : Bytes) (rowId columnHash : Nat) : Db (Option (List RowStructEntry)) := do
  let lookup ← findRowBucket H column rowId columnHash retries
  if ¬ lookup.found then return none
  else do
    let bucket ← loadFilledRowBucketSnapshot lookup.index retries
    let block ← loadRowBlock bucket
    let entries ← decodeRowBlockEntries H block column rowId
    return some entries

def releaseIf (reserved : Bool) : Db Unit :=
  if reserved then releaseRowIndexInsertSlot else pure ()

/-- Releases the reservation of a call that goes on to return an error. -/
def releasing {α : Type} (reserved : Bool) (p : Db α) : Db α :=
  p.orElse fun e => do
    releaseIf reserved
    .fail e

def writeRowStructs (column : Bytes) (rowId : Nat) (entries : List RowStructEntry)
    (reserveInsertSlot : Bool) : Db Unit := do
  let m ← getMembers
  if ¬ m.isOpen then .fail (.notOpen "database is not open")
  else if m.readOnly then .fail (.invalidArgument "database is read-only")
  else if ¬ fitsUint32 column.length then
    .fail (.invalidArgument "column must fit in uint32 length")
  else if entries = [] then .fail (.invalidArgument "row entries must not be empty")
  else do
    let columnHash := H.hashString column
    reserveIf reserveInsertSlot retries
    let sequence ← nextRowSequence
    let layout ← releasing reserveInsertSlot
      (buildRowBlockLayout H m.options.maxLoadFactor column rowId entries sequence columnHash)
    let shardId ← shardForRow H columnHash rowId
    let blockOffset ← .perform (S := signature) (.appendFetchAdd shardId layout.header.blockSize)
    releasing reserveInsertSlot
      (writeAllAt (.rowShard shardId) blockOffset (layout.slices column).flatten)
    let inserted ← releasing reserveInsertSlot
      (insertOrUpdateRowBucket H column
        { columnHash := columnHash
          rowId := rowId
          shardId := shardId
          blockOffset := blockOffset
          blockSize := layout.header.blockSize
          sequence := sequence } retries)
    countIf inserted
    releaseIf reserveInsertSlot

def putRowStructs (column : Bytes) (rowId : Nat) (entries : List RowStructEntry) : Db Unit :=
  writeRowStructs H retries column rowId entries true

/-- Replaces the value of the first entry with the given key, or appends an
entry. -/
def mergeEntry (key flatBufferBytes : Bytes) : List RowStructEntry → List RowStructEntry
  | [] => [⟨key, flatBufferBytes⟩]
  | entry :: later =>
    if entry.key = key then ⟨entry.key, flatBufferBytes⟩ :: later
    else entry :: mergeEntry key flatBufferBytes later

def putRowStruct (column : Bytes) (rowId : Nat) (key flatBufferBytes : Bytes) : Db Unit := do
  let m ← getMembers
  if ¬ m.isOpen then .fail (.notOpen "database is not open")
  else if m.readOnly then .fail (.invalidArgument "database is read-only")
  else if ¬ fitsUint32 column.length ∨ ¬ fitsUint32 key.length then
    .fail (.invalidArgument "column and key must fit in uint32 length")
  else do
    let stored ← loadRowEntries H retries column rowId (H.hashString column)
    writeRowStructs H retries column rowId (mergeEntry key flatBufferBytes (stored.getD []))
      stored.isNone

def getRowStruct (column : Bytes) (rowId : Nat) (key : Bytes) : Db Bytes := do
  let m ← getMembers
  if ¬ m.isOpen then .fail (.notOpen "database is not open")
  else do
    let lookup ← findRowBucket H column rowId (H.hashString column) retries
    if ¬ lookup.found then .fail (.notFound "row not found")
    else findValueInRowBlockAt H lookup.bucket lookup.blockHeader key

def rowCount : Db Nat := do
  let m ← getMembers
  if (m.maps .rowIndex).isNone then return 0 else loadRowItemCount

def rowBucketCount : Db Nat := do
  let m ← getMembers
  if (m.maps .rowIndex).isNone then return 0 else loadRowBucketCount

end Calls

end LumoDB
