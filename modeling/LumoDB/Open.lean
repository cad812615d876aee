import LumoDB.RowIndex

namespace LumoDB
open ByteCodec Effects

def isValidFileHeader (magic : Bytes) (h : ValueFileHeader) : Bool :=
  h.magic = magic ∧ h.version = kStorageVersion ∧ h.headerSize = 24

section Migration

def isValidLegacyRecordHeader (h : LegacyValueRecordHeader) : Bool :=
  h.magic = kRecordMagic ∧ h.version = kStorageVersion ∧ h.headerSize = 48

/-- The chunk loop of the migration, with one round per buffer. -/
def copyLoop : Nat → Nat → Nat → Nat → Db Unit
  | 0, _, _, _ => pure ()
  | rounds + 1, remaining, source, destination =>
    if remaining = 0 then pure ()
    else do
      let chunkSize := min remaining (1024 * 1024)
      let chunk ← readAllAt .values source chunkSize
      writeAllAt .migrating destination chunk
      copyLoop rounds (remaining - chunkSize) (u64 (source + chunkSize)) (u64 (destination + chunkSize))

/-- The record loop of the migration. A record size that wraps to zero keeps
the loop at one offset for ever, so the rounds only run out then. -/
def migrateLoop (legacyFileSize : Nat) : Nat → Nat → Nat → Db Nat
  | 0, _, _ => .overflow
  | rounds + 1, sourceOffset, destinationOffset =>
    if sourceOffset < legacyFileSize then do
      let h := LegacyValueRecordHeader.decode (← readAllAt .values sourceOffset 48)
      if ¬ isValidLegacyRecordHeader h then
        .fail (.corruption "legacy value record header is invalid")
      else
        -- the first two sizes are 32-bit numbers, and so is their sum
        let recordDataSize := u64 ((h.columnSize + h.keySize) % 2 ^ 32 + h.valueSize)
        let legacyRecordSize := u64 (48 + recordDataSize)
        if legacyFileSize - sourceOffset < legacyRecordSize then
          .fail (.corruption "legacy value record extends beyond file size")
        else do
          let header : ValueRecordHeader :=
            { columnSize := h.columnSize
              keySize := h.keySize
              valueSize := h.valueSize }
          writeAllAt .migrating destinationOffset header.encode
          copyLoop (recordDataSize / (1024 * 1024) + 1) recordDataSize (u64 (sourceOffset + 48))
            (u64 (destinationOffset + 24))
          migrateLoop legacyFileSize rounds (u64 (sourceOffset + legacyRecordSize))
            (u64 (destinationOffset + 24 + recordDataSize))
    else return destinationOffset

def writeMigrationFile (legacyFileSize : Nat) : Db Nat := do
  truncateFile .migrating 0
  writeAllAt .migrating 0 { : ValueFileHeader }.encode
  let destinationOffset ← migrateLoop legacyFileSize (legacyFileSize + 1) 24 24
  syncFile .migrating
  return destinationOffset

def migrateLegacyValueFile (legacyFileSize : Nat) : Db Unit := do
  openReadWriteCreate .migrating
  let destinationOffset ← (writeMigrationFile legacyFileSize).orElse fun e => do
    resetDescriptor .migrating
    .fail e
  resetDescriptor .migrating
  resetDescriptor .values
  renameFile .migrating .values
  removeFile .index
  openReadWriteCreate .values
  setMembers fun m => { m with appendOffset := destinationOffset }

end Migration

section ValueFile

def setAppendOffset (offset : Nat) : Db Unit := setMembers fun m => { m with appendOffset := offset }

def openValueFile (readOnly : Bool) : Db Unit := do
  openAs readOnly .values
  let fileSize ← getFileSize .values
  if fileSize = 0 then
    if readOnly then .fail (.corruption "value file is empty")
    else do
      writeAllAt .values 0 { : ValueFileHeader }.encode
      setAppendOffset 24
  else if fileSize < 24 then .fail (.corruption "value file header is truncated")
  else do
    let h := ValueFileHeader.decode (← readAllAt .values 0 24)
    if isValidFileHeader kLegacyValueFileMagic h then
      if readOnly then
        .fail (.invalidArgument "legacy value file requires a read-write open for migration")
      else migrateLegacyValueFile fileSize
    else if ¬ isValidFileHeader kValueFileMagic h then
      .fail (.corruption "value file header is invalid")
    else do
      setAppendOffset fileSize
      if readOnly then mapReadOnly .values fileSize else pure ()

end ValueFile

section CheckedFile

/-- Maps a non-empty index file and checks it. The result says whether the
index has to be rebuilt. -/
def mapChecked (file : FileId) (hasValidLayout : Nat → Db Bool) (readOnly : Bool) (fileSize : Nat) : Db Bool :=
  if fileSize = 0 then return true
  else do
    mapAs readOnly file fileSize
    let valid ← hasValidLayout fileSize
    if valid then return false
    else do
      unmap file
      return true

/-- The two index files are opened alike: what the layout check rejects is
rebuilt, or refused when the database is opened for reading. -/
def openChecked (file : FileId) (emptyMessage invalidMessage : String) (hasValidLayout : Nat → Db Bool)
    (rebuild : Db Unit) (readOnly : Bool) : Db Unit := do
  openAs readOnly file
  let fileSize ← getFileSize file
  if readOnly ∧ fileSize = 0 then .fail (.corruption emptyMessage)
  else do
    let shouldRebuild ← mapChecked file hasValidLayout readOnly fileSize
    if ¬ shouldRebuild then pure ()
    else if readOnly then .fail (.corruption invalidMessage)
    else rebuild

end CheckedFile

section IndexFile
variable (H : HashFunctions)

def countFilled : Nat → Nat → Db Nat
  | 0, _ => return 0
  | rounds + 1, index => do
    let hash ← load .index (indexBucketOffset index) 8
    let later ← countFilled rounds (index + 1)
    return later + if hash ≠ 0 then 1 else 0

def hasValidIndexLayout (fileSize : Nat) : Db Bool :=
  if fileSize < 64 then return false
  else do
    let h := IndexFileHeader.decode (← loadBytes .index 0 64)
    if h.magic ≠ kIndexFileMagic ∨ h.version ≠ kStorageVersion ∨ h.headerSize ≠ 64 then return false
    else if h.bucketCount = 0 ∨ h.bucketCount &&& (h.bucketCount - 1) ≠ 0 then return false
    else if u64 (64 + h.bucketCount * 16) ≠ fileSize ∨ h.bucketCount < h.itemCount then return false
    else do
      let filledCount ← countFilled h.bucketCount 0
      return decide (filledCount = h.itemCount)

/-- One record of the scan. It returns the size of the record. -/
def rebuildRecord (fileSize offset : Nat) : Db Nat := do
  let h := ValueRecordHeader.decode (← readAllAt .values offset 24)
  if ¬ isValidRecordHeader h then .fail (.corruption "value record header is invalid")
  else
    let recordSize := u64 (24 + h.columnSize + h.keySize + h.valueSize)
    if fileSize - offset < recordSize then
      .fail (.corruption "value record extends beyond file size")
    else do
      let stored ← readRecordColumnKey offset h
      ensureCapacityForInsert 1
      let columnHash := H.hashString stored.1
      let keyHash := H.hashString stored.2
      let lookup ← findBucket H stored.1 stored.2 columnHash keyHash
      storeBucket lookup.index ⟨objectIndexHash H columnHash keyHash, offset⟩
      countUnless lookup.found
      return recordSize

/-- The scan of the value file. A record size that wraps to zero keeps the
loop at one offset for ever, so the rounds only run out then. -/
def rebuildLoop (fileSize : Nat) : Nat → Nat → Db Unit
  | 0, _ => .overflow
  | rounds + 1, offset =>
    if offset < fileSize then do
      let recordSize ← rebuildRecord H fileSize offset
      rebuildLoop fileSize rounds (u64 (offset + recordSize))
    else pure ()

def rebuildIndexFromValues : Db Unit := do
  let fileSize ← getFileSize .values
  rebuildLoop H fileSize (fileSize + 1) 24
  setAppendOffset fileSize

def createAndRebuildIndex : Db Unit := do
  let m ← getMembers
  createEmptyIndex m.options.initialBucketCount
  rebuildIndexFromValues H

def openIndexFile (readOnly : Bool) : Db Unit :=
  openChecked .index "index file is empty" "index file must be valid in read-only mode" hasValidIndexLayout
    (createAndRebuildIndex H) readOnly

end IndexFile

section RowValueFiles

def setRowAppendOffset (shardId offset : Nat) : Db Unit := setMembers (·.setAppendOffset shardId offset)

def openRowValueFile (readOnly : Bool) (shardId : Nat) : Db Unit := do
  openAs readOnly (.rowShard shardId)
  let fileSize ← getFileSize (.rowShard shardId)
  if fileSize = 0 then
    if readOnly then .fail (.corruption "row value file is empty")
    else do
      writeAllAt (.rowShard shardId) 0 rowValueFileHeader.encode
      setRowAppendOffset shardId 24
  else if fileSize < 24 then .fail (.corruption "row value file header is truncated")
  else do
    let h := ValueFileHeader.decode (← readAllAt (.rowShard shardId) 0 24)
    if ¬ isValidFileHeader kRowValueFileMagic h then
      .fail (.corruption "row value file header is invalid")
    else do
      setRowAppendOffset shardId fileSize
      if readOnly then mapReadOnly (.rowShard shardId) fileSize else pure ()

def openRowValueFileLoop (readOnly : Bool) : Nat → Nat → Db Unit
  | 0, _ => pure ()
  | rounds + 1, shardId => do
    openRowValueFile readOnly shardId
    openRowValueFileLoop readOnly rounds (shardId + 1)

def openRowValueFiles (readOnly : Bool) : Db Unit := do
  let m ← getMembers
  setMembers fun m => { m with
    rowShards := m.options.rowShardCount
    rowAppendOffsets := fun _ => 0 }
  openRowValueFileLoop readOnly m.options.rowShardCount 0

end RowValueFiles

section RowIndexFile
variable (H : HashFunctions) (retries : Nat)

def storeRowBucket (index : Nat) (bucket : RowIndexBucket) : Db Unit :=
  storeBytes .rowIndex (rowBucketOffset index) bucket.encode

def addRowItem : Db Unit := do
  let itemCount ← loadRowItemCount
  store .rowIndex 24 8 (itemCount + 1)

def addRowItemUnless (found : Bool) : Db Unit := if found then pure () else addRowItem

/-- The state check over all buckets, `none` for a state that is neither
Filled nor Empty. -/
def countRowFilled : Nat → Nat → Db (Option Nat)
  | 0, _ => return some 0
  | rounds + 1, index => do
    let state ← load .rowIndex (rowBucketOffset index) 4
    if state ≠ kRowBucketFilled ∧ state ≠ kRowBucketEmpty then return none
    else do
      let later ← countRowFilled rounds (index + 1)
      return later.map (· + if state = kRowBucketFilled then 1 else 0)

def hasValidRowIndexLayout (fileSize : Nat) : Db Bool := do
  let m ← getMembers
  if fileSize < 64 then return false
  else do
    let h := RowIndexFileHeader.decode (← loadBytes .rowIndex 0 64)
    if h.magic ≠ kRowIndexFileMagic ∨ h.version ≠ kStorageVersion ∨ h.headerSize ≠ 64 then return false
    else if h.shardCount ≠ m.options.rowShardCount ∨ h.bucketCount = 0 ∨
        h.bucketCount &&& (h.bucketCount - 1) ≠ 0 then return false
    else if u64 (64 + h.bucketCount * 64) ≠ fileSize ∨ h.bucketCount < h.itemCount then return false
    else do
      let filledCount ← countRowFilled h.bucketCount 0
      return decide (filledCount = some h.itemCount)

def createEmptyRowIndex (bucketCount : Nat) : Db Unit := do
  let m ← getMembers
  let bucketCount ← orOverflow (roundUpPowerOfTwo bucketCount)
  let fileSize := 64 + bucketCount * 64
  unmap .rowIndex
  truncateFile .rowIndex fileSize
  mapFile .rowIndex fileSize
  storeBytes .rowIndex 0 (List.replicate (u64 fileSize) 0)
  storeBytes .rowIndex 0
    { bucketCount := bucketCount, shardCount := m.options.rowShardCount : RowIndexFileHeader }.encode

def loadRowBucket (index : Nat) : Db RowIndexBucket := do
  return RowIndexBucket.decode (← loadBytes .rowIndex (rowBucketOffset index) 64)

def collectRowBuckets : Nat → Nat → Db (List RowIndexBucket)
  | 0, _ => return []
  | rounds + 1, index => do
    let bucket ← loadRowBucket index
    let later ← collectRowBuckets rounds (index + 1)
    return if bucket.state = kRowBucketFilled then bucket :: later else later

def placeRowBucketLoop (bucket : RowIndexBucket) (mask start : Nat) : Nat → Nat → Db Unit
  | 0, _ => .fail (.corruption "row index table is full during resize")
  | rounds + 1, probe => do
    let index := u64 (start + probe) &&& mask
    let present ← loadRowBucket index
    if present.state = kRowBucketEmpty then storeRowBucket index bucket
    else placeRowBucketLoop bucket mask start rounds (probe + 1)

def placeExistingRowBucket (bucket : RowIndexBucket) : Db Unit := do
  let bucketCount ← loadRowBucketCount
  let mask := u64 (bucketCount + 2 ^ 64 - 1)
  placeRowBucketLoop bucket mask (H.mixHashes bucket.columnHash bucket.rowId &&& mask) bucketCount 0

def placeRowBuckets : List RowIndexBucket → Db Unit
  | [] => pure ()
  | bucket :: later => do
    placeExistingRowBucket H bucket
    addRowItem
    placeRowBuckets later

def resizeRowIndex (newBucketCount : Nat) : Db Unit := do
  let bucketCount ← loadRowBucketCount
  let oldBuckets ← collectRowBuckets bucketCount 0
  let nextSequence ← load .rowIndex 32 8
  createEmptyRowIndex newBucketCount
  store .rowIndex 32 8 nextSequence
  placeRowBuckets H oldBuckets

/-- Unlike the object index, the row index doubles at most once. -/
def ensureRowCapacityForInsert : Db Unit := do
  let m ← getMembers
  let itemCount ← loadRowItemCount
  let bucketCount ← loadRowBucketCount
  if (u64 (itemCount + 1) : ℚ) ≤ m.options.maxLoadFactor * bucketCount then pure ()
  else resizeRowIndex H (u64 (bucketCount * 2))

/-- One block of the scan. It returns the header of the block. -/
def rebuildRowBlock (shardId fileSize offset : Nat) : Db RowBlockHeader := do
  let h := RowBlockHeader.decode (← readAllAt (.rowShard shardId) offset 72)
  if ¬ isValidRowBlockHeader h then .fail (.corruption "row block header is invalid")
  else if fileSize - offset < h.blockSize then
    .fail (.corruption "row block extends beyond file size")
  else do
    let column ← readRowBlockColumn shardId offset h
    ensureRowCapacityForInsert H
    let lookup ← findRowBucket H column h.rowId h.columnHash retries
    storeRowBucket lookup.index
      { state := kRowBucketFilled
        columnHash := h.columnHash
        rowId := h.rowId
        shardId := shardId
        blockOffset := offset
        blockSize := h.blockSize
        sequence := h.sequence }
    addRowItemUnless lookup.found
    return h

/-- The scan of one shard. It returns the sequence after the largest seen. -/
def rebuildRowLoop (shardId fileSize : Nat) : Nat → Nat → Nat → Db Nat
  | 0, _, _ => .overflow
  | rounds + 1, offset, nextSequence =>
    if offset < fileSize then do
      let h ← rebuildRowBlock H retries shardId fileSize offset
      rebuildRowLoop shardId fileSize rounds (u64 (offset + h.blockSize))
        (max nextSequence (u64 (h.sequence + 1)))
    else return nextSequence

def rebuildShards : Nat → Nat → Nat → Db Nat
  | 0, _, nextSequence => return nextSequence
  | rounds + 1, shardId, nextSequence => do
    let fileSize ← getFileSize (.rowShard shardId)
    let nextSequence ← rebuildRowLoop H retries shardId fileSize (fileSize + 1) 24 nextSequence
    setRowAppendOffset shardId fileSize
    rebuildShards rounds (shardId + 1) nextSequence

def rebuildRowIndexFromValues : Db Unit := do
  let m ← getMembers
  let nextSequence ← rebuildShards H retries m.rowShards 0 1
  store .rowIndex 32 8 nextSequence

def createAndRebuildRowIndex : Db Unit := do
  let m ← getMembers
  createEmptyRowIndex m.options.initialRowBucketCount
  rebuildRowIndexFromValues H retries

def openRowIndexFile (readOnly : Bool) : Db Unit :=
  openChecked .rowIndex "row index file is empty" "row index file must be valid in read-only mode"
    hasValidRowIndexLayout (createAndRebuildRowIndex H retries) readOnly

end RowIndexFile

section Session
variable (H : HashFunctions) (retries : Nat)

def syncRowValueFiles : Nat → Nat → Db Unit
  | 0, _ => pure ()
  | rounds + 1, shardId => do
    syncFile (.rowShard shardId)
    syncRowValueFiles rounds (shardId + 1)

def syncIf (valid : Bool) (file : FileId) : Db Unit := if valid then syncFile file else pure ()

def flush : Db Unit := do
  let m ← getMembers
  if m.readOnly then pure ()
  else if (m.maps .index).isNone then pure ()
  else do
    syncFile .values
    syncRowValueFiles m.rowShards 0
    msyncFile .rowIndex
    syncIf (m.descriptors .rowIndex) .rowIndex
    msyncFile .index
    syncFile .index

def Members.closed (m : Members) : Members :=
  { m with
    descriptors := fun _ => false
    maps := fun _ => none
    rowShards := 0
    rowAppendOffsets := fun _ => 0
    rowPendingInsertCount := 0
    appendOffset := 0 }

def closeFiles : Db Unit := setMembers Members.closed

def close : Db Unit := do
  let m ← getMembers
  if ¬ m.isOpen ∧ ¬ m.descriptors .values ∧ ¬ m.descriptors .index then pure ()
  else do
    flush.orElse fun e => do
      closeFiles
      setMembers fun m => { m with isOpen := false, readOnly := false }
      .fail e
    closeFiles
    setMembers fun m => { m with isOpen := false, readOnly := false }

def closeIf (isOpen : Bool) : Db Unit := if isOpen then close else pure ()

def closingOnError (p : Db Unit) : Db Unit :=
  p.orElse fun e => do
    closeFiles
    .fail e

/-- The options as they are kept, with both bucket counts rounded up. -/
def DatabaseOptions.rounded (options : DatabaseOptions) : Option DatabaseOptions :=
  match roundUpPowerOfTwo options.initialBucketCount,
    roundUpPowerOfTwo options.initialRowBucketCount with
  | some initialBucketCount, some initialRowBucketCount =>
    some { options with
      initialBucketCount := initialBucketCount
      initialRowBucketCount := initialRowBucketCount }
  | _, _ => none

def openDirectory (readOnly : Bool) : Db Unit :=
  if readOnly then do
    let present ← isDirectory
    if present then pure ()
    else .fail (.invalidArgument "database directory does not exist")
  else ensureDirectory

def openFiles (readOnly : Bool) : Db Unit := do
  openValueFile readOnly
  openIndexFile H readOnly
  openRowValueFiles readOnly
  openRowIndexFile H retries readOnly

def openInternal (options : DatabaseOptions) (readOnly : Bool) : Db Unit := do
  let m ← getMembers
  closeIf m.isOpen
  if options.maxLoadFactor ≤ 0 ∨ 95 / 100 ≤ options.maxLoadFactor then
    .fail (.invalidArgument "maxLoadFactor must be in (0.0, 0.95)")
  else do
    let rounded ← orOverflow options.rounded
    setMembers fun m => { m with
      options := rounded
      readOnly := readOnly
      rowPendingInsertCount := 0 }
    if options.rowShardCount = 0 then
      .fail (.invalidArgument "rowShardCount must be greater than zero")
    else do
      openDirectory readOnly
      closingOnError (openFiles H retries readOnly)
      setMembers fun m => { m with isOpen := true }

/-- `Database::Open`. -/
def openReadWrite (options : DatabaseOptions) : Db Unit := openInternal H retries options false

/-- `Database::OpenReadOnly`. -/
def openReadOnly (options : DatabaseOptions) : Db Unit := openInternal H retries options true

end Session

end LumoDB
