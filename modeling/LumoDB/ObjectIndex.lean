import LumoDB.File
import LumoDB.Lib.Doubles
import LumoDB.StorageFormat

namespace LumoDB
open ByteCodec Effects

def kMinimumBucketCount : Nat := 16

/-- The doubling loop of `RoundUpPowerOfTwo`. The shift turns the number into
zero after 60 rounds, and the loop then never ends. -/
def roundUpLoop : Nat → Nat → Nat → Option Nat
  | 0, _, _ => none
  | rounds + 1, value, result =>
    if result < value then roundUpLoop rounds value (u64 (result * 2)) else some result

def roundUpPowerOfTwo (value : Nat) : Option Nat := roundUpLoop 64 value kMinimumBucketCount

def fitsUint32 (size : Nat) : Bool := size ≤ 2 ^ 32 - 1

/-- A value that exists unless a 64-bit loop never ends. -/
def orOverflow {α : Type} : Option α → Db α
  | some a => .ret a
  | none => .overflow

structure StructEntry where
  key : Bytes
  flatBufferBytes : Bytes
  deriving DecidableEq

structure BucketLookup where
  index : Nat
  found : Bool

section Header

def indexBucketOffset (index : Nat) : Nat := 64 + 16 * index

def loadBucketCount : Db Nat := load .index 16 8

def loadItemCount : Db Nat := load .index 24 8

def incrementItemCount : Db Unit := do
  let itemCount ← loadItemCount
  store .index 24 8 (itemCount + 1)

def countUnless (found : Bool) : Db Unit := if found then pure () else incrementItemCount

def loadNextSequence : Db Nat := load .index 32 8

def storeNextSequence (nextSequence : Nat) : Db Unit := store .index 32 8 nextSequence

def loadBucket (index : Nat) : Db IndexBucket := do
  return IndexBucket.decode (← loadBytes .index (indexBucketOffset index) 16)

def storeBucket (index : Nat) (bucket : IndexBucket) : Db Unit :=
  storeBytes .index (indexBucketOffset index) bucket.encode

end Header

section Records

def readValueAt (offset size : Nat) : Db Bytes := do
  let m ← getMembers
  match m.maps .values with
  | none => readAllAt .values offset size
  | some mapping =>
    if mapping.size < offset ∨ mapping.size - offset < size then
      .fail (.corruption "value read extends beyond file size")
    else if size ≠ 0 then loadBytes .values offset size
    else return []

def isValidRecordHeader (h : ValueRecordHeader) : Bool :=
  h.magic = kRecordMagic ∧ h.version = kStorageVersion ∧ h.headerSize = 24

def readRecordHeader (recordOffset : Nat) : Db ValueRecordHeader := do
  return ValueRecordHeader.decode (← readValueAt recordOffset 24)

def readRecordColumnKey (recordOffset : Nat) (h : ValueRecordHeader) : Db (Bytes × Bytes) := do
  let column ← readValueAt (u64 (recordOffset + 24)) h.columnSize
  let key ← readValueAt (u64 (recordOffset + 24 + h.columnSize)) h.keySize
  return (column, key)

def recordMatches (bucket : IndexBucket) (column key : Bytes) : Db Bool := do
  let h ← readRecordHeader bucket.recordOffset
  if isValidRecordHeader h then
    if h.columnSize ≠ column.length ∨ h.keySize ≠ key.length then return false
    else do
      let stored ← readRecordColumnKey bucket.recordOffset h
      return decide (stored.1 = column ∧ stored.2 = key)
  else .fail (.corruption "index points to an invalid value record")

end Records

section Probing
variable (H : HashFunctions)

/-- The probe loop of `FindBucket` with `rounds` probes left. -/
def findBucketLoop (column key : Bytes) (hash mask : Nat) : Nat → Nat → Db BucketLookup
  | 0, _ => .fail (.corruption "index table is full")
  | rounds + 1, probe => do
    let index := u64 ((hash &&& mask) + probe) &&& mask
    let bucket ← loadBucket index
    if bucket.hash = 0 then return ⟨index, false⟩
    else if bucket.hash ≠ hash then findBucketLoop column key hash mask rounds (probe + 1)
    else do
      let isMatch ← recordMatches bucket column key
      if isMatch then return ⟨index, true⟩
      else findBucketLoop column key hash mask rounds (probe + 1)

def findBucket (column key : Bytes) (columnHash keyHash : Nat) : Db BucketLookup := do
  let bucketCount ← loadBucketCount
  findBucketLoop column key (objectIndexHash H columnHash keyHash) (u64 (bucketCount + 2 ^ 64 - 1))
    bucketCount 0

/-- The probe loop that `PlaceExistingBucket` and `PlaceNewBucket` share. -/
def placeBucketLoop (message : String) (bucket : IndexBucket) (mask : Nat) : Nat → Nat → Db Unit
  | 0, _ => .fail (.corruption message)
  | rounds + 1, probe => do
    let index := u64 ((bucket.hash &&& mask) + probe) &&& mask
    let present ← loadBucket index
    if present.hash = 0 then storeBucket index bucket
    else placeBucketLoop message bucket mask rounds (probe + 1)

def placeBucket (message : String) (bucket : IndexBucket) : Db Unit := do
  let bucketCount ← loadBucketCount
  placeBucketLoop message bucket (u64 (bucketCount + 2 ^ 64 - 1)) bucketCount 0

def placeExistingBucket (bucket : IndexBucket) : Db Unit :=
  placeBucket "index table is full during resize" bucket

def placeNewBucket (bucket : IndexBucket) : Db Unit :=
  placeBucket "index table is full during unique insert" bucket

end Probing

section Capacity

def createEmptyIndex (bucketCount : Nat) : Db Unit := do
  let bucketCount ← orOverflow (roundUpPowerOfTwo bucketCount)
  let fileSize := 64 + bucketCount * 16
  unmap .index
  truncateFile .index fileSize
  mapFile .index fileSize
  storeBytes .index 0 (List.replicate (u64 fileSize) 0)
  storeBytes .index 0 { bucketCount := bucketCount : IndexFileHeader }.encode

def collectBuckets : Nat → Nat → Db (List IndexBucket)
  | 0, _ => return []
  | rounds + 1, index => do
    let bucket ← loadBucket index
    let later ← collectBuckets rounds (index + 1)
    return if bucket.hash ≠ 0 then bucket :: later else later

def placeBuckets : List IndexBucket → Db Unit
  | [] => pure ()
  | bucket :: later => do
    placeExistingBucket bucket
    incrementItemCount
    placeBuckets later

def resizeIndex (newBucketCount : Nat) : Db Unit := do
  let bucketCount ← loadBucketCount
  let oldBuckets ← collectBuckets bucketCount 0
  let nextSequence ← loadNextSequence
  createEmptyIndex newBucketCount
  storeNextSequence nextSequence
  placeBuckets oldBuckets

/-- The `double` a 64-bit number is converted to. -/
def toDouble (v : Nat) : Nat := Doubles.rounded 53 v

/-- The growth loop of `EnsureCapacityForInsert`, which no longer ends once
the doubled count has wrapped to zero. The quotient it compares is exact, since
the bucket count is a power of two. -/
def growBucketCount (maxLoadFactor : ℚ) (itemCount : Nat) : Nat → Nat → Option Nat
  | 0, _ => none
  | rounds + 1, bucketCount =>
    if maxLoadFactor * bucketCount < toDouble itemCount then
      growBucketCount maxLoadFactor itemCount rounds (u64 (bucketCount * 2))
    else some bucketCount

def ensureCapacityForInsert (insertCount : Nat) : Db Unit := do
  let m ← getMembers
  let bucketCount ← loadBucketCount
  let itemCount ← loadItemCount
  let grown ← orOverflow
    (growBucketCount m.options.maxLoadFactor (u64 (itemCount + insertCount)) 66 bucketCount)
  if grown = bucketCount then pure () else resizeIndex grown

end Capacity

section Calls
variable (H : HashFunctions)

structure PendingRecord where
  header : ValueRecordHeader
  key : Bytes
  value : Bytes
  keyHash : Nat
  recordOffset : Nat
  recordSize : Nat

/-- The records of a batch with their offsets, and the offset after them. -/
def pendingRecords (column : Bytes) : List StructEntry → Nat → List PendingRecord × Nat
  | [], nextAppendOffset => ([], nextAppendOffset)
  | entry :: later, nextAppendOffset =>
    let recordSize := u64 (24 + column.length + entry.key.length + entry.flatBufferBytes.length)
    let rest := pendingRecords column later (u64 (nextAppendOffset + recordSize))
    ({ header :=
        { columnSize := column.length
          keySize := entry.key.length
          valueSize := entry.flatBufferBytes.length }
       key := entry.key
       value := entry.flatBufferBytes
       keyHash := H.hashString entry.key
       recordOffset := nextAppendOffset
       recordSize := recordSize } :: rest.1, rest.2)

def PendingRecord.slices (column : Bytes) (r : PendingRecord) : List Bytes :=
  [r.header.encode, column, r.key, r.value]

def indexRecord (column : Bytes) (columnHash : Nat) (keysAreUnique : Bool) (r : PendingRecord) :
    Db Unit := do
  let bucket : IndexBucket := ⟨objectIndexHash H columnHash r.keyHash, r.recordOffset⟩
  if keysAreUnique then do
    placeNewBucket bucket
    incrementItemCount
  else do
    let lookup ← findBucket H column r.key columnHash r.keyHash
    storeBucket lookup.index bucket
    countUnless lookup.found

def indexRecords (column : Bytes) (columnHash : Nat) (keysAreUnique : Bool) :
    List PendingRecord → Db Unit
  | [] => pure ()
  | r :: later => do
    indexRecord H column columnHash keysAreUnique r
    indexRecords column columnHash keysAreUnique later

def writeStructs (column : Bytes) (entries : List StructEntry) (keysAreUnique : Bool) : Db Unit := do
  let m ← getMembers
  if ¬ m.isOpen then .fail (.notOpen "database is not open")
  else if m.readOnly then .fail (.invalidArgument "database is read-only")
  else if ¬ fitsUint32 column.length then
    .fail (.invalidArgument "column must fit in uint32 length")
  else if entries = [] then pure ()
  else if ¬ entries.all (fun entry => fitsUint32 entry.key.length) then
    .fail (.invalidArgument "key must fit in uint32 length")
  else do
    ensureCapacityForInsert entries.length
    let columnHash := H.hashString column
    let pending := pendingRecords H column entries m.appendOffset
    writeAllAt .values m.appendOffset (pending.1.flatMap (PendingRecord.slices column)).flatten
    indexRecords H column columnHash keysAreUnique pending.1
    setMembers fun m => { m with appendOffset := pending.2 }

def putStructs (column : Bytes) (entries : List StructEntry) : Db Unit :=
  writeStructs H column entries false

def putUniqueStructs (column : Bytes) (entries : List StructEntry) : Db Unit :=
  writeStructs H column entries true

def putStruct (column key flatBufferBytes : Bytes) : Db Unit :=
  putStructs H column [⟨key, flatBufferBytes⟩]

/-- The column of the string API, "\x1FLumoDB:string". -/
def kStringColumn : Bytes :=
  [0x1F, 0x4C, 0x75, 0x6D, 0x6F, 0x44, 0x42, 0x3A, 0x73, 0x74, 0x72, 0x69, 0x6E, 0x67]

def put (key value : Bytes) : Db Unit := putStruct H kStringColumn key value

def getStruct (column key : Bytes) : Db Bytes := do
  let m ← getMembers
  if ¬ m.isOpen then .fail (.notOpen "database is not open")
  else do
    let columnHash := H.hashString column
    let keyHash := H.hashString key
    let lookup ← findBucket H column key columnHash keyHash
    if ¬ lookup.found then .fail (.notFound "key not found")
    else do
      let bucket ← loadBucket lookup.index
      let h ← readRecordHeader bucket.recordOffset
      if isValidRecordHeader h then
        readValueAt (u64 (bucket.recordOffset + 24 + h.columnSize + h.keySize)) h.valueSize
      else .fail (.corruption "index points to an invalid value record")

def get (key : Bytes) : Db Bytes := getStruct H kStringColumn key

def getManyLoop (column : Bytes) : List Bytes → Db (List Bytes)
  | [] => return []
  | key :: later => do
    let value ← getStruct H column key
    let values ← getManyLoop column later
    return value :: values

def getMany (column : Bytes) (keys : List Bytes) : Db (List Bytes) := do
  let m ← getMembers
  if ¬ m.isOpen then .fail (.notOpen "database is not open") else getManyLoop H column keys

def entryCount : Db Nat := do
  let m ← getMembers
  if (m.maps .index).isNone then return 0 else loadItemCount

def bucketCount : Db Nat := do
  let m ← getMembers
  if (m.maps .index).isNone then return 0 else loadBucketCount

end Calls

end LumoDB
