import LumoDB.Lib.Bytes
import Mathlib.Tactic.NormNum

namespace LumoDB
open ByteCodec

def kValueFileMagic : Bytes := [0x4C, 0x55, 0x4D, 0x56, 0x30, 0x30, 0x30, 0x32]

def kLegacyValueFileMagic : Bytes := [0x4C, 0x55, 0x4D, 0x56, 0x30, 0x30, 0x30, 0x31]

def kIndexFileMagic : Bytes := [0x4C, 0x55, 0x4D, 0x49, 0x30, 0x30, 0x30, 0x32]

def kRowValueFileMagic : Bytes := [0x4C, 0x55, 0x4D, 0x52, 0x56, 0x30, 0x30, 0x31]

def kRowIndexFileMagic : Bytes := [0x4C, 0x55, 0x4D, 0x52, 0x49, 0x30, 0x30, 0x32]

def kStorageVersion : Nat := 1

def kRecordMagic : Nat := 0x43455256

def kRowBlockMagic : Nat := 0x424C4F52

def kBucketEmpty : Nat := 0

def kBucketFilled : Nat := 1

def kRowBucketEmpty : Nat := 0

def kRowBucketFilled : Nat := 1

def kRowBucketWriting : Nat := 2

/-- The header of `values.lumov` and, with its own magic, of a shard file. -/
structure ValueFileHeader where
  magic : Bytes := kValueFileMagic
  version : Nat := kStorageVersion
  headerSize : Nat := 24
  reserved : Nat := 0
  deriving DecidableEq

def ValueFileHeader.encode (h : ValueFileHeader) : Bytes :=
  h.magic ++ (leBytes 4 h.version ++ (leBytes 4 h.headerSize ++ leBytes 8 h.reserved))

def ValueFileHeader.decode (bs : Bytes) : ValueFileHeader where
  magic := slice bs 0 8
  version := natAt bs 8 4
  headerSize := natAt bs 12 4
  reserved := natAt bs 16 8

def rowValueFileHeader : ValueFileHeader := { magic := kRowValueFileMagic }

structure ValueRecordHeader where
  magic : Nat := kRecordMagic
  version : Nat := kStorageVersion
  headerSize : Nat := 24
  columnSize : Nat := 0
  keySize : Nat := 0
  valueSize : Nat := 0
  deriving DecidableEq

def ValueRecordHeader.encode (h : ValueRecordHeader) : Bytes :=
  leBytes 4 h.magic ++ (leBytes 2 h.version ++ (leBytes 2 h.headerSize ++
    (leBytes 4 h.columnSize ++ (leBytes 4 h.keySize ++ leBytes 8 h.valueSize))))

def ValueRecordHeader.decode (bs : Bytes) : ValueRecordHeader where
  magic := natAt bs 0 4
  version := natAt bs 4 2
  headerSize := natAt bs 6 2
  columnSize := natAt bs 8 4
  keySize := natAt bs 12 4
  valueSize := natAt bs 16 8

structure LegacyValueRecordHeader where
  magic : Nat := kRecordMagic
  version : Nat := kStorageVersion
  headerSize : Nat := 48
  sequence : Nat := 0
  columnHash : Nat := 0
  keyHash : Nat := 0
  columnSize : Nat := 0
  keySize : Nat := 0
  valueSize : Nat := 0
  deriving DecidableEq

def LegacyValueRecordHeader.encode (h : LegacyValueRecordHeader) : Bytes :=
  leBytes 4 h.magic ++ (leBytes 2 h.version ++ (leBytes 2 h.headerSize ++ (leBytes 8 h.sequence ++
    (leBytes 8 h.columnHash ++ (leBytes 8 h.keyHash ++ (leBytes 4 h.columnSize ++ (leBytes 4 h.keySize ++
      leBytes 8 h.valueSize)))))))

def LegacyValueRecordHeader.decode (bs : Bytes) : LegacyValueRecordHeader where
  magic := natAt bs 0 4
  version := natAt bs 4 2
  headerSize := natAt bs 6 2
  sequence := natAt bs 8 8
  columnHash := natAt bs 16 8
  keyHash := natAt bs 24 8
  columnSize := natAt bs 32 4
  keySize := natAt bs 36 4
  valueSize := natAt bs 40 8

structure IndexFileHeader where
  magic : Bytes := kIndexFileMagic
  version : Nat := kStorageVersion
  headerSize : Nat := 64
  bucketCount : Nat := 0
  itemCount : Nat := 0
  nextSequence : Nat := 1
  deriving DecidableEq

def IndexFileHeader.encode (h : IndexFileHeader) : Bytes :=
  h.magic ++ (leBytes 4 h.version ++ (leBytes 4 h.headerSize ++ (leBytes 8 h.bucketCount ++
    (leBytes 8 h.itemCount ++ (leBytes 8 h.nextSequence ++ List.replicate 24 0)))))

def IndexFileHeader.decode (bs : Bytes) : IndexFileHeader where
  magic := slice bs 0 8
  version := natAt bs 8 4
  headerSize := natAt bs 12 4
  bucketCount := natAt bs 16 8
  itemCount := natAt bs 24 8
  nextSequence := natAt bs 32 8

structure IndexBucket where
  hash : Nat := 0
  recordOffset : Nat := 0
  deriving DecidableEq

def IndexBucket.encode (b : IndexBucket) : Bytes := leBytes 8 b.hash ++ leBytes 8 b.recordOffset

def IndexBucket.decode (bs : Bytes) : IndexBucket where
  hash := natAt bs 0 8
  recordOffset := natAt bs 8 8

structure RowIndexFileHeader where
  magic : Bytes := kRowIndexFileMagic
  version : Nat := kStorageVersion
  headerSize : Nat := 64
  bucketCount : Nat := 0
  itemCount : Nat := 0
  nextSequence : Nat := 1
  shardCount : Nat := 0
  deriving DecidableEq

def RowIndexFileHeader.encode (h : RowIndexFileHeader) : Bytes :=
  h.magic ++ (leBytes 4 h.version ++ (leBytes 4 h.headerSize ++ (leBytes 8 h.bucketCount ++
    (leBytes 8 h.itemCount ++ (leBytes 8 h.nextSequence ++ (leBytes 4 h.shardCount ++
      List.replicate 20 0))))))

def RowIndexFileHeader.decode (bs : Bytes) : RowIndexFileHeader where
  magic := slice bs 0 8
  version := natAt bs 8 4
  headerSize := natAt bs 12 4
  bucketCount := natAt bs 16 8
  itemCount := natAt bs 24 8
  nextSequence := natAt bs 32 8
  shardCount := natAt bs 40 4

structure RowIndexBucket where
  state : Nat := kRowBucketEmpty
  shardId : Nat := 0
  columnHash : Nat := 0
  rowId : Nat := 0
  blockOffset : Nat := 0
  blockSize : Nat := 0
  sequence : Nat := 0
  deriving DecidableEq

def RowIndexBucket.encode (b : RowIndexBucket) : Bytes :=
  leBytes 4 b.state ++ (leBytes 4 b.shardId ++ (leBytes 8 b.columnHash ++ (leBytes 8 b.rowId ++
    (leBytes 8 b.blockOffset ++ (leBytes 8 b.blockSize ++ (leBytes 8 b.sequence ++
      List.replicate 16 0))))))

def RowIndexBucket.decode (bs : Bytes) : RowIndexBucket where
  state := natAt bs 0 4
  shardId := natAt bs 4 4
  columnHash := natAt bs 8 8
  rowId := natAt bs 16 8
  blockOffset := natAt bs 24 8
  blockSize := natAt bs 32 8
  sequence := natAt bs 40 8

structure RowBlockHeader where
  magic : Nat := kRowBlockMagic
  version : Nat := kStorageVersion
  headerSize : Nat := 72
  sequence : Nat := 0
  columnHash : Nat := 0
  rowId : Nat := 0
  columnSize : Nat := 0
  itemCount : Nat := 0
  bucketCount : Nat := 0
  keyBytesSize : Nat := 0
  valueBytesSize : Nat := 0
  blockSize : Nat := 0
  deriving DecidableEq

def RowBlockHeader.encode (h : RowBlockHeader) : Bytes :=
  leBytes 4 h.magic ++ (leBytes 2 h.version ++ (leBytes 2 h.headerSize ++ (leBytes 8 h.sequence ++
    (leBytes 8 h.columnHash ++ (leBytes 8 h.rowId ++ (leBytes 4 h.columnSize ++
      (leBytes 4 h.itemCount ++ (leBytes 4 h.bucketCount ++ (leBytes 4 0 ++
        (leBytes 8 h.keyBytesSize ++ (leBytes 8 h.valueBytesSize ++ leBytes 8 h.blockSize)))))))))))

def RowBlockHeader.decode (bs : Bytes) : RowBlockHeader where
  magic := natAt bs 0 4
  version := natAt bs 4 2
  headerSize := natAt bs 6 2
  sequence := natAt bs 8 8
  columnHash := natAt bs 16 8
  rowId := natAt bs 24 8
  columnSize := natAt bs 32 4
  itemCount := natAt bs 36 4
  bucketCount := natAt bs 40 4
  keyBytesSize := natAt bs 48 8
  valueBytesSize := natAt bs 56 8
  blockSize := natAt bs 64 8

structure RowKeyBucket where
  state : Nat := kBucketEmpty
  keyHash : Nat := 0
  keyOffset : Nat := 0
  keySize : Nat := 0
  valueOffset : Nat := 0
  valueSize : Nat := 0
  deriving DecidableEq

def RowKeyBucket.encode (b : RowKeyBucket) : Bytes :=
  leBytes 1 b.state ++ (leBytes 7 0 ++ (leBytes 8 b.keyHash ++ (leBytes 8 b.keyOffset ++
    (leBytes 8 b.keySize ++ (leBytes 8 b.valueOffset ++ leBytes 8 b.valueSize)))))

def RowKeyBucket.decode (bs : Bytes) : RowKeyBucket where
  state := natAt bs 0 1
  keyHash := natAt bs 8 8
  keyOffset := natAt bs 16 8
  keySize := natAt bs 24 8
  valueOffset := natAt bs 32 8
  valueSize := natAt bs 40 8

section Lengths

@[simp] theorem ValueFileHeader.encode_length (h : ValueFileHeader) (magic : h.magic.length = 8) :
    h.encode.length = 24 := by simp [encode, magic]

@[simp] theorem ValueRecordHeader.encode_length (h : ValueRecordHeader) : h.encode.length = 24 := by
  simp [encode]

@[simp] theorem LegacyValueRecordHeader.encode_length (h : LegacyValueRecordHeader) : h.encode.length = 48 := by
  simp [encode]

@[simp] theorem IndexBucket.encode_length (b : IndexBucket) : b.encode.length = 16 := by simp [encode]

@[simp] theorem RowIndexBucket.encode_length (b : RowIndexBucket) : b.encode.length = 64 := by
  simp [encode]

@[simp] theorem RowBlockHeader.encode_length (h : RowBlockHeader) : h.encode.length = 72 := by
  simp [encode]

@[simp] theorem RowKeyBucket.encode_length (b : RowKeyBucket) : b.encode.length = 48 := by
  simp [encode]

@[simp] theorem IndexFileHeader.encode_length (h : IndexFileHeader) (magic : h.magic.length = 8) :
    h.encode.length = 64 := by simp [encode, magic]

@[simp] theorem RowIndexFileHeader.encode_length (h : RowIndexFileHeader) (magic : h.magic.length = 8) :
    h.encode.length = 64 := by simp [encode, magic]

end Lengths

section RoundTrips

theorem ValueFileHeader.decode_encode (h : ValueFileHeader) (magic : h.magic.length = 8) :
    decode h.encode =
      ⟨h.magic, h.version % 256 ^ 4, h.headerSize % 256 ^ 4, h.reserved % 256 ^ 8⟩ := by
  have front : slice h.encode 0 8 = h.magic := by
    simp only [slice, List.drop_zero, encode]
    exact List.take_left' magic
  simp only [decode, front]
  simp [encode, natAt_append_right, magic]

theorem ValueRecordHeader.decode_encode (h : ValueRecordHeader) :
    decode h.encode =
      ⟨h.magic % 256 ^ 4, h.version % 256 ^ 2, h.headerSize % 256 ^ 2, h.columnSize % 256 ^ 4,
        h.keySize % 256 ^ 4, h.valueSize % 256 ^ 8⟩ := by
  simp [decode, encode, natAt_append_right]

theorem ValueRecordHeader.encode_decode {bs : Bytes} (length : bs.length = 24) :
    (ValueRecordHeader.decode bs).encode = bs := by
  simp only [encode, decode]
  rw [leBytes_natAt (by omega), leBytes_natAt (by omega), leBytes_natAt (by omega), leBytes_natAt (by omega),
    leBytes_natAt (by omega), leBytes_natAt (by omega), ← slice_add bs 12 4 8, ← slice_add bs 8 4 (4 + 8),
    ← slice_add bs 6 2 (4 + (4 + 8)), ← slice_add bs 4 2 (2 + (4 + (4 + 8))),
    ← slice_add bs 0 4 (2 + (2 + (4 + (4 + 8))))]
  have whole := slice_self bs
  rwa [length] at whole

theorem LegacyValueRecordHeader.decode_encode (h : LegacyValueRecordHeader) :
    decode h.encode =
      ⟨h.magic % 256 ^ 4, h.version % 256 ^ 2, h.headerSize % 256 ^ 2, h.sequence % 256 ^ 8, h.columnHash % 256 ^ 8,
        h.keyHash % 256 ^ 8, h.columnSize % 256 ^ 4, h.keySize % 256 ^ 4, h.valueSize % 256 ^ 8⟩ := by
  simp [decode, encode, natAt_append_right]

theorem IndexBucket.decode_encode (b : IndexBucket) :
    decode b.encode = ⟨b.hash % 256 ^ 8, b.recordOffset % 256 ^ 8⟩ := by
  simp [decode, encode, natAt_append_right]

theorem IndexFileHeader.decode_encode (h : IndexFileHeader) (magic : h.magic.length = 8) :
    decode h.encode =
      ⟨h.magic, h.version % 256 ^ 4, h.headerSize % 256 ^ 4, h.bucketCount % 256 ^ 8,
        h.itemCount % 256 ^ 8, h.nextSequence % 256 ^ 8⟩ := by
  have front : slice h.encode 0 8 = h.magic := by
    simp only [slice, List.drop_zero, encode]
    exact List.take_left' magic
  simp only [decode, front]
  simp [encode, natAt_append_right, magic]

theorem RowIndexFileHeader.decode_encode (h : RowIndexFileHeader) (magic : h.magic.length = 8) :
    decode h.encode =
      ⟨h.magic, h.version % 256 ^ 4, h.headerSize % 256 ^ 4, h.bucketCount % 256 ^ 8,
        h.itemCount % 256 ^ 8, h.nextSequence % 256 ^ 8, h.shardCount % 256 ^ 4⟩ := by
  have front : slice h.encode 0 8 = h.magic := by
    simp only [slice, List.drop_zero, encode]
    exact List.take_left' magic
  simp only [decode, front]
  simp [encode, natAt_append_right, magic]

theorem RowIndexBucket.decode_encode (b : RowIndexBucket) :
    decode b.encode =
      ⟨b.state % 256 ^ 4, b.shardId % 256 ^ 4, b.columnHash % 256 ^ 8, b.rowId % 256 ^ 8,
        b.blockOffset % 256 ^ 8, b.blockSize % 256 ^ 8, b.sequence % 256 ^ 8⟩ := by
  simp [decode, encode, natAt_append_right]

theorem RowBlockHeader.decode_encode (h : RowBlockHeader) :
    decode h.encode =
      ⟨h.magic % 256 ^ 4, h.version % 256 ^ 2, h.headerSize % 256 ^ 2, h.sequence % 256 ^ 8,
        h.columnHash % 256 ^ 8, h.rowId % 256 ^ 8, h.columnSize % 256 ^ 4, h.itemCount % 256 ^ 4,
        h.bucketCount % 256 ^ 4, h.keyBytesSize % 256 ^ 8, h.valueBytesSize % 256 ^ 8,
        h.blockSize % 256 ^ 8⟩ := by
  simp [decode, encode, natAt_append_right]

theorem RowKeyBucket.decode_encode (b : RowKeyBucket) :
    decode b.encode =
      ⟨b.state % 256 ^ 1, b.keyHash % 256 ^ 8, b.keyOffset % 256 ^ 8, b.keySize % 256 ^ 8,
        b.valueOffset % 256 ^ 8, b.valueSize % 256 ^ 8⟩ := by
  simp [decode, encode, natAt_append_right]

end RoundTrips

end LumoDB
