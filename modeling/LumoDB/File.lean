import LumoDB.Lib.Bytes
import LumoDB.Lib.Program
import LumoDB.Hash
import LumoDB.Status
import Mathlib.Data.Rat.Floor

namespace LumoDB
open ByteCodec Effects

/-- The files of a database directory. `migrating` is the temporary file of
a migration, `rowShard n` the file `row_values-n.lumorv`. -/
inductive FileId where
  | values
  | migrating
  | index
  | rowIndex
  | rowShard (shardId : Nat)
  deriving DecidableEq, Repr

def FileId.fileName : FileId → String
  | values => "values.lumov"
  | migrating => "values.lumov.migrating"
  | index => "index.lumoi"
  | rowIndex => "row_index.lumori"
  | rowShard shardId =>
    let digits := toString shardId
    "row_values-" ++ String.ofList (List.replicate (3 - digits.length) '0') ++ digits ++ ".lumorv"

inductive DirectoryKind where
  | absent
  | directory
  | other
  deriving DecidableEq, Repr

theorem eightShards_lt : 8 < 2 ^ 32 := by decide

theorem oneShard_lt : 1 < 2 ^ 32 := by decide

theorem twoShards_lt : 2 < 2 ^ 32 := by decide

structure DatabaseOptions where
  initialBucketCount : Nat := 65536
  initialRowBucketCount : Nat := 65536
  rowShardCount : Nat := 8
  maxLoadFactor : ℚ := 4 / 5
  rowShardCount_lt : rowShardCount < 2 ^ 32 := by first | exact eightShards_lt | decide
  deriving DecidableEq

/-- A shared mapping of the first `size` bytes of a file. -/
structure Mapping where
  size : Nat
  writable : Bool
  deriving DecidableEq, Repr

/-- The data members of an open database. `descriptors` and `maps` stand for
its file descriptors and mappings, `rowShards` for `rowValueFiles_.size()`. -/
structure Members where
  options : DatabaseOptions := {}
  descriptors : FileId → Bool := fun _ => false
  maps : FileId → Option Mapping := fun _ => none
  rowShards : Nat := 0
  rowAppendOffsets : Nat → Nat := fun _ => 0
  rowPendingInsertCount : Nat := 0
  appendOffset : Nat := 0
  isOpen : Bool := false
  readOnly : Bool := false

/-- The directory, which outlives the process, and the process's members. -/
structure World where
  directory : DirectoryKind := .absent
  disk : FileId → Option Bytes := fun _ => none
  members : Members := {}

/-- The state a new process starts from: the files as they are left. -/
def World.reboot (w : World) : World := { w with members := {} }

/-- The atomic operations: system calls, accesses to mapped memory, and
accesses to the members. Sizes and offsets are wrapped when the operation is
carried out, so that a program shows the sum it computed. -/
inductive Op where
  | members
  | setMembers (f : Members → Members)
  | isDirectory
  | ensureDirectory
  | openFile (file : FileId) (create : Bool)
  | closeFile (file : FileId)
  | fileSize (file : FileId)
  | truncate (file : FileId) (size : Nat)
  | readAt (file : FileId) (offset size : Nat)
  | writeAt (file : FileId) (offset : Nat) (data : Bytes)
  | sync (file : FileId)
  | rename (source target : FileId)
  | remove (file : FileId)
  | map (file : FileId) (size : Nat) (writable : Bool)
  | unmap (file : FileId)
  | msync (file : FileId)
  | load (file : FileId) (offset width : Nat)
  | loadBytes (file : FileId) (offset size : Nat)
  | store (file : FileId) (offset width value : Nat)
  | storeBytes (file : FileId) (offset : Nat) (data : Bytes)
  | cas (file : FileId) (offset width expected desired : Nat)
  | fetchAdd (file : FileId) (offset width amount : Nat)
  | appendFetchAdd (shardId amount : Nat)
  | pendingLoad
  | pendingCas (expected desired : Nat)
  | pendingSub (amount : Nat)

abbrev Op.Resp : Op → Type
  | .members => Members
  | .setMembers _ => Unit
  | .isDirectory => Bool
  | .ensureDirectory => Except Status Unit
  | .openFile _ _ => Except Status Unit
  | .closeFile _ => Unit
  | .fileSize _ => Except Status Nat
  | .truncate _ _ => Except Status Unit
  | .readAt _ _ _ => Except Status Bytes
  | .writeAt _ _ _ => Except Status Unit
  | .sync _ => Except Status Unit
  | .rename _ _ => Except Status Unit
  | .remove _ => Except Status Unit
  | .map _ _ _ => Except Status Unit
  | .unmap _ => Unit
  | .msync _ => Except Status Unit
  | .load _ _ _ => Nat
  | .loadBytes _ _ _ => Bytes
  | .store _ _ _ _ => Unit
  | .storeBytes _ _ _ => Unit
  | .cas _ _ _ _ _ => Bool
  | .fetchAdd _ _ _ _ => Nat
  | .appendFetchAdd _ _ => Nat
  | .pendingLoad => Nat
  | .pendingCas _ _ => Bool
  | .pendingSub _ => Unit

abbrev signature : Signature := ⟨Op, Op.Resp⟩

abbrev Db (α : Type) := Prog signature Status α

namespace World

def setFile (w : World) (file : FileId) (content : Option Bytes) : World :=
  { w with disk := Function.update w.disk file content }

def setMembers (w : World) (f : Members → Members) : World := { w with members := f w.members }

/-- The bytes of a mapped file, when the `size` bytes at `offset` lie inside
the mapping and inside the file. -/
def mapped (w : World) (file : FileId) (offset size : Nat) : Option Bytes :=
  match w.members.maps file, w.disk file with
  | some mapping, some bytes =>
    if offset + size ≤ mapping.size ∧ offset + size ≤ bytes.length then some bytes else none
  | _, _ => none

def writable (w : World) (file : FileId) : Bool :=
  match w.members.maps file with
  | some mapping => mapping.writable
  | none => false

end World

def Members.setDescriptor (m : Members) (file : FileId) (valid : Bool) : Members :=
  { m with descriptors := Function.update m.descriptors file valid }

def Members.setMap (m : Members) (file : FileId) (mapping : Option Mapping) : Members :=
  { m with maps := Function.update m.maps file mapping }

def Members.setAppendOffset (m : Members) (shardId offset : Nat) : Members :=
  { m with rowAppendOffsets := Function.update m.rowAppendOffsets shardId offset }

def Members.addAppendOffset (m : Members) (shardId amount : Nat) : Members :=
  m.setAppendOffset shardId (u64 (m.rowAppendOffsets shardId + amount))

def Members.setPending (m : Members) (count : Nat) : Members :=
  { m with rowPendingInsertCount := count }

def truncateBytes (bytes : Bytes) (size : Nat) : Bytes :=
  bytes.take size ++ List.replicate (size - bytes.length) 0

/-- The operations on a machine whose system calls succeed whenever the
kernel accepts their arguments. Offsets and sizes from `2 ^ 63` on are
negative for the kernel and refused. -/
def system : Handler signature World
  | .members, w => some (w.members, w)
  | .setMembers f, w => some ((), w.setMembers f)
  | .isDirectory, w => some (decide (w.directory = .directory), w)
  | .ensureDirectory, w =>
    match w.directory with
    | .directory => some (.ok (), w)
    | .absent => some (.ok (), { w with directory := .directory })
    | .other => some (.error (.invalidArgument "is not a directory"), w)
  | .openFile file create, w =>
    match w.disk file with
    | some _ => some (.ok (), w.setMembers (·.setDescriptor file true))
    | none =>
      if create then some (.ok (), (w.setFile file (some [])).setMembers (·.setDescriptor file true))
      else some (.error (.ioError ("open " ++ file.fileName ++ ": No such file or directory")), w)
  | .closeFile file, w => some ((), w.setMembers (·.setDescriptor file false))
  | .fileSize file, w =>
    match w.disk file with
    | some bytes => some (.ok bytes.length, w)
    | none => some (.error (.ioError "fstat: Bad file descriptor"), w)
  | .truncate file size, w =>
    match w.disk file with
    | some bytes =>
      if u64 size < 2 ^ 63 then some (.ok (), w.setFile file (some (truncateBytes bytes (u64 size))))
      else some (.error (.ioError "ftruncate: Invalid argument"), w)
    | none => some (.error (.ioError "ftruncate: Bad file descriptor"), w)
  | .readAt file offset size, w =>
    match w.disk file with
    | some bytes =>
      if size = 0 then some (.ok [], w)
      else if 2 ^ 63 ≤ u64 offset + size then some (.error (.ioError "pread: Invalid argument"), w)
      else if u64 offset + size ≤ bytes.length then some (.ok (slice bytes (u64 offset) size), w)
      else some (.error (.corruption "unexpected end of file"), w)
    | none => some (.error (.ioError "pread: Bad file descriptor"), w)
  | .writeAt file offset data, w =>
    match w.disk file with
    | some bytes =>
      if data = [] then some (.ok (), w)
      else if u64 offset + data.length < 2 ^ 63 then
        some (.ok (), w.setFile file (some (patch bytes (u64 offset) data)))
      else some (.error (.ioError "pwrite: Invalid argument"), w)
    | none => some (.error (.ioError "pwrite: Bad file descriptor"), w)
  | .sync _, w => some (.ok (), w)
  | .rename source target, w =>
    match w.disk source with
    | some bytes => some (.ok (), (w.setFile target (some bytes)).setFile source none)
    | none => some (.error (.ioError "rename: No such file or directory"), w)
  | .remove file, w => some (.ok (), w.setFile file none)
  | .map file size writable, w =>
    if u64 size = 0 then
      some (.error (.invalidArgument "cannot mmap an empty file"), w.setMembers (·.setMap file none))
    else some (.ok (), w.setMembers (·.setMap file (some ⟨u64 size, writable⟩)))
  | .unmap file, w => some ((), w.setMembers (·.setMap file none))
  | .msync file, w =>
    match w.members.maps file with
    | none => some (.ok (), w)
    | some mapping =>
      if mapping.writable then some (.ok (), w)
      else some (.error (.invalidArgument "cannot sync a read-only mapping"), w)
  | .load file offset width, w =>
    (w.mapped file offset width).map fun bytes => (natAt bytes offset width, w)
  | .loadBytes file offset size, w =>
    (w.mapped file offset size).map fun bytes => (slice bytes offset size, w)
  | .store file offset width value, w =>
    match w.mapped file offset width, w.writable file with
    | some bytes, true => some ((), w.setFile file (some (patch bytes offset (leBytes width value))))
    | _, _ => none
  | .storeBytes file offset data, w =>
    match w.mapped file offset data.length, w.writable file with
    | some bytes, true => some ((), w.setFile file (some (patch bytes offset data)))
    | _, _ => none
  | .cas file offset width expected desired, w =>
    match w.mapped file offset width, w.writable file with
    | some bytes, true =>
      if natAt bytes offset width = expected then
        some (true, w.setFile file (some (patch bytes offset (leBytes width desired))))
      else some (false, w)
    | _, _ => none
  | .fetchAdd file offset width amount, w =>
    match w.mapped file offset width, w.writable file with
    | some bytes, true =>
      some (natAt bytes offset width,
        w.setFile file (some (patch bytes offset (leBytes width (natAt bytes offset width + amount)))))
    | _, _ => none
  | .appendFetchAdd shardId amount, w =>
    some (w.members.rowAppendOffsets shardId, w.setMembers (·.addAppendOffset shardId amount))
  | .pendingLoad, w => some (w.members.rowPendingInsertCount, w)
  | .pendingCas expected desired, w =>
    if w.members.rowPendingInsertCount = expected then
      some (true, w.setMembers (·.setPending (u64 desired)))
    else some (false, w)
  | .pendingSub amount, w =>
    some ((), w.setMembers (·.setPending (u64 (w.members.rowPendingInsertCount + 2 ^ 64 - amount))))

/-- No size or offset of an operation reaches `2 ^ 63`. -/
def Op.Fits : Op → Prop
  | .truncate _ size => size < 2 ^ 63
  | .writeAt _ offset data => offset + data.length < 2 ^ 63
  | .map _ size _ => size < 2 ^ 63
  | _ => True

instance : (o : Op) → Decidable o.Fits
  | .truncate _ size => inferInstanceAs (Decidable (size < 2 ^ 63))
  | .writeAt _ offset data => inferInstanceAs (Decidable (offset + data.length < 2 ^ 63))
  | .map _ size _ => inferInstanceAs (Decidable (size < 2 ^ 63))
  | .members | .setMembers _ | .isDirectory | .ensureDirectory | .openFile _ _ | .closeFile _ | .fileSize _
  | .readAt _ _ _ | .sync _ | .rename _ _ | .remove _ | .unmap _ | .msync _ | .load _ _ _ | .loadBytes _ _ _
  | .store _ _ _ _ | .storeBytes _ _ _ | .cas _ _ _ _ _ | .fetchAdd _ _ _ _ | .appendFetchAdd _ _ | .pendingLoad
  | .pendingCas _ _ | .pendingSub _ => isTrue trivial

/-- A write can be cut short: a prefix of its bytes is in the file. -/
def Op.Partial : Op → World → World → Prop
  | .writeAt file offset data, w, t => ∃ bytes count, w.disk file = some bytes ∧
      count ≤ data.length ∧ u64 offset + data.length < 2 ^ 63 ∧ 0 < count ∧
      t = w.setFile file (some (patch bytes (u64 offset) (data.take count)))
  | _, _, _ => False

section Calls

/-- An operation with a status: an error ends the program. -/
def checked {α : Type} : Except Status α → Db α
  | .ok a => .ret a
  | .error e => .fail e

def getMembers : Db Members := .perform (S := signature) .members

def setMembers (f : Members → Members) : Db Unit := .perform (S := signature) (.setMembers f)

def isDirectory : Db Bool := .perform (S := signature) .isDirectory

def ensureDirectory : Db Unit := .op (S := signature) .ensureDirectory checked

def openReadWriteCreate (file : FileId) : Db Unit :=
  .op (S := signature) (.openFile file true) checked

def openForReading (file : FileId) : Db Unit :=
  .op (S := signature) (.openFile file false) checked

def openAs (readOnly : Bool) (file : FileId) : Db Unit :=
  if readOnly then openForReading file else openReadWriteCreate file

def resetDescriptor (file : FileId) : Db Unit := .perform (S := signature) (.closeFile file)

def getFileSize (file : FileId) : Db Nat := .op (S := signature) (.fileSize file) checked

def truncateFile (file : FileId) (size : Nat) : Db Unit :=
  .op (S := signature) (.truncate file size) checked

def readAllAt (file : FileId) (offset size : Nat) : Db Bytes :=
  .op (S := signature) (.readAt file offset size) checked

def writeAllAt (file : FileId) (offset : Nat) (data : Bytes) : Db Unit :=
  .op (S := signature) (.writeAt file offset data) checked

def syncFile (file : FileId) : Db Unit := .op (S := signature) (.sync file) checked

def renameFile (source target : FileId) : Db Unit :=
  .op (S := signature) (.rename source target) checked

def removeFile (file : FileId) : Db Unit := .op (S := signature) (.remove file) checked

def mapFile (file : FileId) (size : Nat) : Db Unit :=
  .op (S := signature) (.map file size true) checked

def mapReadOnly (file : FileId) (size : Nat) : Db Unit :=
  .op (S := signature) (.map file size false) checked

def mapAs (readOnly : Bool) (file : FileId) (size : Nat) : Db Unit :=
  if readOnly then mapReadOnly file size else mapFile file size

def unmap (file : FileId) : Db Unit := .perform (S := signature) (.unmap file)

def msyncFile (file : FileId) : Db Unit := .op (S := signature) (.msync file) checked

def load (file : FileId) (offset width : Nat) : Db Nat := .perform (S := signature) (.load file offset width)

def loadBytes (file : FileId) (offset size : Nat) : Db Bytes :=
  .perform (S := signature) (.loadBytes file offset size)

def store (file : FileId) (offset width value : Nat) : Db Unit :=
  .perform (S := signature) (.store file offset width value)

def storeBytes (file : FileId) (offset : Nat) (data : Bytes) : Db Unit :=
  .perform (S := signature) (.storeBytes file offset data)

end Calls

end LumoDB
