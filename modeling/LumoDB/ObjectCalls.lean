import LumoDB.ObjectStore

namespace LumoDB
open ByteCodec Effects LinearProbing

/-- What every call on a database opened for writing may rely on. -/
structure Serving (w : World) : Prop where
  isOpen : w.members.isOpen = true
  writable : w.members.readOnly = false
  load : LoadFactorOk w.members.options.maxLoadFactor

def valueFileBytes (log : ObjectLog) : Bytes := { : ValueFileHeader }.encode ++ encodeLog log

/-- A value file `v` and an index `b` that are read together, and the map `m`
they represent. -/
structure ObjectView (H : HashFunctions) (w : World) (v b : Bytes) (n : Nat) (slot : Nat → Option ObjectKey)
    (off : ObjectKey → Nat) (m : ObjectKey → Option Bytes) : Prop where
  reads : ReadsValues w v
  sees : w.Sees .index b
  mapped : w.members.maps .index ≠ none
  table : IndexTable H b n slot off
  represents : Represents v n slot off m

section View
variable {H : HashFunctions} {w : World} {v b : Bytes} {n : Nat} {slot : Nat → Option ObjectKey}
  {off : ObjectKey → Nat} {m : ObjectKey → Option Bytes} {k : ObjectKey}

/-- `GetStruct` of a pair that is held returns its value. -/
theorem ObjectView.getStruct {value : Bytes} (view : ObjectView H w v b n slot off m)
    (isOpen : w.members.isOpen = true) (held : m k = some value) : Runs (getStruct H k.1 k.2) w value w := by
  obtain ⟨stored, record⟩ := (view.represents k).2 value held
  have reads := view.reads
  have inside := record.inside
  have small := reads.small
  obtain ⟨lookup, found, looked⟩ := view.table.findBucket view.represents.located view.sees reads k
  unfold Runs LumoDB.getStruct
  rw [Prog.bind_eq, (getMembers_runs w).bind, if_neg (by rw [isOpen]; decide)]
  simp only [Prog.bind_eq]
  rw [found.bind]
  cases present : lookup.found with
  | false =>
    have reported := (looked.stored_iff view.table.table.arranged).mp stored
    rw [present] at reported
    cases reported
  | true =>
    have loaded := view.table.toIndexFile.loadBucket view.sees looked.inside
    rw [view.table.stored _ looked.inside k (looked.found present)] at loaded
    rw [if_neg (by decide), loaded.bind, (readRecordHeader_runs reads record).bind,
      if_pos (isValidRecordHeader_default _ _ _)]
    have read := @readValueAt_runs w _ (off k + 24 + k.1.length + k.2.length) value.length reads (by omega)
    rw [record.valueBytes] at read
    simp only
    rw [u64_of_lt (by omega)]
    exact read

/-- `GetStruct` of a pair that is not held returns NotFound. -/
theorem ObjectView.getStruct_absent (view : ObjectView H w v b n slot off m) (isOpen : w.members.isOpen = true)
    (absent : m k = none) : run system (LumoDB.getStruct H k.1 k.2) w = .error (.notFound "key not found") w := by
  obtain ⟨lookup, found, looked⟩ := view.table.findBucket view.represents.located view.sees view.reads k
  unfold LumoDB.getStruct
  rw [Prog.bind_eq, (getMembers_runs w).bind, if_neg (by rw [isOpen]; decide)]
  simp only [Prog.bind_eq]
  rw [found.bind]
  cases present : lookup.found with
  | false =>
    rw [if_pos (by decide)]
    rfl
  | true =>
    exact absurd ⟨lookup.index, looked.inside, looked.found present⟩ ((view.represents k).1 absent)

theorem ObjectView.entryCount (view : ObjectView H w v b n slot off m) :
    Runs entryCount w (filled n slot) w := by
  have mapped : (w.members.maps .index).isNone = false := Option.isNone_eq_false_iff.mpr (Option.isSome_iff_ne_none.mpr view.mapped)
  unfold Runs LumoDB.entryCount
  rw [Prog.bind_eq, (getMembers_runs w).bind, mapped, if_neg (by decide)]
  exact view.table.toIndexFile.loadItemCount view.sees

/-- The index counts each pair of the log once. -/
theorem IndexTable.filled_eq_pairs {log : ObjectLog} (t : IndexTable H b n slot off)
    (rep : Represents v n slot off (putAll (fun _ => none) log)) : filled n slot = (log.map Prod.fst).dedup.length := by
  rw [filled_eq_length_keys]
  refine ((List.perm_ext_iff_of_nodup t.table.keys_nodup (List.nodup_dedup _)).mpr fun k => ?_).length_eq
  have written := putAll_ne_none (fun _ => none) log k
  have stored := rep.stored_iff k
  rw [written] at stored
  rw [mem_keys, List.mem_dedup]
  exact stored.trans (by simp only [ne_eq, not_true, or_false])

end View

/-- The value file is the header and the records of `log`, and the mapped
index represents the map they leave. -/
structure ObjectFiles (H : HashFunctions) (w : World) (log : ObjectLog) (b : Bytes) (n : Nat)
    (slot : Nat → Option ObjectKey) (off : ObjectKey → Nat) : Prop where
  content : w.disk .values = some (valueFileBytes log)
  small : (valueFileBytes log).length < 2 ^ 63
  unmapped : w.members.maps .values = none
  index : w.disk .index = some b
  mapped : w.members.maps .index = some ⟨b.length, true⟩
  appendOffset : w.members.appendOffset = (valueFileBytes log).length
  fits : ∀ r ∈ log, r.1.Fits
  table : IndexTable H b n slot off
  represents : Represents (valueFileBytes log) n slot off (putAll (fun _ => none) log)

def ObjectStore (H : HashFunctions) (w : World) (log : ObjectLog) : Prop :=
  ∃ b n slot off, ObjectFiles H w log b n slot off

/-- `w` with the object files replaced and the append offset after the values. -/
def World.withObjects (w : World) (v b : Bytes) : World :=
  ((w.setFile .values (some v)).withMapped .index b).setMembers fun m => { m with appendOffset := v.length }

theorem withObjects_of_setFile (w : World) (v b : Bytes) :
    ((w.withMapped .index b).setFile .values (some v)) = (w.setFile .values (some v)).withMapped .index b := by
  simp only [World.withMapped, World.setFile, World.setMembers]
  rw [Function.update_comm (by decide)]

theorem valueHeader_length : ({ : ValueFileHeader }.encode).length = 24 :=
  ValueFileHeader.encode_length _ rfl

theorem valueFileBytes_append (log more : ObjectLog) :
    valueFileBytes (log ++ more) = valueFileBytes log ++ encodeLog more := by
  rw [valueFileBytes, encodeLog_append, ← List.append_assoc, valueFileBytes]

section Store
variable {H : HashFunctions} {w : World} {log : ObjectLog} {b : Bytes} {n : Nat}
  {slot : Nat → Option ObjectKey} {off : ObjectKey → Nat}

theorem ObjectFiles.reads (files : ObjectFiles H w log b n slot off) : ReadsValues w (valueFileBytes log) :=
  ⟨files.content, files.small, Or.inl files.unmapped⟩

theorem ObjectFiles.self (files : ObjectFiles H w log b n slot off) : w.withMapped .index b = w :=
  World.withMapped_self files.index files.mapped

theorem ObjectFiles.nodup_keys (files : ObjectFiles H w log b n slot off) :
    filled n slot = (log.map Prod.fst).dedup.length := files.table.filled_eq_pairs files.represents

theorem ObjectFiles.view (files : ObjectFiles H w log b n slot off) :
    ObjectView H w (valueFileBytes log) b n slot off (putAll (fun _ => none) log) where
  reads := files.reads
  sees := World.sees_of_map files.index files.mapped
  mapped := by rw [files.mapped]; exact Option.some_ne_none _
  table := files.table
  represents := files.represents

end Store

section Write
variable {H : HashFunctions} {w : World} {log : ObjectLog} {column : Bytes} {entries : List StructEntry}
  {keysAreUnique : Bool}

/-- The arguments `WriteStructs` accepts. -/
def AcceptsStructs (column : Bytes) (entries : List StructEntry) : Prop :=
  column.length < 2 ^ 32 ∧ ∀ entry ∈ entries, entry.key.length < 2 ^ 32

theorem fitsUint32_iff (size : Nat) : fitsUint32 size = true ↔ size < 2 ^ 32 := by
  simp only [fitsUint32, decide_eq_true_eq]
  omega

/-- The contract of `PutUniqueStructs`: every pair it writes is new. -/
def FreshKeys (log : ObjectLog) (column : Bytes) (entries : List StructEntry) : Prop :=
  (entries.map StructEntry.key).Nodup ∧ ∀ entry ∈ entries, (column, entry.key) ∉ log.map Prod.fst

theorem FreshKeys.newKeys (fresh : FreshKeys log column entries) :
    NewKeys (putAll (fun _ => none) log) column entries := by
  refine ⟨fresh.1, fun entry member => ?_⟩
  by_contra present
  rcases (putAll_ne_none _ log _).mp present with written | impossible
  · exact fresh.2 entry member written
  · exact impossible rfl

/-- A batch that does not pass the argument checks is refused. -/
theorem writeStructs_rejected {keysAreUnique : Bool} (rejected : ¬ AcceptsStructs column entries) :
    ∃ steps : Members → Db Unit, writeStructs H column entries keysAreUnique = getMembers.bind steps ∧
      ∀ m, m.isOpen = true → m.readOnly = false → ∃ message, steps m = .fail (.invalidArgument message) := by
  refine ⟨_, rfl, fun m isOpen writable => ?_⟩
  rw [if_neg (by rw [isOpen]; decide), if_neg (by rw [writable]; decide)]
  by_cases column_fits : fitsUint32 column.length = true
  · rw [if_neg (not_not.mpr column_fits)]
    have long : ∃ entry ∈ entries, ¬ entry.key.length < 2 ^ 32 := by
      by_contra none_long
      push Not at none_long
      exact rejected ⟨(fitsUint32_iff _).mp column_fits, none_long⟩
    obtain ⟨entry, member, long⟩ := long
    rw [if_neg (List.ne_nil_of_mem member), if_pos fun all => ?_]
    · exact ⟨_, rfl⟩
    · exact long ((fitsUint32_iff _).mp (List.all_eq_true.mp all entry member))
  · rw [if_pos column_fits]
    exact ⟨_, rfl⟩

theorem writeStructs_rejects (serving : Serving w) (rejected : ¬ AcceptsStructs column entries)
    (keysAreUnique : Bool) :
    ∃ message, run system (writeStructs H column entries keysAreUnique) w = .error (.invalidArgument message) w := by
  obtain ⟨steps, split, same⟩ := @writeStructs_rejected H _ _ keysAreUnique rejected
  obtain ⟨message, refused⟩ := same w.members serving.isOpen serving.writable
  exact ⟨message, by rw [split, (getMembers_runs w).bind, refused]; rfl⟩

theorem writeStructs_empty {keysAreUnique : Bool} (accepted : AcceptsStructs column []) :
    ∃ steps : Members → Db Unit, writeStructs H column [] keysAreUnique = getMembers.bind steps ∧
      ∀ m, m.isOpen = true → m.readOnly = false → steps m = .ret () := by
  refine ⟨_, rfl, fun m isOpen writable => ?_⟩
  rw [if_neg (by rw [isOpen]; decide), if_neg (by rw [writable]; decide),
    if_neg (not_not.mpr ((fitsUint32_iff column.length).mpr accepted.1)), if_pos rfl]
  rfl

/-- The object files with more bytes behind the append offset, to which the
index does not point. -/
structure TailedFiles (H : HashFunctions) (w : World) (log : ObjectLog) (tail b : Bytes) (n : Nat)
    (slot : Nat → Option ObjectKey) (off : ObjectKey → Nat) : Prop where
  content : w.disk .values = some (valueFileBytes log ++ tail)
  small : (valueFileBytes log ++ tail).length < 2 ^ 63
  unmapped : w.members.maps .values = none
  index : w.disk .index = some b
  mapped : w.members.maps .index = some ⟨b.length, true⟩
  appendOffset : w.members.appendOffset = (valueFileBytes log).length
  fits : ∀ r ∈ log, r.1.Fits
  table : IndexTable H b n slot off
  represents : Represents (valueFileBytes log) n slot off (putAll (fun _ => none) log)

section Tail
variable {tail b : Bytes} {n : Nat} {slot : Nat → Option ObjectKey} {off : ObjectKey → Nat}

theorem ObjectFiles.tailed (files : ObjectFiles H w log b n slot off) : TailedFiles H w log [] b n slot off where
  content := by rw [List.append_nil, files.content]
  small := by rw [List.append_nil]; exact files.small
  unmapped := files.unmapped
  index := files.index
  mapped := files.mapped
  appendOffset := files.appendOffset
  fits := files.fits
  table := files.table
  represents := files.represents

theorem TailedFiles.untailed (files : TailedFiles H w log [] b n slot off) : ObjectFiles H w log b n slot off where
  content := by rw [files.content, List.append_nil]
  small := by have small := files.small; rwa [List.append_nil] at small
  unmapped := files.unmapped
  index := files.index
  mapped := files.mapped
  appendOffset := files.appendOffset
  fits := files.fits
  table := files.table
  represents := files.represents

theorem TailedFiles.view (files : TailedFiles H w log tail b n slot off) :
    ObjectView H w (valueFileBytes log ++ tail) b n slot off (putAll (fun _ => none) log) where
  reads := ⟨files.content, files.small, Or.inl files.unmapped⟩
  sees := World.sees_of_map files.index files.mapped
  mapped := by rw [files.mapped]; exact Option.some_ne_none _
  table := files.table
  represents := files.represents.append tail

theorem TailedFiles.self (files : TailedFiles H w log tail b n slot off) : w.withMapped .index b = w :=
  World.withMapped_self files.index files.mapped

theorem TailedFiles.withIndex {b' : Bytes} {n' : Nat} {slot' : Nat → Option ObjectKey} {off' : ObjectKey → Nat}
    (files : TailedFiles H w log tail b n slot off) (table : IndexTable H b' n' slot' off')
    (represents : Represents (valueFileBytes log) n' slot' off' (putAll (fun _ => none) log)) :
    TailedFiles H (w.withMapped .index b') log tail b' n' slot' off' where
  content := by rw [World.withMapped_disk_ne w b' (by decide), files.content]
  small := files.small
  unmapped := by rw [World.withMapped_maps_ne w b' (by decide), files.unmapped]
  index := World.withMapped_disk w .index b'
  mapped := World.withMapped_maps w .index b'
  appendOffset := files.appendOffset
  fits := files.fits
  table := table
  represents := represents

/-- Room for the batch is made without a change to the records. -/
theorem TailedFiles.ensureCapacityForInsert {insertCount : Nat} (files : TailedFiles H w log tail b n slot off)
    (load : LoadFactorOk w.members.options.maxLoadFactor) (bounded : Bounded (ensureCapacityForInsert insertCount) w) :
    ∃ b' n' slot', Runs (ensureCapacityForInsert insertCount) w () (w.withMapped .index b') ∧
      TailedFiles H (w.withMapped .index b') log tail b' n' slot' off ∧ filled n' slot' = filled n slot ∧
      (toDouble (u64 (filled n slot + insertCount)) : ℚ) ≤ w.members.options.maxLoadFactor * n' := by
  have self := files.self
  obtain ⟨b', n', slot', ensured, table, stored, count, enough⟩ := @ensureCapacityForInsert_runs _ _ _ _
    _ w insertCount files.table load (by rw [self]; exact bounded)
  rw [self] at ensured
  refine ⟨b', n', slot', ensured, files.withIndex table fun k => ?_, count, enough⟩
  rw [stored k]
  exact files.represents k

/-- Bytes written at the append offset are behind it as long as no record of
theirs is indexed. -/
theorem TailedFiles.append {data : Bytes} (files : TailedFiles H w log tail b n slot off) (nonempty : data ≠ [])
    (fits : w.members.appendOffset + data.length < 2 ^ 63) :
    Runs (writeAllAt .values w.members.appendOffset data) w ()
        (w.setFile .values (some (valueFileBytes log ++ (data ++ tail.drop data.length)))) ∧
      TailedFiles H (w.setFile .values (some (valueFileBytes log ++ (data ++ tail.drop data.length)))) log
        (data ++ tail.drop data.length) b n slot off := by
  have small := files.small
  have written := writeAllAt_runs files.content nonempty fits
  rw [files.appendOffset] at written fits ⊢
  rw [patch_inside] at written
  refine ⟨written, by simp [World.setFile], ?_, files.unmapped, by simp [World.setFile, files.index], files.mapped,
    files.appendOffset, files.fits, files.table, files.represents⟩
  simp only [List.length_append, List.length_drop] at small ⊢
  omega

/-- The records of a batch behind the append offset, before they are
indexed. -/
theorem TailedFiles.batchWritten
    (files : TailedFiles H w log (encodeLog (recordsOf column entries) ++ tail) b n slot off)
    (accepted : AcceptsStructs column entries) (room : filled n slot + entries.length < n) :
    BatchWritten H w (valueFileBytes (log ++ recordsOf column entries)) tail column entries (valueFileBytes log) b n slot
      off (putAll (fun _ => none) log) := by
  have reads := files.view.reads
  rw [← List.append_assoc, ← valueFileBytes_append] at reads
  have represents := files.represents.append (encodeLog (recordsOf column entries))
  rw [← valueFileBytes_append] at represents
  exact ⟨⟨[], by rw [List.append_nil, ← valueFileBytes_append]⟩, reads,
    fun entry member => ⟨accepted.1, accepted.2 entry member⟩, files.table, represents, room⟩

/-- Once the index points to the records of a batch behind the append offset
the offset moves past them. -/
theorem TailedFiles.indexRecords (keysAreUnique : Bool)
    (files : TailedFiles H w log (encodeLog (recordsOf column entries) ++ tail) b n slot off)
    (accepted : AcceptsStructs column entries) (fresh : keysAreUnique = true → FreshKeys log column entries)
    (room : filled n slot + entries.length < n) :
    ∃ b' slot' off', Runs (indexRecords H column (H.hashString column) keysAreUnique
        (pendingRecords H column entries w.members.appendOffset).1) w () (w.withMapped .index b') ∧
      TailedFiles H ((w.withMapped .index b').setMembers fun m =>
        { m with appendOffset := (pendingRecords H column entries w.members.appendOffset).2 })
        (log ++ recordsOf column entries) tail b' n slot' off' := by
  have small := files.small
  obtain ⟨b', slot', off', indexed, table, represents', _⟩ := indexRecords_runs keysAreUnique
    (files.batchWritten accepted room) fun unique => (fresh unique).newKeys
  rw [← putAll_append] at represents'
  rw [files.self] at indexed
  refine ⟨b', slot', off', by rw [files.appendOffset]; exact indexed, ?_⟩
  have total : (pendingRecords H column entries w.members.appendOffset).2 =
      (valueFileBytes (log ++ recordsOf column entries)).length := by
    simp only [List.length_append] at small
    rw [files.appendOffset, pendingRecords_end column entries (by omega), valueFileBytes_append, List.length_append]
  refine ⟨?_, ?_, ?_, by simp [World.setMembers], ?_, total, ?_, table, represents'⟩
  · simp [World.setMembers, World.withMapped_disk_ne w b' (show FileId.values ≠ .index by decide), files.content,
      valueFileBytes_append]
  · rw [valueFileBytes_append, List.append_assoc]
    exact small
  · simp [World.setMembers, Members.setMap, files.unmapped]
  · simp [World.setMembers, Members.setMap]
  · intro r member
    rcases List.mem_append.mp member with old | new
    · exact files.fits r old
    · obtain ⟨entry, given, rfl⟩ := List.mem_map.mp new
      exact ⟨accepted.1, accepted.2 entry given⟩

end Tail

/-- The steps of `WriteStructs` for a batch that passes the checks. -/
theorem writeStructs_accepted (accepted : AcceptsStructs column entries) (given : entries ≠ []) :
    ∃ steps : Members → Db Unit, writeStructs H column entries keysAreUnique = getMembers.bind steps ∧
      ∀ m, m.isOpen = true → m.readOnly = false → steps m =
        ((ensureCapacityForInsert entries.length).bind fun _ =>
          (writeAllAt .values m.appendOffset (encodeLog (recordsOf column entries))).bind fun _ =>
          (indexRecords H column (H.hashString column) keysAreUnique
            (pendingRecords H column entries m.appendOffset).1).bind fun _ =>
          setMembers fun m' => { m' with appendOffset := (pendingRecords H column entries m.appendOffset).2 }) := by
  have columnFits := (fitsUint32_iff column.length).mpr accepted.1
  have keysFit : entries.all (fun entry => fitsUint32 entry.key.length) = true :=
    List.all_eq_true.mpr fun entry member => (fitsUint32_iff _).mpr (accepted.2 entry member)
  refine ⟨_, rfl, fun m isOpen writable => ?_⟩
  rw [if_neg (by rw [isOpen]; decide), if_neg (by rw [writable]; decide), if_neg (not_not.mpr columnFits), if_neg given,
    if_neg (not_not.mpr keysFit)]
  simp only [Prog.bind_eq, pendingRecords_bytes]

theorem encodeLog_ne_nil (column : Bytes) (given : entries ≠ []) : encodeLog (recordsOf column entries) ≠ [] := by
  intro empty
  have amount := encodeLog_length_ge (recordsOf column entries)
  have some_given : 0 < entries.length := List.length_pos_iff.mpr given
  rw [empty, recordsOf, List.length_map, List.length_nil] at amount
  omega

/-- A batch finds room in the index and is appended, before the index points
to any of its records. -/
theorem TailedFiles.writeBatch {tail b : Bytes} {n : Nat} {slot : Nat → Option ObjectKey} {off : ObjectKey → Nat}
    {rest : Db Unit} (files : TailedFiles H w log tail b n slot off) (load : LoadFactorOk w.members.options.maxLoadFactor)
    (given : entries ≠ [])
    (bounded : Bounded ((LumoDB.ensureCapacityForInsert entries.length).bind fun _ =>
      (writeAllAt .values w.members.appendOffset (encodeLog (recordsOf column entries))).bind fun _ => rest) w) :
    ∃ b' n' slot', Runs (LumoDB.ensureCapacityForInsert entries.length) w () (w.withMapped .index b') ∧
      Runs (writeAllAt .values w.members.appendOffset (encodeLog (recordsOf column entries))) (w.withMapped .index b') ()
        ((w.withMapped .index b').setFile .values (some (valueFileBytes log ++ (encodeLog (recordsOf column entries) ++
          tail.drop (encodeLog (recordsOf column entries)).length)))) ∧
      TailedFiles H ((w.withMapped .index b').setFile .values (some (valueFileBytes log ++
          (encodeLog (recordsOf column entries) ++ tail.drop (encodeLog (recordsOf column entries)).length)))) log
        (encodeLog (recordsOf column entries) ++ tail.drop (encodeLog (recordsOf column entries)).length) b' n' slot' off ∧
      filled n' slot' + entries.length < n' := by
  obtain ⟨b', n', slot', ensured, files', count', load'⟩ := files.ensureCapacityForInsert load bounded.first
  replace bounded := bounded.rest ensured
  have fits := Bounded.writeAllAt bounded.first
  obtain ⟨written, files''⟩ := files'.append (encodeLog_ne_nil column given) fits
  have records : (recordsOf column entries).length = entries.length := List.length_map _
  have amount := encodeLog_length_ge (recordsOf column entries)
  have below := files.table.count_lt
  have before := files.table.filled_lt
  rw [u64_of_lt (by omega)] at load'
  refine ⟨b', n', slot', ensured, written, files'', ?_⟩
  rw [count']
  exact lt_of_rounded_load load files'.table.positive load'

/-- `w` with the object files replaced and the append offset before the tail. -/
def World.withTail (w : World) (v tail b : Bytes) : World :=
  ((w.setFile .values (some (v ++ tail))).withMapped .index b).setMembers fun m => { m with appendOffset := v.length }

/-- `WriteStructs` writes the records of the batch at the append offset and
points the index to them. -/
theorem TailedFiles.writeStructs {tail b : Bytes} {n : Nat} {slot : Nat → Option ObjectKey} {off : ObjectKey → Nat}
    (files : TailedFiles H w log tail b n slot off) (serving : Serving w) (accepted : AcceptsStructs column entries)
    (fresh : keysAreUnique = true → FreshKeys log column entries)
    (bounded : Bounded (writeStructs H column entries keysAreUnique) w) :
    ∃ b' n' slot' off', Runs (writeStructs H column entries keysAreUnique) w ()
        (w.withTail (valueFileBytes (log ++ recordsOf column entries))
          (tail.drop (encodeLog (recordsOf column entries)).length) b') ∧
      TailedFiles H (w.withTail (valueFileBytes (log ++ recordsOf column entries))
          (tail.drop (encodeLog (recordsOf column entries)).length) b') (log ++ recordsOf column entries)
        (tail.drop (encodeLog (recordsOf column entries)).length) b' n' slot' off' := by
  by_cases given : entries = []
  · subst given
    have values : w.setFile .values (some (valueFileBytes log ++ tail)) = w := by
      unfold World.setFile
      rw [← files.content, Function.update_eq_self]
    have same : w.withTail (valueFileBytes (log ++ recordsOf column [])) (tail.drop 0) b = w := by
      rw [recordsOf, List.map_nil, List.append_nil, List.drop_zero, World.withTail, values, files.self,
        ← files.appendOffset]
      rfl
    have nothing : Runs (LumoDB.writeStructs H column [] keysAreUnique) w () w := by
      obtain ⟨steps, split, same⟩ := @writeStructs_empty H _ keysAreUnique accepted
      unfold Runs
      rw [split, (getMembers_runs w).bind, same _ serving.isOpen serving.writable]
      rfl
    refine ⟨b, n, slot, off, ?_, ?_⟩
    · rw [show encodeLog (recordsOf column []) = [] from rfl, List.length_nil, same]
      exact nothing
    · rw [show encodeLog (recordsOf column []) = [] from rfl, List.length_nil, same, recordsOf, List.map_nil,
        List.append_nil, List.drop_zero]
      exact files
  · obtain ⟨steps, split, same⟩ := @writeStructs_accepted H _ _ keysAreUnique accepted given
    rw [split] at bounded ⊢
    replace bounded := bounded.rest (getMembers_runs w)
    rw [same _ serving.isOpen serving.writable] at bounded
    obtain ⟨b₁, n₁, slot₁, ensured, written, files₂, room⟩ := files.writeBatch serving.load given bounded
    obtain ⟨b₂, slot₂, off₂, indexed, files₃⟩ := files₂.indexRecords keysAreUnique accepted fresh room
    have last : (((w.withMapped .index b₁).setFile .values (some (valueFileBytes log ++
          (encodeLog (recordsOf column entries) ++ tail.drop (encodeLog (recordsOf column entries)).length)))).withMapped
          .index b₂).setMembers (fun m =>
            { m with appendOffset := (pendingRecords H column entries w.members.appendOffset).2 }) =
        w.withTail (valueFileBytes (log ++ recordsOf column entries))
          (tail.drop (encodeLog (recordsOf column entries)).length) b₂ := by
      have total : (pendingRecords H column entries w.members.appendOffset).2 =
        (valueFileBytes (log ++ recordsOf column entries)).length := files₃.appendOffset
      rw [withObjects_of_setFile, World.withMapped_withMapped, total, World.withTail, valueFileBytes_append,
        List.append_assoc]
    have offset : ∀ v, ((w.withMapped .index b₁).setFile .values v).members.appendOffset = w.members.appendOffset :=
      fun _ => rfl
    rw [offset] at indexed
    refine ⟨b₂, n₁, slot₂, off₂, ?_, last ▸ files₃⟩
    unfold Runs
    rw [(getMembers_runs w).bind, same _ serving.isOpen serving.writable, ensured.bind, written.bind, indexed.bind, ← last]
    rfl

theorem writeStructs_runs (store : ObjectStore H w log) (serving : Serving w)
    (accepted : AcceptsStructs column entries) (fresh : keysAreUnique = true → FreshKeys log column entries)
    (bounded : Bounded (writeStructs H column entries keysAreUnique) w) :
    ∃ b, Runs (writeStructs H column entries keysAreUnique) w ()
        (w.withObjects (valueFileBytes (log ++ recordsOf column entries)) b) ∧
      ObjectStore H (w.withObjects (valueFileBytes (log ++ recordsOf column entries)) b)
        (log ++ recordsOf column entries) := by
  obtain ⟨b, n, slot, off, files⟩ := store
  obtain ⟨b', n', slot', off', runs, files'⟩ := files.tailed.writeStructs serving accepted fresh bounded
  rw [List.drop_nil] at runs files'
  have same : w.withTail (valueFileBytes (log ++ recordsOf column entries)) [] b' =
      w.withObjects (valueFileBytes (log ++ recordsOf column entries)) b' := by
    rw [World.withTail, List.append_nil, World.withObjects]
  rw [same] at runs files'
  exact ⟨b', runs, b', n', slot', off', files'.untailed⟩

theorem writeStructs_upsert_runs (store : ObjectStore H w log) (serving : Serving w)
    (accepted : AcceptsStructs column entries) (bounded : Bounded (writeStructs H column entries false) w) :
    ∃ b, Runs (writeStructs H column entries false) w ()
        (w.withObjects (valueFileBytes (log ++ recordsOf column entries)) b) ∧
      ObjectStore H (w.withObjects (valueFileBytes (log ++ recordsOf column entries)) b)
        (log ++ recordsOf column entries) :=
  writeStructs_runs store serving accepted (fun unique => nomatch unique) bounded

end Write

section Read
variable {H : HashFunctions} {w : World} {log : ObjectLog} {k : ObjectKey}

/-- `GetStruct` of a written pair returns the bytes of its last record. -/
theorem getStruct_runs {value : Bytes} (store : ObjectStore H w log) (isOpen : w.members.isOpen = true)
    (held : putAll (fun _ => none) log k = some value) : Runs (getStruct H k.1 k.2) w value w := by
  obtain ⟨b, n, slot, off, files⟩ := store
  exact files.view.getStruct isOpen held

/-- `GetStruct` of a pair that was never written returns NotFound. -/
theorem getStruct_absent (store : ObjectStore H w log) (isOpen : w.members.isOpen = true)
    (absent : putAll (fun _ => none) log k = none) :
    run system (getStruct H k.1 k.2) w = .error (.notFound "key not found") w := by
  obtain ⟨b, n, slot, off, files⟩ := store
  exact files.view.getStruct_absent isOpen absent

theorem entryCount_runs (store : ObjectStore H w log) :
    Runs entryCount w (log.map Prod.fst).dedup.length w := by
  obtain ⟨b, n, slot, off, files⟩ := store
  have counted := files.view.entryCount
  rwa [files.nodup_keys] at counted

end Read

end LumoDB
