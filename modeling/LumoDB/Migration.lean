import LumoDB.ObjectOpen

namespace LumoDB
open ByteCodec Effects

/-- A record as the value files of the first format hold it. -/
structure LegacyRecord where
  sequence : Nat := 0
  columnHash : Nat := 0
  keyHash : Nat := 0
  key : ObjectKey
  value : Bytes

namespace LegacyRecord

def header (r : LegacyRecord) : LegacyValueRecordHeader where
  sequence := r.sequence
  columnHash := r.columnHash
  keyHash := r.keyHash
  columnSize := r.key.1.length
  keySize := r.key.2.length
  valueSize := r.value.length

def data (r : LegacyRecord) : Bytes := r.key.1 ++ (r.key.2 ++ r.value)

def encode (r : LegacyRecord) : Bytes := r.header.encode ++ r.data

/-- Column and key together have a 32-bit size. -/
def Narrow (r : LegacyRecord) : Prop := r.key.1.length + r.key.2.length < 2 ^ 32

theorem data_length (r : LegacyRecord) : r.data.length = r.key.1.length + r.key.2.length + r.value.length := by
  simp only [data, List.length_append]
  omega

theorem encode_length (r : LegacyRecord) : r.encode.length = 48 + r.data.length := by
  simp only [encode, List.length_append, LegacyValueRecordHeader.encode_length]

end LegacyRecord

def legacyFileBytes (reserved : Nat) (records : List LegacyRecord) : Bytes :=
  { magic := kLegacyValueFileMagic, reserved := reserved : ValueFileHeader }.encode ++
    records.flatMap LegacyRecord.encode

def migratedLog (records : List LegacyRecord) : ObjectLog := records.map fun r => (r.key, r.value)

section Copy
variable {w : World} {s t : Bytes} {rounds remaining source destination : Nat}

/-- The chunks read inside the legacy file are appended to the new one. -/
theorem copyLoop_runs (values : w.disk .values = some s) (temporary : w.disk .migrating = some t)
    (length : t.length = destination) (behind : destination ≤ source) (inside : source + remaining ≤ s.length)
    (small : s.length < 2 ^ 63) (enough : remaining ≤ rounds * (1024 * 1024)) :
    Runs (copyLoop rounds remaining source destination) w ()
      (w.setFile .migrating (some (t ++ slice s source remaining))) := by
  have done : (w.setFile .migrating (some (t ++ slice s source 0))) = w := by
    rw [slice_zero, List.append_nil]
    exact World.setFile_self temporary
  induction rounds generalizing w t source destination remaining with
  | zero =>
    obtain rfl : remaining = 0 := by omega
    rw [done]
    rfl
  | succ rounds ih =>
    unfold Runs copyLoop
    by_cases finished : remaining = 0
    · subst finished
      rw [if_pos rfl, done]
      rfl
    · set chunk := min remaining (1024 * 1024) with chunk_eq
      have size : (slice s source chunk).length = chunk := slice_length_of_le (by omega)
      have reading := @readAllAt_runs _ _ _ source chunk values (by omega) small
      have writing := @writeAllAt_runs _ _ _ destination (slice s source chunk) temporary
        (List.ne_nil_of_length_pos (by omega)) (by omega)
      rw [← length, patch_end] at writing
      set w' := w.setFile .migrating (some (t ++ slice s source chunk)) with w'_eq
      have values' : w'.disk .values = some s := by simp [w'_eq, World.setFile, values]
      have temporary' : w'.disk .migrating = some (t ++ slice s source chunk) := by simp [w'_eq, World.setFile]
      have later := @ih w' (t ++ slice s source chunk) (remaining - chunk) (source + chunk) (destination + chunk) values'
        temporary' (by rw [List.length_append, size, length]) (by omega) (by omega) (by omega)
        (by rw [slice_zero, List.append_nil]; exact World.setFile_self temporary')
      rw [if_neg finished, Prog.bind_eq, reading.bind, Prog.bind_eq, ← length, writing.bind,
        u64_of_lt (show source + chunk < 2 ^ 64 by omega), u64_of_lt (show t.length + chunk < 2 ^ 64 by omega), length,
        later, List.append_assoc, ← slice_add, show chunk + (remaining - chunk) = remaining by omega]
      simp [w'_eq, World.setFile]

/-- A copy that runs past the end of the legacy file fails. -/
theorem copyLoop_short (values : w.disk .values = some s) (temporary : w.disk .migrating = some t)
    (within : source ≤ s.length) (outside : s.length < source + remaining) (small : s.length < 2 ^ 63)
    (enough : remaining ≤ rounds * (1024 * 1024)) :
    ∃ e w', run system (copyLoop rounds remaining source destination) w = .error e w' := by
  induction rounds generalizing w t source destination remaining with
  | zero => omega
  | succ rounds ih =>
    unfold copyLoop
    rw [if_neg (by omega), Prog.bind_eq]
    set chunk := min remaining (1024 * 1024) with chunk_eq
    by_cases inside : source + chunk ≤ s.length
    · have reading := @readAllAt_runs _ _ _ source chunk values inside small
      rw [reading.bind, Prog.bind_eq, u64_of_lt (show source + chunk < 2 ^ 64 by omega)]
      have size : (slice s source chunk).length = chunk := slice_length_of_le inside
      have given : slice s source chunk ≠ [] := List.ne_nil_of_length_pos (by omega)
      by_cases fits : u64 destination + (slice s source chunk).length < 2 ^ 63
      · have writing : Runs (writeAllAt .migrating destination (slice s source chunk)) w ()
            (w.setFile .migrating (some (patch t (u64 destination) (slice s source chunk)))) := by
          simp only [Runs, writeAllAt, run, system, temporary, if_neg given, if_pos fits, checked]
        rw [writing.bind]
        refine ih (t := patch t (u64 destination) (slice s source chunk)) ?_ ?_ inside (by omega) (by omega)
        · simp [World.setFile, values]
        · simp [World.setFile]
      · have refused : run system (writeAllAt .migrating destination (slice s source chunk)) w =
            .error (.ioError "pwrite: Invalid argument") w := by
          simp only [writeAllAt, run, system, temporary, if_neg given, if_neg fits, checked]
        exact ⟨_, _, run_bind_error _ refused _⟩
    · obtain ⟨_, refused⟩ := readAllAt_fails values (show 0 < chunk by omega) (by omega) (Nat.not_le.mp inside)
      exact ⟨_, _, run_bind_error _ refused _⟩

end Copy

section Records
variable {w : World} {s t : Bytes} {rounds source destination : Nat} {h : LegacyValueRecordHeader}

/-- The size of a record's data as the migration computes it. -/
def LegacyValueRecordHeader.dataSize (h : LegacyValueRecordHeader) : Nat :=
  u64 ((h.columnSize + h.keySize) % 2 ^ 32 + h.valueSize)

/-- The header with which the migration writes the record again. -/
def LegacyValueRecordHeader.migrated (h : LegacyValueRecordHeader) : ValueRecordHeader :=
  { columnSize := h.columnSize, keySize := h.keySize, valueSize := h.valueSize }

/-- A record inside the file is written again and the loop goes on behind
it. -/
theorem migrateLoop_next (values : w.disk .values = some s) (temporary : w.disk .migrating = some t)
    (length : t.length = destination) (behind : destination ≤ source) (small : s.length < 2 ^ 63)
    (header : LegacyValueRecordHeader.decode (slice s source 48) = h) (valid : isValidLegacyRecordHeader h = true)
    (inside : source + 48 + h.dataSize ≤ s.length) :
    run system (migrateLoop s.length (rounds + 1) source destination) w =
      run system (migrateLoop s.length rounds (source + 48 + h.dataSize) (destination + 24 + h.dataSize))
        (w.setFile .migrating (some (t ++ (h.migrated.encode ++ slice s (source + 48) h.dataSize)))) := by
  have reading := @readAllAt_runs _ _ _ source 48 values (by omega) small
  have writing := @writeAllAt_runs _ _ _ destination h.migrated.encode temporary
    (List.ne_nil_of_length_pos (by rw [ValueRecordHeader.encode_length]; decide))
    (by rw [ValueRecordHeader.encode_length]; omega)
  rw [← length, patch_end] at writing
  set w' := w.setFile .migrating (some (t ++ h.migrated.encode)) with w'_eq
  have copying := @copyLoop_runs w' s (t ++ h.migrated.encode) (h.dataSize / (1024 * 1024) + 1) h.dataSize (source + 48)
    (destination + 24) (by simp [w'_eq, World.setFile, values]) (by simp [w'_eq, World.setFile])
    (by rw [List.length_append, ValueRecordHeader.encode_length, length]) (by omega) (by omega) small (by omega)
  rw [migrateLoop, if_pos (by omega), Prog.bind_eq, reading.bind, header]
  simp only
  rw [if_neg (by rw [valid]; decide), ← LegacyValueRecordHeader.dataSize,
    u64_of_lt (show 48 + h.dataSize < 2 ^ 64 by omega), if_neg (by omega), ← length]
  refine writing.bind.trans ?_
  rw [Prog.bind_eq, u64_of_lt (show source + 48 < 2 ^ 64 by omega),
    u64_of_lt (show t.length + 24 < 2 ^ 64 by omega), length, copying.bind,
    u64_of_lt (show source + (48 + h.dataSize) < 2 ^ 64 by omega),
    u64_of_lt (show destination + 24 + h.dataSize < 2 ^ 64 by omega), ← Nat.add_assoc]
  simp [w'_eq, World.setFile]

/-- The loop fails at a record that is no record or does not end in the
file. -/
theorem migrateLoop_stop (values : w.disk .values = some s) (temporary : w.disk .migrating = some t)
    (behind : destination ≤ source) (small : s.length < 2 ^ 63)
    (below : source < s.length) (header : LegacyValueRecordHeader.decode (slice s source 48) = h)
    (wrong : ¬ (isValidLegacyRecordHeader h = true ∧ source + 48 + h.dataSize ≤ s.length)) :
    ∃ e w', run system (migrateLoop s.length (rounds + 1) source destination) w = .error e w' := by
  rw [migrateLoop, if_pos below]
  by_cases whole : source + 48 ≤ s.length
  · have reading := @readAllAt_runs _ _ _ source 48 values whole small
    rw [Prog.bind_eq, reading.bind, header]
    simp only
    by_cases valid : isValidLegacyRecordHeader h = true
    · rw [if_neg (by rw [valid]; decide), ← LegacyValueRecordHeader.dataSize]
      by_cases ends : s.length - source < u64 (48 + h.dataSize)
      · rw [if_pos ends]
        exact ⟨_, _, rfl⟩
      · -- the size of the record wrapped, and its data do not end in the file
        have outside : ¬ source + 48 + h.dataSize ≤ s.length := fun inside => wrong ⟨valid, inside⟩
        have writing := @writeAllAt_runs _ _ _ destination h.migrated.encode temporary
          (List.ne_nil_of_length_pos (by rw [ValueRecordHeader.encode_length]; decide))
          (by rw [ValueRecordHeader.encode_length]; omega)
        rw [if_neg ends]
        obtain ⟨e, w', failed⟩ := @copyLoop_short (w.setFile .migrating (some (patch t destination h.migrated.encode)))
          s (patch t destination h.migrated.encode) (h.dataSize / (1024 * 1024) + 1) h.dataSize (source + 48)
          (u64 (destination + 24)) (by simp [World.setFile, values]) (by simp [World.setFile]) (by omega) (by omega)
          small (by omega)
        refine ⟨e, w', writing.bind.trans ?_⟩
        rw [Prog.bind_eq, u64_of_lt (show source + 48 < 2 ^ 64 by omega)]
        exact run_bind_error _ failed _
    · rw [if_pos valid]
      exact ⟨_, _, rfl⟩
  · obtain ⟨_, refused⟩ := readAllAt_fails values (show 0 < 48 by decide) (by omega) (Nat.not_le.mp whole)
    exact ⟨_, _, run_bind_error _ refused _⟩

/-- What the loop has written stays where it is. -/
theorem migrateLoop_extends {w' : World} {e : Nat} (values : w.disk .values = some s)
    (temporary : w.disk .migrating = some t) (length : t.length = destination) (behind : destination ≤ source)
    (small : s.length < 2 ^ 63) (runs : Runs (migrateLoop s.length rounds source destination) w e w') :
    ∃ more, w' = w.setFile .migrating (some (t ++ more)) := by
  induction rounds generalizing w t source destination with
  | zero => cases runs
  | succ rounds ih =>
    by_cases below : source < s.length
    · by_cases right : isValidLegacyRecordHeader (LegacyValueRecordHeader.decode (slice s source 48)) = true ∧
          source + 48 + (LegacyValueRecordHeader.decode (slice s source 48)).dataSize ≤ s.length
      · set h := LegacyValueRecordHeader.decode (slice s source 48) with header
        have data : (slice s (source + 48) h.dataSize).length = h.dataSize := slice_length_of_le right.2
        rw [Runs, migrateLoop_next values temporary length behind small header.symm right.1 right.2] at runs
        obtain ⟨more, rfl⟩ := ih (t := t ++ (h.migrated.encode ++ slice s (source + 48) h.dataSize))
          (by simp [World.setFile, values]) (by simp [World.setFile])
          (by rw [List.length_append, List.length_append, ValueRecordHeader.encode_length, data]; omega) (by omega) runs
        exact ⟨h.migrated.encode ++ slice s (source + 48) h.dataSize ++ more, by simp [World.setFile]⟩
      · obtain ⟨e', w'', failed⟩ := @migrateLoop_stop w s t rounds source destination _ values temporary behind
          small below rfl right
        rw [Runs, failed] at runs
        cases runs
    · rw [Runs, migrateLoop, if_neg below] at runs
      cases runs
      exact ⟨[], by rw [List.append_nil, World.setFile_self temporary]⟩

/-- A loop that returns has found a record where it started and written its
header. -/
theorem migrateLoop_writes {w' : World} {e : Nat} (values : w.disk .values = some s)
    (temporary : w.disk .migrating = some t) (length : t.length = destination) (behind : destination ≤ source)
    (small : s.length < 2 ^ 63) (below : source < s.length)
    (header : LegacyValueRecordHeader.decode (slice s source 48) = h)
    (runs : Runs (migrateLoop s.length rounds source destination) w e w') :
    isValidLegacyRecordHeader h = true ∧ source + 48 + h.dataSize ≤ s.length ∧
      ∃ more, w' = w.setFile .migrating (some (t ++ (h.migrated.encode ++ more))) := by
  cases rounds with
  | zero => cases runs
  | succ rounds =>
    by_cases right : isValidLegacyRecordHeader h = true ∧ source + 48 + h.dataSize ≤ s.length
    · have copied : (slice s (source + 48) h.dataSize).length = h.dataSize := slice_length_of_le right.2
      rw [Runs, migrateLoop_next values temporary length behind small header right.1 right.2] at runs
      obtain ⟨more, rfl⟩ := migrateLoop_extends (t := t ++ (h.migrated.encode ++ slice s (source + 48) h.dataSize))
        (by simp [World.setFile, values]) (by simp [World.setFile])
        (by rw [List.length_append, List.length_append, ValueRecordHeader.encode_length, copied]; omega) (by omega) small runs
      exact ⟨right.1, right.2, slice s (source + 48) h.dataSize ++ more, by simp [World.setFile]⟩
    · obtain ⟨e', w'', failed⟩ := @migrateLoop_stop w s t rounds source destination _ values temporary behind
        small below header right
      rw [Runs, failed] at runs
      cases runs

end Records

section Log
variable {w : World} {s pre post : Bytes} {rounds reserved : Nat} {r : LegacyRecord} {done good : List LegacyRecord}

theorem LegacyRecord.header_at (content : s = pre ++ (r.encode ++ post)) (fits : r.key.Fits)
    (small : s.length < 2 ^ 63) :
    isValidLegacyRecordHeader (LegacyValueRecordHeader.decode (slice s pre.length 48)) = true ∧
      (LegacyValueRecordHeader.decode (slice s pre.length 48)).migrated =
        { columnSize := r.key.1.length, keySize := r.key.2.length, valueSize := r.value.length } := by
  have total := congrArg List.length content
  rw [List.length_append, List.length_append, r.encode_length, r.data_length] at total
  have front : slice s pre.length 48 = r.header.encode := by
    rw [content, slice_append_right le_rfl, Nat.sub_self, encode, List.append_assoc, slice_append_left (by simp)]
    simp only [slice, List.drop_zero, List.take_of_length_le (LegacyValueRecordHeader.encode_length _).le]
  have column : r.key.1.length % 256 ^ 4 = r.key.1.length := Nat.mod_eq_of_lt (by simpa using fits.1)
  have key : r.key.2.length % 256 ^ 4 = r.key.2.length := Nat.mod_eq_of_lt (by simpa using fits.2)
  have size : r.value.length % 256 ^ 8 = r.value.length := Nat.mod_eq_of_lt (by omega)
  rw [front, LegacyValueRecordHeader.decode_encode]
  simp only [header, LegacyValueRecordHeader.migrated, column, key, size]
  exact ⟨by simp [isValidLegacyRecordHeader, kRecordMagic, kStorageVersion], trivial⟩

/-- The computed size of the data misses `2 ^ 32` bytes of a record that is
not narrow. -/
theorem LegacyRecord.dataSize_at (content : s = pre ++ (r.encode ++ post)) (fits : r.key.Fits)
    (small : s.length < 2 ^ 63) :
    r.Narrow ∧ (LegacyValueRecordHeader.decode (slice s pre.length 48)).dataSize = r.data.length ∨
      ¬ r.Narrow ∧ (LegacyValueRecordHeader.decode (slice s pre.length 48)).dataSize + 2 ^ 32 = r.data.length := by
  obtain ⟨_, migrated⟩ := header_at content fits small
  have total := congrArg List.length content
  rw [List.length_append, List.length_append, r.encode_length] at total
  rw [r.data_length] at total ⊢
  set h := LegacyValueRecordHeader.decode (slice s pre.length 48)
  have column : h.columnSize = r.key.1.length := congrArg ValueRecordHeader.columnSize migrated
  have key : h.keySize = r.key.2.length := congrArg ValueRecordHeader.keySize migrated
  have size : h.valueSize = r.value.length := congrArg ValueRecordHeader.valueSize migrated
  obtain ⟨columnFits, keyFits⟩ := fits
  unfold LegacyValueRecordHeader.dataSize Narrow
  rw [column, key, size]
  by_cases narrow : r.key.1.length + r.key.2.length < 2 ^ 32
  · left
    rw [Nat.mod_eq_of_lt narrow]
    exact ⟨narrow, u64_of_lt (by omega)⟩
  · right
    rw [Nat.mod_eq_sub_mod (by omega), Nat.mod_eq_of_lt (by omega), u64_of_lt (by omega)]
    omega

theorem legacyFileBytes_append (reserved : Nat) (records more : List LegacyRecord) :
    legacyFileBytes reserved (records ++ more) =
      legacyFileBytes reserved records ++ more.flatMap LegacyRecord.encode := by
  rw [legacyFileBytes, List.flatMap_append, ← List.append_assoc, legacyFileBytes]

theorem migratedLog_append (records more : List LegacyRecord) :
    migratedLog (records ++ more) = migratedLog records ++ migratedLog more := List.map_append

/-- Every record shrinks by the difference of the two headers. -/
theorem legacyFileBytes_length (reserved : Nat) (records : List LegacyRecord) :
    (legacyFileBytes reserved records).length =
      (valueFileBytes (migratedLog records)).length + 24 * records.length := by
  induction records using List.reverseRecOn with
  | nil => simp [legacyFileBytes, valueFileBytes, migratedLog, encodeLog, kLegacyValueFileMagic, kValueFileMagic]
  | append_singleton records r ih =>
    rw [legacyFileBytes_append, migratedLog_append, valueFileBytes_append, List.length_append, ih, List.length_append,
      List.length_append, List.flatMap_singleton, r.encode_length, r.data_length]
    have size := encodeRecord_length r.key r.value
    have single : encodeLog (migratedLog [r]) = encodeRecord r.key r.value := encodeLog_singleton _
    rw [single, size, List.length_singleton]
    omega

theorem migratedLog_length_le (reserved : Nat) (records : List LegacyRecord) :
    (valueFileBytes (migratedLog records)).length ≤ (legacyFileBytes reserved records).length := by
  rw [legacyFileBytes_length]
  omega

theorem valueFileBytes_migrated (records : List LegacyRecord) (r : LegacyRecord) :
    valueFileBytes (migratedLog (records ++ [r])) = valueFileBytes (migratedLog records) ++
      ({ columnSize := r.key.1.length, keySize := r.key.2.length, valueSize := r.value.length :
        ValueRecordHeader }.encode ++ r.data) := by
  have single : encodeLog (migratedLog [r]) = encodeRecord r.key r.value := encodeLog_singleton (r.key, r.value)
  rw [migratedLog_append, valueFileBytes_append, single, encodeRecord, LegacyRecord.data]

/-- The loop writes a narrow record again. -/
theorem migrateLoop_record (content : s = legacyFileBytes reserved done ++ (r.encode ++ post))
    (values : w.disk .values = some s) (small : s.length < 2 ^ 63) (fits : r.key.Fits) (narrow : r.Narrow) :
    run system (migrateLoop s.length (rounds + 1) (legacyFileBytes reserved done).length
        (valueFileBytes (migratedLog done)).length) (w.setFile .migrating (some (valueFileBytes (migratedLog done)))) =
      run system (migrateLoop s.length rounds (legacyFileBytes reserved (done ++ [r])).length
        (valueFileBytes (migratedLog (done ++ [r]))).length)
        (w.setFile .migrating (some (valueFileBytes (migratedLog (done ++ [r]))))) := by
  have ends := congrArg List.length content
  rw [List.length_append, List.length_append, r.encode_length] at ends
  obtain ⟨valid, migrated⟩ := LegacyRecord.header_at content fits small
  obtain ⟨_, size⟩ := (LegacyRecord.dataSize_at content fits small).resolve_right fun wide => wide.1 narrow
  set h := LegacyValueRecordHeader.decode (slice s (legacyFileBytes reserved done).length 48) with h_eq
  have behind := migratedLog_length_le reserved done
  have data : slice s ((legacyFileBytes reserved done).length + 48) h.dataSize = r.data := by
    rw [size, content, slice_append_right (by omega), LegacyRecord.encode, List.append_assoc,
      slice_append_right (by simp), slice_append_left (by simp)]
    simpa using slice_self r.data
  have written : valueFileBytes (migratedLog (done ++ [r])) =
      valueFileBytes (migratedLog done) ++ (h.migrated.encode ++ r.data) := by
    rw [valueFileBytes_migrated, migrated]
  have source : (legacyFileBytes reserved (done ++ [r])).length =
      (legacyFileBytes reserved done).length + 48 + h.dataSize := by
    rw [legacyFileBytes_append, List.length_append, List.flatMap_singleton, r.encode_length, size]
    omega
  have destination : (valueFileBytes (migratedLog (done ++ [r]))).length =
      (valueFileBytes (migratedLog done)).length + 24 + h.dataSize := by
    rw [written, List.length_append, List.length_append, ValueRecordHeader.encode_length, size]
    omega
  have next := @migrateLoop_next (w.setFile .migrating (some (valueFileBytes (migratedLog done)))) s _ rounds _ _ h
    (by simp [World.setFile, values]) (by simp [World.setFile]) rfl behind small h_eq.symm valid (by rw [size]; omega)
  rw [data, ← written, World.setFile_setFile, ← source, ← destination] at next
  exact next

/-- The loop writes the narrow records at the start of the file again. -/
theorem migrateLoop_written (content : s = legacyFileBytes reserved (done ++ good) ++ post)
    (values : w.disk .values = some s) (small : s.length < 2 ^ 63) (fits : ∀ r ∈ good, r.key.Fits)
    (narrow : ∀ r ∈ good, r.Narrow) :
    run system (migrateLoop s.length (rounds + good.length) (legacyFileBytes reserved done).length
        (valueFileBytes (migratedLog done)).length) (w.setFile .migrating (some (valueFileBytes (migratedLog done)))) =
      run system (migrateLoop s.length rounds (legacyFileBytes reserved (done ++ good)).length
        (valueFileBytes (migratedLog (done ++ good))).length)
        (w.setFile .migrating (some (valueFileBytes (migratedLog (done ++ good))))) := by
  induction good generalizing done with
  | nil => rw [List.append_nil, List.length_nil, Nat.add_zero]
  | cons r good ih =>
    have split : s = legacyFileBytes reserved done ++ (r.encode ++ (good.flatMap LegacyRecord.encode ++ post)) := by
      rw [content, legacyFileBytes_append, List.flatMap_cons, List.append_assoc, List.append_assoc]
    have regroup : done ++ r :: good = (done ++ [r]) ++ good := by rw [List.append_assoc, List.singleton_append]
    rw [List.length_cons, ← Nat.add_assoc, migrateLoop_record split values small (fits r List.mem_cons_self)
      (narrow r List.mem_cons_self)]
    rw [regroup] at content ⊢
    exact ih content (fun r member => fits r (List.mem_cons_of_mem _ member))
      fun r member => narrow r (List.mem_cons_of_mem _ member)

/-- A record that is not narrow is cut short, and a header is written in the
middle of its data. -/
theorem migrateLoop_wide {w' : World} {e : Nat} (content : s = legacyFileBytes reserved done ++ (r.encode ++ post))
    (values : w.disk .values = some s) (small : s.length < 2 ^ 63) (fits : r.key.Fits) (wide : ¬ r.Narrow)
    (runs : Runs (migrateLoop s.length rounds (legacyFileBytes reserved done).length
        (valueFileBytes (migratedLog done)).length) (w.setFile .migrating (some (valueFileBytes (migratedLog done)))) e w')
    (more : Bytes) : w'.disk .migrating ≠ some (valueFileBytes (migratedLog (done ++ [r])) ++ more) := by
  have ends := congrArg List.length content
  rw [List.length_append, List.length_append, r.encode_length] at ends
  obtain ⟨valid, migrated⟩ := LegacyRecord.header_at content fits small
  obtain ⟨_, size⟩ := (LegacyRecord.dataSize_at content fits small).resolve_left fun short => wide short.1
  set source := (legacyFileBytes reserved done).length with source_eq
  set v := valueFileBytes (migratedLog done) with v_eq
  set h := LegacyValueRecordHeader.decode (slice s source 48) with h_eq
  have behind : v.length ≤ source := migratedLog_length_le reserved done
  have record : valueFileBytes (migratedLog (done ++ [r])) = v ++ (h.migrated.encode ++ r.data) := by
    rw [valueFileBytes_migrated, migrated]
  have data : ∀ i n, i + n ≤ r.data.length → natAt s (source + 48 + i) n = natAt r.data i n := by
    intro i n inside
    rw [content, natAt_append_right (by omega), LegacyRecord.encode, List.append_assoc, natAt_append_right (by simp; omega),
      LegacyValueRecordHeader.encode_length, natAt_append_left (by omega)]
    congr 1
    omega
  cases rounds with
  | zero => cases runs
  | succ rounds =>
    rw [Runs, @migrateLoop_next (w.setFile .migrating (some v)) s v rounds _ _ h (by simp [World.setFile, values])
      (by simp [World.setFile]) rfl behind small h_eq.symm valid (by omega), World.setFile_setFile] at runs
    have copied : (slice s (source + 48) h.dataSize).length = h.dataSize := slice_length_of_le (by omega)
    set t := v ++ (h.migrated.encode ++ slice s (source + 48) h.dataSize) with t_eq
    have length : t.length = v.length + 24 + h.dataSize := by
      rw [t_eq, List.length_append, List.length_append, ValueRecordHeader.encode_length, copied]
      omega
    obtain ⟨valid', _, tail, rfl⟩ := migrateLoop_writes (by simp [World.setFile, values]) (by simp [World.setFile]) length
      (by omega) small (show source + 48 + h.dataSize < s.length by omega) rfl runs
    set h' := LegacyValueRecordHeader.decode (slice s (source + 48 + h.dataSize) 48) with h'_eq
    intro same
    have same' : t ++ (h'.migrated.encode ++ tail) = v ++ (h.migrated.encode ++ r.data) ++ more := by
      rw [← record]
      simpa [World.setFile] using same
    -- the header size of the new header, and that of a legacy header in its place
    have new : natAt (t ++ (h'.migrated.encode ++ tail)) (t.length + 6) 2 = 24 := by
      rw [natAt_append_right (by omega), show t.length + 6 - t.length = 6 by omega, natAt_append_left (by simp)]
      exact congrArg ValueRecordHeader.headerSize h'.migrated.decode_encode
    have old : natAt (v ++ (h.migrated.encode ++ r.data) ++ more) (t.length + 6) 2 = 48 := by
      unfold isValidLegacyRecordHeader at valid'
      have header : h'.headerSize = 48 := (of_decide_eq_true valid').2.2
      simp only [h'_eq, LegacyValueRecordHeader.decode] at header
      rw [natAt_slice (by omega), Nat.add_assoc (source + 48)] at header
      rw [List.append_assoc, natAt_append_right (by omega), List.append_assoc,
        natAt_append_right (by rw [ValueRecordHeader.encode_length]; omega), ValueRecordHeader.encode_length,
        natAt_append_left (by omega), show t.length + 6 - v.length - 24 = h.dataSize + 6 by omega,
        ← data (h.dataSize + 6) 2 (by omega), header]
    rw [same', old] at new
    cases new

end Log

end LumoDB
