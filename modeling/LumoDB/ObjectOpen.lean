import LumoDB.CheckedOpen
import LumoDB.ObjectRebuild

namespace LumoDB
open ByteCodec Effects LinearProbing

/-- The file begins with a header that its `Open` takes. -/
def HasHeader (magic b : Bytes) : Prop :=
  24 ≤ b.length ∧ isValidFileHeader magic (ValueFileHeader.decode (slice b 0 24)) = true

/-- The value file as an `Open` finds it: the records of `log`, or no file or
an empty one before the first record. -/
def ValuesOnDisk (w : World) (log : ObjectLog) : Prop :=
  w.disk .values = some (valueFileBytes log) ∨
    log = [] ∧ (w.disk .values = none ∨ w.disk .values = some [])

/-- The index as an `Open` finds it: none, a file the layout check rejects,
or an index of the records of `log`. -/
def IndexOnDisk (H : HashFunctions) (w : World) (log : ObjectLog) : Prop :=
  ∀ b, w.disk .index = some b → ¬ Accepted b ∧ ¬ Overreads b ∨
    ∃ n slot off, Indexed H (valueFileBytes log) b log n slot off

section Values
variable {w : World} {log : ObjectLog}

theorem ValueFileHeader.decode_default (magic : Bytes) (eight : magic.length = 8) :
    ValueFileHeader.decode { magic := magic : ValueFileHeader }.encode = { magic := magic } := by
  rw [decode_encode _ eight]
  rfl

theorem valueFileBytes_header (log : ObjectLog) :
    ValueFileHeader.decode (slice (valueFileBytes log) 0 24) = { : ValueFileHeader } := by
  have front : slice (valueFileBytes log) 0 24 = ({ : ValueFileHeader }).encode := by
    have length := valueHeader_length
    rw [valueFileBytes, slice_append_left (by omega)]
    simp only [slice, List.drop_zero, List.take_of_length_le length.le]
  rw [front]
  exact ValueFileHeader.decode_default kValueFileMagic rfl

theorem valueFileBytes_length (log : ObjectLog) : (valueFileBytes log).length = 24 + (encodeLog log).length := by
  rw [valueFileBytes, List.length_append, valueHeader_length]

theorem not_legacy_of_valid {h : ValueFileHeader} (valid : isValidFileHeader kValueFileMagic h = true) :
    ¬ isValidFileHeader kLegacyValueFileMagic h = true := by
  simp only [isValidFileHeader, decide_eq_true_eq] at valid ⊢
  rw [valid.1]
  exact fun legacy => absurd legacy.1 (by decide)

/-- A file with a header opens, whatever is behind it. -/
theorem openValueFile_headed {v : Bytes} (present : w.disk .values = some v) (headed : HasHeader kValueFileMagic v)
    (small : v.length < 2 ^ 63) :
    Runs (openValueFile false) w ()
      ((w.setFile .values (some v)).setMembers fun m => { m.setDescriptor .values true with appendOffset := v.length }) := by
  obtain ⟨long, valid⟩ := headed
  have content : ((w.setFile .values (some ((w.disk .values).getD []))).setMembers
      (·.setDescriptor .values true)).disk .values = some v := by
    simp [World.setFile, World.setMembers, present]
  have same : w.setFile .values (some ((w.disk .values).getD [])) = w.setFile .values (some v) := by
    rw [present, Option.getD_some]
  have header := @readAllAt_runs _ _ _ 0 24 content (by omega) small
  unfold Runs openValueFile openAs
  rw [if_neg (by decide), Prog.bind_eq, (openReadWriteCreate_runs w .values).bind, Prog.bind_eq,
    (getFileSize_runs content).bind, if_neg (by omega), if_neg (by omega), Prog.bind_eq, header.bind]
  simp only
  rw [if_neg (not_legacy_of_valid valid), if_neg (not_not.mpr valid), same]
  rfl

/-- A file that begins with the header has one, whatever is behind its
records. -/
theorem hasHeader_of_begins {v tail : Bytes} (begins : v = valueFileBytes log ++ tail) : HasHeader kValueFileMagic v := by
  have long := valueFileBytes_length log
  refine ⟨by rw [begins, List.length_append]; omega, ?_⟩
  rw [begins, slice_append_left (by omega), valueFileBytes_header]
  rfl

theorem openValueFile_runs (disk : ValuesOnDisk w log) (small : (valueFileBytes log).length < 2 ^ 63) :
    Runs (openValueFile false) w ()
      ((w.setFile .values (some (valueFileBytes log))).setMembers fun m =>
        { m.setDescriptor .values true with appendOffset := (valueFileBytes log).length }) := by
  rcases disk with full | ⟨rfl, fresh⟩
  · exact openValueFile_headed full (hasHeader_of_begins (List.append_nil _).symm) small
  · unfold Runs openValueFile openAs
    rw [if_neg (by decide), Prog.bind_eq, (openReadWriteCreate_runs w .values).bind]
    have empty : (w.disk .values).getD [] = [] := by rcases fresh with none | some <;> simp [*]
    rw [empty]
    have content : ((w.setFile .values (some [])).setMembers (·.setDescriptor .values true)).disk .values =
        some [] := by simp [World.setFile, World.setMembers]
    have header := @writeAllAt_runs _ _ _ 0 (({ : ValueFileHeader }).encode) content
      (List.ne_nil_of_length_pos (by rw [valueHeader_length]; decide)) (by rw [valueHeader_length]; decide)
    rw [Prog.bind_eq, (getFileSize_runs content).bind, if_pos (by rfl), if_neg (by decide), Prog.bind_eq,
      header.bind]
    have written : patch [] 0 ({ : ValueFileHeader }).encode = valueFileBytes [] := by
      simp [patch, valueFileBytes, encodeLog]
    have length : (valueFileBytes []).length = 24 := by rw [valueFileBytes_length, encodeLog]; rfl
    rw [written, length]
    simp [setAppendOffset, setMembers, run, system, Prog.perform, World.setFile, World.setMembers,
      Members.setDescriptor]

end Values

section Index
variable {H : HashFunctions} {w : World} {log : ObjectLog}

/-- An index that is missing or fails the layout check is rebuilt. -/
theorem createAndRebuildIndex_runs {old : Bytes} (content : w.disk .index = some old)
    (reads : ReadsValues w (valueFileBytes log)) (load : LoadFactorOk w.members.options.maxLoadFactor)
    (fits : ∀ r ∈ log, r.1.Fits) (append : w.members.appendOffset = (valueFileBytes log).length)
    (bounded : Bounded (createAndRebuildIndex H) w) :
    ∃ b n slot off, Runs (createAndRebuildIndex H) w () (w.withMapped .index b) ∧
      Indexed H (valueFileBytes log) b log n slot off := by
  unfold createAndRebuildIndex at bounded
  replace bounded := bounded.rest (getMembers_runs w)
  obtain ⟨n, rounded, small⟩ := Bounded.createEmptyIndex bounded.first
  obtain ⟨_, e, _, _, power⟩ := roundUpPowerOfTwo_spec rounded
  have created := createEmptyIndex_runs content rounded small
  obtain ⟨b, n', slot, off, rebuilt, indexed⟩ := rebuildIndexFromValues_runs reads load fits power small
    (bounded.rest created)
  refine ⟨b, n', slot, off, ?_, indexed⟩
  unfold Runs createAndRebuildIndex
  rw [Prog.bind_eq, (getMembers_runs w).bind, Prog.bind_eq, created.bind, rebuilt, ← append]
  rfl

theorem not_accepted_nil : ¬ Accepted [] := by
  rintro ⟨n, file⟩
  have length := file.length
  simp only [List.length_nil] at length
  omega

theorem not_overreads_nil : ¬ Overreads [] := fun exceeds => absurd exceeds.1.1 (by simp)

theorem openIndexFile_runs (disk : IndexOnDisk H w log) (unmapped : w.members.maps .index = none)
    (reads : ReadsValues w (valueFileBytes log)) (load : LoadFactorOk w.members.options.maxLoadFactor)
    (fits : ∀ r ∈ log, r.1.Fits) (append : w.members.appendOffset = (valueFileBytes log).length)
    (bounded : Bounded (openIndexFile H false) w) :
    ∃ b, Runs (openIndexFile H false) w () (w.opened .index b) ∧
      ∃ n slot off, Indexed H (valueFileBytes log) b log n slot off := by
  set b := w.present .index with b_eq
  have sees := w.sees_opened .index b
  have checks : ¬ Accepted b ∧ ¬ Overreads b ∨ ∃ n slot off, Indexed H (valueFileBytes log) b log n slot off := by
    cases present : w.disk .index with
    | none =>
      have empty : b = [] := by rw [b_eq, World.present, present]; rfl
      rw [empty]
      exact Or.inl ⟨not_accepted_nil, not_overreads_nil⟩
    | some found =>
      have same : found = b := by rw [b_eq, World.present, present]; rfl
      exact disk b (by rw [present, same])
  refine openChecked_runs unmapped ?_ bounded
  rcases checks with ⟨refused, inside⟩ | ⟨n, slot, off, indexed⟩
  · refine Or.inr ⟨fun small _ => hasValidIndexLayout_rejects sees small refused inside, fun bounded => ?_⟩
    have reads' : ReadsValues (w.found .index b) (valueFileBytes log) :=
      ⟨by rw [w.found_disk_ne b (by decide), reads.content], reads.small, reads.map⟩
    obtain ⟨b', n, slot, off, rebuilt, indexed⟩ := createAndRebuildIndex_runs (w.found_disk .index b) reads' load fits
      append bounded
    rw [World.found_withMapped] at rebuilt
    exact ⟨b', rebuilt, n, slot, off, indexed⟩
  · have length := indexed.table.length
    have small := indexed.table.small
    exact Or.inl ⟨show 0 < b.length by omega, show b.length < 2 ^ 63 by omega, ⟨n, slot, off, indexed⟩,
      hasValidIndexLayout_accepts sees indexed.table.accepted⟩

end Index

end LumoDB
