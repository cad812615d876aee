import LumoDB.RowStore

namespace LumoDB
open ByteCodec Effects LinearProbing

/-- The blocks in the order a rebuild meets them: shard by shard. -/
def scanLog (log : RowLog) (first rounds : Nat) : RowLog := (List.range' first rounds).flatMap (shardLog log)

def rowWrites (log : RowLog) (k : RowKey) : RowLog := log.filter fun r => r.key = k

/-- The most recent write of a row. -/
def lastWrite (log : RowLog) (k : RowKey) : Option RowRecord := (rowWrites log k).getLast?

section Shards
variable {H : HashFunctions} {log : RowLog} {r : RowRecord} {k : RowKey} {shardId first rounds count : Nat}

theorem mem_shardLog : r ∈ shardLog log shardId ↔ r ∈ log ∧ r.shardId = shardId := by
  simp [shardLog]

theorem mem_rowWrites : r ∈ rowWrites log k ↔ r ∈ log ∧ r.key = k := by
  simp [rowWrites]

theorem mem_scanLog : r ∈ scanLog log first rounds ↔ r ∈ log ∧ first ≤ r.shardId ∧ r.shardId < first + rounds := by
  rw [scanLog, List.mem_flatMap]
  constructor
  · rintro ⟨i, within, inside⟩
    obtain ⟨member, rfl⟩ := mem_shardLog.mp inside
    exact ⟨member, List.mem_range'_1.mp within⟩
  · rintro ⟨member, within⟩
    exact ⟨r.shardId, List.mem_range'_1.mpr within, mem_shardLog.mpr ⟨member, rfl⟩⟩

theorem scanLog_succ (log : RowLog) (first rounds : Nat) :
    scanLog log first (rounds + 1) = shardLog log first ++ scanLog log (first + 1) rounds := by
  rw [scanLog, List.range'_succ, List.flatMap_cons]
  rfl

theorem scanLog_add (log : RowLog) (first rounds more : Nat) :
    scanLog log first (rounds + more) = scanLog log first rounds ++ scanLog log (first + rounds) more := by
  unfold scanLog
  rw [← List.range'_append_1, List.flatMap_append]

theorem scanLog_eq_nil (none_inside : ∀ r ∈ log, r.shardId < first ∨ first + rounds ≤ r.shardId) :
    scanLog log first rounds = [] := by
  rw [List.eq_nil_iff_forall_not_mem]
  intro r member
  obtain ⟨held, lower, upper⟩ := mem_scanLog.mp member
  rcases none_inside r held with below | above <;> omega

/-- The scan has the blocks of every shard in the order of the file. -/
theorem shardLog_scanLog (lower : first ≤ shardId) (upper : shardId < first + rounds) :
    shardLog (scanLog log first rounds) shardId = shardLog log shardId := by
  obtain ⟨before, rfl⟩ := Nat.exists_eq_add_of_le lower
  obtain ⟨after, rfl⟩ := Nat.exists_eq_add_of_lt (show before < rounds by omega)
  have earlier : shardLog (scanLog log first before) (first + before) = [] := by
    rw [List.eq_nil_iff_forall_not_mem]
    intro r member
    obtain ⟨scanned, here⟩ := mem_shardLog.mp member
    obtain ⟨_, _, upper⟩ := mem_scanLog.mp scanned
    omega
  have later : shardLog (scanLog log (first + before + 1) after) (first + before) = [] := by
    rw [List.eq_nil_iff_forall_not_mem]
    intro r member
    obtain ⟨scanned, here⟩ := mem_shardLog.mp member
    obtain ⟨_, lower, _⟩ := mem_scanLog.mp scanned
    omega
  have split : scanLog log first (before + after + 1) =
      scanLog log first before ++ (shardLog log (first + before) ++ scanLog log (first + before + 1) after) := by
    rw [Nat.add_assoc, scanLog_add, scanLog_succ]
  have whole : shardLog (shardLog log (first + before)) (first + before) = shardLog log (first + before) := by
    simp [shardLog]
  rw [split, shardLog, List.filter_append, List.filter_append]
  change shardLog _ _ ++ (shardLog _ _ ++ shardLog _ _) = _
  rw [earlier, later, whole, List.nil_append, List.append_nil]

theorem RowRecord.Complete.block_length (complete : r.Complete H) : 72 ≤ r.block.length := by
  obtain ⟨_, _, _, _, t⟩ := complete.row
  have length := t.shape.length
  omega

theorem encodeRows_length_ge (complete : ∀ r ∈ log, r.Complete H) : log.length ≤ (encodeRows log).length := by
  induction log with
  | nil => exact Nat.zero_le _
  | cons r log ih =>
    have long := (complete r List.mem_cons_self).block_length
    have rest := ih fun r' member => complete r' (List.mem_cons_of_mem _ member)
    have split : encodeRows (r :: log) = r.block ++ encodeRows log := rfl
    rw [split, List.length_append, List.length_cons]
    omega

theorem shardBytes_length_ge (complete : ∀ r ∈ log, r.Complete H) (shardId : Nat) :
    24 + (shardLog log shardId).length ≤ (shardBytes log shardId).length := by
  have inside : ∀ r ∈ shardLog log shardId, r.Complete H := fun r member => complete r (mem_shardLog.mp member).1
  have blocks := encodeRows_length_ge inside
  rw [shardBytes, List.length_append, rowHeader_length]
  omega

end Shards

section Last
variable {log : RowLog} {r : RowRecord} {k : RowKey} {count : Nat}

theorem rowWrites_append (log more : RowLog) (k : RowKey) :
    rowWrites (log ++ more) k = rowWrites log k ++ rowWrites more k := List.filter_append ..

/-- What a row holds is what its most recent write put there. -/
theorem putRows_eq_lastWrite (log : RowLog) (k : RowKey) :
    putRows noRows log k = (lastWrite log k).map RowRecord.content := by
  induction log using List.reverseRecOn with
  | nil => rfl
  | append_singleton log r ih =>
    rw [putRows_append, putRows_singleton, lastWrite, rowWrites_append]
    by_cases same : r.key = k
    · rw [same, Function.update_self]
      simp [rowWrites, same]
    · rw [Function.update_of_ne (Ne.symm same), ih, lastWrite]
      simp [rowWrites, same]

theorem rowWrites_scanLog (log : RowLog) (k : RowKey) (first rounds : Nat) :
    rowWrites (scanLog log first rounds) k = scanLog (rowWrites log k) first rounds := by
  unfold rowWrites scanLog
  rw [List.filter_flatMap]
  refine List.flatMap_congr fun i _ => ?_
  unfold shardLog
  rw [List.filter_comm]

theorem lastWrite_mem (last : lastWrite log k = some r) : r ∈ log ∧ r.key = k :=
  mem_rowWrites.mp (List.mem_of_getLast? last)

/-- A scan ends with a row's most recent write when no block of the row lies
in a later shard. -/
theorem lastWrite_scanLog (last : lastWrite log k = some r) (inside : r.shardId < count)
    (topmost : ∀ r' ∈ log, r'.key = k → r'.shardId ≤ r.shardId) : lastWrite (scanLog log 0 count) k = some r := by
  obtain ⟨after, rfl⟩ := Nat.exists_eq_add_of_lt inside
  obtain ⟨front, split⟩ := List.getLast?_eq_some_iff.mp last
  have above : scanLog (rowWrites log k) (0 + r.shardId + 1) after = [] := by
    refine scanLog_eq_nil fun r' member => Or.inl ?_
    obtain ⟨held, key⟩ := mem_rowWrites.mp member
    have bound := topmost r' held key
    omega
  have order : r.shardId + after + 1 = r.shardId + 1 + after := by omega
  have ended : shardLog (front ++ [r]) r.shardId = shardLog front r.shardId ++ [r] := by
    simp [shardLog]
  have top : scanLog (rowWrites log k) (0 + r.shardId) 1 = shardLog (rowWrites log k) r.shardId := by
    rw [scanLog_succ, Nat.zero_add, scanLog, List.range'_zero, List.flatMap_nil, List.append_nil]
  rw [lastWrite, rowWrites_scanLog, order, scanLog_add, ← Nat.add_assoc, above, List.append_nil, scanLog_add, top, split, ended,
    ← List.append_assoc, List.getLast?_concat]

/-- When no row is split over shards, a rebuild finds the rows as the writes
left them. -/
theorem putRows_scanLog (inside : ∀ r ∈ log, r.shardId < count)
    (topmost : ∀ k r, lastWrite log k = some r → ∀ r' ∈ log, r'.key = k → r'.shardId ≤ r.shardId) :
    putRows noRows (scanLog log 0 count) = putRows noRows log := by
  funext k
  rw [putRows_eq_lastWrite, putRows_eq_lastWrite]
  cases last : lastWrite log k with
  | some r => rw [lastWrite_scanLog last (inside r (lastWrite_mem last).1) (topmost k r last)]
  | none =>
    have empty : rowWrites log k = [] := List.getLast?_eq_none_iff.mp last
    rw [lastWrite, rowWrites_scanLog, empty, scanLog_eq_nil fun r member => absurd member List.not_mem_nil]
    rfl

end Last

end LumoDB
