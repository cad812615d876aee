import LumoDB.Replay

namespace LumoDB
open ByteCodec Effects LinearProbing

section Update
variable {H : HashFunctions} {b v tail : Bytes} {n : Nat} {slot : Nat → Option ObjectKey} {off : ObjectKey → Nat}
  {m : ObjectKey → Option Bytes} {w : World}

/-- For a new key the search for an empty bucket stops at the bucket that the
lookup reports: no record on the way is one of the key. -/
theorem indexRecord_unique (k : ObjectKey) (r : PendingRecord) (key : r.key = k.2)
    (hash : r.keyHash = H.hashString k.2) (t : IndexTable H b n slot off) (located : Located v n slot off)
    (reads : ReadsValues w v) (absent : ¬ Stored n slot k) :
    run system (indexRecord H k.1 (H.hashString k.1) true r) (w.withMapped .index b) =
      run system (indexRecord H k.1 (H.hashString k.1) false r) (w.withMapped .index b) := by
  obtain ⟨i, placed, looked⟩ := @placeBucket_runs _ _ _ _ _ w "index table is full during unique insert" k
    r.recordOffset t absent
  obtain ⟨lookup, searched, looked'⟩ := findBucket_runs t located reads k
  obtain ⟨at_i, vacant⟩ : lookup.index = i ∧ lookup.found = false := looked.unique looked' t.table
  have stored := storeBucket_runs w ⟨objectHash H k, r.recordOffset⟩ t.toIndexFile looked.inside
  have counts : run system (indexRecord H k.1 (H.hashString k.1) true r) (w.withMapped .index b) =
      run system incrementItemCount (w.withMapped .index (putBucket b i ⟨objectHash H k, r.recordOffset⟩)) := by
    unfold indexRecord
    rw [hash]
    exact Runs.bind placed
  rw [counts]
  unfold indexRecord
  simp only [Bool.false_eq_true, if_false, Prog.bind_eq]
  rw [key, hash, searched.bind, at_i, vacant]
  exact (Runs.bind (f := fun _ => countUnless false) stored).symm

theorem indexRecords_unique {column done : Bytes} {entries : List StructEntry}
    (batch : BatchWritten H w v tail column entries done b n slot off m) (fresh : NewKeys m column entries) :
    run system (indexRecords H column (H.hashString column) true (pendingRecords H column entries done.length).1)
        (w.withMapped .index b) =
      run system (indexRecords H column (H.hashString column) false (pendingRecords H column entries done.length).1)
        (w.withMapped .index b) := by
  induction entries generalizing b slot off m done with
  | nil => rfl
  | cons entry later ih =>
    have room := batch.room
    rw [List.length_cons] at room
    obtain ⟨r, pending, key, hash, at_offset⟩ := batch.pending
    have absent := fresh.2 entry List.mem_cons_self
    have same := indexRecord_unique (column, entry.key) r key hash batch.table
      (batch.represents.append tail).located batch.reads ((batch.represents _).1 absent)
    obtain ⟨b₁, slot₁, off₁, placed, t₁, rep₁, count₁⟩ := indexRecord_runs true (column, entry.key) done.length r key hash
      at_offset batch.table batch.reads batch.represents batch.record (fun _ => absent) (by omega)
    have searched := same.symm.trans placed
    rw [pending, indexRecords, indexRecords, Prog.bind_eq, Prog.bind_eq, placed.bind, Runs.bind searched]
    exact ih (batch.next t₁ rep₁ count₁) fresh.next

end Update

section Batch
variable {H : HashFunctions} {w : World} {log : ObjectLog} {tail b : Bytes} {n : Nat} {slot : Nat → Option ObjectKey}
  {off : ObjectKey → Nat} {column : Bytes} {entries : List StructEntry}

/-- The two variants of `WriteStructs` differ in the index update only. -/
theorem TailedFiles.writeStructs_unique (files : TailedFiles H w log tail b n slot off) (serving : Serving w)
    (accepted : AcceptsStructs column entries) (given : entries ≠ []) (fresh : FreshKeys log column entries)
    (bounded : Bounded (LumoDB.writeStructs H column entries false) w) :
    run system (LumoDB.writeStructs H column entries true) w =
      run system (LumoDB.writeStructs H column entries false) w := by
  obtain ⟨steps, split, same⟩ := @writeStructs_accepted H _ _ false accepted given
  obtain ⟨steps', split', same'⟩ := @writeStructs_accepted H _ _ true accepted given
  rw [split] at bounded
  replace bounded := bounded.rest (getMembers_runs w)
  rw [same _ serving.isOpen serving.writable] at bounded
  obtain ⟨b₁, n₁, slot₁, ensured, written, files₂, room⟩ := files.writeBatch serving.load given bounded
  have unique := indexRecords_unique (files₂.batchWritten accepted room) fresh.newKeys
  rw [files₂.self] at unique
  have offset : w.members.appendOffset = (valueFileBytes log).length := files.appendOffset
  rw [split, split', (getMembers_runs w).bind, (getMembers_runs w).bind, same _ serving.isOpen serving.writable,
    same' _ serving.isOpen serving.writable, ensured.bind, ensured.bind, Runs.bind written, Runs.bind written, run_bind,
    run_bind, offset, unique]

/-- The argument checks are the same, and so is what they refuse. -/
theorem writeStructs_refused (nothing : ¬ (AcceptsStructs column entries ∧ entries ≠ [])) (w : World) :
    run system (writeStructs H column entries true) w = run system (writeStructs H column entries false) w := by
  unfold writeStructs
  rw [Prog.bind_eq, Prog.bind_eq, (getMembers_runs w).bind, (getMembers_runs w).bind]
  split_ifs with opened readOnly columnFits empty keysFit
  · rfl
  · rfl
  · refine absurd ⟨⟨(fitsUint32_iff _).mp columnFits, fun entry member => ?_⟩, empty⟩ nothing
    exact (fitsUint32_iff _).mp (List.all_eq_true.mp keysFit entry member)
  · rfl
  · rfl
  · rfl

end Batch

section Paths
variable {H : HashFunctions} {retries : Nat} {start : DatabaseOptions} {trace : Trace} {w : World} {column : Bytes}
  {entries : List StructEntry}

/-- For pairs that are new and different from each other `PutUniqueStructs`
and `PutStructs` return the same status and leave the same state, byte for
byte. -/
theorem unique_eq_upsert (history : History H retries start trace w) (fresh : FreshKeys (written trace) column entries)
    (bounded : Bounded (putStructs H column entries) w) :
    run system (putUniqueStructs H column entries) w = run system (putStructs H column entries) w ∧
      ∃ ok w', Returns (putStructs H column entries) w ok w' := by
  obtain ⟨s, active, _⟩ := history.active
  obtain ⟨ok, w', _, served, _⟩ := active.serves (show (Call.putStructs column entries).Contract (written trace) from trivial)
    (show Bounded ((Call.putStructs column entries).program H (retries + 1)) w from bounded)
  refine ⟨?_, ok, w', served.returns⟩
  by_cases given : AcceptsStructs column entries ∧ entries ≠ []
  · obtain ⟨b, n, slot, off, files⟩ := active.objects
    exact files.tailed.writeStructs_unique active.serving given.1 given.2 fresh bounded
  · exact writeStructs_refused given w

def oneStored : List Call := [.putStructs [2] [⟨[1], [8]⟩]]

theorem unique_eq_upsert_sample : ∃ w, History .shipped 0 (smallOptions 1) [(.putStructs [2] [⟨[1], [8]⟩], true)] w ∧
    run system (putUniqueStructs .shipped [2] [⟨[4], [5]⟩, ⟨[3], []⟩]) w =
      run system (putStructs .shipped [2] [⟨[4], [5]⟩, ⟨[3], []⟩]) w := by
  obtain ⟨w, history, bounded⟩ := @History.exists_of_replay .shipped 0 (smallOptions 1) oneStored
    [(.putStructs [2] [⟨[1], [8]⟩], true)]
    (fun w => Bounded (putStructs .shipped [2] [⟨[4], [5]⟩, ⟨[3], []⟩]) w) _ (by decide +kernel)
  exact ⟨w, history, (unique_eq_upsert history (by decide) bounded).1⟩

end Paths

end LumoDB
