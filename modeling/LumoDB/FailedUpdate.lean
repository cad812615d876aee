import LumoDB.Faults
import LumoDB.ObjectRefinement
import LumoDB.WrappedIndex

namespace LumoDB
open ByteCodec Effects LinearProbing

/-- The operations that fail are reads of the value file. -/
def FailingReads (bad : Op → Bool) : Prop := ∀ o, bad o = true → ∃ offset size, o = .readAt .values offset size

/-- The steps of `PutStructs` up to the lookup of the entry at `position`. -/
def updatesBefore (H : HashFunctions) (column : Bytes) (entries : List StructEntry) (position appendOffset : Nat) : Db Unit := do
  ensureCapacityForInsert entries.length
  writeAllAt .values appendOffset (encodeLog (recordsOf column entries))
  indexRecords H column (H.hashString column) false ((pendingRecords H column entries appendOffset).1.take position)

/-- On the machine `h` the batch is appended, and then `FindBucket` returns
the error `e` for the entry at `position`. -/
structure FailsAt (H : HashFunctions) (h : Handler signature World) (column : Bytes) (entries : List StructEntry)
    (position : Nat) (w : World) (e : Status) (w' : World) : Prop where
  accepted : AcceptsStructs column entries
  lookup : ∃ entry w₁, entries[position]? = some entry ∧
    run h (updatesBefore H column entries position w.members.appendOffset) w = .ok () w₁ ∧
    run h (findBucket H column entry.key (H.hashString column) (H.hashString entry.key)) w₁ = .error e w'

/-- Successful `PutStructs` calls one after the other. -/
inductive Puts (H : HashFunctions) (h : Handler signature World) : List (Bytes × List StructEntry) → World → World → Prop where
  | start (w) : Puts H h [] w w
  | next {column entries later w w₁ w'} (put : run h (putStructs H column entries) w = .ok () w₁)
      (rest : Puts H h later w₁ w') : Puts H h ((column, entries) :: later) w w'

/-- The call returns on the machine `h` in `w` what it returns in `w'` when no
system call fails. -/
inductive AnswersAs {α : Type} (h : Handler signature World) (p : Db α) (w w' : World) : Prop where
  | ok {a} : run h p w = .ok a w → Runs p w' a w' → AnswersAs h p w w'
  | error {e} : run h p w = .error e w → run system p w' = .error e w' → AnswersAs h p w w'

/-- After the call that led from `w` to `w'`, and after any further successful
`PutStructs` calls, everything is as it would be without that call: for each
`GetStruct` that performs no refused read, and for `EntryCount`. -/
def LeavesStore (H : HashFunctions) (bad : Op → Bool) (e : Status) (w w' : World) : Prop :=
  ∀ later u u', Puts H (refusing bad e) later w' u → Puts H system later w u' →
    (∀ column key, Within system (fun o => bad o = false) (getStruct H column key) u →
      AnswersAs (refusing bad e) (getStruct H column key) u u') ∧
    AnswersAs (refusing bad e) entryCount u u'

section Error
variable {H : HashFunctions} {h : Handler signature World} {w w' : World} {column : Bytes} {entries : List StructEntry}
  {position : Nat} {e : Status}

theorem indexRecords_append (columnHash : Nat) (keysAreUnique : Bool) (records more : List PendingRecord) :
    indexRecords H column columnHash keysAreUnique (records ++ more) =
      (indexRecords H column columnHash keysAreUnique records).bind fun _ =>
        indexRecords H column columnHash keysAreUnique more := by
  induction records with
  | nil => rfl
  | cons r later ih =>
    rw [List.cons_append, indexRecords, indexRecords, Prog.bind_eq, Prog.bind_eq, Prog.bind_assoc, ih]

theorem pendingRecords_getElem? {entry : StructEntry} {offset : Nat} (at_position : entries[position]? = some entry) :
    ∃ r later, (pendingRecords H column entries offset).1.drop position = r :: later ∧ r.key = entry.key ∧
      r.keyHash = H.hashString entry.key := by
  induction entries generalizing position offset with
  | nil => cases at_position
  | cons first later ih =>
    cases position with
    | zero =>
      cases at_position
      exact ⟨_, _, rfl, rfl, rfl⟩
    | succ position => exact ih at_position

/-- `WriteStructs` returns the error of the lookup. -/
theorem FailsAt.returns (fails : FailsAt H h column entries position w e w') (serving : Serving w)
    (members : h .members w = some (w.members, w)) : run h (putStructs H column entries) w = .error e w' := by
  obtain ⟨entry, w₁, at_position, reached, failed⟩ := fails.lookup
  have given : entries ≠ [] := by
    rintro rfl
    cases at_position
  obtain ⟨steps, split, same⟩ := @writeStructs_accepted H _ _ false fails.accepted given
  obtain ⟨r, later, here, key, hash⟩ := @pendingRecords_getElem? H column entries position entry w.members.appendOffset at_position
  have records := List.take_append_drop position (pendingRecords H column entries w.members.appendOffset).1
  rw [here] at records
  have program : steps w.members = (updatesBefore H column entries position w.members.appendOffset).bind fun _ =>
      (indexRecords H column (H.hashString column) false (r :: later)).bind fun _ =>
        setMembers fun m' => { m' with appendOffset := (pendingRecords H column entries w.members.appendOffset).2 } := by
    rw [same _ serving.isOpen serving.writable, ← records, indexRecords_append, updatesBefore]
    simp only [Prog.bind_eq, Prog.bind_assoc]
  have lookup : run h (indexRecords H column (H.hashString column) false (r :: later)) w₁ = .error e w' := by
    rw [indexRecords, indexRecord, key, hash]
    simp only [Bool.false_eq_true, if_false, Prog.bind_eq]
    rw [Prog.bind_assoc]
    exact run_bind_error h failed _
  unfold putStructs
  rw [split, getMembers, run_bind_ok h (run_perform_of h members), program, run_bind_ok h reached]
  exact run_bind_error h lookup _

end Error

section First
variable {H : HashFunctions} {bad : Op → Bool} {e e' : Status} {w w' u u' : World} {log : ObjectLog} {tail b : Bytes} {n : Nat}
  {slot : Nat → Option ObjectKey} {off : ObjectKey → Nat} {column : Bytes} {entries : List StructEntry}

theorem FailingReads.spares {o : Op} (failing : FailingReads bad) (other : ∀ offset size, o ≠ .readAt .values offset size) :
    bad o = false := by
  by_contra hit
  obtain ⟨offset, size, same⟩ := failing o (by simpa using hit)
  exact other offset size same

/-- If already the first lookup fails nothing is indexed: the batch is behind
the append offset. -/
theorem FailsAt.tailed (failing : FailingReads bad) (fails : FailsAt H (refusing bad e) column entries 0 w e' w') (store : ObjectStore H w log)
    (serving : Serving w) : (∃ tail b n slot off, TailedFiles H w' log tail b n slot off) ∧ Serving w' := by
  obtain ⟨b, n, slot, off, files⟩ := store
  obtain ⟨entry, w₁, at_first, reached, failed⟩ := fails.lookup
  have given : entries ≠ [] := by
    rintro rfl
    cases at_first
  have stays : w' = w₁ := unchanged_of_reads (reads_only.findBucket _ _ _ _) (by rw [failed]; rfl)
  subst stays
  unfold updatesBefore at reached
  have plain := runs_of_refusing (writes_strict.bind (writes_strict.ensureCapacityForInsert _) fun _ =>
    writes_strict.bind (writes_strict.writeAllAt _ _) fun _ => writes_strict.indexRecords _ _ _ _) reached
  obtain ⟨_, w₁, ensured, later⟩ := Runs.split plain
  obtain ⟨_, w₂, appended, nothing⟩ := Runs.split later
  cases nothing
  have kept : Bounded (ensureCapacityForInsert entries.length) w ∨ w₁.HeaderOnly := by
    have self := files.self
    have cases_of := @ensureCapacityForInsert_inv H w w₁ b n entries.length slot off files.table (by rw [self]; exact ensured)
    rwa [self] at cases_of
  rcases kept with bounded | broken
  · obtain ⟨b₁, n₁, slot₁, ensured', files₁, _⟩ := files.tailed.ensureCapacityForInsert serving.load bounded
    obtain ⟨_, rfl⟩ := Runs.unique ensured ensured'
    have small := files.small
    have nonempty := encodeLog_ne_nil column given
    have fits := writeAllAt_inv files₁.content (by rw [files.appendOffset]; omega) nonempty appended
    obtain ⟨written, files₂⟩ := files₁.append nonempty fits
    obtain ⟨_, rfl⟩ := Runs.unique appended written
    exact ⟨⟨_, b₁, n₁, slot₁, off, files₂⟩, ⟨serving.isOpen, serving.writable, serving.load⟩⟩
  · have last := broken.writeAllAt appended
    rw [run_refusing_of_within (findBucket_headerOnly_within last (fun offset width => failing.spares (o := .load .index offset width) nofun)
      (fun offset size => failing.spares (o := .loadBytes .index offset size) nofun) _ _ _ _),
      findBucket_headerOnly last] at failed
    cases failed

theorem TailedFiles.put (files : TailedFiles H w log tail b n slot off) (serving : Serving w)
    (put : Runs (putStructs H column entries) w () w') :
    (∃ tail b n slot off, TailedFiles H w' (log ++ recordsOf column entries) tail b n slot off) ∧ Serving w' := by
  by_cases accepted : AcceptsStructs column entries
  · obtain ⟨b', n', slot', off', runs, files'⟩ := files.writeStructs serving accepted (fun unique : false = true => nomatch unique) (files.bounded serving accepted put)
    obtain ⟨_, rfl⟩ := Runs.unique put runs
    exact ⟨⟨_, b', n', slot', off', files'⟩, ⟨serving.isOpen, serving.writable, serving.load⟩⟩
  · obtain ⟨e, refused⟩ := writeStructs_rejects (H := H) serving accepted false
    cases put.symm.trans refused

/-- Later successful calls go on from the store as it was. -/
theorem Puts.tailed {h : Handler signature World} {later : List (Bytes × List StructEntry)} (puts : Puts H h later w w')
    (plain : ∀ column entries w w', run h (putStructs H column entries) w = .ok () w' → Runs (putStructs H column entries) w () w')
    (files : TailedFiles H w log tail b n slot off) (serving : Serving w) :
    (∃ tail b n slot off, TailedFiles H w' (log ++ later.flatMap fun call => recordsOf call.1 call.2) tail b n slot off) ∧
      Serving w' := by
  induction puts generalizing log tail b n slot off with
  | start w =>
    rw [List.flatMap_nil, List.append_nil]
    exact ⟨⟨tail, b, n, slot, off, files⟩, serving⟩
  | next put rest ih =>
    obtain ⟨⟨tail₁, b₁, n₁, slot₁, off₁, files₁⟩, serving₁⟩ := files.put serving (plain _ _ _ _ put)
    obtain last := ih files₁ serving₁
    rwa [List.append_assoc] at last

end First

section Failure
variable {H : HashFunctions} {retries : Nat} {start : DatabaseOptions} {trace : Trace} {bad : Op → Bool} {e e' : Status}
  {w w' : World} {column : Bytes} {entries : List StructEntry}

/-- Wherever in the batch `FindBucket` fails `PutStructs` returns its error. If
it fails for the first entry, the call leaves no trace: it and the calls after
it could as well not have been made. -/
theorem failed_update_leaves_store (history : History H retries start trace w) (failing : FailingReads bad) :
    (∀ position, FailsAt H (refusing bad e) column entries position w e' w' →
      run (refusing bad e) (putStructs H column entries) w = .error e' w') ∧
    (FailsAt H (refusing bad e) column entries 0 w e' w' → LeavesStore H bad e w w') := by
  obtain ⟨s, active, _⟩ := history.active
  have serving := active.serving
  refine ⟨fun position fails => fails.returns serving ?_, fun fails later u u' puts puts' => ?_⟩
  · rw [refusing, failing.spares (o := .members) (by simp), if_neg (by decide)]
    rfl
  obtain ⟨⟨tail, b, n, slot, off, files⟩, serving'⟩ := fails.tailed failing active.objects serving
  obtain ⟨⟨_, b₁, n₁, slot₁, off₁, files₁⟩, serving₁⟩ := puts.tailed
    (fun _ _ _ _ => runs_of_refusing (writes_strict.writeStructs _ _ _)) files serving'
  obtain ⟨b₀, n₀, slot₀, off₀, store⟩ := active.objects
  obtain ⟨⟨_, b₂, n₂, slot₂, off₂, files₂⟩, serving₂⟩ := puts'.tailed (fun _ _ _ _ => id) store.tailed serving
  refine ⟨fun column key avoids => ?_, ?_⟩
  · have real := run_refusing_of_within (e := e) avoids
    cases held : putAll (fun _ => none) (written trace ++ later.flatMap fun call => recordsOf call.1 call.2) (column, key) with
    | some value =>
      exact .ok (real.trans (files₁.view.getStruct serving₁.isOpen held)) (files₂.view.getStruct serving₂.isOpen held)
    | none =>
      exact .error (real.trans (files₁.view.getStruct_absent serving₁.isOpen held))
        (files₂.view.getStruct_absent serving₂.isOpen held)
  · have counted := files₁.view.entryCount
    have counted' := files₂.view.entryCount
    rw [files₁.table.filled_eq_pairs files₁.represents] at counted
    rw [files₂.table.filled_eq_pairs files₂.represents] at counted'
    have plain : entryCount.Only fun o => bad o = false :=
      .bind ⟨failing.spares (o := .members) (by simp), fun _ => trivial⟩ fun m => by
        split
        · exact trivial
        · exact ⟨failing.spares (o := .load .index 24 8) (by simp), fun _ => trivial⟩
    exact .ok ((run_refusing plain u).trans counted) counted'

/-- The read of the header of the first record fails. -/
def firstHeader : Op → Bool
  | .readAt .values 24 24 => true
  | _ => false

theorem firstHeader_failing : FailingReads firstHeader := by
  intro o hit
  unfold firstHeader at hit
  split at hit
  · exact ⟨24, 24, rfl⟩
  · cases hit

/-- What a run of the steps and the lookup shows of a failure. -/
theorem FailsAt.of_run {h : Handler signature World} {position : Nat} {entry : StructEntry} (accepted : AcceptsStructs column entries)
    (at_position : entries[position]? = some entry)
    (reached : (run h (updatesBefore H column entries position w.members.appendOffset) w).value? = some ())
    (failed : (run h ((updatesBefore H column entries position w.members.appendOffset).bind fun _ =>
      findBucket H column entry.key (H.hashString column) (H.hashString entry.key)) w).error? = some e) :
    ∃ w', FailsAt H h column entries position w e w' ∧
      (run h ((updatesBefore H column entries position w.members.appendOffset).bind fun _ =>
        findBucket H column entry.key (H.hashString column) (H.hashString entry.key)) w).state? = some w' := by
  cases first : run h (updatesBefore H column entries position w.members.appendOffset) w with
  | ok _ w₁ =>
    rw [run_bind_ok h first] at failed ⊢
    cases second : run h (findBucket H column entry.key (H.hashString column) (H.hashString entry.key)) w₁ with
    | error e' w' =>
      rw [second] at failed
      cases failed
      exact ⟨w', ⟨accepted, entry, w₁, at_position, first, second⟩, rfl⟩
    | _ =>
      rw [second] at failed
      cases failed
  | _ =>
    rw [first] at reached
    cases reached

def oneRecord : List Call := [.putStructs [2] [⟨[1], [7]⟩]]

def oldThenNew : List StructEntry := [⟨[1], [8]⟩, ⟨[9], [8]⟩]

def newThenOld : List StructEntry := [⟨[9], [8]⟩, ⟨[1], [8]⟩]

theorem failed_update_leaves_store_sample : ∃ w w', History .shipped 0 (smallOptions 1) [(.putStructs [2] [⟨[1], [7]⟩], true)] w ∧
    run (refusing firstHeader (.ioError "pread")) (putStructs .shipped [2] oldThenNew) w = .error (.ioError "pread") w' ∧
    LeavesStore .shipped firstHeader (.ioError "pread") w w' := by
  obtain ⟨w, history, reached, failed⟩ := @History.exists_of_replay .shipped 0 (smallOptions 1) oneRecord
    [(.putStructs [2] [⟨[1], [7]⟩], true)] (fun w =>
      (run (refusing firstHeader (.ioError "pread")) (updatesBefore .shipped [2] oldThenNew 0 w.members.appendOffset) w).value? =
        some () ∧
      (run (refusing firstHeader (.ioError "pread")) ((updatesBefore .shipped [2] oldThenNew 0 w.members.appendOffset).bind
        fun _ => findBucket .shipped [2] [1] (HashFunctions.shipped.hashString [2]) (HashFunctions.shipped.hashString [1])) w).error? =
        some (.ioError "pread")) _ (by decide +kernel)
  obtain ⟨w', fails, _⟩ := @FailsAt.of_run .shipped _ w [2] oldThenNew _ 0 ⟨[1], [8]⟩ ⟨by decide, by decide⟩ rfl reached failed
  exact ⟨w, w', history, (failed_update_leaves_store history firstHeader_failing).1 0 fails,
    (failed_update_leaves_store history firstHeader_failing).2 fails⟩

/-- A new key and then a stored one, whose record cannot be read: the new key
is counted although the call failed. -/
theorem failed_update_counts_entry : ¬ ∀ (H : HashFunctions) (start : DatabaseOptions) (trace : Trace) (bad : Op → Bool)
    (e e' : Status) (w w' : World) (column : Bytes) (entries : List StructEntry) (position : Nat),
    History H 0 start trace w → FailingReads bad → FailsAt H (refusing bad e) column entries position w e' w' →
    SameAnswer entryCount w w' := by
  intro same
  obtain ⟨w, history, reached, failed, before, after⟩ := @History.exists_of_replay .shipped 0 (smallOptions 1) oneRecord
    [(.putStructs [2] [⟨[1], [7]⟩], true)] (fun w =>
      (run (refusing firstHeader (.ioError "pread")) (updatesBefore .shipped [2] newThenOld 1 w.members.appendOffset) w).value? =
        some () ∧
      (run (refusing firstHeader (.ioError "pread")) ((updatesBefore .shipped [2] newThenOld 1 w.members.appendOffset).bind
        fun _ => findBucket .shipped [2] [1] (HashFunctions.shipped.hashString [2]) (HashFunctions.shipped.hashString [1])) w).error? =
        some (.ioError "pread") ∧
      (run system entryCount w).value? = some 1 ∧
      ((run (refusing firstHeader (.ioError "pread")) ((updatesBefore .shipped [2] newThenOld 1 w.members.appendOffset).bind
        fun _ => findBucket .shipped [2] [1] (HashFunctions.shipped.hashString [2]) (HashFunctions.shipped.hashString [1]))
        w).state?.bind fun w' => (run system entryCount w').value?) = some 2) _ (by decide +kernel)
  obtain ⟨w', fails, ended⟩ := @FailsAt.of_run .shipped _ w [2] newThenOld _ 1 ⟨[1], [8]⟩ ⟨by decide, by decide⟩ rfl reached failed
  rw [ended] at after
  cases same _ _ _ _ _ _ w w' _ _ _ history firstHeader_failing fails with
  | ok one two =>
    rw [one] at before
    rw [Option.bind_some, two] at after
    cases before
    cases after
  | error one two =>
    rw [one] at before
    cases before

end Failure

end LumoDB
