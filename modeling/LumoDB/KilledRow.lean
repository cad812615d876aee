import LumoDB.KilledWrite
import LumoDB.ReadSteps
import LumoDB.RowCalls
import LumoDB.RowLayout

namespace LumoDB
open ByteCodec Effects LinearProbing

section Inner
variable {α : Type} {w w' t : World} {p : Db α} {o : Op}

/-- Operations that change members only. -/
def Op.Counts : Op → Prop
  | .setMembers _ | .appendFetchAdd _ _ | .pendingCas _ _ | .pendingSub _ => True
  | _ => False

/-- Operations that leave the files alone. -/
def Op.Inner (o : Op) : Prop := o.Reads ∨ o.Counts

/-- The files are as they were. -/
structure SameFiles (w t : World) : Prop where
  disk : t.disk = w.disk
  directory : t.directory = w.directory

theorem SameFiles.refl (w : World) : SameFiles w w := ⟨rfl, rfl⟩

theorem SameFiles.trans (first : SameFiles w w') (second : SameFiles w' t) : SameFiles w t :=
  ⟨second.disk.trans first.disk, second.directory.trans first.directory⟩

theorem sameFiles_setMembers (w : World) (f : Members → Members) : SameFiles w (w.setMembers f) := ⟨rfl, rfl⟩

theorem system_inner {r : o.Resp} (inner : o.Inner) (step : system o w = some (r, w')) : SameFiles w w' := by
  rcases inner with reads | counts
  · obtain rfl := system_reads reads step
    exact .refl _
  · cases o with
    | setMembers f | appendFetchAdd shardId amount | pendingSub amount =>
      simp only [system, Option.some.injEq, Prod.mk.injEq] at step
      exact step.2 ▸ sameFiles_setMembers w _
    | pendingCas expected desired =>
      simp only [system] at step
      split at step
      · simp only [Option.some.injEq, Prod.mk.injEq] at step
        exact step.2 ▸ sameFiles_setMembers w _
      · cases step
        exact .refl _
    | _ => exact counts.elim

theorem Op.Inner.whole (inner : o.Inner) : ¬ o.Partial w t := by
  cases o with
  | writeAt file offset data => exact fun _ => inner.elim id id
  | _ => exact id

theorem killed_inner (only : p.Only Op.Inner) (killed : Killed p w t) : SameFiles w t :=
  only.stops SameFiles.refl (fun _ _ _ => SameFiles.trans) (fun _ _ _ _ => system_inner)
    (fun _ _ _ inner inside => absurd inside inner.whole) killed

theorem inner_of_reads (only : p.Only Op.Reads) : p.Only Op.Inner := only.mono fun _ => Or.inl

theorem inner_perform (counts : o.Counts) : (Prog.perform (S := signature) o : Db o.Resp).Only Op.Inner :=
  ⟨Or.inr counts, fun _ => trivial⟩

theorem inner_releaseIf (reserved : Bool) : (releaseIf reserved).Only Op.Inner :=
  .ite (inner_perform trivial) trivial

theorem inner_reserveLoop (maxLoadFactor : ℚ) (bucketCount retries : Nat) :
    (reserveLoop maxLoadFactor bucketCount retries).Only Op.Inner := by
  induction retries with
  | zero => exact trivial
  | succ retries ih =>
    exact .bind (inner_of_reads (reads_load _ _ _)) fun _ => .bind (inner_of_reads ⟨trivial, fun _ => trivial⟩) fun _ =>
      .ite trivial (.bind (inner_perform trivial) fun _ => .ite trivial ih)

theorem inner_reserveIf (reserve : Bool) (retries : Nat) : (reserveIf reserve retries).Only Op.Inner :=
  .ite (.bind (inner_of_reads reads_members) fun _ => .bind (inner_of_reads (reads_load _ _ _)) fun _ =>
    inner_reserveLoop _ _ _) trivial

end Inner

section Discarded
variable {H : HashFunctions} {b x : Bytes} {n items shardCount index : Nat}

/-- A row index that the layout check rejects without reading past its end. -/
def RowDiscarded (x : Bytes) (shardCount : Nat) : Prop := ¬ RowAccepted x shardCount ∧ ¬ RowOverreads x shardCount

theorem RowIndexFile.not_overreads (file : RowIndexFile b n items shardCount) (count : Nat) : ¬ RowOverreads b count := by
  intro exceeds
  have short := exceeds.length_eq.1
  have length := file.length
  have positive := file.positive
  omega

/-- `x` is `b` with the bucket `index` in the Writing state and the other fields of
that bucket undetermined. -/
structure RowWriting (b : Bytes) (index : Nat) (x : Bytes) : Prop where
  length : x.length = b.length
  header : ∀ offset size, offset + size ≤ 64 → slice x offset size = slice b offset size
  state : natAt x (rowBucketOffset index) 4 = kRowBucketWriting

theorem RowWriting.discarded (writing : RowWriting b index x) (file : RowIndexFile b n items shardCount) (inside : index < n) :
    RowDiscarded x shardCount := by
  have same := file.of_header writing.length writing.header
  refine ⟨?_, same.not_overreads shardCount⟩
  rintro ⟨m, other, settled⟩
  obtain rfl : m = n := other.bucketCount.symm.trans same.bucketCount
  have state := settled index inside
  rw [rowBucketAt_eq] at state
  simp only [writing.state] at state
  exact absurd state (by decide)

/-- A bucket of a new row is published and not yet counted. -/
theorem rowDiscarded_uncounted {slot : Nat → Option RowKey} {ref : RowKey → BlockRef} {k : RowKey} {r : BlockRef}
    (t : RowTable H b n shardCount slot ref) (looked : Lookup n (rowHome H) slot k index false)
    (set : RowBucketSet b index (rowBucket H k r) x) : RowDiscarded x shardCount := by
  have file := t.toRowIndexFile.bucketSet set
  refine ⟨?_, file.not_overreads shardCount⟩
  rintro ⟨m, counted, _⟩
  obtain rfl : m = n := counted.bucketCount.symm.trans file.bucketCount
  have items := counted.itemCount.symm.trans file.itemCount
  have more : filled m (rowSlot x) = filled m (Function.update slot index (some k)) := by
    refine filled_congr fun i below => ?_
    rw [rowSlot_isSome]
    by_cases here : i = index
    · rw [here, set.here, Function.update_self]
      rfl
    · rw [set.others i here (t.bucket_inside below), Function.update_of_ne here]
      cases at_i : slot i with
      | none => simp [t.empty i below at_i, kRowBucketEmpty, kRowBucketFilled]
      | some k' => simp [t.stored i below k' at_i, rowBucket]
  have grown := looked.filled_eq
  simp only [Bool.false_eq_true, if_false] at grown
  rw [more, grown] at items
  omega

end Discarded

section Publish
variable {w t : World} {b x : Bytes} {n items shardCount index expected : Nat} {data : RowBucketData} {bucket : RowIndexBucket}
  {inserted : Bool}

theorem whole_casRowBucketState (index expected desired : Nat) : Whole (casRowBucketState index expected desired) :=
  indivisible_perform fun _ _ => id

/-- A store to the fields behind the state of the bucket. -/
def Op.StoresField (index : Nat) : Op → Prop
  | .store file offset width _ => file = .rowIndex ∧ rowBucketOffset index + 4 ≤ offset ∧ offset + width ≤ rowBucketOffset index + 64
  | _ => False

theorem RowWriting.patch {field : Bytes} {offset : Nat} (writing : RowWriting b index x)
    (inside : rowBucketOffset index + 64 ≤ b.length) (low : rowBucketOffset index + 4 ≤ offset)
    (high : offset + field.length ≤ rowBucketOffset index + 64) : RowWriting b index (patch x offset field) := by
  have length := writing.length
  have behind : 64 ≤ rowBucketOffset index := by
    unfold rowBucketOffset
    omega
  refine ⟨(patch_length_of_le (by omega)).trans length, fun offset' size within => ?_, ?_⟩
  · rw [slice_patch_before (by omega) (by omega)]
    exact writing.header offset' size within
  · rw [natAt_patch_disjoint (by omega)]
    exact writing.state

/-- A kill among the stores of `StoreRowBucketData` leaves the bucket in the
Writing state. -/
theorem killed_storeRowBucketData (data : RowBucketData) (writing : RowWriting b index x)
    (inside : rowBucketOffset index + 64 ≤ b.length) (killed : Killed (storeRowBucketData index data) (w.withMapped .rowIndex x) t) :
    ∃ y, t = w.withMapped .rowIndex y ∧ RowWriting b index y := by
  have field : ∀ d width value, 4 ≤ d → d + width ≤ 64 →
      (store .rowIndex (rowBucketOffset index + d) width value).Only (Op.StoresField index) :=
    fun d width value low high => ⟨⟨rfl, by omega, by omega⟩, fun _ => trivial⟩
  have only : (storeRowBucketData index data).Only (Op.StoresField index) :=
    .bind (field 4 4 _ (by decide) (by decide)) fun _ => .bind (field 8 8 _ (by decide) (by decide)) fun _ =>
      .bind (field 16 8 _ (by decide) (by decide)) fun _ => .bind (field 24 8 _ (by decide) (by decide)) fun _ =>
      .bind (field 32 8 _ (by decide) (by decide)) fun _ => field 40 8 _ (by decide) (by decide)
  refine only.stops (R := fun w₁ w₂ => ∀ x, w₁ = w.withMapped .rowIndex x → RowWriting b index x →
    ∃ y, w₂ = w.withMapped .rowIndex y ∧ RowWriting b index y) (fun w₁ x same writing => ⟨x, same, writing⟩)
    (fun w₁ w₂ w₃ first second x same writing => ?_) (fun o w₁ r w₂ stores step x same writing => ?_)
    (fun o w₁ w₂ stores inner => ?_) killed x rfl writing
  · obtain ⟨y, same', writing'⟩ := first x same writing
    exact second y same' writing'
  · cases o with
    | store file offset width value =>
      obtain ⟨rfl, low, high⟩ := stores
      have length := writing.length
      have stored := @store_runs w .rowIndex x offset width value (by omega)
      subst same
      obtain ⟨_, rfl⟩ := Runs.unique (run_perform_of system step) stored
      exact ⟨_, rfl, writing.patch inside low (by rw [leBytes_length]; exact high)⟩
    | _ => exact stores.elim
  · cases o with
    | writeAt file offset data => exact stores.elim
    | _ => exact inner.elim

/-- The end of a pass of `InsertOrUpdateRowBucket`: the bucket is claimed,
filled and published. -/
abbrev publishRow (index expected : Nat) (data : RowBucketData) (inserted : Bool) : Db (Option Bool) :=
  (casRowBucketState index expected kRowBucketWriting).bind fun claimed =>
    if claimed then (storeRowBucketData index data).bind fun _ => (storeRowBucketState index kRowBucketFilled).bind fun _ =>
      .ret (some inserted)
    else .ret none

/-- A kill inside the publication leaves the index as it was, with the bucket
in the Writing state, or with the bucket published. -/
theorem killed_publishRow (killed : Killed (publishRow index expected data inserted) (w.withMapped .rowIndex b) t)
    (file : RowIndexFile b n items shardCount) (inside : index < n) (held : (rowBucketAt b index).state = expected)
    (bucket_eq : bucket = ⟨kRowBucketFilled, data.shardId, data.columnHash, data.rowId, data.blockOffset, data.blockSize,
      data.sequence⟩) (fits : bucket.Fits) :
    ∃ x, t = w.withMapped .rowIndex x ∧ (x = b ∨ RowWriting b index x ∨
      Runs (publishRow index expected data inserted) (w.withMapped .rowIndex b) (some inserted) (w.withMapped .rowIndex x)) := by
  have within := file.bucket_inside inside
  have offset : 64 ≤ rowBucketOffset index := by
    unfold rowBucketOffset
    omega
  obtain ⟨b₁, b', claimed, published, _⟩ := publishRowBucket_runs w data file inside held bucket_eq fits
  have exchanged := @cas_runs w .rowIndex b (rowBucketOffset index) 4 expected kRowBucketWriting (by omega)
    (by rw [← held, rowBucketAt_eq])
  have same := (Runs.unique claimed exchanged).2
  have writing : RowWriting b index (ByteCodec.patch b (rowBucketOffset index) (leBytes 4 kRowBucketWriting)) :=
    ⟨patch_length_of_le (by rw [leBytes_length]; omega), fun _ _ below => slice_patch_before (by omega) (by omega),
      natAt_patch_leBytes _ _ _ _⟩
  rcases Indivisible.cutOff (whole_casRowBucketState _ _ _) killed claimed with rfl | killed
  · exact ⟨b, rfl, Or.inl rfl⟩
  have whole : Runs (publishRow index expected data inserted) (w.withMapped .rowIndex b) (some inserted)
      (w.withMapped .rowIndex b') := by
    unfold Runs publishRow
    rw [claimed.bind, if_pos rfl, ← Prog.bind_assoc, run_bind_ok system published]
    rfl
  rw [if_pos rfl] at killed
  rw [same] at killed published
  obtain ⟨_, s, filled, stored⟩ := Runs.split published
  rcases cutOff_after killed filled with early | killed
  · obtain ⟨y, rfl, writing'⟩ := killed_storeRowBucketData data writing within early
    exact ⟨y, rfl, Or.inr (Or.inl writing')⟩
  · rcases Indivisible.cutOff (whole_store _ _ _ _) killed (p := storeRowBucketState _ _) stored with rfl | killed
    · obtain ⟨y, rfl, writing'⟩ := killed_storeRowBucketData data writing within (cutOff_end filled)
      exact ⟨y, rfl, Or.inr (Or.inl writing')⟩
    · cases killed
      exact ⟨b', rfl, Or.inr (Or.inr whole)⟩

end Publish

section Point
variable {H : HashFunctions} {w t : World} {b : Bytes} {n count : Nat} {slot : Nat → Option RowKey} {ref : RowKey → BlockRef}
  {shards : Nat → Bytes} {m : RowKey → Option RowMap} {k : RowKey} {r : BlockRef} {content : RowMap} {block : Bytes} {reserve : Bool}

/-- A kill inside `p`, which updates the row index `b`, leaves it as it was, with
a bucket in the Writing state, or as `p` leaves it. -/
def LeavesIndex {α : Type} (p : Db α) (w t : World) (b : Bytes) (n : Nat) (good : α → Prop) : Prop :=
  ∃ x, t = w.withMapped .rowIndex x ∧ (x = b ∨ (∃ index < n, RowWriting b index x) ∨
    ∃ a, good a ∧ Runs p (w.withMapped .rowIndex b) a (w.withMapped .rowIndex x))

theorem LeavesIndex.after {α β : Type} {p : Db α} {f : α → Db β} {good : β → Prop} {a : α}
    (first : Runs p (w.withMapped .rowIndex b) a (w.withMapped .rowIndex b)) (left : LeavesIndex (f a) w t b n good) :
    LeavesIndex (p.bind f) w t b n good := by
  obtain ⟨x, rfl, state⟩ := left
  exact ⟨x, rfl, state.imp_right fun state => state.imp_right fun ⟨c, fine, runs⟩ => ⟨c, fine, first.bind.trans runs⟩⟩

theorem leavesIndex_reads {α β : Type} {p : Db α} {q : Db β} {good : β → Prop} (killed : Killed p (w.withMapped .rowIndex b) t)
    (only : p.Only Op.Reads) : LeavesIndex q w t b n good := by
  obtain rfl := silent_reads.cutOff only killed
  exact ⟨b, rfl, Or.inl rfl⟩

theorem killed_insertOrUpdatePass (t₀ : RowTable H b n count slot ref) (rep : RowRepresents H shards count n slot ref m)
    (reads : ReadsShards w shards count) (fits : (rowBucket H k r).Fits) {rounds probe : Nat} (sum : rounds + probe = n)
    (passed : Passed n (rowHome H) slot k probe)
    (killed : Killed (insertOrUpdatePass k.1 (rowData H k r) (n - 1) (rowHome H k &&& (n - 1)) rounds probe)
      (w.withMapped .rowIndex b) t) :
    LeavesIndex (insertOrUpdatePass k.1 (rowData H k r) (n - 1) (rowHome H k &&& (n - 1)) rounds probe) w t b n
      fun result => result ≠ none := by
  have positive := t₀.positive
  induction rounds generalizing probe with
  | zero =>
    have short := passed.lt_size t₀.table.vacancy
    omega
  | succ rounds ih =>
    have target := probeSlot_lt positive (rowHome H k) probe
    obtain ⟨onEmpty, onFilled⟩ := loadRowBucketSnapshot_runs w t₀.toRowIndexFile target
    have published : ∀ {expected inserted}, (rowBucketAt b (probeSlot n (rowHome H k) probe)).state = expected →
        Killed (publishRow (probeSlot n (rowHome H k) probe) expected (rowData H k r) inserted) (w.withMapped .rowIndex b) t →
        LeavesIndex (publishRow (probeSlot n (rowHome H k) probe) expected (rowData H k r) inserted) w t b n
          fun result => result ≠ none := by
      intro expected inserted held killed
      obtain ⟨x, same, state⟩ := killed_publishRow killed t₀.toRowIndexFile target held rfl fits
      exact ⟨x, same, state.imp_right fun state => state.imp (fun writing => ⟨_, target, writing⟩)
        fun runs => ⟨_, Option.some_ne_none _, runs⟩⟩
    simp only [insertOrUpdatePass, Prog.bind_eq, t₀.probe] at killed ⊢
    cases here : slot (probeSlot n (rowHome H k) probe) with
    | none =>
      have vacant := t₀.empty _ target here
      rcases cutOff_after killed (onEmpty vacant) with early | killed
      · exact leavesIndex_reads early ((reads_buckets 0 n).loadRowBucketSnapshot target)
      · exact .after (onEmpty vacant) (published vacant killed)
    | some k' =>
      have bucket := t₀.stored _ target k' here
      have full : (rowBucketAt b (probeSlot n (rowHome H k) probe)).state = kRowBucketFilled := by rw [bucket]; rfl
      have snapshot := onFilled full
      rw [bucket] at snapshot
      obtain ⟨content', block', held, at_ref⟩ := rep.located target here
      have next : k' ≠ k → _ → _ := fun other => ih (by omega) (passed.succ here other)
      rcases cutOff_after killed snapshot with early | killed
      · exact leavesIndex_reads early ((reads_buckets 0 n).loadRowBucketSnapshot target)
      refine .after snapshot ?_
      by_cases differ : H.hashString k'.1 ≠ H.hashString k.1 ∨ k'.2 ≠ k.2
      · have condition : (rowBucket H k' (ref k')).columnHash ≠ (rowData H k r).columnHash ∨
            (rowBucket H k' (ref k')).rowId ≠ (rowData H k r).rowId := differ
        simp only at killed ⊢
        rw [if_pos condition] at killed ⊢
        exact next (fun same => by simp [same] at differ) killed
      · obtain ⟨_, rowIds⟩ := hashes_eq_iff.mp differ
        have matched := at_ref.head.rowBlockMatches (reads.withRowIndex b) k.1
        rw [show k'.2 = (rowData H k r).rowId from rowIds] at matched
        have condition : ¬ ((rowBucket H k' (ref k')).columnHash ≠ (rowData H k r).columnHash ∨
            (rowBucket H k' (ref k')).rowId ≠ (rowData H k r).rowId) := differ
        simp only at killed ⊢
        rw [if_neg condition] at killed ⊢
        rcases cutOff_after killed matched with early | killed
        · exact leavesIndex_reads early ((reads_buckets 0 n).rowBlockMatches _ _ _)
        refine .after matched ?_
        by_cases same : k'.1 = k.1
        · rw [if_pos same] at killed ⊢
          exact published full killed
        · rw [if_neg same] at killed ⊢
          exact next (fun key => same (by rw [key])) killed

theorem killed_insertOrUpdateRowBucket (t₀ : RowTable H b n count slot ref) (rep : RowRepresents H shards count n slot ref m)
    (reads : ReadsShards w shards count) (fits : (rowBucket H k r).Fits) (retries : Nat)
    (killed : Killed (insertOrUpdateRowBucket H k.1 (rowData H k r) (retries + 1)) (w.withMapped .rowIndex b) t) :
    LeavesIndex (insertOrUpdateRowBucket H k.1 (rowData H k r) (retries + 1)) w t b n fun _ => True := by
  have start : H.mixHashes (rowData H k r).columnHash (rowData H k r).rowId = rowHome H k := rfl
  have counted := loadRowBucketCount_runs w t₀.toRowIndexFile
  unfold insertOrUpdateRowBucket at killed ⊢
  rcases cutOff_after killed counted with early | killed
  · exact leavesIndex_reads early (reads_load _ _ _)
  refine .after counted ?_
  unfold insertOrUpdateLoop at killed ⊢
  rw [mask_of_count t₀.positive (t₀.count_lt.trans (by decide)), start] at killed ⊢
  obtain ⟨inserted, index, b', ran, _⟩ := insertOrUpdatePass_runs t₀ rep reads fits (Nat.add_zero n) (Passed.zero k)
  rcases cutOff_after killed ran with early | killed
  · obtain ⟨x, same, state⟩ := killed_insertOrUpdatePass t₀ rep reads fits (Nat.add_zero n) (Passed.zero k) early
    refine ⟨x, same, state.imp_right fun state => state.imp_right ?_⟩
    rintro ⟨result, given, runs⟩
    obtain ⟨done, rfl⟩ := Option.ne_none_iff_exists'.mp given
    exact ⟨done, trivial, runs.bind.trans rfl⟩
  · cases killed
    exact ⟨b', rfl, Or.inr (Or.inr ⟨inserted, trivial, ran.bind.trans rfl⟩)⟩

/-- The files are as `p` leaves them, but for a row index that the layout
check may reject. -/
def Committed (p : Db Unit) (w t : World) (count : Nat) : Prop :=
  ∃ w' x, Runs p w () w' ∧ FileLeft .rowIndex w' t x ∧ (RowDiscarded x count ∨ w'.disk .rowIndex = some x)

theorem Committed.after {α : Type} {p : Db α} {f : α → Db Unit} {w w' : World} {a : α} (first : Runs p w a w')
    (committed : Committed (f a) w' t count) : Committed (p.bind f) w t count := by
  obtain ⟨w'', x, runs, left, index⟩ := committed
  exact ⟨w'', x, first.bind.trans runs, left, index⟩

theorem released_files (w : World) (reserve : Bool) : SameFiles w (w.released reserve) := by
  cases reserve <;> exact ⟨rfl, rfl⟩

/-- A kill while the index is pointed to a block leaves the index as it was,
or it is pointed to the block, or rejected. -/
theorem killed_pointRow (table : RowTable H b n count slot ref) (represents : RowRepresents H shards count n slot ref m)
    (reads : ReadsShards w shards count) (at_r : BlockAt H shards count r k content block) (fits : (rowBucket H k r).Fits)
    (room : ¬ Stored n slot k → filled n slot + 1 < n) (pending : reserve = true → w.members.rowPendingInsertCount = 1)
    (retries : Nat) (killed : Killed (pointRow H (retries + 1) k reserve r) (w.withMapped .rowIndex b) t) :
    SameFiles (w.withMapped .rowIndex b) t ∨
      Committed (pointRow H (retries + 1) k reserve r) (w.withMapped .rowIndex b) t count := by
  obtain ⟨b', _, _, pointed, _⟩ := pointRow_runs reserve table represents reads at_r fits room pending retries
  obtain ⟨inserted, index, b₁, indexed, looked, set⟩ := insertOrUpdateRowBucket_runs table represents reads fits retries
  have counted := countIf_runs w (table.toRowIndexFile.bucketSet set) inserted
  -- what the index is after the bucket was published and counted
  have final : b' = if inserted then addItem b₁ else b₁ := by
    have runs : Runs (pointRow H (retries + 1) k reserve r) (w.withMapped .rowIndex b) ()
        ((w.withMapped .rowIndex (if inserted then addItem b₁ else b₁)).released reserve) := by
      unfold Runs pointRow
      rw [Prog.bind_eq, (releasing_runs indexed).bind, Prog.bind_eq, counted.bind]
      exact releaseIf_runs pending
    have same := congrArg (World.disk · .rowIndex) (Runs.unique pointed runs).2
    simpa only [World.released_index, Option.some.injEq] using same
  have left : ∀ {x}, SameFiles (w.withMapped .rowIndex x) t →
      FileLeft .rowIndex ((w.withMapped .rowIndex b').released reserve) t x := by
    intro x same
    have released := released_files (w.withMapped .rowIndex b') reserve
    refine ⟨?_, same.directory.trans released.directory.symm⟩
    rw [same.disk, released.disk]
    simp only [World.withMapped, World.setFile, World.setMembers, Function.update_idem]
  have rejected : ∀ {x}, RowDiscarded x count → SameFiles (w.withMapped .rowIndex x) t →
      Committed (pointRow H (retries + 1) k reserve r) (w.withMapped .rowIndex b) t count :=
    fun discarded same => ⟨_, _, pointed, left same, Or.inl discarded⟩
  have complete : SameFiles (w.withMapped .rowIndex b') t →
      Committed (pointRow H (retries + 1) k reserve r) (w.withMapped .rowIndex b) t count :=
    fun same => ⟨_, _, pointed, left same, Or.inr (World.released_index ..)⟩
  have uncounted : SameFiles (w.withMapped .rowIndex b₁) t →
      Committed (pointRow H (retries + 1) k reserve r) (w.withMapped .rowIndex b) t count := by
    intro same
    cases inserted with
    | true => exact rejected (rowDiscarded_uncounted table looked set) same
    | false => exact complete (final ▸ same)
  unfold pointRow at killed
  rcases cutOff_after killed (releasing_runs indexed) with early | killed
  · rcases cutOff_orElse early with early | ⟨e, s', failed, _⟩
    · obtain ⟨x, rfl, rfl | ⟨i, inside, writing⟩ | ⟨a, _, runs⟩⟩ :=
        killed_insertOrUpdateRowBucket table represents reads fits retries early
      · exact Or.inl (.refl _)
      · exact Or.inr (rejected (writing.discarded table.toRowIndexFile inside) (.refl _))
      · rw [(Runs.unique runs indexed).2] at uncounted ⊢
        exact Or.inr (uncounted (.refl _))
    · cases failed.symm.trans indexed
  · have whole : Whole (countIf inserted) :=
      .ite (indivisible_op (fun _ _ => id) (fun _ => trivial) fun _ _ => rfl) (indivisible_ret ())
    rcases Indivisible.cutOff whole killed counted with rfl | killed
    · exact Or.inr (uncounted (.refl _))
    · rw [← final] at killed
      exact Or.inr (complete (killed_inner (inner_releaseIf reserve) killed))

end Point

section Write
variable {H : HashFunctions} {w t : World} {log : RowLog} {b b₁ block : Bytes} {n : Nat} {slot : Nat → Option RowKey}
  {ref : RowKey → BlockRef} {k : RowKey} {entries : List RowStructEntry} {reserve : Bool} {shards : Nat → Bytes}
  {m : RowKey → Option RowMap}

/-- The kill has left the rows of `log`, with bytes of an unfinished block
behind a shard file. -/
structure RowKept (H : HashFunctions) (w t : World) (log : RowLog) (i : Nat) (tail x : Bytes) : Prop where
  inside : i < w.members.options.rowShardCount
  small : (shardBytes log i ++ tail).length < 2 ^ 63
  disk : t.disk = Function.update (Function.update w.disk (.rowShard i) (some (shardBytes log i ++ tail))) .rowIndex (some x)
  directory : t.directory = w.directory
  index : RowIndexOf H (shardBytes log) w.members.options.rowShardCount log x

/-- What a kill inside the row write `p` can leave. -/
def LeavesRow (H : HashFunctions) (p : Db Unit) (w s t : World) (log : RowLog) : Prop :=
  (∃ i tail x, RowKept H w t log i tail x) ∨ Committed p s t w.members.options.rowShardCount

theorem LeavesRow.after {α : Type} {p : Db α} {f : α → Db Unit} {s s' : World} {a : α} (first : Runs p s a s')
    (left : LeavesRow H (f a) w s' t log) : LeavesRow H (p.bind f) w s t log :=
  left.imp_right (.after first)

/-- The shard files are as they were, and the index still represents their
rows. -/
theorem RowFiles.kept (files : RowFiles H w log b n slot ref)
    (table : RowTable H b₁ n w.members.options.rowShardCount slot ref) (left : FileLeft .rowIndex w t b₁) :
    ∃ i tail x, RowKept H w t log i tail x := by
  refine ⟨0, [], b₁, files.positive, ?_, ?_, left.directory, n, slot, ref, table, files.represents⟩
  · rw [List.append_nil]
    exact files.reads.small 0 files.positive
  · rw [List.append_nil, ← files.reads.content 0 files.positive, Function.update_eq_self]
    exact left.disk

theorem RowFiles.unchanged (files : RowFiles H w log b n slot ref) (same : SameFiles w t) :
    ∃ i tail x, RowKept H w t log i tail x :=
  files.kept files.table ⟨by rw [same.disk, ← files.index, Function.update_eq_self], same.directory⟩

/-- A kill while a block is appended leaves a part of the block behind its shard,
and the other files as they were. -/
theorem killed_appendBlock (store : ShardStore H w shards m b n slot ref) (k : RowKey) {sequence shardId : Nat}
    {layout : RowBlockLayout} (shard : shardId = rowHome H k % w.members.options.rowShardCount)
    (at_end : w.members.rowAppendOffsets shardId = (shards shardId).length) (bytes : (layout.slices k.1).flatten = block)
    (nonempty : block ≠ []) (fits : (shards shardId).length + block.length < 2 ^ 63)
    (killed : Killed (appendBlock H k sequence layout reserve) ((w.reserved reserve).withMapped .rowIndex b₁) t) :
    ∃ tail, tail.length ≤ block.length ∧
      SameFiles ((w.withMapped .rowIndex b₁).setFile (.rowShard shardId) (some (shards shardId ++ tail))) t := by
  have found := shardForRow_runs store k reserve b₁
  rw [← shard] at found
  have fetched := appendFetchAdd_runs w reserve shardId layout.header.blockSize b₁
  rw [at_end] at fetched
  have inside : shardId < w.members.options.rowShardCount := shard ▸ Nat.mod_lt _ store.positive
  have content := (World.placed_disk w reserve shardId shardId layout.header.blockSize b₁).trans (store.reads.content shardId inside)
  have written := writeAllAt_runs content nonempty fits
  have members : SameFiles (w.withMapped .rowIndex b₁) ((w.reserved reserve).withMapped .rowIndex b₁) := by
    cases reserve <;> exact ⟨rfl, rfl⟩
  have placed : SameFiles (w.withMapped .rowIndex b₁) (w.placed reserve shardId layout.header.blockSize b₁) :=
    members.trans (sameFiles_setMembers _ _)
  have untouched : SameFiles (w.withMapped .rowIndex b₁) t → ∃ tail, tail.length ≤ block.length ∧
      SameFiles ((w.withMapped .rowIndex b₁).setFile (.rowShard shardId) (some (shards shardId ++ tail))) t := by
    intro same
    have whole : (w.withMapped .rowIndex b₁).disk (.rowShard shardId) = some (shards shardId) := by
      rw [← placed.disk, content]
    refine ⟨[], Nat.zero_le _, same.disk.trans ?_, same.directory⟩
    rw [List.append_nil, World.setFile, ← whole, Function.update_eq_self]
  unfold appendBlock at killed
  rcases cutOff_after killed found with early | killed
  · have reads : (shardForRow H (H.hashString k.1) k.2).Only Op.Reads := .bind reads_members fun _ => trivial
    exact untouched (members.trans (killed_inner (inner_of_reads reads) early))
  rcases cutOff_after killed (p := .perform _) fetched with early | killed
  · exact untouched (members.trans (killed_inner (inner_perform (o := .appendFetchAdd _ _) trivial) early))
  rw [bytes] at killed
  rcases cutOff_after killed (releasing_runs written) with early | killed
  · rcases cutOff_orElse early with early | ⟨e, s', failed, _⟩
    · rcases killed_append content fits early with rfl | ⟨count, bound, rfl⟩
      · exact untouched placed
      · refine ⟨block.take count, by rw [List.length_take]; omega, ?_, placed.directory⟩
        simp only [World.setFile, placed.disk]
    · cases failed.symm.trans written
  · cases killed
    refine ⟨block, le_rfl, ?_, placed.directory⟩
    rw [patch_end]
    simp only [World.setFile, placed.disk]

/-- A kill while a finished layout is stored. -/
theorem killed_writeLayout (k : RowKey) {sequence : Nat} (n' : Nat) (entries : List RowStructEntry) (table₀ : KeyTable)
    (files : RowFiles H w log b n slot ref) (table : RowTable H b₁ n w.members.options.rowShardCount slot ref)
    (numbered : sequence < 2 ^ 64)
    (complete : ∀ block, block = ((layoutOf H k.1 k.2 sequence n' entries table₀).slices k.1).flatten →
      block.length < 2 ^ 63 → RowBlock H k.1 k.2 sequence (rowMap entries) block ∧
        (layoutOf H k.1 k.2 sequence n' entries table₀).header.blockSize = block.length)
    (rowId : k.2 < 2 ^ 64) (room : ¬ Stored n slot k → filled n slot + 1 < n) (retries : Nat)
    (bounded : Bounded (writeLayout H (retries + 1) k sequence (layoutOf H k.1 k.2 sequence n' entries table₀) reserve)
      ((w.reserved reserve).withMapped .rowIndex b₁))
    (killed : Killed (writeLayout H (retries + 1) k sequence (layoutOf H k.1 k.2 sequence n' entries table₀) reserve)
      ((w.reserved reserve).withMapped .rowIndex b₁) t) :
    LeavesRow H (writeLayout H (retries + 1) k sequence (layoutOf H k.1 k.2 sequence n' entries table₀) reserve) w
      ((w.reserved reserve).withMapped .rowIndex b₁) t log := by
  set layout := layoutOf H k.1 k.2 sequence n' entries table₀
  set shardId := rowHome H k % w.members.options.rowShardCount with shard_eq
  set block := (layout.slices k.1).flatten with block_eq
  have shard : shardId < w.members.options.rowShardCount := Nat.mod_lt _ files.positive
  have offset := files.appendOffsets shardId shard
  have found := shardForRow_runs files.shardStore k reserve b₁
  have fetched := appendFetchAdd_runs w reserve shardId layout.header.blockSize b₁
  rw [offset] at fetched
  have fits : (shardBytes log shardId).length + block.length < 2 ^ 63 := by
    unfold writeLayout at bounded
    exact Bounded.writeAllAt (Bounded.releasing ((bounded.rest found).rest fetched).first)
  obtain ⟨row, blockSize⟩ := complete block rfl (by omega)
  obtain ⟨_, _, _, _, shape⟩ := id row
  have long := shape.shape.length
  have nonempty : block ≠ [] := List.ne_nil_of_length_pos (by omega)
  have appended := appendBlock_runs reserve b₁ sequence files.shardStore k shard_eq offset block_eq.symm nonempty fits
  rw [blockSize, patch_end] at appended
  have stored := files.shardStore.blockStored reserve k shard_eq row fits numbered rowId fun k' stored here => by
    have ends := files.appendsBehind k' stored
    rwa [here, offset] at ends
  rw [patch_end] at stored
  -- the index is still the one of before, whatever part of the block is in the file
  have kept : ∀ tail, tail.length ≤ block.length →
      SameFiles ((w.withMapped .rowIndex b₁).setFile (.rowShard shardId) (some (shardBytes log shardId ++ tail))) t →
      ∃ i tail x, RowKept H w t log i tail x := by
    intro tail short same
    refine ⟨shardId, tail, b₁, shard, by rw [List.length_append]; omega, ?_, same.directory, n, slot, ref, table, files.represents⟩
    rw [same.disk]
    simp only [World.withMapped, World.setFile, World.setMembers]
    rw [Function.update_comm (by simp)]
  rw [writeLayout_eq] at bounded killed ⊢
  rcases cutOff_after killed appended with early | killed
  · obtain ⟨tail, short, same⟩ := killed_appendBlock files.shardStore k shard_eq offset block_eq.symm nonempty fits early
    exact Or.inl (kept tail short same)
  · refine LeavesRow.after appended ?_
    have appendedFiles : SameFiles ((w.withMapped .rowIndex b₁).setFile (.rowShard shardId)
        (some (shardBytes log shardId ++ block)))
        ((w.appended reserve shardId block.length (shardBytes log shardId ++ block)).withMapped .rowIndex b₁) := by
      rw [← World.placed_setFile]
      cases reserve <;> exact ⟨rfl, rfl⟩
    refine (killed_pointRow table stored.represents stored.reads stored.located stored.fits room
      (fun given => by subst given; rfl) retries killed).imp_left fun same => ?_
    exact kept block le_rfl (appendedFiles.trans same)

/-- A kill before the layout is finished leaves the rows. -/
theorem killed_prepareRow (files : RowFiles H w log b n slot ref) (serving : Serving w)
    (stored : reserve = false → putRows noRows log k ≠ none) (retries : Nat)
    (killed : Killed (prepareRow H (retries + 1) k entries reserve) w t) : ∃ i tail x, RowKept H w t log i tail x := by
  have unchanged : ∀ {u}, Killed (.fail u : Db (Nat × RowBlockLayout)) w t → ∃ i tail x, RowKept H w t log i tail x := by
    intro u killed
    cases killed
    exact files.unchanged (.refl w)
  unfold prepareRow at killed
  rcases cutOff_after killed (getMembers_runs w) with early | killed
  · exact files.unchanged (killed_inner (inner_of_reads reads_members) early)
  rw [if_neg (by rw [serving.isOpen]; decide), if_neg (by rw [serving.writable]; decide)] at killed
  by_cases long : ¬ fitsUint32 k.1.length
  · rw [if_pos long] at killed
    exact unchanged killed
  rw [if_neg long] at killed
  by_cases empty : entries = []
  · rw [if_pos empty] at killed
    exact unchanged killed
  rw [if_neg empty] at killed
  rcases cutOff_bind killed with early | ⟨_, s, reserved, killed⟩
  · exact files.unchanged (killed_inner (inner_reserveIf reserve _) early)
  rcases reserveIf_cases files.shardStore serving.load (fun given => (files.represents.stored_iff k).mpr (stored given))
    retries with ⟨_, _, refused⟩ | ⟨reserves, _⟩
  · cases refused.symm.trans reserved
  obtain ⟨_, rfl⟩ := Runs.unique reserved reserves
  have self : (w.reserved reserve).withMapped .rowIndex b = w.reserved reserve :=
    World.withMapped_self (by rw [World.reserved_disk, files.index]) (by rw [World.reserved_maps, files.mapped])
  have members : SameFiles w (w.reserved reserve) := by cases reserve <;> exact ⟨rfl, rfl⟩
  have numbered := nextRowSequence_runs (w.reserved reserve) files.table.toRowIndexFile
  rw [self] at numbered
  rcases Indivisible.cutOff (p := nextRowSequence) (indivisible_perform fun _ _ => id) killed numbered with rfl | killed
  · exact files.unchanged members
  · have only : ((releasing reserve (buildRowBlockLayout H w.members.options.maxLoadFactor k.1 k.2 entries (rowSequence b)
        (H.hashString k.1))).bind fun layout => .ret (rowSequence b, layout)).Only Op.Inner :=
      .bind (.orElse (buildRowBlockLayout_only _) fun _ => .bind (inner_releaseIf reserve) fun _ => trivial) fun _ => trivial
    have same := killed_inner only killed
    refine files.kept (files.table.setSequence (rowSequence b + 1)) ⟨?_, same.directory.trans members.directory⟩
    rw [same.disk]
    simp only [World.withMapped, World.setFile, World.setMembers, World.reserved_disk]

/-- A kill inside a row write leaves the rows of before, or the completed write
with a row index that the layout check may reject. -/
theorem killed_writeRowStructs (store : RowStore H w log) (serving : Serving w) (rowId : k.2 < 2 ^ 64)
    (stored : reserve = false → putRows noRows log k ≠ none) (retries : Nat)
    (bounded : Bounded (writeRowStructs H (retries + 1) k.1 k.2 entries reserve) w)
    (killed : Killed (writeRowStructs H (retries + 1) k.1 k.2 entries reserve) w t) :
    LeavesRow H (writeRowStructs H (retries + 1) k.1 k.2 entries reserve) w w t log := by
  obtain ⟨b, n, slot, ref, files⟩ := store
  have prepared := prepareRow_cases entries files.shardStore serving stored retries
  rw [writeRowStructs_eq] at bounded killed ⊢
  rcases cutOff_bind killed with early | ⟨⟨sequence, layout⟩, s, prepares, killed⟩
  · exact Or.inl (killed_prepareRow files serving stored retries early)
  rw [prepares] at prepared
  cases prepared with
  | built power small placed column room =>
    exact .after prepares (killed_writeLayout k _ entries _ files (files.table.setSequence (rowSequence b + 1)) (rowSequence_lt b)
      (fun block block_eq fits => by
        rw [block_eq] at fits ⊢
        exact layoutOf_block power small placed column rowId (rowSequence_lt b) fits)
      rowId room retries (bounded.rest prepares) killed)

theorem reads_loadRowEntries (H : HashFunctions) (column : Bytes) (rowId retries : Nat) :
    (loadRowEntries H retries column rowId (H.hashString column)).Only Op.Reads :=
  loadRowEntries_of_reads reads_buckets H column rowId _ retries

/-- So does one inside `PutRowStruct`. -/
theorem killed_putRowStruct {key flatBufferBytes : Bytes} (store : RowStore H w log) (serving : Serving w)
    (rowId : k.2 < 2 ^ 64) (retries : Nat)
    (bounded : Bounded (putRowStruct H (retries + 1) k.1 k.2 key flatBufferBytes) w)
    (killed : Killed (putRowStruct H (retries + 1) k.1 k.2 key flatBufferBytes) w t) :
    LeavesRow H (putRowStruct H (retries + 1) k.1 k.2 key flatBufferBytes) w w t log := by
  obtain ⟨b, n, slot, ref, files⟩ := id store
  have unchanged : SameFiles w t → LeavesRow H (putRowStruct H (retries + 1) k.1 k.2 key flatBufferBytes) w w t log :=
    fun same => Or.inl (files.unchanged same)
  unfold putRowStruct at bounded killed unchanged ⊢
  replace bounded := bounded.rest (getMembers_runs w)
  rcases cutOff_after killed (getMembers_runs w) with early | killed
  · exact unchanged (killed_inner (inner_of_reads reads_members) early)
  refine LeavesRow.after (getMembers_runs w) ?_
  rw [if_neg (by rw [serving.isOpen]; decide), if_neg (by rw [serving.writable]; decide)] at bounded killed ⊢
  by_cases long : ¬ fitsUint32 k.1.length ∨ ¬ fitsUint32 key.length
  · rw [if_pos long] at killed ⊢
    cases killed
    exact Or.inl (files.unchanged (.refl w))
  rw [if_neg long] at bounded killed ⊢
  obtain ⟨onAbsent, onStored⟩ := loadRowEntries_runs ⟨b, n, slot, ref, files⟩ k retries
  have loading : Killed (loadRowEntries H (retries + 1) k.1 k.2 (H.hashString k.1)) w t → ∃ i tail x, RowKept H w t log i tail x :=
    fun early => files.unchanged (killed_inner (inner_of_reads (reads_loadRowEntries H k.1 k.2 (retries + 1))) early)
  cases held : putRows noRows log k with
  | none =>
    rcases cutOff_after killed (onAbsent held) with early | killed
    · exact Or.inl (loading early)
    · exact .after (onAbsent held) (killed_writeRowStructs ⟨b, n, slot, ref, files⟩ serving rowId
        (fun given : true = false => nomatch given) retries (bounded.rest (onAbsent held)) killed)
  | some content =>
    obtain ⟨entries, loaded, _⟩ := onStored content held
    rcases cutOff_after killed loaded with early | killed
    · exact Or.inl (loading early)
    · exact .after loaded (killed_writeRowStructs ⟨b, n, slot, ref, files⟩ serving rowId
        (fun _ => by rw [held]; exact Option.some_ne_none content) retries (bounded.rest loaded) killed)

end Write

end LumoDB
