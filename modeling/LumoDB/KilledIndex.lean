import LumoDB.Faults
import LumoDB.Lib.Interruption
import LumoDB.OpenObjects

namespace LumoDB
open ByteCodec Effects LinearProbing

/-- A process that runs `p` can be killed in state `t`: between two operations
or inside a write. -/
abbrev Killed {α : Type} (p : Db α) (w t : World) : Prop := CutOff system Op.Partial p w t

/-- The kill finds `p` not begun or complete. -/
abbrev Whole {α : Type} (p : Db α) : Prop := Indivisible (S := signature) system Op.Partial p

section Whole
variable {α : Type} {file : FileId}

theorem silent_reads : Silent system Op.Partial Op.Reads where
  same _ _ _ _ reads step := system_reads reads step
  whole o _ _ reads inside := by
    cases o with
    | writeAt file offset data => exact reads.elim
    | _ => exact inside.elim

theorem whole_call {o : Op} (k : o.Resp → Except Status α) (inside : ∀ w t, ¬ o.Partial w t) :
    Whole (.op (S := signature) o fun r => checked (k r)) :=
  indivisible_op inside (fun r => by cases k r <;> exact trivial) fun r w => by cases k r <;> rfl

theorem whole_storeBytes (file : FileId) (offset : Nat) (data : Bytes) : Whole (storeBytes file offset data) :=
  indivisible_perform fun _ _ => id

theorem whole_store (file : FileId) (offset width value : Nat) : Whole (store file offset width value) :=
  indivisible_perform fun _ _ => id

theorem whole_storeBucket (index : Nat) (bucket : IndexBucket) : Whole (storeBucket index bucket) :=
  whole_storeBytes _ _ _

theorem whole_incrementItemCount : Whole incrementItemCount :=
  .after silent_reads (reads_only.load _ _) fun _ => whole_store _ _ _ _

theorem whole_countUnless (found : Bool) : Whole (countUnless found) :=
  .ite (indivisible_ret ()) whole_incrementItemCount

theorem whole_placeBucketLoop (message : String) (bucket : IndexBucket) (mask rounds probe : Nat) :
    Whole (placeBucketLoop message bucket mask rounds probe) := by
  induction rounds generalizing probe with
  | zero => exact indivisible_fail _
  | succ rounds ih =>
    exact .after silent_reads (reads_only.loadBucket _) fun _ => .ite (whole_storeBucket _ _) (ih _)

theorem whole_placeBucket (message : String) (bucket : IndexBucket) : Whole (placeBucket message bucket) :=
  .after silent_reads (reads_only.load _ _) fun _ => whole_placeBucketLoop _ _ _ _ _

end Whole

section Left
variable {w w' t : World} {file : FileId} {b x : Bytes}

/-- The kill has left `x` in the file, and of the other files what they
were. -/
structure FileLeft (file : FileId) (w t : World) (x : Bytes) : Prop where
  disk : t.disk = Function.update w.disk file (some x)
  directory : t.directory = w.directory

theorem FileLeft.refl (content : w.disk file = some b) : FileLeft file w w b :=
  ⟨by rw [← content, Function.update_eq_self], rfl⟩

theorem FileLeft.withMapped (w : World) (x : Bytes) : FileLeft file w (w.withMapped file x) x := ⟨rfl, rfl⟩

theorem FileLeft.trans (first : FileLeft file w w' b) (second : FileLeft file w' t x) : FileLeft file w t x :=
  ⟨by rw [second.disk, first.disk, Function.update_idem], second.directory.trans first.directory⟩

end Left

section Discarded
variable {H : HashFunctions} {b x : Bytes} {n n' : Nat} {slot : Nat → Option ObjectKey} {off : ObjectKey → Nat}

/-- An index that the layout check rejects without reading past its end. -/
def Discarded (x : Bytes) : Prop := ¬ Accepted x ∧ ¬ Overreads x

theorem discarded_of_length (long : x.length ≠ 64) (rejected : ¬ Accepted x) : Discarded x :=
  ⟨rejected, fun exceeds => long exceeds.length_eq.1⟩

theorem natAt_truncateBytes {offset width size : Nat} (inside : offset + width ≤ b.length) (grows : b.length ≤ size) :
    natAt (truncateBytes b size) offset width = natAt b offset width := by
  rw [truncateBytes, List.take_of_length_le grows, natAt_append_left inside]

/-- The file has its new size and still its old header. -/
theorem discarded_truncated {items : Nat} (file : IndexFile b n items) (grows : n < n') :
    Discarded (truncateBytes b (64 + n' * 16)) := by
  have length := file.length
  refine discarded_of_length (by rw [truncateBytes_length]; omega) ?_
  rintro ⟨m, other⟩
  have size := other.length
  have count := other.bucketCount
  rw [truncateBytes_length] at size
  rw [natAt_truncateBytes (by omega) (by omega), file.bucketCount] at count
  omega

theorem discarded_zeros {size : Nat} (long : size ≠ 64) : Discarded (List.replicate size 0) := by
  refine discarded_of_length (by rw [List.length_replicate]; exact long) ?_
  rintro ⟨m, file⟩
  have version := file.version
  rw [natAt_replicate_zero] at version
  cases version

/-- A bucket is stored and not yet counted. -/
theorem discarded_uncounted {k : ObjectKey} {i offset : Nat} (t : IndexTable H b n slot off) (looked : Looked H n slot k ⟨i, false⟩)
    (bound : offset < 2 ^ 64) : Discarded (putBucket b i ⟨objectHash H k, offset⟩) := by
  have inside := looked.inside
  have length := putBucket_length ⟨objectHash H k, offset⟩ t.length inside
  have file := t.toIndexFile.putBucket ⟨objectHash H k, offset⟩ inside
  have positive := t.positive
  refine discarded_of_length (by rw [length, t.length]; omega) ?_
  rintro ⟨m, counted⟩
  have same : m = n := counted.bucketCount.symm.trans file.bucketCount
  subst same
  have items := counted.itemCount.symm.trans file.itemCount
  have more : filled m (bucketSlot (putBucket b i ⟨objectHash H k, offset⟩)) = filled m (Function.update slot i (some k)) := by
    refine filled_congr fun j below => ?_
    rw [bucketSlot_isSome]
    by_cases here : j = i
    · subst here
      rw [bucketAt_putBucket_self (objectHash_lt H k) bound, Function.update_self]
      simp [objectHash_ne_zero]
    · rw [bucketAt_putBucket_ne _ t.length below here, Function.update_of_ne here]
      cases at_j : slot j with
      | none => simp [t.empty j below at_j]
      | some k' => simp [t.stored j below k' at_j, objectHash_ne_zero]
  have grown := looked.filled_eq
  simp only [Bool.false_eq_true, if_false] at grown
  rw [more, grown] at items
  omega

end Discarded

section Create
variable {w t : World} {bucketCount n : Nat} {old : Bytes}

/-- A kill inside `CreateEmptyIndex` leaves the old index, one of its four
states on the way, or the empty index. -/
theorem killed_createEmptyIndex (content : w.disk .index = some old) (rounded : roundUpPowerOfTwo bucketCount = some n)
    (small : 64 + 16 * n < 2 ^ 63) (killed : Killed (createEmptyIndex bucketCount) w t) :
    ∃ x, FileLeft .index w t x ∧
      (x = old ∨ x = truncateBytes old (64 + n * 16) ∨ x = List.replicate (64 + n * 16) 0 ∨ x = emptyIndex n) := by
  have size : u64 (64 + n * 16) = 64 + n * 16 := u64_of_lt (by omega)
  have length := truncateBytes_length old (64 + n * 16)
  set unmapped := w.setMembers (·.setMap .index none)
  set resized := unmapped.setFile .index (some (truncateBytes old (64 + n * 16)))
  have mapped : resized.setMembers (·.setMap .index (some ⟨64 + n * 16, true⟩)) =
      w.withMapped .index (truncateBytes old (64 + n * 16)) := by
    simp [resized, unmapped, World.withMapped, World.setFile, World.setMembers, Members.setMap, length]
  unfold createEmptyIndex at killed
  rw [rounded] at killed
  simp only [orOverflow, Prog.bind_eq, Prog.ret_bind, size] at killed
  rcases Indivisible.cutOff (indivisible_perform fun _ _ => id) killed (unmap_runs .index w) with rfl | killed
  · exact ⟨old, .refl content, Or.inl rfl⟩
  rcases Indivisible.cutOff (whole_call _ fun _ _ => id) killed
    (truncateFile_runs (w := unmapped) content (by omega)) with rfl | killed
  · exact ⟨old, ⟨(FileLeft.refl content).disk, rfl⟩, Or.inl rfl⟩
  rcases Indivisible.cutOff (whole_call _ fun _ _ => id) killed
    (mapFile_runs (w := resized) (by omega) (by omega)) with rfl | killed
  · exact ⟨_, ⟨rfl, rfl⟩, Or.inr (Or.inl rfl)⟩
  rw [mapped] at killed
  rcases Indivisible.cutOff (whole_storeBytes _ _ _) killed
    (storeBytes_runs w (by rw [List.length_replicate, length]; omega)) with rfl | killed
  · exact ⟨_, .withMapped w _, Or.inr (Or.inl rfl)⟩
  have cleared : patch (truncateBytes old (64 + n * 16)) 0 (List.replicate (64 + n * 16) 0) =
      List.replicate (64 + n * 16) 0 := patch_whole (by rw [List.length_replicate, length])
  rw [cleared] at killed
  rcases (whole_storeBytes _ _ _).last killed (storeHeader_runs w n) with rfl | rfl
  · exact ⟨_, .withMapped w _, Or.inr (Or.inr (Or.inl rfl))⟩
  · exact ⟨_, .withMapped w _, Or.inr (Or.inr (Or.inr rfl))⟩

end Create

section Resize
variable {H : HashFunctions} {w t : World} {b : Bytes} {n : Nat} {slot : Nat → Option ObjectKey} {off : ObjectKey → Nat}

/-- The index `x` holds some of the keys `held`, each with its old offset. -/
def HoldsSome (H : HashFunctions) (off : ObjectKey → Nat) (held : ObjectKey → Prop) (x : Bytes) : Prop :=
  ∃ n slot, IndexTable H x n slot off ∧ ∀ k, Stored n slot k → held k

theorem HoldsSome.mono {held held' : ObjectKey → Prop} {x : Bytes} (some_held : HoldsSome H off held x)
    (more : ∀ k, held k → held' k) : HoldsSome H off held' x := by
  obtain ⟨n', slot', table, stored⟩ := some_held
  exact ⟨n', slot', table, fun k at_k => more k (stored k at_k)⟩

theorem killed_placeBuckets (ks : List ObjectKey) (nodup : ks.Nodup) (table : IndexTable H b n slot off)
    (bounds : ∀ k ∈ ks, off k < 2 ^ 64) (absent : ∀ k ∈ ks, ¬ Stored n slot k) (room : filled n slot + ks.length < n)
    (killed : Killed (placeBuckets (ks.map (bucketOf H off))) (w.withMapped .index b) t) :
    ∃ x, FileLeft .index w t x ∧ (Discarded x ∨ HoldsSome H off (fun k => k ∈ ks ∨ Stored n slot k) x) := by
  induction ks generalizing b slot with
  | nil =>
    cases killed
    exact ⟨b, .withMapped w b, Or.inr ⟨n, slot, table, fun k => Or.inr⟩⟩
  | cons k ks ih =>
    rw [List.length_cons] at room
    have bound := bounds k List.mem_cons_self
    have distinct := List.nodup_cons.mp nodup
    obtain ⟨i, placed, looked⟩ := @placeBucket_runs _ _ _ _ _ w "index table is full during resize" k (off k) table
      (absent k List.mem_cons_self)
    rw [List.map_cons, placeBuckets] at killed
    rcases Indivisible.cutOff (whole_placeBucket _ _) killed placed with rfl | killed
    · exact ⟨b, .withMapped w b, Or.inr ⟨n, slot, table, fun k => Or.inr⟩⟩
    rcases Indivisible.cutOff whole_incrementItemCount killed
      (incrementItemCount_runs w (table.toIndexFile.putBucket _ looked.inside)) with rfl | killed
    · exact ⟨_, .withMapped w _, Or.inl (discarded_uncounted table looked bound)⟩
    have counted : IndexTable H (addItem (putBucket b i (bucketOf H off k))) n (Function.update slot i (some k)) off := by
      have pointed := table.point looked (by omega) bound
      rwa [Function.update_eq_self] at pointed
    have fresh := stored_update looked.inside looked.free
    have fill : filled n (Function.update slot i (some k)) ≤ filled n slot + 1 := looked.filled_le.2
    obtain ⟨x, left, state⟩ := ih distinct.2 counted (fun k' member => bounds k' (List.mem_cons_of_mem k member))
      (fun k' member => by
        rw [fresh k', not_or]
        exact ⟨fun same => distinct.1 (same ▸ member), absent k' (List.mem_cons_of_mem k member)⟩)
      (by omega) killed
    refine ⟨x, left, state.imp_right fun some_held => some_held.mono fun k' held => ?_⟩
    rw [fresh k'] at held
    rw [List.mem_cons]
    tauto

/-- A kill inside `ResizeIndex` leaves the old index, one that the next `Open`
discards, or one with some of the keys. -/
theorem killed_resizeIndex {newCount n' : Nat} (table : IndexTable H b n slot off)
    (rounded : roundUpPowerOfTwo newCount = some n') (small : 64 + 16 * n' < 2 ^ 63) (grows : n < n')
    (killed : Killed (resizeIndex newCount) (w.withMapped .index b) t) :
    ∃ x, FileLeft .index w t x ∧ (Discarded x ∨ HoldsSome H off (Stored n slot) x) := by
  obtain ⟨_, e, _, _, power⟩ := roundUpPowerOfTwo_spec rounded
  have whole : (List.range' 0 n).filterMap slot = keys n slot := by
    rw [keys, List.range_eq_range']
  have count : (keys n slot).length = filled n slot := (filled_eq_length_keys n slot).symm
  have short := table.filled_lt
  have empty := emptyIndex_table H off power small
  have loaded := @load_runs w .index b 32 8 (by rw [table.length]; have := table.positive; omega)
  have created := createEmptyIndex_runs (w := w.withMapped .index b) (World.withMapped_disk w _ b) rounded small
  rw [World.withMapped_withMapped] at created
  have stored := @store_runs w .index (emptyIndex n') 32 8 (natAt b 32 8) (by rw [empty.length]; omega)
  have old : FileLeft .index w (w.withMapped .index b) b ∧ HoldsSome H off (Stored n slot) b :=
    ⟨.withMapped w b, n, slot, table, fun _ => id⟩
  have none_held : ∀ {x}, IndexTable H x n' (fun _ => none) off → HoldsSome H off (Stored n slot) x :=
    fun table => ⟨n', _, table, fun _ at_k => absurd at_k stored_none⟩
  unfold resizeIndex at killed
  rcases cutOff_after killed (loadBucketCount_runs w table.toIndexFile) with early | killed
  · obtain rfl := silent_reads.cutOff (reads_only.load _ _) early
    exact ⟨b, old.1, Or.inr old.2⟩
  rcases cutOff_after killed (collectBuckets_runs table.entries (by omega)) with early | killed
  · obtain rfl := silent_reads.cutOff (reads_only.collectBuckets _ _) early
    exact ⟨b, old.1, Or.inr old.2⟩
  rcases cutOff_after killed (p := loadNextSequence) loaded with early | killed
  · obtain rfl := silent_reads.cutOff (reads_only.load _ _) early
    exact ⟨b, old.1, Or.inr old.2⟩
  rcases cutOff_after killed created with early | killed
  · obtain ⟨x, left, rfl | rfl | rfl | rfl⟩ := killed_createEmptyIndex (World.withMapped_disk w _ b) rounded small early
    · exact ⟨x, old.1.trans left, Or.inr old.2⟩
    · exact ⟨_, old.1.trans left, Or.inl (discarded_truncated table.toIndexFile grows)⟩
    · exact ⟨_, old.1.trans left, Or.inl (discarded_zeros (by omega))⟩
    · exact ⟨_, old.1.trans left, Or.inr (none_held empty)⟩
  rcases Indivisible.cutOff (whole_store _ _ _ _) killed (p := storeNextSequence _) stored with rfl | killed
  · exact ⟨_, .withMapped w _, Or.inr (none_held empty)⟩
  rw [whole] at killed
  obtain ⟨x, left, state⟩ := killed_placeBuckets (keys n slot) table.table.keys_nodup (empty.storeSequence (natAt b 32 8))
    (fun k member => by
      obtain ⟨i, inside, at_i⟩ := mem_keys.mp member
      have bound := (bucketAt_lt b i).2
      rwa [table.stored i inside k at_i] at bound)
    (fun k _ => stored_none) (by rw [filled_none, count]; omega) killed
  refine ⟨x, left, state.imp_right fun some_held => some_held.mono fun k held => ?_⟩
  exact mem_keys.mp (held.resolve_right stored_none)

/-- A kill inside `EnsureCapacityForInsert` leaves the index as it was, or it
falls into a resize. -/
theorem killed_ensureCapacityForInsert {insertCount : Nat} (table : IndexTable H b n slot off)
    (load : LoadFactorOk w.members.options.maxLoadFactor)
    (bounded : Bounded (ensureCapacityForInsert insertCount) (w.withMapped .index b))
    (killed : Killed (ensureCapacityForInsert insertCount) (w.withMapped .index b) t) :
    ∃ x, FileLeft .index w t x ∧ (x = b ∨ (∃ grown, growBucketCount w.members.options.maxLoadFactor
      (u64 (filled n slot + insertCount)) 66 n = some grown ∧ grown ≠ n) ∧
        (Discarded x ∨ HoldsSome H off (Stored n slot) x)) := by
  have members : (w.withMapped .index b).members.options = w.members.options := rfl
  have old : FileLeft .index w (w.withMapped .index b) b := .withMapped w b
  unfold ensureCapacityForInsert at bounded killed
  replace bounded := ((bounded.rest (getMembers_runs _)).rest (loadBucketCount_runs w table.toIndexFile)).rest
    (loadItemCount_runs w table.toIndexFile)
  rcases cutOff_after killed (getMembers_runs _) with early | killed
  · obtain rfl := silent_reads.cutOff reads_only.members early
    exact ⟨b, old, Or.inl rfl⟩
  rcases cutOff_after killed (loadBucketCount_runs w table.toIndexFile) with early | killed
  · obtain rfl := silent_reads.cutOff (reads_only.load _ _) early
    exact ⟨b, old, Or.inl rfl⟩
  rcases cutOff_after killed (loadItemCount_runs w table.toIndexFile) with early | killed
  · obtain rfl := silent_reads.cutOff (reads_only.load _ _) early
    exact ⟨b, old, Or.inl rfl⟩
  rw [members] at bounded killed
  cases grow : growBucketCount w.members.options.maxLoadFactor (u64 (filled n slot + insertCount)) 66 n with
  | none =>
    rw [grow] at bounded
    exact bounded.elim
  | some grown =>
    rw [grow] at bounded killed
    simp only [orOverflow, Prog.bind_eq, Prog.ret_bind] at bounded killed
    by_cases same : grown = n
    · rw [if_pos same] at killed
      cases killed
      exact ⟨b, old, Or.inl rfl⟩
    · rw [if_neg same] at bounded killed
      obtain ⟨n', rounded, small⟩ := Bounded.resizeIndex table.entries bounded
      obtain ⟨e, power⟩ := table.power
      have exponent : e < 64 := (Nat.pow_lt_pow_iff_right (a := 2) (by decide)).mp (by have := table.count_lt; omega)
      rw [power] at grow
      obtain ⟨_, e', later, value⟩ := growBucketCount_spec exponent load.1.le grow
      have larger : n ≤ grown := by
        rw [power, value]
        exact Nat.pow_le_pow_right (by decide) later
      have rounds := (roundUpPowerOfTwo_spec rounded).1
      obtain ⟨x, left, state⟩ := killed_resizeIndex table rounded small (by omega) killed
      exact ⟨x, left, Or.inr ⟨⟨grown, rfl, same⟩, state⟩⟩

end Resize

end LumoDB
