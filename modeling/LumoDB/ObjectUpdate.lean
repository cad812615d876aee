import LumoDB.ObjectTable

namespace LumoDB
open ByteCodec Effects LinearProbing

/-- The index and the value file represent the map `m`. -/
def Represents (v : Bytes) (n : Nat) (slot : Nat → Option ObjectKey) (off : ObjectKey → Nat)
    (m : ObjectKey → Option Bytes) : Prop :=
  ∀ k, (m k = none → ¬ Stored n slot k) ∧
    ∀ value, m k = some value → Stored n slot k ∧ RecordAt v (off k) k value

section Update
variable {H : HashFunctions} {b v : Bytes} {n : Nat} {slot : Nat → Option ObjectKey}
  {off : ObjectKey → Nat} {m : ObjectKey → Option Bytes} {w : World}

theorem Represents.located (rep : Represents v n slot off m) : Located v n slot off := by
  intro i inside k at_i
  cases value : m k with
  | none => exact absurd ⟨i, inside, at_i⟩ ((rep k).1 value)
  | some value' => exact ⟨value', ((rep k).2 value' value).2⟩

theorem Represents.append (rep : Represents v n slot off m) (more : Bytes) :
    Represents (v ++ more) n slot off m :=
  fun k => ⟨(rep k).1, fun value held => ⟨((rep k).2 value held).1, ((rep k).2 value held).2.append more⟩⟩

theorem Represents.stored_iff (rep : Represents v n slot off m) (k : ObjectKey) :
    Stored n slot k ↔ m k ≠ none := by
  refine ⟨fun stored absent => (rep k).1 absent stored, fun present => ?_⟩
  obtain ⟨value, held⟩ := Option.ne_none_iff_exists'.mp present
  exact ((rep k).2 value held).1

/-- A looked-up bucket that is pointed to a record of its key represents the
updated map. -/
theorem Represents.update {k : ObjectKey} {value : Bytes} {offset i : Nat} (rep : Represents v n slot off m)
    (inside : i < n) (free : slot i = none ∨ slot i = some k) (rec : RecordAt v offset k value) :
    Represents v n (Function.update slot i (some k)) (Function.update off k offset)
      (Function.update m k (some value)) := by
  intro k'
  rw [stored_update inside free k']
  by_cases same : k' = k
  · subst same
    simp only [Function.update_self]
    refine ⟨nofun, fun value' held => ⟨Or.inl trivial, ?_⟩⟩
    rwa [← Option.some.inj held]
  · simp only [Function.update_of_ne same, same, false_or]
    exact rep k'

/-- The bytes after the bucket of `k` was stored and a new key counted. -/
def pointed (b : Bytes) (lookup : BucketLookup) (bucket : IndexBucket) : Bytes :=
  if lookup.found then putBucket b lookup.index bucket else addItem (putBucket b lookup.index bucket)

theorem bucketAt_pointed (b : Bytes) (lookup : BucketLookup) (bucket : IndexBucket) (i : Nat) :
    bucketAt (pointed b lookup bucket) i = bucketAt (putBucket b lookup.index bucket) i := by
  unfold pointed
  split
  · rfl
  · exact bucketAt_addItem _ i

theorem IndexTable.point {k : ObjectKey} {lookup : BucketLookup} {offset : Nat}
    (t : IndexTable H b n slot off) (looked : Looked H n slot k lookup)
    (room : filled n slot + 1 < n) (bound : offset < 2 ^ 64) :
    IndexTable H (pointed b lookup ⟨objectHash H k, offset⟩) n
      (Function.update slot lookup.index (some k)) (Function.update off k offset) := by
  have file := t.toIndexFile.putBucket ⟨objectHash H k, offset⟩ looked.inside
  have count := t.count_lt
  have others := looked.others t.table
  refine { toIndexFile := ?_, table := looked.table t.table fun _ => room, empty := ?_, stored := ?_ }
  · unfold pointed
    rw [looked.filled_eq]
    split
    · exact file
    · exact file.addItem (by omega)
  · intro i inside empty
    by_cases here : i = lookup.index
    · rw [here, Function.update_self] at empty
      cases empty
    · rw [Function.update_of_ne here] at empty
      rw [bucketAt_pointed, bucketAt_putBucket_ne _ t.length inside here]
      exact t.empty i inside empty
  · intro i inside k' at_i
    rw [bucketAt_pointed]
    by_cases here : i = lookup.index
    · rw [here, Function.update_self] at at_i
      cases Option.some.inj at_i
      rw [here, bucketAt_putBucket_self (objectHash_lt H k) bound, Function.update_self]
    · rw [Function.update_of_ne here] at at_i
      have other : k' ≠ k := by
        rintro rfl
        exact others i inside here at_i
      rw [bucketAt_putBucket_ne _ t.length inside here, Function.update_of_ne other]
      exact t.stored i inside k' at_i

theorem storeLooked_runs {k : ObjectKey} {lookup : BucketLookup} (t : IndexTable H b n slot off)
    (looked : Looked H n slot k lookup) (bucket : IndexBucket) :
    run system ((storeBucket lookup.index bucket).bind fun _ => countUnless lookup.found)
        (w.withMapped .index b) =
      .ok () (w.withMapped .index (pointed b lookup bucket)) := by
  rw [(storeBucket_runs w bucket t.toIndexFile looked.inside).bind]
  have counted := countUnless_runs w (t.toIndexFile.putBucket bucket looked.inside) lookup.found
  unfold pointed
  exact counted

end Update

section Place
variable {H : HashFunctions} {b : Bytes} {n : Nat} {slot : Nat → Option ObjectKey}
  {off : ObjectKey → Nat} (w : World)

/-- The search for an empty bucket finds, for a new key, the bucket that a
lookup of the key reports. -/
theorem placeBucketLoop_runs {message : String} {k : ObjectKey} {offset rounds probe : Nat}
    (t : IndexTable H b n slot off) (absent : ¬ Stored n slot k) (sum : rounds + probe = n)
    (occupied : ∀ q < probe, slot (probeSlot n (objectHash H k) q) ≠ none) :
    ∃ i, Runs (placeBucketLoop message ⟨objectHash H k, offset⟩ (n - 1) rounds probe)
        (w.withMapped .index b) () (w.withMapped .index (putBucket b i ⟨objectHash H k, offset⟩)) ∧
      Looked H n slot k ⟨i, false⟩ := by
  have positive := t.positive
  have passed := Passed.of_absent positive (fun i inside at_i => absent ⟨i, inside, at_i⟩) occupied
  induction rounds generalizing probe with
  | zero =>
    have short := passed.lt_size t.table.vacancy
    omega
  | succ rounds ih =>
    have target := probeSlot_lt positive (objectHash H k) probe
    simp only [placeBucketLoop, Prog.bind_eq, t.probe]
    unfold Runs
    rw [(loadBucket_runs w t.toIndexFile target).bind]
    cases here : slot (probeSlot n (objectHash H k) probe) with
    | none =>
      refine ⟨_, ?_, target, nofun, fun _ => ⟨probe, rfl, passed, here⟩⟩
      rw [if_pos (t.empty _ target here)]
      exact storeBucket_runs w _ t.toIndexFile target
    | some k' =>
      have other : k' ≠ k := by
        rintro rfl
        exact absent ⟨_, target, here⟩
      rw [t.stored _ target k' here]
      simp only
      rw [if_neg (objectHash_ne_zero H k')]
      have further := passed.succ here other
      exact ih (by omega) (fun q before => by
        obtain ⟨held, at_q, _⟩ := further q before
        rw [at_q]
        exact Option.some_ne_none held) further

theorem placeBucket_runs {message : String} {k : ObjectKey} {offset : Nat}
    (t : IndexTable H b n slot off) (absent : ¬ Stored n slot k) :
    ∃ i, Runs (placeBucket message ⟨objectHash H k, offset⟩) (w.withMapped .index b) ()
        (w.withMapped .index (putBucket b i ⟨objectHash H k, offset⟩)) ∧
      Looked H n slot k ⟨i, false⟩ := by
  unfold Runs placeBucket
  rw [Prog.bind_eq, (loadBucketCount_runs w t.toIndexFile).bind,
    mask_of_count t.positive (t.count_lt.trans (by decide))]
  exact placeBucketLoop_runs w t absent (by omega) fun _ before => absurd before (Nat.not_lt_zero _)

theorem sequence_placed (bucket : IndexBucket) {i : Nat} (length : b.length = 64 + 16 * n) :
    natAt (addItem (putBucket b i bucket)) 32 8 = natAt b 32 8 := by
  have after : 64 ≤ indexBucketOffset i := Nat.le_add_right _ _
  rw [addItem, natAt_patch_disjoint (by rw [leBytes_length]; omega), putBucket, natAt_patch_disjoint (by omega)]

/-- A placed and counted new key extends the table by that key. -/
theorem placeCounted_runs {message : String} {k : ObjectKey} {offset : Nat}
    (t : IndexTable H b n slot off) (absent : ¬ Stored n slot k) (room : filled n slot + 1 < n)
    (bound : offset < 2 ^ 64) :
    ∃ b' i, run system ((placeBucket message ⟨objectHash H k, offset⟩).bind fun _ => incrementItemCount)
          (w.withMapped .index b) = .ok () (w.withMapped .index b') ∧
      IndexTable H b' n (Function.update slot i (some k)) (Function.update off k offset) ∧
      Looked H n slot k ⟨i, false⟩ ∧ natAt b' 32 8 = natAt b 32 8 := by
  obtain ⟨i, placed, looked⟩ := @placeBucket_runs _ _ _ _ _ w message _ offset t absent
  refine ⟨_, i, ?_, t.point looked room bound, looked, sequence_placed _ t.length⟩
  rw [placed.bind]
  exact incrementItemCount_runs w (t.toIndexFile.putBucket _ looked.inside)

end Place

end LumoDB
