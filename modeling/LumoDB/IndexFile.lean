import LumoDB.Lib.Probing
import LumoDB.Machine
import LumoDB.ObjectIndex

namespace LumoDB
open ByteCodec Effects LinearProbing

section Sizes

theorem roundUpLoop_zero {value : Nat} (positive : 0 < value) (rounds : Nat) :
    roundUpLoop rounds value 0 = none := by
  induction rounds with
  | zero => rfl
  | succ rounds ih => rw [roundUpLoop, if_pos positive]; exact ih

theorem roundUpLoop_spec {value rounds e n : Nat} (small : e < 64)
    (run : roundUpLoop rounds value (2 ^ e) = some n) :
    value ≤ n ∧ ∃ e', e ≤ e' ∧ e' < 64 ∧ n = 2 ^ e' := by
  induction rounds generalizing e with
  | zero => cases run
  | succ rounds ih =>
    rw [roundUpLoop] at run
    split at run
    · rename_i below
      rw [← pow_succ] at run
      by_cases last : e + 1 < 64
      · rw [u64_of_lt (Nat.pow_lt_pow_right (by decide) last)] at run
        obtain ⟨enough, e', lower, upper, value⟩ := ih last run
        exact ⟨enough, e', by omega, upper, value⟩
      · have wrapped : u64 (2 ^ (e + 1)) = 0 := by
          rw [show e + 1 = 64 by omega]
          exact Nat.mod_self _
        rw [wrapped, roundUpLoop_zero ((Nat.zero_le _).trans_lt below)] at run
        cases run
    · cases Option.some.inj run
      exact ⟨by omega, e, le_rfl, small, rfl⟩

/-- A bucket count the code rounds to is a power of two and at least 16. -/
theorem roundUpPowerOfTwo_spec {value n : Nat} (run : roundUpPowerOfTwo value = some n) :
    value ≤ n ∧ ∃ e, 4 ≤ e ∧ e < 64 ∧ n = 2 ^ e :=
  roundUpLoop_spec (e := 4) (by decide) run

theorem roundUpLoop_pow {value e rounds : Nat} {target : Nat} (enough : value ≤ 2 ^ target)
    (start : e ≤ target) (least : e < target → 2 ^ (target - 1) < value) (small : target < 64)
    (room : target - e < rounds) : roundUpLoop rounds value (2 ^ e) = some (2 ^ target) := by
  induction rounds generalizing e with
  | zero => omega
  | succ rounds ih =>
    rw [roundUpLoop]
    by_cases here : e = target
    · subst here
      rw [if_neg (by omega)]
    · have later : 2 ^ e ≤ 2 ^ (target - 1) := Nat.pow_le_pow_right (by decide) (by omega)
      have below := least (by omega)
      rw [if_pos (by omega), ← pow_succ, u64_of_lt (Nat.pow_lt_pow_right (by decide) (by omega))]
      exact ih (by omega) (fun _ => below) (by omega)

/-- Rounding a power of two of at least 16 changes nothing. -/
theorem roundUpPowerOfTwo_pow {e : Nat} (lower : 4 ≤ e) (upper : e < 64) :
    roundUpPowerOfTwo (2 ^ e) = some (2 ^ e) :=
  roundUpLoop_pow (e := 4) le_rfl lower
    (fun _ => Nat.pow_lt_pow_right (by decide) (by omega)) upper (by omega)

/-- A power of two is rounded to 16 if it is less. -/
theorem roundUpPowerOfTwo_max {e : Nat} (small : e < 64) : roundUpPowerOfTwo (2 ^ e) = some (2 ^ max 4 e) := by
  by_cases lower : 4 ≤ e
  · rw [max_eq_right lower]
    exact roundUpPowerOfTwo_pow lower small
  · have bound : 2 ^ e ≤ 2 ^ 4 := Nat.pow_le_pow_right (by decide) (by omega)
    rw [max_eq_left (by omega), roundUpPowerOfTwo, roundUpLoop, if_neg (by unfold kMinimumBucketCount; omega)]
    rfl

theorem mask_of_count {n : Nat} (positive : 0 < n) (small : n < 2 ^ 64) : u64 (n + 2 ^ 64 - 1) = n - 1 := by
  unfold u64
  omega

/-- Masking with a power of two less one is the remainder, also after the sum
has wrapped. -/
theorem probe_index {n e : Nat} (power : n = 2 ^ e) (small : n < 2 ^ 64) (hash probe : Nat) :
    u64 ((hash &&& (n - 1)) + probe) &&& (n - 1) = probeSlot n hash probe := by
  have exponent : e ≤ 64 := by
    by_contra large
    have : 2 ^ 64 ≤ 2 ^ e := Nat.pow_le_pow_right (by decide) (by omega)
    omega
  subst power
  rw [Nat.and_two_pow_sub_one_eq_mod, Nat.and_two_pow_sub_one_eq_mod, u64, probeSlot,
    Nat.mod_mod_of_dvd _ (Nat.pow_dvd_pow 2 exponent), Nat.mod_add_mod]

end Sizes

section Bytes

def bucketAt (b : Bytes) (index : Nat) : IndexBucket :=
  IndexBucket.decode (slice b (indexBucketOffset index) 16)

def putBucket (b : Bytes) (index : Nat) (bucket : IndexBucket) : Bytes :=
  patch b (indexBucketOffset index) bucket.encode

def addItem (b : Bytes) : Bytes := patch b 24 (leBytes 8 (natAt b 24 8 + 1))

def emptyIndex (n : Nat) : Bytes :=
  { bucketCount := n : IndexFileHeader }.encode ++ List.replicate (16 * n) 0

/-- The bytes of an index file that its layout check takes for `n` buckets
and `items` counted items, the count of filled buckets apart. -/
structure IndexFile (b : Bytes) (n items : Nat) : Prop where
  length : b.length = 64 + 16 * n
  magic : slice b 0 8 = kIndexFileMagic
  version : natAt b 8 4 = kStorageVersion
  headerSize : natAt b 12 4 = 64
  bucketCount : natAt b 16 8 = n
  itemCount : natAt b 24 8 = items
  power : ∃ e, n = 2 ^ e
  small : 64 + 16 * n < 2 ^ 63

variable {b : Bytes} {n items : Nat}

theorem IndexFile.positive (file : IndexFile b n items) : 0 < n := by
  obtain ⟨e, rfl⟩ := file.power
  exact Nat.two_pow_pos e

theorem bucket_inside {index : Nat} (length : b.length = 64 + 16 * n) (inside : index < n) :
    indexBucketOffset index + 16 ≤ b.length := by
  unfold indexBucketOffset
  omega

theorem bucketAt_eq {index : Nat} :
    bucketAt b index =
      ⟨natAt b (indexBucketOffset index) 8, natAt b (indexBucketOffset index + 8) 8⟩ := by
  unfold bucketAt IndexBucket.decode
  rw [natAt_slice (by omega), natAt_slice (by omega), Nat.add_zero]

theorem bucketAt_lt (b : Bytes) (index : Nat) :
    (bucketAt b index).hash < 2 ^ 64 ∧ (bucketAt b index).recordOffset < 2 ^ 64 := by
  rw [bucketAt_eq]
  exact ⟨natAt_lt _ _ 8, natAt_lt _ _ 8⟩

theorem putBucket_length {index : Nat} (bucket : IndexBucket) (length : b.length = 64 + 16 * n)
    (inside : index < n) : (putBucket b index bucket).length = b.length :=
  patch_length_of_le (by rw [IndexBucket.encode_length]; exact bucket_inside length inside)

theorem bucketAt_putBucket_self {index : Nat} {bucket : IndexBucket} (hash : bucket.hash < 2 ^ 64)
    (offset : bucket.recordOffset < 2 ^ 64) : bucketAt (putBucket b index bucket) index = bucket := by
  have stored := slice_patch_self b bucket.encode (indexBucketOffset index)
  rw [IndexBucket.encode_length] at stored
  rw [bucketAt, putBucket, stored, IndexBucket.decode_encode]
  cases bucket
  simp only [IndexBucket.mk.injEq]
  exact ⟨Nat.mod_eq_of_lt hash, Nat.mod_eq_of_lt offset⟩

theorem bucketAt_patch_of_apart {data : Bytes} {start index : Nat}
    (apart : indexBucketOffset index + 16 ≤ start ∧ indexBucketOffset index + 16 ≤ b.length ∨
      start + data.length ≤ indexBucketOffset index) :
    bucketAt (patch b start data) index = bucketAt b index := by
  rw [bucketAt_eq, bucketAt_eq, natAt_patch_disjoint (by omega), natAt_patch_disjoint (by omega)]

theorem bucketAt_putBucket_ne {index other : Nat} (bucket : IndexBucket) (length : b.length = 64 + 16 * n)
    (inside : other < n) (ne : other ≠ index) :
    bucketAt (putBucket b index bucket) other = bucketAt b other := by
  apply bucketAt_patch_of_apart
  have inside := bucket_inside length inside
  rw [IndexBucket.encode_length]
  unfold indexBucketOffset at *
  omega

theorem bucketAt_addItem (b : Bytes) (index : Nat) : bucketAt (addItem b) index = bucketAt b index := by
  apply bucketAt_patch_of_apart
  right
  rw [leBytes_length]
  unfold indexBucketOffset
  omega

theorem IndexFile.patchBuckets {data : Bytes} {start : Nat} (file : IndexFile b n items)
    (after : 64 ≤ start) (inside : start + data.length ≤ b.length) :
    IndexFile (patch b start data) n items where
  length := (patch_length_of_le inside).trans file.length
  magic := by rw [slice_patch_before (by omega) (by rw [file.length]; omega), file.magic]
  version := by rw [natAt_patch_disjoint (by rw [file.length]; omega), file.version]
  headerSize := by rw [natAt_patch_disjoint (by rw [file.length]; omega), file.headerSize]
  bucketCount := by rw [natAt_patch_disjoint (by rw [file.length]; omega), file.bucketCount]
  itemCount := by rw [natAt_patch_disjoint (by rw [file.length]; omega), file.itemCount]
  power := file.power
  small := file.small

theorem IndexFile.putBucket {index : Nat} (bucket : IndexBucket) (file : IndexFile b n items)
    (inside : index < n) : IndexFile (putBucket b index bucket) n items :=
  file.patchBuckets (by unfold indexBucketOffset; omega)
    (by rw [IndexBucket.encode_length]; exact bucket_inside file.length inside)

theorem IndexFile.addItem (file : IndexFile b n items) (bound : items + 1 < 2 ^ 64) :
    IndexFile (addItem b) n (items + 1) := by
  have inside : 24 + (leBytes 8 (natAt b 24 8 + 1)).length ≤ b.length := by
    rw [leBytes_length, file.length]
    omega
  have after : 24 + (leBytes 8 (natAt b 24 8 + 1)).length = 32 := by rw [leBytes_length]
  unfold LumoDB.addItem
  refine ⟨(patch_length_of_le inside).trans file.length, ?_, ?_, ?_, ?_, ?_, file.power, file.small⟩
  · rw [slice_patch_before (by omega) (by rw [file.length]; omega), file.magic]
  · rw [natAt_patch_disjoint (by rw [file.length]; omega), file.version]
  · rw [natAt_patch_disjoint (by rw [file.length]; omega), file.headerSize]
  · rw [natAt_patch_disjoint (by rw [file.length]; omega), file.bucketCount]
  · rw [natAt_patch_leBytes, file.itemCount]
    exact Nat.mod_eq_of_lt bound

theorem emptyIndex_length (n : Nat) : (emptyIndex n).length = 64 + 16 * n := by
  rw [emptyIndex, List.length_append, IndexFileHeader.encode_length _ rfl, List.length_replicate]

theorem natAt_replicate_zero (count offset width : Nat) :
    natAt (List.replicate count 0) offset width = 0 := by
  have zeros : ∀ bs : Bytes, (∀ x ∈ bs, x = 0) → leNat bs = 0 := by
    intro bs all
    induction bs with
    | nil => rfl
    | cons x bs ih =>
      rw [leNat, ih fun y member => all y (List.mem_cons_of_mem x member),
        all x List.mem_cons_self]
      rfl
  refine zeros _ fun x member => ?_
  have inner := List.mem_of_mem_drop (List.mem_of_mem_take member)
  exact List.eq_of_mem_replicate inner

theorem bucketAt_emptyIndex (n index : Nat) : bucketAt (emptyIndex n) index = ⟨0, 0⟩ := by
  have header : ({ bucketCount := n : IndexFileHeader }.encode).length = 64 :=
    IndexFileHeader.encode_length _ rfl
  rw [bucketAt_eq, emptyIndex, natAt_append_right (by rw [header, indexBucketOffset]; omega),
    natAt_append_right (by rw [header, indexBucketOffset]; omega), natAt_replicate_zero,
    natAt_replicate_zero]

theorem emptyIndex_file {e : Nat} (power : n = 2 ^ e) (small : 64 + 16 * n < 2 ^ 63) :
    IndexFile (emptyIndex n) n 0 := by
  have header : ({ bucketCount := n : IndexFileHeader }.encode).length = 64 :=
    IndexFileHeader.encode_length _ rfl
  have fields := IndexFileHeader.decode_encode { bucketCount := n } rfl
  simp only [IndexFileHeader.decode, IndexFileHeader.mk.injEq] at fields
  obtain ⟨magic, version, headerSize, bucketCount, itemCount, _⟩ := fields
  have count : n % 256 ^ 8 = n := Nat.mod_eq_of_lt (by omega)
  unfold emptyIndex
  refine ⟨emptyIndex_length n, ?_, ?_, ?_, ?_, ?_, ⟨e, power⟩, small⟩
  · rw [slice_append_left (by omega), magic]
  · rw [natAt_append_left (by omega), version]
    rfl
  · rw [natAt_append_left (by omega), headerSize]
    rfl
  · rw [natAt_append_left (by omega), bucketCount, count]
  · rw [natAt_append_left (by omega), itemCount]
    rfl

end Bytes

section Loads
variable {w : World} {b : Bytes} {n items : Nat}

theorem IndexFile.loadBucketCount (file : IndexFile b n items) (sees : w.Sees .index b) :
    Runs loadBucketCount w n w := by
  have run := @World.Sees.load_runs w .index b 16 8 sees (by rw [file.length]; omega)
  rwa [file.bucketCount] at run

theorem IndexFile.loadItemCount (file : IndexFile b n items) (sees : w.Sees .index b) :
    Runs loadItemCount w items w := by
  have run := @World.Sees.load_runs w .index b 24 8 sees (by rw [file.length]; omega)
  rwa [file.itemCount] at run

theorem IndexFile.loadBucket {index : Nat} (file : IndexFile b n items) (sees : w.Sees .index b) (inside : index < n) :
    Runs (loadBucket index) w (bucketAt b index) w := by
  rw [LumoDB.loadBucket, Prog.bind_eq, Runs, (sees.loadBytes_runs (bucket_inside file.length inside)).bind]
  rfl

end Loads

section Calls
variable (w : World) {b : Bytes} {n items : Nat}

theorem loadBucketCount_runs (file : IndexFile b n items) :
    Runs loadBucketCount (w.withMapped .index b) n (w.withMapped .index b) :=
  file.loadBucketCount (w.sees_withMapped .index b)

theorem loadItemCount_runs (file : IndexFile b n items) :
    Runs loadItemCount (w.withMapped .index b) items (w.withMapped .index b) :=
  file.loadItemCount (w.sees_withMapped .index b)

theorem incrementItemCount_runs (file : IndexFile b n items) :
    Runs incrementItemCount (w.withMapped .index b) () (w.withMapped .index (addItem b)) := by
  rw [incrementItemCount, Prog.bind_eq, Runs, (loadItemCount_runs w file).bind, addItem,
    file.itemCount]
  exact store_runs w (items + 1) (by rw [file.length]; omega)

theorem countUnless_runs (file : IndexFile b n items) (found : Bool) :
    Runs (countUnless found) (w.withMapped .index b) ()
      (w.withMapped .index (if found then b else addItem b)) := by
  cases found
  · exact incrementItemCount_runs w file
  · rfl

theorem loadBucket_runs {index : Nat} (file : IndexFile b n items) (inside : index < n) :
    Runs (loadBucket index) (w.withMapped .index b) (bucketAt b index) (w.withMapped .index b) :=
  file.loadBucket (w.sees_withMapped .index b) inside

theorem storeBucket_runs {index : Nat} (bucket : IndexBucket) (file : IndexFile b n items)
    (inside : index < n) :
    Runs (storeBucket index bucket) (w.withMapped .index b) ()
      (w.withMapped .index (putBucket b index bucket)) :=
  storeBytes_runs w (by rw [IndexBucket.encode_length]; exact bucket_inside file.length inside)

end Calls

end LumoDB
