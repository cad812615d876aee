import LumoDB.IndexLayout
import LumoDB.ResizeLookups
import Mathlib.Data.Nat.Log
import Mathlib.Order.Bounds.Basic

namespace LumoDB
open ByteCodec Effects

/-- The loop of `RoundUpPowerOfTwo` ends with the least power of two that is at
least 16 and the value. -/
def RoundsUp (value n : Nat) : Prop :=
  (∃ rounds, roundUpLoop rounds value kMinimumBucketCount = some n) ∧
    IsLeast {m | (∃ e, m = 2 ^ e) ∧ max kMinimumBucketCount value ≤ m} n

/-- The program computes `size` for the file, and the mapping it makes has this
size. -/
def Computes (file : FileId) (size : Nat) (p : Db Unit) : Prop :=
  (∀ w s, Performs system p w (.truncate file s) → u64 s = size) ∧
    ∀ w w', Runs p w () w' → w'.members.maps file = some ⟨size, true⟩

/-- A table created for `n` buckets has the size of its header and of every
bucket the header announces. -/
def CoversBuckets (file : FileId) (width n : Nat) (p : Db Unit) : Prop :=
  ∃ announced, RoundsUp n announced ∧ Computes file (64 + announced * width) p

/-- The growth loop of `EnsureCapacityForInsert` ends with a power of two that
holds the items under the load factor. -/
def GrowsTo (maxLoadFactor : ℚ) (itemCount insertCount bucketCount n : Nat) : Prop :=
  (∃ rounds, growBucketCount maxLoadFactor (u64 (itemCount + insertCount)) rounds bucketCount = some n) ∧
    (∃ e, n = 2 ^ e) ∧ ((itemCount + insertCount : Nat) : ℚ) ≤ maxLoadFactor * n

/-- What the options and the header of an accepted index make of the table
sizes. -/
structure SizesTables (options : DatabaseOptions) (b : Bytes) (insertCount : Nat) : Prop where
  object : ∃ n, RoundsUp options.initialBucketCount n ∧ CoversBuckets .index 16 n (createEmptyIndex n)
  row : ∃ n, RoundsUp options.initialRowBucketCount n ∧ CoversBuckets .rowIndex 64 n (createEmptyRowIndex n)
  growth : ∃ n, GrowsTo options.maxLoadFactor (natAt b 24 8) insertCount (natAt b 16 8) n ∧
    CoversBuckets .index 16 n (createEmptyIndex n)

section Rounding
variable {value n : Nat}

/-- The power of two `RoundUpPowerOfTwo` looks for. -/
def roundedExponent (value : Nat) : Nat := max 4 (Nat.clog 2 value)

theorem roundedExponent_isLeast (value : Nat) :
    IsLeast {m | (∃ e, m = 2 ^ e) ∧ max kMinimumBucketCount value ≤ m} (2 ^ roundedExponent value) := by
  refine ⟨⟨⟨_, rfl⟩, max_le ?_ ?_⟩, ?_⟩
  · exact Nat.pow_le_pow_right Nat.two_pos (le_max_left 4 _)
  · exact (Nat.le_pow_clog (by decide) value).trans (Nat.pow_le_pow_right (by decide) (le_max_right 4 _))
  · rintro m ⟨⟨e, rfl⟩, above⟩
    have sixteen : 2 ^ 4 ≤ 2 ^ e := (le_max_left _ _).trans above
    have exceeds : value ≤ 2 ^ e := (le_max_right _ _).trans above
    refine Nat.pow_le_pow_right (by decide) (max_le ?_ (Nat.clog_le_of_le_pow exceeds))
    exact (Nat.pow_le_pow_iff_right (by decide)).mp sixteen

theorem roundUpPowerOfTwo_eq (small : value ≤ 2 ^ 63) : roundUpPowerOfTwo value = some (2 ^ roundedExponent value) := by
  have exponent : Nat.clog 2 value ≤ 63 := Nat.clog_le_of_le_pow small
  refine roundUpLoop_pow (e := 4) ((le_max_right _ _).trans (roundedExponent_isLeast value).1.2) (le_max_left _ _)
    (fun later => ?_) (by unfold roundedExponent; omega) (by unfold roundedExponent; omega)
  have larger : roundedExponent value = Nat.clog 2 value := by
    unfold roundedExponent at later ⊢
    omega
  rw [larger] at later ⊢
  have several : 1 < value := by
    by_contra few
    rw [Nat.clog_of_right_le_one (Nat.not_lt.mp few)] at later
    omega
  exact Nat.pow_pred_clog_lt_self (by decide) several

theorem roundsUp_eq (rounds : RoundsUp value n) : n = 2 ^ roundedExponent value ∧ value ≤ 2 ^ 63 := by
  obtain ⟨⟨bound, done⟩, least⟩ := rounds
  obtain ⟨enough, e, _, small, rfl⟩ := roundUpLoop_spec (e := 4) (by decide) done
  exact ⟨least.unique (roundedExponent_isLeast value), enough.trans (Nat.pow_le_pow_right (by decide) (by omega))⟩

theorem roundsUp_of_le (small : value ≤ 2 ^ 63) : RoundsUp value (2 ^ roundedExponent value) :=
  ⟨⟨64, roundUpPowerOfTwo_eq small⟩, roundedExponent_isLeast value⟩

/-- A power of two is its own rounding, up to the minimum. -/
theorem roundedExponent_le {d : Nat} (lower : 4 ≤ d) : 2 ^ roundedExponent value ≤ 2 ^ d ↔ value ≤ 2 ^ d := by
  constructor
  · exact fun below => ((le_max_right _ _).trans (roundedExponent_isLeast value).1.2).trans below
  · intro below
    exact (roundedExponent_isLeast value).2 ⟨⟨d, rfl⟩, max_le (Nat.pow_le_pow_right Nat.two_pos lower) below⟩

end Rounding

section Sizes
variable {w w' : World} {file : FileId} {fileSize : Nat} {header : Bytes}

theorem performs_recreate (w : World) : Performs system (recreate file fileSize header) w (.truncate file fileSize) := by
  unfold recreate
  rw [Prog.bind_eq]
  exact performs_bind.mpr (.inr ⟨(), _, unmap_runs file w, performs_bind.mpr (.inl (.inl rfl))⟩)

theorem recreate_truncates {s : Nat} (performed : Performs system (recreate file fileSize header) w (.truncate file s)) :
    s = fileSize := by
  have only : (recreate file fileSize header).Only (S := signature) fun o => ∀ s, o = .truncate file s → s = fileSize := by
    have mapping : (mapFile file fileSize).Only (S := signature) fun o => ∀ s, o = .truncate file s → s = fileSize :=
      ⟨fun _ same => (nomatch same), checked_only⟩
    refine .bind ⟨fun _ same => (nomatch same), fun _ => trivial⟩ fun _ => .bind ⟨fun s same => ?_, checked_only⟩ fun _ =>
      .bind mapping fun _ => .bind ⟨fun _ same => (nomatch same), fun _ => trivial⟩ fun _ =>
        ⟨fun _ same => (nomatch same), fun _ => trivial⟩
    cases same
    rfl
  exact only.performs performed s rfl

theorem mapFile_maps {size : Nat} (done : Runs (mapFile file size) w () w') :
    w'.members.maps file = some ⟨u64 size, true⟩ := by
  by_cases empty : u64 size = 0
  · simp only [Runs, mapFile, run, system, if_pos empty, checked] at done
    cases done
  · simp only [Runs, mapFile, run, system, if_neg empty, checked] at done
    cases done
    exact Function.update_self ..

theorem storeBytes_members {offset : Nat} {data : Bytes} (done : Runs (storeBytes file offset data) w () w') :
    w'.members = w.members := by
  simp only [Runs, storeBytes, Prog.perform, run, system] at done
  split at done
  case h_1 _ _ _ step =>
    split at step
    · cases step
      cases done
      rfl
    · cases step
  case h_2 => cases done

theorem recreate_maps (done : Runs (recreate file fileSize header) w () w') :
    w'.members.maps file = some ⟨u64 fileSize, true⟩ := by
  obtain ⟨_, _, _, later⟩ := done.split
  obtain ⟨_, _, _, later⟩ := later.split
  obtain ⟨_, w₁, mapped, later⟩ := later.split
  obtain ⟨_, w₂, cleared, stored⟩ := later.split
  rw [storeBytes_members stored, storeBytes_members cleared]
  exact mapFile_maps mapped

theorem computes_recreate {size : Nat} : Computes file size (recreate file fileSize header) ↔ u64 fileSize = size := by
  constructor
  · exact fun computes => computes.1 {} fileSize (performs_recreate {})
  · rintro rfl
    exact ⟨fun w s performed => by rw [recreate_truncates performed], fun w w' done => recreate_maps done⟩

theorem Computes.getMembers {size : Nat} {f : Members → Db Unit} (each : ∀ m, Computes file size (f m)) :
    Computes file size (getMembers.bind f) := by
  constructor
  · intro w s performed
    rcases performs_bind.mp performed with first | ⟨m, w₁, _, later⟩
    · rcases first with same | ⟨_, _, _, stopped⟩
      · cases same
      · exact stopped.elim
    · exact (each m).1 w₁ s later
  · intro w w' done
    obtain ⟨m, w₁, _, later⟩ := done.split
    exact (each m).2 w₁ w' later

theorem u64_fileSize_iff (e width : Nat) : u64 (64 + 2 ^ e * 2 ^ width) = 64 + 2 ^ e * 2 ^ width ↔ e + width ≤ 63 := by
  rw [← pow_add]
  constructor
  · intro same
    by_contra large
    have more : 2 ^ 64 ≤ 2 ^ (e + width) := Nat.pow_le_pow_right (by decide) (by omega)
    have bound := u64_lt (64 + 2 ^ (e + width))
    omega
  · intro small
    have bound : 2 ^ (e + width) ≤ 2 ^ 63 := Nat.pow_le_pow_right (by decide) small
    exact u64_of_lt (by omega)

/-- A table covers its buckets if and only if its size in bytes is less than
`2 ^ 64`. -/
theorem coversBuckets_iff {n width d : Nat} {p : Db Unit} (sum : d + width = 63) (lower : 4 ≤ d)
    (computes : ∀ announced size, roundUpPowerOfTwo n = some announced →
      (Computes file size p ↔ u64 (64 + announced * 2 ^ width) = size)) :
    CoversBuckets file (2 ^ width) n p ↔ n ≤ 2 ^ d := by
  constructor
  · rintro ⟨announced, rounds, computed⟩
    obtain ⟨rfl, small⟩ := roundsUp_eq rounds
    rw [computes _ _ (roundUpPowerOfTwo_eq small), u64_fileSize_iff] at computed
    exact (roundedExponent_le lower).mp (Nat.pow_le_pow_right (by decide) (by omega))
  · intro small
    have bounded : n ≤ 2 ^ 63 := small.trans (Nat.pow_le_pow_right (by decide) (by omega))
    refine ⟨_, roundsUp_of_le bounded, (computes _ _ (roundUpPowerOfTwo_eq bounded)).mpr ?_⟩
    rw [u64_fileSize_iff]
    have exponent := (Nat.pow_le_pow_iff_right Nat.one_lt_two).mp ((roundedExponent_le lower).mpr small)
    omega

theorem coversIndex_iff (n : Nat) : CoversBuckets .index 16 n (createEmptyIndex n) ↔ n ≤ 2 ^ 59 := by
  refine @coversBuckets_iff .index n 4 59 _ rfl (by decide) fun announced size rounded => ?_
  rw [createEmptyIndex_eq rounded]
  exact computes_recreate

theorem coversRowIndex_iff (n : Nat) : CoversBuckets .rowIndex 64 n (createEmptyRowIndex n) ↔ n ≤ 2 ^ 57 := by
  refine @coversBuckets_iff .rowIndex n 6 57 _ rfl (by decide) fun announced size rounded => ?_
  have program : createEmptyRowIndex n = getMembers.bind fun m => recreate .rowIndex (64 + announced * 64)
      { bucketCount := announced, shardCount := m.options.rowShardCount : RowIndexFileHeader }.encode := by
    unfold createEmptyRowIndex
    rw [rounded]
    rfl
  rw [program]
  constructor
  · intro computes
    exact computes.1 {} _ (performs_bind.mpr (.inr ⟨_, _, getMembers_runs {}, performs_recreate {}⟩))
  · intro same
    exact Computes.getMembers fun m => computes_recreate.mpr same

end Sizes

section Growth
variable {maxLoadFactor : ℚ} {itemCount insertCount e n : Nat}

/-- No doubled bucket count within the file size takes the rounded count of the
items without taking the count itself. -/
def CountsExactly (maxLoadFactor : ℚ) (items bucketCount : Nat) : Prop :=
  ∀ d, bucketCount * 2 ^ d ≤ 2 ^ 59 → (toDouble items : ℚ) ≤ maxLoadFactor * (bucketCount * 2 ^ d : Nat) →
    (items : ℚ) ≤ maxLoadFactor * (bucketCount * 2 ^ d : Nat)

/-- The growth loop passes only bucket counts its comparison refuses. -/
theorem growBucketCount_least {items rounds d : Nat} (run : growBucketCount maxLoadFactor items rounds n = some (n * 2 ^ d))
    (small : n * 2 ^ d < 2 ^ 64) (positive : 0 < n) {i : Nat} (below : i < d) :
    maxLoadFactor * ((n * 2 ^ i : Nat) : ℚ) < toDouble items := by
  induction rounds generalizing n d i with
  | zero => cases run
  | succ rounds ih =>
    have double : n * 2 * 2 ^ (d - 1) = n * 2 ^ d := by
      rw [Nat.mul_assoc, ← pow_succ', show d - 1 + 1 = d by omega]
    have more : n * 2 ≤ n * 2 ^ d := by
      rw [← double]
      exact Nat.le_mul_of_pos_right _ (Nat.two_pow_pos _)
    rw [growBucketCount, u64_of_lt (by omega)] at run
    split at run
    · rename_i exceeded
      cases i with
      | zero => rwa [pow_zero, Nat.mul_one]
      | succ i =>
        rw [← double] at run
        have later := @ih (n * 2) (d - 1) run (by rw [double]; exact small) (by omega) i (by omega)
        rwa [Nat.mul_assoc, ← pow_succ'] at later
    · have same := Option.some.inj run
      omega

theorem growsTo_iff (load : LoadFactorOk maxLoadFactor) (small : e < 64) :
    (∃ n, GrowsTo maxLoadFactor itemCount insertCount (2 ^ e) n ∧ CoversBuckets .index 16 n (createEmptyIndex n)) ↔
      2 ^ e ≤ 2 ^ 59 ∧ (toDouble (itemCount + insertCount) : ℚ) ≤ maxLoadFactor * (2 ^ 59 : Nat) ∧
        CountsExactly maxLoadFactor (itemCount + insertCount) (2 ^ e) := by
  have few {n : Nat} (bound : n ≤ 2 ^ 59) (enough : ((itemCount + insertCount : Nat) : ℚ) ≤ maxLoadFactor * n) :
      u64 (itemCount + insertCount) = itemCount + insertCount := by
    refine u64_of_lt (Nat.lt_of_le_of_lt ?_ (show 2 ^ 59 < 2 ^ 64 by decide))
    have part : maxLoadFactor * (n : ℚ) ≤ 1 * (2 ^ 59 : Nat) :=
      mul_le_mul (load.2.le.trans (by norm_num)) (by exact_mod_cast bound) (Nat.cast_nonneg _) (by norm_num)
    exact_mod_cast enough.trans (part.trans_eq (one_mul _))
  constructor
  · rintro ⟨n, ⟨⟨rounds, grow⟩, _, enough⟩, covers⟩
    have bound := (coversIndex_iff n).mp covers
    rw [few bound enough] at grow
    obtain ⟨taken, e', later, rfl⟩ := growBucketCount_spec small load.1.le grow
    have wider {m : Nat} (le : 2 ^ e' ≤ m) : maxLoadFactor * ((2 ^ e' : Nat) : ℚ) ≤ maxLoadFactor * m :=
      mul_le_mul_of_nonneg_left (by exact_mod_cast le) load.1.le
    refine ⟨(Nat.pow_le_pow_right (by decide) later).trans bound, taken.trans (wider bound), fun d _ fits => ?_⟩
    refine enough.trans (wider ?_)
    -- the loop has not passed a count that takes the rounded sum
    by_contra earlier
    have split : 2 ^ e * 2 ^ (e' - e) = 2 ^ e' := by rw [← pow_add, Nat.add_sub_cancel' later]
    rw [← split] at grow
    have below : d < e' - e := by
      by_contra above
      have powers := Nat.mul_le_mul_left (2 ^ e) (Nat.pow_le_pow_right Nat.two_pos (Nat.not_lt.mp above))
      omega
    have refused := growBucketCount_least grow (by omega) (Nat.two_pow_pos e) below
    linarith
  · rintro ⟨below, taken, exactly⟩
    have exponent := (Nat.pow_le_pow_iff_right Nat.one_lt_two).mp below
    have split (d : Nat) (later : e ≤ d) : 2 ^ e * 2 ^ (d - e) = 2 ^ d := by rw [← pow_add, Nat.add_sub_cancel' later]
    have last := exactly (59 - e) (by rw [split 59 exponent])
    rw [split 59 exponent] at last
    have same := few le_rfl (last taken)
    obtain ⟨e', reached, grow⟩ := @growBucketCount_enough maxLoadFactor (itemCount + insertCount) 66 e 59 load.1.le
      (by decide) (by omega) (by decide) taken
    obtain ⟨fits, e'', later, power⟩ := growBucketCount_spec small load.1.le grow
    rw [power] at fits grow
    have bound : 2 ^ e'' ≤ 2 ^ 59 := by
      rw [← power]
      exact Nat.pow_le_pow_right (by decide) (reached.trans (by omega))
    have enough := exactly (e'' - e)
    rw [split e'' later] at enough
    exact ⟨2 ^ e'', ⟨⟨66, by rw [same]; exact grow⟩, ⟨e'', rfl⟩, enough bound fits⟩, (coversIndex_iff _).mpr bound⟩

/-- Up to `2 ^ 53` items the conversion is exact. -/
theorem countsExactly_of_le {items : Nat} (small : items ≤ 2 ^ 53) : CountsExactly maxLoadFactor items n := by
  intro d _ fits
  rwa [toDouble_of_le small] at fits

end Growth

/-- Table sizing ends and does not wrap if and only if the bucket counts of the
options, the count of the index and the count it is grown to take less than
`2 ^ 64` bytes, and the loop does not stop at a count that only the rounded
number of items fits. -/
theorem sizesTables_iff (options : DatabaseOptions) (load : LoadFactorOk options.maxLoadFactor) (b : Bytes)
    (header : LayoutHeader b) (insertCount : Nat) :
    SizesTables options b insertCount ↔
      options.initialBucketCount ≤ 2 ^ 59 ∧ options.initialRowBucketCount ≤ 2 ^ 57 ∧ natAt b 16 8 ≤ 2 ^ 59 ∧
        (toDouble (natAt b 24 8 + insertCount) : ℚ) ≤ options.maxLoadFactor * (2 ^ 59 : Nat) ∧
        CountsExactly options.maxLoadFactor (natAt b 24 8 + insertCount) (natAt b 16 8) := by
  obtain ⟨e, count⟩ := header.2.2.2.2.1
  have small : e < 64 := by
    have bound : natAt b 16 8 < 256 ^ 8 := natAt_lt b 16 8
    rw [count] at bound
    exact (Nat.pow_lt_pow_iff_right Nat.one_lt_two).mp (bound.trans_eq (by norm_num))
  have growth := @growsTo_iff options.maxLoadFactor (natAt b 24 8) insertCount e load small
  rw [← count] at growth
  constructor
  · intro sizes
    obtain ⟨n, objects, covers⟩ := sizes.object
    obtain ⟨m, rows, rowCovers⟩ := sizes.row
    obtain ⟨rfl, _⟩ := roundsUp_eq objects
    obtain ⟨rfl, _⟩ := roundsUp_eq rows
    exact ⟨(roundedExponent_le (by decide)).mp ((coversIndex_iff _).mp covers),
      (roundedExponent_le (by decide)).mp ((coversRowIndex_iff _).mp rowCovers), growth.mp sizes.growth⟩
  · rintro ⟨objects, rows, grown⟩
    refine ⟨⟨_, roundsUp_of_le (objects.trans (by decide)), (coversIndex_iff _).mpr ?_⟩,
      ⟨_, roundsUp_of_le (rows.trans (by decide)), (coversRowIndex_iff _).mpr ?_⟩, growth.mpr grown⟩
    · exact (roundedExponent_le (by decide)).mpr objects
    · exact (roundedExponent_le (by decide)).mpr rows

-- the conversion rounds the count down, and the loop stops one short of it
example : growBucketCount (1 / 2) (2 ^ 53 + 1) 66 16 = some (2 ^ 54) ∧ (1 / 2 * 2 ^ 54 : ℚ) < 2 ^ 53 + 1 := by decide +kernel

theorem emptyIndex_header : LayoutHeader (emptyIndex 16) :=
  ⟨by decide +kernel, by decide +kernel, by decide +kernel, by decide +kernel, ⟨4, by decide +kernel⟩, by decide +kernel,
    by decide +kernel⟩

/-- Options between the powers of two and a batch of 1000 records for an index
of 16 empty buckets. -/
theorem sizesTables_batch : LoadFactorOk (1 / 2) ∧
    SizesTables { initialBucketCount := 100, initialRowBucketCount := 33, maxLoadFactor := 1 / 2 } (emptyIndex 16) 1000 :=
  ⟨⟨by norm_num, by norm_num⟩,
    (sizesTables_iff { initialBucketCount := 100, initialRowBucketCount := 33, maxLoadFactor := 1 / 2 }
      ⟨by norm_num, by norm_num⟩ (emptyIndex 16) emptyIndex_header 1000).mpr
    ⟨by decide, by decide, by decide +kernel, by
      rw [show natAt (emptyIndex 16) 24 8 = 0 by decide +kernel, toDouble_of_le (by decide)]
      norm_num, by
      rw [show natAt (emptyIndex 16) 24 8 = 0 by decide +kernel]
      exact countsExactly_of_le (by decide)⟩⟩

/-- From `2 ^ 63 + 1` on the shift of `RoundUpPowerOfTwo` drops the only bit and
the loop does not end. -/
theorem rounding_never_ends : LoadFactorOk { initialBucketCount := 2 ^ 63 + 1 : DatabaseOptions }.maxLoadFactor ∧
    LayoutHeader (emptyIndex 16) ∧ (∀ rounds, roundUpLoop rounds (2 ^ 63 + 1) kMinimumBucketCount = none) ∧
    ¬ SizesTables { initialBucketCount := 2 ^ 63 + 1 } (emptyIndex 16) 1 := by
  have endless : ∀ rounds, roundUpLoop rounds (2 ^ 63 + 1) kMinimumBucketCount = none := by
    intro rounds
    cases done : roundUpLoop rounds (2 ^ 63 + 1) kMinimumBucketCount with
    | none => rfl
    | some n =>
      obtain ⟨enough, e, _, small, rfl⟩ := roundUpLoop_spec (e := 4) (by decide) done
      have bound : 2 ^ e ≤ 2 ^ 63 := Nat.pow_le_pow_right (by decide) (by omega)
      omega
  refine ⟨⟨by norm_num, by norm_num⟩, emptyIndex_header, endless, fun sizes => ?_⟩
  obtain ⟨n, ⟨⟨rounds, done⟩, _⟩, _⟩ := sizes.object
  rw [endless] at done
  cases done

end LumoDB
