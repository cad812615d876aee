import LumoDB.RowTable

namespace LumoDB
open ByteCodec Effects LinearProbing

/-- The buckets of a row index as a table of the Filled ones. -/
def rowSlot (b : Bytes) (index : Nat) : Option RowIndexBucket :=
  if (rowBucketAt b index).state = kRowBucketFilled then some (rowBucketAt b index) else none

/-- No bucket of the first `n` is in the Writing or in an unknown state. -/
def Settled (b : Bytes) (n : Nat) : Prop :=
  ∀ i < n, (rowBucketAt b i).state = kRowBucketFilled ∨ (rowBucketAt b i).state = kRowBucketEmpty

/-- The row index files that pass the layout check for a shard count. -/
def RowAccepted (b : Bytes) (shardCount : Nat) : Prop :=
  ∃ n, RowIndexFile b n (filled n (rowSlot b)) shardCount ∧ Settled b n

theorem rowSlot_isSome (b : Bytes) (index : Nat) :
    (rowSlot b index).isSome = decide ((rowBucketAt b index).state = kRowBucketFilled) := by
  unfold rowSlot
  split <;> simp_all

theorem RowTable.filled_eq {H : HashFunctions} {b : Bytes} {n shardCount : Nat} {slot : Nat → Option RowKey}
    {ref : RowKey → BlockRef} (t : RowTable H b n shardCount slot ref) : filled n (rowSlot b) = filled n slot := by
  refine filled_congr fun i inside => ?_
  rw [rowSlot_isSome]
  cases at_i : slot i with
  | none => simp [t.empty i inside at_i, kRowBucketEmpty, kRowBucketFilled]
  | some k => simp [t.stored i inside k at_i, rowBucket]

theorem RowTable.accepted {H : HashFunctions} {b : Bytes} {n shardCount : Nat} {slot : Nat → Option RowKey}
    {ref : RowKey → BlockRef} (t : RowTable H b n shardCount slot ref) : RowAccepted b shardCount := by
  refine ⟨n, by rw [t.filled_eq]; exact t.toRowIndexFile, fun i inside => ?_⟩
  cases at_i : slot i with
  | none => exact Or.inr (t.empty i inside at_i)
  | some k => exact Or.inl (by rw [t.stored i inside k at_i]; rfl)

section Check
variable {w : World} {b : Bytes} {n shardCount : Nat}

theorem rowBucket_inside {index : Nat} (length : b.length = 64 + 64 * n) (inside : index < n) :
    rowBucketOffset index + 64 ≤ b.length := by
  unfold rowBucketOffset
  omega

theorem countRowFilled_runs (sees : w.Sees .rowIndex b) (length : b.length = 64 + 64 * n) {rounds i : Nat}
    (sum : i + rounds = n) :
    ∃ result, Runs (countRowFilled rounds i) w result w ∧
      ∀ count, result = some count ↔
        (∀ j, i ≤ j → j < n → (rowBucketAt b j).state = kRowBucketFilled ∨ (rowBucketAt b j).state = kRowBucketEmpty) ∧
          count + filled i (rowSlot b) = filled n (rowSlot b) := by
  induction rounds generalizing i with
  | zero =>
    refine ⟨some 0, rfl, fun count => ?_⟩
    rw [← sum, Nat.add_zero, Option.some.injEq]
    constructor
    · rintro rfl
      exact ⟨fun j lower upper => absurd upper (by omega), Nat.zero_add _⟩
    · rintro ⟨_, total⟩
      omega
  | succ rounds ih =>
    have here : i < n := by omega
    have inside := rowBucket_inside length here
    have state_eq : natAt b (rowBucketOffset i) 4 = (rowBucketAt b i).state := by rw [rowBucketAt_eq]
    have loaded := sees.load_runs (show rowBucketOffset i + 4 ≤ b.length by omega)
    rw [state_eq] at loaded
    unfold Runs countRowFilled
    rw [Prog.bind_eq, loaded.bind]
    by_cases unknown : (rowBucketAt b i).state ≠ kRowBucketFilled ∧ (rowBucketAt b i).state ≠ kRowBucketEmpty
    · refine ⟨none, by rw [if_pos unknown]; rfl, fun count => iff_of_false nofun ?_⟩
      rintro ⟨settled, _⟩
      rcases settled i le_rfl here with full | empty
      · exact unknown.1 full
      · exact unknown.2 empty
    · obtain ⟨result, later, spec⟩ := ih (show i + 1 + rounds = n by omega)
      refine ⟨result.map (· + if (rowBucketAt b i).state = kRowBucketFilled then 1 else 0), ?_, fun count => ?_⟩
      · rw [if_neg unknown, Prog.bind_eq, later.bind]
        rfl
      · have settledHere : (rowBucketAt b i).state = kRowBucketFilled ∨ (rowBucketAt b i).state = kRowBucketEmpty := by
          by_contra neither
          exact unknown (not_or.mp neither)
        have step : filled (i + 1) (rowSlot b) =
            filled i (rowSlot b) + if (rowBucketAt b i).state = kRowBucketFilled then 1 else 0 := by
          rw [filled, rowSlot_isSome]
          simp only [decide_eq_true_eq]
        rw [step] at spec
        constructor
        · intro counted
          obtain ⟨rest, held, sumCount⟩ := Option.map_eq_some_iff.mp counted
          obtain ⟨settled, total⟩ := (spec rest).mp held
          refine ⟨fun j lower upper => ?_, by omega⟩
          rcases Nat.lt_or_eq_of_le lower with after | rfl
          · exact settled j (by omega) upper
          · exact settledHere
        · rintro ⟨settled, total⟩
          have enough : (if (rowBucketAt b i).state = kRowBucketFilled then 1 else 0) ≤ count := by
            have whole := filled_mono (show i + 1 ≤ n by omega) (rowSlot b)
            omega
          rw [Option.map_eq_some_iff]
          refine ⟨count - if (rowBucketAt b i).state = kRowBucketFilled then 1 else 0, (spec _).mpr ⟨fun j lower upper =>
            settled j (by omega) upper, by omega⟩, by omega⟩

/-- The header checks of `HasValidRowIndexLayout`, with the size as the code
computes it. -/
def RowLayoutHeader (b : Bytes) (shardCount : Nat) : Prop :=
  64 ≤ b.length ∧ slice b 0 8 = kRowIndexFileMagic ∧ natAt b 8 4 = kStorageVersion ∧ natAt b 12 4 = 64 ∧
    natAt b 40 4 = shardCount ∧ (∃ e, natAt b 16 8 = 2 ^ e) ∧ u64 (64 + natAt b 16 8 * 64) = b.length ∧
    natAt b 24 8 ≤ natAt b 16 8

/-- A header whose bucket count wraps to the size of the file makes the check
read buckets past its end. -/
def RowOverreads (b : Bytes) (shardCount : Nat) : Prop :=
  RowLayoutHeader b shardCount ∧ b.length ≠ 64 + 64 * natAt b 16 8

theorem rowHeader_fields (b : Bytes) : RowIndexFileHeader.decode (slice b 0 64) =
    ⟨slice b 0 8, natAt b 8 4, natAt b 12 4, natAt b 16 8, natAt b 24 8, natAt b 32 8, natAt b 40 4⟩ := by
  have front : slice (slice b 0 64) 0 8 = slice b 0 8 := slice_slice (by omega)
  unfold RowIndexFileHeader.decode
  rw [front, natAt_slice (by omega), natAt_slice (by omega), natAt_slice (by omega), natAt_slice (by omega),
    natAt_slice (by omega), natAt_slice (by omega)]

/-- The check loads the header and counts the filled buckets of one that
passes. -/
theorem hasValidRowIndexLayout_eq (long : 64 ≤ b.length) : ∃ rest : Members → Bytes → Db Bool,
    hasValidRowIndexLayout b.length = (getMembers.bind fun m => (loadBytes .rowIndex 0 64).bind (rest m)) ∧
    ∀ m, (RowLayoutHeader b m.options.rowShardCount → rest m (slice b 0 64) =
        (countRowFilled (natAt b 16 8) 0).bind fun count => .ret (decide (count = some (natAt b 24 8)))) ∧
      (¬ RowLayoutHeader b m.options.rowShardCount → rest m (slice b 0 64) = .ret false) := by
  unfold hasValidRowIndexLayout
  simp only [Prog.bind_eq, if_neg (show ¬ b.length < 64 by omega)]
  refine ⟨_, rfl, fun m => ⟨fun header => ?_, fun refused => ?_⟩⟩ <;> rw [rowHeader_fields]
  · obtain ⟨_, magic, version, headerSize, shards, power, size, items⟩ := header
    have two := Nat.ne_zero_and_sub_one_eq_zero_iff_isPowerOfTwo.mpr power
    simp only [magic, version, headerSize, shards]
    rw [if_neg (by simp), if_neg (by simp [two]), if_neg (by omega)]
    rfl
  · simp only
    split
    · rfl
    · split
      · rfl
      · split
        · rfl
        · rename_i fields power sizes
          push Not at fields power sizes
          have two := Nat.ne_zero_and_sub_one_eq_zero_iff_isPowerOfTwo.mp power.2
          exact absurd ⟨long, fields.1, fields.2.1, fields.2.2, power.1, two, sizes.1, sizes.2⟩ refused

theorem hasValidRowIndexLayout_header (sees : w.Sees .rowIndex b)
    (header : RowLayoutHeader b w.members.options.rowShardCount) :
    run system (hasValidRowIndexLayout b.length) w =
      run system ((countRowFilled (natAt b 16 8) 0).bind fun count => .ret (decide (count = some (natAt b 24 8)))) w := by
  obtain ⟨rest, program, answers⟩ := hasValidRowIndexLayout_eq header.1
  rw [program, (getMembers_runs w).bind, (sees.loadBytes_runs (by have := header.1; omega)).bind, (answers _).1 header]

theorem hasValidRowIndexLayout_header_rejects (sees : w.Sees .rowIndex b)
    (refused : ¬ RowLayoutHeader b w.members.options.rowShardCount) :
    Runs (hasValidRowIndexLayout b.length) w false w := by
  by_cases long : 64 ≤ b.length
  · obtain ⟨rest, program, answers⟩ := hasValidRowIndexLayout_eq long
    unfold Runs
    rw [program, (getMembers_runs w).bind, (sees.loadBytes_runs (by omega)).bind, (answers _).2 refused]
    rfl
  · unfold Runs hasValidRowIndexLayout
    rw [Prog.bind_eq, (getMembers_runs w).bind, if_pos (by omega)]
    rfl

theorem hasValidRowIndexLayout_accepts (sees : w.Sees .rowIndex b)
    (accepted : RowAccepted b w.members.options.rowShardCount) : Runs (hasValidRowIndexLayout b.length) w true w := by
  obtain ⟨n, file, settled⟩ := accepted
  have length := file.length
  have small := file.small
  have full := filled_le n (rowSlot b)
  have header : RowLayoutHeader b w.members.options.rowShardCount := by
    refine ⟨by omega, file.magic, file.version, file.headerSize, file.shards, ?_, ?_, ?_⟩
    · rw [file.bucketCount]
      exact file.power
    · rw [file.bucketCount, u64_of_lt (by omega)]
      omega
    · rw [file.bucketCount, file.itemCount]
      exact full
  obtain ⟨result, counted, spec⟩ := @countRowFilled_runs _ _ _ sees length n 0 (by omega)
  have same : result = some (filled n (rowSlot b)) :=
    (spec _).mpr ⟨fun j _ upper => settled j upper, rfl⟩
  unfold Runs
  rw [hasValidRowIndexLayout_header sees header, file.bucketCount, counted.bind, same, file.itemCount,
    decide_eq_true rfl]
  rfl

theorem hasValidRowIndexLayout_rejects (sees : w.Sees .rowIndex b) (small : b.length < 2 ^ 63)
    (refused : ¬ RowAccepted b w.members.options.rowShardCount)
    (inside : ¬ RowOverreads b w.members.options.rowShardCount) : Runs (hasValidRowIndexLayout b.length) w false w := by
  by_cases header : RowLayoutHeader b w.members.options.rowShardCount
  · have whole : b.length = 64 + 64 * natAt b 16 8 := by
      by_contra other
      exact inside ⟨header, other⟩
    obtain ⟨result, counted, spec⟩ := @countRowFilled_runs _ _ _ sees whole (natAt b 16 8) 0 (by omega)
    unfold Runs
    rw [hasValidRowIndexLayout_header sees header, counted.bind, decide_eq_false]
    · rfl
    · intro agree
      obtain ⟨settled, total⟩ := (spec _).mp agree
      obtain ⟨_, magic, version, headerSize, shards, power, _, _⟩ := header
      exact refused ⟨natAt b 16 8, ⟨whole, magic, version, headerSize, rfl, total, shards, power, by omega⟩,
        fun i upper => settled i (Nat.zero_le i) upper⟩
  · exact hasValidRowIndexLayout_header_rejects sees header

theorem RowOverreads.length_eq (exceeds : RowOverreads b shardCount) : b.length = 64 ∧ 0 < natAt b 16 8 := by
  obtain ⟨⟨_, _, _, _, _, ⟨e, power⟩, size, _⟩, other⟩ := exceeds
  have wrapped : 58 ≤ e := by
    by_contra few
    have bound : 2 ^ e ≤ 2 ^ 57 := Nat.pow_le_pow_right (by decide) (by omega)
    rw [u64_of_lt (by omega)] at size
    omega
  obtain ⟨factor, factored⟩ : 2 ^ 58 ∣ natAt b 16 8 := power ▸ Nat.pow_dvd_pow 2 wrapped
  refine ⟨?_, power ▸ Nat.two_pow_pos e⟩
  rw [← size, u64, factored]
  omega

theorem hasValidRowIndexLayout_overreads (sees : w.Sees .rowIndex b)
    (exceeds : RowOverreads b w.members.options.rowShardCount) :
    run system (hasValidRowIndexLayout b.length) w = .fault := by
  obtain ⟨header_only, positive⟩ := exceeds.length_eq
  rw [hasValidRowIndexLayout_header sees exceeds.1]
  obtain ⟨rounds, rounds_eq⟩ : ∃ rounds, natAt b 16 8 = rounds + 1 := ⟨natAt b 16 8 - 1, by omega⟩
  rw [rounds_eq, countRowFilled, Prog.bind_eq, Prog.bind_assoc]
  exact sees.load_outside (by rw [header_only, rowBucketOffset]; omega) _

theorem hasValidRowIndexLayout_inv (sees : w.Sees .rowIndex b) (small : b.length < 2 ^ 63) {valid : Bool} {w' : World}
    (checked : Runs (hasValidRowIndexLayout b.length) w valid w') :
    w' = w ∧ (valid = true ↔ RowAccepted b w.members.options.rowShardCount) ∧
      ¬ RowOverreads b w.members.options.rowShardCount := by
  have inside : ¬ RowOverreads b w.members.options.rowShardCount := by
    intro exceeds
    have fault := checked.symm.trans (hasValidRowIndexLayout_overreads sees exceeds)
    cases fault
  by_cases accepted : RowAccepted b w.members.options.rowShardCount
  · obtain ⟨answer, state⟩ := Runs.unique checked (hasValidRowIndexLayout_accepts sees accepted)
    exact ⟨state, by simp [answer, accepted], inside⟩
  · obtain ⟨answer, state⟩ := Runs.unique checked (hasValidRowIndexLayout_rejects sees small accepted inside)
    exact ⟨state, by simp [answer, accepted], inside⟩

end Check

end LumoDB
