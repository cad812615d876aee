import LumoDB.ObjectCalls
import LumoDB.Open

namespace LumoDB
open ByteCodec Effects LinearProbing

/-- The buckets of an index as a table: a hash of zero marks an empty one. -/
def bucketSlot (b : Bytes) (index : Nat) : Option IndexBucket :=
  if (bucketAt b index).hash = 0 then none else some (bucketAt b index)

/-- The index files that pass the layout check: the item count is the number
of filled buckets. -/
def Accepted (b : Bytes) : Prop := ∃ n, IndexFile b n (filled n (bucketSlot b))

theorem bucketSlot_isSome (b : Bytes) (index : Nat) :
    (bucketSlot b index).isSome = decide ((bucketAt b index).hash ≠ 0) := by
  unfold bucketSlot
  split <;> simp_all

theorem IndexTable.filled_eq {H : HashFunctions} {b : Bytes} {n : Nat} {slot : Nat → Option ObjectKey}
    {off : ObjectKey → Nat} (t : IndexTable H b n slot off) : filled n (bucketSlot b) = filled n slot := by
  refine filled_congr fun i inside => ?_
  rw [bucketSlot_isSome]
  cases at_i : slot i with
  | none => simp [t.empty i inside at_i]
  | some k => simp [t.stored i inside k at_i, objectHash_ne_zero]

theorem IndexTable.accepted {H : HashFunctions} {b : Bytes} {n : Nat} {slot : Nat → Option ObjectKey}
    {off : ObjectKey → Nat} (t : IndexTable H b n slot off) : Accepted b :=
  ⟨n, by rw [t.filled_eq]; exact t.toIndexFile⟩

section Check
variable {w : World} {b : Bytes} {n : Nat}

theorem countFilled_runs (sees : w.Sees .index b) (length : b.length = 64 + 16 * n) {rounds i : Nat}
    (sum : i + rounds = n) :
    ∃ count, Runs (countFilled rounds i) w count w ∧ count + filled i (bucketSlot b) = filled n (bucketSlot b) := by
  induction rounds generalizing i with
  | zero =>
    refine ⟨0, rfl, ?_⟩
    rw [← sum, Nat.zero_add, Nat.add_zero]
  | succ rounds ih =>
    have inside := bucket_inside length (show i < n by omega)
    obtain ⟨count, later, total⟩ := ih (show i + 1 + rounds = n by omega)
    refine ⟨count + if (bucketAt b i).hash ≠ 0 then 1 else 0, ?_, ?_⟩
    · unfold Runs countFilled
      rw [Prog.bind_eq, (sees.load_runs (show indexBucketOffset i + 8 ≤ b.length by omega)).bind, Prog.bind_eq,
        later.bind, bucketAt_eq]
      rfl
    · rw [filled, bucketSlot_isSome] at total
      simp only [decide_eq_true_eq] at total
      omega

/-- The header checks of `HasValidIndexLayout`, with the size as the code
computes it. -/
def LayoutHeader (b : Bytes) : Prop :=
  64 ≤ b.length ∧ slice b 0 8 = kIndexFileMagic ∧ natAt b 8 4 = kStorageVersion ∧ natAt b 12 4 = 64 ∧
    (∃ e, natAt b 16 8 = 2 ^ e) ∧ u64 (64 + natAt b 16 8 * 16) = b.length ∧ natAt b 24 8 ≤ natAt b 16 8

/-- A header whose bucket count wraps to the size of the file makes the check
read buckets past its end. -/
def Overreads (b : Bytes) : Prop := LayoutHeader b ∧ b.length ≠ 64 + 16 * natAt b 16 8

theorem header_fields (b : Bytes) : IndexFileHeader.decode (slice b 0 64) =
    ⟨slice b 0 8, natAt b 8 4, natAt b 12 4, natAt b 16 8, natAt b 24 8, natAt b 32 8⟩ := by
  have front : slice (slice b 0 64) 0 8 = slice b 0 8 := slice_slice (by omega)
  unfold IndexFileHeader.decode
  rw [front, natAt_slice (by omega), natAt_slice (by omega), natAt_slice (by omega), natAt_slice (by omega),
    natAt_slice (by omega)]

theorem LayoutHeader.accepted (header : LayoutHeader b) (small : b.length < 2 ^ 63)
    (whole : b.length = 64 + 16 * natAt b 16 8)
    (counted : natAt b 24 8 = filled (natAt b 16 8) (bucketSlot b)) : Accepted b := by
  obtain ⟨_, magic, version, headerSize, power, _, _⟩ := header
  exact ⟨natAt b 16 8, whole, magic, version, headerSize, rfl, counted, power, by omega⟩

/-- The check loads the header and counts the filled buckets of one that
passes. -/
theorem hasValidIndexLayout_eq (long : 64 ≤ b.length) : ∃ rest : Bytes → Db Bool,
    hasValidIndexLayout b.length = (loadBytes .index 0 64).bind rest ∧
    (LayoutHeader b → rest (slice b 0 64) =
      (countFilled (natAt b 16 8) 0).bind fun count => .ret (decide (count = natAt b 24 8))) ∧
    (¬ LayoutHeader b → rest (slice b 0 64) = .ret false) := by
  unfold hasValidIndexLayout
  rw [if_neg (by omega), Prog.bind_eq]
  refine ⟨_, rfl, fun header => ?_, fun refused => ?_⟩ <;> rw [header_fields]
  · obtain ⟨_, magic, version, headerSize, power, size, items⟩ := header
    have two := Nat.ne_zero_and_sub_one_eq_zero_iff_isPowerOfTwo.mpr power
    simp only [magic, version, headerSize]
    rw [if_neg (by simp), if_neg (by simp [two]), if_neg (by omega)]
    rfl
  · simp only
    split
    · rfl
    · split
      · rfl
      · split
        · rfl
        · rename_i fields power sizes
          push Not at fields power sizes
          have two := Nat.ne_zero_and_sub_one_eq_zero_iff_isPowerOfTwo.mp power
          exact absurd ⟨long, fields.1, fields.2.1, fields.2.2, two, sizes.1, sizes.2⟩ refused

/-- The check once the header has passed it: the count of filled buckets. -/
theorem hasValidIndexLayout_header (sees : w.Sees .index b) (header : LayoutHeader b) :
    run system (hasValidIndexLayout b.length) w =
      run system ((countFilled (natAt b 16 8) 0).bind fun count => .ret (decide (count = natAt b 24 8))) w := by
  obtain ⟨rest, program, passes, _⟩ := hasValidIndexLayout_eq header.1
  rw [program, (sees.loadBytes_runs (by have := header.1; omega)).bind, passes header]

theorem hasValidIndexLayout_header_rejects (sees : w.Sees .index b) (refused : ¬ LayoutHeader b) :
    Runs (hasValidIndexLayout b.length) w false w := by
  by_cases long : 64 ≤ b.length
  · obtain ⟨rest, program, _, fails⟩ := hasValidIndexLayout_eq long
    unfold Runs
    rw [program, (sees.loadBytes_runs (by omega)).bind, fails refused]
    rfl
  · unfold Runs hasValidIndexLayout
    rw [if_pos (by omega)]
    rfl

theorem hasValidIndexLayout_accepts (sees : w.Sees .index b) (accepted : Accepted b) :
    Runs (hasValidIndexLayout b.length) w true w := by
  obtain ⟨n, file⟩ := accepted
  have length := file.length
  have small := file.small
  have full := filled_le n (bucketSlot b)
  have header : LayoutHeader b := by
    refine ⟨by omega, file.magic, file.version, file.headerSize, ?_, ?_, ?_⟩
    · rw [file.bucketCount]
      exact file.power
    · rw [file.bucketCount, u64_of_lt (by omega)]
      omega
    · rw [file.bucketCount, file.itemCount]
      exact full
  obtain ⟨count, counted, total⟩ := @countFilled_runs _ _ _ sees length n 0 (by omega)
  have same : count = filled n (bucketSlot b) := by rw [← total]; rfl
  unfold Runs
  rw [hasValidIndexLayout_header sees header, file.bucketCount, counted.bind, same, file.itemCount,
    decide_eq_true rfl]
  rfl

theorem hasValidIndexLayout_rejects (sees : w.Sees .index b) (small : b.length < 2 ^ 63)
    (refused : ¬ Accepted b) (inside : ¬ Overreads b) : Runs (hasValidIndexLayout b.length) w false w := by
  by_cases header : LayoutHeader b
  · have whole : b.length = 64 + 16 * natAt b 16 8 := by
      by_contra other
      exact inside ⟨header, other⟩
    obtain ⟨count, counted, total⟩ := @countFilled_runs _ _ _ sees whole (natAt b 16 8) 0 (by omega)
    have same : count = filled (natAt b 16 8) (bucketSlot b) := by rw [← total]; rfl
    unfold Runs
    rw [hasValidIndexLayout_header sees header, counted.bind, decide_eq_false]
    · rfl
    · intro agree
      exact refused (header.accepted small whole (by rw [← agree, same]))
  · exact hasValidIndexLayout_header_rejects sees header

theorem Overreads.length_eq (exceeds : Overreads b) :
    b.length = 64 ∧ 0 < natAt b 16 8 := by
  obtain ⟨⟨_, _, _, _, ⟨e, power⟩, size, _⟩, other⟩ := exceeds
  have wrapped : 60 ≤ e := by
    by_contra few
    have bound : 2 ^ e ≤ 2 ^ 59 := Nat.pow_le_pow_right (by decide) (by omega)
    rw [u64_of_lt (by omega)] at size
    omega
  obtain ⟨factor, factored⟩ : 2 ^ 60 ∣ natAt b 16 8 := power ▸ Nat.pow_dvd_pow 2 wrapped
  refine ⟨?_, power ▸ Nat.two_pow_pos e⟩
  rw [← size, u64, factored]
  omega

theorem hasValidIndexLayout_overreads (sees : w.Sees .index b) (exceeds : Overreads b) :
    run system (hasValidIndexLayout b.length) w = .fault := by
  obtain ⟨header_only, positive⟩ := exceeds.length_eq
  rw [hasValidIndexLayout_header sees exceeds.1]
  obtain ⟨rounds, rounds_eq⟩ : ∃ rounds, natAt b 16 8 = rounds + 1 := ⟨natAt b 16 8 - 1, by omega⟩
  rw [rounds_eq, countFilled, Prog.bind_eq, Prog.bind_assoc]
  exact sees.load_outside (by rw [header_only, indexBucketOffset]; omega) _

/-- The layout check changes nothing, and it reports a valid layout only for
the files described by `Accepted`. -/
theorem hasValidIndexLayout_inv (sees : w.Sees .index b) (small : b.length < 2 ^ 63) {valid : Bool} {w' : World}
    (checked : Runs (hasValidIndexLayout b.length) w valid w') :
    w' = w ∧ (valid = true ↔ Accepted b) ∧ ¬ Overreads b := by
  have inside : ¬ Overreads b := by
    intro exceeds
    have fault := checked.symm.trans (hasValidIndexLayout_overreads sees exceeds)
    cases fault
  by_cases accepted : Accepted b
  · obtain ⟨answer, state⟩ := Runs.unique checked (hasValidIndexLayout_accepts sees accepted)
    exact ⟨state, by simp [answer, accepted], inside⟩
  · obtain ⟨answer, state⟩ := Runs.unique checked (hasValidIndexLayout_rejects sees small accepted inside)
    exact ⟨state, by simp [answer, accepted], inside⟩

end Check

end LumoDB
