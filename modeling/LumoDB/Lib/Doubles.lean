import Mathlib.Algebra.Order.Group.Nat

namespace Doubles

/-- The multiple of `k` nearest to `v`. Of two that are as near, the even one. -/
def nearest (k v : Nat) : Nat :=
  if 2 * (v % k) < k ∨ 2 * (v % k) = k ∧ v / k % 2 = 0 then v / k * k else (v / k + 1) * k

/-- The distance of the numbers with `p` significant bits around `v`. -/
def unit (p v : Nat) : Nat := 2 ^ (Nat.log2 v + 1 - p)

/-- The number with `p` significant bits that stands for `v`. -/
def rounded (p v : Nat) : Nat := nearest (unit p v) v

section Nearest
variable {k u v m : Nat}

theorem nearest_bounds (positive : 0 < k) : 2 * v ≤ 2 * nearest k v + k ∧ 2 * nearest k v ≤ 2 * v + k := by
  have parts := Nat.div_add_mod' v k
  have rest := Nat.mod_lt v positive
  unfold nearest
  split
  · omega
  · rw [Nat.add_mul]
    omega

/-- Rounding does not pass a multiple. -/
theorem nearest_le (multiple : k ∣ m) (below : v ≤ m) (positive : 0 < k) : nearest k v ≤ m := by
  obtain ⟨c, rfl⟩ := multiple
  have parts := Nat.div_add_mod' v k
  have most : v / k ≤ c := Nat.div_le_of_le_mul below
  unfold nearest
  split
  · rw [Nat.mul_comm k c]
    exact Nat.mul_le_mul_right k most
  · rename_i up
    rw [Nat.mul_comm k c]
    refine Nat.mul_le_mul_right k (Nat.lt_of_le_of_ne most ?_)
    rintro rfl
    rw [Nat.mul_comm] at below
    omega

theorem le_nearest (multiple : k ∣ m) (above : m ≤ v) (positive : 0 < k) : m ≤ nearest k v := by
  obtain ⟨c, rfl⟩ := multiple
  have most : c ≤ v / k := (Nat.le_div_iff_mul_le positive).mpr (by rwa [Nat.mul_comm])
  have down : k * c ≤ v / k * k := by
    rw [Nat.mul_comm k c]
    exact Nat.mul_le_mul_right k most
  unfold nearest
  split
  · exact down
  · rw [Nat.add_mul]
    omega

theorem nearest_of_dvd (multiple : k ∣ v) (positive : 0 < k) : nearest k v = v :=
  (nearest_le multiple le_rfl positive).antisymm (le_nearest multiple le_rfl positive)

theorem nearest_mono (positive : 0 < k) (le : u ≤ v) : nearest k u ≤ nearest k v := by
  rcases Nat.lt_or_eq_of_le (Nat.div_le_div_right (c := k) le) with apart | same
  · -- a multiple of `k` lies between them
    have between : u ≤ (u / k + 1) * k := by
      have := Nat.lt_mul_div_succ u positive
      rw [Nat.mul_comm] at this
      exact this.le
    have reached : (u / k + 1) * k ≤ v := (Nat.mul_le_mul_right k apart).trans (Nat.div_mul_le_self v k)
    exact (nearest_le (Nat.dvd_mul_left _ _) between positive).trans (le_nearest (Nat.dvd_mul_left _ _) reached positive)
  · have first := Nat.div_add_mod' u k
    have second := Nat.div_add_mod' v k
    rw [same] at first
    unfold nearest
    rw [same, Nat.add_mul]
    split
    · split <;> omega
    · split <;> omega

end Nearest

section Rounded
variable {p u v : Nat}

theorem unit_pos (p v : Nat) : 0 < unit p v := Nat.two_pow_pos _

/-- Numbers of up to `p` bits are not rounded. -/
theorem rounded_of_le (positive : 0 < p) (small : v ≤ 2 ^ p) : rounded p v = v := by
  refine nearest_of_dvd ?_ (unit_pos p v)
  unfold unit
  rcases Nat.lt_or_eq_of_le small with below | rfl
  · by_cases zero : v = 0
    · rw [zero]
      exact Nat.dvd_zero _
    · have bits := (Nat.log2_lt zero).mpr below
      rw [show Nat.log2 v + 1 - p = 0 by omega]
      exact Nat.one_dvd v
  · rw [Nat.log2_two_pow]
    exact Nat.pow_dvd_pow 2 (by omega)

/-- The error is at most one part in `2 ^ p`. -/
theorem rounded_bounds (positive : 0 < p) (v : Nat) :
    v * 2 ^ p ≤ rounded p v * 2 ^ p + v ∧ rounded p v * 2 ^ p ≤ v * 2 ^ p + v := by
  by_cases small : v ≤ 2 ^ p
  · rw [rounded_of_le positive small]
    omega
  · have some : v ≠ 0 := fun zero => small (zero ▸ Nat.zero_le _)
    have large : p ≤ Nat.log2 v := (Nat.le_log2 some).mpr (Nat.not_le.mp small).le
    have scale : unit p v * 2 ^ p ≤ 2 * v := by
      have self := Nat.log2_self_le some
      rw [unit, ← Nat.pow_add, show Nat.log2 v + 1 - p + p = Nat.log2 v + 1 by omega, Nat.pow_succ]
      omega
    obtain ⟨lower, upper⟩ := @nearest_bounds (unit p v) v (unit_pos p v)
    have scaledLower := Nat.mul_le_mul_right (2 ^ p) lower
    have scaledUpper := Nat.mul_le_mul_right (2 ^ p) upper
    rw [← rounded, Nat.add_mul, Nat.mul_assoc, Nat.mul_assoc] at scaledLower
    rw [← rounded, Nat.add_mul, Nat.mul_assoc, Nat.mul_assoc] at scaledUpper
    omega

theorem rounded_mono (positive : 0 < p) (le : u ≤ v) : rounded p u ≤ rounded p v := by
  by_cases none : v = 0
  · rw [show u = v by omega]
  · have self := Nat.log2_self_le none
    rcases Nat.lt_or_ge u (2 ^ Nat.log2 v) with below | above
    · -- the power of two between them is rounded by neither
      have bits : Nat.log2 u + 1 - p ≤ Nat.log2 v := by
        by_cases zero : u = 0
        · rw [zero, Nat.log2_zero]
          omega
        · have shorter := (Nat.log2_lt zero).mpr below
          omega
      have first : rounded p u ≤ 2 ^ Nat.log2 v := nearest_le (Nat.pow_dvd_pow 2 bits) below.le (unit_pos p u)
      exact first.trans (le_nearest (Nat.pow_dvd_pow 2 (by omega)) self (unit_pos p v))
    · have same : Nat.log2 u = Nat.log2 v := by
        have some : u ≠ 0 := fun zero => by
          have := Nat.two_pow_pos (Nat.log2 v)
          omega
        have longer := (Nat.log2_lt some).mpr (le.trans_lt Nat.lt_log2_self)
        have shorter := (Nat.le_log2 some).mpr above
        omega
      unfold rounded unit
      rw [same]
      exact nearest_mono (Nat.two_pow_pos _) le

end Rounded

end Doubles
