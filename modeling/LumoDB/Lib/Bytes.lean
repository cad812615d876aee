import Mathlib.Data.List.Basic
import Mathlib.Tactic.Ring

namespace ByteCodec

abbrev Bytes := List UInt8

/-- The low `width` bytes of `n`, least significant first. Higher bytes are
dropped, as a store through a narrower field does. -/
def leBytes : Nat → Nat → Bytes
  | 0, _ => []
  | width + 1, n => UInt8.ofNat n :: leBytes width (n / 256)

def leNat : Bytes → Nat
  | [] => 0
  | b :: bs => b.toNat + 256 * leNat bs

def slice (bs : Bytes) (offset size : Nat) : Bytes := (bs.drop offset).take size

/-- Replaces the bytes from `offset` on. A write past the end fills the gap
with zeros, as a positioned write on a file does. -/
def patch (bs : Bytes) (offset : Nat) (data : Bytes) : Bytes :=
  bs.take offset ++ List.replicate (offset - bs.length) 0 ++ data ++ bs.drop (offset + data.length)

def natAt (bs : Bytes) (offset width : Nat) : Nat := leNat (slice bs offset width)

@[simp] theorem leBytes_length (width n : Nat) : (leBytes width n).length = width := by
  induction width generalizing n with
  | zero => rfl
  | succ width ih => simp only [leBytes, List.length_cons, ih]

/-- Reading back a field returns the value modulo the field's width. -/
theorem leNat_leBytes (width n : Nat) : leNat (leBytes width n) = n % 256 ^ width := by
  induction width generalizing n with
  | zero => simp [leBytes, leNat, Nat.mod_one]
  | succ width ih =>
    have low : (UInt8.ofNat n).toNat = n % 256 := by simp
    have split : n % 256 ^ (width + 1) = n % 256 + 256 * (n / 256 % 256 ^ width) := by
      rw [pow_succ', Nat.mod_mul]
    simp only [leBytes, leNat, ih, low, split]

theorem leNat_leBytes_of_lt {width n : Nat} (bound : n < 256 ^ width) :
    leNat (leBytes width n) = n := by
  rw [leNat_leBytes, Nat.mod_eq_of_lt bound]

theorem leNat_lt (bs : Bytes) : leNat bs < 256 ^ bs.length := by
  induction bs with
  | nil => exact Nat.one_pos
  | cons b bs ih =>
    have low := b.toNat_lt
    have scale : 256 ^ (b :: bs).length = 256 * 256 ^ bs.length := pow_succ' 256 bs.length
    simp only [leNat, scale]
    omega

theorem leBytes_leNat (bs : Bytes) : leBytes bs.length (leNat bs) = bs := by
  induction bs with
  | nil => rfl
  | cons b bs ih =>
    have bound := b.toNat_lt
    have high : leNat (b :: bs) / 256 = leNat bs := by simp only [leNat]; omega
    have low : UInt8.ofNat (leNat (b :: bs)) = b := by
      apply UInt8.toNat.inj
      simp only [leNat, UInt8.toNat_ofNat', Nat.reducePow]
      omega
    simp only [List.length_cons, leBytes, low, high, ih]

theorem slice_length (bs : Bytes) (offset size : Nat) :
    (slice bs offset size).length = min size (bs.length - offset) := by
  simp only [slice, List.length_take, List.length_drop]

theorem slice_length_of_le {bs : Bytes} {offset size : Nat} (inside : offset + size ≤ bs.length) :
    (slice bs offset size).length = size := by
  rw [slice_length]
  omega

theorem slice_getElem? (bs : Bytes) (offset size i : Nat) :
    (slice bs offset size)[i]? = if i < size then bs[offset + i]? else none := by
  unfold slice
  split
  · rw [List.getElem?_take_of_lt ‹_›, List.getElem?_drop]
  · rw [List.getElem?_take_eq_none (by omega)]

theorem patch_getElem? (bs data : Bytes) (offset i : Nat) :
    (patch bs offset data)[i]? =
      if i < offset then (if i < bs.length then bs[i]? else some 0)
      else if i < offset + data.length then data[i - offset]? else bs[i]? := by
  have filled : (bs.take offset ++ List.replicate (offset - bs.length) (0 : UInt8)).length = offset := by
    simp only [List.length_append, List.length_take, List.length_replicate]
    omega
  unfold patch
  by_cases before : i < offset
  · rw [if_pos before, List.append_assoc, List.getElem?_append_left (by omega)]
    by_cases old : i < bs.length
    · rw [if_pos old, List.getElem?_append_left (by simp; omega), List.getElem?_take_of_lt before]
    · rw [if_neg old, List.getElem?_append_right (by simp; omega), List.getElem?_replicate]
      simp only [List.length_take]
      rw [if_pos (by omega)]
  · rw [if_neg before, List.append_assoc, List.getElem?_append_right (by omega), filled]
    by_cases within : i < offset + data.length
    · rw [if_pos within, List.getElem?_append_left (by omega)]
    · rw [if_neg within, List.getElem?_append_right (by omega), List.getElem?_drop]
      congr 1
      omega

theorem patch_length (bs data : Bytes) (offset : Nat) :
    (patch bs offset data).length = max bs.length (offset + data.length) := by
  simp only [patch, List.length_append, List.length_take, List.length_replicate, List.length_drop]
  omega

theorem patch_length_of_le {bs data : Bytes} {offset : Nat}
    (inside : offset + data.length ≤ bs.length) : (patch bs offset data).length = bs.length := by
  rw [patch_length]
  omega

theorem patch_end (bs data : Bytes) : patch bs bs.length data = bs ++ data := by
  simp [patch]

/-- A store behind a part of the bytes leaves that part. -/
theorem patch_inside (bs rest data : Bytes) :
    patch (bs ++ rest) bs.length data = bs ++ (data ++ rest.drop data.length) := by
  simp [patch]

/-- Stores that meet are one store. -/
theorem patch_adjacent (bs data more : Bytes) (offset : Nat) :
    patch (patch bs offset data) (offset + data.length) more = patch bs offset (data ++ more) := by
  apply List.ext_getElem?
  intro i
  simp only [patch_getElem?, patch_length, List.length_append]
  by_cases before : i < offset
  · simp only [if_pos before, if_pos (show i < offset + data.length by omega)]
    rw [if_pos (by omega)]
  · by_cases first : i < offset + data.length
    · rw [if_pos first, if_pos (by omega), if_neg before, if_pos first, if_neg before, if_pos (by omega),
        List.getElem?_append_left (by omega)]
    · rw [if_neg first, if_neg before, if_neg first, if_neg before]
      by_cases second : i < offset + data.length + more.length
      · rw [if_pos second, if_pos (by omega), List.getElem?_append_right (by omega)]
        congr 1
        omega
      · rw [if_neg second, if_neg (by omega)]

/-- A store over the front of an earlier one. -/
theorem patch_front {bs data front rest : Bytes} {offset : Nat} (same : front.length = data.length) :
    patch (patch bs offset (data ++ rest)) offset front = patch bs offset (front ++ rest) := by
  apply List.ext_getElem?
  intro i
  simp only [patch_getElem?, patch_length, List.length_append]
  by_cases before : i < offset
  · simp only [if_pos before]
    rw [if_pos (by omega)]
  · simp only [if_neg before]
    by_cases first : i < offset + front.length
    · rw [if_pos first, if_pos (by omega), List.getElem?_append_left (by omega)]
    · rw [if_neg first]
      by_cases second : i < offset + (front.length + rest.length)
      · rw [if_pos (by omega), if_pos second, List.getElem?_append_right (by omega),
          List.getElem?_append_right (by omega), same]
      · rw [if_neg (by omega), if_neg second]

theorem slice_patch_inner {bs data : Bytes} {offset i size : Nat} (within : i + size ≤ data.length) :
    slice (patch bs offset data) (offset + i) size = slice data i size := by
  apply List.ext_getElem?
  intro j
  simp only [slice_getElem?, patch_getElem?]
  split
  · rw [if_neg (by omega), if_pos (by omega)]
    congr 1
    omega
  · rfl

theorem slice_self (bs : Bytes) : slice bs 0 bs.length = bs := by
  simp [slice]

theorem slice_patch_self (bs data : Bytes) (offset : Nat) :
    slice (patch bs offset data) offset data.length = data := by
  have inner := @slice_patch_inner bs data offset 0 data.length (by omega)
  rw [Nat.add_zero] at inner
  rw [inner, slice_self]

theorem slice_patch_before {bs data : Bytes} {offset start size : Nat}
    (before : start + size ≤ offset) (inside : start + size ≤ bs.length) :
    slice (patch bs offset data) start size = slice bs start size := by
  apply List.ext_getElem?
  intro j
  simp only [slice_getElem?, patch_getElem?]
  split
  · rw [if_pos (by omega), if_pos (by omega)]
  · rfl

theorem slice_patch_after {bs data : Bytes} {offset start size : Nat}
    (after : offset + data.length ≤ start) :
    slice (patch bs offset data) start size = slice bs start size := by
  apply List.ext_getElem?
  intro j
  simp only [slice_getElem?, patch_getElem?]
  split
  · rw [if_neg (by omega), if_neg (by omega)]
  · rfl

theorem slice_append_left {bs more : Bytes} {offset size : Nat} (inside : offset + size ≤ bs.length) :
    slice (bs ++ more) offset size = slice bs offset size := by
  apply List.ext_getElem?
  intro j
  simp only [slice_getElem?]
  split
  · rw [List.getElem?_append_left (by omega)]
  · rfl

theorem slice_append_right {bs more : Bytes} {offset size : Nat} (after : bs.length ≤ offset) :
    slice (bs ++ more) offset size = slice more (offset - bs.length) size := by
  apply List.ext_getElem?
  intro j
  simp only [slice_getElem?]
  split
  · rw [List.getElem?_append_right (by omega)]
    congr 1
    omega
  · rfl

/-- Chunks of one size lie at the multiples of it. -/
theorem slice_flatten {chunks : List Bytes} {size i : Nat} {chunk : Bytes} (sizes : ∀ c ∈ chunks, c.length = size)
    (held : chunks[i]? = some chunk) : slice chunks.flatten (i * size) size = chunk := by
  induction chunks generalizing i with
  | nil => cases held
  | cons c chunks ih =>
    have first := sizes c List.mem_cons_self
    rw [List.flatten_cons]
    cases i with
    | zero =>
      cases held
      rw [Nat.zero_mul, ← first, slice_append_left (by omega), slice_self]
    | succ i =>
      rw [List.getElem?_cons_succ] at held
      have start : (i + 1) * size = i * size + size := Nat.succ_mul i size
      rw [slice_append_right (by omega), show (i + 1) * size - c.length = i * size by omega]
      exact ih (fun c' member => sizes c' (List.mem_cons_of_mem c member)) held

theorem length_flatten {chunks : List Bytes} {size : Nat} (sizes : ∀ c ∈ chunks, c.length = size) :
    chunks.flatten.length = chunks.length * size := by
  induction chunks with
  | nil => simp
  | cons c chunks ih =>
    rw [List.flatten_cons, List.length_append, sizes c List.mem_cons_self,
      ih fun c' member => sizes c' (List.mem_cons_of_mem c member), List.length_cons, Nat.succ_mul, Nat.add_comm]

theorem slice_slice {bs : Bytes} {offset size i n : Nat} (within : i + n ≤ size) :
    slice (slice bs offset size) i n = slice bs (offset + i) n := by
  apply List.ext_getElem?
  intro j
  simp only [slice_getElem?]
  split
  · rw [if_pos (by omega), Nat.add_assoc]
  · rfl

@[simp] theorem slice_zero (bs : Bytes) (offset : Nat) : slice bs offset 0 = [] := by
  simp [slice]

theorem slice_add (bs : Bytes) (offset m n : Nat) :
    slice bs offset (m + n) = slice bs offset m ++ slice bs (offset + m) n := by
  simp only [slice, List.take_add, List.drop_drop]

theorem natAt_lt (bs : Bytes) (offset width : Nat) : natAt bs offset width < 256 ^ width := by
  refine (leNat_lt _).trans_le (Nat.pow_le_pow_right (by decide) ?_)
  rw [slice_length]
  exact Nat.min_le_left _ _

theorem leBytes_natAt {bs : Bytes} {offset width : Nat} (inside : offset + width ≤ bs.length) :
    leBytes width (natAt bs offset width) = slice bs offset width := by
  have whole := leBytes_leNat (slice bs offset width)
  rwa [slice_length_of_le inside] at whole

theorem natAt_patch_leBytes (bs : Bytes) (offset width n : Nat) :
    natAt (patch bs offset (leBytes width n)) offset width = n % 256 ^ width := by
  have inner := slice_patch_self bs (leBytes width n) offset
  rw [leBytes_length] at inner
  rw [natAt, inner, leNat_leBytes]

theorem natAt_patch_inner {bs data : Bytes} {offset i width : Nat} (within : i + width ≤ data.length) :
    natAt (patch bs offset data) (offset + i) width = natAt data i width := by
  rw [natAt, slice_patch_inner within, natAt]

/-- A store changes no field that lies wholly before or wholly after it. -/
theorem natAt_patch_disjoint {bs data : Bytes} {offset start width : Nat}
    (apart : (start + width ≤ offset ∧ start + width ≤ bs.length) ∨ offset + data.length ≤ start) :
    natAt (patch bs offset data) start width = natAt bs start width := by
  unfold natAt
  rcases apart with ⟨before, inside⟩ | after
  · rw [slice_patch_before before inside]
  · rw [slice_patch_after after]

theorem natAt_append_left {bs more : Bytes} {offset width : Nat} (inside : offset + width ≤ bs.length) :
    natAt (bs ++ more) offset width = natAt bs offset width := by
  rw [natAt, slice_append_left inside, natAt]

theorem natAt_append_right {bs more : Bytes} {offset width : Nat} (after : bs.length ≤ offset) :
    natAt (bs ++ more) offset width = natAt more (offset - bs.length) width := by
  rw [natAt, slice_append_right after, natAt]

@[simp] theorem natAt_leBytes_head (width n : Nat) (rest : Bytes) :
    natAt (leBytes width n ++ rest) 0 width = n % 256 ^ width := by
  have head : slice (leBytes width n ++ rest) 0 width = leBytes width n := by
    simp only [slice, List.drop_zero]
    exact List.take_left' (leBytes_length width n)
  rw [natAt, head, leNat_leBytes]

@[simp] theorem natAt_leBytes (width n : Nat) : natAt (leBytes width n) 0 width = n % 256 ^ width := by
  simpa only [List.append_nil] using natAt_leBytes_head width n []

theorem natAt_slice {bs : Bytes} {offset size i width : Nat} (within : i + width ≤ size) :
    natAt (slice bs offset size) i width = natAt bs (offset + i) width := by
  rw [natAt, slice_slice within, natAt]

end ByteCodec
