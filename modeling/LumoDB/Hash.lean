import LumoDB.Lib.Bytes

namespace LumoDB
open ByteCodec

/-- Wraps a natural number to an unsigned 64-bit value. -/
def u64 (n : Nat) : Nat := n % 2 ^ 64

theorem u64_lt (n : Nat) : u64 n < 2 ^ 64 := Nat.mod_lt _ (Nat.two_pow_pos 64)

theorem u64_of_lt {n : Nat} (bound : n < 2 ^ 64) : u64 n = n := Nat.mod_eq_of_lt bound

/-- The two hash functions of the store, with any 64-bit behaviour. -/
structure HashFunctions where
  hashString : Bytes → Nat
  mixHashes : Nat → Nat → Nat
  hashString_lt : ∀ value, hashString value < 2 ^ 64
  mixHashes_lt : ∀ columnHash keyHash, mixHashes columnHash keyHash < 2 ^ 64

/-- FNV-1a over the bytes of `value`. -/
def hashString (value : Bytes) : Nat :=
  value.foldl (fun hash ch => u64 ((hash ^^^ ch.toNat) * 1099511628211)) 14695981039346656037

def rotl64 (n k : Nat) : Nat := u64 (n <<< k) ||| (n >>> (64 - k))

def mixHashes (columnHash keyHash : Nat) : Nat :=
  let value := columnHash ^^^ rotl64 keyHash 23
  let value := value ^^^ (value >>> 30)
  let value := u64 (value * 0xbf58476d1ce4e5b9)
  let value := value ^^^ (value >>> 27)
  let value := u64 (value * 0x94d049bb133111eb)
  u64 (value ^^^ (value >>> 31))

theorem hashString_lt (value : Bytes) : hashString value < 2 ^ 64 := by
  rcases List.eq_nil_or_concat value with rfl | ⟨front, last, rfl⟩
  · rw [hashString, List.foldl_nil]
    omega
  · rw [hashString, List.concat_eq_append, List.foldl_append, List.foldl_cons, List.foldl_nil]
    exact u64_lt _

/-- The hash functions the library ships. -/
def HashFunctions.shipped : HashFunctions where
  hashString := LumoDB.hashString
  mixHashes := LumoDB.mixHashes
  hashString_lt := LumoDB.hashString_lt
  mixHashes_lt _ _ := u64_lt _

/-- The combined hash of an object bucket. Zero marks an empty bucket, so a
mixed hash of zero is stored as one. -/
def objectIndexHash (H : HashFunctions) (columnHash keyHash : Nat) : Nat :=
  let hash := H.mixHashes columnHash keyHash
  if hash = 0 then 1 else hash

theorem objectIndexHash_ne_zero (H : HashFunctions) (columnHash keyHash : Nat) :
    objectIndexHash H columnHash keyHash ≠ 0 := by
  unfold objectIndexHash
  simp only
  split <;> omega

theorem objectIndexHash_lt (H : HashFunctions) (columnHash keyHash : Nat) :
    objectIndexHash H columnHash keyHash < 2 ^ 64 := by
  have mixed := H.mixHashes_lt columnHash keyHash
  unfold objectIndexHash
  simp only
  split <;> omega

end LumoDB
