import LumoDB.RowReads

namespace LumoDB
open ByteCodec Effects

/-- `size` bytes at `offset` lie in the block. Nothing is read where no byte
is asked for. -/
def InBlock (block : Bytes) (offset size : Nat) : Prop := size = 0 ∨ offset + size ≤ block.length

/-- The ranges of a key bucket lie in the key and value bytes of its block. -/
def Contained (h : RowBlockHeader) (bucket : RowKeyBucket) : Prop :=
  bucket.keyOffset + bucket.keySize ≤ h.keyBytesSize ∧ bucket.valueOffset + bucket.valueSize ≤ h.valueBytesSize

/-- The first half of the range check of `DecodeRowBlockEntries`, with the sum
it computes. -/
def KeyChecked (h : RowBlockHeader) (bucket : RowKeyBucket) : Prop := u64 (bucket.keyOffset + bucket.keySize) ≤ h.keyBytesSize

/-- The range check of `DecodeRowBlockEntries`. -/
def RangesChecked (h : RowBlockHeader) (bucket : RowKeyBucket) : Prop :=
  KeyChecked h bucket ∧ u64 (bucket.valueOffset + bucket.valueSize) ≤ h.valueBytesSize

/-- The decoding takes over the entry of the bucket. -/
def TakesEntry (h : RowBlockHeader) (bucket : RowKeyBucket) : Prop :=
  bucket.state = kBucketFilled ∧ RangesChecked h bucket

/-- The decoding goes on behind the bucket. -/
def GoesOn (h : RowBlockHeader) (bucket : RowKeyBucket) : Prop := bucket.state = kBucketEmpty ∨ TakesEntry h bucket

section Bytes
variable {block : Bytes} {offset size : Nat}

theorem blockBytes_inside (inside : InBlock block offset size) : ∃ bytes, blockBytes block offset size = .ret bytes := by
  unfold blockBytes
  rcases inside with none | inside
  · exact ⟨[], by rw [if_pos none]⟩
  · by_cases none : size = 0
    · exact ⟨[], by rw [if_pos none]⟩
    · exact ⟨_, by rw [if_neg none, if_pos inside]⟩

theorem blockBytes_outside (outside : ¬ InBlock block offset size) : blockBytes block offset size = .fault := by
  obtain ⟨some, beyond⟩ := not_or.mp outside
  unfold blockBytes
  rw [if_neg some, if_neg beyond]

end Bytes

section Buckets
variable {block : Bytes} {h : RowBlockHeader} {keyStart valueStart : Nat} {w : World}

/-- What the decoding reads for bucket `i` lies in the block: its state, the
fields the state and the first half of the check ask for, and the ranges of an
accepted bucket. -/
structure ReadsInside (block : Bytes) (h : RowBlockHeader) (keyStart valueStart i : Nat) : Prop where
  state : 72 + i * 48 + 1 ≤ block.length
  keyFields : (keyBucketAt block i).state = kBucketFilled → 72 + i * 48 + 32 ≤ block.length
  valueFields : (keyBucketAt block i).state = kBucketFilled → KeyChecked h (keyBucketAt block i) →
    72 + i * 48 + 48 ≤ block.length
  key : TakesEntry h (keyBucketAt block i) →
    InBlock block (u64 (keyStart + (keyBucketAt block i).keyOffset)) (keyBucketAt block i).keySize
  value : TakesEntry h (keyBucketAt block i) →
    InBlock block (u64 (valueStart + (keyBucketAt block i).valueOffset)) (keyBucketAt block i).valueSize

/-- How a round of the decoding ends. It reads outside the block, goes on to
the next bucket, or reports the block corrupt. -/
def DecodesBucket (block : Bytes) (h : RowBlockHeader) (keyStart valueStart rounds i : Nat) (w : World)
    (out : Outcome Status (List RowStructEntry) World) : Prop :=
  (¬ ReadsInside block h keyStart valueStart i ∧ out = .fault) ∨
  (ReadsInside block h keyStart valueStart i ∧ GoesOn h (keyBucketAt block i) ∧
    ∃ add : List RowStructEntry → List RowStructEntry,
      out = (run system (decodeBuckets block h keyStart valueStart rounds (i + 1)) w).andThen
        fun later w' => .ok (add later) w') ∨
  (ReadsInside block h keyStart valueStart i ∧ ¬ GoesOn h (keyBucketAt block i) ∧ ∃ message,
    out = .error (.corruption message) w ∧
      ((keyBucketAt block i).state = kBucketFilled → message = "row key bucket points outside block"))

theorem keyBucketField_outside {index field size : Nat} (some : size ≠ 0)
    (beyond : block.length < 72 + index * 48 + field + size) : keyBucketField block index field size = .fault := by
  unfold keyBucketField
  rw [Prog.bind_eq, blockBytes_outside (not_or.mpr ⟨some, Nat.not_le.mpr beyond⟩)]
  rfl

/-- The copies of an accepted bucket. -/
theorem decodeBuckets_copies (w : World) (rounds : Nat) {i : Nat} (takes : TakesEntry h (keyBucketAt block i))
    (fields : 72 + i * 48 + 48 ≤ block.length) :
    DecodesBucket block h keyStart valueStart rounds i w (run system (do
      let key ← blockBytes block (u64 (keyStart + (keyBucketAt block i).keyOffset)) (keyBucketAt block i).keySize
      let value ← blockBytes block (u64 (valueStart + (keyBucketAt block i).valueOffset)) (keyBucketAt block i).valueSize
      let later ← decodeBuckets block h keyStart valueStart rounds (i + 1)
      return ⟨key, value⟩ :: later) w) := by
  by_cases key : InBlock block (u64 (keyStart + (keyBucketAt block i).keyOffset)) (keyBucketAt block i).keySize
  · obtain ⟨keyBytes, keyRead⟩ := blockBytes_inside key
    rw [keyRead, Prog.bind_eq, Prog.ret_bind]
    by_cases value : InBlock block (u64 (valueStart + (keyBucketAt block i).valueOffset)) (keyBucketAt block i).valueSize
    · obtain ⟨valueBytes, valueRead⟩ := blockBytes_inside value
      rw [valueRead, Prog.bind_eq, Prog.ret_bind, Prog.bind_eq, run_bind]
      exact Or.inr (Or.inl ⟨⟨by omega, fun _ => by omega, fun _ _ => fields, fun _ => key, fun _ => value⟩,
        Or.inr takes, _, rfl⟩)
    · rw [blockBytes_outside value]
      exact Or.inl ⟨fun reads => value (reads.value takes), rfl⟩
  · rw [blockBytes_outside key]
    exact Or.inl ⟨fun reads => key (reads.key takes), rfl⟩

/-- A filled bucket: the check loads the value fields only behind a key range
that passes. -/
theorem decodeBuckets_filled (w : World) (keyStart valueStart rounds : Nat) {i : Nat}
    (full : (keyBucketAt block i).state = kBucketFilled) :
    DecodesBucket block h keyStart valueStart rounds i w
      (run system (decodeBuckets block h keyStart valueStart (rounds + 1) i) w) := by
  obtain ⟨state, keyOff, keyLen, valueOff, valueLen⟩ := keyBucketAt_fields block i
  have filled : ¬ (keyBucketAt block i).state = kBucketEmpty := by
    rw [full]
    decide
  rw [decodeBuckets]
  simp only [Prog.bind_eq]
  by_cases first : 72 + i * 48 + 1 ≤ block.length
  · rw [keyBucketField_runs first, Prog.ret_bind, Nat.add_zero, ← state, if_neg filled, if_neg (not_not.mpr full)]
    by_cases keyFields : 72 + i * 48 + 32 ≤ block.length
    · rw [keyBucketField_runs (by omega), Prog.ret_bind, keyBucketField_runs (by omega), Prog.ret_bind, ← keyOff, ← keyLen]
      by_cases key : KeyChecked h (keyBucketAt block i)
      · rw [if_neg (Nat.not_lt.mpr key)]
        by_cases valueFields : 72 + i * 48 + 48 ≤ block.length
        · rw [keyBucketField_runs (by omega), Prog.ret_bind, keyBucketField_runs (by omega), Prog.ret_bind, ← valueOff,
            ← valueLen]
          by_cases checked : RangesChecked h (keyBucketAt block i)
          · rw [if_neg (Nat.not_lt.mpr checked.2)]
            exact decodeBuckets_copies w rounds ⟨full, checked⟩ valueFields
          · have other : ¬ TakesEntry h (keyBucketAt block i) := fun takes => checked takes.2
            rw [if_pos (Nat.not_le.mp fun value => checked ⟨key, value⟩)]
            exact Or.inr (Or.inr ⟨⟨first, fun _ => keyFields, fun _ _ => valueFields, fun takes => absurd takes other,
              fun takes => absurd takes other⟩, not_or.mpr ⟨filled, other⟩, _, rfl, fun _ => rfl⟩)
        · refine Or.inl ⟨fun reads => valueFields (reads.valueFields full key), ?_⟩
          by_cases offset : 72 + i * 48 + 40 ≤ block.length
          · rw [keyBucketField_runs (by omega), Prog.ret_bind, keyBucketField_outside (by decide) (by omega)]
            rfl
          · rw [keyBucketField_outside (by decide) (by omega)]
            rfl
      · have other : ¬ TakesEntry h (keyBucketAt block i) := fun takes => key takes.2.1
        rw [if_pos (Nat.not_le.mp key)]
        exact Or.inr (Or.inr ⟨⟨first, fun _ => keyFields, fun _ checked => absurd checked key,
          fun takes => absurd takes other, fun takes => absurd takes other⟩, not_or.mpr ⟨filled, other⟩, _, rfl, fun _ => rfl⟩)
    · refine Or.inl ⟨fun reads => keyFields (reads.keyFields full), ?_⟩
      by_cases offset : 72 + i * 48 + 24 ≤ block.length
      · rw [keyBucketField_runs (by omega), Prog.ret_bind, keyBucketField_outside (by decide) (by omega)]
        rfl
      · rw [keyBucketField_outside (by decide) (by omega)]
        rfl
  · refine Or.inl ⟨fun reads => first reads.state, ?_⟩
    rw [keyBucketField_outside (by decide) (by omega)]
    rfl

/-- One round of the decoding. -/
theorem decodeBuckets_step (w : World) (keyStart valueStart rounds i : Nat) :
    DecodesBucket block h keyStart valueStart rounds i w
      (run system (decodeBuckets block h keyStart valueStart (rounds + 1) i) w) := by
  by_cases full : (keyBucketAt block i).state = kBucketFilled
  · exact decodeBuckets_filled w keyStart valueStart rounds full
  · have other : ¬ TakesEntry h (keyBucketAt block i) := fun takes => full takes.1
    rw [decodeBuckets, Prog.bind_eq]
    by_cases first : 72 + i * 48 + 1 ≤ block.length
    · have inside : ReadsInside block h keyStart valueStart i :=
        ⟨first, fun filled => absurd filled full, fun filled => absurd filled full, fun takes => absurd takes other,
          fun takes => absurd takes other⟩
      rw [keyBucketField_runs first, Prog.ret_bind, Nat.add_zero, ← (keyBucketAt_fields block i).1]
      by_cases empty : (keyBucketAt block i).state = kBucketEmpty
      · refine Or.inr (Or.inl ⟨inside, Or.inl empty, id, ?_⟩)
        rw [if_pos empty]
        cases run system (decodeBuckets block h keyStart valueStart rounds (i + 1)) w <;> rfl
      · refine Or.inr (Or.inr ⟨inside, not_or.mpr ⟨empty, other⟩, "row key bucket state is invalid", ?_,
          fun filled => absurd filled full⟩)
        rw [if_neg empty, if_pos full]
        rfl
    · refine Or.inl ⟨fun reads => first reads.state, ?_⟩
      rw [keyBucketField_outside (by decide) (by omega)]
      rfl

/-- The decoding that starts at bucket `start` gets to bucket `i`. -/
def GetsTo (block : Bytes) (h : RowBlockHeader) (start i : Nat) : Prop :=
  start ≤ i ∧ ∀ j, start ≤ j → j < i → GoesOn h (keyBucketAt block j)

theorem getsTo_self (block : Bytes) (h : RowBlockHeader) (i : Nat) : GetsTo block h i i :=
  ⟨le_rfl, fun _ lower upper => absurd upper (Nat.not_lt.mpr lower)⟩

theorem GetsTo.next {start i : Nat} (gets : GetsTo block h start i) (later : start < i) : GetsTo block h (start + 1) i :=
  ⟨later, fun j lower upper => gets.2 j (by omega) upper⟩

theorem GetsTo.cons {start i : Nat} (goes : GoesOn h (keyBucketAt block start)) (gets : GetsTo block h (start + 1) i) :
    GetsTo block h start i := by
  refine ⟨by have := gets.1; omega, fun j lower upper => ?_⟩
  rcases Nat.lt_or_eq_of_le lower with after | rfl
  · exact gets.2 j after upper
  · exact goes

theorem andThen_ok_eq_fault {α β : Type} {out : Outcome Status α World} {f : α → β} :
    (out.andThen fun a w' => .ok (f a) w') = (.fault : Outcome Status β World) ↔ out = .fault := by
  cases out <;> simp [Outcome.andThen]

/-- The decoding stays inside the block exactly if it does so for every bucket
it gets to. -/
theorem decodeBuckets_inside_iff (rounds : Nat) {start n : Nat} (sum : start + rounds = n) :
    run system (decodeBuckets block h keyStart valueStart rounds start) w ≠ .fault ↔
      ∀ i < n, GetsTo block h start i → ReadsInside block h keyStart valueStart i := by
  induction rounds generalizing start with
  | zero =>
    refine iff_of_true (by rintro ⟨⟩) fun i upper gets => absurd gets.1 (by omega)
  | succ rounds ih =>
    have here : start < n := by omega
    have later := ih (show start + 1 + rounds = n by omega)
    rcases @decodeBuckets_step block h w keyStart valueStart rounds start with
      ⟨outside, fault⟩ | ⟨inside, goes, add, ran⟩ | ⟨inside, stops, message, failed, _⟩
    · exact iff_of_false (fun other => other fault) fun all => outside (all start here (getsTo_self _ _ _))
    · rw [ran, ne_eq, andThen_ok_eq_fault, ← ne_eq, later]
      constructor
      · intro all i upper gets
        rcases Nat.lt_or_eq_of_le gets.1 with after | rfl
        · exact all i upper (gets.next after)
        · exact inside
      · intro all i upper gets
        exact all i upper (gets.cons goes)
    · refine iff_of_true (by rw [failed]; nofun) fun i upper gets => ?_
      rcases Nat.lt_or_eq_of_le gets.1 with after | rfl
      · exact absurd (gets.2 start le_rfl after) stops
      · exact inside

/-- A filled bucket that the check refuses ends the decoding. -/
theorem decodeBuckets_refuses (rounds : Nat) {start n i : Nat} (sum : start + rounds = n) (upper : i < n)
    (gets : GetsTo block h start i) (full : (keyBucketAt block i).state = kBucketFilled)
    (refused : ¬ RangesChecked h (keyBucketAt block i))
    (inside : run system (decodeBuckets block h keyStart valueStart rounds start) w ≠ .fault) :
    run system (decodeBuckets block h keyStart valueStart rounds start) w =
      .error (.corruption "row key bucket points outside block") w := by
  induction rounds generalizing start with
  | zero => exact absurd gets.1 (by omega)
  | succ rounds ih =>
    rcases @decodeBuckets_step block h w keyStart valueStart rounds start with
      ⟨_, fault⟩ | ⟨_, goes, add, ran⟩ | ⟨_, stops, message, failed, named⟩
    · exact absurd fault inside
    · rw [ran, ne_eq, andThen_ok_eq_fault] at inside
      rcases Nat.lt_or_eq_of_le gets.1 with after | rfl
      · rw [ran, ih (by omega) (gets.next after) inside]
        rfl
      · rcases goes with empty | takes
        · have := full.symm.trans empty
          cases this
        · exact absurd takes.2 refused
    · rcases Nat.lt_or_eq_of_le gets.1 with after | rfl
      · exact absurd (gets.2 start le_rfl after) stops
      · rw [failed, named full]

end Buckets

section Blocks
variable {H : HashFunctions} {block column : Bytes} {rowId : Nat} {w : World}

/-- The header of a block in memory. -/
def headerOf (block : Bytes) : RowBlockHeader := RowBlockHeader.decode (block.take 72)

/-- The sum of the sizes in a header, which `IsValidRowBlockHeader` compares
modulo `2 ^ 64`. -/
def sizeSum (h : RowBlockHeader) : Nat := 72 + h.bucketCount * 48 + h.columnSize + h.keyBytesSize + h.valueBytesSize

def keyBytesStart (h : RowBlockHeader) : Nat := u64 (72 + h.bucketCount * 48 + h.columnSize)

def valueBytesStart (h : RowBlockHeader) : Nat := u64 (keyBytesStart h + h.keyBytesSize)

/-- The header passes the checks for the requested row, and its column has the
length of the requested one. -/
structure HeaderMatches (H : HashFunctions) (block column : Bytes) (rowId : Nat) : Prop where
  long : 72 ≤ block.length
  valid : isValidRowBlockHeader (headerOf block) = true
  blockSize : (headerOf block).blockSize = block.length
  rowId : (headerOf block).rowId = rowId
  columnHash : (headerOf block).columnHash = H.hashString column
  columnSize : (headerOf block).columnSize = column.length

/-- The decoding of the block gets as far as its key buckets. -/
structure Opened (H : HashFunctions) (block column : Bytes) (rowId : Nat) : Prop extends
    HeaderMatches H block column rowId where
  column : blockBytes block (72 + (headerOf block).bucketCount * 48) (headerOf block).columnSize = .ret column

/-- A decoding of the block gets to bucket `i`. -/
structure Reaches (H : HashFunctions) (block column : Bytes) (rowId i : Nat) : Prop extends
    Opened H block column rowId where
  inside : i < (headerOf block).bucketCount
  gets : GetsTo block (headerOf block) 0 i

theorem decodeRowBlockEntries_cases (H : HashFunctions) (block column : Bytes) (rowId : Nat) (w : World) :
    (¬ Opened H block column rowId ∧ (HeaderMatches H block column rowId →
        InBlock block (72 + (headerOf block).bucketCount * 48) (headerOf block).columnSize) ∧
      ∃ message, run system (decodeRowBlockEntries H block column rowId) w = .error (.corruption message) w) ∨
    (HeaderMatches H block column rowId ∧
      ¬ InBlock block (72 + (headerOf block).bucketCount * 48) (headerOf block).columnSize ∧
      run system (decodeRowBlockEntries H block column rowId) w = .fault) ∨
    (Opened H block column rowId ∧ run system (decodeRowBlockEntries H block column rowId) w =
      (run system (decodeBuckets block (headerOf block) (keyBytesStart (headerOf block)) (valueBytesStart (headerOf block))
        (headerOf block).bucketCount 0) w).andThen fun entries w' =>
          if entries.length ≠ (headerOf block).itemCount then
            .error (.corruption "row block item count does not match key buckets") w'
          else .ok entries w') := by
  unfold decodeRowBlockEntries
  by_cases long : 72 ≤ block.length
  · rw [if_neg (Nat.not_lt.mpr long)]
    simp only [show RowBlockHeader.decode (block.take 72) = headerOf block from rfl]
    by_cases mismatch : isValidRowBlockHeader (headerOf block) = false ∨ (headerOf block).blockSize ≠ block.length ∨
        (headerOf block).rowId ≠ rowId ∨ (headerOf block).columnHash ≠ H.hashString column
    · rw [if_pos mismatch]
      have refused : ¬ HeaderMatches H block column rowId := by
        rintro ⟨_, valid, size, row, hash, _⟩
        simp [valid, size, row, hash] at mismatch
      exact Or.inl ⟨fun opened => refused opened.toHeaderMatches, fun header => absurd header refused, _, rfl⟩
    · rw [if_neg mismatch]
      push Not at mismatch
      obtain ⟨valid, size, row, hash⟩ := mismatch
      by_cases same : (headerOf block).columnSize = column.length
      · have header : HeaderMatches H block column rowId :=
          ⟨long, by simpa using valid, size, row, hash, same⟩
        rw [if_neg (not_not.mpr same), Prog.bind_eq]
        by_cases inside : InBlock block (72 + (headerOf block).bucketCount * 48) (headerOf block).columnSize
        · obtain ⟨bytes, read⟩ := blockBytes_inside inside
          rw [read, Prog.ret_bind]
          by_cases equal : bytes = column
          · refine Or.inr (Or.inr ⟨⟨header, by rw [read, equal]⟩, ?_⟩)
            rw [if_neg (not_not.mpr equal), Prog.bind_eq, run_bind]
            congr 1
            funext entries w'
            split <;> rfl
          · rw [if_pos equal]
            refine Or.inl ⟨fun opened => equal ?_, fun _ => inside, _, rfl⟩
            have other := read.symm.trans opened.column
            cases other
            rfl
        · rw [blockBytes_outside inside]
          exact Or.inr (Or.inl ⟨header, inside, rfl⟩)
      · rw [if_pos same]
        exact Or.inl ⟨fun opened => same opened.columnSize, fun header => absurd header.columnSize same, _, rfl⟩
  · rw [if_pos (by omega)]
    exact Or.inl ⟨fun opened => long opened.long, fun header => absurd header.long long, _, rfl⟩

/-- The shard an index bucket names keeps the block where the bucket points. -/
structure KeepsBlock (w : World) (shards : Nat → Bytes) (count : Nat) (bucket : RowIndexBucket) (block : Bytes) : Prop where
  reads : ReadsShards w shards count
  shard : bucket.shardId < count
  located : BlockIn (shards bucket.shardId) bucket.blockOffset block
  blockSize : bucket.blockSize = block.length

/-- The key bucket the point lookup of `key` reads at its probe `p`. -/
def keyProbe (H : HashFunctions) (block key : Bytes) (p : Nat) : Nat :=
  u64 ((H.mixHashes (H.hashString key) (headerOf block).rowId &&& ((headerOf block).bucketCount - 1)) + p) &&&
    ((headerOf block).bucketCount - 1)

/-- The point lookup of `key` goes on behind key bucket `j`, for its hash, for
its size or for the key that is stored there. -/
def ProbedPast (H : HashFunctions) (w : World) (bucket : RowIndexBucket) (block key : Bytes) (j : Nat) : Prop :=
  72 + j * 48 + 48 ≤ block.length ∧ (keyBucketAt block j).state = kBucketFilled ∧
    ((keyBucketAt block j).keyHash ≠ H.hashString key ∨ (keyBucketAt block j).keySize ≠ key.length ∨
      Contained (headerOf block) (keyBucketAt block j) ∧ ∃ stored, stored ≠ key ∧
        Runs (readRowValueAt bucket.shardId
          (u64 (bucket.blockOffset + keyBytesStart (headerOf block) + (keyBucketAt block j).keyOffset)) key.length) w stored w)

/-- The point lookup of `key` arrives at key bucket `i` of the block, which has
the hash and the size of the key. -/
structure Arrives (H : HashFunctions) (w : World) (bucket : RowIndexBucket) (block key : Bytes) (i : Nat) : Prop where
  inside : 72 + i * 48 + 48 ≤ block.length
  probe : ∃ p < (headerOf block).bucketCount, keyProbe H block key p = i ∧
    ∀ q < p, ProbedPast H w bucket block key (keyProbe H block key q)
  hash : (keyBucketAt block i).keyHash = H.hashString key
  size : (keyBucketAt block i).keySize = key.length

/-- What a reader may expect of the decoding of any bytes: it returns, having
read inside the block, and a bucket that points outside its regions makes it
fail, as it makes the point lookup that arrives there. -/
structure DecodesSafely (H : HashFunctions) (block column : Bytes) (rowId : Nat) (w : World) : Prop where
  inside : run system (decodeRowBlockEntries H block column rowId) w ≠ .fault
  refuses : ∀ i, Reaches H block column rowId i → (keyBucketAt block i).state = kBucketFilled →
    ¬ Contained (headerOf block) (keyBucketAt block i) →
    run system (decodeBuckets block (headerOf block) (keyBytesStart (headerOf block)) (valueBytesStart (headerOf block)) 1 i)
        w = .error (.corruption "row key bucket points outside block") w ∧
      run system (decodeRowBlockEntries H block column rowId) w =
        .error (.corruption "row key bucket points outside block") w
  lookup : HeaderMatches H block column rowId → ∀ i, (keyBucketAt block i).state = kBucketFilled →
    ¬ Contained (headerOf block) (keyBucketAt block i) → ∀ x shards count bucket key,
    KeepsBlock x shards count bucket block → Arrives H x bucket block key i →
    run system (findValueInRowBlockAt H bucket (headerOf block) key) x =
      .error (.corruption "row key bucket points outside block") x

/-- `size` bytes end in the first `total`, where `start` is their place
without the multiples of `2 ^ 64` in it. -/
def EndsWithin (total start size : Nat) : Prop :=
  size = 0 ∨ ∃ wraps, wraps * 2 ^ 64 ≤ start ∧ start < (wraps + 1) * 2 ^ 64 ∧ start + size ≤ wraps * 2 ^ 64 + total

/-- The fields of bucket `i` and the ranges they name end in the block size of
the header. -/
structure BucketFits (h : RowBlockHeader) (i : Nat) (bucket : RowKeyBucket) : Prop where
  state : 72 + i * 48 + 1 ≤ h.blockSize
  keyFields : bucket.state = kBucketFilled → 72 + i * 48 + 32 ≤ h.blockSize
  valueFields : bucket.state = kBucketFilled → KeyChecked h bucket → 72 + i * 48 + 48 ≤ h.blockSize
  key : TakesEntry h bucket →
    EndsWithin h.blockSize (72 + h.bucketCount * 48 + h.columnSize + bucket.keyOffset) bucket.keySize
  value : TakesEntry h bucket →
    EndsWithin h.blockSize (72 + h.bucketCount * 48 + h.columnSize + h.keyBytesSize + bucket.valueOffset) bucket.valueSize

/-- No sum the decoding computes for a bucket it accepts wraps. Where the sum
of the header has wrapped, so that its block size is less than its regions,
its column and the buckets still fit in that block size. -/
structure SumsFit (H : HashFunctions) (block column : Bytes) (rowId : Nat) : Prop where
  ranges : ∀ i, Reaches H block column rowId i → TakesEntry (headerOf block) (keyBucketAt block i) →
    (keyBucketAt block i).keyOffset + (keyBucketAt block i).keySize < 2 ^ 64 ∧
      (keyBucketAt block i).valueOffset + (keyBucketAt block i).valueSize < 2 ^ 64
  columnFits : HeaderMatches H block column rowId → 2 ^ 64 ≤ sizeSum (headerOf block) → (headerOf block).columnSize = 0 ∨
    72 + (headerOf block).bucketCount * 48 + (headerOf block).columnSize ≤ (headerOf block).blockSize
  buckets : ∀ i, Reaches H block column rowId i → 2 ^ 64 ≤ sizeSum (headerOf block) →
    BucketFits (headerOf block) i (keyBucketAt block i)

theorem endsWithin_iff (block : Bytes) (start size : Nat) :
    EndsWithin block.length start size ↔ InBlock block (u64 start) size := by
  unfold EndsWithin InBlock
  refine or_congr_right ?_
  have parts := Nat.div_add_mod start (2 ^ 64)
  have rest := Nat.mod_lt start (show 0 < 2 ^ 64 by decide)
  rw [u64]
  constructor
  · rintro ⟨wraps, lower, upper, ends⟩
    have same : start / 2 ^ 64 = wraps := by
      rw [Nat.div_eq_iff (by decide)]
      omega
    rw [same] at parts
    omega
  · intro ends
    exact ⟨start / 2 ^ 64, by omega, by omega, by omega⟩

/-- For a header of the block, the fields of a bucket fit exactly if the
decoding reads inside the block for it. -/
theorem HeaderMatches.bucketFits_iff (header : HeaderMatches H block column rowId) (i : Nat) :
    BucketFits (headerOf block) i (keyBucketAt block i) ↔
      ReadsInside block (headerOf block) (keyBytesStart (headerOf block)) (valueBytesStart (headerOf block)) i := by
  have key (offset : Nat) : u64 (keyBytesStart (headerOf block) + offset) =
      u64 (72 + (headerOf block).bucketCount * 48 + (headerOf block).columnSize + offset) := Nat.mod_add_mod _ _ _
  have value (offset : Nat) : u64 (valueBytesStart (headerOf block) + offset) =
      u64 (72 + (headerOf block).bucketCount * 48 + (headerOf block).columnSize + (headerOf block).keyBytesSize + offset) := by
    rw [valueBytesStart, u64, u64, Nat.mod_add_mod, keyBytesStart, u64, Nat.add_assoc, Nat.mod_add_mod, ← Nat.add_assoc, u64]
  have size := header.blockSize
  constructor
  · rintro ⟨state, keyFields, valueFields, keys, values⟩
    rw [size] at state keyFields valueFields keys values
    refine ⟨state, keyFields, valueFields, fun takes => ?_, fun takes => ?_⟩
    · rw [key, ← endsWithin_iff]
      exact keys takes
    · rw [value, ← endsWithin_iff]
      exact values takes
  · rintro ⟨state, keyFields, valueFields, keys, values⟩
    refine ⟨size ▸ state, size ▸ keyFields, size ▸ valueFields, fun takes => ?_, fun takes => ?_⟩
    · rw [size, endsWithin_iff, ← key]
      exact keys takes
    · rw [size, endsWithin_iff, ← value]
      exact values takes

theorem decodeRowBlockEntries_inside_iff :
    run system (decodeRowBlockEntries H block column rowId) w ≠ .fault ↔
      (HeaderMatches H block column rowId →
        InBlock block (72 + (headerOf block).bucketCount * 48) (headerOf block).columnSize) ∧
      ∀ i, Reaches H block column rowId i →
        ReadsInside block (headerOf block) (keyBytesStart (headerOf block)) (valueBytesStart (headerOf block)) i := by
  rcases decodeRowBlockEntries_cases H block column rowId w with
    ⟨closed, inside, message, failed⟩ | ⟨header, outside, fault⟩ | ⟨opened, ran⟩
  · exact iff_of_true (by rw [failed]; nofun) ⟨inside, fun i reaches => absurd reaches.toOpened closed⟩
  · exact iff_of_false (fun other => other fault) fun both => outside (both.1 header)
  · have columnInside : InBlock block (72 + (headerOf block).bucketCount * 48) (headerOf block).columnSize := by
      by_contra outside
      have read := (blockBytes_outside outside).symm.trans opened.column
      cases read
    have propagates : run system (decodeRowBlockEntries H block column rowId) w = .fault ↔
        run system (decodeBuckets block (headerOf block) (keyBytesStart (headerOf block))
          (valueBytesStart (headerOf block)) (headerOf block).bucketCount 0) w = .fault := by
      rw [ran]
      cases run system (decodeBuckets block (headerOf block) (keyBytesStart (headerOf block))
          (valueBytesStart (headerOf block)) (headerOf block).bucketCount 0) w with
      | ok entries w' =>
        refine iff_of_false ?_ nofun
        rw [andThen_ok]
        split <;> nofun
      | _ => simp [Outcome.andThen]
    rw [ne_eq, propagates, ← ne_eq, decodeBuckets_inside_iff _ (Nat.zero_add _)]
    exact ⟨fun all => ⟨fun _ => columnInside, fun i reaches => all i reaches.inside reaches.gets⟩,
      fun both i upper gets => both.2 i ⟨opened, upper, gets⟩⟩

theorem headerOf_bounds (block : Bytes) : (headerOf block).bucketCount < 2 ^ 32 ∧ (headerOf block).columnSize < 2 ^ 32 ∧
    (headerOf block).keyBytesSize < 2 ^ 64 ∧ (headerOf block).valueBytesSize < 2 ^ 64 :=
  ⟨natAt_lt _ _ 4, natAt_lt _ _ 4, natAt_lt _ _ 8, natAt_lt _ _ 8⟩

theorem isValidRowBlockHeader_size {h : RowBlockHeader} (valid : isValidRowBlockHeader h = true) :
    h.blockSize = u64 (sizeSum h) := by
  unfold isValidRowBlockHeader at valid
  split at valid
  · cases valid
  · split at valid
    · cases valid
    · exact of_decide_eq_true valid

/-- Without a wrap the regions of the header are regions of the block. -/
theorem HeaderMatches.length (header : HeaderMatches H block column rowId) (fits : sizeSum (headerOf block) < 2 ^ 64) :
    block.length = sizeSum (headerOf block) := by
  rw [← header.blockSize, isValidRowBlockHeader_size header.valid, u64_of_lt fits]

/-- A bucket that the check accepts without a wrap is contained. -/
theorem RangesChecked.contained {h : RowBlockHeader} {bucket : RowKeyBucket} (checked : RangesChecked h bucket)
    (key : bucket.keyOffset + bucket.keySize < 2 ^ 64) (value : bucket.valueOffset + bucket.valueSize < 2 ^ 64) :
    Contained h bucket := by
  obtain ⟨keys, values⟩ := checked
  rw [KeyChecked, u64_of_lt key] at keys
  rw [u64_of_lt value] at values
  exact ⟨keys, values⟩

/-- The point lookup that arrives at a bucket after some probes. It compares
differences, which do not wrap: it refuses the buckets that are not contained. -/
theorem findValueLoop_refuses {x : World} {shards : Nat → Bytes} {count i p : Nat} {bucket : RowIndexBucket} {key : Bytes}
    (keeps : KeepsBlock x shards count bucket block) (arrives : Arrives H x bucket block key i)
    (at_p : keyProbe H block key p = i) (full : (keyBucketAt block i).state = kBucketFilled)
    (outside : ¬ Contained (headerOf block) (keyBucketAt block i)) {rounds probe : Nat} (before : probe ≤ p)
    (within : p < probe + rounds)
    (passes : ∀ q, probe ≤ q → q < p → ProbedPast H x bucket block key (keyProbe H block key q)) :
    run system (findValueLoop bucket (headerOf block) key (H.hashString key) ((headerOf block).bucketCount - 1)
        (H.mixHashes (H.hashString key) (headerOf block).rowId &&& ((headerOf block).bucketCount - 1))
        (keyBytesStart (headerOf block)) (valueBytesStart (headerOf block)) rounds probe) x =
      .error (.corruption "row key bucket points outside block") x := by
  have small := keeps.reads.small _ keeps.shard
  have room := keeps.located.inside
  -- what the loop reads at a probe whose bucket lies in the block
  have read (j : Nat) (inside : 72 + j * 48 + 48 ≤ block.length) :
      Runs (readRowValueAt bucket.shardId (u64 (bucket.blockOffset + 72 + j * 48)) 48) x (slice block (72 + j * 48) 48) x := by
    rw [u64_of_lt (by omega), Nat.add_assoc, ← keeps.located.part _ _ inside]
    exact readRowValueAt_runs keeps.reads keeps.shard (by omega)
  induction rounds generalizing probe with
  | zero => omega
  | succ rounds ih =>
    rw [findValueLoop, Prog.bind_eq]
    simp only [show ∀ q, u64 ((H.mixHashes (H.hashString key) (headerOf block).rowId &&&
      ((headerOf block).bucketCount - 1)) + q) &&& ((headerOf block).bucketCount - 1) = keyProbe H block key q from fun _ => rfl]
    rcases Nat.lt_or_eq_of_le before with earlier | rfl
    · obtain ⟨inside, filled, other⟩ := passes probe le_rfl earlier
      have later := @ih (probe + 1) earlier (by omega) fun q lower upper => passes q (by omega) upper
      rw [(read _ inside).bind, ← keyBucketAt, if_neg (by rw [filled]; decide), if_neg (not_not.mpr filled)]
      by_cases differs : (keyBucketAt block (keyProbe H block key probe)).keyHash ≠ H.hashString key ∨
          (keyBucketAt block (keyProbe H block key probe)).keySize ≠ key.length
      · rw [if_pos differs]
        exact later
      · rw [if_neg differs]
        rcases other with hash | size | ⟨contained, stored, unequal, loads⟩
        · exact absurd (Or.inl hash) differs
        · exact absurd (Or.inr size) differs
        · unfold Contained at contained
          rw [if_neg (by omega), Prog.bind_eq, loads.bind, if_pos unequal]
          exact later
    · unfold Contained at outside
      rw [at_p, (read _ arrives.inside).bind, ← keyBucketAt, if_neg (by rw [full]; decide), if_neg (not_not.mpr full),
        if_neg (by simp [arrives.hash, arrives.size]), if_pos (by omega)]
      rfl

theorem findValueInRowBlockAt_refuses {x : World} {shards : Nat → Bytes} {count i : Nat} {bucket : RowIndexBucket}
    {key : Bytes} (header : HeaderMatches H block column rowId) (keeps : KeepsBlock x shards count bucket block)
    (arrives : Arrives H x bucket block key i) (full : (keyBucketAt block i).state = kBucketFilled)
    (outside : ¬ Contained (headerOf block) (keyBucketAt block i)) :
    run system (findValueInRowBlockAt H bucket (headerOf block) key) x =
      .error (.corruption "row key bucket points outside block") x := by
  have members := keeps.reads.shardCount
  have shard := keeps.shard
  obtain ⟨p, upper, at_p, passes⟩ := arrives.probe
  unfold findValueInRowBlockAt
  rw [Prog.bind_eq, (getMembers_runs x).bind, if_neg (by omega),
    if_neg (by simp [header.valid, header.blockSize, keeps.blockSize])]
  exact findValueLoop_refuses keeps arrives at_p full outside (Nat.zero_le p) (by omega) fun q _ upper => passes q upper

theorem SumsFit.readsInside (sums : SumsFit H block column rowId) {i : Nat} (reaches : Reaches H block column rowId i) :
    ReadsInside block (headerOf block) (keyBytesStart (headerOf block)) (valueBytesStart (headerOf block)) i := by
  by_cases wrapped : 2 ^ 64 ≤ sizeSum (headerOf block)
  · exact (reaches.bucketFits_iff i).mp (sums.buckets i reaches wrapped)
  · have length := reaches.length (by omega)
    have inside := reaches.inside
    unfold sizeSum at length wrapped
    have keyStart : keyBytesStart (headerOf block) = 72 + (headerOf block).bucketCount * 48 + (headerOf block).columnSize :=
      u64_of_lt (by omega)
    have valueStart : valueBytesStart (headerOf block) =
        72 + (headerOf block).bucketCount * 48 + (headerOf block).columnSize + (headerOf block).keyBytesSize := by
      rw [valueBytesStart, keyStart, u64_of_lt (by omega)]
    have contained : TakesEntry (headerOf block) (keyBucketAt block i) → Contained (headerOf block) (keyBucketAt block i) :=
      fun takes => takes.2.contained (sums.ranges i reaches takes).1 (sums.ranges i reaches takes).2
    refine ⟨by omega, fun _ => by omega, fun _ _ => by omega, fun takes => Or.inr ?_, fun takes => Or.inr ?_⟩
    · have key := (contained takes).1
      rw [keyStart, u64_of_lt (by omega)]
      omega
    · have value := (contained takes).2
      rw [valueStart, u64_of_lt (by omega)]
      omega

/-- A decoding that reads inside the block ends at the first bucket whose range
check fails. -/
theorem Reaches.refuses {i : Nat} (reaches : Reaches H block column rowId i) (full : (keyBucketAt block i).state = kBucketFilled)
    (refused : ¬ RangesChecked (headerOf block) (keyBucketAt block i))
    (inside : run system (decodeRowBlockEntries H block column rowId) w ≠ .fault) :
    run system (decodeBuckets block (headerOf block) (keyBytesStart (headerOf block)) (valueBytesStart (headerOf block)) 1 i)
        w = .error (.corruption "row key bucket points outside block") w ∧
      run system (decodeRowBlockEntries H block column rowId) w =
        .error (.corruption "row key bucket points outside block") w := by
  have all := (decodeRowBlockEntries_inside_iff (w := w)).mp inside
  constructor
  · refine decodeBuckets_refuses (n := i + 1) 1 rfl (Nat.lt_succ_self i) (getsTo_self _ _ _) full refused ?_
    refine (decodeBuckets_inside_iff 1 rfl).mpr fun j upper gets => ?_
    obtain rfl : j = i := by have := gets.1; omega
    exact all.2 j reaches
  · rcases decodeRowBlockEntries_cases H block column rowId w with
      ⟨closed, _⟩ | ⟨_, _, fault⟩ | ⟨opened, ran⟩
    · exact absurd reaches.toOpened closed
    · exact absurd fault inside
    · have refuses := @decodeBuckets_refuses block (headerOf block) (keyBytesStart (headerOf block))
        (valueBytesStart (headerOf block)) w _ _ _ _ (Nat.zero_add _) reaches.inside reaches.gets full refused
        ((decodeBuckets_inside_iff _ (Nat.zero_add _)).mpr fun j upper gets => all.2 j ⟨opened, upper, gets⟩)
      rw [ran, refuses]
      rfl

theorem DecodesSafely.sumsFit (safe : DecodesSafely H block column rowId w) : SumsFit H block column rowId := by
  obtain ⟨_, _, keys, values⟩ := headerOf_bounds block
  obtain ⟨header, buckets⟩ := decodeRowBlockEntries_inside_iff.mp safe.inside
  refine ⟨fun i reaches takes => ?_, fun matching _ => ?_, fun i reaches _ => (reaches.bucketFits_iff i).mpr (buckets i reaches)⟩
  · have contained : Contained (headerOf block) (keyBucketAt block i) := by
      by_contra outside
      have refused := (safe.refuses i reaches takes.1 outside).1
      rcases @decodeBuckets_step block (headerOf block) w (keyBytesStart (headerOf block))
          (valueBytesStart (headerOf block)) 0 i with ⟨outside, _⟩ | ⟨_, _, add, ran⟩ | ⟨_, stops, _⟩
      · exact outside (buckets i reaches)
      · rw [ran] at refused
        cases refused
      · exact stops (Or.inr takes)
    have key := contained.1
    have value := contained.2
    omega
  · rw [matching.blockSize]
    exact header matching

theorem SumsFit.inside (sums : SumsFit H block column rowId) (w : World) :
    run system (decodeRowBlockEntries H block column rowId) w ≠ .fault := by
  refine decodeRowBlockEntries_inside_iff.mpr ⟨fun header => ?_, fun i reaches => sums.readsInside reaches⟩
  by_cases wrapped : 2 ^ 64 ≤ sizeSum (headerOf block)
  · have fits := sums.columnFits header wrapped
    rw [header.blockSize] at fits
    exact fits
  · have length := header.length (by omega)
    unfold sizeSum at length
    exact Or.inr (by omega)

/-- The decoding is safe exactly for the blocks whose sums fit. -/
theorem decodesSafely_iff (H : HashFunctions) (block column : Bytes) (rowId : Nat) (w : World) :
    DecodesSafely H block column rowId w ↔ SumsFit H block column rowId := by
  refine ⟨fun safe => safe.sumsFit, fun sums => ⟨sums.inside w, fun i reaches full outside => ?_,
    fun header i full outside x shards count bucket key keeps arrives =>
      findValueInRowBlockAt_refuses header keeps arrives full outside⟩⟩
  have refused : ¬ RangesChecked (headerOf block) (keyBucketAt block i) := by
    intro checked
    have fits := sums.ranges i reaches ⟨full, checked⟩
    exact outside (checked.contained fits.1 fits.2)
  exact reaches.refuses full refused (sums.inside w)

/-- A block with one key bucket, whose key starts 1000 bytes before the key
bytes: the sum of its offset and size wraps to zero. -/
def wrappedBlock : Bytes :=
  { columnHash := HashFunctions.shipped.hashString [0x63], rowId := 7, columnSize := 1, itemCount := 1, bucketCount := 1,
    blockSize := 121 : RowBlockHeader }.encode ++
    { state := kBucketFilled, keyOffset := 2 ^ 64 - 1000, keySize := 1000 : RowKeyBucket }.encode ++ [0x63]

set_option maxRecDepth 10000 in
theorem decode_reads_before_block : ¬ DecodesSafely .shipped wrappedBlock [0x63] 7 {} := by
  rintro ⟨inside, _⟩
  exact inside rfl

end Blocks

end LumoDB
