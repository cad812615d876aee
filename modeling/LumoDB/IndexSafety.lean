import LumoDB.IndexLayout
import LumoDB.ReadSteps
import LumoDB.RowLayout

namespace LumoDB
open ByteCodec Effects LinearProbing

/-- An operation accesses a mapped file below `size` only. -/
def Op.Inside (file : FileId) (size : Nat) : Op → Prop
  | .load other offset width => other = file → offset + width ≤ size
  | .loadBytes other offset count => other = file → offset + count ≤ size
  | .store other offset width _ => other = file → offset + width ≤ size
  | .storeBytes other offset data => other = file → offset + data.length ≤ size
  | .cas other offset width _ _ => other = file → offset + width ≤ size
  | .fetchAdd other offset width _ => other = file → offset + width ≤ size
  | _ => True

/-- The run accesses no byte of the mapped file behind its first `size`. -/
def StaysInside {α : Type} (file : FileId) (size : Nat) (p : Db α) (w : World) : Prop :=
  ∀ o, Performs system p w o → o.Inside file size

section Inside
variable {α β : Type} {file : FileId} {size : Nat} {w : World} {p : Db α} {f : α → Db β}

theorem StaysInside.of_only (only : p.Only (Op.Inside file size)) : StaysInside file size p w :=
  fun _ performed => only.performs performed

theorem StaysInside.bind (first : StaysInside file size p w)
    (rest : ∀ a w', Runs p w a w' → StaysInside file size (f a) w') : StaysInside file size (p.bind f) w := by
  intro o performed
  rcases performs_bind.mp performed with inside | ⟨a, w', done, later⟩
  · exact first o inside
  · exact rest a w' done o later

theorem StaysInside.ite {c : Prop} [Decidable c] {q : Db α} (yes : c → StaysInside file size p w)
    (no : ¬ c → StaysInside file size q w) : StaysInside file size (if c then p else q) w := by
  split
  · exact yes ‹_›
  · exact no ‹_›

/-- What follows a read starts where it started. -/
theorem StaysInside.bind_reads (first : StaysInside file size p w) (reads : p.Only Op.Reads)
    (rest : ∀ a, Runs p w a w → StaysInside file size (f a) w) : StaysInside file size (p.bind f) w := by
  refine first.bind fun a w' done => ?_
  have stays : w' = w := reads.preserves (R := fun s t => t = s) (fun _ => rfl)
    (fun _ _ _ one two => two.trans one) (fun _ _ _ _ read step => system_reads read step) (by rw [done]; rfl)
  subst stays
  exact rest a done

theorem inside_load {offset width : Nat} (inside : offset + width ≤ size) (other : FileId) :
    (load other offset width).Only (Op.Inside file size) :=
  ⟨fun _ => inside, fun _ => trivial⟩

theorem inside_loadBytes {offset count : Nat} (inside : offset + count ≤ size) (other : FileId) :
    (loadBytes other offset count).Only (Op.Inside file size) :=
  ⟨fun _ => inside, fun _ => trivial⟩

theorem inside_members : getMembers.Only (Op.Inside file size) := ⟨trivial, fun _ => trivial⟩

theorem inside_readAllAt (other : FileId) (offset count : Nat) :
    (readAllAt other offset count).Only (Op.Inside file size) :=
  ⟨trivial, fun answer => by cases answer <;> exact trivial⟩

/-- Reads of buckets below `n` stay inside an index of `n` buckets. -/
theorem inside_index {n : Nat} (inside : 64 + 16 * n ≤ size) (rowCount : Nat) :
    ReadsBuckets (fun _ p => p.Only (Op.Inside .index size)) n rowCount where
  toCompositional := compositional_only _
  members := inside_members
  loadValues _ _ := ⟨nofun, fun _ => trivial⟩
  readAllAt _ _ := inside_readAllAt _ _ _
  loadShard _ _ _ := ⟨nofun, fun _ => trivial⟩
  readShard _ _ _ := inside_readAllAt _ _ _
  load _ _ bound := inside_load (bound.trans inside) _
  loadBytes _ _ bound := inside_loadBytes (bound.trans inside) _
  loadRow _ _ _ := ⟨nofun, fun _ => trivial⟩

/-- Reads of buckets below `n` stay inside a row index of `n` buckets. -/
theorem inside_rowIndex {n : Nat} (inside : 64 + 64 * n ≤ size) (count : Nat) :
    ReadsBuckets (fun _ p => p.Only (Op.Inside .rowIndex size)) count n where
  toCompositional := compositional_only _
  members := inside_members
  loadValues _ _ := ⟨nofun, fun _ => trivial⟩
  readAllAt _ _ := inside_readAllAt _ _ _
  loadShard _ _ _ := ⟨nofun, fun _ => trivial⟩
  readShard _ _ _ := inside_readAllAt _ _ _
  load _ _ _ := ⟨nofun, fun _ => trivial⟩
  loadBytes _ _ _ := ⟨nofun, fun _ => trivial⟩
  loadRow _ _ bound := inside_load (bound.trans inside) _

end Inside

section Readers
variable {file : FileId} {size : Nat} {w : World} {retries : Nat} {H : HashFunctions}

/-- Below the bucket counts that the readers load from `w`, every bucket lies
in the first `size` bytes of the file. -/
structure Confined (file : FileId) (size : Nat) (w : World) : Prop where
  long : 64 ≤ size
  objects : ∀ n, Runs loadBucketCount w n w → ReadsBuckets (fun _ p => p.Only (Op.Inside file size)) n 0
  rows : ∀ n, Runs loadRowBucketCount w n w → ReadsBuckets (fun _ p => p.Only (Op.Inside file size)) 0 n

theorem inside_header (long : 64 ≤ size) (other : FileId) {offset : Nat} (inside : offset + 8 ≤ 64) :
    StaysInside file size (load other offset 8) w :=
  .of_only (inside_load (by omega) other)

theorem Confined.getColumnStats (confined : Confined file size w) : StaysInside file size (getColumnStats retries) w := by
  have long := confined.long
  refine .bind_reads (.of_only inside_members) reads_members fun m _ => .ite (fun _ => .of_only trivial) fun _ => ?_
  refine .bind_reads (inside_header long _ (by decide)) (reads_load _ _ _) fun n counted => ?_
  refine .bind_reads (.of_only ((confined.objects n counted).countObjects (Nat.zero_add n).le _))
    (reads_countObjects _ _) fun columns _ => ?_
  refine .bind_reads (inside_header long _ (by decide)) (reads_load _ _ _) fun rowCount counted => ?_
  exact .bind_reads (.of_only ((confined.rows rowCount counted).countRows (Nat.zero_add rowCount).le _))
    (reads_countRows _ _) fun columns _ => .of_only trivial

variable {columnFilter : Option Bytes} {deserialize : Option DumpDeserializer}

theorem inside_unfiltered {p : Db Nat} (only : p.Only (Op.Inside file size)) :
    (unfiltered columnFilter p).Only (Op.Inside file size) := by
  cases columnFilter with
  | none => exact .bind only fun _ => trivial
  | some column => exact trivial

theorem Confined.dumpInternal (confined : Confined file size w) :
    StaysInside file size (dumpInternal H retries columnFilter deserialize) w := by
  have long := confined.long
  have field : ∀ other offset, offset + 8 ≤ 64 → (load other offset 8).Only (Op.Inside file size) :=
    fun other offset inside => inside_load (by omega) other
  have counted : ∀ {other : FileId} {p : Db Nat}, p.Only (Op.Inside file size) →
      (do
        let m ← getMembers
        if (m.maps other).isNone then return 0 else p : Db Nat).Only (Op.Inside file size) :=
    fun only => .bind inside_members fun _ => .ite trivial only
  refine .bind_reads (.of_only inside_members) reads_members fun m _ => .ite (fun _ => .of_only trivial) fun _ => ?_
  refine .bind_reads (.of_only (inside_unfiltered (counted (field _ _ (by decide)))))
    (reads_unfiltered (reads_counted (reads_load _ _ _))) fun entries _ => ?_
  refine .bind_reads (.of_only (counted (field _ _ (by decide)))) (reads_counted (reads_load _ _ _)) fun buckets _ => ?_
  refine .bind_reads (.of_only (field _ _ (by decide))) (reads_load _ _ _) fun n loaded => ?_
  refine .bind_reads (.of_only ((confined.objects n loaded).dumpObjects (Nat.zero_add n).le))
    (reads_dumpObjects _) fun objectLines _ => ?_
  refine .bind_reads (.of_only (inside_unfiltered (counted (field _ _ (by decide)))))
    (reads_unfiltered (reads_counted (reads_load _ _ _))) fun rows _ => ?_
  refine .bind_reads (.of_only (counted (field _ _ (by decide)))) (reads_counted (reads_load _ _ _)) fun rowBuckets _ => ?_
  refine .bind_reads (.of_only (inside_unfiltered (field _ _ (by decide)))) (reads_unfiltered (reads_load _ _ _))
    fun nextSequence _ => ?_
  refine .bind_reads (.of_only (field _ _ (by decide))) (reads_load _ _ _) fun rowCount loaded => ?_
  refine .bind_reads (.of_only ((confined.rows rowCount loaded).dumpRows (Nat.zero_add rowCount).le))
    (reads_dumpRows _) fun rowLines _ => ?_
  exact .bind_reads confined.getColumnStats reads_getColumnStats fun stats _ => .of_only trivial

end Readers

section Object
variable {w : World} {b : Bytes}

/-- What the layout check of the index is for: it reads the file only, and in
a file it lets pass no reader finds a bucket behind its end. -/
structure ProtectsIndex (w : World) (b : Bytes) : Prop where
  check : StaysInside .index b.length (hasValidIndexLayout b.length) w
  buckets : Runs (hasValidIndexLayout b.length) w true w → ∀ i < natAt b 16 8, indexBucketOffset i + 16 ≤ b.length
  lookups : Runs (hasValidIndexLayout b.length) w true w → ∀ H column key columnHash keyHash,
    StaysInside .index b.length (findBucket H column key columnHash keyHash) w
  stats : Runs (hasValidIndexLayout b.length) w true w → ∀ retries, StaysInside .index b.length (getColumnStats retries) w
  dumps : Runs (hasValidIndexLayout b.length) w true w → ∀ H retries columnFilter deserialize,
    StaysInside .index b.length (dumpInternal H retries columnFilter deserialize) w

theorem LayoutHeader.length (header : LayoutHeader b) (bounded : natAt b 16 8 < 2 ^ 60) :
    b.length = 64 + 16 * natAt b 16 8 ∧ 0 < natAt b 16 8 := by
  obtain ⟨_, _, _, _, ⟨e, power⟩, size, _⟩ := header
  have few : e < 60 := (Nat.pow_lt_pow_iff_right (by decide)).mp (power ▸ bounded)
  have bound : 2 ^ e ≤ 2 ^ 59 := Nat.pow_le_pow_right (by decide) (by omega)
  rw [u64_of_lt (by omega)] at size
  exact ⟨by omega, power ▸ Nat.two_pow_pos e⟩

theorem countFilled_inside {n : Nat} (reads : ReadsBuckets (fun _ p => p.Only (Op.Inside .index b.length)) n 0)
    {rounds i : Nat} (inside : i + rounds ≤ n) : (countFilled rounds i).Only (Op.Inside .index b.length) := by
  induction rounds generalizing i with
  | zero => exact trivial
  | succ rounds ih =>
    exact .bind (reads.load _ _ (by unfold indexBucketOffset; omega)) fun _ => .bind (ih (by omega)) fun _ => trivial

theorem hasValidIndexLayout_inside (sees : w.Sees .index b) (bounded : LayoutHeader b → natAt b 16 8 < 2 ^ 60) :
    StaysInside .index b.length (hasValidIndexLayout b.length) w := by
  by_cases long : 64 ≤ b.length
  · obtain ⟨rest, program, passes, fails⟩ := hasValidIndexLayout_eq long
    rw [program]
    refine .bind_reads (.of_only (inside_loadBytes (by omega) _)) ⟨trivial, fun _ => trivial⟩ fun front loaded => ?_
    obtain ⟨rfl, _⟩ := Runs.unique loaded (sees.loadBytes_runs (by omega))
    by_cases header : LayoutHeader b
    · rw [passes header]
      have whole := (header.length (bounded header)).1
      exact .of_only (.bind (countFilled_inside (inside_index (by omega) 0) (Nat.zero_add _).le) fun _ => trivial)
    · rw [fails header]
      exact .of_only trivial
  · unfold hasValidIndexLayout
    rw [if_pos (by omega)]
    exact .of_only trivial

theorem hasValidIndexLayout_outside (sees : w.Sees .index b) (header : LayoutHeader b) (wrapped : 2 ^ 60 ≤ natAt b 16 8) :
    ¬ StaysInside .index b.length (hasValidIndexLayout b.length) w := by
  intro stays
  have exceeds : Overreads b := by
    refine ⟨header, fun whole => ?_⟩
    obtain ⟨_, _, _, _, _, size, _⟩ := header
    have := u64_lt (64 + natAt b 16 8 * 16)
    omega
  obtain ⟨short, positive⟩ := exceeds.length_eq
  obtain ⟨rest, program, passes, _⟩ := hasValidIndexLayout_eq header.1
  obtain ⟨rounds, more⟩ := Nat.exists_eq_succ_of_ne_zero (Nat.ne_of_gt positive)
  have performed : Performs system (hasValidIndexLayout b.length) w (.load .index (indexBucketOffset 0) 8) := by
    rw [program, performs_bind]
    refine Or.inr ⟨_, _, sees.loadBytes_runs (by omega), ?_⟩
    rw [passes header, performs_bind, more, countFilled, Prog.bind_eq, performs_bind]
    exact Or.inl (Or.inl (Or.inl rfl))
  have inside : indexBucketOffset 0 + 8 ≤ b.length := stays _ performed rfl
  rw [short, indexBucketOffset] at inside
  omega

theorem protectsIndex_iff (sees : w.Sees .index b) :
    ProtectsIndex w b ↔ (LayoutHeader b → natAt b 16 8 < 2 ^ 60) := by
  constructor
  · intro protects header
    by_contra wrapped
    exact hasValidIndexLayout_outside sees header (by omega) protects.check
  · intro bounded
    have sizes : Runs (hasValidIndexLayout b.length) w true w → b.length = 64 + 16 * natAt b 16 8 ∧ 0 < natAt b 16 8 := by
      intro valid
      by_cases header : LayoutHeader b
      · exact header.length (bounded header)
      · have rejected := Runs.unique valid (hasValidIndexLayout_header_rejects sees header)
        simp at rejected
    have count : b.length = 64 + 16 * natAt b 16 8 → ∀ n, Runs loadBucketCount w n w → n = natAt b 16 8 :=
      fun whole n loaded => (Runs.unique loaded (sees.load_runs (by omega))).1
    have confined : Runs (hasValidIndexLayout b.length) w true w → Confined .index b.length w := by
      intro valid
      have whole := (sizes valid).1
      refine ⟨by omega, fun n loaded => ?_, fun n _ => inside_index (by omega) n⟩
      rw [count whole n loaded]
      exact inside_index (by omega) 0
    refine ⟨hasValidIndexLayout_inside sees bounded, fun valid i inside => ?_, fun valid H column key columnHash keyHash => ?_,
      fun valid retries => (confined valid).getColumnStats, fun valid H retries columnFilter deserialize =>
      (confined valid).dumpInternal⟩
    · have whole := (sizes valid).1
      unfold indexBucketOffset
      omega
    · obtain ⟨whole, positive⟩ := sizes valid
      refine .bind_reads (.of_only (inside_load (by omega) _)) (reads_load _ _ _) fun n loaded => ?_
      have same := count whole n loaded
      subst same
      have bound := natAt_lt b 16 8
      refine .of_only ((inside_index (by omega) 0).findBucketLoop (n := natAt b 16 8) ?_ _ _ _ _ _)
      unfold u64
      omega

end Object

section Row
variable {w : World} {b : Bytes}

/-- What the layout check of the row index is for. -/
structure ProtectsRowIndex (w : World) (b : Bytes) : Prop where
  check : StaysInside .rowIndex b.length (hasValidRowIndexLayout b.length) w
  buckets : Runs (hasValidRowIndexLayout b.length) w true w → ∀ i < natAt b 16 8, rowBucketOffset i + 64 ≤ b.length
  lookups : Runs (hasValidRowIndexLayout b.length) w true w → ∀ H column rowId columnHash retries,
    StaysInside .rowIndex b.length (findRowBucket H column rowId columnHash retries) w
  stats : Runs (hasValidRowIndexLayout b.length) w true w → ∀ retries,
    StaysInside .rowIndex b.length (getColumnStats retries) w
  dumps : Runs (hasValidRowIndexLayout b.length) w true w → ∀ H retries columnFilter deserialize,
    StaysInside .rowIndex b.length (dumpInternal H retries columnFilter deserialize) w

theorem RowLayoutHeader.length {shardCount : Nat} (header : RowLayoutHeader b shardCount)
    (bounded : natAt b 16 8 < 2 ^ 58) : b.length = 64 + 64 * natAt b 16 8 ∧ 0 < natAt b 16 8 := by
  obtain ⟨_, _, _, _, _, ⟨e, power⟩, size, _⟩ := header
  have few : e < 58 := (Nat.pow_lt_pow_iff_right (by decide)).mp (power ▸ bounded)
  have bound : 2 ^ e ≤ 2 ^ 57 := Nat.pow_le_pow_right (by decide) (by omega)
  rw [u64_of_lt (by omega)] at size
  exact ⟨by omega, power ▸ Nat.two_pow_pos e⟩

theorem countRowFilled_inside {n : Nat} (reads : ReadsBuckets (fun _ p => p.Only (Op.Inside .rowIndex b.length)) 0 n)
    {rounds i : Nat} (inside : i + rounds ≤ n) : (countRowFilled rounds i).Only (Op.Inside .rowIndex b.length) := by
  induction rounds generalizing i with
  | zero => exact trivial
  | succ rounds ih =>
    exact .bind (reads.loadRow _ _ (by unfold rowBucketOffset; omega)) fun _ => .ite trivial
      (.bind (ih (by omega)) fun _ => trivial)

theorem hasValidRowIndexLayout_inside (sees : w.Sees .rowIndex b)
    (bounded : RowLayoutHeader b w.members.options.rowShardCount → natAt b 16 8 < 2 ^ 58) :
    StaysInside .rowIndex b.length (hasValidRowIndexLayout b.length) w := by
  by_cases long : 64 ≤ b.length
  · obtain ⟨rest, program, answers⟩ := hasValidRowIndexLayout_eq long
    rw [program]
    refine .bind_reads (.of_only inside_members) reads_members fun m held => ?_
    obtain ⟨rfl, _⟩ := Runs.unique held (getMembers_runs w)
    refine .bind_reads (.of_only (inside_loadBytes (by omega) _)) ⟨trivial, fun _ => trivial⟩ fun front loaded => ?_
    obtain ⟨rfl, _⟩ := Runs.unique loaded (sees.loadBytes_runs (by omega))
    by_cases header : RowLayoutHeader b w.members.options.rowShardCount
    · rw [(answers _).1 header]
      have whole := (header.length (bounded header)).1
      exact .of_only (.bind (countRowFilled_inside (inside_rowIndex (by omega) 0) (Nat.zero_add _).le) fun _ => trivial)
    · rw [(answers _).2 header]
      exact .of_only trivial
  · unfold hasValidRowIndexLayout
    refine .bind_reads (.of_only inside_members) reads_members fun m _ => ?_
    rw [if_pos (by omega)]
    exact .of_only trivial

theorem hasValidRowIndexLayout_outside (sees : w.Sees .rowIndex b)
    (header : RowLayoutHeader b w.members.options.rowShardCount) (wrapped : 2 ^ 58 ≤ natAt b 16 8) :
    ¬ StaysInside .rowIndex b.length (hasValidRowIndexLayout b.length) w := by
  intro stays
  have exceeds : RowOverreads b w.members.options.rowShardCount := by
    refine ⟨header, fun whole => ?_⟩
    obtain ⟨_, _, _, _, _, _, size, _⟩ := header
    have := u64_lt (64 + natAt b 16 8 * 64)
    omega
  obtain ⟨short, positive⟩ := exceeds.length_eq
  obtain ⟨rest, program, answers⟩ := hasValidRowIndexLayout_eq header.1
  obtain ⟨rounds, more⟩ := Nat.exists_eq_succ_of_ne_zero (Nat.ne_of_gt positive)
  have performed : Performs system (hasValidRowIndexLayout b.length) w (.load .rowIndex (rowBucketOffset 0) 4) := by
    rw [program, performs_bind]
    refine Or.inr ⟨_, _, getMembers_runs w, performs_bind.mpr (Or.inr ⟨_, _, sees.loadBytes_runs (by omega), ?_⟩)⟩
    rw [(answers _).1 header, performs_bind, more, countRowFilled, Prog.bind_eq, performs_bind]
    exact Or.inl (Or.inl (Or.inl rfl))
  have inside : rowBucketOffset 0 + 4 ≤ b.length := stays _ performed rfl
  rw [short, rowBucketOffset] at inside
  omega

theorem protectsRowIndex_iff (sees : w.Sees .rowIndex b) :
    ProtectsRowIndex w b ↔ (RowLayoutHeader b w.members.options.rowShardCount → natAt b 16 8 < 2 ^ 58) := by
  constructor
  · intro protects header
    by_contra wrapped
    exact hasValidRowIndexLayout_outside sees header (by omega) protects.check
  · intro bounded
    have sizes : Runs (hasValidRowIndexLayout b.length) w true w → b.length = 64 + 64 * natAt b 16 8 ∧ 0 < natAt b 16 8 := by
      intro valid
      by_cases header : RowLayoutHeader b w.members.options.rowShardCount
      · exact header.length (bounded header)
      · have rejected := Runs.unique valid (hasValidRowIndexLayout_header_rejects sees header)
        simp at rejected
    have count : b.length = 64 + 64 * natAt b 16 8 → ∀ n, Runs loadRowBucketCount w n w → n = natAt b 16 8 :=
      fun whole n loaded => (Runs.unique loaded (sees.load_runs (by omega))).1
    have confined : Runs (hasValidRowIndexLayout b.length) w true w → Confined .rowIndex b.length w := by
      intro valid
      have whole := (sizes valid).1
      refine ⟨by omega, fun n _ => inside_rowIndex (by omega) n, fun n loaded => ?_⟩
      rw [count whole n loaded]
      exact inside_rowIndex (by omega) 0
    refine ⟨hasValidRowIndexLayout_inside sees bounded, fun valid i inside => ?_,
      fun valid H column rowId columnHash retries => ?_, fun valid retries => (confined valid).getColumnStats,
      fun valid H retries columnFilter deserialize => (confined valid).dumpInternal⟩
    · have whole := (sizes valid).1
      unfold rowBucketOffset
      omega
    · obtain ⟨whole, positive⟩ := sizes valid
      refine .bind_reads (.of_only (inside_load (by omega) _)) (reads_load _ _ _) fun n loaded => ?_
      have same := count whole n loaded
      subst same
      have bound := natAt_lt b 16 8
      refine .of_only ((inside_rowIndex (by omega) 0 : ReadsBuckets _ 0 (natAt b 16 8)).findRowLoop ?_ _ _ _ _)
      unfold u64
      omega

end Row

section Both
variable {w : World} {b rows : Bytes}

/-- Both checks protect their files unless a header passes them with a bucket
count whose file size wraps. -/
theorem layouts_protect_iff (index : w.Sees .index b) (rowIndex : w.Sees .rowIndex rows) :
    (ProtectsIndex w b ∧ ProtectsRowIndex w rows) ↔ (LayoutHeader b → natAt b 16 8 < 2 ^ 60) ∧
      (RowLayoutHeader rows w.members.options.rowShardCount → natAt rows 16 8 < 2 ^ 58) :=
  and_congr (protectsIndex_iff index) (protectsRowIndex_iff rowIndex)

/-- An index of one bucket and a row index of one bucket, both empty. -/
def emptyIndexes : World :=
  (({} : World).withMapped .index ({ bucketCount := 1 : IndexFileHeader }.encode ++ List.replicate 16 0)).withMapped .rowIndex
    ({ bucketCount := 1, shardCount := 8 : RowIndexFileHeader }.encode ++ List.replicate 64 0)

theorem layouts_protect_sample :
    ProtectsIndex emptyIndexes ({ bucketCount := 1 : IndexFileHeader }.encode ++ List.replicate 16 0) ∧
      ProtectsRowIndex emptyIndexes
        ({ bucketCount := 1, shardCount := 8 : RowIndexFileHeader }.encode ++ List.replicate 64 0) :=
  (layouts_protect_iff (@World.sees_of_map _ _ _ true (by decide) (by decide))
    (@World.sees_of_map _ _ _ true (by decide) (by decide))).mpr ⟨fun _ => by decide, fun _ => by decide⟩

/-- The header of an index with `2 ^ 60` buckets, whose size wraps to that of
the header. -/
def wrappedHeader : Bytes := { bucketCount := 2 ^ 60 : IndexFileHeader }.encode

theorem layout_check_overreads :
    ¬ ∀ w b, w.Sees .index b → ProtectsIndex w b := by
  intro protects
  have header : LayoutHeader wrappedHeader :=
    ⟨by decide, by decide, by decide, by decide, ⟨60, by decide⟩, by decide, by decide⟩
  have bound := (protectsIndex_iff (World.sees_withMapped {} .index wrappedHeader)).mp
    (protects _ _ (World.sees_withMapped {} .index wrappedHeader)) header
  revert bound
  decide

end Both

end LumoDB
