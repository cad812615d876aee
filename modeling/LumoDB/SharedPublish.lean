import LumoDB.SharedWrites

namespace LumoDB
open ByteCodec Effects LinearProbing

namespace Round
variable {ι : Type} [DecidableEq ι] {R : Round ι} {i : ι} {x y : Shared ι} {failed : Status → Shared ι → Prop}
  {p : Progress} {e : Option RowEntry} {j t : Nat} {r : RowRecord} {ref : BlockRef} {present : Bool}

section Rebucket

/-- `x` after a change of the bucket `j`, which is or becomes that of the row of
the call `i`. -/
def rebucket (R : Round ι) (x : Shared ι) (i : ι) (j : Nat) (bytes : Bytes) (e : Option RowEntry) (p : Progress) : Shared ι :=
  { withIndex x bytes with
    slot := Function.update x.slot j (some (R.row i))
    entry := Function.update x.entry (R.row i) e
    progress := Function.update x.progress i p }

/-- The parts of a call's progress that a change of its bucket leaves. -/
structure SameWrite (p q : Progress) : Prop where
  pending : q.pending = p.pending
  place : q.place = p.place
  written : q.written = p.written

theorem progress_update {β : Type} (f : Progress → β) (own : f p = f (x.progress i)) (l : ι) :
    f (Function.update x.progress i p l) = f (x.progress l) := by
  by_cases mine : l = i
  · rw [mine, Function.update_self, own]
  · rw [Function.update_of_ne mine]

theorem uncounted_rebucket {bytes : Bytes} (writer : i ∈ R.writers) (before : present = false → (x.progress i).uncounted = false)
    (counted : p.uncounted = ((x.progress i).uncounted || !present)) :
    R.uncounted (R.rebucket x i j bytes e p) = R.uncounted x + if present then 0 else 1 := by
  cases present with
  | true =>
    refine filter_congr fun l => ?_
    by_cases mine : l = i
    · simp [rebucket, mine, counted]
    · simp [rebucket, mine]
  | false =>
    refine card_mark writer (fun l other => ?_) (before rfl) ?_
    · simp [rebucket, other]
    · simp [rebucket, counted]

theorem Holds.rebucket {bytes : Bytes} {bucket : RowIndexBucket} (holds : R.Holds x) (writer : i ∈ R.writers)
    (set : RowBucketSet x.bytes j bucket bytes) (looked : Lookup R.n (rowHome R.H) x.slot (R.row i) j present)
    (same : SameWrite (x.progress i) p) (bucketed : R.Bucketed i (R.rebucket x i j bytes e p) j bucket)
    (before : present = false → (x.progress i).uncounted = false)
    (counted : p.uncounted = ((x.progress i).uncounted || !present))
    (own : (e = none ∧ p.published = false) ∨ (p.published = true ∧ p.written = true ∧ ∃ t r, p.place = some t ∧
      x.added[t]? = some r ∧ e = some ⟨R.refAt x.added t r, R.content i, r.block⟩)) :
    R.Holds (R.rebucket x i j bytes e p) where
  session := holds.session.setIndex rfl set.length rfl (progress_update Progress.pending same.pending)
  indexed := holds.indexed.repoint holds.table writer set looked rfl (fun k other => Function.update_of_ne other _ _)
    (fun l other => Function.update_of_ne other _ _) bucketed (uncounted_rebucket writer before counted)
  blocks := by
    refine holds.blocks.repoint writer rfl rfl rfl (fun k other => Function.update_of_ne other _ _)
      (fun l other => Function.update_of_ne other _ _) ?_ ?_ ?_
    · simp only [Round.rebucket, Function.update_self, same.place]
    · simp only [Round.rebucket, Function.update_self, same.written]
    · simp only [Round.rebucket, Function.update_self]
      exact own

theorem Moves.rebucket {bytes : Bytes} (holds : R.Holds x) (after : R.Holds (R.rebucket x i j bytes e p)) (writer : i ∈ R.writers)
    (free : x.slot j = none ∨ x.slot j = some (R.row i)) (unpublished : (x.progress i).published = false) :
    R.Moves (· = i) x (R.rebucket x i j bytes e p) where
  holds _ := after
  step := RowStep.setRowIndex _ _
  kept l k at_l := by
    by_cases here : l = j
    · rw [here] at at_l ⊢
      rcases free with vacant | own
      · cases vacant.symm.trans at_l
      · cases Option.some.inj (own.symm.trans at_l)
        simp only [Round.rebucket, Function.update_self]
    · simp only [Round.rebucket, Function.update_of_ne here]
      exact at_l
  claimed l k at_l := by
    by_cases here : l = j
    · simp only [Round.rebucket, here, Function.update_self] at at_l
      exact Or.inr ⟨i, rfl, writer, Option.some.inj at_l⟩
    · simp only [Round.rebucket, Function.update_of_ne here] at at_l
      exact Or.inl at_l
  entry k others := by
    have other : k ≠ R.row i := fun same => others i rfl writer same.symm
    simp only [Round.rebucket, Function.update_of_ne other]
  final k en at_k fresh := by
    have other : k ≠ R.row i := by
      rintro rfl
      cases fresh.symm.trans (holds.stored_before writer unpublished at_k)
    simp only [Round.rebucket, Function.update_of_ne other]
    exact at_k
  added := List.prefix_refl _
  progress l other := by simp only [Round.rebucket, Function.update_of_ne other]

theorem At.rebucket {bytes : Bytes} (after : R.Holds (R.rebucket x i j bytes e p)) :
    R.At i p e (R.rebucket x i j bytes e p) where
  holds := after
  progress := by simp only [Round.rebucket, Function.update_self]
  entry := by simp only [Round.rebucket, Function.update_self]

end Rebucket

section Stores

/-- Claiming a bucket fails, or the bucket is the call's until it publishes its
block. -/
theorem safe_claim {expected : Nat} (at_x : R.At i p e x) (writer : i ∈ R.writers) (unpublished : p.published = false)
    (counted : p.uncounted = false) (inside : j < R.n)
    (looked : ∀ y, R.Moves (· ≠ i) x y → R.At i p e y → (rowBucketAt y.bytes j).state = expected →
      Lookup R.n (rowHome R.H) y.slot (R.row i) j present) :
    R.SafeFor i (fun claimed y => if claimed then
        ∃ bucket, R.At i { p with claim := some (j, bucket), uncounted := !present } none y
      else R.At i p e y) failed (casRowBucketState j expected kRowBucketWriting) x := by
  refine safe_perform fun y moves _ => ?_
  have at_y := at_x.later writer moves
  have within := at_y.holds.bucket_inside inside
  obtain ⟨items, file, _⟩ := at_y.holds.indexed.file
  simp only [arena, system, at_y.holds.mapped (show rowBucketOffset j + 4 ≤ 64 + 64 * R.n by omega), at_y.holds.index_writable]
  by_cases same : natAt y.bytes (rowBucketOffset j) 4 = expected
  · have looked_y := looked y moves at_y (by rw [rowBucketAt_eq]; exact same)
    have changed := rowBucketAt_store (j := j) .state (file.bucket_inside inside) (show kRowBucketWriting < 256 ^ 4 by decide)
    have replaced := @rowBucketSet_store y.bytes j 0 (leBytes 4 kRowBucketWriting) (file.bucket_inside inside)
      (by rw [leBytes_length]; decide)
    set bytes := patch y.bytes (rowBucketOffset j) (leBytes 4 kRowBucketWriting)
    set bucket := RowField.state.set kRowBucketWriting (rowBucketAt y.bytes j)
    have set : RowBucketSet y.bytes j bucket bytes := by
      rw [← changed]
      exact replaced
    have named : R.rows (R.row i) ≠ none → bucket.columnHash = R.H.hashString (R.row i).1 ∧ bucket.rowId = (R.row i).2 := by
      intro stored
      have kept := at_y.holds.indexed.kept _ ((R.stored _).mpr stored)
      have found := looked_y.found ((looked_y.stored_iff at_y.holds.indexed.arranged).mp kept)
      exact at_y.holds.keyed inside found (Or.inr stored)
    have after : R.Holds (R.rebucket y i j bytes none { p with claim := some (j, bucket), uncounted := !present }) := by
      refine at_y.holds.rebucket writer set looked_y ?_ (.claimed ?_ ?_ rfl named) (fun _ => ?_) ?_ (Or.inl ⟨rfl, unpublished⟩)
      · rw [at_y.progress]
        exact ⟨rfl, rfl, rfl⟩
      · simp only [rebucket, Function.update_self]
      · simp only [rebucket, Function.update_self]
      · rw [at_y.progress, counted]
      · rw [at_y.progress, counted, Bool.false_or]
    rw [if_pos same]
    exact ⟨true, R.rebucket y i j bytes none { p with claim := some (j, bucket), uncounted := !present }, rfl,
      Moves.rebucket at_y.holds after writer looked_y.free (by rw [at_y.progress, unpublished]), bucket, At.rebucket after⟩
  · rw [if_neg same]
    exact ⟨false, y, rfl, Moves.refl _ y, at_y⟩

omit [DecidableEq ι] in
/-- A claimed bucket is found where it was claimed. -/
theorem Holds.claimed_lookup {bucket : RowIndexBucket} (holds : R.Holds x) (claim : (x.progress i).claim = some (j, bucket)) :
    Lookup R.n (rowHome R.H) x.slot (R.row i) j true := by
  obtain ⟨_, inside, at_j, _⟩ := holds.indexed.claims i j bucket claim
  exact ⟨inside, fun _ => at_j, by simp⟩

/-- The store of one field of a claimed bucket. -/
theorem safe_storeField {bucket : RowIndexBucket} {value : Nat} (f : RowField) (other : (f.set value bucket).state = bucket.state)
    (at_x : R.At i p none x) (writer : i ∈ R.writers) (unpublished : p.published = false) (claim : p.claim = some (j, bucket))
    (fits : value < 256 ^ f.width)
    (named : bucket.columnHash = R.H.hashString (R.row i).1 ∧ bucket.rowId = (R.row i).2 →
      (f.set value bucket).columnHash = R.H.hashString (R.row i).1 ∧ (f.set value bucket).rowId = (R.row i).2) :
    R.SafeFor i (fun _ y => R.At i { p with claim := some (j, f.set value bucket) } none y) failed
      (store .rowIndex (rowBucketOffset j + f.offset) f.width value) x := by
  refine safe_perform fun y moves _ => ?_
  have at_y := at_x.later writer moves
  have claim_y : (y.progress i).claim = some (j, bucket) := by rw [at_y.progress, claim]
  obtain ⟨_, inside, at_j, _, bucket_eq, writing, known⟩ := at_y.holds.indexed.claims i j bucket claim_y
  have within := at_y.holds.bucket_inside inside
  have width := f.inside
  obtain ⟨items, file, _⟩ := at_y.holds.indexed.file
  have changed := rowBucketAt_store f (file.bucket_inside inside) fits
  rw [bucket_eq] at changed
  have set := @rowBucketSet_store y.bytes j f.offset (leBytes f.width value) (file.bucket_inside inside)
    (by rw [leBytes_length]; omega)
  rw [changed] at set
  simp only [arena, system, at_y.holds.mapped (show rowBucketOffset j + f.offset + f.width ≤ 64 + 64 * R.n by omega),
    at_y.holds.index_writable]
  set bytes := patch y.bytes (rowBucketOffset j + f.offset) (leBytes f.width value)
  have after : R.Holds (R.rebucket y i j bytes none { p with claim := some (j, f.set value bucket) }) := by
    refine at_y.holds.rebucket writer set (at_y.holds.claimed_lookup claim_y) ?_
      (.claimed ?_ ?_ (other.trans writing) fun stored => named (known stored)) (by simp) ?_ (Or.inl ⟨rfl, unpublished⟩)
    · rw [at_y.progress]
      exact ⟨rfl, rfl, rfl⟩
    · simp only [rebucket, Function.update_self]
    · simp only [rebucket, Function.update_self]
    · rw [at_y.progress, Bool.not_true, Bool.or_false]
  exact ⟨(), R.rebucket y i j bytes none { p with claim := some (j, f.set value bucket) }, rfl,
    Moves.rebucket at_y.holds after writer (Or.inr at_j) (by rw [at_y.progress, unpublished]), At.rebucket after⟩

/-- The store that makes a filled bucket visible. -/
theorem safe_publish {bucket : RowIndexBucket} (at_x : R.At i p none x) (writer : i ∈ R.writers)
    (unpublished : p.published = false) (claim : p.claim = some (j, bucket)) (written : p.written = true) (at_t : p.place = some t)
    (placed : R.PlacedAt t r ref x) (full : RowField.state.set kRowBucketFilled bucket = rowBucket R.H (R.row i) ref) :
    R.SafeFor i (fun _ y => R.At i { p with claim := none, published := true } (some ⟨ref, R.content i, r.block⟩) y) failed
      (storeRowBucketState j kRowBucketFilled) x := by
  refine safe_perform fun y moves _ => ?_
  have at_y := at_x.later writer moves
  have claim_y : (y.progress i).claim = some (j, bucket) := by rw [at_y.progress, claim]
  have placed_y := placed.later moves
  obtain ⟨_, inside, at_j, _, bucket_eq, _, _⟩ := at_y.holds.indexed.claims i j bucket claim_y
  have within := at_y.holds.bucket_inside inside
  obtain ⟨items, file, _⟩ := at_y.holds.indexed.file
  have changed := rowBucketAt_store (j := j) .state (file.bucket_inside inside) (show kRowBucketFilled < 256 ^ 4 by decide)
  rw [bucket_eq, full] at changed
  have set := @rowBucketSet_store y.bytes j 0 (leBytes 4 kRowBucketFilled) (file.bucket_inside inside)
    (by rw [leBytes_length]; decide)
  simp only [arena, system, at_y.holds.mapped (show rowBucketOffset j + 4 ≤ 64 + 64 * R.n by omega), at_y.holds.index_writable]
  set bytes := patch y.bytes (rowBucketOffset j) (leBytes 4 kRowBucketFilled)
  have set' : RowBucketSet y.bytes j (rowBucket R.H (R.row i) ref) bytes := by
    rw [← changed]
    exact set
  have after : R.Holds (R.rebucket y i j bytes (some ⟨ref, R.content i, r.block⟩) { p with claim := none, published := true }) := by
    refine at_y.holds.rebucket writer set' (at_y.holds.claimed_lookup claim_y) ?_ (.published (e := ⟨ref, R.content i, r.block⟩) ?_ rfl ?_) (by simp) ?_
      (Or.inr ⟨rfl, written, t, r, at_t, placed_y.at_t, by rw [placed_y.ref_eq]⟩)
    · rw [at_y.progress]
      exact ⟨rfl, rfl, rfl⟩
    · simp only [rebucket, Function.update_self]
    · simp only [rebucket, Function.update_self]
    · rw [at_y.progress, Bool.not_true, Bool.or_false]
  exact ⟨(), R.rebucket y i j bytes (some ⟨ref, R.content i, r.block⟩) { p with claim := none, published := true }, rfl,
    Moves.rebucket at_y.holds after writer (Or.inr at_j) (by rw [at_y.progress, unpublished]), At.rebucket after⟩

/-- The stores that fill a claimed bucket. -/
theorem safe_storeRowBucketData {bucket : RowIndexBucket} (at_x : R.At i p none x) (writer : i ∈ R.writers)
    (unpublished : p.published = false) (claim : p.claim = some (j, bucket)) (fits : (rowBucket R.H (R.row i) ref).Fits) :
    R.SafeFor i (fun _ y => R.At i { p with claim := some (j, { rowBucket R.H (R.row i) ref with state := bucket.state }) } none y)
      failed (storeRowBucketData j (rowData R.H (R.row i) ref)) x := by
  unfold storeRowBucketData
  simp only [Prog.bind_eq]
  refine Safe.bind (safe_storeField .shardId rfl at_x writer unpublished claim fits.shardId id) fun _ y₁ at₁ => ?_
  refine Safe.bind (safe_storeField .columnHash rfl at₁ writer unpublished rfl fits.columnHash fun known => ⟨rfl, known.2⟩)
    fun _ y₂ at₂ => ?_
  refine Safe.bind (safe_storeField .rowId rfl at₂ writer unpublished rfl fits.rowId fun known => ⟨known.1, rfl⟩)
    fun _ y₃ at₃ => ?_
  refine Safe.bind (safe_storeField .blockOffset rfl at₃ writer unpublished rfl fits.blockOffset id) fun _ y₄ at₄ => ?_
  refine Safe.bind (safe_storeField .blockSize rfl at₄ writer unpublished rfl fits.blockSize id) fun _ y₅ at₅ => ?_
  exact safe_storeField .sequence rfl at₅ writer unpublished rfl fits.sequence id

/-- A claimed bucket is filled and becomes visible with the new block. -/
theorem safe_fill {bucket : RowIndexBucket} (at_x : R.At i p none x) (writer : i ∈ R.writers) (unpublished : p.published = false)
    (claim : p.claim = some (j, bucket)) (written : p.written = true) (at_t : p.place = some t) (placed : R.PlacedAt t r ref x)
    (fits : (rowBucket R.H (R.row i) ref).Fits) :
    R.SafeFor i (fun _ y => R.At i { p with claim := none, published := true } (some ⟨ref, R.content i, r.block⟩) y) failed
      ((storeRowBucketData j (rowData R.H (R.row i) ref)).bind fun _ => storeRowBucketState j kRowBucketFilled) x := by
  have stored : R.SafeFor i _ failed _ x := safe_storeRowBucketData at_x writer unpublished claim fits
  refine Safe.bind (stored.stable (fun _ _ moves at_y => PlacedAt.later at_y moves) (fun _ _ moves at_y => PlacedAt.later at_y moves)
    placed) ?_
  rintro _ y ⟨at_y, placed_y⟩
  exact safe_publish (p := { p with claim := some (j, { rowBucket R.H (R.row i) ref with state := bucket.state }) }) at_y writer
    unpublished rfl written at_t placed_y rfl

end Stores

end Round

end LumoDB
