import LumoDB.SharedSteps

namespace LumoDB
open ByteCodec Effects LinearProbing

section Frames

theorem RowStep.setRowIndex (w : World) (b : Bytes) : RowStep w (w.setFile .rowIndex (some b)) := by
  constructor <;> simp [World.setFile]

theorem RowStep.setPending (w : World) (count : Nat) : RowStep w (w.setMembers (·.setPending count)) := by
  constructor <;> simp [World.setMembers, Members.setPending]

theorem RowStep.addAppendOffset (w : World) (shardId amount : Nat) :
    RowStep w (w.setMembers (·.addAppendOffset shardId amount)) := by
  constructor <;> simp [World.setMembers, Members.addAppendOffset, Members.setAppendOffset]

theorem RowStep.setShard {w : World} {shardId : Nat} (inside : shardId < w.members.options.rowShardCount) (b : Bytes) :
    RowStep w (w.setFile (.rowShard shardId) (some b)) := by
  have other : ∀ s, w.members.options.rowShardCount ≤ s → s ≠ shardId := fun s above => by omega
  constructor <;> simp +contextual [World.setFile, other]

end Frames

namespace Round
variable {ι : Type} {R : Round ι} {i : ι} {x y : Shared ι} {failed : Status → Shared ι → Prop}

section At

/-- The write `i` has come as far as `p` says, and its row has the published
block `e`. -/
structure At (R : Round ι) (i : ι) (p : Progress) (e : Option RowEntry) (x : Shared ι) : Prop where
  holds : R.Holds x
  progress : x.progress i = p
  entry : x.entry (R.row i) = e

variable {p : Progress} {e : Option RowEntry} {α β : Type}

/-- The others leave the progress and the row of a write alone. -/
theorem At.later (at_x : R.At i p e x) (writer : i ∈ R.writers) (moves : R.Moves (· ≠ i) x y) : R.At i p e y where
  holds := moves.holds at_x.holds
  progress := (moves.progress i (not_not.mpr rfl)).trans at_x.progress
  entry := (moves.entry _ fun j other owner same => other (R.distinct j owner i writer same)).trans at_x.entry

theorem SafeFor.keeping {q : Db α} {f : α → Db β} {done : β → Shared ι → Prop} {found : α → Shared ι → Prop}
    (at_x : R.At i p e x) (writer : i ∈ R.writers)
    (first : R.SafeFor i (fun a y => R.Moves (· ≠ i) x y ∧ found a y) failed q x)
    (rest : ∀ a y, R.Moves (· ≠ i) x y → R.At i p e y → found a y → R.SafeFor i done failed (f a) y) :
    R.SafeFor i done failed (q.bind f) x :=
  Safe.bind first fun a y ⟨moves, shown⟩ => rest a y moves (at_x.later writer moves) shown

/-- A row that no call is publishing and that has no published block has no
bucket. -/
theorem At.absent (at_x : R.At i p none x) (writer : i ∈ R.writers) (unclaimed : p.claim = none) :
    ¬ Stored R.n x.slot (R.row i) := by
  rintro ⟨j, inside, at_j⟩
  obtain ⟨l, owner, row, bucket, claim⟩ := at_x.holds.indexed.claimed j inside _ at_j at_x.entry
  have same := R.distinct l owner i writer row
  subst same
  rw [at_x.progress, unclaimed] at claim
  cases claim

theorem Holds.mapped (holds : R.Holds x) {offset size : Nat} (inside : offset + size ≤ 64 + 64 * R.n) :
    x.world.mapped .rowIndex offset size = some x.bytes := by
  obtain ⟨items, file, _⟩ := holds.indexed.file
  exact holds.sees offset size (by rw [file.length]; exact inside)

theorem Holds.index_writable (holds : R.Holds x) : x.world.writable .rowIndex = true := by
  simp only [World.writable, holds.session.mapped]

/-- A step that changes bytes of the row index keeps the session. -/
theorem Session.setIndex (session : R.Session x) (world : y.world = x.world.setFile .rowIndex (some y.bytes))
    (length : y.bytes.length = x.bytes.length) (shards : y.shards = x.shards)
    (pending : ∀ l, (y.progress l).pending = (x.progress l).pending) : R.Session y := by
  have maps : y.world.members = x.world.members := by rw [world]; rfl
  refine session.transfer (world ▸ RowStep.setRowIndex _ _) (by rw [maps]) (fun s => by rw [maps]) (fun s inside => ?_) ?_ ?_ ?_
  · rw [world, shards, ← session.content s inside]
    simp [World.setFile]
  · rw [world]
    simp [World.setFile]
  · rw [maps, length]
    exact session.mapped
  · rw [maps, session.pending]
    simp only [pending]

theorem writers_card_lt (holds : R.Holds x) : R.writers.card < 2 ^ 57 := by
  obtain ⟨items, file, _⟩ := holds.indexed.file
  have count := file.count_lt
  have room := R.room
  omega

/-- The number of reservations that are held. -/
def reservations (R : Round ι) (x : Shared ι) : Nat := (R.writers.filter fun l => (x.progress l).pending).card

theorem reservations_le (x : Shared ι) : R.reservations x ≤ R.writers.card := Finset.card_filter_le _ _

theorem pending_false_eq (free : p.pending = false) : { p with pending := false } = p := by
  cases p
  cases free
  rfl

/-- Before a write publishes its block, its row has the block it had before. -/
theorem Holds.stored_before {en : RowEntry} (holds : R.Holds x) (writer : i ∈ R.writers)
    (unpublished : (x.progress i).published = false) (at_k : x.entry (R.row i) = some en) :
    R.rows (R.row i) = some en.content := by
  rcases holds.blocks.entries _ en at_k with ⟨l, owner, row, published⟩ | based
  · have same := R.distinct l owner i writer row
    subst same
    cases unpublished.symm.trans published
  · exact based.1

theorem At.reservations_lt (at_x : R.At i p e x) (writer : i ∈ R.writers) (free : p.pending = false) :
    R.reservations x < R.writers.card := by
  refine Finset.card_lt_card (Finset.filter_ssubset.mpr ⟨i, writer, ?_⟩)
  rw [at_x.progress, free]
  decide

/-- The load of the row index has no room for the rows and all but one of twice
the writes: a write that is counted and still holds its reservation is counted
twice. -/
def Crowded (R : Round ι) : Prop := R.options.maxLoadFactor * R.n + 1 < (filled R.n R.slot + 2 * R.writers.card : Nat)

/-- A call that is refused a reservation has seen no more than these. -/
theorem crowded_of_refused {items pending : Nat} (refused : R.options.maxLoadFactor * R.n < u64 (items + pending + 1))
    (counted : items < filled R.n R.slot + R.writers.card) (reserved : pending < R.writers.card) : R.Crowded := by
  have seen : u64 (items + pending + 1) + 1 ≤ filled R.n R.slot + 2 * R.writers.card := by
    have wrapped := Nat.mod_le (items + pending + 1) (2 ^ 64)
    unfold u64
    omega
  calc R.options.maxLoadFactor * R.n + 1 < (u64 (items + pending + 1) : ℚ) + 1 := by gcongr
    _ ≤ (filled R.n R.slot + 2 * R.writers.card : Nat) := by exact_mod_cast seen

end At

section Reservation
variable [DecidableEq ι] {p : Progress} {e : Option RowEntry}

/-- `x` after the call `i` has made a reservation or has released it. -/
def reserve (R : Round ι) (x : Shared ι) (i : ι) (pending : Bool) : Shared ι :=
  let progress := Function.update x.progress i { x.progress i with pending := pending }
  { x with
    world := x.world.setMembers (·.setPending (R.reservations { x with progress := progress }))
    progress := progress }

theorem reserve_progress (x : Shared ι) (pending : Bool) {β : Type} (f : Progress → β)
    (same : ∀ p : Progress, f { p with pending := pending } = f p) (l : ι) :
    f ((R.reserve x i pending).progress l) = f (x.progress l) := by
  unfold reserve
  by_cases mine : l = i
  · simp only [mine, Function.update_self, same]
  · simp only [Function.update_of_ne mine]

theorem Holds.reserve (holds : R.Holds x) (i : ι) (pending : Bool) : R.Holds (R.reserve x i pending) where
  session := holds.session.transfer (RowStep.setPending _ _) rfl (fun _ => rfl) holds.session.content holds.session.index
    holds.session.mapped rfl
  indexed := by
    have counted : R.uncounted (R.reserve x i pending) = R.uncounted x :=
      filter_congr (reserve_progress x pending Progress.uncounted fun _ => rfl)
    obtain ⟨items, file, sum⟩ := holds.indexed.file
    exact holds.indexed.transfer ⟨items, file, by rw [counted]; exact sum⟩ (fun _ => rfl) rfl rfl
      (reserve_progress x pending Progress.claim fun _ => rfl)
  blocks := holds.blocks.transfer rfl rfl rfl rfl (reserve_progress x pending Progress.place fun _ => rfl)
    (reserve_progress x pending Progress.written fun _ => rfl) (reserve_progress x pending Progress.published fun _ => rfl)

theorem Holds.moves_reserve (holds : R.Holds x) (i : ι) (pending : Bool) : R.Moves (· = i) x (R.reserve x i pending) :=
  Moves.quiet (holds.reserve i pending) (RowStep.setPending _ _) rfl rfl (List.prefix_refl _) fun l other => by
    simp only [Round.reserve, Function.update_of_ne other]

theorem At.reserve (at_x : R.At i p e x) (pending : Bool) : R.At i { p with pending := pending } e (R.reserve x i pending) where
  holds := at_x.holds.reserve i pending
  progress := by simp only [Round.reserve, Function.update_self, at_x.progress]
  entry := at_x.entry

theorem safe_casPending (at_x : R.At i p e x) (writer : i ∈ R.writers) (free : p.pending = false) (expected : Nat) :
    R.SafeFor i (fun exchanged y => R.At i { p with pending := exchanged } e y) failed
      (casPending expected (u64 (expected + 1))) x := by
  refine safe_perform fun y moves _ => ?_
  have at_y := at_x.later writer moves
  simp only [arena, system]
  by_cases same : y.world.members.rowPendingInsertCount = expected
  · have before : (y.progress i).pending = false := by rw [at_y.progress, free]
    have more : R.reservations (R.reserve y i true) = R.reservations y + 1 :=
      card_mark writer (fun l other => by simp only [Round.reserve, Function.update_of_ne other]) before
        (by simp only [Round.reserve, Function.update_self])
    have held : R.reservations y = expected := at_y.holds.session.pending.symm.trans same
    have bound := writers_card_lt at_y.holds
    have few := reservations_le (R := R) y
    have exact : u64 (u64 (expected + 1)) = R.reservations (R.reserve y i true) := by
      rw [more, held, u64_of_lt (show expected + 1 < 2 ^ 64 by omega), u64_of_lt (by omega)]
    rw [if_pos same, exact]
    exact ⟨true, _, rfl, at_y.holds.moves_reserve i true, at_y.reserve true⟩
  · rw [if_neg same]
    refine ⟨false, y, rfl, Moves.refl _ y, ?_⟩
    rwa [pending_false_eq free]

theorem safe_release (at_x : R.At i p e x) (writer : i ∈ R.writers) (held : p.pending = true) :
    R.SafeFor i (fun _ y => R.At i { p with pending := false } e y) failed releaseRowIndexInsertSlot x := by
  refine safe_perform fun y moves _ => ?_
  have at_y := at_x.later writer moves
  have before : (y.progress i).pending = true := by rw [at_y.progress, held]
  have fewer : R.reservations y = R.reservations (R.reserve y i false) + 1 :=
    card_mark writer (fun l other => by simp only [Round.reserve, Function.update_of_ne other])
      (by simp only [Round.reserve, Function.update_self]) before
  have bound := writers_card_lt at_y.holds
  have few := reservations_le (R := R) y
  have exact : u64 (y.world.members.rowPendingInsertCount + 2 ^ 64 - 1) = R.reservations (R.reserve y i false) := by
    rw [at_y.holds.session.pending, show (R.writers.filter fun l => (y.progress l).pending).card = R.reservations y from rfl, fewer,
      show R.reservations (R.reserve y i false) + 1 + 2 ^ 64 - 1 = R.reservations (R.reserve y i false) + 2 ^ 64 by omega]
    unfold u64
    rw [Nat.add_mod_right, Nat.mod_eq_of_lt (by omega)]
  simp only [arena, system, exact]
  exact ⟨(), _, rfl, at_y.holds.moves_reserve i false, at_y.reserve false⟩

/-- The release of a reservation, if the call has made one. -/
theorem safe_releaseIf (at_x : R.At i p e x) (writer : i ∈ R.writers) :
    R.SafeFor i (fun _ y => R.At i { p with pending := false } e y) failed (releaseIf p.pending) x := by
  cases held : p.pending with
  | true => exact safe_release at_x writer held
  | false =>
    rw [pending_false_eq held]
    exact at_x

/-- A call that has just begun has no bucket for a new row. -/
theorem At.filled_lt (at_x : R.At i {} e x) (writer : i ∈ R.writers) :
    filled R.n x.slot < filled R.n R.slot + R.writers.card := by
  have bound := at_x.holds.filled_le_of_known ((R.writers.erase i).image R.row) fun k stored => by
    rw [Finset.mem_image]
    rcases at_x.holds.indexed.known k stored with before | ⟨l, owner, row⟩
    · exact Or.inl before
    by_cases same : l = i
    · subst same
      cases e with
      | none => exact absurd (row ▸ stored) (at_x.absent writer rfl)
      | some en =>
        have content := at_x.holds.stored_before writer (by rw [at_x.progress]) at_x.entry
        have before := (R.stored (R.row l)).mpr (content.trans_ne (Option.some_ne_none _))
        exact Or.inl (row ▸ before)
    · exact Or.inr ⟨l, Finset.mem_erase.mpr ⟨same, owner⟩, row⟩
  have image := Finset.card_image_le (s := R.writers.erase i) (f := R.row)
  have others := Finset.card_erase_add_one writer
  omega

theorem safe_reserveLoop (at_x : R.At i {} e x) (writer : i ∈ R.writers) (retries : Nat) :
    R.SafeFor i (fun _ y => R.At i { pending := true } e y)
      (fun status y => (status = capacityExceeded ∧ R.Crowded) ∧ R.At i {} e y)
      (reserveLoop R.options.maxLoadFactor R.n retries) x := by
  induction retries generalizing x with
  | zero => exact trivial
  | succ retries ih =>
    rw [reserveLoop, Prog.bind_eq]
    refine SafeFor.keeping at_x writer (safe_load at_x.holds (by omega)) fun items y _ at_y loaded => ?_
    have counted : items < filled R.n R.slot + R.writers.card := by
      obtain ⟨count, file, sum⟩ := at_y.holds.indexed.file
      have fewer := at_y.filled_lt writer
      rw [file.itemCount] at loaded
      omega
    rw [Prog.bind_eq]
    refine SafeFor.keeping at_y writer safe_loadPending fun pending z _ at_z held => ?_
    have reserved : pending < R.writers.card := by
      rw [held, at_z.holds.session.pending]
      exact at_z.reservations_lt writer rfl
    split
    · rename_i refused
      exact ⟨⟨rfl, crowded_of_refused refused counted reserved⟩, at_z⟩
    · rw [Prog.bind_eq]
      refine Safe.bind (safe_casPending at_z writer rfl pending) fun exchanged z' at_z' => ?_
      cases exchanged with
      | true =>
        rw [if_pos rfl]
        exact at_z'
      | false =>
        rw [if_neg (by decide)]
        exact ih at_z'

theorem safe_reserveIf (at_x : R.At i {} e x) (writer : i ∈ R.writers) (reserve : Bool) (retries : Nat) :
    R.SafeFor i (fun _ y => R.At i { pending := reserve } e y)
      (fun status y => (status = capacityExceeded ∧ R.Crowded) ∧ R.At i {} e y) (reserveIf reserve retries) x := by
  cases reserve with
  | false => exact at_x
  | true =>
    unfold reserveIf reserveRowIndexInsertSlot
    rw [if_pos rfl, Prog.bind_eq]
    refine SafeFor.keeping at_x writer safe_getMembers fun m y _ at_y members => ?_
    rw [Prog.bind_eq]
    refine SafeFor.keeping at_y writer (safe_loadRowBucketCount at_y.holds) fun n z _ at_z buckets => ?_
    rw [members, at_y.holds.session.options, buckets]
    exact safe_reserveLoop at_z writer retries

end Reservation

section Counters
variable {p : Progress} {e : Option RowEntry}

/-- `x` after a change of the row index's bytes. -/
def withIndex (x : Shared ι) (bytes : Bytes) : Shared ι :=
  { x with world := x.world.setFile .rowIndex (some bytes), bytes := bytes }

/-- The next sequence is taken. -/
theorem Holds.setSequence (holds : R.Holds x) (sequence : Nat) : R.Holds (withIndex x (setRowSequence x.bytes sequence)) := by
  obtain ⟨items, file, sum⟩ := holds.indexed.file
  have file' := file.setSequence sequence
  exact
    { session := holds.session.setIndex rfl (file'.length.trans file.length.symm) rfl fun _ => rfl
      indexed := holds.indexed.transfer ⟨items, file', sum⟩ (rowBucketAt_setSequence x.bytes sequence) rfl rfl fun _ => rfl
      blocks := holds.blocks.transfer rfl rfl rfl rfl (fun _ => rfl) (fun _ => rfl) fun _ => rfl }

theorem safe_nextRowSequence (at_x : R.At i p e x) (writer : i ∈ R.writers) :
    R.SafeFor i (fun sequence y => R.At i p e y ∧ sequence < 2 ^ 64) failed nextRowSequence x := by
  refine safe_perform fun y moves _ => ?_
  have at_y := at_x.later writer moves
  have holds := at_y.holds.setSequence (rowSequence y.bytes + 1)
  simp only [arena, system, at_y.holds.mapped (show 32 + 8 ≤ 64 + 64 * R.n by omega), at_y.holds.index_writable]
  exact ⟨rowSequence y.bytes, withIndex y (setRowSequence y.bytes (rowSequence y.bytes + 1)), rfl,
    Moves.quiet holds (RowStep.setRowIndex _ _) rfl rfl (List.prefix_refl _) fun _ _ => rfl,
    ⟨holds, at_y.progress, at_y.entry⟩, rowSequence_lt _⟩

variable [DecidableEq ι]

/-- `x` after the call `i` has counted its row. -/
def countRow (x : Shared ι) (i : ι) : Shared ι :=
  { withIndex x (addItem x.bytes) with progress := Function.update x.progress i { x.progress i with uncounted := false } }

theorem countRow_progress (x : Shared ι) {β : Type} (f : Progress → β)
    (same : ∀ p : Progress, f { p with uncounted := false } = f p) (l : ι) :
    f ((countRow x i).progress l) = f (x.progress l) := by
  unfold countRow
  by_cases mine : l = i
  · simp only [mine, Function.update_self, same]
  · simp only [Function.update_of_ne mine]

theorem Holds.countRow (holds : R.Holds x) (writer : i ∈ R.writers) (uncounted : (x.progress i).uncounted = true) :
    R.Holds (countRow x i) := by
  obtain ⟨items, file, sum⟩ := holds.indexed.file
  have fewer : R.uncounted x = R.uncounted (Round.countRow x i) + 1 :=
    card_mark writer (fun l other => by simp only [Round.countRow, Function.update_of_ne other])
      (by simp only [Round.countRow, Function.update_self]) uncounted
  have count := file.count_lt
  have filled := filled_le R.n x.slot
  have file' := file.addItem (by omega)
  exact
    { session := holds.session.setIndex rfl (file'.length.trans file.length.symm) rfl
        (countRow_progress x Progress.pending fun _ => rfl)
      indexed := holds.indexed.transfer ⟨items + 1, file', by omega⟩ (rowBucketAt_addItem x.bytes) rfl rfl
        (countRow_progress x Progress.claim fun _ => rfl)
      blocks := holds.blocks.transfer rfl rfl rfl rfl (countRow_progress x Progress.place fun _ => rfl)
        (countRow_progress x Progress.written fun _ => rfl) (countRow_progress x Progress.published fun _ => rfl) }

theorem safe_incrementRowItemCount (at_x : R.At i p e x) (writer : i ∈ R.writers) (uncounted : p.uncounted = true) :
    R.SafeFor i (fun _ y => R.At i { p with uncounted := false } e y) failed incrementRowItemCount x := by
  intro y moves _
  have at_y := at_x.later writer moves
  have holds := at_y.holds.countRow writer (by rw [at_y.progress, uncounted])
  simp only [arena, system, at_y.holds.mapped (show 24 + 8 ≤ 64 + 64 * R.n by omega), at_y.holds.index_writable]
  refine ⟨natAt y.bytes 24 8, countRow y i, rfl, ?_, holds, ?_, at_y.entry⟩
  · exact Moves.quiet holds (RowStep.setRowIndex _ _) rfl rfl (List.prefix_refl _) fun l other => by
      simp only [Round.countRow, Function.update_of_ne other]
  · simp only [Round.countRow, Function.update_self, at_y.progress]

/-- The count of the row, if it got a new bucket. -/
theorem safe_countIf (at_x : R.At i p e x) (writer : i ∈ R.writers) :
    R.SafeFor i (fun _ y => R.At i { p with uncounted := false } e y) failed (countIf p.uncounted) x := by
  cases uncounted : p.uncounted with
  | false =>
    have unchanged : ({ p with uncounted := false } : Progress) = p := by
      cases p
      cases uncounted
      rfl
    rw [unchanged]
    exact at_x
  | true => exact safe_incrementRowItemCount at_x writer uncounted

end Counters

section Append
variable {p : Progress} {e : Option RowEntry} {r : RowRecord} {t : Nat} {ref : BlockRef}

/-- The block `r` has the place `ref`, which is the `t`-th to be given. -/
structure PlacedAt (R : Round ι) (t : Nat) (r : RowRecord) (ref : BlockRef) (x : Shared ι) : Prop where
  at_t : x.added[t]? = some r
  ref_eq : R.refAt x.added t r = ref

theorem PlacedAt.later {movers : ι → Prop} (placed : R.PlacedAt t r ref x) (moves : R.Moves movers x y) :
    R.PlacedAt t r ref y where
  at_t := by
    obtain ⟨more, grown⟩ := moves.added
    rw [← grown, List.getElem?_append_left (List.getElem?_eq_some_iff.mp placed.at_t).1, placed.at_t]
  ref_eq := (refAt_extended moves.added placed.at_t).trans placed.ref_eq

variable [DecidableEq ι]

/-- `x` after the block `r` of the call `i` got its place. -/
def appendRecord (x : Shared ι) (i : ι) (r : RowRecord) : Shared ι :=
  { x with
    world := x.world.setMembers (·.addAppendOffset r.shardId r.block.length)
    added := x.added ++ [r]
    progress := Function.update x.progress i { x.progress i with place := some x.added.length } }

theorem appendRecord_progress (x : Shared ι) {β : Type} (f : Progress → β)
    (same : ∀ p : Progress, ∀ place, f { p with place := place } = f p) (l : ι) :
    f ((appendRecord x i r).progress l) = f (x.progress l) := by
  unfold appendRecord
  by_cases mine : l = i
  · simp only [mine, Function.update_self, same]
  · simp only [Function.update_of_ne mine]

theorem Holds.appendRecord (holds : R.Holds x) (writer : i ∈ R.writers) (key : r.key = R.row i)
    (content : r.content = R.content i) (complete : r.Complete R.H) (shard : r.shardId < R.count)
    (fits : x.world.members.rowAppendOffsets r.shardId + r.block.length < 2 ^ 63) (before : (x.progress i).place = none)
    (unwritten : (x.progress i).written = false) : R.Holds (appendRecord x i r) where
  session := holds.session.transfer (RowStep.addAppendOffset _ _ _) rfl (fun _ => rfl) holds.session.content
    holds.session.index holds.session.mapped (holds.session.pending.trans
      (filter_congr fun l => (appendRecord_progress x Progress.pending (fun _ _ => rfl) l).symm))
  indexed := by
    have counted : R.uncounted (Round.appendRecord x i r) = R.uncounted x :=
      filter_congr (appendRecord_progress x Progress.uncounted fun _ _ => rfl)
    obtain ⟨items, file, sum⟩ := holds.indexed.file
    exact holds.indexed.transfer ⟨items, file, by rw [counted]; exact sum⟩ (fun _ => rfl) rfl rfl
      (appendRecord_progress x Progress.claim fun _ _ => rfl)
  blocks := by
    refine holds.blocks.place writer key content complete shard fits before unwritten ?_ rfl rfl rfl rfl
    simp only [Round.appendRecord, World.setMembers, Members.addAppendOffset, Members.setAppendOffset]
    rw [u64_of_lt (by omega)]

/-- The block of a write gets a place of its own. -/
theorem safe_appendFetchAdd (at_x : R.At i p e x) (writer : i ∈ R.writers) (key : r.key = R.row i)
    (content : r.content = R.content i) (complete : r.Complete R.H) (shard : r.shardId < R.count) (before : p.place = none)
    (unwritten : p.written = false) :
    R.SafeFor i (fun offset y => ∃ t, R.At i { p with place := some t } e y ∧
        R.PlacedAt t r ⟨r.shardId, offset, r.block.length, r.sequence⟩ y) failed
      (.perform (S := signature) (.appendFetchAdd r.shardId r.block.length)) x := by
  refine safe_perform fun y moves fits => ?_
  have at_y := at_x.later writer moves
  have holds := at_y.holds.appendRecord writer key content complete shard fits (by rw [at_y.progress, before])
    (by rw [at_y.progress, unwritten])
  refine ⟨y.world.members.rowAppendOffsets r.shardId, appendRecord y i r, rfl, ?_, y.added.length, ⟨holds, ?_, at_y.entry⟩, ?_⟩
  · exact Moves.quiet holds (RowStep.addAppendOffset _ _ _) rfl rfl (List.prefix_append _ _) fun l other => by
      simp only [Round.appendRecord, Function.update_of_ne other]
  · simp only [Round.appendRecord, Function.update_self, at_y.progress]
  · refine ⟨List.getElem?_concat_length, ?_⟩
    simp only [Round.appendRecord]
    rw [refAt_append le_rfl, refAt, List.take_length, RowRecord.appended, at_y.holds.blocks.offsets _ shard]

/-- `x` after the block `r` of the call `i` was written to its place. -/
def writeRecord (x : Shared ι) (i : ι) (r : RowRecord) (offset : Nat) : Shared ι :=
  { x with
    world := x.world.setFile (.rowShard r.shardId) (some (patch (x.shards r.shardId) offset r.block))
    shards := Function.update x.shards r.shardId (patch (x.shards r.shardId) offset r.block)
    progress := Function.update x.progress i { x.progress i with written := true } }

theorem writeRecord_progress (x : Shared ι) {offset : Nat} {β : Type} (f : Progress → β)
    (same : ∀ p : Progress, f { p with written := true } = f p) (l : ι) :
    f ((writeRecord x i r offset).progress l) = f (x.progress l) := by
  unfold writeRecord
  by_cases mine : l = i
  · simp only [mine, Function.update_self, same]
  · simp only [Function.update_of_ne mine]

theorem Holds.writeRecord (holds : R.Holds x) (at_i : (x.progress i).place = some t) (placed : R.PlacedAt t r ref x)
    (shard : r.shardId < R.count) : R.Holds (writeRecord x i r ref.blockOffset) where
  session := by
    refine holds.session.transfer (RowStep.setShard (by rw [holds.session.options]; exact shard) _) rfl (fun _ => rfl)
      (fun s inside => ?_) ?_ holds.session.mapped (holds.session.pending.trans
        (filter_congr fun l => (writeRecord_progress x Progress.pending (fun _ => rfl) l).symm))
    · by_cases here : s = r.shardId
      · subst here
        simp [Round.writeRecord, World.setFile]
      · have other : (FileId.rowShard s) ≠ .rowShard r.shardId := fun same => here (by simpa using same)
        simp only [Round.writeRecord, World.setFile, Function.update_of_ne other, Function.update_of_ne here]
        exact holds.session.content s inside
    · have index := holds.session.index
      simpa [Round.writeRecord, World.setFile] using index
  indexed := by
    have counted : R.uncounted (Round.writeRecord x i r ref.blockOffset) = R.uncounted x :=
      filter_congr (writeRecord_progress x Progress.uncounted fun _ => rfl)
    obtain ⟨items, file, sum⟩ := holds.indexed.file
    exact holds.indexed.transfer ⟨items, file, by rw [counted]; exact sum⟩ (fun _ => rfl) rfl rfl
      (writeRecord_progress x Progress.claim fun _ => rfl)
  blocks := by
    refine holds.blocks.write at_i placed.at_t rfl ?_ rfl rfl rfl
    rw [placed.ref_eq]
    rfl

theorem safe_writeBlock (at_x : R.At i p e x) (writer : i ∈ R.writers) (at_i : p.place = some t)
    (placed : R.PlacedAt t r ref x) (nonempty : r.block ≠ []) :
    R.SafeFor i (fun _ y => R.At i { p with written := true } e y ∧ R.PlacedAt t r ref y) failed
      (writeAllAt (.rowShard r.shardId) ref.blockOffset r.block) x := by
  intro y moves fits
  have at_y := at_x.later writer moves
  have placed' := placed.later moves
  have at_i' : (y.progress i).place = some t := by rw [at_y.progress, at_i]
  obtain ⟨_, r', at_t, _, _, _, shard⟩ := at_y.holds.blocks.placed i t at_i'
  cases Option.some.inj (placed'.at_t.symm.trans at_t)
  have holds := at_y.holds.writeRecord at_i' placed' shard
  have bound : ref.blockOffset + r.block.length < 2 ^ 63 := fits
  refine ⟨.ok (), writeRecord y i r ref.blockOffset, ?_, ?_, ⟨holds, ?_, at_y.entry⟩, placed'.at_t, placed'.ref_eq⟩
  · simp only [arena, system, at_y.holds.session.content _ shard, if_neg nonempty,
      u64_of_lt (show ref.blockOffset < 2 ^ 64 by omega), if_pos bound]
    rfl
  · exact Moves.quiet holds (RowStep.setShard (by rw [at_y.holds.session.options]; exact shard) _) rfl rfl
      (List.prefix_refl _) fun l other => by simp only [Round.writeRecord, Function.update_of_ne other]
  · simp only [Round.writeRecord, Function.update_self, at_y.progress]

end Append

end Round

end LumoDB
