import LumoDB.SharedReads

namespace LumoDB
open ByteCodec Effects LinearProbing

namespace Round
variable {ι : Type} {R : Round ι} {i : ι} {k : RowKey} {x y : Shared ι} {failed : Status → Shared ι → Prop}

section Probes

theorem Moves.passed {movers : ι → Prop} {probe : Nat} (moves : R.Moves movers x y)
    (passed : Passed R.n (rowHome R.H) x.slot k probe) : Passed R.n (rowHome R.H) y.slot k probe := by
  intro q before
  obtain ⟨k', at_q, other⟩ := passed q before
  exact ⟨k', moves.kept _ k' at_q, other⟩

/-- No probe sequence runs through the whole table. -/
theorem Holds.passed_lt {probe : Nat} (holds : R.Holds x) (passed : Passed R.n (rowHome R.H) x.slot k probe) :
    probe < R.n := passed.lt_size (vacancy_of_filled_lt holds.filled_lt)

/-- Reaching an empty bucket proves that the row has no bucket at that
moment. -/
theorem Holds.absent_of_vacant {probe : Nat} (holds : R.Holds x) (passed : Passed R.n (rowHome R.H) x.slot k probe)
    (vacant : x.slot (probeSlot R.n (rowHome R.H k) probe) = none) : ¬ Stored R.n x.slot k := by
  rintro ⟨j, inside, at_j⟩
  exact holds.indexed.arranged.absent_of_vacant passed (holds.passed_lt passed) vacant j inside at_j

theorem probe_index_of (holds : R.Holds x) (hash probe : Nat) :
    u64 ((hash &&& (R.n - 1)) + probe) &&& (R.n - 1) = probeSlot R.n hash probe := by
  obtain ⟨items, file, _⟩ := holds.indexed.file
  exact file.probe hash probe

theorem Holds.mask (holds : R.Holds x) : u64 (R.n + 2 ^ 64 - 1) = R.n - 1 := by
  obtain ⟨items, file, _⟩ := holds.indexed.file
  exact mask_of_count file.positive (file.count_lt.trans (by decide))

theorem Holds.positive (holds : R.Holds x) : 0 < R.n := by
  obtain ⟨items, file, _⟩ := holds.indexed.file
  exact file.positive

end Probes

section Find

/-- What a lookup of the row `k` has found in the state. -/
structure Found (R : Round ι) (x : Shared ι) (k : RowKey) (lookup : RowBucketLookup) (e : RowEntry) : Prop where
  inside : lookup.index < R.n
  at_index : x.slot lookup.index = some k
  entry : x.entry k = some e
  bucket : lookup.bucket = rowBucket R.H k e.ref
  header : lookup.blockHeader = RowBlockHeader.decode (slice e.block 0 72)

def LookedUp (R : Round ι) (x : Shared ι) (k : RowKey) (lookup : RowBucketLookup) : Prop :=
  if lookup.found then ∃ e, R.Found x k lookup e else ¬ Stored R.n x.slot k

theorem safe_findRowPass (x : Shared ι) {rounds probe : Nat} (sum : rounds + probe = R.n) (holds : R.Holds y)
    (moves : R.Moves (· ≠ i) x y) (passed : Passed R.n (rowHome R.H) y.slot (R.row i) probe) :
    R.SafeFor i (fun result z => R.Moves (· ≠ i) x z ∧ ∀ lookup, result = some lookup → R.LookedUp z (R.row i) lookup) failed
      (findRowPass (R.row i).1 (R.row i).2 (R.H.hashString (R.row i).1) (R.n - 1) (rowHome R.H (R.row i) &&& (R.n - 1))
        rounds probe) y := by
  induction rounds generalizing probe y with
  | zero =>
    have short := holds.passed_lt passed
    omega
  | succ rounds ih =>
    have target := probeSlot_lt holds.positive (rowHome R.H (R.row i)) probe
    rw [findRowPass, probe_index_of holds]
    simp only [Prog.bind_eq]
    refine SafeFor.after (safe_loadRowBucketSnapshot holds target) holds fun snapshot z moved holds_z seen => ?_
    have still := moved.passed passed
    replace moves := moves.trans moved
    cases snapshot with
    | empty =>
      refine ⟨moves, fun lookup same => ?_⟩
      cases same
      exact holds_z.absent_of_vacant still seen
    | writing => exact ⟨moves, by simp⟩
    | filled bucket =>
      obtain ⟨k', points⟩ := seen
      by_cases differ : bucket.columnHash ≠ R.H.hashString (R.row i).1 ∨ bucket.rowId ≠ (R.row i).2
      · simp only
        rw [if_pos differ]
        refine ih (by omega) holds_z moves (still.succ points.at_j fun same => ?_)
        rw [points.columnHash, points.rowId, same] at differ
        simp at differ
      · simp only
        rw [if_neg differ]
        rw [not_or, not_not, not_not, points.columnHash, points.rowId] at differ
        have steady := steady_of_hashes differ.1 differ.2
        obtain ⟨e, at_k, rfl⟩ := points.exact_of steady
        have matching : R.SafeFor i _ failed _ z := safe_rowBlockMatches holds_z at_k steady (R.row i).1
        rw [differ.2] at matching
        refine SafeFor.after matching holds_z fun header z' moved' holds_z' matched => ?_
        have at_j := moved'.kept _ _ points.at_j
        rw [matched]
        by_cases same : k'.1 = (R.row i).1
        · obtain rfl : k' = R.row i := Prod.ext same differ.2
          rw [if_pos same]
          refine ⟨moves.trans moved', fun lookup found => ?_⟩
          cases found
          exact ⟨e, target, at_j, moved'.steady steady at_k, rfl, rfl⟩
        · rw [if_neg same]
          exact ih (by omega) holds_z' (moves.trans moved') ((moved'.passed still).succ at_j fun key => same (by rw [key]))

theorem safe_findRowBucket (holds : R.Holds x) (retries : Nat) :
    R.SafeFor i (fun lookup y => R.Moves (· ≠ i) x y ∧ R.LookedUp y (R.row i) lookup) failed
      (findRowBucket R.H (R.row i).1 (R.row i).2 (R.H.hashString (R.row i).1) retries) x := by
  have loop : ∀ {y : Shared ι}, R.Holds y → R.Moves (· ≠ i) x y →
      R.SafeFor i (fun lookup z => R.Moves (· ≠ i) x z ∧ R.LookedUp z (R.row i) lookup) failed
        (findRowLoop R.H (R.row i).1 (R.row i).2 (R.H.hashString (R.row i).1) R.n retries) y := by
    induction retries with
    | zero => exact fun _ _ => trivial
    | succ retries ih =>
      intro y holds_y moves
      rw [findRowLoop, holds_y.mask]
      simp only [Prog.bind_eq]
      refine SafeFor.after (safe_findRowPass y (Nat.add_zero R.n) holds_y (Moves.refl _ y) (Passed.zero _)) holds_y
        fun result z moved holds_z found => ?_
      cases result with
      | none => exact ih holds_z (moves.trans moved)
      | some lookup => exact ⟨moves.trans moved, found lookup rfl⟩
  unfold findRowBucket
  rw [Prog.bind_eq]
  refine SafeFor.after (safe_loadRowBucketCount holds) holds fun n y moves holds_y count => ?_
  rw [count]
  exact loop holds_y moves

end Find

section Get
variable {key : Bytes}

/-- How a read of `key` in the row of the call ends: as the row's content at
that moment says, and as a row without a bucket only if it was not published
when the read began. -/
def ReadDone (R : Round ι) (i : ι) (key value : Bytes) (y : Shared ι) : Prop :=
  ∃ e, y.entry (R.row i) = some e ∧ e.content key = some value

def ReadMissed (R : Round ι) (i : ι) (key : Bytes) (x : Shared ι) (error : Status) (y : Shared ι) : Prop :=
  (error = .notFound "row not found" ∧ x.entry (R.row i) = none) ∨
    (error = .notFound "key not found in row" ∧ ∃ e, y.entry (R.row i) = some e ∧ e.content key = none)

theorem safe_getRowStruct (holds : R.Holds x) (retries : Nat) (key : Bytes) :
    R.SafeFor i (fun value y => R.Moves (· ≠ i) x y ∧ R.ReadDone i key value y)
      (fun e y => R.Moves (· ≠ i) x y ∧ R.ReadMissed i key x e y)
      (getRowStruct R.H retries (R.row i).1 (R.row i).2 key) x := by
  have own : R.Steady i (R.row i) := steady_of_hashes rfl rfl
  unfold getRowStruct
  rw [Prog.bind_eq]
  refine SafeFor.after safe_getMembers holds fun m y moves holds_y members => ?_
  rw [members, if_neg (by rw [holds_y.session.isOpen]; decide), Prog.bind_eq]
  refine SafeFor.after (safe_findRowBucket holds_y retries) holds_y fun lookup z moved holds_z looked => ?_
  replace moved := moves.trans moved
  unfold LookedUp at looked
  cases found : lookup.found with
  | false =>
    rw [found, if_neg (by decide)] at looked
    rw [if_pos (by decide)]
    refine ⟨moved, Or.inl ⟨rfl, ?_⟩⟩
    by_contra present
    obtain ⟨e, at_x⟩ := Option.ne_none_iff_exists'.mp present
    refine looked (holds_z.indexed.stored _ ?_)
    rw [moved.steady own at_x]
    exact Option.some_ne_none e
  | true =>
    rw [found, if_pos rfl] at looked
    obtain ⟨e, looked⟩ := looked
    rw [if_neg (by decide), looked.bucket, looked.header]
    refine Safe.mono (safe_findValueInRowBlockAt holds_z looked.entry own key) ?_ ?_
    · rintro value z' ⟨moved', answer⟩
      exact ⟨moved.trans moved', e, moved'.steady own looked.entry, answer⟩
    · rintro e' z' ⟨moved', miss, message⟩
      exact ⟨moved.trans moved', Or.inr ⟨message, e, moved'.steady own looked.entry, miss⟩⟩

end Get

end Round

end LumoDB
