import LumoDB.SharedPublish

namespace LumoDB
open ByteCodec Effects LinearProbing

namespace Round
variable {ι : Type} [DecidableEq ι] {R : Round ι} {i : ι} {x y : Shared ι} {failed : Status → Shared ι → Prop}
  {p : Progress} {e : Option RowEntry} {t : Nat} {r : RowRecord} {ref : BlockRef}

section Insert

/-- How far a pass over the probe sequence has brought the write: its block is
published, or another call was faster and nothing has changed. -/
def Inserted (R : Round ι) (i : ι) (p : Progress) (e : Option RowEntry) (t : Nat) (r : RowRecord) (ref : BlockRef) :
    Option Bool → Shared ι → Prop
  | some inserted, y =>
    R.At i { p with claim := none, published := true, uncounted := inserted } (some ⟨ref, R.content i, r.block⟩) y
  | none, y => R.At i p e y ∧ R.PlacedAt t r ref y

/-- A write that has its block in place and has not claimed a bucket yet. -/
structure Ready (R : Round ι) (i : ι) (p : Progress) (e : Option RowEntry) (t : Nat) (r : RowRecord) (ref : BlockRef)
    (x : Shared ι) : Prop where
  at_x : R.At i p e x
  placed : R.PlacedAt t r ref x
  place : p.place = some t
  written : p.written = true
  unclaimed : p.claim = none
  unpublished : p.published = false
  counted : p.uncounted = false

omit [DecidableEq ι] in
theorem Ready.later (ready : R.Ready i p e t r ref x) (writer : i ∈ R.writers) (moves : R.Moves (· ≠ i) x y) :
    R.Ready i p e t r ref y :=
  { ready with at_x := ready.at_x.later writer moves, placed := ready.placed.later moves }

/-- A bucket is claimed and filled, or another call has claimed it first. -/
theorem safe_takeBucket {expected j : Nat} (present : Bool) (ready : R.Ready i p e t r ref x) (writer : i ∈ R.writers)
    (fits : (rowBucket R.H (R.row i) ref).Fits) (inside : j < R.n)
    (looked : ∀ y, R.Moves (· ≠ i) x y → R.At i p e y → (rowBucketAt y.bytes j).state = expected →
      Lookup R.n (rowHome R.H) y.slot (R.row i) j present) :
    R.SafeFor i (R.Inserted i p e t r ref) failed
      ((casRowBucketState j expected kRowBucketWriting).bind fun claimed =>
        if claimed then (storeRowBucketData j (rowData R.H (R.row i) ref)).bind fun _ =>
          (storeRowBucketState j kRowBucketFilled).bind fun _ => .ret (some (!present))
        else .ret none) x := by
  have claim : R.SafeFor i _ failed _ x := safe_claim ready.at_x writer ready.unpublished ready.counted inside looked
  refine Safe.bind (claim.stable (fun _ _ moves at_y => PlacedAt.later at_y moves) (fun _ _ moves at_y => PlacedAt.later at_y moves)
    ready.placed) ?_
  rintro claimed y ⟨at_y, placed⟩
  cases claimed with
  | false =>
    rw [if_neg (by decide)] at at_y ⊢
    exact ⟨at_y, placed⟩
  | true =>
    rw [if_pos rfl] at at_y ⊢
    obtain ⟨bucket, at_y⟩ := at_y
    rw [← Prog.bind_assoc]
    refine Safe.bind (safe_fill at_y writer ready.unpublished rfl ready.written ready.place placed fits) fun _ z at_z => ?_
    exact at_z

theorem safe_insertOrUpdatePass {rounds probe : Nat} (sum : rounds + probe = R.n) (ready : R.Ready i p e t r ref y)
    (writer : i ∈ R.writers) (fits : (rowBucket R.H (R.row i) ref).Fits)
    (passed : Passed R.n (rowHome R.H) y.slot (R.row i) probe) :
    R.SafeFor i (R.Inserted i p e t r ref) failed
      (insertOrUpdatePass (R.row i).1 (rowData R.H (R.row i) ref) (R.n - 1) (rowHome R.H (R.row i) &&& (R.n - 1)) rounds probe)
      y := by
  have positive := ready.at_x.holds.positive
  induction rounds generalizing probe y with
  | zero =>
    have short := ready.at_x.holds.passed_lt passed
    omega
  | succ rounds ih =>
    have target := probeSlot_lt positive (rowHome R.H (R.row i)) probe
    rw [insertOrUpdatePass, probe_index_of ready.at_x.holds]
    simp only [Prog.bind_eq]
    refine SafeFor.after (safe_loadRowBucketSnapshot ready.at_x.holds target) ready.at_x.holds
      fun snapshot z moved holds_z seen => ?_
    replace ready := ready.later writer moved
    have still := moved.passed passed
    cases snapshot with
    | empty =>
      refine safe_takeBucket false ready writer fits target fun z' moved' at_z' state => ?_
      refine ⟨target, by simp, fun _ => ⟨probe, rfl, moved'.passed still, ?_⟩⟩
      rcases at_z'.holds.state_cases target with ⟨free, _⟩ | ⟨k, _, _, writing⟩ | ⟨k, e, _, _, full⟩
      · exact free
      · rw [writing] at state
        cases state
      · rw [full] at state
        cases state
    | writing => exact ⟨ready.at_x, ready.placed⟩
    | filled bucket =>
      obtain ⟨k', points⟩ := seen
      simp only
      refine Safe.ite (fun differ => ?_) fun same => ?_
      · refine ih (by omega) ready (still.succ points.at_j fun same => ?_)
        simp only [rowData, points.columnHash, points.rowId, same] at differ
        simp at differ
      · simp only [rowData, points.columnHash, points.rowId, not_or, not_not] at same
        have steady := steady_of_hashes same.1 same.2
        obtain ⟨e', at_k, rfl⟩ := points.exact_of steady
        have matching : R.SafeFor i _ failed _ z := safe_rowBlockMatches holds_z at_k steady (R.row i).1
        rw [same.2] at matching
        refine SafeFor.after matching holds_z fun header z' moved' holds_z' matched => ?_
        have at_j := moved'.kept _ _ points.at_j
        replace ready := ready.later writer moved'
        rw [matched]
        by_cases column : k'.1 = (R.row i).1
        · obtain rfl : k' = R.row i := Prod.ext column same.2
          rw [if_pos column]
          refine safe_takeBucket true ready writer fits target fun z'' moved'' at_z'' state => ?_
          exact ⟨target, fun _ => moved''.kept _ _ at_j, by simp⟩
        · rw [if_neg column]
          exact ih (by omega) ready ((moved'.passed still).succ at_j fun key => column (by rw [key]))

theorem safe_insertOrUpdateRowBucket (ready : R.Ready i p e t r ref x) (writer : i ∈ R.writers)
    (fits : (rowBucket R.H (R.row i) ref).Fits) (retries : Nat) :
    R.SafeFor i (fun inserted y => R.Inserted i p e t r ref (some inserted) y) failed
      (insertOrUpdateRowBucket R.H (R.row i).1 (rowData R.H (R.row i) ref) retries) x := by
  have loop : ∀ {y : Shared ι}, R.Ready i p e t r ref y →
      R.SafeFor i (fun inserted y => R.Inserted i p e t r ref (some inserted) y) failed
        (insertOrUpdateLoop R.H (R.row i).1 (rowData R.H (R.row i) ref) R.n retries) y := by
    induction retries with
    | zero => exact fun _ => trivial
    | succ retries ih =>
      intro y ready_y
      rw [insertOrUpdateLoop, ready_y.at_x.holds.mask]
      simp only [Prog.bind_eq]
      refine Safe.bind (safe_insertOrUpdatePass (Nat.add_zero R.n) ready_y writer fits (Passed.zero _)) fun result z inserted => ?_
      cases result with
      | none => exact ih { ready_y with at_x := inserted.1, placed := inserted.2 }
      | some inserted' => exact inserted
  unfold insertOrUpdateRowBucket
  rw [Prog.bind_eq]
  refine SafeFor.after (safe_loadRowBucketCount ready.at_x.holds) ready.at_x.holds fun n y moves _ count => ?_
  rw [count]
  exact loop (ready.later writer moves)

end Insert

end Round

end LumoDB
