import LumoDB.RowReservation

namespace LumoDB
open ByteCodec Effects LinearProbing

/-- A place without files, or the directory that closed sessions left with the
records `objects`. -/
inductive LeftBy (H : HashFunctions) (retries : Nat) : ObjectLog → World → Prop where
  | fresh : LeftBy H retries [] {}
  | sessions {start trace w w'} (history : History H retries start trace w) (closes : Runs close w () w') :
      LeftBy H retries (written trace) w'

def Call.isRowPut : Call → Bool
  | putRowStructs .. => true
  | _ => false

/-- An `Open` with `count` shards keeps a row index with fewer than `buckets`
buckets. -/
def KeepsFewer (w : World) (count buckets : Nat) : Prop := ¬ RowIndexRejected w count ∧ w.rowBuckets < buckets

/-- The rows, with the row `k` among them, are within the load of `buckets`
buckets. -/
def WithinLoad (H : HashFunctions) (retries : Nat) (w : World) (k : RowKey) (load : ℚ) (rows buckets : Nat) : Prop :=
  (StoresRow H retries w k → (rows : ℚ) ≤ load * buckets) ∧
    (¬ StoresRow H retries w k → ((rows + 1 : Nat) : ℚ) ≤ load * buckets)

section Open
variable {H : HashFunctions} {retries : Nat} {options : DatabaseOptions} {objects : ObjectLog} {w w' : World}

/-- An `Open` that returns Ok was given options it accepts. -/
theorem openReadWrite_accepts (closed : w.members.isOpen = false)
    (opens : Runs (openReadWrite H (retries + 1) options) w () w') : options.Accepted := by
  have shut : Runs (closeIf w.members.isOpen) w () w := by
    rw [closed]
    rfl
  unfold Runs openReadWrite openInternal at opens
  rw [Prog.bind_eq, (getMembers_runs w).bind, Prog.bind_eq, shut.bind] at opens
  by_cases load : options.maxLoadFactor ≤ 0 ∨ 95 / 100 ≤ options.maxLoadFactor
  · rw [if_pos load] at opens
    cases opens
  · rw [if_neg load] at opens
    rw [not_or, not_le, not_le] at load
    refine ⟨load, fun none => ?_⟩
    cases given : options.rounded with
    | none =>
      rw [given] at opens
      cases opens
    | some rounded =>
      rw [given] at opens
      simp only [none, if_true] at opens
      cases opens

theorem LeftBy.opened (left : LeftBy H retries objects w)
    (bounded : Bounded (openReadWrite H (retries + 1) options) w)
    (opens : Runs (openReadWrite H (retries + 1) options) w () w') :
    ∃ s, Active H w' objects s ∧ ∃ rounded, options.rounded = some rounded ∧ RowCapacity w w' rounded := by
  cases left with
  | fresh =>
    have accepted := openReadWrite_accepts rfl opens
    obtain ⟨w'', live, next, opened, active, _, capacity⟩ :=
      openReadWrite_runs (resting_fresh H _) accepted retries bounded
    cases (Runs.unique opens opened).2
    exact ⟨_, active, capacity⟩
  | @sessions start trace w₀ _ history closes =>
    obtain ⟨s, active, _⟩ := history.active
    cases (Runs.unique closes (close_runs active)).2
    have accepted := openReadWrite_accepts rfl opens
    obtain ⟨w'', opened, active', capacity⟩ := reopen_runs active accepted retries bounded
    cases (Runs.unique opens opened).2
    exact ⟨_, active', capacity⟩

end Open

section Puts
variable {H : HashFunctions} {retries : Nat} {objects : ObjectLog} {origin w w' : World} {s : RowState} {trace : Trace}

theorem Active.rowPut {call : Call} {ok : Bool} (active : Active H w objects s) (put : call.isRowPut = true)
    (bounded : Bounded (call.program H (retries + 1)) w) (returns : Returns (call.program H (retries + 1)) w ok w') :
    w'.members.options = w.members.options ∧ w'.rowBuckets = w.rowBuckets := by
  cases call with
  | putRowStructs column rowId entries =>
    rcases putRowStructs_cases (k := (column, rowId.toNat)) active.rows active.serving rowId.toNat_lt retries bounded with
      ⟨e, w'', failed, refused⟩ | ⟨w'', r, runs, done⟩
    · cases (returns.unique (.error failed)).2
      exact ⟨refused.step.options, refused.buckets⟩
    · cases (returns.unique (.ok runs)).2
      exact ⟨done.step.options, done.buckets⟩
  | _ => cases put

/-- No run of `PutRowStructs` calls changes the bucket count. -/
theorem Calls.rowPuts (active : Active H origin objects s) (calls : Calls H retries objects origin trace w)
    (puts : ∀ step ∈ trace, step.1.isRowPut = true) :
    w.members.options = origin.members.options ∧ w.rowBuckets = origin.rowBuckets := by
  induction calls with
  | start => exact ⟨rfl, rfl⟩
  | call before _ bounded returns ih =>
    obtain ⟨options, buckets⟩ := ih fun step member => puts step (List.mem_append_left _ member)
    obtain ⟨s', active', _⟩ := before.active active
    obtain ⟨options', buckets'⟩ :=
      active'.rowPut (puts _ (List.mem_append_right _ (List.mem_singleton_self _))) bounded returns
    exact ⟨options'.trans options, buckets'.trans buckets⟩

theorem putRowStructs_raises_iff {column : Bytes} {rowId : UInt64} {entries : List RowStructEntry} (active : Active H w objects s)
    (bounded : Bounded ((Call.putRowStructs column rowId entries).program H (retries + 1)) w) :
    RaisesCapacity ((Call.putRowStructs column rowId entries).program H (retries + 1)) w ↔
      (Call.putRowStructs column rowId entries).WritesRow (column, rowId.toNat) ∧ w.RowsFull := by
  by_cases writes : (Call.putRowStructs column rowId entries).WritesRow (column, rowId.toNat)
  · rw [active.raisesCapacity_iff writes bounded]
    exact and_congr_left fun _ => iff_of_true nofun writes
  · refine iff_of_false ?_ fun both => writes both.1
    rintro ⟨w', raised⟩
    simp only [Call.program, putRowStructs, writeRowStructs] at raised
    rw [Prog.bind_eq, (getMembers_runs w).bind, if_neg (by rw [active.serving.isOpen]; decide),
      if_neg (by rw [active.serving.writable]; decide)] at raised
    by_cases long : ¬ fitsUint32 column.length
    · rw [if_pos long] at raised
      exact absurd (Outcome.error.inj raised).1 (by decide)
    · rw [if_neg long] at raised
      have empty : entries = [] := by
        by_contra nonempty
        exact writes ⟨rfl, not_not.mp long, nonempty⟩
      rw [if_pos empty] at raised
      exact absurd (Outcome.error.inj raised).1 (by decide)

end Puts

section Steps
variable {H : HashFunctions} {retries : Nat} {objects : ObjectLog} {origin w w' : World} {trace before after : Trace}
  {call : Call} {ok : Bool}

/-- The last call of a run was made in the state after the calls before it. -/
theorem Calls.last (calls : Calls H retries objects origin (trace ++ [(call, ok)]) w') :
    ∃ w, Calls H retries objects origin trace w ∧ Bounded (call.program H (retries + 1)) w ∧
      Returns (call.program H (retries + 1)) w ok w' := by
  generalize whole : trace ++ [(call, ok)] = steps at calls
  cases calls with
  | start => exact absurd whole (List.append_ne_nil_of_right_ne_nil _ (List.cons_ne_nil _ _))
  | call before _ bounded returns =>
    obtain ⟨rfl, last⟩ := List.append_inj' whole rfl
    cases last
    exact ⟨_, before, bounded, returns⟩

theorem Calls.unique (first : Calls H retries objects origin trace w) (second : Calls H retries objects origin trace w') :
    w = w' := by
  induction first generalizing w' with
  | start =>
    generalize whole : ([] : Trace) = steps at second
    cases second with
    | start => rfl
    | call => exact absurd whole.symm (List.append_ne_nil_of_right_ne_nil _ (List.cons_ne_nil _ _))
  | call before _ _ returns ih =>
    obtain ⟨v, before', _, returns'⟩ := second.last
    cases ih before'
    exact (returns.unique returns').2

/-- A call in the middle of a run was made in the state after the calls before
it. -/
theorem Calls.middle (calls : Calls H retries objects origin (before ++ (call, ok) :: after) w) :
    ∃ v, Calls H retries objects origin before v ∧ Bounded (call.program H (retries + 1)) v := by
  induction after using List.reverseRecOn generalizing w with
  | nil =>
    obtain ⟨v, earlier, bounded, _⟩ := calls.last
    exact ⟨v, earlier, bounded⟩
  | append_singleton after step ih =>
    rw [← List.cons_append, ← List.append_assoc] at calls
    obtain ⟨_, earlier, _⟩ := calls.last
    exact ih earlier

end Steps

/-- At each `PutRowStructs` call of the run, in the state in which it is made
and with the rows that are stored there. -/
def AtPuts (H : HashFunctions) (retries : Nat) (objects : ObjectLog) (origin : World) (trace : Trace)
    (holds : World → Bytes → UInt64 → List RowStructEntry → Nat → Prop) : Prop :=
  ∀ before column rowId entries ok after w rows, trace = before ++ (.putRowStructs column rowId entries, ok) :: after →
    Calls H retries objects origin before w → Runs rowCount w rows w → holds w column rowId entries rows

section Promise
variable {H : HashFunctions} {retries : Nat} {options : DatabaseOptions} {objects : ObjectLog} {trace : Trace}
  {w₀ w₁ w : World} {n : Nat}

/-- After an `Open` that did not keep a smaller row index, no `PutRowStructs`
call of a run raises the capacity error within the load of the rounded bucket
count, if the run replaces rows only while one more row would fit. -/
theorem openedCapacity (left : LeftBy H retries objects w₀) (bounded₀ : Bounded (openReadWrite H (retries + 1) options) w₀)
    (opens : Runs (openReadWrite H (retries + 1) options) w₀ () w₁)
    (rounded : roundUpPowerOfTwo options.initialRowBucketCount = some n) (large : ¬ KeepsFewer w₀ options.rowShardCount n)
    (calls : Calls H retries objects w₁ trace w) (puts : ∀ step ∈ trace, step.1.isRowPut = true)
    (replaces : AtPuts H retries objects w₁ trace fun v column rowId _ rows =>
      StoresRow H (retries + 1) v (column, rowId.toNat) → ((rows + 1 : Nat) : ℚ) ≤ options.maxLoadFactor * n) :
    AtPuts H retries objects w₁ trace fun v column rowId entries rows =>
      WithinLoad H (retries + 1) v (column, rowId.toNat) options.maxLoadFactor rows n →
        ¬ RaisesCapacity ((Call.putRowStructs column rowId entries).program H (retries + 1)) v := by
  obtain ⟨s, active, roundedOptions, given, capacity⟩ := left.opened bounded₀ opens
  obtain ⟨sameCount, sameLoad⟩ := DatabaseOptions.rounded_same given
  have least : n = roundedOptions.initialRowBucketCount :=
    Option.some.inj (rounded.symm.trans (DatabaseOptions.rounded_rows given))
  have enough : n ≤ w₁.rowBuckets := by
    rcases capacity.buckets with ⟨valid, same⟩ | ⟨_, larger⟩
    · rw [same]
      rw [sameCount] at valid
      exact Nat.not_lt.mp fun fewer => large ⟨valid, fewer⟩
    · rwa [least]
  rintro before column rowId entries ok after v rows rfl earlier counts within
  obtain ⟨v', earlier', bounded⟩ := calls.middle
  cases earlier.unique earlier'
  obtain ⟨sameOptions, sameBuckets⟩ :=
    earlier.rowPuts active fun step member => puts step (List.mem_append_left _ member)
  obtain ⟨s', active', _⟩ := earlier.active active
  have load : v.members.options.maxLoadFactor = options.maxLoadFactor := by rw [sameOptions, capacity.kept, sameLoad]
  have positive := active'.serving.load.1
  rw [load] at positive
  have counted := (Runs.unique (rowCount_runs active'.rows) counts).1
  -- with the condition on replaced rows, one more row is within the load
  have room : ((rows + 1 : Nat) : ℚ) ≤ options.maxLoadFactor * n := by
    by_cases stored : StoresRow H (retries + 1) v (column, rowId.toNat)
    · exact replaces before column rowId entries ok after v rows rfl earlier counts stored
    · exact within.2 stored
  rw [putRowStructs_raises_iff active' bounded, rowsFull_iff_rowCount active'.rows, load, sameBuckets, counted, not_and,
    not_lt]
  exact fun _ => room.trans (mul_le_mul_of_nonneg_left (by exact_mod_cast enough) positive.le)

/-- Options with a small load factor, and with 16 row buckets if not said
otherwise. -/
def sixteenRows (load : ℚ) : DatabaseOptions := { smallOptions 1 oneShard_lt with maxLoadFactor := load }

def thirtyTwoRows (load : ℚ) : DatabaseOptions := { sixteenRows load with initialRowBucketCount := 32 }

def addRow : Call := .putRowStructs [2] 6 [⟨[1], [9]⟩]

/-- A row is replaced and another one is added. -/
def replaceAndAdd : Trace := [(replaceRow, true), (addRow, true)]

/-- The run of these two calls succeeds, with one row before each of them. -/
def ReplacesAndAdds (w : World) : Prop :=
  (run system rowCount w).value? = some 1 ∧
    (replayCalls .shipped 0 [] [replaceRow] [] w).any (fun first => decide (first.1 = [(replaceRow, true)] ∧
      (run system rowCount first.2).value? = some 1 ∧
      (replayCalls .shipped 0 [] [addRow] first.1 first.2).any (fun second => decide (second.1 = replaceAndAdd)) = true)) = true

instance (w : World) : Decidable (ReplacesAndAdds w) := inferInstanceAs (Decidable (_ ∧ _))

theorem ReplacesAndAdds.calls {w : World} (given : ReplacesAndAdds w) :
    ∃ v w', Calls .shipped 0 [] w [(replaceRow, true)] v ∧ Calls .shipped 0 [] w replaceAndAdd w' ∧
      (run system rowCount w).value? = some 1 ∧ (run system rowCount v).value? = some 1 := by
  obtain ⟨counted, replayed⟩ := given
  cases first : replayCalls .shipped 0 [] [replaceRow] [] w with
  | none =>
    rw [first] at replayed
    cases replayed
  | some result =>
    obtain ⟨trace, v⟩ := result
    rw [first, Option.any_some, decide_eq_true_eq] at replayed
    obtain ⟨rfl, countedThen, replayed⟩ := replayed
    have one : Calls .shipped 0 [] w [(replaceRow, true)] v := Calls.of_replay .start first
    cases second : replayCalls .shipped 0 [] [addRow] [(replaceRow, true)] v with
    | none =>
      rw [second] at replayed
      cases replayed
    | some result =>
      obtain ⟨trace, w'⟩ := result
      rw [second, Option.any_some, decide_eq_true_eq] at replayed
      obtain rfl : trace = replaceAndAdd := replayed
      exact ⟨v, w', one, Calls.of_replay one second, counted, countedThen⟩

theorem reopened_smaller : ∃ w₀ w₁, LeftBy .shipped 0 [] w₀ ∧ Bounded (openReadWrite .shipped 1 (sixteenRows (1 / 8))) w₀ ∧
    Runs (openReadWrite .shipped 1 (sixteenRows (1 / 8))) w₀ () w₁ ∧ 16 ≤ w₀.rowBuckets ∧ ReplacesAndAdds w₁ := by
  obtain ⟨w, history, bounded, large, later⟩ := @History.exists_of_replay .shipped 0 (thirtyTwoRows (1 / 8)) oneRowCalls
    (oneRowCalls.map fun call => (call, true))
    (fun w => Bounded (openReadWrite .shipped 1 (sixteenRows (1 / 8))) w.shut ∧ 16 ≤ w.shut.rowBuckets ∧
      ((run system (openReadWrite .shipped 1 (sixteenRows (1 / 8))) w.shut).state?.any fun w₁ => decide (ReplacesAndAdds w₁)) = true)
    _ (by decide +kernel)
  obtain ⟨s, active, _⟩ := history.active
  obtain ⟨w₁, opened, _⟩ := reopen_runs active (by decide +kernel : (sixteenRows (1 / 8)).Accepted) 0 bounded
  rw [opened, Outcome.state?, Option.any_some, decide_eq_true_eq] at later
  exact ⟨w.shut, w₁, .sessions history (close_runs active), bounded, opened, large, later⟩

/-- An index of 32 buckets is kept where 16 are asked for, its row is replaced
and a second one added. -/
theorem openedCapacity_sample : ∃ w₀ w₁ w, LeftBy .shipped 0 [] w₀ ∧ Calls .shipped 0 [] w₁ replaceAndAdd w ∧
    AtPuts .shipped 0 [] w₁ replaceAndAdd fun v column rowId entries rows =>
      WithinLoad .shipped 1 v (column, rowId.toNat) (1 / 8) rows 16 →
        ¬ RaisesCapacity ((Call.putRowStructs column rowId entries).program .shipped 1) v := by
  obtain ⟨w₀, w₁, left, bounded₀, opens, large, given⟩ := reopened_smaller
  obtain ⟨v, w, one, calls, counted, countedThen⟩ := given.calls
  refine ⟨w₀, w₁, w, left, calls, openedCapacity left bounded₀ opens (by decide) (fun fewer => ?_) calls
    (by decide) ?_⟩
  · exact absurd fewer.2 (Nat.not_lt.mpr large)
  · intro before column rowId entries ok after u rows split earlier counts _
    have few : rows = 1 := by
      match before, split with
      | [], _ =>
        cases earlier.unique .start
        rw [counts] at counted
        exact Option.some.inj counted
      | [step], split =>
        obtain rfl : (replaceRow, true) = step := (List.cons.inj split).1
        cases earlier.unique one
        rw [counts] at countedThen
        exact Option.some.inj countedThen
      | _ :: _ :: _, split => simp [replaceAndAdd] at split
    rw [few]
    norm_num [sixteenRows]

theorem reopened_larger : ∃ w₀ w₁, LeftBy .shipped 0 [] w₀ ∧ Bounded (openReadWrite .shipped 1 (thirtyTwoRows (1 / 16))) w₀ ∧
    Runs (openReadWrite .shipped 1 (thirtyTwoRows (1 / 16))) w₀ () w₁ ∧ Bounded (addRow.program .shipped 1) w₁ ∧
    (run system (addRow.program .shipped 1) w₁).error? = some capacityExceeded ∧ (run system rowCount w₁).value? = some 1 ∧
    ((run system (findRowBucket .shipped [2] 6 (HashFunctions.shipped.hashString [2]) 1) w₁).value?.all fun lookup =>
      !lookup.found) = true := by
  obtain ⟨w, history, bounded, later⟩ := @History.exists_of_replay .shipped 0 (sixteenRows (1 / 16)) oneRowCalls
    (oneRowCalls.map fun call => (call, true))
    (fun w => Bounded (openReadWrite .shipped 1 (thirtyTwoRows (1 / 16))) w.shut ∧
      ((run system (openReadWrite .shipped 1 (thirtyTwoRows (1 / 16))) w.shut).state?.any fun w₁ =>
        decide (Bounded (addRow.program .shipped 1) w₁ ∧
          (run system (addRow.program .shipped 1) w₁).error? = some capacityExceeded ∧
          (run system rowCount w₁).value? = some 1 ∧
          ((run system (findRowBucket .shipped [2] 6 (HashFunctions.shipped.hashString [2]) 1) w₁).value?.all fun lookup =>
            !lookup.found) = true)) = true) _ (by decide +kernel)
  obtain ⟨s, active, _⟩ := history.active
  obtain ⟨w₁, opened, _⟩ := reopen_runs active (by decide +kernel : (thirtyTwoRows (1 / 16)).Accepted) 0 bounded
  rw [opened, Outcome.state?, Option.any_some, decide_eq_true_eq] at later
  exact ⟨w.shut, w₁, .sessions history (close_runs active), bounded, opened, later⟩

/-- The row index of 16 buckets is kept although 32 are asked for: the second
row is refused. -/
theorem reopened_larger_refuses : ∃ w₀ w₁ count, LeftBy .shipped 0 [] w₀ ∧
    Bounded (openReadWrite .shipped 1 (thirtyTwoRows (1 / 16))) w₀ ∧ Runs (openReadWrite .shipped 1 (thirtyTwoRows (1 / 16))) w₀ () w₁ ∧
    Bounded (addRow.program .shipped 1) w₁ ∧ roundUpPowerOfTwo (thirtyTwoRows (1 / 16)).initialRowBucketCount = some 32 ∧
    Runs rowCount w₁ count w₁ ∧ WithinLoad .shipped 1 w₁ ([2], 6) (thirtyTwoRows (1 / 16)).maxLoadFactor count 32 ∧
    RaisesCapacity (addRow.program .shipped 1) w₁ := by
  obtain ⟨w₀, w₁, left, bounded₀, opens, bounded, failed, counted, missing⟩ := reopened_larger
  obtain ⟨s, active, _⟩ := left.opened bounded₀ opens
  have counts := rowCount_runs active.rows
  have new : ¬ StoresRow .shipped 1 w₁ ([2], 6) := by
    rintro ⟨lookup, ran, found⟩
    rw [ran, Outcome.value?, Option.all_some, found] at missing
    cases missing
  have one : (s.live.map RowRecord.key).dedup.length = 1 := by
    rw [counts] at counted
    exact Option.some.inj counted
  refine ⟨w₀, w₁, _, left, bounded₀, opens, bounded, by decide, counts, ?_, Outcome.exists_of_error? failed⟩
  rw [one]
  exact ⟨fun stored => absurd stored new, fun _ => by norm_num [thirtyTwoRows, sixteenRows]⟩

end Promise

end LumoDB
