import LumoDB.ColumnContents
import LumoDB.RowFaults

namespace LumoDB
open ByteCodec Effects LinearProbing

/-- The steps of a machine on which only writes to the shard files can fail. -/
abbrev failingBlocks : Steps signature World := failing (fun _ => False) fun file => ∃ i, file = .rowShard i

/-- The runs of row writes, in which the writes of blocks can fail, and of
sessions with `count` shards. `m` holds the rows of the calls that returned
Ok. -/
inductive RowAppends (H : HashFunctions) (retries count : Nat) : (RowKey → Option RowMap) → World → Prop where
  | opened {w} {options : DatabaseOptions} (accepted : options.Accepted) (counted : options.rowShardCount = count)
      (bounded : Bounded (openReadWrite H (retries + 1) options) {})
      (opens : Runs (openReadWrite H (retries + 1) options) {} () w) : RowAppends H retries count noRows w
  | put {m w w'} {call : Call} (before : RowAppends H retries count m w) (puts : call.PutsRow)
      (bounded : Bounded (call.program H (retries + 1)) w)
      (done : Finishes failingBlocks (call.program H (retries + 1)) w () w') : RowAppends H retries count (call.apply m) w'
  | failed {m w e w'} {call : Call} (before : RowAppends H retries count m w) (puts : call.PutsRow)
      (bounded : Bounded (call.program H (retries + 1)) w)
      (fails : Fails failingBlocks (call.program H (retries + 1)) w e w') : RowAppends H retries count m w'
  | reopened {m w w₁ w'} {options : DatabaseOptions} (before : RowAppends H retries count m w) (accepted : options.Accepted)
      (counted : options.rowShardCount = count) (closes : Runs close w () w₁)
      (bounded : Bounded (openReadWrite H (retries + 1) options) w₁)
      (opens : Runs (openReadWrite H (retries + 1) options) w₁ () w') : RowAppends H retries count m w'

section Runs
variable {H : HashFunctions} {w w' : World} {count n retries : Nat} {m : RowKey → Option RowMap} {shards : Nat → Bytes} {b : Bytes}
  {slot : Nat → Option RowKey} {ref : RowKey → BlockRef}

theorem failingBlocks_rows (o : Op) (s : World) (r : o.Resp) (t : World) (step : failingBlocks o s r t) : failingRows o s r t := by
  rcases step with done | failed
  · exact Or.inl done
  · cases o with
    | readAt file offset size => exact failed.1.elim
    | writeAt file offset data => exact Or.inr failed
    | _ => exact failed.elim

/-- The shard files of a session with `count` shards, and no others. -/
structure OneCount (w : World) (count : Nat) : Prop where
  counted : w.members.options.rowShardCount = count
  unused : ∀ i, count ≤ i → w.disk (.rowShard i) = some rowValueFileHeader.encode ∨ w.disk (.rowShard i) = none ∨
    w.disk (.rowShard i) = some []

theorem OneCount.step (one : OneCount w count) (step : RowStep w w') : OneCount w' count := by
  refine ⟨step.options ▸ one.counted, fun i above => ?_⟩
  rw [step.unused i (one.counted.symm ▸ above)]
  exact one.unused i above

/-- Every state of such a run serves the rows of the calls that returned Ok. -/
theorem RowAppends.holed (appends : RowAppends H retries count m w) :
    OneCount w count ∧ ∃ shards b n slot ref, Holed H [] m w shards b n slot ref := by
  induction appends with
  | opened accepted counted bounded opens =>
    subst counted
    have active := first_open accepted bounded opens
    exact ⟨⟨active.count, fun i _ => (active.archive.disk i).imp_right And.right⟩, active.holed⟩
  | put before puts bounded done ih =>
    obtain ⟨one, shards, b, n, slot, ref, holed⟩ := ih
    obtain ⟨shards', b', slot', ref', holed', step⟩ := holed.put puts bounded (done.mono failingBlocks_rows)
    exact ⟨one.step step, shards', b', n, slot', ref', holed'⟩
  | failed before puts bounded fails ih =>
    obtain ⟨one, shards, b, n, slot, ref, holed⟩ := ih
    obtain ⟨shards', b', holed', step, _⟩ := holed.fails puts bounded (fails.mono failingBlocks_rows)
    exact ⟨one.step step, shards', b', n, slot, ref, holed'⟩
  | reopened before accepted counted closes bounded opens ih =>
    obtain ⟨one, shards, b, n, slot, ref, holed⟩ := ih
    obtain ⟨_, rfl⟩ := Runs.unique closes holed.close_runs
    obtain ⟨holed', counted', unused⟩ := holed.reopened accepted (counted.trans one.counted.symm) bounded opens
    rw [counted] at counted' unused
    exact ⟨⟨counted', fun i above => unused i above ▸ one.unused i above⟩, shards, b, n, slot, ref, holed'⟩

/-- The shard files of complete blocks can be scanned. -/
theorem Holed.resting {stored : RowLog} (holed : Holed H [] m w shards b n slot ref) (one : OneCount w count)
    (complete : ∀ r ∈ stored, r.Complete H ∧ r.shardId < count)
    (content : ∀ i < count, w.disk (.rowShard i) = some (shardBytes stored i)) :
    Resting H (w.shut.setFile .rowIndex none) [] stored (scanLog stored 0 count) count := by
  obtain ⟨values, small, _, index⟩ := holed.left
  have outside : ∀ i, count ≤ i → shardLog stored i = [] := fun i above => by
    refine List.filter_eq_nil_iff.mpr fun r member => ?_
    have below := (complete r member).2
    simp only [decide_eq_true_eq]
    omega
  exact
    { closed := rfl
      unmapped := fun _ => rfl
      directory := holed.directory
      values := by simpa [ValuesOnDisk, World.setFile] using values
      small := small
      fits := nofun
      index := by simpa [IndexOnDisk, World.setFile] using index
      archive := by
        refine ⟨fun i => ?_, fun i => ?_, fun r member => (complete r member).1⟩
        · have disk : (w.shut.setFile .rowIndex none).disk (.rowShard i) = w.disk (.rowShard i) := by
            simp [World.setFile, World.shut, World.setMembers]
          rw [disk]
          by_cases below : i < count
          · exact Or.inl (content i below)
          · rw [shardBytes, outside i (by omega)]
            exact (one.unused i (by omega)).imp_right fun fresh => ⟨rfl, fresh⟩
        · by_cases below : i < count
          · have held := holed.store.reads.content i (by rw [one.counted]; exact below)
            rw [← Option.some.inj (held.symm.trans (content i below))]
            exact holed.store.reads.small i (by rw [one.counted]; exact below)
          · rw [shardBytes, outside i (by omega)]
            exact rowHeader_length.trans_lt (by decide)
      rowIndex := Or.inl fun b present => by simp [World.setFile] at present
      covers := covers_scanLog stored count }

end Runs

section Samples

instance : DecidablePred fun file : FileId => ∃ i, file = .rowShard i
  | .rowShard i => isTrue ⟨i, rfl⟩
  | .values => isFalse nofun
  | .index => isFalse nofun
  | .rowIndex => isFalse nofun
  | .migrating => isFalse nofun

/-- What a row write leaves whose block is not stored but for `amount` bytes. -/
def afterTornRow (amount : Nat) (call : Call) (w : World) : Option World :=
  if Bounded (call.program .shipped 1) w then
    match run (tearing (fun file => ∃ i, file = .rowShard i) amount (.ioError "pwritev")) (call.program .shipped 1) w with
    | .error _ w' => some w'
    | _ => none
  else none

theorem afterTornRow_fails {amount : Nat} {call : Call} {w w' : World} (torn : afterTornRow amount call w = some w') :
    Bounded (call.program .shipped 1) w ∧ ∃ e, Fails failingBlocks (call.program .shipped 1) w e w' := by
  unfold afterTornRow at torn
  split at torn
  · rename_i bounded
    split at torn
    · rename_i e w'' failed
      cases torn
      exact ⟨bounded, e, fails_of_run (fun _ _ _ _ => tearing_failing) failed⟩
    · cases torn
  · cases torn

/-- Row writes of which none meets a failing system call. -/
theorem RowAppends.of_calls {H : HashFunctions} {retries count : Nat} {objects : ObjectLog} {origin w : World} {trace : Trace}
    (calls : Calls H retries objects origin trace w) (first : RowAppends H retries count noRows origin)
    (puts : ∀ step ∈ trace, step.1.PutsRow) : RowAppends H retries count (rowsAfter trace) w := by
  induction calls with
  | start => exact first
  | @call trace w call ok w' before contract bounded returns ih =>
    have earlier := ih fun step member => puts step (List.mem_append_left _ member)
    have here := puts (call, ok) (List.mem_append_right _ (List.mem_singleton_self _))
    rw [rowsAfter_append]
    cases returns with
    | ok runs => exact .put earlier here bounded (finishes_of_run (fun _ _ _ _ done => Or.inl done) runs)
    | error failed => exact .failed earlier here bounded (fails_of_run (fun _ _ _ _ done => Or.inl done) failed)

def storedRow : Call := .putRowStructs [1] 4 [⟨[2], [3]⟩]

def tornRow : Call := .putRowStructs [1] 5 [⟨[2], [7]⟩]

end Samples

end LumoDB
