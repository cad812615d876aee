import LumoDB.History

namespace LumoDB
open ByteCodec Effects LinearProbing

section Decide

instance (options : DatabaseOptions) : Decidable options.Accepted :=
  decidable_of_iff ((0 < options.maxLoadFactor ∧ options.maxLoadFactor < 95 / 100) ∧ options.rowShardCount ≠ 0)
    ⟨fun ⟨load, shards⟩ => ⟨load, shards⟩, fun accepted => ⟨accepted.load, accepted.shards⟩⟩

instance (log : ObjectLog) (column : Bytes) (entries : List StructEntry) : Decidable (FreshKeys log column entries) :=
  inferInstanceAs (Decidable (_ ∧ _))

instance (log : ObjectLog) : (call : Call) → Decidable (call.Contract log)
  | .putUniqueStructs column entries => inferInstanceAs (Decidable (FreshKeys log column entries))
  | .reopen options => inferInstanceAs (Decidable options.Accepted)
  | .put _ _ | .putStruct _ _ _ | .putStructs _ _ | .getStruct _ _ | .entryCount | .putRowStructs _ _ _
  | .putRowStruct _ _ _ _ | .getRowStruct _ _ _ | .rowCount | .flush => isTrue trivial

end Decide

/-- The two states give the same answer to a reading call, which changes
neither. -/
inductive SameAnswer {α : Type} (p : Db α) (w w' : World) : Prop where
  | ok {a} : Runs p w a w → Runs p w' a w' → SameAnswer p w w'
  | error {e} : run system p w = .error e w → run system p w' = .error e w' → SameAnswer p w w'

/-- Options with the smallest indexes. -/
def smallOptions (shards : Nat) (bound : shards < 2 ^ 32 := by decide) : DatabaseOptions where
  initialBucketCount := 16
  initialRowBucketCount := 16
  rowShardCount := shards
  rowShardCount_lt := bound

/-- The calls in turn, as long as each keeps its contract and its bounds. -/
def replayCalls (H : HashFunctions) (retries : Nat) (objects : ObjectLog) : List Call → Trace → World → Option (Trace × World)
  | [], trace, w => some (trace, w)
  | call :: later, trace, w =>
    if call.Contract (objects ++ written trace) ∧ Bounded (call.program H (retries + 1)) w then
      match run system (call.program H (retries + 1)) w with
      | .ok () w' => replayCalls H retries objects later (trace ++ [(call, true)]) w'
      | .error _ w' => replayCalls H retries objects later (trace ++ [(call, false)]) w'
      | _ => none
    else none

def replay (H : HashFunctions) (retries : Nat) (start : DatabaseOptions) (calls : List Call) : Option (Trace × World) :=
  if start.Accepted ∧ Bounded (openReadWrite H (retries + 1) start) {} then
    match run system (openReadWrite H (retries + 1) start) {} with
    | .ok () w => replayCalls H retries [] calls [] w
    | _ => none
  else none

section Sound
variable {H : HashFunctions} {retries : Nat} {start : DatabaseOptions} {objects : ObjectLog} {origin w : World}
  {calls : List Call} {before trace : Trace}

theorem Calls.of_replay {w₀ : World} (history : Calls H retries objects origin before w₀)
    (replayed : replayCalls H retries objects calls before w₀ = some (trace, w)) :
    Calls H retries objects origin trace w := by
  induction calls generalizing before w₀ with
  | nil =>
    cases replayed
    exact history
  | cons call later ih =>
    unfold replayCalls at replayed
    split at replayed
    · rename_i kept
      split at replayed
      · rename_i w' ran
        exact ih (.call history kept.1 kept.2 (.ok ran)) replayed
      · rename_i e w' ran
        exact ih (.call history kept.1 kept.2 (.error ran)) replayed
      · cases replayed
    · cases replayed

/-- A replay is a run. -/
theorem History.of_replay (replayed : replay H retries start calls = some (trace, w)) :
    History H retries start trace w := by
  unfold replay at replayed
  split at replayed
  · rename_i kept
    split at replayed
    · rename_i origin opens
      exact .opened kept.1 kept.2 opens (Calls.of_replay .start replayed)
    · cases replayed
  · cases replayed

/-- A replay that ends with a given trace in a state with a property gives
such a run. -/
theorem History.exists_of_replay {P : World → Prop} [DecidablePred P]
    (replayed : (replay H retries start calls).any (fun result => decide (result.1 = trace ∧ P result.2)) = true) :
    ∃ w, History H retries start trace w ∧ P w := by
  cases ended : replay H retries start calls with
  | none =>
    rw [ended] at replayed
    cases replayed
  | some result =>
    rw [ended, Option.any_some, decide_eq_true_eq] at replayed
    obtain ⟨rfl, holds⟩ := replayed
    exact ⟨result.2, History.of_replay ended, holds⟩

end Sound

end LumoDB
