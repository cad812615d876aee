import LumoDB.Replay

namespace LumoDB
open ByteCodec Effects LinearProbing

section Objects
variable {H : HashFunctions} {retries : Nat} {start options : DatabaseOptions} {trace : Trace} {w : World}
  {objects : ObjectLog}

theorem ObjectStore.sameAnswer {w' : World} (store : ObjectStore H w objects) (store' : ObjectStore H w' objects)
    (isOpen : w.members.isOpen = true) (isOpen' : w'.members.isOpen = true) (column key : Bytes) :
    SameAnswer (getStruct H column key) w w' := by
  cases held : putAll (fun _ => none) objects (column, key) with
  | some value => exact .ok (getStruct_runs store isOpen held) (getStruct_runs store' isOpen' held)
  | none => exact .error (getStruct_absent store isOpen held) (getStruct_absent store' isOpen' held)

/-- In every state of every run `GetStruct` returns the value of the last
record written for the pair, and `EntryCount` the number of distinct pairs.
Every further call returns, and every `Open` returns Ok. -/
theorem objects_refine (history : History H retries start trace w) :
    (∀ column key,
      (∀ value, putAll (fun _ => none) (written trace) (column, key) = some value →
        Runs (getStruct H column key) w value w) ∧
      (putAll (fun _ => none) (written trace) (column, key) = none →
        ∃ message, run system (getStruct H column key) w = .error (.notFound message) w)) ∧
    Runs entryCount w ((written trace).map Prod.fst).dedup.length w ∧
    ∀ call : Call, call.Contract (written trace) → Bounded (call.program H (retries + 1)) w →
      ∃ ok w', Returns (call.program H (retries + 1)) w ok w' ∧ ((∃ options, call = .reopen options) → ok = true) := by
  obtain ⟨s, active, _⟩ := history.active
  have isOpen := active.serving.isOpen
  exact ⟨fun column key => ⟨fun value held => getStruct_runs active.objects isOpen held,
    fun absent => ⟨_, getStruct_absent active.objects isOpen absent⟩⟩, entryCount_runs active.objects,
    fun call contract bounded => history.progress contract bounded⟩

end Objects

section Example

def sampleCalls : List Call :=
  [.put [1] [7], .putStructs [2] [⟨[1], [8]⟩, ⟨[1], [9]⟩], .putRowStructs [3] 4 [⟨[5], [6]⟩],
    .reopen (smallOptions 3), .putUniqueStructs [2] [⟨[4], []⟩]]

theorem sample_history : ∃ w, History .shipped 0 (smallOptions 2) (sampleCalls.map fun call => (call, true)) w ∧
    Bounded (openReadWrite .shipped 1 (smallOptions 3)) (w.shut.setFile .index (some [1])) :=
  @History.exists_of_replay _ _ _ sampleCalls _
    (fun w => Bounded (openReadWrite .shipped 1 (smallOptions 3)) (w.shut.setFile .index (some [1]))) _
    (by decide +kernel)

theorem objects_refine_sample : ∃ w, Runs (getStruct .shipped [2] [1]) w [9] w ∧ Runs entryCount w 3 w := by
  obtain ⟨w, history, _⟩ := sample_history
  exact ⟨w, ((objects_refine history).1 [2] [1]).1 [9] (by decide), (objects_refine history).2.1⟩

end Example

section Rebuild
variable {H : HashFunctions} {retries : Nat} {start options : DatabaseOptions} {trace : Trace} {w : World}
  {objects : ObjectLog} {rows live : RowLog} {count : Nat}

/-- A file that the layout check of the object index rejects without reading
past its end. -/
def RejectedIndex (b : Bytes) : Prop :=
  b.length < 2 ^ 63 ∧
    Runs (hasValidIndexLayout b.length) (World.withMapped {} .index b) false (World.withMapped {} .index b)

theorem RejectedIndex.refused {b : Bytes} (rejected : RejectedIndex b) : ¬ Accepted b ∧ ¬ Overreads b := by
  obtain ⟨_, verdict, inside⟩ := hasValidIndexLayout_inv (World.sees_withMapped {} .index b) rejected.1 rejected.2
  exact ⟨fun accepted => (nomatch verdict.mpr accepted), inside⟩

theorem Resting.replaceIndex (rest : Resting H w objects rows live count) {index : Option Bytes}
    (rejected : ∀ b, index = some b → RejectedIndex b) : Resting H (w.setFile .index index) objects rows live count where
  closed := rest.closed
  unmapped := rest.unmapped
  directory := rest.directory
  values := by simpa [ValuesOnDisk, World.setFile] using rest.values
  small := rest.small
  fits := rest.fits
  index b present := Or.inl (rejected b (by simpa [World.setFile] using present)).refused
  archive := ⟨fun i => by simpa [World.setFile] using rest.archive.disk i, rest.archive.small, rest.archive.complete⟩
  rowIndex := by simpa [RowIndexOnDisk, RowIndexRejected, World.setFile] using rest.rowIndex
  covers := rest.covers

/-- A closed database opens with its object index removed or replaced by a
file that fails the layout check. -/
theorem Active.opens_replaced {s : RowState} (active : Active H w objects s) (accepted : options.Accepted)
    {index : Option Bytes} (rejected : ∀ b, index = some b → RejectedIndex b)
    (bounded : Bounded (openReadWrite H (retries + 1) options) (w.shut.setFile .index index)) :
    ∃ w' s', Runs (openReadWrite H (retries + 1) options) (w.shut.setFile .index index) () w' ∧ Active H w' objects s' := by
  obtain ⟨live', rest⟩ : ∃ live', Resting H w.shut objects s.rows live' options.rowShardCount := by
    by_cases again : options.rowShardCount = s.count
    · rw [again]
      exact ⟨s.live, active.resting (Or.inr active.keepsIndex) active.covers⟩
    · exact ⟨_, active.resting (Or.inl (active.rejectsIndex again)) (covers_scanLog s.rows _)⟩
  obtain ⟨w', _, _, opened, active', _⟩ := openReadWrite_runs (rest.replaceIndex rejected) accepted retries bounded
  exact ⟨w', _, opened, active'⟩

/-- With its object index removed or replaced by a file that fails the layout
check, the database opens and serves the same objects. -/
theorem rebuilt_index_serves (history : History H retries start trace w) (accepted : options.Accepted)
    {index : Option Bytes} (rejected : ∀ b, index = some b → RejectedIndex b)
    (bounded : Bounded (openReadWrite H (retries + 1) options) (w.shut.setFile .index index)) :
    Runs close w () w.shut ∧
    ∃ w', Runs (openReadWrite H (retries + 1) options) (w.shut.setFile .index index) () w' ∧
      (∀ column key, SameAnswer (getStruct H column key) w w') ∧ SameAnswer entryCount w w' ∧
      w'.members.appendOffset = w.members.appendOffset := by
  obtain ⟨s, active, _⟩ := history.active
  obtain ⟨w', _, opened, active'⟩ := active.opens_replaced accepted rejected bounded
  refine ⟨close_runs active, w', opened, fun column key => active.objects.sameAnswer active'.objects
    active.serving.isOpen active'.serving.isOpen column key, .ok (entryCount_runs active.objects)
    (entryCount_runs active'.objects), ?_⟩
  obtain ⟨_, _, _, _, files⟩ := active.objects
  obtain ⟨_, _, _, _, files'⟩ := active'.objects
  rw [files.appendOffset, files'.appendOffset]

theorem rebuilt_index_serves_sample : ∃ w w', Runs close w () w.shut ∧
    Runs (openReadWrite .shipped 1 (smallOptions 3)) (w.shut.setFile .index (some [1])) () w' ∧
    SameAnswer (getStruct .shipped [2] [1]) w w' := by
  obtain ⟨w, history, bounded⟩ := sample_history
  have rejected : ∀ b, some [1] = some b → RejectedIndex b := by
    rintro b ⟨⟩
    exact ⟨by decide, rfl⟩
  obtain ⟨closed, w', opened, same, _, _⟩ := rebuilt_index_serves history (by decide +kernel) rejected bounded
  exact ⟨w, w', closed, opened, same [2] [1]⟩

end Rebuild

end LumoDB
