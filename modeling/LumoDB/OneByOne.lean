import LumoDB.ObjectRefinement

namespace LumoDB
open ByteCodec Effects LinearProbing

section Each
variable (H : HashFunctions) (column : Bytes)

/-- One `PutStruct` call for each entry. -/
def putEach : List StructEntry → Db Unit
  | [] => pure ()
  | entry :: later => do
    putStruct H column entry.key entry.flatBufferBytes
    putEach later

end Each

section Calls
variable {H : HashFunctions} {w : World} {log : ObjectLog} {column : Bytes} {entries : List StructEntry}

theorem Serving.withObjects (serving : Serving w) (v b : Bytes) : Serving (w.withObjects v b) :=
  ⟨serving.isOpen, serving.writable, serving.load⟩

theorem acceptsStructs_single {entry : StructEntry} (columnFits : column.length < 2 ^ 32)
    (keyFits : entry.key.length < 2 ^ 32) : AcceptsStructs column [⟨entry.key, entry.flatBufferBytes⟩] :=
  ⟨columnFits, fun _ member => by rwa [List.mem_singleton.mp member]⟩

/-- The calls in turn leave the records that the batch leaves. -/
theorem putEach_runs (store : ObjectStore H w log) (serving : Serving w) (accepted : AcceptsStructs column entries)
    (bounded : Bounded (putEach H column entries) w) :
    ∃ w', Runs (putEach H column entries) w () w' ∧ ObjectStore H w' (log ++ recordsOf column entries) ∧
      Serving w' := by
  induction entries generalizing w log with
  | nil => exact ⟨w, rfl, by rwa [recordsOf, List.map_nil, List.append_nil], serving⟩
  | cons entry later ih =>
    have keyFits := accepted.2 entry List.mem_cons_self
    obtain ⟨b, put, store'⟩ := writeStructs_upsert_runs store serving
      (acceptsStructs_single accepted.1 keyFits) bounded.first
    obtain ⟨w', rest, store'', serving'⟩ := ih store' (serving.withObjects _ b)
      ⟨accepted.1, fun e member => accepted.2 e (List.mem_cons_of_mem entry member)⟩ (bounded.rest put)
    refine ⟨w', ?_, ?_, serving'⟩
    · unfold Runs putEach
      rw [Prog.bind_eq, Runs.bind (p := putStruct H column _ _) put]
      exact rest
    · rwa [List.append_assoc] at store''

/-- The calls in turn are refused at the first entry that does not fit. -/
theorem putEach_rejects (store : ObjectStore H w log) (serving : Serving w) (given : entries ≠ [])
    (rejected : ¬ AcceptsStructs column entries) (bounded : Bounded (putEach H column entries) w) :
    ∃ message w', run system (putEach H column entries) w = .error (.invalidArgument message) w' := by
  induction entries generalizing w log with
  | nil => exact absurd rfl given
  | cons entry later ih =>
    unfold putEach
    by_cases fits : column.length < 2 ^ 32 ∧ entry.key.length < 2 ^ 32
    · obtain ⟨b, put, store'⟩ := writeStructs_upsert_runs store serving
        (acceptsStructs_single fits.1 fits.2) bounded.first
      have long : ¬ AcceptsStructs column later := fun accepted => rejected ⟨fits.1, fun e member => by
        rcases List.mem_cons.mp member with rfl | after
        · exact fits.2
        · exact accepted.2 e after⟩
      have more : later ≠ [] := by
        rintro rfl
        exact long ⟨fits.1, nofun⟩
      rw [Prog.bind_eq, Runs.bind (p := putStruct H column _ _) put]
      exact ih store' (serving.withObjects _ b) more long (bounded.rest put)
    · have refuses : ¬ AcceptsStructs column [⟨entry.key, entry.flatBufferBytes⟩] := fun accepted =>
        fits ⟨accepted.1, accepted.2 _ (List.mem_singleton_self _)⟩
      obtain ⟨message, refused⟩ := writeStructs_rejects (H := H) serving refuses false
      exact ⟨message, w, run_bind_error system refused _⟩

end Calls

section Equivalence
variable {H : HashFunctions} {retries : Nat} {start : DatabaseOptions} {trace : Trace} {w : World} {column : Bytes}
  {entries : List StructEntry}

/-- `PutStructs` of a batch and one `PutStruct` for each of its entries leave
the same value file, the same append offset and the same answers. Where a size
does not fit its 32-bit field both return InvalidArgument. -/
theorem batch_eq_one_by_one (history : History H retries start trace w) (given : entries ≠ [])
    (bounded : Bounded (putStructs H column entries) w) (boundedEach : Bounded (putEach H column entries) w) :
    (AcceptsStructs column entries → ∃ w₁ w₂, Runs (putStructs H column entries) w () w₁ ∧
      Runs (putEach H column entries) w () w₂ ∧ w₁.disk .values = w₂.disk .values ∧
      w₁.members.appendOffset = w₂.members.appendOffset ∧
      (∃ count, Runs entryCount w₁ count w₁ ∧ Runs entryCount w₂ count w₂) ∧
      ∀ column key, SameAnswer (getStruct H column key) w₁ w₂) ∧
    (¬ AcceptsStructs column entries → ∃ message message' w₂,
      run system (putStructs H column entries) w = .error (.invalidArgument message) w ∧
      run system (putEach H column entries) w = .error (.invalidArgument message') w₂) := by
  obtain ⟨s, active, _⟩ := history.active
  have serving := active.serving
  constructor
  · intro accepted
    obtain ⟨b, batch, store₁⟩ := writeStructs_upsert_runs active.objects serving accepted bounded
    obtain ⟨w₂, each, store₂, serving₂⟩ := putEach_runs active.objects serving accepted boundedEach
    have count₁ := entryCount_runs store₁
    have count₂ := entryCount_runs store₂
    have answers := store₁.sameAnswer store₂ (serving.withObjects _ b).isOpen serving₂.isOpen
    obtain ⟨_, _, _, _, files₁⟩ := store₁
    obtain ⟨_, _, _, _, files₂⟩ := store₂
    exact ⟨_, w₂, batch, each, files₁.content.trans files₂.content.symm,
      files₁.appendOffset.trans files₂.appendOffset.symm, ⟨_, count₁, count₂⟩, answers⟩
  · intro rejected
    obtain ⟨message, refused⟩ := writeStructs_rejects (H := H) serving rejected false
    obtain ⟨message', w₂, refused'⟩ := putEach_rejects active.objects serving given rejected boundedEach
    exact ⟨message, message', w₂, refused, refused'⟩

def twiceOverwritten : List StructEntry := [⟨[1], [5]⟩, ⟨[4], []⟩, ⟨[1], [6]⟩]

theorem batch_eq_one_by_one_sample : ∃ w w₁ w₂, History .shipped 0 (smallOptions 1) [(.putStructs [2] [⟨[1], [7]⟩], true)] w ∧
    Runs (putStructs .shipped [2] twiceOverwritten) w () w₁ ∧ Runs (putEach .shipped [2] twiceOverwritten) w () w₂ ∧
    w₁.disk .values = w₂.disk .values := by
  obtain ⟨w, history, bounded, boundedEach⟩ := @History.exists_of_replay .shipped 0 (smallOptions 1)
    [.putStructs [2] [⟨[1], [7]⟩]] [(.putStructs [2] [⟨[1], [7]⟩], true)]
    (fun w => Bounded (putStructs .shipped [2] twiceOverwritten) w ∧ Bounded (putEach .shipped [2] twiceOverwritten) w) _
    (by decide +kernel)
  obtain ⟨w₁, w₂, batch, each, same, _⟩ :=
    (batch_eq_one_by_one history (by decide) bounded boundedEach).1 ⟨by decide, by decide⟩
  exact ⟨w, w₁, w₂, history, batch, each, same⟩

end Equivalence

end LumoDB
