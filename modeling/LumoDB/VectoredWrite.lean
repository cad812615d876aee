import LumoDB.CheckedOpen
import LumoDB.Faults

namespace LumoDB
open ByteCodec Effects

structure WriteSlice where
  data : Nat
  size : Nat
  deriving DecidableEq, Repr

structure Iovec where
  iov_base : Nat
  iov_len : Nat
  deriving DecidableEq, Repr

/-- What a `pwritev` call returns: the bytes written, or `-1` with `EINTR` or
with another error. -/
inductive Answer where
  | wrote (writeSize : Nat)
  | interrupted
  | failed (reason : String)
  deriving DecidableEq, Repr

/-- A call of `pwritev` with the array of vectors from its pointer on. -/
inductive FileCall where
  | pwritev (iov : List Iovec) (iovcnt offset : Int)

abbrev fileCalls : Signature := ⟨FileCall, fun _ => Answer⟩

/-- The memory of the process, one open file, and the answers the kernel will
give to the calls to come. -/
structure Kernel where
  memory : Nat → UInt8
  file : Bytes
  answers : Nat → Answer
  calls : Nat := 0

/-- The bytes the vectors designate, one vector after the other. -/
def gather (memory : Nat → UInt8) (iov : List Iovec) : Bytes :=
  iov.flatMap fun vector => (List.range' vector.iov_base vector.iov_len).map memory

/-- One system call. It reads no vector past the array. A count that is no
prefix of the request, or a negative offset, is an invalid argument. -/
def kernel : Handler fileCalls Kernel
  | .pwritev iov iovcnt offset, s =>
    if (iov.length : Int) < iovcnt then none
    else
      let next := { s with calls := s.calls + 1 }
      match s.answers s.calls with
      | .wrote count =>
        let requested := gather s.memory (iov.take iovcnt.toNat)
        if count = 0 then some (.wrote 0, next)
        else if 0 ≤ offset ∧ count ≤ requested.length ∧ count < 2 ^ 63 then
          some (.wrote count, { next with file := patch s.file offset.toNat (requested.take count) })
        else some (.failed "Invalid argument", next)
      | answer => some (answer, next)

/-- The inner loop of `WriteVAllAt`. `none` is an index past the array. -/
def consume (vectors : List Iovec) (vectorIndex consumed : Nat) : Option (List Iovec × Nat) :=
  if consumed = 0 then some (vectors, vectorIndex)
  else if inside : vectorIndex < vectors.length then
    let vector := vectors[vectorIndex]
    if consumed < vector.iov_len then
      some (vectors.set vectorIndex ⟨vector.iov_base + consumed, vector.iov_len - consumed⟩, vectorIndex)
    else consume vectors (vectorIndex + 1) (consumed - vector.iov_len)
  else none
termination_by vectors.length - vectorIndex

/-- `static_cast<off_t>` -/
def offT (offset : Nat) : Int := Int.bmod offset (2 ^ 64)

/-- The number of vectors one call is given, as an `int`. -/
def vectorCount (remainingVectors maxVectors : Nat) : Int :=
  Int.bmod (min remainingVectors maxVectors : Nat) (2 ^ 32)

/-- What the loop does with the result of a call. `resume` is its next round. -/
def afterCall (resume : List Iovec → Nat → Nat → Prog fileCalls Status Unit) (vectors : List Iovec)
    (vectorIndex currentOffset : Nat) : Answer → Prog fileCalls Status Unit
  | .interrupted => resume vectors vectorIndex currentOffset
  | .failed reason => .fail (.ioError ("pwritev: " ++ reason))
  | .wrote writeSize =>
    if writeSize = 0 then .fail (.ioError "pwritev wrote zero bytes")
    else
      match consume vectors vectorIndex writeSize with
      | some (vectors', vectorIndex') => resume vectors' vectorIndex' (u64 (currentOffset + writeSize))
      | none => .fault

/-- The outer loop of `WriteVAllAt`, for at most `rounds` system calls. -/
def writeVLoop (maxVectors : Nat) : Nat → List Iovec → Nat → Nat → Prog fileCalls Status Unit
  | 0, _, _, _ => .spin
  | rounds + 1, vectors, vectorIndex, currentOffset =>
    if vectorIndex < vectors.length then
      .op (.pwritev (vectors.drop vectorIndex) (vectorCount (vectors.length - vectorIndex) maxVectors) (offT currentOffset))
        (afterCall (writeVLoop maxVectors rounds) vectors vectorIndex currentOffset)
    else .ret ()

def iovecs (slices : List WriteSlice) : List Iovec :=
  (slices.filter (·.size ≠ 0)).map fun slice => ⟨slice.data, slice.size⟩

/-- The bound of one call, from `sysconf(_SC_IOV_MAX)`. -/
def maxVectorsOf (configuredMaxVectors : Int) : Nat :=
  if configuredMaxVectors > 0 then configuredMaxVectors.toNat else 16

def writeVAllAt (configuredMaxVectors : Int) (rounds : Nat) (slices : List WriteSlice) (offset : Nat) :
    Prog fileCalls Status Unit :=
  if iovecs slices = [] then .ret ()
  else
    writeVLoop (maxVectorsOf configuredMaxVectors) rounds (iovecs slices) 0 offset

/-- The bytes of the slices, one slice after the other. -/
def contents (memory : Nat → UInt8) (slices : List WriteSlice) : Bytes :=
  slices.flatMap fun slice => (List.range' slice.data slice.size).map memory

section Gather
variable (memory : Nat → UInt8)

theorem gather_cons (vector : Iovec) (iov : List Iovec) : gather memory (vector :: iov) =
    (List.range' vector.iov_base vector.iov_len).map memory ++ gather memory iov := rfl

/-- A vector that lost its first bytes designates the rest. -/
theorem gather_split {vector : Iovec} {consumed : Nat} (inside : consumed < vector.iov_len) (iov : List Iovec) :
    gather memory (⟨vector.iov_base + consumed, vector.iov_len - consumed⟩ :: iov) =
      (gather memory (vector :: iov)).drop consumed := by
  have cut : List.range' vector.iov_base vector.iov_len =
      List.range' vector.iov_base consumed ++ List.range' (vector.iov_base + consumed) (vector.iov_len - consumed) := by
    rw [List.range'_append_1]
    congr 1
    omega
  rw [gather_cons, gather_cons, cut, List.map_append, List.append_assoc]
  exact (List.drop_left' (by simp)).symm

theorem gather_skip {vector : Iovec} {consumed : Nat} (past : vector.iov_len ≤ consumed) (iov : List Iovec) :
    (gather memory iov).drop (consumed - vector.iov_len) = (gather memory (vector :: iov)).drop consumed := by
  have front : ((List.range' vector.iov_base vector.iov_len).map memory).length = vector.iov_len := by simp
  rw [gather_cons, List.drop_append, front, List.drop_eq_nil_of_le (front.trans_le past), List.nil_append]

theorem gather_take_prefix (iov : List Iovec) (count : Nat) : gather memory (iov.take count) <+: gather memory iov := by
  conv => rhs; rw [← List.take_append_drop count iov]
  rw [gather, gather, List.flatMap_append]
  exact List.prefix_append _ _

/-- The slices without the empty ones make the same bytes. -/
theorem gather_iovecs (slices : List WriteSlice) : gather memory (iovecs slices) = contents memory slices := by
  induction slices with
  | nil => rfl
  | cons slice slices ih =>
    by_cases empty : slice.size = 0
    · simpa [iovecs, gather, contents, empty] using ih
    · simpa [iovecs, gather, contents, empty] using ih

/-- Consuming what was written leaves the vectors at the bytes that were not,
and stays inside the array. -/
theorem consume_spec {vectors : List Iovec} {vectorIndex consumed : Nat}
    (enough : consumed ≤ (gather memory (vectors.drop vectorIndex)).length) :
    ∃ vectors' vectorIndex', consume vectors vectorIndex consumed = some (vectors', vectorIndex') ∧
      gather memory (vectors'.drop vectorIndex') = (gather memory (vectors.drop vectorIndex)).drop consumed := by
  fun_induction consume vectors vectorIndex consumed with
  | case1 vectorIndex => exact ⟨vectors, vectorIndex, rfl, by rw [List.drop_zero]⟩
  | case2 vectorIndex consumed some_left inside vector splits =>
    refine ⟨_, _, rfl, ?_⟩
    have here : (vectors.set vectorIndex ⟨vector.iov_base + consumed, vector.iov_len - consumed⟩).drop vectorIndex =
        ⟨vector.iov_base + consumed, vector.iov_len - consumed⟩ :: vectors.drop (vectorIndex + 1) := by
      rw [List.drop_eq_getElem_cons (by simpa using inside), List.getElem_set_self, List.drop_set_of_lt (by omega)]
    rw [here, gather_split memory splits, List.drop_eq_getElem_cons inside]
  | case3 vectorIndex consumed some_left inside vector past ih =>
    have skipped := gather_skip memory (Nat.le_of_not_lt past) (vectors.drop (vectorIndex + 1))
    rw [List.drop_eq_getElem_cons inside] at enough ⊢
    obtain ⟨vectors', vectorIndex', done, rest⟩ := ih (by
      rw [gather_cons, List.length_append, List.length_map, List.length_range'] at enough
      exact Nat.sub_le_iff_le_add'.mpr enough)
    exact ⟨vectors', vectorIndex', done, rest.trans skipped⟩
  | case4 vectorIndex consumed some_left outside =>
    rw [List.drop_eq_nil_of_le (Nat.le_of_not_lt outside)] at enough
    exact absurd (Nat.le_zero.mp enough) some_left

end Gather

/-- The file after `data` was written at `offset`. -/
def writtenAt (file : Bytes) (offset : Nat) (data : Bytes) : Bytes :=
  if data = [] then file else patch file offset data

theorem writtenAt_append (file : Bytes) (offset : Nat) (data : Bytes) {more : Bytes} (nonempty : more ≠ []) :
    patch (writtenAt file offset data) (offset + data.length) more = writtenAt file offset (data ++ more) := by
  have joined : data ++ more ≠ [] := fun empty => nonempty (List.append_eq_nil_iff.mp empty).2
  rw [writtenAt, writtenAt, if_neg joined]
  split
  case isTrue empty => rw [empty, List.length_nil, Nat.add_zero, List.nil_append]
  case isFalse => exact patch_adjacent file data more offset

/-- `file'` holds `data` at `offset` and is `file` elsewhere. -/
structure HoldsAt (file : Bytes) (offset : Nat) (data file' : Bytes) : Prop where
  stored : slice file' offset data.length = data
  kept : ∀ i < file.length, i < offset ∨ offset + data.length ≤ i → file'[i]? = file[i]?
  length : file'.length = if data = [] then file.length else max file.length (offset + data.length)

theorem holdsAt_writtenAt (file : Bytes) (offset : Nat) (data : Bytes) :
    HoldsAt file offset data (writtenAt file offset data) := by
  by_cases empty : data = []
  · subst empty
    exact ⟨by simp [slice], fun _ _ _ => rfl, rfl⟩
  · rw [writtenAt, if_neg empty]
    refine ⟨slice_patch_self file data offset, fun i inside apart => ?_, by rw [if_neg empty, patch_length]⟩
    rw [patch_getElem?]
    rcases apart with before | after
    · rw [if_pos before, if_pos inside]
    · rw [if_neg (by omega), if_neg (by omega)]

/-- The loop has written the first `done` bytes of `data` at `offset` and
stands at the next one. -/
structure Writing (memory : Nat → UInt8) (file : Bytes) (offset : Nat) (data : Bytes) (s : Kernel)
    (vectors : List Iovec) (vectorIndex currentOffset done : Nat) : Prop where
  image : s.memory = memory
  content : s.file = writtenAt file offset (data.take done)
  rest : gather memory (vectors.drop vectorIndex) = data.drop done
  within : done ≤ data.length
  position : currentOffset = offset + done
  bound : currentOffset < 2 ^ 64

/-- The last call of `pwritev` wrote no byte or failed, and the status is the
one of that call. -/
def Refused (answers : Nat → Answer) (e : Status) (s : Kernel) : Prop :=
  ∃ call before, before.answers = answers ∧
    (kernel call before = some (.wrote 0, s) ∧ e = .ioError "pwritev wrote zero bytes" ∨
      ∃ reason, kernel call before = some (.failed reason, s) ∧ e = .ioError ("pwritev: " ++ reason))

/-- The outcomes `WriteVAllAt` may have: everything is written, or the error of
a call with a prefix written. `spin` is a bound on the calls that was too small. -/
def WritesPrefix (answers : Nat → Answer) (file : Bytes) (offset : Nat) (data : Bytes) :
    Outcome Status Unit Kernel → Prop
  | .ok _ s => s.file = writtenAt file offset data
  | .error e s => Refused answers e s ∧ ∃ count, count ≤ data.length ∧ s.file = writtenAt file offset (data.take count)
  | .spin => True
  | _ => False

variable {memory : Nat → UInt8} {file data : Bytes} {offset maxVectors : Nat} {s : Kernel} {vectors : List Iovec}
  {vectorIndex currentOffset done : Nat}

theorem Writing.failed (writing : Writing memory file offset data s vectors vectorIndex currentOffset done) :
    ∃ count, count ≤ data.length ∧ s.file = writtenAt file offset (data.take count) :=
  ⟨done, writing.within, writing.content⟩

theorem vectorCount_le (remainingVectors maxVectors : Nat) : vectorCount remainingVectors maxVectors ≤ remainingVectors := by
  unfold vectorCount
  rw [Int.bmod_def]
  push_cast
  split <;> omega

/-- The cast to `off_t` keeps an offset that it does not make negative. -/
theorem offT_nonneg {n : Nat} (bound : n < 2 ^ 64) (positive : 0 ≤ offT n) : offT n = n ∧ n < 2 ^ 63 := by
  unfold offT at positive ⊢
  rw [Int.bmod_def] at positive ⊢
  push_cast at positive ⊢
  split at positive <;> omega

variable (maxVectors) in
/-- One call of the loop: nothing is written, or a nonempty prefix of the rest
is and `consume` moves to what is left. -/
theorem Writing.step (writing : Writing memory file offset data s vectors vectorIndex currentOffset done) :
    ∃ answer s',
    kernel (.pwritev (vectors.drop vectorIndex) (vectorCount (vectors.length - vectorIndex) maxVectors)
      (offT currentOffset)) s = some (answer, s') ∧ s'.answers = s.answers ∧ s'.calls = s.calls + 1 ∧
    (Writing memory file offset data s' vectors vectorIndex currentOffset done ∧
        (answer = .interrupted ∧ s.answers s.calls = .interrupted ∨ (∃ reason, answer = .failed reason) ∨
          answer = .wrote 0) ∨
      ∃ writeSize vectors' vectorIndex', answer = .wrote writeSize ∧ 0 < writeSize ∧ done + writeSize ≤ data.length ∧
        consume vectors vectorIndex writeSize = some (vectors', vectorIndex') ∧
        Writing memory file offset data s' vectors' vectorIndex' (u64 (currentOffset + writeSize))
          (done + writeSize)) := by
  have inside := vectorCount_le (vectors.length - vectorIndex) maxVectors
  generalize vectorCount (vectors.length - vectorIndex) maxVectors = vectorCount at inside
  have array : ¬ ((vectors.drop vectorIndex).length : Int) < vectorCount := by
    rw [List.length_drop]
    omega
  have next : Writing memory file offset data { s with calls := s.calls + 1 } vectors vectorIndex currentOffset done :=
    ⟨writing.image, writing.content, writing.rest, writing.within, writing.position, writing.bound⟩
  cases answered : s.answers s.calls with
  | interrupted =>
    exact ⟨.interrupted, { s with calls := s.calls + 1 }, by simp only [kernel, if_neg array, answered], rfl, rfl,
      .inl ⟨next, .inl ⟨rfl, rfl⟩⟩⟩
  | failed reason =>
    exact ⟨.failed reason, { s with calls := s.calls + 1 }, by simp only [kernel, if_neg array, answered], rfl, rfl,
      .inl ⟨next, .inr (.inl ⟨reason, rfl⟩)⟩⟩
  | wrote count =>
    by_cases zero : count = 0
    · exact ⟨.wrote 0, { s with calls := s.calls + 1 }, by simp only [kernel, if_neg array, answered, if_pos zero], rfl,
        rfl, .inl ⟨next, .inr (.inr rfl)⟩⟩
    by_cases taken : 0 ≤ offT currentOffset ∧
        count ≤ (gather s.memory ((vectors.drop vectorIndex).take vectorCount.toNat)).length ∧ count < 2 ^ 63
    · obtain ⟨nonnegative, short, representable⟩ := taken
      obtain ⟨cast, low⟩ := offT_nonneg writing.bound nonnegative
      rw [writing.image] at short
      have asked := gather_take_prefix memory (vectors.drop vectorIndex) vectorCount.toNat
      have within := short.trans asked.length_le
      obtain ⟨vectors', vectorIndex', consumed, rest⟩ := consume_spec memory within
      have sent : (gather memory ((vectors.drop vectorIndex).take vectorCount.toNat)).take count =
          (data.drop done).take count := by
        rw [← writing.rest, List.prefix_iff_eq_take.mp asked, List.take_take, Nat.min_eq_left short]
      rw [writing.rest, List.length_drop] at within
      have unwrapped : u64 (currentOffset + count) = offset + (done + count) := by
        rw [u64, Nat.mod_eq_of_lt (by omega), writing.position, Nat.add_assoc]
      refine ⟨.wrote count, { s with
          calls := s.calls + 1
          file := patch s.file currentOffset ((data.drop done).take count) }, ?_, rfl, rfl,
        .inr ⟨count, vectors', vectorIndex', rfl, by omega, by have := writing.within; omega, consumed, ?_⟩⟩
      · simp only [kernel, if_neg array, answered, if_neg zero, writing.image]
        rw [if_pos ⟨nonnegative, short, representable⟩, sent, cast, Int.toNat_natCast]
      · refine ⟨writing.image, ?_, ?_, by have := writing.within; omega, unwrapped, by rw [u64]; omega⟩
        · have begun : (data.take done).length = done := List.length_take_of_le writing.within
          have nonempty : (data.drop done).take count ≠ [] := by
            intro empty
            have size := congrArg List.length empty
            rw [List.length_take, List.length_drop, List.length_nil] at size
            omega
          have joined := writtenAt_append file offset (data.take done) nonempty
          rw [begun, ← List.take_add] at joined
          rw [writing.content, writing.position, joined]
        · rw [rest, writing.rest, List.drop_drop]
    · exact ⟨.failed "Invalid argument", { s with calls := s.calls + 1 }, by
        simp only [kernel, if_neg array, answered, if_neg zero, if_neg taken], rfl, rfl,
        .inl ⟨next, .inr (.inl ⟨_, rfl⟩)⟩⟩

theorem Writing.finished (writing : Writing memory file offset data s vectors vectorIndex currentOffset done)
    (ended : ¬ vectorIndex < vectors.length) : s.file = writtenAt file offset data := by
  have rest := writing.rest
  rw [List.drop_eq_nil_of_le (Nat.le_of_not_lt ended)] at rest
  rw [writing.content, List.take_of_length_le (List.drop_eq_nil_iff.mp rest.symm)]

section Loop
variable {s' : Kernel} {rounds : Nat}

theorem run_writeVLoop {answer : Answer} (more : vectorIndex < vectors.length)
    (call : kernel (.pwritev (vectors.drop vectorIndex) (vectorCount (vectors.length - vectorIndex) maxVectors)
      (offT currentOffset)) s = some (answer, s')) :
    run kernel (writeVLoop maxVectors (rounds + 1) vectors vectorIndex currentOffset) s =
      run kernel (afterCall (writeVLoop maxVectors rounds) vectors vectorIndex currentOffset answer) s' := by
  rw [writeVLoop, if_pos more]
  exact run_op_of kernel call _

theorem run_writeVLoop_interrupted (more : vectorIndex < vectors.length)
    (call : kernel (.pwritev (vectors.drop vectorIndex) (vectorCount (vectors.length - vectorIndex) maxVectors)
      (offT currentOffset)) s = some (.interrupted, s')) :
    run kernel (writeVLoop maxVectors (rounds + 1) vectors vectorIndex currentOffset) s =
      run kernel (writeVLoop maxVectors rounds vectors vectorIndex currentOffset) s' :=
  run_writeVLoop more call

theorem run_writeVLoop_wrote {writeSize vectorIndex' nextOffset : Nat} {vectors' : List Iovec} (more : vectorIndex < vectors.length)
    (call : kernel (.pwritev (vectors.drop vectorIndex) (vectorCount (vectors.length - vectorIndex) maxVectors)
      (offT currentOffset)) s = some (.wrote writeSize, s')) (positive : 0 < writeSize)
    (left : consume vectors vectorIndex writeSize = some (vectors', vectorIndex'))
    (moved : u64 (currentOffset + writeSize) = nextOffset) :
    run kernel (writeVLoop maxVectors (rounds + 1) vectors vectorIndex currentOffset) s =
      run kernel (writeVLoop maxVectors rounds vectors' vectorIndex' nextOffset) s' := by
  rw [run_writeVLoop more call, ← moved]
  simp only [afterCall, if_neg positive.ne', left]

variable (maxVectors) in
/-- Whatever the kernel answers, the loop stays inside the array and leaves a
prefix of the bytes in the file, all of them when it returns Ok. Only a call
that wrote nothing or failed ends it early. -/
theorem Writing.outcome (writing : Writing memory file offset data s vectors vectorIndex currentOffset done) (rounds : Nat) :
    WritesPrefix s.answers file offset data
      (run kernel (writeVLoop maxVectors rounds vectors vectorIndex currentOffset) s) := by
  induction rounds generalizing s vectors vectorIndex currentOffset done with
  | zero => trivial
  | succ rounds ih =>
    by_cases more : vectorIndex < vectors.length
    · obtain ⟨answer, s', call, answers, _, ⟨same, stopped⟩ |
          ⟨writeSize, vectors', vectorIndex', rfl, positive, _, left, moved⟩⟩ :=
        writing.step maxVectors
      · rcases stopped with ⟨rfl, _⟩ | ⟨reason, rfl⟩ | rfl
        · rw [run_writeVLoop_interrupted more call, ← answers]
          exact ih same
        · rw [run_writeVLoop more call]
          exact ⟨⟨_, s, rfl, .inr ⟨reason, call, rfl⟩⟩, same.failed⟩
        · rw [run_writeVLoop more call]
          exact ⟨⟨_, s, rfl, .inl ⟨call, rfl⟩⟩, same.failed⟩
      · rw [run_writeVLoop_wrote more call positive left rfl, ← answers]
        exact ih moved
    · rw [writeVLoop, if_neg more]
      exact writing.finished more

/-- More rounds than the loop takes change nothing. -/
theorem Writing.more (writing : Writing memory file offset data s vectors vectorIndex currentOffset done)
    (ended : run kernel (writeVLoop maxVectors rounds vectors vectorIndex currentOffset) s ≠ .spin) (extra : Nat) :
    run kernel (writeVLoop maxVectors (rounds + extra) vectors vectorIndex currentOffset) s =
      run kernel (writeVLoop maxVectors rounds vectors vectorIndex currentOffset) s := by
  induction rounds generalizing s vectors vectorIndex currentOffset done with
  | zero => exact absurd rfl ended
  | succ rounds ih =>
    rw [Nat.add_right_comm]
    by_cases more : vectorIndex < vectors.length
    · obtain ⟨answer, s', call, _, _, ⟨same, stopped⟩ | ⟨writeSize, vectors', vectorIndex', rfl, positive, _, left, moved⟩⟩ :=
        writing.step maxVectors
      · rcases stopped with ⟨rfl, _⟩ | ⟨reason, rfl⟩ | rfl
        · rw [run_writeVLoop_interrupted more call] at ended ⊢
          rw [run_writeVLoop_interrupted more call]
          exact ih same ended
        · rw [run_writeVLoop more call, run_writeVLoop more call]
          rfl
        · rw [run_writeVLoop more call, run_writeVLoop more call]
          rfl
      · rw [run_writeVLoop_wrote more call positive left rfl] at ended ⊢
        rw [run_writeVLoop_wrote more call positive left rfl]
        exact ih moved ended
    · rw [writeVLoop, if_neg more, writeVLoop, if_neg more]

variable (maxVectors) in
/-- The loop ends when no run of interrupted calls goes on forever: every
other call ends it or shortens what is left. -/
theorem Writing.ends (eventually : ∀ n, ∃ m, n ≤ m ∧ s.answers m ≠ .interrupted)
    (writing : Writing memory file offset data s vectors vectorIndex currentOffset done) :
    ∃ rounds, run kernel (writeVLoop maxVectors rounds vectors vectorIndex currentOffset) s ≠ .spin := by
  induction left : data.length - done using Nat.strong_induction_on generalizing s vectors vectorIndex currentOffset done with
  | _ remaining shorter =>
    subst left
    obtain ⟨m, later, answered⟩ := eventually s.calls
    -- the inner induction is on the calls before one that is not interrupted
    induction waits : m - s.calls using Nat.strong_induction_on generalizing s with
    | _ calls sooner =>
      subst waits
      by_cases more : vectorIndex < vectors.length
      · obtain ⟨answer, s', call, answers, count, ⟨same, stopped⟩ |
            ⟨writeSize, vectors', vectorIndex', rfl, positive, within, left, moved⟩⟩ :=
          writing.step maxVectors
        · rcases stopped with ⟨rfl, interrupted⟩ | ⟨reason, rfl⟩ | rfl
          · have before : s.calls ≠ m := fun same => answered (same ▸ interrupted)
            obtain ⟨rounds, ends⟩ := sooner _ (by omega) (answers ▸ eventually) same (by omega) (answers ▸ answered) rfl
            exact ⟨rounds + 1, by rwa [run_writeVLoop_interrupted more call]⟩
          · exact ⟨1, by simp [run_writeVLoop more call, afterCall]⟩
          · exact ⟨1, by simp [run_writeVLoop more call, afterCall]⟩
        · obtain ⟨rounds, ends⟩ := shorter _ (by omega) (answers ▸ eventually) moved rfl
          exact ⟨rounds + 1, by rwa [run_writeVLoop_wrote more call positive left rfl]⟩
      · exact ⟨1, by simp [writeVLoop, more]⟩

end Loop

theorem WritesPrefix.cases {answers : Nat → Answer} {outcome : Outcome Status Unit Kernel}
    (left : WritesPrefix answers file offset data outcome) (ended : outcome ≠ .spin) :
    (∃ s, outcome = .ok () s ∧ HoldsAt file offset data s.file) ∨
      ∃ e s count, outcome = .error e s ∧ Refused answers e s ∧ count ≤ data.length ∧
        HoldsAt file offset (data.take count) s.file := by
  cases outcome with
  | ok _ s =>
    have content : s.file = writtenAt file offset data := left
    exact .inl ⟨s, rfl, content ▸ holdsAt_writtenAt file offset data⟩
  | error e s =>
    obtain ⟨refused, count, within, content⟩ := left
    exact .inr ⟨e, s, count, rfl, refused, within, content ▸ holdsAt_writtenAt file offset (data.take count)⟩
  | spin => exact absurd rfl ended
  | fault | overflow => exact left.elim

section Call
variable (memory : Nat → UInt8) (file : Bytes) {answers : Nat → Answer} (configuredMaxVectors : Int)
  (slices : List WriteSlice) {offset : Nat} (representable : offset < 2 ^ 64)
include representable

theorem writing_start : Writing memory file offset (contents memory slices) ⟨memory, file, answers, 0⟩ (iovecs slices) 0
    offset 0 :=
  ⟨rfl, rfl, gather_iovecs memory slices, Nat.zero_le _, rfl, representable⟩

theorem writeVAllAt_outcome (rounds : Nat) : WritesPrefix answers file offset (contents memory slices)
    (run kernel (writeVAllAt configuredMaxVectors rounds slices offset) ⟨memory, file, answers, 0⟩) := by
  unfold writeVAllAt
  split
  case isTrue empty =>
    have nothing : contents memory slices = [] := by rw [← gather_iovecs, empty]; rfl
    rw [nothing]
    rfl
  case isFalse => exact (writing_start memory file slices representable).outcome _ rounds

theorem writeVAllAt_ends (eventually : ∀ n, ∃ m, n ≤ m ∧ answers m ≠ .interrupted) : ∃ rounds outcome, outcome ≠ .spin ∧
    ∀ extra, run kernel (writeVAllAt configuredMaxVectors (rounds + extra) slices offset) ⟨memory, file, answers, 0⟩ =
      outcome := by
  unfold writeVAllAt
  split
  case isTrue => exact ⟨0, .ok () ⟨memory, file, answers, 0⟩, by simp, fun _ => rfl⟩
  case isFalse =>
    have start := @writing_start memory file answers slices offset representable
    obtain ⟨rounds, ends⟩ := start.ends (maxVectorsOf configuredMaxVectors) eventually
    exact ⟨rounds, _, ends, start.more ends⟩

end Call

/-- `WriteVAllAt` never indexes past its vectors, and when no run of
interrupted calls goes on forever it returns: from some bound on, more rounds
change nothing. On Ok the file holds the slices, one after the other, at the
offset; on an error it holds a prefix of them. Nothing else in it changes, and
it returns Ok unless a call of `pwritev` wrote no byte or failed. -/
theorem writeVAllAt_exact (memory : Nat → UInt8) (file : Bytes) (answers : Nat → Answer)
    (eventually : ∀ n, ∃ m, n ≤ m ∧ answers m ≠ .interrupted) (configuredMaxVectors : Int) (slices : List WriteSlice)
    (offset : Nat) (representable : offset < 2 ^ 64) :
    (∀ rounds, run kernel (writeVAllAt configuredMaxVectors rounds slices offset) ⟨memory, file, answers, 0⟩ ≠ .fault) ∧
    ∃ rounds outcome,
      (∀ extra, run kernel (writeVAllAt configuredMaxVectors (rounds + extra) slices offset) ⟨memory, file, answers, 0⟩ =
        outcome) ∧
      ((∃ s, outcome = .ok () s ∧ HoldsAt file offset (contents memory slices) s.file) ∨
        ∃ e s count, outcome = .error e s ∧ Refused answers e s ∧ count ≤ (contents memory slices).length ∧
          HoldsAt file offset ((contents memory slices).take count) s.file) := by
  refine ⟨fun rounds faulted => ?_, ?_⟩
  · have left := @writeVAllAt_outcome memory file answers configuredMaxVectors slices offset representable rounds
    rw [faulted] at left
    exact left
  · obtain ⟨rounds, outcome, ended, same⟩ :=
      writeVAllAt_ends memory file configuredMaxVectors slices representable eventually
    have left := @writeVAllAt_outcome memory file answers configuredMaxVectors slices offset representable (rounds + 0)
    rw [same 0] at left
    exact ⟨rounds, outcome, same, left.cases ended⟩

/-- One byte a call, with an interrupted call after the first. -/
def byteByByte (n : Nat) : Answer := if n = 1 then .interrupted else .wrote 1

/-- A write of three bytes from two slices, byte by byte, with an empty slice
between them: it returns Ok. -/
theorem writeVAllAt_exact_short : ∃ rounds s,
    (∀ extra, run kernel (writeVAllAt 1024 (rounds + extra) [⟨7, 1⟩, ⟨0, 0⟩, ⟨8, 2⟩] 1)
      ⟨UInt8.ofNat, [1, 2], byteByByte, 0⟩ = .ok () s) ∧
    s.file = [1, 7, 8, 9] ∧ HoldsAt [1, 2] 1 [7, 8, 9] s.file := by
  have eventually : ∀ n, ∃ m, n ≤ m ∧ byteByByte m ≠ .interrupted := fun n =>
    ⟨n + 2, by omega, by rw [byteByByte, if_neg (by omega)]; exact nofun⟩
  obtain ⟨rounds, outcome, same, left⟩ :=
    (writeVAllAt_exact UInt8.ofNat [1, 2] byteByByte eventually 1024 [⟨7, 1⟩, ⟨0, 0⟩, ⟨8, 2⟩] 1 (by decide)).2
  -- what the four calls answer, and the file they leave
  have first : kernel (.pwritev [⟨7, 1⟩, ⟨8, 2⟩] (vectorCount 2 1024) (offT 1)) ⟨UInt8.ofNat, [1, 2], byteByByte, 0⟩ =
      some (.wrote 1, ⟨UInt8.ofNat, [1, 7], byteByByte, 1⟩) := rfl
  have again : kernel (.pwritev [⟨8, 2⟩] (vectorCount 1 1024) (offT 2)) ⟨UInt8.ofNat, [1, 7], byteByByte, 1⟩ =
      some (.interrupted, ⟨UInt8.ofNat, [1, 7], byteByByte, 2⟩) := rfl
  have third : kernel (.pwritev [⟨8, 2⟩] (vectorCount 1 1024) (offT 2)) ⟨UInt8.ofNat, [1, 7], byteByByte, 2⟩ =
      some (.wrote 1, ⟨UInt8.ofNat, [1, 7, 8], byteByByte, 3⟩) := rfl
  have last : kernel (.pwritev [⟨9, 1⟩] (vectorCount 1 1024) (offT 3)) ⟨UInt8.ofNat, [1, 7, 8], byteByByte, 3⟩ =
      some (.wrote 1, ⟨UInt8.ofNat, [1, 7, 8, 9], byteByByte, 4⟩) := rfl
  have returned : outcome = .ok () ⟨UInt8.ofNat, [1, 7, 8, 9], byteByByte, 4⟩ :=
    calc outcome
      _ = run kernel (writeVLoop 1024 (rounds + 5) [⟨7, 1⟩, ⟨8, 2⟩] 0 1) ⟨UInt8.ofNat, [1, 2], byteByByte, 0⟩ :=
        (same 5).symm
      _ = run kernel (writeVLoop 1024 (rounds + 4) [⟨7, 1⟩, ⟨8, 2⟩] 1 2) ⟨UInt8.ofNat, [1, 7], byteByByte, 1⟩ :=
        run_writeVLoop_wrote (by decide) first one_pos (by simp [consume]) rfl
      _ = run kernel (writeVLoop 1024 (rounds + 3) [⟨7, 1⟩, ⟨8, 2⟩] 1 2) ⟨UInt8.ofNat, [1, 7], byteByByte, 2⟩ :=
        run_writeVLoop_interrupted (by decide) again
      _ = run kernel (writeVLoop 1024 (rounds + 2) [⟨7, 1⟩, ⟨9, 1⟩] 1 3) ⟨UInt8.ofNat, [1, 7, 8], byteByByte, 3⟩ :=
        run_writeVLoop_wrote (by decide) third one_pos (by simp [consume]) rfl
      _ = run kernel (writeVLoop 1024 (rounds + 1) [⟨7, 1⟩, ⟨9, 1⟩] 2 4) ⟨UInt8.ofNat, [1, 7, 8, 9], byteByByte, 4⟩ :=
        run_writeVLoop_wrote (by decide) last one_pos (by simp [consume]) rfl
      _ = .ok () ⟨UInt8.ofNat, [1, 7, 8, 9], byteByByte, 4⟩ := rfl
  subst returned
  rcases left with ⟨s, returned, holds⟩ | ⟨e, s, count, failed, _⟩
  · cases returned
    exact ⟨rounds, _, same, rfl, holds⟩
  · cases failed

/-- Slices of the memory stand for their bytes. -/
theorem contents_eq_flatten {memory : Nat → UInt8} {slices : List WriteSlice} {parts : List Bytes}
    (held : List.Forall₂ (fun slice part => contents memory [slice] = part) slices parts) :
    contents memory slices = parts.flatten := by
  induction held with
  | nil => rfl
  | @cons slice part slices parts here _ ih =>
    simp only [contents, List.flatMap_cons, List.flatMap_nil, List.append_nil] at here
    rw [contents, List.flatMap_cons, ← contents, here, ih, List.flatten_cons]

section Machine
variable {w : World} {target : FileId} {bytes : Bytes} {answers : Nat → Answer} {offset : Nat}
  (content : w.disk target = some bytes) {configuredMaxVectors : Int} {memory : Nat → UInt8} {slices : List WriteSlice}
  {parts : List Bytes} (held : List.Forall₂ (fun slice part => contents memory [slice] = part) slices parts)
  (fits : offset + parts.flatten.length < 2 ^ 63) {rounds : Nat} {s : Kernel}
include content held fits

/-- The calls that return Ok leave what the atomic write of the machine
leaves. -/
theorem writeVAllAt_runs (done : run kernel (writeVAllAt configuredMaxVectors rounds slices offset)
    ⟨memory, bytes, answers, 0⟩ = .ok () s) :
    Runs (writeAllAt target offset parts.flatten) w () (w.setFile target (some s.file)) := by
  have left := @writeVAllAt_outcome memory bytes answers configuredMaxVectors slices offset (by omega) rounds
  rw [done, contents_eq_flatten held] at left
  rw [show s.file = writtenAt bytes offset parts.flatten from left, writtenAt]
  split
  case isTrue empty =>
    rw [World.setFile_self content, empty]
    simp only [Runs, writeAllAt, run, system, content, if_true, checked]
  case isFalse nonempty => exact writeAllAt_runs content nonempty fits

/-- The calls that fail are a failed atomic write with a prefix stored. -/
theorem writeVAllAt_fails {e : Status} (failed : run kernel (writeVAllAt configuredMaxVectors rounds slices offset)
    ⟨memory, bytes, answers, 0⟩ = .error e s) :
    Fails (failing (fun _ => False) (· = target)) (writeAllAt target offset parts.flatten) w e
      (w.setFile target (some s.file)) := by
  have left := @writeVAllAt_outcome memory bytes answers configuredMaxVectors slices offset (by omega) rounds
  rw [failed, contents_eq_flatten held] at left
  obtain ⟨_, count, within, stored⟩ := left
  refine ⟨.error e, w.setFile target (some s.file), .inr ⟨rfl, ⟨e, rfl⟩, ?_⟩, rfl, rfl⟩
  rw [stored, writtenAt]
  split
  case isTrue => exact .inl (World.setFile_self content)
  case isFalse some_bytes =>
    have positive : count ≠ 0 := fun zero => some_bytes (by rw [zero, List.take_zero])
    have exact : u64 offset = offset := u64_of_lt (by omega)
    exact .inr ⟨bytes, count, content, by omega, within, by omega, by rw [exact]⟩

end Machine

end LumoDB
