import LumoDB.Faults
import LumoDB.ObjectRefinement

namespace LumoDB
open ByteCodec Effects LinearProbing

/-- The steps of a machine on which only appends to the value file can fail. -/
abbrev failingAppends : Steps signature World := failing (fun _ => False) fun file => file = .values

/-- The runs of `PutStructs` calls, in which appends can fail, and of sessions.
`log` holds the records of the calls that returned Ok. Every `Close` finds a
state that `allowed` admits. -/
inductive Appends (H : HashFunctions) (retries : Nat) (start : DatabaseOptions) (allowed : ObjectLog → World → Prop) :
    ObjectLog → World → Prop where
  | opened {w} (accepted : start.Accepted) (bounded : Bounded (openReadWrite H (retries + 1) start) {})
      (opens : Runs (openReadWrite H (retries + 1) start) {} () w) : Appends H retries start allowed [] w
  | put {log w column entries w'} (before : Appends H retries start allowed log w)
      (bounded : Bounded (putStructs H column entries) w)
      (done : Finishes failingAppends (putStructs H column entries) w () w') :
      Appends H retries start allowed (log ++ recordsOf column entries) w'
  | failed {log w column entries e w'} (before : Appends H retries start allowed log w)
      (bounded : Bounded (putStructs H column entries) w)
      (fails : Fails failingAppends (putStructs H column entries) w e w') : Appends H retries start allowed log w'
  | reopened {log w options w₁ w'} (before : Appends H retries start allowed log w) (admitted : allowed log w)
      (accepted : options.Accepted) (closes : Runs close w () w₁)
      (bounded : Bounded (openReadWrite H (retries + 1) options) w₁)
      (opens : Runs (openReadWrite H (retries + 1) options) w₁ () w') : Appends H retries start allowed log w'

/-- `GetStruct` returns the values of the map `m` and nothing else. -/
structure Serves (H : HashFunctions) (w : World) (m : ObjectKey → Option Bytes) : Prop where
  held : ∀ column key value, m (column, key) = some value → Runs (getStruct H column key) w value w
  absent : ∀ column key, m (column, key) = none →
    run system (getStruct H column key) w = .error (.notFound "key not found") w

/-- After `Close` and the removal of the index an `Open` returns Ok and
serves the records of `log`. -/
def SurvivesRebuild (H : HashFunctions) (retries : Nat) (log : ObjectLog) (w : World) : Prop :=
  ∃ w₁, Runs close w () w₁ ∧ ∀ options : DatabaseOptions, options.Accepted →
    Bounded (openReadWrite H (retries + 1) options) (w₁.setFile .index none) →
    ∃ w', Runs (openReadWrite H (retries + 1) options) (w₁.setFile .index none) () w' ∧ Serves H w' (putAll (fun _ => none) log)

/-- The bytes behind the append offset are complete records that change no
value. Usually there are none. -/
def HarmlessTail (log : ObjectLog) (w : World) : Prop :=
  ∃ v extra, w.disk .values = some v ∧ v.drop w.members.appendOffset = encodeLog extra ∧ (∀ r ∈ extra, r.1.Fits) ∧
    putAll (putAll (fun _ => none) log) extra = putAll (fun _ => none) log

/-- An open database after failed appends: without the bytes behind the append
offset it is an `Active` one. -/
structure Tailed (H : HashFunctions) (w : World) (log : ObjectLog) (s : RowState) : Prop where
  files : ∃ tail b n slot off, TailedFiles H w log tail b n slot off
  active : Active H (w.setFile .values (some (valueFileBytes log))) log s

section Serve
variable {H : HashFunctions} {w : World} {log : ObjectLog} {s : RowState}

theorem Active.serves_all (active : Active H w log s) : Serves H w (putAll (fun _ => none) log) where
  held _ _ _ held := getStruct_runs active.objects active.serving.isOpen held
  absent _ _ absent := getStruct_absent active.objects active.serving.isOpen absent

theorem Active.tailed (active : Active H w log s) : Tailed H w log s := by
  obtain ⟨b, n, slot, off, files⟩ := active.objects
  have same : w.setFile .values (some (valueFileBytes log)) = w := by
    unfold World.setFile
    rw [← files.content, Function.update_eq_self]
  exact ⟨⟨[], b, n, slot, off, files.tailed⟩, by rw [same]; exact active⟩

theorem Tailed.serving (tailed : Tailed H w log s) : Serving w :=
  ⟨tailed.active.serving.isOpen, tailed.active.serving.writable, tailed.active.serving.load⟩

/-- Failed appends do not keep the database from closing. -/
theorem Tailed.close_runs (tailed : Tailed H w log s) : Runs close w () w.shut := by
  obtain ⟨_, _, _, _, _, files⟩ := tailed.files
  obtain ⟨_, _, _, _, rowFiles⟩ := tailed.active.rows
  exact close_runs_of_flush tailed.serving.isOpen
    (flush_runs_of_mapped tailed.serving.writable files.mapped rowFiles.mapped)

/-- With the index replaced and other bytes behind the records: what is left
without those bytes is active again. -/
theorem Tailed.replace {more log' : ObjectLog} {w' : World} {tail b : Bytes} {n : Nat} {slot : Nat → Option ObjectKey}
    {off : ObjectKey → Nat} (tailed : Tailed H w log s) (files : TailedFiles H w' log' tail b n slot off)
    (appended : log' = log ++ more)
    (same : w'.setFile .values (some (valueFileBytes log')) = w.withObjects (valueFileBytes log') b) : Tailed H w' log' s := by
  subst appended
  refine ⟨⟨tail, b, n, slot, off, files⟩, ?_⟩
  have whole : (w.setFile .values (some (valueFileBytes log))).withObjects (valueFileBytes (log ++ more)) b =
      w.withObjects (valueFileBytes (log ++ more)) b := by
    simp [World.withObjects, World.setFile]
  have store : ObjectStore H (w'.setFile .values (some (valueFileBytes (log ++ more)))) (log ++ more) := by
    refine ⟨b, n, slot, off, by simp [World.setFile], ?_, files.unmapped, ?_, files.mapped, files.appendOffset, files.fits,
      files.table, files.represents⟩
    · have small := files.small
      rw [List.length_append] at small
      omega
    · simp [World.setFile, files.index]
  rw [same, ← whole] at store ⊢
  exact tailed.active.withObjects store

/-- Complete records behind the append offset become part of the log when
the next session starts. -/
theorem Tailed.settled {extra : ObjectLog} {v : Bytes} (tailed : Tailed H w log s) (content : w.disk .values = some v)
    (behind : v.drop w.members.appendOffset = encodeLog extra) (fits : ∀ r ∈ extra, r.1.Fits)
    (kept : putAll (fun _ => none) (log ++ extra) = putAll (fun _ => none) log) :
    ∃ w₁, Active H w₁ (log ++ extra) s ∧ w₁.shut = w.shut := by
  obtain ⟨tail, b, n, slot, off, files⟩ := tailed.files
  have bytes : tail = encodeLog extra := by
    rw [files.content, Option.some.injEq] at content
    rw [← content, files.appendOffset, List.drop_left] at behind
    exact behind
  subst bytes
  have whole := valueFileBytes_append log extra
  set w₁ := w.setMembers fun m => { m with appendOffset := (valueFileBytes (log ++ extra)).length } with w₁_eq
  have disk : w.disk .values = some (valueFileBytes (log ++ extra)) := by rw [files.content, whole]
  have files₁ : TailedFiles H w₁ (log ++ extra) [] b n slot off :=
    { content := by rw [List.append_nil]; exact disk
      small := by rw [List.append_nil, whole]; exact files.small
      unmapped := files.unmapped
      index := files.index
      mapped := files.mapped
      appendOffset := rfl
      fits := fun r member => (List.mem_append.mp member).elim (files.fits r) (fits r)
      table := files.table
      represents := by
        rw [kept, whole]
        exact files.represents.append _ }
  have same : w₁.setFile .values (some (valueFileBytes (log ++ extra))) = w₁ := by
    unfold World.setFile
    rw [← show w₁.disk .values = some (valueFileBytes (log ++ extra)) from disk, Function.update_eq_self]
  have settled := tailed.replace files₁ rfl (by
    rw [same, World.withObjects, World.setFile, ← disk, Function.update_eq_self, files.self, w₁_eq])
  refine ⟨w₁, ?_, rfl⟩
  have active := settled.active
  rwa [same] at active

end Serve

section Append
variable {H : HashFunctions} {w w' : World} {log : ObjectLog} {s : RowState} {column : Bytes} {entries : List StructEntry}
  {keysAreUnique : Bool} {e : Status}

theorem World.withTail_setFile (w : World) (v tail b : Bytes) :
    (w.withTail v tail b).setFile .values (some v) = w.withObjects v b := by
  simp only [World.withTail, World.withObjects, World.withMapped, World.setFile, World.setMembers]
  rw [Function.update_comm (by decide), Function.update_idem]

/-- A batch that is appended is served. -/
theorem Tailed.put (tailed : Tailed H w log s) (bounded : Bounded (putStructs H column entries) w)
    (done : Finishes failingAppends (putStructs H column entries) w () w') : Tailed H w' (log ++ recordsOf column entries) s := by
  obtain ⟨tail, b, n, slot, off, files⟩ := tailed.files
  have runs : Runs (putStructs H column entries) w () w' :=
    runs_of_failing (writes_strict.writeStructs _ _ _) done
  by_cases accepted : AcceptsStructs column entries
  · obtain ⟨b', n', slot', off', runs', files'⟩ := files.writeStructs tailed.serving accepted
      (fun unique : false = true => nomatch unique) bounded
    obtain ⟨_, rfl⟩ := Runs.unique runs runs'
    exact tailed.replace files' rfl (World.withTail_setFile w _ _ b')
  · obtain ⟨message, refused⟩ := writeStructs_rejects (H := H) tailed.serving accepted false
    cases runs.symm.trans refused

theorem replaces_sure (reads writes : FileId → Prop) (values : ¬ reads .values) :
    ReplacesIndex fun _ p => p.Only (Op.Sure reads writes) where
  toCompositional := compositional_only _
  members := ⟨trivial, fun _ => trivial⟩
  load _ _ := ⟨trivial, fun _ => trivial⟩
  loadBytes _ _ := ⟨trivial, fun _ => trivial⟩
  loadValues _ _ := ⟨trivial, fun _ => trivial⟩
  readAllAt _ _ := ⟨values, fun answer => by cases answer <;> exact trivial⟩
  store _ _ _ := ⟨trivial, fun _ => trivial⟩
  storeBytes _ _ := ⟨trivial, fun _ => trivial⟩
  unmap := ⟨trivial, fun _ => trivial⟩
  truncateFile _ := ⟨trivial, fun answer => by cases answer <;> exact trivial⟩
  mapFile _ := ⟨trivial, fun answer => by cases answer <;> exact trivial⟩

theorem fails_getMembers {reads writes : FileId → Prop} {f : Members → Db Unit}
    (failed : Fails (failing reads writes) (getMembers.bind f) w e w') : Fails (failing reads writes) (f w.members) w e w' := by
  obtain ⟨r, s', done | other, later⟩ := failed
  · cases done
    exact later
  · exact other.elim

/-- An append that fails is behind the append offset. -/
theorem Tailed.cutShort {tail b b₁ : Bytes} {n : Nat} {slot : Nat → Option ObjectKey} {off : ObjectKey → Nat}
    (tailed : Tailed H w log s) (files : TailedFiles H w log tail b n slot off)
    (capacity : Bounded (ensureCapacityForInsert entries.length) w)
    (ensured : Runs (ensureCapacityForInsert entries.length) w () (w.withMapped .index b₁))
    (fits : w.members.appendOffset + (encodeLog (recordsOf column entries)).length < 2 ^ 63)
    (failed : Fails failingAppends (writeAllAt .values w.members.appendOffset (encodeLog (recordsOf column entries)))
      (w.withMapped .index b₁) e w') : Tailed H w' log s := by
  obtain ⟨b₂, n₂, slot₂, ensured', files₁, _⟩ := files.ensureCapacityForInsert tailed.serving.load capacity
  obtain ⟨_, same⟩ := Runs.unique ensured ensured'
  rw [← same] at files₁
  have present : b₁ = b₂ := by
    have := files₁.index
    rw [World.withMapped_disk] at this
    exact Option.some.inj this
  subst present
  have untailed : (w.withMapped .index b₁).setFile .values (some (valueFileBytes log)) = w.withObjects (valueFileBytes log) b₁ := by
    rw [withObjects_of_setFile, World.withObjects, ← files.appendOffset]
    rfl
  rcases writeAllAt_fails files₁.content failed with rfl | ⟨count, positive, inside, _, rfl⟩
  · exact tailed.replace files₁ (List.append_nil log).symm untailed
  · have amount : ((encodeLog (recordsOf column entries)).take count).length = count := by
      rw [List.length_take, Nat.min_eq_left inside]
    have nonempty : (encodeLog (recordsOf column entries)).take count ≠ [] := List.ne_nil_of_length_pos (by omega)
    have appended := (files₁.append nonempty (by rw [amount]; exact Nat.lt_of_le_of_lt (Nat.add_le_add_left inside _) fits)).2
    rw [u64_of_lt (by omega), files.appendOffset, patch_inside]
    refine tailed.replace appended (List.append_nil log).symm ?_
    rw [← untailed]
    simp [World.setFile]

/-- A batch that fails may have left a prefix of its records behind the append
offset, but nothing of it is served. -/
theorem Tailed.failed (tailed : Tailed H w log s) (bounded : Bounded (putStructs H column entries) w)
    (failed : Fails failingAppends (putStructs H column entries) w e w') : Tailed H w' log s := by
  obtain ⟨tail, b, n, slot, off, files⟩ := tailed.files
  have serving := tailed.serving
  unfold putStructs at failed bounded
  by_cases accepted : AcceptsStructs column entries
  · by_cases given : entries = []
    · subst given
      obtain ⟨steps, split, same⟩ := @writeStructs_empty H _ false accepted
      rw [split] at failed
      replace failed := fails_getMembers failed
      rw [same _ serving.isOpen serving.writable] at failed
      exact failed.elim
    · obtain ⟨steps, split, same⟩ := @writeStructs_accepted H _ _ false accepted given
      rw [split] at failed bounded
      replace failed := fails_getMembers failed
      replace bounded := bounded.rest (getMembers_runs w)
      rw [same _ serving.isOpen serving.writable] at failed bounded
      obtain ⟨b₁, n₁, slot₁, ensured, written, files₂, room⟩ := files.writeBatch serving.load given bounded
      have sure := replaces_sure (fun _ => False) (fun file => file = .values) id
      rcases fails_bind failed with first | ⟨_, w₁, grown, later⟩
      · cases (error_of_sure (sure.ensureCapacityForInsert _) first).symm.trans ensured
      obtain ⟨_, rfl⟩ := Runs.unique (runs_of_sure (sure.ensureCapacityForInsert _) grown) ensured
      rcases fails_bind later with first | ⟨_, w₂, appended, rest⟩
      · exact tailed.cutShort files bounded.first ensured (Bounded.writeAllAt (bounded.rest ensured).first) first
      obtain ⟨_, rfl⟩ := Runs.unique (runs_of_failing (strict_writeAllAt _ _) appended) written
      obtain ⟨b₂, slot₂, off₂, indexed, _⟩ := files₂.indexRecords false accepted (fun unique => nomatch unique) room
      rcases fails_bind rest with first | ⟨_, w₃, _, last⟩
      · cases (error_of_sure (sure.indexRecords _ _ _ _) first).symm.trans indexed
      · obtain ⟨_, _, _, impossible⟩ := last
        exact impossible.elim
  · obtain ⟨steps, split, same⟩ := @writeStructs_rejected H _ _ false accepted
    rw [split] at failed
    replace failed := fails_getMembers failed
    obtain ⟨message, refused⟩ := same _ serving.isOpen serving.writable
    rw [refused] at failed
    obtain ⟨_, rfl⟩ := failed
    exact tailed

end Append

section Runs
variable {H : HashFunctions} {retries : Nat} {start : DatabaseOptions} {log : ObjectLog} {w : World}

/-- What a session leaves can be opened like a database without failed
appends. -/
theorem Tailed.settles {stored : ObjectLog} {s : RowState} (tailed : Tailed H w stored s)
    (same : putAll (fun _ => none) stored = putAll (fun _ => none) log) (harmless : HarmlessTail log w) :
    ∃ extra w₁, Active H w₁ (stored ++ extra) s ∧ w₁.shut = w.shut ∧
      putAll (fun _ => none) (stored ++ extra) = putAll (fun _ => none) log := by
  obtain ⟨v, extra, content, behind, fits, kept⟩ := harmless
  have unchanged : putAll (fun _ => none) (stored ++ extra) = putAll (fun _ => none) log := by
    rw [putAll_append, same, kept]
  obtain ⟨w₁, active, shut⟩ := tailed.settled content behind fits (unchanged.trans same.symm)
  exact ⟨extra, w₁, active, shut, unchanged⟩

/-- Every state of such a run is that of a database with the acknowledged
records, but for the bytes behind the append offset. -/
theorem Appends.tailed (appends : Appends H retries start HarmlessTail log w) :
    ∃ stored s, putAll (fun _ => none) stored = putAll (fun _ => none) log ∧ Tailed H w stored s := by
  induction appends with
  | opened accepted bounded opens => exact ⟨[], _, rfl, (first_open accepted bounded opens).tailed⟩
  | put before bounded done ih =>
    obtain ⟨stored, s, same, tailed⟩ := ih
    exact ⟨_, s, by rw [putAll_append, putAll_append, same], tailed.put bounded done⟩
  | failed before bounded fails ih =>
    obtain ⟨stored, s, same, tailed⟩ := ih
    exact ⟨stored, s, same, tailed.failed bounded fails⟩
  | reopened before admitted accepted closes bounded opens ih =>
    obtain ⟨stored, s, same, tailed⟩ := ih
    obtain ⟨_, rfl⟩ := Runs.unique closes tailed.close_runs
    obtain ⟨extra, w₂, active, shut, kept⟩ := tailed.settles same admitted
    rw [← shut] at bounded opens
    obtain ⟨_, opens', active', _⟩ := reopen_runs active accepted retries bounded
    obtain ⟨_, rfl⟩ := Runs.unique opens opens'
    exact ⟨_, _, kept, active'.tailed⟩

/-- As long as each `Close` finds the bytes of failed appends harmless, a
rebuilt index serves exactly the acknowledged records. -/
theorem failed_appends_survive (appends : Appends H retries start HarmlessTail log w) (harmless : HarmlessTail log w) :
    SurvivesRebuild H retries log w := by
  obtain ⟨stored, s, same, tailed⟩ := appends.tailed
  obtain ⟨extra, w₁, active, shut, kept⟩ := tailed.settles same harmless
  refine ⟨w.shut, tailed.close_runs, fun options accepted bounded => ?_⟩
  rw [← shut] at bounded ⊢
  have removed : ∀ b, none = some b → RejectedIndex b := nofun
  obtain ⟨w', _, opened, active'⟩ := active.opens_replaced accepted removed bounded
  exact ⟨w', opened, kept ▸ active'.serves_all⟩

/-- Appends to the value file fail after `count` bytes. -/
abbrev tornAppends (count : Nat) : Handler signature World :=
  tearing (fun file => file = .values) count (.ioError "pwritev")

/-- What a batch leaves that fails after one byte. -/
def afterTorn (column : Bytes) (entries : List StructEntry) (w : World) : Option World :=
  if Bounded (putStructs .shipped column entries) w then
    match run (tornAppends 1) (putStructs .shipped column entries) w with
    | .error _ w' => some w'
    | _ => none
  else none

theorem afterTorn_fails {column : Bytes} {entries : List StructEntry} {w' : World}
    (torn : afterTorn column entries w = some w') :
    Bounded (putStructs .shipped column entries) w ∧ ∃ e, Fails failingAppends (putStructs .shipped column entries) w e w' := by
  unfold afterTorn at torn
  split at torn
  · rename_i bounded
    split at torn
    · rename_i e w'' failed
      cases torn
      exact ⟨bounded, e, fails_of_run (fun _ _ _ _ => tearing_failing) failed⟩
    · cases torn
  · cases torn

theorem Appends.of_history {allowed : ObjectLog → World → Prop} (history : History H retries start [] w) :
    Appends H retries start allowed [] w := by
  obtain ⟨accepted, bounded, opens, calls⟩ := history
  generalize first : ([] : Trace) = trace at calls
  cases calls with
  | start => exact .opened accepted bounded opens
  | call => simp at first

/-- The file ends where the appends go on. -/
def World.Untailed (w : World) : Prop := (w.disk .values).map (fun v => v.drop w.members.appendOffset) = some []

instance (w : World) : Decidable w.Untailed := inferInstanceAs (Decidable (_ = _))

theorem World.Untailed.harmless (untailed : w.Untailed) : HarmlessTail log w := by
  obtain ⟨v, content, behind⟩ := Option.map_eq_some_iff.mp untailed
  exact ⟨v, [], content, behind, nofun, rfl⟩

/-- A batch that is torn and then written again leaves nothing behind. -/
theorem failed_appends_survive_sample : ∃ w w₁ w₂ e,
    Fails failingAppends (putStructs .shipped [2] [⟨[1], [7]⟩]) w e w₁ ∧ Runs (putStructs .shipped [2] [⟨[1], [8]⟩]) w₁ () w₂ ∧
    SurvivesRebuild .shipped 0 [(([2], [1]), [8])] w₂ := by
  obtain ⟨w, history, again⟩ := @History.exists_of_replay .shipped 0 (smallOptions 1) [] [] (fun w =>
    (afterTorn [2] [⟨[1], [7]⟩] w).any (fun w₁ => decide (Bounded (putStructs .shipped [2] [⟨[1], [8]⟩]) w₁ ∧
      (run system (putStructs .shipped [2] [⟨[1], [8]⟩]) w₁).value? = some () ∧
      (run system (putStructs .shipped [2] [⟨[1], [8]⟩]) w₁).state?.any (fun w₂ => decide w₂.Untailed) = true)) = true) _
    (by decide +kernel)
  obtain ⟨w₁, torn, holds⟩ := Option.any_eq_true _ _ |>.mp again
  obtain ⟨bounded, written, ended⟩ := of_decide_eq_true holds
  obtain ⟨w₂, left, untailed⟩ := Option.any_eq_true _ _ |>.mp ended
  obtain ⟨bounded₁, e, fails⟩ := afterTorn_fails torn
  have runs : Runs (putStructs .shipped [2] [⟨[1], [8]⟩]) w₁ () w₂ := by
    cases result : run system (putStructs .shipped [2] [⟨[1], [8]⟩]) w₁ with
    | ok a w' =>
      rw [result] at left
      cases left
      exact result
    | _ =>
      rw [result] at written
      cases written
  have appends : Appends .shipped 0 (smallOptions 1) HarmlessTail ([] ++ recordsOf [2] [⟨[1], [8]⟩]) w₂ :=
    .put (.failed (.of_history history) bounded₁ fails) bounded (finishes_of_run (fun _ _ _ _ done => Or.inl done) runs)
  exact ⟨w, w₁, w₂, e, fails, runs, failed_appends_survive appends (of_decide_eq_true untailed).harmless⟩

/-- The first append fails after one byte, which the next `Open` takes for a
record. -/
theorem torn_append_poisons : ¬ ∀ (H : HashFunctions) (start : DatabaseOptions) (log : ObjectLog) (w : World),
    Appends H 0 start (fun _ _ => True) log w → SurvivesRebuild H 0 log w := by
  intro survives
  obtain ⟨w, history, poisoned⟩ := @History.exists_of_replay .shipped 0 (smallOptions 1) [] []
    (fun w => (afterTorn [2] [⟨[1], [7]⟩] w).any (fun w₁ => (run system close w₁).state?.any fun w₂ => decide
      (Bounded (openReadWrite .shipped 1 (smallOptions 1)) (w₂.setFile .index none) ∧
        (run system (openReadWrite .shipped 1 (smallOptions 1)) (w₂.setFile .index none)).value? = none)) = true) _
    (by decide +kernel)
  obtain ⟨w₁, torn, closing⟩ := Option.any_eq_true _ _ |>.mp poisoned
  obtain ⟨bounded, e, fails⟩ := afterTorn_fails torn
  obtain ⟨w₂, closes, opening⟩ := survives _ _ _ _ (.failed (.of_history history) bounded fails)
  rw [closes, Outcome.state?, Option.any_some] at closing
  obtain ⟨bounded', refused⟩ := of_decide_eq_true closing
  obtain ⟨w₃, opened, _⟩ := opening (smallOptions 1) (by decide +kernel) bounded'
  rw [opened] at refused
  cases refused

end Runs

end LumoDB
