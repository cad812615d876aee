import LumoDB.ObjectSteps
import LumoDB.RowFrame

namespace LumoDB
open ByteCodec Effects

/-- A system call that returns the error `e`. It changes no file, and a
mapping that could not be made leaves the old one unmapped. -/
def refusal (e : Status) : (o : Op) → World → Option (o.Resp × World)
  | .ensureDirectory, w => some (.error e, w)
  | .openFile _ _, w => some (.error e, w)
  | .fileSize _, w => some (.error e, w)
  | .truncate _ _, w => some (.error e, w)
  | .readAt _ _ _, w => some (.error e, w)
  | .writeAt _ _ _, w => some (.error e, w)
  | .sync _, w => some (.error e, w)
  | .rename _ _, w => some (.error e, w)
  | .remove _, w => some (.error e, w)
  | .map file _ _, w => some (.error e, w.setMembers (·.setMap file none))
  | .msync _, w => some (.error e, w)
  | o, w => system o w

/-- The machine on which the operations `bad` picks are refused. -/
def refusing (bad : Op → Bool) (e : Status) : Handler signature World :=
  fun o w => if bad o then refusal e o w else system o w

section Refusing
variable {bad : Op → Bool} {e : Status} {α β : Type}

theorem run_refusing {p : Db α} (only : p.Only fun o => bad o = false) (w : World) :
    run (refusing bad e) p w = run system p w := by
  refine only.run_congr (fun o s good => ?_) w
  rw [refusing, if_neg (by rw [good]; decide)]

theorem Runs.refusing_bind {p : Db α} {f : α → Db β} {w w' : World} {a : α} (first : Runs p w a w')
    (only : p.Only fun o => bad o = false) :
    run (refusing bad e) (p.bind f) w = run (refusing bad e) (f a) w' :=
  run_bind_ok _ ((run_refusing only w).trans first) f

end Refusing

section Faulty

/-- A write that fails with a prefix of its bytes in the file. -/
def Op.CutShort : (o : Op) → World → o.Resp → World → Prop
  | .writeAt file offset data, w, answer, w' => (∃ e, answer = .error e) ∧ Op.Partial (.writeAt file offset data) w w'
  | _, _, _, _ => False

/-- The steps of a machine on which any system call can fail. -/
def faulty : Steps signature World := fun o w r w' =>
  system o w = some (r, w') ∨ (∃ e, refusal e o w = some (r, w')) ∨ o.CutShort w r w'

/-- A write that has stored a prefix of its bytes, however many it was given. -/
def Op.StoresPart : Op → World → World → Prop
  | .writeAt file offset data, w, t => ∃ bytes count, w.disk file = some bytes ∧ 0 < count ∧ count ≤ data.length ∧
      u64 offset + count < 2 ^ 63 ∧ t = w.setFile file (some (patch bytes (u64 offset) (data.take count)))
  | _, _, _ => False

/-- A read from one of the files `reads`, or a write to one of the files
`writes`, that fails. The write may have stored a prefix of its bytes. -/
def Op.FailsOn (reads writes : FileId → Prop) : (o : Op) → World → o.Resp → World → Prop
  | .readAt file _ _, w, answer, w' => reads file ∧ (∃ e, answer = .error e) ∧ w' = w
  | .writeAt file offset data, w, answer, w' =>
    writes file ∧ (∃ e, answer = .error e) ∧ (w' = w ∨ Op.StoresPart (.writeAt file offset data) w w')
  | _, _, _, _ => False

/-- The steps of a machine on which only these reads and writes can fail. -/
def failing (reads writes : FileId → Prop) : Steps signature World := fun o w r w' =>
  system o w = some (r, w') ∨ o.FailsOn reads writes w r w'

variable {o : Op} {w w' : World} {r : o.Resp} {file : FileId} {reads writes : FileId → Prop}

/-- The machine on which every write to one of the files `writes` fails with
`e` after `count` of its bytes. -/
def tearing (writes : FileId → Prop) [DecidablePred writes] (count : Nat) (e : Status) : Handler signature World
  | .writeAt file offset data, w =>
    if writes file then
      match w.disk file with
      | some bytes =>
        if 0 < count ∧ count ≤ data.length ∧ u64 offset + count < 2 ^ 63 then
          some (.error e, w.setFile file (some (patch bytes (u64 offset) (data.take count))))
        else some (.error e, w)
      | none => some (.error e, w)
    else system (.writeAt file offset data) w
  | o, w => system o w

theorem tearing_failing [DecidablePred writes] {count : Nat} {e : Status} (step : tearing writes count e o w = some (r, w')) :
    failing reads writes o w r w' := by
  cases o with
  | writeAt file offset data =>
    simp only [tearing] at step
    split at step
    · rename_i hit
      split at step
      · rename_i bytes content
        split at step
        · rename_i inside
          cases step
          exact Or.inr ⟨hit, ⟨e, rfl⟩, Or.inr ⟨bytes, count, content, inside.1, inside.2.1, inside.2.2, rfl⟩⟩
        · cases step
          exact Or.inr ⟨hit, ⟨e, rfl⟩, Or.inl rfl⟩
      · cases step
        exact Or.inr ⟨hit, ⟨e, rfl⟩, Or.inl rfl⟩
    · exact Or.inl step
  | _ => exact Or.inl step

/-- No failing file is accessed. -/
def Op.Sure (reads writes : FileId → Prop) : Op → Prop
  | .readAt file _ _ => ¬ reads file
  | .writeAt file _ _ => ¬ writes file
  | _ => True

theorem Op.Sure.step (sure : o.Sure reads writes) (step : failing reads writes o w r w') : system o w = some (r, w') := by
  rcases step with done | failed
  · exact done
  · cases o with
    | readAt file offset size => exact absurd failed.1 sure
    | writeAt file offset data => exact absurd failed.1 sure
    | _ => exact failed.elim

variable {α : Type} {p : Db α} {e : Status}

/-- A program that accesses no failing file does not see the fault. -/
theorem runs_of_sure {a : α} (sure : p.Only (Op.Sure reads writes)) (done : Finishes (failing reads writes) p w a w') :
    Runs p w a w' :=
  sure.run_of_finishes (fun _ _ _ _ good step => good.step step) done

theorem error_of_sure (sure : p.Only (Op.Sure reads writes)) (failed : Fails (failing reads writes) p w e w') :
    run system p w = .error e w' :=
  sure.run_of_fails (fun _ _ _ _ good step => good.step step) failed

theorem partial_touched (inside : o.Partial w w') (apart : file ∉ o.touched) : w'.disk file = w.disk file := by
  cases o with
  | writeAt other offset data =>
    obtain ⟨bytes, count, _, _, _, _, rfl⟩ := inside
    exact (setFile_apart w _ (by simpa [Op.touched] using apart)).1
  | _ => exact inside.elim

theorem refusal_touched {e : Status} (step : refusal e o w = some (r, w')) (named : ∀ f, o ≠ .setMembers f)
    (apart : file ∉ o.touched) : w'.disk file = w.disk file := by
  cases o with
  | ensureDirectory | openFile _ _ | fileSize _ | truncate _ _ | readAt _ _ _ | writeAt _ _ _ | sync _ | rename _ _
  | remove _ | map _ _ _ | msync _ =>
    cases step
    rfl
  | _ =>
    simp only [refusal] at step
    exact (system_touched step named apart).1

/-- A failing operation changes no other file either. -/
theorem faulty_touched (step : faulty o w r w') (named : ∀ f, o ≠ .setMembers f) (apart : file ∉ o.touched) :
    w'.disk file = w.disk file := by
  rcases step with done | ⟨e, refused⟩ | cut
  · exact (system_touched done named apart).1
  · exact refusal_touched refused named apart
  · cases o with
    | writeAt other offset data => exact partial_touched cut.2 apart
    | _ => exact cut.elim

end Faulty

section Strict
variable {α : Type} {file : FileId}

/-- Programs that stop at a failing system call. -/
abbrev Strict (p : Db α) : Prop := p.Strict (S := signature) system faulty

theorem strict_checked (answer : Except Status α) : Strict (checked answer) := by
  cases answer <;> exact trivial

theorem strict_readAllAt (offset size : Nat) : Strict (readAllAt file offset size) := by
  refine ⟨fun w r w' step => ?_, fun _ => strict_checked _⟩
  rcases step with done | ⟨e, refused⟩ | cut
  · exact Or.inl done
  · cases refused
    exact Or.inr trivial
  · exact cut.elim

theorem strict_writeAllAt (offset : Nat) (data : Bytes) : Strict (writeAllAt file offset data) := by
  refine ⟨fun w r w' step => ?_, fun _ => strict_checked _⟩
  rcases step with done | ⟨e, refused⟩ | ⟨⟨e, rfl⟩, _⟩
  · exact Or.inl done
  · cases refused
    exact Or.inr trivial
  · exact Or.inr trivial

theorem strict_truncateFile (size : Nat) : Strict (truncateFile file size) := by
  refine ⟨fun w r w' step => ?_, fun _ => strict_checked _⟩
  rcases step with done | ⟨e, refused⟩ | cut
  · exact Or.inl done
  · cases refused
    exact Or.inr trivial
  · exact cut.elim

theorem strict_syncFile : Strict (syncFile file) := by
  refine ⟨fun w r w' step => ?_, fun _ => strict_checked _⟩
  rcases step with done | ⟨e, refused⟩ | cut
  · exact Or.inl done
  · cases refused
    exact Or.inr trivial
  · exact cut.elim

theorem strict_openReadWriteCreate : Strict (openReadWriteCreate file) := by
  refine ⟨fun w r w' step => ?_, fun _ => strict_checked _⟩
  rcases step with done | ⟨e, refused⟩ | cut
  · exact Or.inl done
  · cases refused
    exact Or.inr trivial
  · exact cut.elim

end Strict

section Objects

theorem strict_perform {o : Op} (sure : ∀ e w, refusal e o w = system o w) (whole : ∀ w r w', ¬ o.CutShort w r w') :
    Strict (.perform (S := signature) o) := by
  refine ⟨fun w r w' step => ?_, fun _ => trivial⟩
  rcases step with done | ⟨e, refused⟩ | cut
  · exact Or.inl done
  · exact Or.inl ((sure e w).symm.trans refused)
  · exact (whole w r w' cut).elim

theorem strict_mapFile {file : FileId} (size : Nat) : Strict (mapFile file size) := by
  refine ⟨fun w r w' step => ?_, fun _ => strict_checked _⟩
  rcases step with done | ⟨e, refused⟩ | cut
  · exact Or.inl done
  · cases refused
    exact Or.inr trivial
  · exact cut.elim

/-- An object call that succeeds met no failing system call. -/
theorem writes_strict : WritesObjects fun _ p => Strict p where
  toCompositional := compositional_strict _ _
  members := strict_perform (fun _ _ => rfl) fun _ _ _ => id
  load _ _ := strict_perform (fun _ _ => rfl) fun _ _ _ => id
  loadBytes _ _ := strict_perform (fun _ _ => rfl) fun _ _ _ => id
  loadValues _ _ := strict_perform (fun _ _ => rfl) fun _ _ _ => id
  readAllAt := strict_readAllAt
  store _ _ _ := strict_perform (fun _ _ => rfl) fun _ _ _ => id
  storeBytes _ _ := strict_perform (fun _ _ => rfl) fun _ _ _ => id
  unmap := strict_perform (fun _ _ => rfl) fun _ _ _ => id
  truncateFile := strict_truncateFile
  mapFile := strict_mapFile
  writeAllAt := strict_writeAllAt
  setAppendOffset _ := strict_perform (fun _ _ => rfl) fun _ _ _ => id

variable {bad : Op → Bool} {e : Status} {α : Type} {p : Db α} {w w' : World} {a : α}

theorem refusing_faulty {o : Op} {r : o.Resp} (step : refusing bad e o w = some (r, w')) : faulty o w r w' := by
  unfold refusing at step
  split at step
  · exact Or.inr (Or.inl ⟨e, step⟩)
  · exact Or.inl step

theorem runs_of_refusing (strict : Strict p) (done : run (refusing bad e) p w = .ok a w') : Runs p w a w' :=
  strict.run (finishes_of_run (fun _ _ _ _ => refusing_faulty) done)

/-- An answer that is an error for two reasons is not the machine's. -/
theorem writeAt_refused (file : FileId) (offset : Nat) (data : Bytes) (e : Status) :
    ∃ w, system (.writeAt file offset data) w ≠ some (.error e, w) := by
  by_cases missing : e = .ioError "pwrite: Bad file descriptor"
  · refine ⟨({} : World).setFile file (some []), fun same => ?_⟩
    subst missing
    simp only [system, World.setFile, Function.update_self] at same
    split at same
    · simp at same
    · split at same
      · simp at same
      · simp only [Option.some.injEq, Prod.mk.injEq, Except.error.injEq, and_true] at same
        exact absurd same (by decide)
  · refine ⟨{}, fun same => ?_⟩
    simp only [system, Option.some.injEq, Prod.mk.injEq, Except.error.injEq, and_true] at same
    exact missing same.symm

/-- A program that stops at a failing call stops at one that has stored a part
of its bytes. -/
theorem Strict.failing {reads writes : FileId → Prop} (strict : Strict p) : p.Strict system (failing reads writes) := by
  induction p with
  | op o k ih =>
    refine ⟨fun w r w' step => ?_, fun r => ih r (strict.2 r)⟩
    rcases step with done | failed
    · exact Or.inl done
    · cases o with
      | readAt file offset size =>
        obtain ⟨_, ⟨e, rfl⟩, rfl⟩ := failed
        exact strict.1 _ _ _ (Or.inr (Or.inl ⟨e, rfl⟩))
      | writeAt file offset data =>
        obtain ⟨_, ⟨e, rfl⟩, _⟩ := failed
        obtain ⟨w₀, other⟩ := writeAt_refused file offset data e
        exact Or.inr ((strict.1 w₀ _ _ (Or.inr (Or.inl ⟨e, rfl⟩))).resolve_left other)
      | _ => exact failed.elim
  | _ => exact trivial

theorem runs_of_failing {reads writes : FileId → Prop} (strict : Strict p) (done : Finishes (failing reads writes) p w a w') :
    Runs p w a w' := strict.failing.run done

/-- A run that performs no refused operation does not see the fault. -/
theorem run_refusing_of_within (avoids : Within system (fun o => bad o = false) p w) :
    run (refusing bad e) p w = run system p w := by
  induction p generalizing w with
  | op o k ih =>
    have same : refusing bad e o w = system o w := by rw [refusing, if_neg (by rw [avoids.1]; decide)]
    cases step : system o w with
    | none =>
      rw [run, run, same, step]
    | some out =>
      rw [run_op_of _ (same.trans step), run_op_of _ step]
      exact ih out.1 (avoids.2 out.1 out.2 step)
  | overflow => exact avoids.elim
  | _ => rfl

/-- Operations that change nothing, on a machine that refuses some too. -/
def Op.Reads : Op → Prop
  | .members | .isDirectory | .fileSize _ | .readAt _ _ _ | .load _ _ _ | .loadBytes _ _ _ | .pendingLoad => True
  | _ => False

theorem system_reads {o : Op} {r : o.Resp} (reads : o.Reads) (step : system o w = some (r, w')) : w' = w := by
  cases o with
  | members | isDirectory | pendingLoad =>
    cases step
    rfl
  | fileSize file =>
    simp only [system] at step
    split at step <;> cases step <;> rfl
  | readAt file offset size =>
    simp only [system] at step
    split at step
    · split at step
      · cases step
        rfl
      · split at step
        · cases step
          rfl
        · split at step <;> cases step <;> rfl
    · cases step
      rfl
  | load file offset width | loadBytes file offset width =>
    obtain ⟨bytes, _, same⟩ := Option.map_eq_some_iff.mp step
    exact (congrArg Prod.snd same).symm
  | _ => exact reads.elim

theorem refusing_reads {o : Op} {r : o.Resp} (reads : o.Reads) (step : refusing bad e o w = some (r, w')) : w' = w := by
  unfold refusing at step
  split at step
  · cases o with
    | fileSize _ | readAt _ _ _ =>
      cases step
      rfl
    | members | isDirectory | pendingLoad | load _ _ _ | loadBytes _ _ _ => exact system_reads reads step
    | _ => exact reads.elim
  · exact system_reads reads step

/-- A write that fails left a prefix of its bytes. -/
theorem writeAllAt_fails {reads writes : FileId → Prop} {file : FileId} {offset : Nat} {data bytes : Bytes}
    (content : w.disk file = some bytes) (failed : Fails (failing reads writes) (writeAllAt file offset data) w e w') :
    w' = w ∨ ∃ count, 0 < count ∧ count ≤ data.length ∧ u64 offset + count < 2 ^ 63 ∧
      w' = w.setFile file (some (patch bytes (u64 offset) (data.take count))) := by
  obtain ⟨r, s', step, later⟩ := failed
  rcases step with done | ⟨_, ⟨e', rfl⟩, rfl | inside⟩
  · simp only [system, content] at done
    split at done
    · simp only [Option.some.injEq, Prod.mk.injEq] at done
      obtain ⟨rfl, rfl⟩ := done
      exact later.elim
    · split at done
      · simp only [Option.some.injEq, Prod.mk.injEq] at done
        obtain ⟨rfl, rfl⟩ := done
        exact later.elim
      · simp only [Option.some.injEq, Prod.mk.injEq] at done
        obtain ⟨rfl, rfl⟩ := done
        exact Or.inl later.2.symm
  · exact Or.inl later.2.symm
  · obtain ⟨bytes', count, content', positive, inside, fits, rfl⟩ := inside
    rw [content, Option.some.injEq] at content'
    subst content'
    exact Or.inr ⟨count, positive, inside, fits, later.2.symm⟩

theorem reads_only : ReadsObjects fun _ p => p.Only Op.Reads where
  toCompositional := compositional_only _
  members := ⟨trivial, fun _ => trivial⟩
  load _ _ := ⟨trivial, fun _ => trivial⟩
  loadBytes _ _ := ⟨trivial, fun _ => trivial⟩
  loadValues _ _ := ⟨trivial, fun _ => trivial⟩
  readAllAt _ _ := ⟨trivial, fun answer => by cases answer <;> exact trivial⟩

/-- Reads leave everything as it was, also when one fails. -/
theorem unchanged_of_reads (only : p.Only Op.Reads) (ended : (run (refusing bad e) p w).state? = some w') : w' = w :=
  only.preserves (R := fun s t => t = s) (fun _ => rfl) (fun _ _ _ first second => second.trans first)
    (fun _ _ _ _ reads step => refusing_reads reads step) ended

end Objects

end LumoDB
