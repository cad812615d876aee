import LumoDB.KilledWrite
import LumoDB.RowRefinement

namespace LumoDB
open ByteCodec Effects LinearProbing

section Keep
variable {H : HashFunctions} {w : World} {options : DatabaseOptions} {rows live : RowLog} {log : ObjectLog} {v x tail : Bytes}
  {retries : Nat}

/-- The object files are open as they were found, and the rows `live` are
served. -/
structure Kept (H : HashFunctions) (w : World) (v x : Bytes) (live : RowLog) : Prop where
  values : w.disk .values = some v
  unmapped : w.members.maps .values = none
  index : w.disk .index = some x
  mapped : w.members.maps .index = some ⟨x.length, true⟩
  small : v.length < 2 ^ 63
  rows : RowStore H w live

theorem Kept.setOpen (kept : Kept H w v x live) : Kept H (w.setMembers fun m => { m with isOpen := true }) v x live :=
  ⟨kept.values, kept.unmapped, kept.index, kept.mapped, kept.small, kept.rows.setOpen⟩

/-- An index that is kept answers as it does over the value file as a whole. -/
theorem Kept.view {n : Nat} {slot : Nat → Option ObjectKey} {off : ObjectKey → Nat} {m : ObjectKey → Option Bytes}
    (kept : Kept H w v x live) (table : IndexTable H x n slot off) (represents : Represents v n slot off m) :
    ObjectView H w v x n slot off m where
  reads := ⟨kept.values, kept.small, Or.inl kept.unmapped⟩
  sees := World.sees_of_map kept.index kept.mapped
  mapped := by rw [kept.mapped]; exact Option.some_ne_none _
  table := table
  represents := represents

/-- A value file that begins with the header and an index that passes the
layout check open as they are. -/
theorem openFiles_kept (unmapped : ∀ file, w.members.maps file = none) (values : w.disk .values = some v)
    (begins : v = valueFileBytes log ++ tail) (small : v.length < 2 ^ 63) (index : w.disk .index = some x)
    (accepted : Accepted x) (rest : RowsResting H w rows live w.members.options.rowShardCount)
    (load : LoadFactorOk w.members.options.maxLoadFactor) (positive : 0 < w.members.options.rowShardCount)
    (pending : w.members.rowPendingInsertCount = 0) (bounded : Bounded (openFiles H (retries + 1) false) w) :
    ∃ w' live', Runs (openFiles H (retries + 1) false) w () w' ∧ Kept H w' v x live' ∧
      (¬ RowIndexRejected w w.members.options.rowShardCount → live' = live) := by
  have opened := openValueFile_headed values (hasHeader_of_begins begins) small
  unfold openFiles at bounded
  replace bounded := bounded.rest opened
  set w₁ := (w.setFile .values (some v)).setMembers fun m => { m.setDescriptor .values true with appendOffset := v.length }
    with w₁_eq
  have disk₁ : w₁.disk = w.disk := by
    simp only [w₁_eq, World.setFile, World.setMembers]
    rw [← values, Function.update_eq_self]
  have keeps := openIndexFile_keeps (H := H) (w := w₁) (by rw [disk₁]; exact index) accepted
  replace bounded := bounded.rest keeps
  set w₂ := w₁.opened .index x with w₂_eq
  have disk₂ : ∀ file, file ≠ .index → w₂.disk file = w.disk file := by
    intro file other
    rw [w₂_eq, World.opened_disk_ne _ _ other, disk₁]
  have maps₂ : ∀ file, file ≠ .index → w₂.members.maps file = none := by
    intro file other
    rw [w₂_eq, World.opened_maps_ne _ _ other]
    exact unmapped file
  have rest₂ : RowsResting H w₂ rows live w₂.members.options.rowShardCount :=
    { unmapped := maps₂
      archive := ⟨fun i => by rw [disk₂ _ (by simp)]; exact rest.archive.disk i, rest.archive.small, rest.archive.complete⟩
      rowIndex := by
        rw [RowIndexOnDisk, RowIndexRejected, disk₂ _ (by decide)]
        exact rest.rowIndex
      covers := rest.covers }
  obtain ⟨w₃, live', next, opened₃, rows₃⟩ := openRows_runs rest₂ load positive pending retries bounded
  have valuesKept := rows₃.others .values (by decide) (by simp)
  have indexKept := rows₃.others .index (by decide) (by simp)
  refine ⟨w₃, live', ?_, ⟨?_, ?_, ?_, ?_, small, rows₃.store⟩, fun found => ?_⟩
  · unfold Runs openFiles
    rw [Prog.bind_eq, opened.bind, Prog.bind_eq, keeps.bind]
    exact opened₃
  · rw [valuesKept.1, disk₂ _ (by decide), values]
  · rw [valuesKept.2, maps₂ _ (by decide)]
  · rw [indexKept.1, w₂_eq, World.opened_disk]
  · rw [indexKept.2, w₂_eq, World.opened_maps]
  · have choice := rows₃.choice
    rw [RowIndexRejected, disk₂ _ (by decide)] at choice
    exact (choice.resolve_right fun rebuilt => found rebuilt.1).2.1

/-- Such files can be opened. -/
theorem openReadWrite_kept (closed : w.Closed) (directory : w.directory ≠ .other) (values : w.disk .values = some v)
    (begins : v = valueFileBytes log ++ tail) (small : v.length < 2 ^ 63) (index : w.disk .index = some x)
    (accepted : Accepted x) (rest : RowsResting H w rows live options.rowShardCount) (given : options.Accepted)
    (bounded : Bounded (openReadWrite H (retries + 1) options) w) :
    ∃ w' live', Runs (openReadWrite H (retries + 1) options) w () w' ∧ w'.members.isOpen = true ∧ Kept H w' v x live' ∧
      (¬ RowIndexRejected w options.rowShardCount → live' = live) := by
  obtain ⟨rounded, chosen, bounded, opens⟩ := openReadWrite_opens closed.isOpen directory given bounded
  obtain ⟨sameCount, sameLoad⟩ := DatabaseOptions.rounded_same chosen
  have count : ({ w.configured rounded with directory := .directory } : World).members.options.rowShardCount =
    options.rowShardCount := sameCount
  obtain ⟨w', live', opened, kept, same⟩ := openFiles_kept (w := { w.configured rounded with directory := .directory })
    closed.maps values begins small index accepted
    (by rw [count]; exact ⟨rest.unmapped, ⟨rest.archive.disk, rest.archive.small, rest.archive.complete⟩, rest.rowIndex, rest.covers⟩)
    (show LoadFactorOk rounded.maxLoadFactor by rw [sameLoad]; exact given.load)
    (show 0 < rounded.rowShardCount by rw [sameCount]; exact Nat.pos_of_ne_zero given.shards) rfl bounded
  rw [count] at same
  exact ⟨_, live', opens w' opened, rfl, kept.setOpen, same⟩

end Keep

section Lost
variable {H : HashFunctions} {w w' t : World} {objects records : ObjectLog} {b v x : Bytes} {n : Nat}
  {slot : Nat → Option ObjectKey} {off : ObjectKey → Nat} {m : ObjectKey → Option Bytes}

/-- A view of the records of a log serves them. -/
theorem ObjectView.serves (view : ObjectView H w v b n slot off (putAll (fun _ => none) objects))
    (isOpen : w.members.isOpen = true) : ServesObjects H w objects := fun _ _ =>
  ⟨fun _ held => view.getStruct isOpen held, fun absent => ⟨_, view.getStruct_absent isOpen absent⟩⟩

/-- The kill has left an index that passes the layout check and counts fewer
items than before. -/
def Shrunk (w t : World) : Prop :=
  ∃ b x, w.disk .index = some b ∧ t.disk .index = some x ∧ Accepted x ∧ natAt x 24 8 < natAt b 24 8

/-- The keys the index still holds have their old values. -/
theorem HoldsSome.represents (fewer : HoldsSome H off (Stored n slot) x) (rep : Represents v n slot off m) :
    ∃ n' slot' m', IndexTable H x n' slot' off ∧ Represents v n' slot' off m' ∧
      (∀ k, Stored n' slot' k → Stored n slot k) ∧ ∀ k, m' k = none ∨ m' k = m k := by
  classical
  obtain ⟨n', slot', table, stored⟩ := fewer
  refine ⟨n', slot', fun k => if Stored n' slot' k then m k else none, table, fun k => ?_, stored, fun k => ?_⟩
  · by_cases still : Stored n' slot' k
    · simp only [if_pos still]
      exact ⟨fun absent => absurd (stored k still) ((rep k).1 absent), fun value held => ⟨still, ((rep k).2 value held).2⟩⟩
    · simp only [if_neg still]
      exact ⟨fun _ => still, nofun⟩
  · by_cases still : Stored n' slot' k
    · exact Or.inr (if_pos still)
    · exact Or.inl (if_neg still)

theorem pairs_length_le (objects more : ObjectLog) :
    (objects.map Prod.fst).dedup.length ≤ ((objects ++ more).map Prod.fst).dedup.length := by
  refine (List.subperm_of_subset (List.nodup_dedup _) fun k member => ?_).length_le
  rw [List.mem_dedup] at member ⊢
  rw [List.map_append]
  exact List.mem_append_left _ member

end Lost

section Reopen
variable {H : HashFunctions} {w w' t : World} {objects records : ObjectLog} {b v x : Bytes} {n n' retries : Nat}
  {slot slot' : Nat → Option ObjectKey} {off : ObjectKey → Nat} {s : RowState} {options : DatabaseOptions} {resizes : Prop}

/-- The row files are as the session left them. -/
theorem Active.rowsResting (active : Active H w objects s)
    (others : ∀ file, file ≠ .values → file ≠ .index → t.disk file = w.disk file) (count : Nat) :
    ∃ live, RowsResting H t.reboot s.rows live count ∧
      (count = s.count → live = s.live ∧ ¬ RowIndexRejected t.reboot count) := by
  have archive : RowArchive H t.reboot s.rows :=
    ⟨fun i => by rw [World.reboot, others _ (by simp) (by simp)]; exact active.archive.disk i, active.archive.small,
      active.archive.complete⟩
  have rowIndex : t.reboot.disk .rowIndex = w.shut.disk .rowIndex := others _ (by decide) (by decide)
  by_cases same : count = s.count
  · obtain ⟨rb, present, index⟩ := active.keepsIndex
    rw [← rowIndex] at present
    rw [← same] at index
    exact ⟨s.live, ⟨fun _ _ => rfl, archive, Or.inr ⟨rb, present, index⟩, by rw [same]; exact active.covers⟩,
      fun _ => ⟨rfl, index.not_rejected present⟩⟩
  · refine ⟨scanLog s.rows 0 count, ⟨fun _ _ => rfl, archive, Or.inl ?_, covers_scanLog s.rows count⟩, fun again => absurd again same⟩
    rw [RowIndexRejected, rowIndex]
    exact active.rejectsIndex same

/-- The new process finds the object files as `left` says. -/
theorem Active.restingWith {log : ObjectLog} {v x : Bytes} {live : RowLog} {count : Nat} (active : Active H w objects s)
    (left : ObjectsLeft w t v x) (complete : v = valueFileBytes log) (small : v.length < 2 ^ 63) (fits : ∀ r ∈ log, r.1.Fits)
    (rejected : Discarded x) (rest : RowsResting H t.reboot s.rows live count) :
    Resting H t.reboot log s.rows live count where
  closed := rfl
  unmapped _ := rfl
  directory := left.directory.trans_ne active.directory
  values := by
    have present : t.disk .values = some v := by
      rw [left.disk]
      simp
    exact Or.inl (present.trans (by rw [complete]))
  small := complete ▸ small
  fits := fits
  index found present := by
    have same : t.disk .index = some x := by
      rw [left.disk]
      simp
    obtain rfl : found = x := Option.some.inj (present.symm.trans same)
    exact Or.inl rejected
  archive := rest.archive
  rowIndex := rest.rowIndex
  covers := rest.covers

/-- What the first `Open` after a killed write finds and serves. -/
inductive Recovers (H : HashFunctions) (w t : World) (objects records : ObjectLog) (resizes : Prop) (w' : World) : Prop where
  | served {j} (bound : j ≤ records.length) (serves : ServesObjects H w' (objects ++ records.take j)) (whole : ¬ Shrunk w t)
  | lost {k value} (resized : resizes) (shrunk : Shrunk w t) (kept : w'.disk .index = t.disk .index)
      (held : putAll (fun _ => none) objects k = some value)
      (missing : run system (getStruct H k.1 k.2) w' = .error (.notFound "key not found") w')
      (others : ∀ column key, SameAnswer (getStruct H column key) w w' ∨
        run system (getStruct H column key) w' = .error (.notFound "key not found") w')

/-- An index that counts as many items as before is not the one of a resize
that was cut off. -/
theorem ObjectFiles.not_shrunk (files : ObjectFiles H w objects b n slot off) (index : t.disk .index = some x)
    (count : natAt b 24 8 ≤ natAt x 24 8) : ¬ Shrunk w t := by
  rintro ⟨b', x', before, after, _, fewer⟩
  obtain rfl : b' = b := Option.some.inj (before.symm.trans files.index)
  obtain rfl : x' = x := Option.some.inj (after.symm.trans index)
  exact absurd fewer (Nat.not_lt.mpr count)

/-- An `Open` that kept the index of a resize serves every record if the resize
has moved every key, and has lost one otherwise. -/
theorem Active.recovers_fewer {m' : ObjectKey → Option Bytes} (active : Active H w objects s)
    (files : ObjectFiles H w objects b n slot off) (index : t.disk .index = some x) (resized : resizes)
    (view : ObjectView H w' v x n' slot' off m') (isOpen' : w'.members.isOpen = true)
    (stored : ∀ k, Stored n' slot' k → Stored n slot k)
    (fewer : ∀ k, m' k = none ∨ m' k = putAll (fun _ => none) objects k) (kept : w'.disk .index = some x) :
    Recovers H w t objects records resizes w' := by
  by_cases all : ∀ k, Stored n slot k → Stored n' slot' k
  · have same_map : m' = putAll (fun _ => none) (objects ++ records.take 0) := by
      rw [List.take_zero, List.append_nil]
      funext k
      refine (fewer k).elim (fun absent => ?_) id
      have gone := (view.represents k).1 absent
      rw [absent]
      by_contra present
      exact gone (all k ((files.represents.stored_iff k).mpr (Ne.symm present)))
    rw [same_map] at view
    refine .served (Nat.zero_le _) (view.serves isOpen') (files.not_shrunk index ?_)
    have equal := filled_eq_of_stored_iff files.table.table.arranged view.table.table.arranged fun k => ⟨stored k, all k⟩
    rw [view.table.itemCount, files.table.itemCount, equal]
  · push Not at all
    obtain ⟨k, held, gone⟩ := all
    obtain ⟨value, present⟩ := Option.ne_none_iff_exists'.mp ((files.represents.stored_iff k).mp held)
    have absent : m' k = none := by
      by_contra still
      exact gone ((view.represents.stored_iff k).mpr still)
    have lost : natAt x 24 8 < natAt b 24 8 := by
      rw [view.table.itemCount, files.table.itemCount]
      exact filled_lt_of_lost view.table.table.arranged stored held gone
    refine .lost resized ⟨b, x, files.index, index, view.table.accepted, lost⟩ (kept.trans index.symm) present
      (view.getStruct_absent isOpen' absent) fun column key => ?_
    cases still : m' (column, key) with
    | none => exact Or.inr (view.getStruct_absent isOpen' still)
    | some value =>
      have before := (fewer (column, key)).resolve_left (by rw [still]; exact Option.some_ne_none _)
      rw [still] at before
      exact Or.inl (.ok (getStruct_runs active.objects active.serving.isOpen before.symm) (view.getStruct isOpen' still))

/-- After a killed write an `Open` returns Ok. -/
theorem killed_write_opens (active : Active H w objects s) (files : ObjectFiles H w objects b n slot off)
    (left : LeavesWrite H off objects records (Stored n slot) resizes w t) (given : options.Accepted)
    (bounded : Bounded (openReadWrite H (retries + 1) options) t.reboot) :
    ∃ w' live, Runs (openReadWrite H (retries + 1) options) t.reboot () w' ∧ w'.members.isOpen = true ∧ RowStore H w' live ∧
      (options.rowShardCount = s.count → live = s.live) ∧ Recovers H w t objects records resizes w' := by
  obtain ⟨v, x, left, small, state⟩ := left
  have values : t.reboot.disk .values = some v := by
    rw [World.reboot, left.disk]
    simp
  have index : t.reboot.disk .index = some x := by
    rw [World.reboot, left.disk]
    simp
  have directory : t.reboot.directory ≠ .other := left.directory.trans_ne active.directory
  have closed : t.reboot.Closed := ⟨rfl, fun _ => rfl, fun _ => rfl⟩
  obtain ⟨live, rest, kept⟩ := active.rowsResting (t := t) (fun file notValues notIndex => by
    rw [left.disk, Function.update_of_ne notIndex, Function.update_of_ne notValues]) options.rowShardCount
  have after : t.disk .index = some x := index
  cases state with
  | @kept j tail bound begins indexed =>
    obtain ⟨n', slot', off', table, represents⟩ := indexed
    obtain ⟨w', live', opened, open', keeps, same⟩ := openReadWrite_kept closed directory values begins small index
      table.accepted rest given bounded
    refine ⟨w', live', opened, open', keeps.rows, fun again => (same (kept again).2).trans (kept again).1,
      .served bound ((keeps.view table represents).serves open') (files.not_shrunk after ?_)⟩
    rw [table.itemCount, files.table.itemCount, table.filled_eq_pairs represents, files.nodup_keys]
    exact pairs_length_le objects _
  | @discarded j bound complete fits rejected =>
    obtain ⟨w', live', next, opened, active', choice, _⟩ := openReadWrite_runs
      (active.restingWith left complete small fits rejected rest) given retries bounded
    refine ⟨w', live', opened, active'.serving.isOpen, active'.rows, fun again => ?_,
      .served bound (active'.objects.serves active'.serving.isOpen) ?_⟩
    · obtain ⟨_, rfl, _⟩ := choice.resolve_right fun rebuilt => (kept again).2 rebuilt.1
      exact (kept again).1
    · rintro ⟨_, x', _, found, accepted, _⟩
      obtain rfl : x' = x := Option.some.inj (found.symm.trans after)
      exact rejected.1 accepted
  | emptied resized same fewer =>
    obtain ⟨n', slot', m', table, represents, stored, fewer⟩ := fewer.represents files.represents
    rw [← same] at represents
    obtain ⟨w', live', opened, open', keeps, rows⟩ := openReadWrite_kept closed directory values
      (same.trans (List.append_nil _).symm) small index table.accepted rest given bounded
    exact ⟨w', live', opened, open', keeps.rows, fun again => (rows (kept again).2).trans (kept again).1,
      active.recovers_fewer files after resized (keeps.view table represents) open' stored fewer keeps.index⟩

end Reopen

section Killed
variable {H : HashFunctions} {retries : Nat} {start options : DatabaseOptions} {trace : Trace} {w t : World} {column : Bytes}
  {entries : List StructEntry} {keysAreUnique : Bool}

/-- After a kill at any point of an object write the next `Open` returns Ok
and, with the same shard count, serves the same rows. It serves the written
objects and some first records of the killed batch, if and only if the kill has
not left an index with fewer items than before. Such an index comes from a
resize only. It is kept, and then each call answers as before or NotFound. -/
theorem killed_write_recovers (history : History H retries start trace w)
    (fresh : keysAreUnique = true → FreshKeys (written trace) column entries)
    (bounded : Bounded (writeStructs H column entries keysAreUnique) w)
    (killed : Killed (writeStructs H column entries keysAreUnique) w t) (accepted : options.Accepted)
    (boundedOpen : Bounded (openReadWrite H (retries + 1) options) t.reboot) :
    ∃ w', Runs (openReadWrite H (retries + 1) options) t.reboot () w' ∧
      (options.rowShardCount = w.members.options.rowShardCount → ∀ column (rowId : UInt64) key,
        SameAnswer (getRowStruct H (retries + 1) column rowId.toNat key) w w') ∧
      ((∃ j ≤ entries.length, ServesObjects H w' (written trace ++ (recordsOf column entries).take j)) ↔ ¬ Shrunk w t) ∧
      (Shrunk w t → w.Resizes entries.length ∧ w'.disk .index = t.disk .index ∧
        ∀ column key, SameAnswer (getStruct H column key) w w' ∨
          run system (getStruct H column key) w' = .error (.notFound "key not found") w') := by
  obtain ⟨s, active, _⟩ := history.active
  obtain ⟨b, n, slot, off, files⟩ := active.objects
  obtain ⟨w', live, opened, isOpen, rows, same, recovers⟩ := killed_write_opens active files
    (killed_writeStructs files active.serving fresh bounded killed) accepted boundedOpen
  refine ⟨w', opened, fun again column rowId key => ?_, ?_⟩
  · rw [same (again.trans active.count)] at rows
    exact sameAnswer_rowAnswer (getRowStruct_eq active.rows active.serving.isOpen (column, rowId.toNat) key retries)
      (getRowStruct_eq rows isOpen (column, rowId.toNat) key retries)
  · cases recovers with
    | @served j bound serves whole =>
      rw [recordsOf, List.length_map] at bound
      exact ⟨iff_of_true ⟨j, bound, serves⟩ whole, fun shrunk => absurd shrunk whole⟩
    | @lost k value resized shrunk kept held missing others =>
      refine ⟨iff_of_false ?_ (not_not.mpr shrunk), fun _ => ⟨resized, kept, others⟩⟩
      rintro ⟨j, _, serves⟩
      have present : putAll (fun _ => none) (written trace ++ (recordsOf column entries).take j) k ≠ none := by
        rw [putAll_ne_none, List.map_append]
        have written := (putAll_ne_none (fun _ => none) (written trace) k).mp (by rw [held]; exact Option.some_ne_none _)
        exact Or.inl (List.mem_append_left _ (written.resolve_right fun nothing => nothing rfl))
      obtain ⟨value', found⟩ := Option.ne_none_iff_exists'.mp present
      cases ((serves k.1 k.2).1 value' found).symm.trans missing

def killedBatch : List StructEntry := [⟨[1], [9]⟩, ⟨[3], [8]⟩]

/-- The second record of the batch is in a bucket that is not counted. -/
def World.uncounted (w : World) : World := cutAfter system 16 (putStructs .shipped [2] killedBatch) w

theorem uncounted_history : ∃ w, History .shipped 0 (smallOptions 1) [(.putStructs [2] [⟨[1], [7]⟩], true)] w ∧
    Bounded (putStructs .shipped [2] killedBatch) w ∧ Bounded (openReadWrite .shipped 1 (smallOptions 1)) w.uncounted.reboot ∧
    w.uncounted.disk .index ≠ w.disk .index ∧
    (w.uncounted.disk .index).map (natAt · 24 8) = (w.disk .index).map (natAt · 24 8) :=
  @History.exists_of_replay .shipped 0 (smallOptions 1) [.putStructs [2] [⟨[1], [7]⟩]] [(.putStructs [2] [⟨[1], [7]⟩], true)]
    (fun w => Bounded (putStructs .shipped [2] killedBatch) w ∧
      Bounded (openReadWrite .shipped 1 (smallOptions 1)) w.uncounted.reboot ∧ w.uncounted.disk .index ≠ w.disk .index ∧
      (w.uncounted.disk .index).map (natAt · 24 8) = (w.disk .index).map (natAt · 24 8)) _ (by decide +kernel)

/-- Options under which the second record makes the index grow. -/
def oneOfSixteen : DatabaseOptions := { smallOptions 1 with maxLoadFactor := 1 / 16 }

/-- The resize has emptied the index and not yet placed a bucket again. -/
def World.emptied (w : World) : World := cutAfter system 28 (putStructs .shipped [2] [⟨[3], [8]⟩]) w

theorem emptied_history : ∃ w, History .shipped 0 oneOfSixteen [(.putStructs [2] [⟨[1], [7]⟩], true)] w ∧
    Bounded (putStructs .shipped [2] [⟨[3], [8]⟩]) w ∧ Bounded (openReadWrite .shipped 1 oneOfSixteen) w.emptied.reboot ∧
    w.emptied.disk .index = some (emptyIndex 32) ∧ (w.disk .index).map (natAt · 24 8) = some 1 :=
  @History.exists_of_replay .shipped 0 oneOfSixteen [.putStructs [2] [⟨[1], [7]⟩]] [(.putStructs [2] [⟨[1], [7]⟩], true)]
    (fun w => Bounded (putStructs .shipped [2] [⟨[3], [8]⟩]) w ∧ Bounded (openReadWrite .shipped 1 oneOfSixteen) w.emptied.reboot ∧
      w.emptied.disk .index = some (emptyIndex 32) ∧ (w.disk .index).map (natAt · 24 8) = some 1) _ (by decide +kernel)

theorem shrunk_emptied (empty : w.emptied.disk .index = some (emptyIndex 32))
    (counted : (w.disk .index).map (natAt · 24 8) = some 1) : Shrunk w w.emptied := by
  obtain ⟨b, before, items⟩ := Option.map_eq_some_iff.mp counted
  have accepted := (@emptyIndex_table 32 .shipped (fun _ => 0) 5 rfl (by decide)).accepted
  refine ⟨b, _, before, empty, accepted, ?_⟩
  rw [items]
  decide +kernel

/-- A kill between two records of a batch, which an `Open` survives, and one
inside a resize, after which the stored record is not found. -/
theorem killed_write_recovers_sample :
    (∃ w w', Killed (putStructs .shipped [2] killedBatch) w w.uncounted ∧ w.uncounted.disk .index ≠ w.disk .index ∧
      Runs (openReadWrite .shipped 1 (smallOptions 1)) w.uncounted.reboot () w' ∧
      ∃ j ≤ 2, ServesObjects .shipped w' ([(([2], [1]), [7])] ++ (recordsOf [2] killedBatch).take j)) ∧
    ∃ w w', Killed (putStructs .shipped [2] [⟨[3], [8]⟩]) w w.emptied ∧ Shrunk w w.emptied ∧
      Runs (openReadWrite .shipped 1 oneOfSixteen) w.emptied.reboot () w' ∧ w'.disk .index = w.emptied.disk .index ∧
      ¬ ∃ j ≤ 1, ServesObjects .shipped w' ([(([2], [1]), [7])] ++ (recordsOf [2] [⟨[3], [8]⟩]).take j) := by
  constructor
  · obtain ⟨w, history, bounded, boundedOpen, touched, counted⟩ := uncounted_history
    have killed : Killed (putStructs .shipped [2] killedBatch) w w.uncounted := cutAfter_cutOff _ _ _
    obtain ⟨w', opened, _, serves, _⟩ := @killed_write_recovers _ _ _ (smallOptions 1) _ _ _ [2] killedBatch false history
      (fun unique => nomatch unique) bounded killed (by decide +kernel) boundedOpen
    refine ⟨w, w', killed, touched, opened, serves.mpr ?_⟩
    rintro ⟨b, x, before, after, _, fewer⟩
    rw [before, after, Option.map_some, Option.map_some, Option.some.injEq] at counted
    exact absurd counted (Nat.ne_of_lt fewer)
  · obtain ⟨w, history, bounded, boundedOpen, empty, counted⟩ := emptied_history
    have killed : Killed (putStructs .shipped [2] [⟨[3], [8]⟩]) w w.emptied := cutAfter_cutOff _ _ _
    obtain ⟨w', opened, _, serves, lost⟩ := @killed_write_recovers _ _ _ oneOfSixteen _ _ _ [2] [⟨[3], [8]⟩] false history
      (fun unique => nomatch unique) bounded killed (by decide +kernel) boundedOpen
    have shrunk := shrunk_emptied empty counted
    exact ⟨w, w', killed, shrunk, opened, (lost shrunk).2.1, fun served => serves.mp served shrunk⟩

end Killed

section Survive
variable {H : HashFunctions} {retries : Nat} {start options : DatabaseOptions} {trace : Trace} {w t : World} {column : Bytes}
  {entries : List StructEntry} {objects batch : ObjectLog} {k : ObjectKey}

/-- What a caller may expect of the lookups after a killed batch: a key has its
last written value or one that the batch carried for it, and is not found if it
has neither. -/
def KeepsWritten (H : HashFunctions) (w : World) (objects batch : ObjectLog) : Prop :=
  ∀ column key,
    (∀ value, putAll (fun _ => none) objects (column, key) = some value →
      ∃ found, Runs (getStruct H column key) w found w ∧ (found = value ∨ ((column, key), found) ∈ batch)) ∧
    (putAll (fun _ => none) objects (column, key) = none →
      (∃ found, Runs (getStruct H column key) w found w ∧ ((column, key), found) ∈ batch) ∨
        ∃ message, run system (getStruct H column key) w = .error (.notFound message) w)

theorem putAll_cases (m : ObjectKey → Option Bytes) (log : ObjectLog) (k : ObjectKey) :
    putAll m log k = m k ∨ ∃ value, putAll m log k = some value ∧ (k, value) ∈ log := by
  induction log using List.reverseRecOn with
  | nil => exact Or.inl rfl
  | append_singleton log r ih =>
    rw [putAll_append]
    by_cases same : k = r.1
    · exact Or.inr ⟨r.2, by simp [putAll, same], by simp [same]⟩
    · have kept : putAll (putAll m log) [r] k = putAll m log k := by simp [putAll, same]
      rw [kept]
      rcases ih with before | ⟨value, held, member⟩
      · exact Or.inl before
      · exact Or.inr ⟨value, held, List.mem_append_left _ member⟩

theorem ServesObjects.keepsWritten {j : Nat} (serves : ServesObjects H w (objects ++ batch.take j)) :
    KeepsWritten H w objects batch := by
  intro column key
  obtain ⟨found, missing⟩ := serves column key
  rw [putAll_append] at found missing
  rcases putAll_cases (putAll (fun _ => none) objects) (batch.take j) (column, key) with same | ⟨value, held, member⟩
  · rw [same] at found missing
    exact ⟨fun value held => ⟨value, found value held, Or.inl rfl⟩, fun absent => Or.inr (missing absent)⟩
  · have answer := found value held
    have carried := List.mem_of_mem_take member
    exact ⟨fun _ _ => ⟨value, answer, Or.inr carried⟩, fun _ => Or.inl ⟨value, answer, carried⟩⟩

/-- After a kill at any point of `PutStructs` the next `Open` returns Ok. No
written record is lost if and only if the kill has not left an index with fewer
items than before. -/
theorem killed_putStructs_keeps_iff (history : History H retries start trace w) (bounded : Bounded (putStructs H column entries) w)
    (killed : Killed (putStructs H column entries) w t) (accepted : options.Accepted)
    (boundedOpen : Bounded (openReadWrite H (retries + 1) options) t.reboot) :
    ∃ w', Runs (openReadWrite H (retries + 1) options) t.reboot () w' ∧
      (KeepsWritten H w' (written trace) (recordsOf column entries) ↔ ¬ Shrunk w t) := by
  obtain ⟨s, active, _⟩ := history.active
  obtain ⟨b, n, slot, off, files⟩ := active.objects
  obtain ⟨w', live, opened, isOpen, rows, same, recovers⟩ := killed_write_opens active files
    (killed_writeStructs files active.serving (fun unique : false = true => nomatch unique) bounded killed) accepted boundedOpen
  refine ⟨w', opened, ?_⟩
  cases recovers with
  | served bound serves whole => exact iff_of_true serves.keepsWritten whole
  | @lost k value resized shrunk kept held missing others =>
    refine iff_of_false (fun keeps => ?_) (not_not.mpr shrunk)
    obtain ⟨found, answer, _⟩ := (keeps k.1 k.2).1 value held
    cases answer.symm.trans missing

/-- The resize has cleared the mapping and not yet written the new header. -/
def World.cleared (w : World) : World := cutAfter system 26 (putStructs .shipped [2] [⟨[3], [8]⟩]) w

theorem cleared_history : ∃ w, History .shipped 0 oneOfSixteen [(.putStructs [2] [⟨[1], [7]⟩], true)] w ∧
    Bounded (putStructs .shipped [2] [⟨[3], [8]⟩]) w ∧ Bounded (openReadWrite .shipped 1 oneOfSixteen) w.cleared.reboot ∧
    w.cleared.disk .index = some (List.replicate 576 0) :=
  @History.exists_of_replay .shipped 0 oneOfSixteen [.putStructs [2] [⟨[1], [7]⟩]] [(.putStructs [2] [⟨[1], [7]⟩], true)]
    (fun w => Bounded (putStructs .shipped [2] [⟨[3], [8]⟩]) w ∧ Bounded (openReadWrite .shipped 1 oneOfSixteen) w.cleared.reboot ∧
      w.cleared.disk .index = some (List.replicate 576 0)) _ (by decide +kernel)

/-- A kill inside a resize that an `Open` survives: it rebuilds the cleared
index. -/
theorem killed_putStructs_keeps_sample : ∃ w w', Killed (putStructs .shipped [2] [⟨[3], [8]⟩]) w w.cleared ∧
    w.cleared.disk .index = some (List.replicate 576 0) ∧
    Runs (openReadWrite .shipped 1 oneOfSixteen) w.cleared.reboot () w' ∧
    KeepsWritten .shipped w' [(([2], [1]), [7])] [(([2], [3]), [8])] := by
  obtain ⟨w, history, bounded, boundedOpen, cleared⟩ := cleared_history
  have killed : Killed (putStructs .shipped [2] [⟨[3], [8]⟩]) w w.cleared := cutAfter_cutOff _ _ _
  obtain ⟨w', opened, keeps⟩ := killed_putStructs_keeps_iff history bounded killed (by decide +kernel) boundedOpen
  refine ⟨w, w', killed, cleared, opened, keeps.mpr ?_⟩
  rintro ⟨b, x, _, after, ⟨n, file⟩, _⟩
  obtain rfl : List.replicate 576 0 = x := Option.some.inj (cleared.symm.trans after)
  exact absurd file.magic (by decide)

/-- A kill between the new header of a resize and the first bucket it places:
the index passes the layout check and the written record is gone. -/
theorem killed_resize_loses_record : ∃ w w', History .shipped 0 oneOfSixteen [(.putStructs [2] [⟨[1], [7]⟩], true)] w ∧
    Killed (putStructs .shipped [2] [⟨[3], [8]⟩]) w w.emptied ∧
    Runs (openReadWrite .shipped 1 oneOfSixteen) w.emptied.reboot () w' ∧
    run system (getStruct .shipped [2] [1]) w' = .error (.notFound "key not found") w' ∧
    ¬ KeepsWritten .shipped w' [(([2], [1]), [7])] [(([2], [3]), [8])] := by
  obtain ⟨w, history, bounded, boundedOpen, empty, counted⟩ := emptied_history
  have killed : Killed (putStructs .shipped [2] [⟨[3], [8]⟩]) w w.emptied := cutAfter_cutOff _ _ _
  obtain ⟨s, active, _⟩ := history.active
  obtain ⟨b, n, slot, off, files⟩ := active.objects
  obtain ⟨w', live, opened, isOpen, rows, same, recovers⟩ := @killed_write_opens _ _ _ _ _ _ _ 0 _ _ _ oneOfSixteen _ active files
    (killed_writeStructs files active.serving (fun unique : false = true => nomatch unique) bounded killed) (by decide +kernel)
    boundedOpen
  cases recovers with
  | served bound serves whole => exact absurd (shrunk_emptied empty counted) whole
  | @lost k value resized shrunk kept held missing others =>
    have stored := (putAll_ne_none _ _ k).mp (by rw [held]; exact Option.some_ne_none _)
    obtain rfl : k = ([2], [1]) := List.mem_singleton.mp (stored.resolve_right fun nothing => nothing rfl)
    refine ⟨w, w', history, killed, opened, missing, fun keeps => ?_⟩
    obtain ⟨found, answer, _⟩ := (keeps [2] [1]).1 value held
    cases answer.symm.trans missing

end Survive
end LumoDB
