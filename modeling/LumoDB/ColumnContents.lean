import LumoDB.DiagnosticsReads
import LumoDB.RowRefinement
import Mathlib.Data.Set.Card

namespace LumoDB
open ByteCodec Effects LinearProbing Ordered

/-- The values of a column: of its objects, which have no row, and of the keys
of its rows. -/
def currentValues (objects : ObjectKey → Option Bytes) (rows : RowKey → Option RowMap) (column : Bytes) :
    Set DumpValue :=
  {v | v.column = column ∧ match v.rowId with
    | none => objects (column, v.key) = some v.flatBufferBytes
    | some rowId => ∃ content, rows (column, rowId) = some content ∧ content v.key = some v.flatBufferBytes}

def currentRows (rows : RowKey → Option RowMap) (column : Bytes) : Set Nat := {rowId | rows (column, rowId) ≠ none}

/-- The statistics of every column that has an object or a row, in ascending
order of the columns. The count of objects has 64 bits. -/
structure StatsOf (objects : ObjectKey → Option Bytes) (rows : RowKey → Option RowMap) (stats : List ColumnStats) :
    Prop where
  sorted : (stats.map ColumnStats.column).Pairwise (· < ·)
  counts : ∀ s, s ∈ stats ↔ ((∃ key, objects (s.column, key) ≠ none) ∨ ∃ rowId, rows (s.column, rowId) ≠ none) ∧
    s.objectCount = u64 (currentValues objects rows s.column).ncard ∧
    s.rowCount = (currentRows rows s.column).ncard

section Tally

/-- The column map after counting objects and rows of columns in turn. -/
def tally (updates : List (Bytes × Nat × Nat)) : ColumnMap :=
  updates.foldl (fun columns u => countColumn columns u.1 u.2.1 u.2.2) .empty

/-- What the updates of a column add up to. -/
def totals (updates : List (Bytes × Nat × Nat)) (column : Bytes) : Nat × Nat :=
  (((updates.filter fun u => u.1 = column).map (·.2.1)).sum, ((updates.filter fun u => u.1 = column).map (·.2.2)).sum)

theorem totals_append (updates : List (Bytes × Nat × Nat)) (u : Bytes × Nat × Nat) (column : Bytes) :
    totals (updates ++ [u]) column =
      if u.1 = column then ((totals updates column).1 + u.2.1, (totals updates column).2 + u.2.2)
      else totals updates column := by
  unfold totals
  split
  · rename_i same
    simp [List.filter_append, same]
  · rename_i other
    simp [List.filter_append, other]

theorem u64_add_left (m n : Nat) : u64 (u64 m + n) = u64 (m + n) := by
  unfold u64
  rw [Nat.mod_add_mod]

theorem get_tally (updates : List (Bytes × Nat × Nat)) (column : Bytes) :
    (tally updates).get column = if column ∈ updates.map Prod.fst then
      some ⟨column, u64 (totals updates column).1, u64 (totals updates column).2⟩ else none := by
  induction updates using List.reverseRecOn with
  | nil => rfl
  | append_singleton updates u ih =>
    have step : tally (updates ++ [u]) = countColumn (tally updates) u.1 u.2.1 u.2.2 := by simp [tally]
    rw [step, countColumn, OrderedMap.get_adjust, totals_append, List.map_append]
    by_cases same : column = u.1
    · subst same
      rw [if_pos rfl, if_pos (by simp), if_pos rfl, ih]
      split
      · rw [Option.getD_some]
        simp only
        rw [u64_add_left, u64_add_left]
      · rename_i absent
        have nothing : (updates.filter fun v => v.1 = u.1) = [] := by
          rw [List.filter_eq_nil_iff]
          intro v member hit
          exact absent (List.mem_map.mpr ⟨v, member, by simpa using hit⟩)
        rw [totals, nothing, Option.getD_none]
        rfl
    · rw [if_neg same, if_neg (Ne.symm same), ih]
      simp only [List.mem_append, List.map_cons, List.map_nil, List.mem_singleton, same, or_false]

end Tally

theorem ncard_eq_length {α : Type} [DecidableEq α] {s : Set α} {l : List α} (nodup : l.Nodup)
    (mem : ∀ a, a ∈ l ↔ a ∈ s) : s.ncard = l.length := by
  have same : s = (l.toFinset : Set α) := by
    ext a
    rw [Finset.mem_coe, List.mem_toFinset, mem]
  rw [same, Set.ncard_coe_finset, List.toFinset_card_of_nodup nodup]

section Column
variable {H : HashFunctions} {w : World} {v b rb : Bytes} {n rn count : Nat} {slot : Nat → Option ObjectKey}
  {off : ObjectKey → Nat} {m : ObjectKey → Option Bytes} {shards : Nat → Bytes} {rslot : Nat → Option RowKey}
  {ref : RowKey → BlockRef} {R : RowKey → Option RowMap} {entriesOf : RowKey → List RowStructEntry}
  {column : Bytes}

/-- The values a traversal of both indexes meets in a column. -/
def columnObjects (n : Nat) (slot : Nat → Option ObjectKey) (m : ObjectKey → Option Bytes) (column : Bytes) :
    List DumpValue :=
  ((keys n slot).filter fun k => k.1 = column).map (objectValue m)

def columnRows (rn : Nat) (rslot : Nat → Option RowKey) (column : Bytes) : List RowKey :=
  (keys rn rslot).filter fun k => k.1 = column

def columnEntries (rn : Nat) (rslot : Nat → Option RowKey) (entriesOf : RowKey → List RowStructEntry)
    (column : Bytes) : List DumpValue :=
  (columnRows rn rslot column).flatMap fun k => rowValues k (entriesOf k)

theorem mem_columnObjects (view : ObjectView H w v b n slot off m) (value : DumpValue) :
    value ∈ columnObjects n slot m column ↔
      value.column = column ∧ value.rowId = none ∧ m (column, value.key) = some value.flatBufferBytes := by
  rw [columnObjects, List.mem_map]
  constructor
  · rintro ⟨k, member, rfl⟩
    rw [List.mem_filter, mem_keys, decide_eq_true_iff] at member
    obtain ⟨stored, rfl⟩ := member
    obtain ⟨bytes, held⟩ := Option.ne_none_iff_exists'.mp ((view.represents.stored_iff k).mp stored)
    refine ⟨rfl, rfl, ?_⟩
    rw [objectValue, held]
    rfl
  · rintro ⟨rfl, noRow, held⟩
    refine ⟨(value.column, value.key), ?_, ?_⟩
    · rw [List.mem_filter, mem_keys, decide_eq_true_iff]
      exact ⟨(view.represents.stored_iff _).mpr (by rw [held]; exact Option.some_ne_none _), rfl⟩
    · rw [objectValue, held, ← noRow]
      rfl

theorem mem_columnRows (view : RowView H w shards count rb rn rslot ref R) (k : RowKey) :
    k ∈ columnRows rn rslot column ↔ k.1 = column ∧ R k ≠ none := by
  rw [columnRows, List.mem_filter, mem_keys, decide_eq_true_iff, and_comm]
  exact and_congr_right fun _ => view.represents.stored_iff k

theorem mem_rowValues {k : RowKey} {content : RowMap} {block : Bytes} {entries : List RowStructEntry}
    (held : RowEntries H w k content block entries) (value : DumpValue) :
    value ∈ rowValues k entries ↔
      value.column = k.1 ∧ value.rowId = some k.2 ∧ content value.key = some value.flatBufferBytes := by
  rw [rowValues, List.mem_map, ← held.content]
  constructor
  · rintro ⟨entry, member, rfl⟩
    exact ⟨rfl, rfl, rowMap_stored held.nodup entry member⟩
  · rintro ⟨same, row, stored⟩
    obtain ⟨entry, member, key⟩ :=
      List.mem_map.mp (rowMap_present (show rowMap entries value.key ≠ none by rw [stored]; exact Option.some_ne_none _))
    have bytes := rowMap_stored held.nodup entry member
    rw [key, stored] at bytes
    refine ⟨entry, member, ?_⟩
    rw [← same, ← row, key, ← Option.some.inj bytes]

theorem mem_columnEntries (view : RowView H w shards count rb rn rslot ref R)
    (decodes : DecodesRows H w shards count rn rslot ref R entriesOf) (value : DumpValue) :
    value ∈ columnEntries rn rslot entriesOf column ↔ value.column = column ∧
      ∃ rowId content, value.rowId = some rowId ∧ R (column, rowId) = some content ∧
        content value.key = some value.flatBufferBytes := by
  rw [columnEntries, List.mem_flatMap]
  constructor
  · rintro ⟨k, member, shown⟩
    obtain ⟨rfl, present⟩ := (mem_columnRows view k).mp member
    obtain ⟨content, block, row, _, held, _⟩ := decodes k ((view.represents.stored_iff k).mpr present)
    obtain ⟨same, rowId, stored⟩ := (mem_rowValues held value).mp shown
    exact ⟨same, k.2, content, rowId, row, stored⟩
  · rintro ⟨same, rowId, content, row, present, stored⟩
    have some_row : R (column, rowId) ≠ none := by rw [present]; exact Option.some_ne_none _
    obtain ⟨content', block, again, _, held, _⟩ := decodes _ ((view.represents.stored_iff _).mpr some_row)
    rw [present] at again
    cases again
    exact ⟨(column, rowId), (mem_columnRows view _).mpr ⟨rfl, some_row⟩, (mem_rowValues held value).mpr ⟨same, row, stored⟩⟩

/-- Both traversals together meet every current value of the column, once. -/
theorem mem_columnValues (objects : ObjectView H w v b n slot off m) (rows : RowView H w shards count rb rn rslot ref R)
    (decodes : DecodesRows H w shards count rn rslot ref R entriesOf) (value : DumpValue) :
    value ∈ columnObjects n slot m column ++ columnEntries rn rslot entriesOf column ↔
      value ∈ currentValues m R column := by
  rw [List.mem_append, mem_columnObjects objects, mem_columnEntries rows decodes]
  unfold currentValues
  rw [Set.mem_ofPred_eq]
  obtain ⟨c, rowId, key, bytes⟩ := value
  cases rowId with
  | none =>
    refine ⟨?_, fun ⟨same, held⟩ => .inl ⟨same, rfl, same ▸ held⟩⟩
    rintro (⟨same, _, held⟩ | ⟨_, _, _, impossible, _⟩)
    · exact ⟨same, same ▸ held⟩
    · cases impossible
  | some row =>
    refine ⟨?_, fun ⟨same, content, present, held⟩ => .inr ⟨same, row, content, rfl, same ▸ present, held⟩⟩
    rintro (⟨_, impossible, _⟩ | ⟨same, row', content, given, present, held⟩)
    · cases impossible
    · cases given
      exact ⟨same, content, same ▸ present, held⟩

theorem columnValues_nodup (objects : ObjectView H w v b n slot off m)
    (rows : RowView H w shards count rb rn rslot ref R)
    (decodes : DecodesRows H w shards count rn rslot ref R entriesOf) (column : Bytes) :
    (columnObjects n slot m column ++ columnEntries rn rslot entriesOf column).Nodup := by
  refine List.nodup_append'.mpr ⟨?_, ?_, ?_⟩
  · refine (objects.table.table.keys_nodup.filter _).map fun k k' same => ?_
    simp only [objectValue, DumpValue.mk.injEq] at same
    exact Prod.ext same.1 same.2.2.1
  · refine List.nodup_flatMap.mpr ⟨fun k member => ?_, ?_⟩
    · obtain ⟨_, _, _, _, held, _⟩ := decodes k ((rows.represents.stored_iff k).mpr ((mem_columnRows rows k).mp member).2)
      refine List.Nodup.of_map DumpValue.key ?_
      rw [rowValues, List.map_map]
      exact held.nodup
    · refine (rows.table.table.keys_nodup.filter _).imp fun {k k'} other => ?_
      rw [Function.onFun, List.disjoint_left]
      intro value here there
      obtain ⟨_, _, rfl⟩ := List.mem_map.mp here
      obtain ⟨_, _, same⟩ := List.mem_map.mp there
      simp only [DumpValue.mk.injEq, Option.some.injEq] at same
      exact other (Prod.ext same.1 same.2.1).symm
  · rw [List.disjoint_left]
    intro value here there
    obtain ⟨_, _, _, given, _⟩ := (mem_columnEntries rows decodes value).mp there
    rw [((mem_columnObjects objects value).mp here).2.1] at given
    cases given

/-- What the statistics count, bucket by bucket. -/
def updates (n : Nat) (slot : Nat → Option ObjectKey) (rn : Nat) (rslot : Nat → Option RowKey)
    (entriesOf : RowKey → List RowStructEntry) : List (Bytes × Nat × Nat) :=
  (keys n slot).map (fun k => (k.1, 1, 0)) ++ (keys rn rslot).map fun k => (k.1, (entriesOf k).length, 1)

theorem totals_updates (m : ObjectKey → Option Bytes) :
    totals (updates n slot rn rslot entriesOf) column =
      ((columnObjects n slot m column ++ columnEntries rn rslot entriesOf column).length,
        (columnRows rn rslot column).length) := by
  unfold totals updates columnObjects columnEntries columnRows rowValues
  simp only [List.filter_append, List.filter_map, List.map_append, List.map_map, List.sum_append, Function.comp_def,
    List.length_append, List.length_map, List.length_flatMap, List.map_const', List.sum_replicate_nat,
    Nat.mul_one, Nat.mul_zero, Nat.zero_add]

theorem mem_updates (objects : ObjectView H w v b n slot off m) (rows : RowView H w shards count rb rn rslot ref R)
    (entriesOf : RowKey → List RowStructEntry) (column : Bytes) :
    column ∈ (updates n slot rn rslot entriesOf).map Prod.fst ↔
      (∃ key, m (column, key) ≠ none) ∨ ∃ rowId, R (column, rowId) ≠ none := by
  unfold updates
  simp only [List.map_append, List.map_map, Function.comp_def, List.mem_append, List.mem_map, mem_keys]
  refine or_congr ⟨?_, ?_⟩ ⟨?_, ?_⟩
  · rintro ⟨k, stored, rfl⟩
    exact ⟨k.2, (objects.represents.stored_iff k).mp stored⟩
  · rintro ⟨key, held⟩
    exact ⟨(column, key), (objects.represents.stored_iff _).mpr held, rfl⟩
  · rintro ⟨k, stored, rfl⟩
    exact ⟨k.2, (rows.represents.stored_iff k).mp stored⟩
  · rintro ⟨rowId, held⟩
    exact ⟨(column, rowId), (rows.represents.stored_iff _).mpr held, rfl⟩

theorem columnRows_ncard (rows : RowView H w shards count rb rn rslot ref R) :
    (currentRows R column).ncard = (columnRows rn rslot column).length := by
  have nodup : ((columnRows rn rslot column).map Prod.snd).Nodup := by
    refine List.Nodup.map_on (fun k member k' member' same => ?_) (rows.table.table.keys_nodup.filter _)
    have here := ((mem_columnRows rows k).mp member).1
    have there := ((mem_columnRows rows k').mp member').1
    exact Prod.ext (here.trans there.symm) same
  rw [ncard_eq_length nodup fun rowId => ?_, List.length_map]
  rw [List.mem_map, currentRows, Set.mem_ofPred_eq]
  constructor
  · rintro ⟨k, member, rfl⟩
    obtain ⟨rfl, held⟩ := (mem_columnRows rows k).mp member
    exact held
  · intro held
    exact ⟨(column, rowId), (mem_columnRows rows _).mpr ⟨rfl, held⟩, rfl⟩

theorem columnRows_small (rows : RowView H w shards count rb rn rslot ref R) :
    (columnRows rn rslot column).length < 2 ^ 64 := by
  have kept := List.length_filter_le (fun k : RowKey => decide (k.1 = column)) (keys rn rslot)
  have slots := List.length_filterMap_le rslot (List.range rn)
  have small := rows.table.toRowIndexFile.count_lt
  rw [List.length_range] at slots
  unfold columnRows keys at *
  omega

/-- The tally of both traversals is the statistics of the database. -/
theorem statsOf_tally (objects : ObjectView H w v b n slot off m) (rows : RowView H w shards count rb rn rslot ref R)
    (decodes : DecodesRows H w shards count rn rslot ref R entriesOf) :
    StatsOf m R ((tally (updates n slot rn rslot entriesOf)).bindings.map Prod.snd) := by
  have binding : ∀ column s, (column, s) ∈ (tally (updates n slot rn rslot entriesOf)).bindings ↔
      ((∃ key, m (column, key) ≠ none) ∨ ∃ rowId, R (column, rowId) ≠ none) ∧
        s = ⟨column, u64 (currentValues m R column).ncard, (currentRows R column).ncard⟩ := by
    intro column s
    have met := columnValues_nodup objects rows decodes column
    have counted := mem_updates objects rows entriesOf column
    rw [OrderedMap.mem_iff, get_tally, totals_updates m, u64_of_lt (columnRows_small rows),
      ncard_eq_length met (mem_columnValues objects rows decodes), columnRows_ncard rows, ← counted]
    by_cases present : column ∈ (updates n slot rn rslot entriesOf).map Prod.fst
    · rw [if_pos present, Option.some.injEq, eq_comm, and_iff_right present]
    · rw [if_neg present]
      exact iff_of_false nofun fun given => present given.1
  have named : ((tally (updates n slot rn rslot entriesOf)).bindings.map Prod.snd).map ColumnStats.column =
      (tally (updates n slot rn rslot entriesOf)).bindings.map Prod.fst := by
    rw [List.map_map]
    refine List.map_congr_left fun bound member => ?_
    rw [Function.comp_apply, ((binding bound.1 bound.2).mp member).2]
  refine ⟨by rw [named]; exact (tally _).sorted, fun s => ?_⟩
  rw [List.mem_map]
  constructor
  · rintro ⟨⟨column, s'⟩, member, rfl⟩
    obtain ⟨counted, rfl⟩ := (binding column s').mp member
    exact ⟨counted, rfl, rfl⟩
  · rintro ⟨counted, objectCount, rowCount⟩
    refine ⟨(s.column, s), (binding _ _).mpr ⟨counted, ?_⟩, rfl⟩
    rw [← objectCount, ← rowCount]

/-- `GetColumnStats` returns the statistics of the database. -/
theorem getColumnStats_runs (objects : ObjectView H w v b n slot off m)
    (rows : RowView H w shards count rb rn rslot ref R) (isOpen : w.members.isOpen = true) (retries : Nat) :
    ∃ stats, Runs (getColumnStats (retries + 1)) w stats w ∧ StatsOf m R stats := by
  obtain ⟨entriesOf, decodes⟩ := rows.decodes
  refine ⟨_, ?_, statsOf_tally objects rows decodes⟩
  have counted := objects.countObjects (Nat.zero_add n) .empty
  have rowsCounted := rows.countRows decodes retries (Nat.zero_add rn)
    ((keys n slot).foldl (fun columns k => countColumn columns k.1 1 0) .empty)
  rw [← List.range_eq_range'] at counted rowsCounted
  unfold Runs getColumnStats
  rw [Prog.bind_eq, (getMembers_runs w).bind, if_neg (by rw [isOpen]; decide), Prog.bind_eq,
    (objects.table.toIndexFile.loadBucketCount objects.sees).bind, Prog.bind_eq, counted.bind, Prog.bind_eq,
    (rows.table.toRowIndexFile.loadRowBucketCount rows.sees).bind, Prog.bind_eq]
  refine (Runs.bind rowsCounted).trans ?_
  unfold tally updates
  rw [List.foldl_append, List.foldl_map, List.foldl_map]
  rfl

theorem ObjectView.bucketCount (objects : ObjectView H w v b n slot off m) : Runs bucketCount w n w := by
  have mapped : (w.members.maps .index).isNone = false :=
    Option.isNone_eq_false_iff.mpr (Option.isSome_iff_ne_none.mpr objects.mapped)
  unfold Runs LumoDB.bucketCount
  rw [Prog.bind_eq, (getMembers_runs w).bind, mapped, if_neg (by decide)]
  exact objects.table.toIndexFile.loadBucketCount objects.sees

theorem RowView.rowBucketCount (rows : RowView H w shards count rb rn rslot ref R) : Runs rowBucketCount w rn w := by
  have mapped : (w.members.maps .rowIndex).isNone = false :=
    Option.isNone_eq_false_iff.mpr (Option.isSome_iff_ne_none.mpr rows.mapped)
  unfold Runs LumoDB.rowBucketCount
  rw [Prog.bind_eq, (getMembers_runs w).bind, mapped, if_neg (by decide)]
  exact rows.table.toRowIndexFile.loadRowBucketCount rows.sees

theorem passes_column (k : Bytes × β) : decide (Passes (some column) k.1) = decide (k.1 = column) := by
  simp [Passes]

/-- `DumpColumn` passes the current values of the column to its
deserializer, each once. -/
theorem dumpColumn_runs (objects : ObjectView H w v b n slot off m)
    (rows : RowView H w shards count rb rn rslot ref R) (isOpen : w.members.isOpen = true) (retries : Nat)
    {deserialize : Option DumpDeserializer} (total : Total deserialize) (column : Bytes) :
    ∃ lines, Runs (dumpColumn H (retries + 1) column deserialize) w lines w ∧
      (lines.filterMap DumpLine.passed).Nodup ∧
      ∀ value, value ∈ lines.filterMap DumpLine.passed ↔ value ∈ currentValues m R column := by
  obtain ⟨entriesOf, decodes⟩ := rows.decodes
  obtain ⟨stats, counted, _⟩ := getColumnStats_runs objects rows isOpen retries
  obtain ⟨objectLines, objectsDumped, objectsShown⟩ :=
    @ObjectView.dumpObjects H w v b n slot off m (some column) deserialize objects total n 0 (Nat.zero_add n)
  obtain ⟨rowLines, rowsDumped, rowsShown⟩ := @RowView.dumpRows H w shards count rn rb rslot ref R (some column)
    deserialize rows entriesOf decodes retries total rn 0 (Nat.zero_add rn)
  rw [← List.range_eq_range'] at objectsShown rowsShown
  simp only [passes_column] at objectsShown rowsShown
  set shownStats := (stats.filter fun s => (some column).isNone ∨ some s.column = some column).map DumpLine.columnStats
  refine ⟨.title (some column) :: .objectIndex none n :: .objects :: objectLines ++
    .rowIndex none rn w.members.rowShards none :: .rows :: rowLines ++ .columnStatistics :: shownStats, ?_, ?_⟩
  · unfold Runs dumpColumn dumpInternal
    simp only [Prog.bind_eq, unfiltered]
    rw [(getMembers_runs w).bind, if_neg (by rw [isOpen]; decide), Prog.pure_eq, Prog.ret_bind, objects.bucketCount.bind,
      (objects.table.toIndexFile.loadBucketCount objects.sees).bind, objectsDumped.bind, Prog.ret_bind,
      rows.rowBucketCount.bind, Prog.ret_bind, (rows.table.toRowIndexFile.loadRowBucketCount rows.sees).bind,
      rowsDumped.bind, counted.bind]
    rfl
  · have silent : shownStats.filterMap DumpLine.passed = [] := by
      rw [List.filterMap_eq_nil_iff]
      intro line member
      obtain ⟨s, _, rfl⟩ := List.mem_map.mp member
      rfl
    have shown : (DumpLine.title (some column) :: .objectIndex none n :: .objects :: objectLines ++
        .rowIndex none rn w.members.rowShards none :: .rows :: rowLines ++ .columnStatistics ::
        shownStats).filterMap DumpLine.passed =
        columnObjects n slot m column ++ columnEntries rn rslot entriesOf column := by
      simp only [List.filterMap_append, List.filterMap_cons, DumpLine.passed, silent, List.append_nil, objectsShown,
        rowsShown]
      rfl
    rw [shown]
    exact ⟨columnValues_nodup objects rows decodes column, mem_columnValues objects rows decodes⟩

end Column

section Reached
variable {H : HashFunctions} {retries : Nat} {start : DatabaseOptions} {trace : Trace} {w : World}

/-- `GetRowStruct` and `RowCount` return what `rows` holds. -/
structure AnswersRows (H : HashFunctions) (retries : Nat) (w : World) (rows : RowKey → Option RowMap) : Prop where
  held : ∀ column (rowId : UInt64) key value, (rows (column, rowId.toNat)).bind (· key) = some value →
    Runs (getRowStruct H retries column rowId.toNat key) w value w
  absent : ∀ column (rowId : UInt64) key, (rows (column, rowId.toNat)).bind (· key) = none →
    ∃ message, run system (getRowStruct H retries column rowId.toNat key) w = .error (.notFound message) w
  counted : ∃ stored : List RowKey, stored.Nodup ∧ (∀ k, k ∈ stored ↔ rows k ≠ none) ∧ Runs rowCount w stored.length w

theorem RowStore.answersRows {log : RowLog} (store : RowStore H w log) (isOpen : w.members.isOpen = true) (retries : Nat) :
    AnswersRows H (retries + 1) w (putRows noRows log) where
  held column rowId key := (getRowStruct_runs store isOpen (column, rowId.toNat) key retries).1
  absent column rowId key := (getRowStruct_runs store isOpen (column, rowId.toNat) key retries).2
  counted := by
    refine ⟨(log.map RowRecord.key).dedup, List.nodup_dedup _, fun k => ?_, rowCount_runs store⟩
    rw [putRows_ne_none, List.mem_dedup]
    simp [noRows]

/-- In every state of every run `DumpColumn` shows exactly the current values
of a column, and `GetColumnStats` counts them. The rows are those that
`GetRowStruct` answers from, which with one shard count are those the calls
wrote. -/
theorem diagnostics_report_contents (history : History H retries start trace w) :
    ∃ rows, AnswersRows H (retries + 1) w rows ∧ (SameShards start.rowShardCount trace → rows = rowsAfter trace) ∧
      (∀ column (convert : DumpDeserializer), (∀ value, ∃ text, convert value = .ok text) →
        ∃ lines, Runs (dumpColumn H (retries + 1) column (some convert)) w lines w ∧
          (lines.filterMap DumpLine.passed).Nodup ∧
          ∀ value, value ∈ lines.filterMap DumpLine.passed ↔
            value ∈ currentValues (putAll (fun _ => none) (written trace)) rows column) ∧
      ∃ stats, Runs (getColumnStats (retries + 1)) w stats w ∧
        StatsOf (putAll (fun _ => none) (written trace)) rows stats ∧
        ∀ s ∈ stats, (currentValues (putAll (fun _ => none) (written trace)) rows s.column).ncard < 2 ^ 64 →
          s.objectCount = (currentValues (putAll (fun _ => none) (written trace)) rows s.column).ncard := by
  obtain ⟨s, active, rowHistory⟩ := history.active
  obtain ⟨b, n, slot, off, objectFiles⟩ := active.objects
  obtain ⟨rb, rn, rslot, ref, rowFiles⟩ := active.rows
  have isOpen := active.serving.isOpen
  refine ⟨putRows noRows s.live, active.rows.answersRows isOpen retries, fun same => (rowHistory.fixed same).rows,
    fun column convert always => ?_, ?_⟩
  · refine dumpColumn_runs objectFiles.view rowFiles.view isOpen retries ?_ column
    rintro _ ⟨rfl⟩
    exact always
  · obtain ⟨stats, ran, exactly⟩ := getColumnStats_runs objectFiles.view rowFiles.view isOpen retries
    refine ⟨stats, ran, exactly, fun s member small => ?_⟩
    rw [((exactly.counts s).mp member).2.1, u64_of_lt small]

theorem diagnostics_report_contents_sample :
    ∃ w lines, Runs (dumpColumn .shipped 1 [1] (some fun value => .ok value.key)) w lines w ∧
      ⟨[1], some 4, [2], [7]⟩ ∈ lines.filterMap DumpLine.passed ∧
      ⟨[1], some 4, [2], [3]⟩ ∉ lines.filterMap DumpLine.passed := by
  obtain ⟨w, history, _⟩ := sample_rowHistory
  obtain ⟨rows, _, same, dumps, _⟩ := diagnostics_report_contents history
  obtain ⟨lines, ran, _, shown⟩ := dumps [1] (fun value => .ok value.key) fun value => ⟨value.key, rfl⟩
  obtain rfl := same sample_sameShards
  refine ⟨w, lines, ran, (shown _).mpr ⟨rfl, _, rfl, by decide⟩, fun stale => ?_⟩
  obtain ⟨_, content, row, held⟩ := (shown _).mp stale
  cases row
  exact absurd held (by decide)

end Reached

end LumoDB
