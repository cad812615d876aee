import LumoDB.OpenObjects
import LumoDB.ReadOnlyOpen
import LumoDB.FailedUpdate

namespace LumoDB
open ByteCodec Effects LinearProbing

section Open
variable {H : HashFunctions} {w : World} {objects : ObjectLog} {live : RowLog} {b rb : Bytes} {n rn : Nat}
  {slot : Nat → Option ObjectKey} {off : ObjectKey → Nat} {rslot : Nat → Option RowKey} {ref : RowKey → BlockRef}

/-- The files of a directory that an `Open` for reading accepts. -/
structure Readable (H : HashFunctions) (w : World) (objects : ObjectLog) (live : RowLog) (b : Bytes) (n : Nat)
    (slot : Nat → Option ObjectKey) (off : ObjectKey → Nat) (rb : Bytes) (rn : Nat) (rslot : Nat → Option RowKey)
    (ref : RowKey → BlockRef) (count : Nat) : Prop where
  values : w.disk .values = some (valueFileBytes objects)
  small : (valueFileBytes objects).length < 2 ^ 63
  index : w.disk .index = some b
  table : IndexTable H b n slot off
  represents : Represents (valueFileBytes objects) n slot off (putAll (fun _ => none) objects)
  shards : ∀ i < count, w.disk (.rowShard i) = some (shardBytes live i)
  shardsSmall : ∀ i < count, (shardBytes live i).length < 2 ^ 63
  rowIndex : w.disk .rowIndex = some rb
  rows : RowIndexed H (shardBytes live) count (putRows noRows live) rb rn rslot ref

/-- A database that is open for reading: it shows the records of `objects`
and the rows of `live`. -/
structure Viewing (H : HashFunctions) (w : World) (objects : ObjectLog) (live : RowLog) : Prop where
  isOpen : w.members.isOpen = true
  readOnly : w.members.readOnly = true
  objects : ∃ v b n slot off, ObjectView H w v b n slot off (putAll (fun _ => none) objects)
  rows : ∃ shards count b n slot ref, RowView H w shards count b n slot ref (putRows noRows live)

theorem openFiles_viewed (files : Readable H w objects live b n slot off rb rn rslot ref w.members.options.rowShardCount)
    (retries : Nat) :
    ∃ w', Runs (openFiles H retries true) w () w' ∧ Browsed w w' ∧
      ObjectView H w' (valueFileBytes objects) b n slot off (putAll (fun _ => none) objects) ∧
      RowView H w' (shardBytes live) w.members.options.rowShardCount rb rn rslot ref (putRows noRows live) := by
  have valuesOpened := openValueFile_viewed files.values (hasHeader_of_begins (List.append_nil _).symm) files.small
  set u := (w.viewed .values (valueFileBytes objects)).setMembers fun m =>
    { m with appendOffset := (valueFileBytes objects).length } with u_eq
  have length := files.table.length
  have small := files.table.small
  have indexOpened : Runs (openIndexFile H true) u () (u.viewed .index b) :=
    openChecked_viewed files.index (by omega) (by omega)
      (hasValidIndexLayout_accepts (World.sees_of_map files.index (u.viewed_map .index b)) files.table.accepted)
  obtain ⟨x, shardsOpened, browsed, rowShards, mapped, others⟩ :=
    @openRowValueFiles_viewed (u.viewed .index b) live files.shards files.shardsSmall
  have sameOptions : x.members.options = w.members.options := browsed.options
  have rowIndex : x.disk .rowIndex = some rb := by
    rw [browsed.disk]
    exact files.rowIndex
  have rowLength := files.rows.table.length
  have rowSmall := files.rows.table.small
  have rowIndexOpened : Runs (openRowIndexFile H retries true) x () (x.viewed .rowIndex rb) := by
    refine openChecked_viewed rowIndex (by omega) (by omega) (hasValidRowIndexLayout_accepts
      (World.sees_of_map rowIndex (x.viewed_map .rowIndex rb)) ?_)
    have accepted := files.rows.table.accepted
    rwa [← sameOptions] at accepted
  have front : Browsed w (u.viewed .index b) := ⟨rfl, rfl, rfl, rfl, rfl⟩
  have whole : Browsed w (x.viewed .rowIndex rb) := front.trans (browsed.trans (x.browsed_viewed _ _))
  have valuesMap : (x.viewed .rowIndex rb).members.maps .values = some ⟨(valueFileBytes objects).length, false⟩ := by
    rw [x.viewed_maps_ne rb (by decide), others .values (by simp), u.viewed_maps_ne b (by decide)]
    exact w.viewed_map .values _
  have indexMap : (x.viewed .rowIndex rb).members.maps .index = some ⟨b.length, false⟩ := by
    rw [x.viewed_maps_ne rb (by decide), others .index (by simp)]
    exact u.viewed_map .index b
  have rowMap := x.viewed_map .rowIndex rb
  refine ⟨x.viewed .rowIndex rb, ?_, whole, ?_, ?_⟩
  · unfold Runs openFiles
    rw [Prog.bind_eq, valuesOpened.bind, Prog.bind_eq, indexOpened.bind, Prog.bind_eq, shardsOpened.bind]
    exact rowIndexOpened
  · exact
      { reads := ⟨by rw [whole.disk]; exact files.values, files.small, Or.inr ⟨false, valuesMap⟩⟩
        sees := World.sees_of_map (by rw [whole.disk]; exact files.index) indexMap
        mapped := by rw [indexMap]; exact Option.some_ne_none _
        table := files.table
        represents := files.represents }
  · refine
      { reads := ⟨rowShards, fun i inside => by rw [whole.disk]; exact files.shards i inside, files.shardsSmall,
          fun i inside => Or.inr ⟨false, ?_⟩⟩
        sees := World.sees_of_map (by rw [whole.disk]; exact files.rowIndex) rowMap
        mapped := by rw [rowMap]; exact Option.some_ne_none _
        table := files.rows.table
        represents := files.rows.represents }
    rw [x.viewed_maps_ne rb (by simp)]
    exact mapped i inside

/-- What a closed database leaves can be opened for reading with its shard
count. -/
theorem Active.readable {s : RowState} (active : Active H w objects s) :
    ∃ b n slot off rb rn rslot ref, Readable H w objects s.live b n slot off rb rn rslot ref s.count := by
  obtain ⟨b, n, slot, off, files⟩ := active.objects
  obtain ⟨rb, rn, rslot, ref, rowFiles⟩ := active.rows
  have count := active.count
  exact ⟨b, n, slot, off, rb, rn, rslot, ref,
    { values := files.content
      small := files.small
      index := files.index
      table := files.table
      represents := files.represents
      shards := fun i inside => rowFiles.reads.content i (by rw [count]; exact inside)
      shardsSmall := fun i inside => rowFiles.reads.small i (by rw [count]; exact inside)
      rowIndex := rowFiles.index
      rows := by rw [← count]; exact ⟨rowFiles.table, rowFiles.represents⟩ }⟩

theorem openReadOnly_runs {options rounded : DatabaseOptions}
    (files : Readable H w objects live b n slot off rb rn rslot ref options.rowShardCount)
    (closed : w.members.isOpen = false) (directory : w.directory = .directory) (accepted : options.Accepted)
    (given : options.rounded = some rounded) (retries : Nat) :
    ∃ w', Runs (openReadOnly H retries options) w () w' ∧ w'.disk = w.disk ∧ Viewing H w' objects live := by
  obtain ⟨sameCount, _⟩ := DatabaseOptions.rounded_same given
  set u := w.starting rounded true with u_eq
  have same : u.members.options.rowShardCount = options.rowShardCount := sameCount
  rw [← same] at files
  obtain ⟨x, opened, browsed, objectView, rowView⟩ := @openFiles_viewed H u objects live b rb n rn slot off rslot ref
    ⟨files.values, files.small, files.index, files.table, files.represents, files.shards, files.shardsSmall,
      files.rowIndex, files.rows⟩ retries
  refine ⟨x.setMembers fun m => { m with isOpen := true }, ?_, browsed.disk, ?_⟩
  · rw [Runs, openReadOnly, openInternal_opens closed (Or.inl directory) accepted given, ← u_eq, opened]
    rfl
  · exact ⟨rfl, browsed.readOnly, ⟨_, _, _, _, _, ⟨⟨objectView.reads.content, objectView.reads.small, objectView.reads.map⟩,
      objectView.sees, objectView.mapped, objectView.table, objectView.represents⟩⟩,
      ⟨_, _, _, _, _, _, ⟨⟨rowView.reads.shardCount, rowView.reads.content, rowView.reads.small, rowView.reads.map⟩,
      rowView.sees, rowView.mapped, rowView.table, rowView.represents⟩⟩⟩

end Open

section Directory
variable {H : HashFunctions} {retries : Nat} {w w' : World} {start : DatabaseOptions} {trace : Trace}

theorem system_directory {o : Op} {r : o.Resp} (step : system o w = some (r, w'))
    (directory : w.directory = .directory) : w'.directory = .directory := by
  cases o with
  | members | setMembers | isDirectory | closeFile | sync | remove | unmap | appendFetchAdd | pendingLoad =>
    cases step
    exact directory
  | pendingSub amount =>
    obtain ⟨count, rfl⟩ := pendingSub_step step
    exact directory
  | ensureDirectory =>
    simp only [system, directory] at step
    cases step
    exact directory
  | load | loadBytes =>
    simp only [system, Option.map_eq_some_iff] at step
    obtain ⟨_, _, same⟩ := step
    cases same
    exact directory
  | _ =>
    simp only [system] at step
    repeat' split at step
    all_goals
      cases step
      try exact directory

/-- No call removes the directory. -/
theorem keeps_directory {α : Type} {p : Db α} (ended : (run system p w).state? = some w')
    (directory : w.directory = .directory) : w'.directory = .directory := by
  have preserved := p.only_true.preserves (R := fun s t : World => s.directory = .directory → t.directory = .directory)
    (fun _ held => held) (fun _ _ _ first second held => second (first held))
    (fun _ _ _ _ _ step held => system_directory step held) ended
  exact preserved directory

theorem opened_directory (opens : Runs (openReadWrite H retries start) w () w') : w'.directory = .directory := by
  unfold openReadWrite openInternal at opens
  obtain ⟨_, _, _, opens⟩ := opens.split
  obtain ⟨_, _, _, opens⟩ := opens.split
  split at opens
  · cases opens
  · obtain ⟨_, _, _, opens⟩ := opens.split
    obtain ⟨_, x, _, opens⟩ := opens.split
    split at opens
    · cases opens
    · obtain ⟨_, y, ensured, opens⟩ := opens.split
      have present : y.directory = .directory := by
        cases kind : x.directory <;>
          simp only [Runs, openDirectory, Bool.false_eq_true, if_false, ensureDirectory, run, system, kind, checked] at ensured
        · cases ensured
          rfl
        · cases ensured
          exact kind
        · cases ensured
      refine keeps_directory (p := (closingOnError (openFiles H retries false)).bind fun _ =>
        setMembers fun m => { m with isOpen := true }) ?_ present
      exact congrArg Outcome.state? opens

theorem Returns.state {p : Db Unit} {ok : Bool} (returns : Returns p w ok w') : (run system p w).state? = some w' := by
  cases returns with
  | ok runs =>
    rw [show run system p w = _ from runs]
    rfl
  | error failed =>
    rw [failed]
    rfl

theorem History.directory (history : History H retries start trace w) : w.directory = .directory := by
  obtain ⟨_, _, opens, calls⟩ := history
  have present := opened_directory opens
  induction calls with
  | start => exact present
  | call before contract bounded returns ih => exact keeps_directory returns.state ih

end Directory

section Answers
variable {H : HashFunctions} {w w' : World} {objects : ObjectLog} {live : RowLog}

/-- The call returns in `w` what it returns in `w'`, and changes neither. -/
abbrev Agrees {α : Type} (p : Db α) (w w' : World) : Prop := AnswersAs system p w w'

theorem Agrees.bind {α β : Type} {p : Db α} {f : α → Db β} (first : Agrees p w w')
    (rest : ∀ a, Agrees (f a) w w') : Agrees (p.bind f) w w' := by
  cases first with
  | @ok a here there =>
    have later := rest a
    cases later with
    | ok here' there' => exact .ok ((Runs.bind here).trans here') ((Runs.bind there).trans there')
    | error here' there' => exact .error ((Runs.bind here).trans here') ((Runs.bind there).trans there')
  | error here there => exact .error (run_bind_error system here f) (run_bind_error system there f)

/-- An open database shows the records of `objects` and the rows of `live`. -/
structure Showing (H : HashFunctions) (w : World) (objects : ObjectLog) (live : RowLog) : Prop where
  isOpen : w.members.isOpen = true
  objects : ∃ v b n slot off, ObjectView H w v b n slot off (putAll (fun _ => none) objects)
  rows : ∃ shards count b n slot ref, RowView H w shards count b n slot ref (putRows noRows live)

theorem Viewing.showing (viewing : Viewing H w objects live) : Showing H w objects live :=
  ⟨viewing.isOpen, viewing.objects, viewing.rows⟩

theorem Active.showing {s : RowState} (active : Active H w objects s) : Showing H w objects s.live := by
  obtain ⟨b, n, slot, off, files⟩ := active.objects
  obtain ⟨rb, rn, rslot, ref, rowFiles⟩ := active.rows
  exact ⟨active.serving.isOpen, ⟨_, b, n, slot, off, files.view⟩, ⟨_, _, rb, rn, rslot, ref, rowFiles.view⟩⟩

theorem Showing.getStruct (here : Showing H w objects live) (there : Showing H w' objects live) (column key : Bytes) :
    Agrees (getStruct H column key) w w' := by
  obtain ⟨_, _, _, _, _, view⟩ := here.objects
  obtain ⟨_, _, _, _, _, view'⟩ := there.objects
  cases held : putAll (fun _ => none) objects (column, key) with
  | some value =>
    exact .ok (view.getStruct (k := (column, key)) here.isOpen held)
      (view'.getStruct (k := (column, key)) there.isOpen held)
  | none =>
    exact .error (view.getStruct_absent (k := (column, key)) here.isOpen held)
      (view'.getStruct_absent (k := (column, key)) there.isOpen held)

theorem Showing.getMany (here : Showing H w objects live) (there : Showing H w' objects live) (column : Bytes)
    (keys : List Bytes) : Agrees (getMany H column keys) w w' := by
  have loop : Agrees (getManyLoop H column keys) w w' := by
    induction keys with
    | nil => exact .ok rfl rfl
    | cons key later ih =>
      exact Agrees.bind (here.getStruct there column key) fun _ => Agrees.bind ih fun _ => .ok rfl rfl
  have opens : ∀ {u : World}, u.members.isOpen = true →
      run system (LumoDB.getMany H column keys) u = run system (getManyLoop H column keys) u := by
    intro u isOpen
    unfold LumoDB.getMany
    rw [Prog.bind_eq, (getMembers_runs u).bind, if_neg (by rw [isOpen]; decide)]
  cases loop with
  | ok first second => exact .ok ((opens here.isOpen).trans first) ((opens there.isOpen).trans second)
  | error first second => exact .error ((opens here.isOpen).trans first) ((opens there.isOpen).trans second)

theorem Showing.getRowStruct (here : Showing H w objects live) (there : Showing H w' objects live) (column : Bytes)
    (rowId : Nat) (key : Bytes) (retries : Nat) : Agrees (getRowStruct H (retries + 1) column rowId key) w w' := by
  obtain ⟨_, _, _, _, _, _, view⟩ := here.rows
  obtain ⟨_, _, _, _, _, _, view'⟩ := there.rows
  have first := view.getRowStruct here.isOpen (column, rowId) key retries
  have second := view'.getRowStruct there.isOpen (column, rowId) key retries
  unfold rowAnswer at first second
  cases row : putRows noRows live (column, rowId) with
  | none =>
    rw [row] at first second
    exact .error first second
  | some content =>
    rw [row] at first second
    simp only at first second
    cases held : content key with
    | some value =>
      rw [held] at first second
      exact .ok first second
    | none =>
      rw [held] at first second
      exact .error first second

/-- The statistics of a database are a function of its contents. -/
theorem StatsOf.unique {values : ObjectKey → Option Bytes} {rows : RowKey → Option RowMap}
    {stats stats' : List ColumnStats} (first : StatsOf values rows stats) (second : StatsOf values rows stats') :
    stats = stats' := by
  have ordered : ∀ {stats : List ColumnStats}, StatsOf values rows stats →
      stats.Pairwise fun s t => s.column < t.column := fun statsOf => List.pairwise_map.mp statsOf.sorted
  have nodup : ∀ {stats : List ColumnStats}, StatsOf values rows stats → stats.Nodup := fun statsOf =>
    (ordered statsOf).imp fun below => by
      rintro rfl
      exact Std.lt_irrefl below
  have perm := (List.perm_ext_iff_of_nodup (nodup first) (nodup second)).mpr fun s =>
    (first.counts s).trans (second.counts s).symm
  refine perm.eq_of_pairwise (fun s t _ _ below above => ?_) (ordered first) (ordered second)
  exact absurd (Std.lt_trans below above) Std.lt_irrefl

theorem Showing.getColumnStats (here : Showing H w objects live) (there : Showing H w' objects live) (retries : Nat) :
    Agrees (getColumnStats (retries + 1)) w w' := by
  obtain ⟨_, _, _, _, _, view⟩ := here.objects
  obtain ⟨_, _, _, _, _, view'⟩ := there.objects
  obtain ⟨_, _, _, _, _, _, rowView⟩ := here.rows
  obtain ⟨_, _, _, _, _, _, rowView'⟩ := there.rows
  obtain ⟨stats, first, exactly⟩ := getColumnStats_runs view rowView here.isOpen retries
  obtain ⟨stats', second, exactly'⟩ := getColumnStats_runs view' rowView' there.isOpen retries
  obtain rfl := exactly.unique exactly'
  exact .ok first second

theorem Showing.entryCount (here : Showing H w objects live) (there : Showing H w' objects live) :
    Agrees entryCount w w' := by
  obtain ⟨_, _, _, _, _, view⟩ := here.objects
  obtain ⟨_, _, _, _, _, view'⟩ := there.objects
  have first := view.entryCount
  have second := view'.entryCount
  rw [view.table.filled_eq_pairs view.represents] at first
  rw [view'.table.filled_eq_pairs view'.represents] at second
  exact .ok first second

theorem Showing.rowCount (here : Showing H w objects live) (there : Showing H w' objects live) :
    Agrees rowCount w w' := by
  obtain ⟨_, _, _, _, _, _, view⟩ := here.rows
  obtain ⟨_, _, _, _, _, _, view'⟩ := there.rows
  have first := view.rowCount
  have second := view'.rowCount
  rw [view.table.filled_eq_rows view.represents] at first
  rw [view'.table.filled_eq_rows view'.represents] at second
  exact .ok first second

end Answers

end LumoDB
