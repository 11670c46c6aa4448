import ContributorGateway.Core.ClaimableTasks
import ContributorGateway.Foundation.RankedLists

/-!
# Listed tasks

A listing is the beginning of the tasks that its filters select, in one order for all listings:
by status, source, line and ID.
-/

namespace ContributorGateway.CommittedTasks

variable {tables : CharacterTables} {commit : List Char} {index : TaskIndex tables commit}

/-- The tasks that two filters select, in the order of the index. -/
def TaskIndex.selected (index : TaskIndex tables commit) (status : TaskStatusFilter)
    (source : TaskSourceFilter) : List TaskRecord :=
  (index.tasks.map BuiltTask.record).filter fun task =>
    status.selects task.status && source.selects task.sourceKind

/-- A selected task is a task of the index that both filters select. -/
theorem mem_selected {status : TaskStatusFilter} {source : TaskSourceFilter}
    {record : TaskRecord} : record ∈ index.selected status source ↔
      (∃ task ∈ index.tasks, task.record = record) ∧ status.selects record.status = true ∧
        source.selects record.sourceKind = true := by
  rw [TaskIndex.selected, List.mem_filter, List.mem_map, Bool.and_eq_true]

/-- A listing is the beginning of the selected tasks. -/
theorem listTasks_eq_ok {status source : String} {limit : ℤ} {list : TaskList}
    (h : index.listTasks status source limit = .ok list) :
    TaskStatusFilter.ofText status = some list.status ∧
      TaskSourceFilter.ofText source = some list.source ∧ 1 ≤ limit ∧ limit ≤ maxTaskLimit ∧
      list.count = list.tasks.length ∧
      list.tasks = (index.selected list.status list.source).take limit.toNat := by
  rw [TaskIndex.listTasks] at h
  split at h
  · next selectedStatus selectedSource hstatus hsource =>
    split_ifs at h with hlimit
    obtain rfl := Except.ok.inj h
    exact ⟨hstatus, hsource, hlimit.1, hlimit.2, rfl, rfl⟩
  · cases h

/-- Accepted arguments give a listing. -/
theorem listTasks_of_accepted {status source : String} {limit : ℤ}
    {selectedStatus : TaskStatusFilter} {selectedSource : TaskSourceFilter}
    (hstatus : TaskStatusFilter.ofText status = some selectedStatus)
    (hsource : TaskSourceFilter.ofText source = some selectedSource)
    (hlimit : 1 ≤ limit ∧ limit ≤ maxTaskLimit) : ∃ list,
      index.listTasks status source limit = .ok list ∧ list.status = selectedStatus ∧
        list.source = selectedSource ∧
        list.tasks = (index.selected selectedStatus selectedSource).take limit.toNat := by
  rw [TaskIndex.listTasks, hstatus, hsource]
  dsimp only
  rw [if_neg (not_not.mpr hlimit)]
  exact ⟨_, rfl, rfl, rfl, rfl⟩

/-! ## The order -/

/-- The tasks of an index that was built have increasing keys. -/
theorem pairwise_indexTasks {tasks : List (BuiltTask tables commit)}
    (h : indexTasks tasks = .ok index) :
    index.tasks.Pairwise fun a b => taskKey a.record < taskKey b.record := by
  have hids := List.pairwise_map.mp index.distinct
  have hsorted : index.tasks.Pairwise fun a b => taskKey a.record ≤ taskKey b.record := by
    rw [indexTasks] at h
    split_ifs at h
    obtain rfl := Except.ok.inj h
    exact pairwise_sorted (fun task : BuiltTask tables commit => taskKey task.record) tasks
  refine (hsorted.and hids).imp fun {a b} hab => lt_of_le_of_ne hab.1 fun heq => hab.2 ?_
  have hid : a.record.id.toList = b.record.id.toList :=
    congrArg (fun key : ℕ ×ₗ ℕ ×ₗ ℕ ×ₗ List Char => (ofLex (ofLex (ofLex key).2).2).2) heq
  exact String.toList_inj.mp hid

/-- The tasks of the index have increasing keys. -/
theorem pairwise_taskIndex {snapshot : Snapshot} {index : TaskIndex tables snapshot.commit}
    (h : taskIndex tables snapshot = .ok index) :
    index.tasks.Pairwise fun a b => taskKey a.record < taskKey b.record := by
  rw [taskIndex] at h
  split at h
  · cases h
  obtain ⟨handoff, -, h⟩ := bind_eq_ok.mp h
  obtain ⟨qa, -, h⟩ := bind_eq_ok.mp h
  obtain ⟨linkage, -, h⟩ := bind_eq_ok.mp h
  obtain ⟨decomp, -, h⟩ := bind_eq_ok.mp h
  obtain ⟨catalog, -, h⟩ := bind_eq_ok.mp h
  exact pairwise_indexTasks h

/-- Selected tasks have increasing keys. -/
theorem pairwise_selected
    (h : index.tasks.Pairwise fun a b => taskKey a.record < taskKey b.record)
    (status : TaskStatusFilter) (source : TaskSourceFilter) :
    (index.selected status source).Pairwise fun a b => taskKey a < taskKey b := by
  have hrecords : (index.tasks.map BuiltTask.record).Pairwise fun a b => taskKey a < taskKey b :=
    List.pairwise_map.mpr h
  exact hrecords.filter _

/-- The tasks of a source are its open, its blocked and its done tasks. -/
theorem selected_all (h : index.tasks.Pairwise fun a b => taskKey a.record < taskKey b.record)
    (source : TaskSourceFilter) :
    index.selected .all source =
      index.selected .open source ++ index.selected .blocked source ++
        index.selected .done source := by
  have hsorted : (index.selected .all source).Pairwise fun a b =>
      statusOrder a.status ≤ statusOrder b.status :=
    (pairwise_selected h .all source).imp fun {a b} hab => by
      rcases Prod.Lex.lt_iff.mp hab with hlt | ⟨heq, -⟩
      · exact hlt.le
      · exact heq.le
  have hbound : ∀ task ∈ index.selected .all source, statusOrder task.status < 3 := by
    intro task _
    cases task.status <;> decide
  have hgroup (status : TaskStatusFilter) (n : ℕ)
      (hstatus : ∀ s, status.selects s = decide (statusOrder s = n)) :
      (index.selected .all source).filter (fun task => statusOrder task.status = n) =
        index.selected status source := by
    rw [TaskIndex.selected, TaskIndex.selected, List.filter_filter]
    refine List.filter_congr fun task _ => ?_
    rw [hstatus]
    rfl
  rw [eq_flatMap_filter hsorted hbound]
  change ((index.selected .all source).filter _ ++ ((index.selected .all source).filter _ ++
    ((index.selected .all source).filter _ ++ []))) = _
  rw [List.append_nil, ← List.append_assoc]
  congr 1
  · congr 1
    · exact hgroup .open 0 fun s => by cases s <;> rfl
    · exact hgroup .blocked 1 fun s => by cases s <;> rfl
  · exact hgroup .done 2 fun s => by cases s <;> rfl

/-! ## Listings -/

/-- A listing has the selected tasks in the order of the index: each is found by its ID; a task
that the filters select is listed, unless the list is full of tasks before it; a shorter listing
is the beginning of a longer one; and a listing of all statuses has the open tasks before the
blocked ones and these before the done ones. -/
theorem listTasks_spec {snapshot : Snapshot} {index : TaskIndex tables snapshot.commit}
    (hindex : taskIndex tables snapshot = .ok index) {status source : String} {limit : ℤ}
    {list : TaskList} (hlist : index.listTasks status source limit = .ok list) :
    (list.tasks.Pairwise fun a b => taskKey a < taskKey b) ∧
    list.count = list.tasks.length ∧ list.tasks.length ≤ limit.toNat ∧
    (∀ record ∈ list.tasks, list.status.selects record.status = true ∧
      list.source.selects record.sourceKind = true ∧
      index.getTask record.id = some record) ∧
    (∀ task ∈ index.tasks, list.status.selects task.record.status = true →
      list.source.selects task.record.sourceKind = true → task.record ∈ list.tasks ∨
        list.tasks.length = limit.toNat ∧
          ∀ record ∈ list.tasks, taskKey record < taskKey task.record) ∧
    (∀ fewer, 1 ≤ fewer → fewer ≤ limit → ∃ list',
      index.listTasks status source fewer = .ok list' ∧
        list'.tasks = list.tasks.take fewer.toNat) ∧
    (list.status = .all → list.tasks = (index.selected .open list.source ++
      index.selected .blocked list.source ++ index.selected .done list.source).take
        limit.toNat) := by
  have hpairwise := pairwise_taskIndex hindex
  obtain ⟨hstatus, hsource, hpos, hmax, hcount, htasks⟩ := listTasks_eq_ok hlist
  have hselected := pairwise_selected hpairwise list.status list.source
  refine ⟨?_, hcount, ?_, fun record hrecord => ?_, fun task htask hs hk => ?_,
    fun fewer hfewer hle => ?_, fun hall => ?_⟩
  · rw [htasks]
    exact hselected.sublist (List.take_sublist _ _)
  · rw [htasks]
    exact List.length_take_le _ _
  · rw [htasks] at hrecord
    obtain ⟨⟨task, htask, rfl⟩, hs, hk⟩ := mem_selected.mp (List.mem_of_mem_take hrecord)
    exact ⟨hs, hk, getTask_of_mem htask⟩
  · have hmem : task.record ∈ index.selected list.status list.source :=
      mem_selected.mpr ⟨⟨task, htask, rfl⟩, hs, hk⟩
    rw [htasks]
    exact mem_take_or hselected hmem limit.toNat
  · have hshorter : ∃ list', index.listTasks status source fewer = .ok list' ∧
        list'.status = list.status ∧ list'.source = list.source ∧
        list'.tasks = (index.selected list.status list.source).take fewer.toNat :=
      listTasks_of_accepted hstatus hsource ⟨hfewer, hle.trans hmax⟩
    obtain ⟨list', hlist', -, -, htasks'⟩ := hshorter
    refine ⟨list', hlist', ?_⟩
    rw [htasks', htasks, List.take_take, min_eq_left (Int.toNat_le_toNat hle)]
  · rw [htasks, hall, selected_all hpairwise]

/-- The beginning of a listing of a snapshot with a class is the listing of fewer tasks. -/
theorem listTasks_spec_sources : ∃ snapshot index list,
    taskIndex asciiTables snapshot = .ok index ∧ index.listTasks "all" "all" 100 = .ok list ∧
    list.tasks ≠ [] ∧ (list.tasks.Pairwise fun a b => taskKey a < taskKey b) ∧
    ∀ record ∈ list.tasks, index.getTask record.id = some record := by
  obtain ⟨snapshot, index, -, -, list, -, hindex, -, -, hlist, hshort, -⟩ := exists_long_label
  obtain ⟨record, hrecord, -⟩ := hshort
  obtain ⟨hordered, -, -, hfound, -⟩ := listTasks_spec hindex hlist
  exact ⟨snapshot, index, list, hindex, hlist, List.ne_nil_of_mem hrecord, hordered,
    fun record hrecord => (hfound record hrecord).2.2⟩

end ContributorGateway.CommittedTasks
