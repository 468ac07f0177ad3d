import IoTware.Micro.Create

/-!
# The link tree selects by the tasks that are off

`make_task_links` asks every task in the order of the list and gives those that
can be switched off two branches. So a set of such tasks and the states in
which exactly these tasks are inactive lead to the same leaf, and different
sets to different leaves.
-/

namespace IoTware.Micro

open CText LwMsg DecisionTree

-- ---------------------------------------------------------------------------
-- The levels of the tree
-- ---------------------------------------------------------------------------

def taskKey (ti : TaskInfo) : Option TaskId := some ti.id

def forks (ts : TaskList) : Option TaskId → Bool
  | none => false
  | some id => (ts.find? id).any TaskInfo.offloading

/-- The tasks in their order, and behind the last one the level of the leaves
it needs if it can be switched off. -/
def levelKeys (tis : List TaskInfo) : List (Option TaskId) :=
  tis.map taskKey ++ if tis.getLast?.any TaskInfo.offloading then [none] else []

theorem forks_taskKey (ts : TaskList) (h : ti ∈ ts.nodes) : forks ts (taskKey ti) = ti.offloading := by
  simp [forks, taskKey, ts.find?_of_mem h]

theorem addTaskLink_levels {fork : Option TaskId → Bool}
    (h : Levels fork (pre ++ [taskKey startTi]) head) (hfork : fork (taskKey startTi) = startTi.offloading)
    (hpre : taskKey startTi ∉ pre) :
    Levels fork (pre ++ [taskKey startTi, dest]) (addTaskLink head startTi dest) := by
  have hgraft : Levels fork (pre ++ [taskKey startTi, dest]) _ := h.graft hpre LinkInfo.zero
  rw [hfork] at hgraft
  unfold addTaskLink
  simp only [h.ne_nil, Bool.false_eq_true, if_false]
  exact hgraft

theorem addTaskLink_nil {fork : Option TaskId → Bool}
    (hfork : fork (taskKey startTi) = startTi.offloading) :
    Levels fork [taskKey startTi, dest] (addTaskLink .nil startTi dest) := by
  have hroot : Levels fork [taskKey startTi] (.node (taskKey startTi) .nil .nil LinkInfo.zero) :=
    ⟨_, rfl⟩
  have hgraft : Levels fork ([] ++ [taskKey startTi, dest]) _ :=
    Levels.graft hroot (by simp) LinkInfo.zero
  rw [hfork] at hgraft
  exact hgraft

theorem makeTaskLinksStep_levels {fork : Option TaskId → Bool} (left' : TaskInfo)
    (pre rest : List TaskInfo)
    (hfork : ∀ ti ∈ last :: rest, fork (taskKey ti) = ti.offloading)
    (hdistinct : ((pre ++ last :: rest).map taskKey).Nodup)
    (h : Levels fork ((pre ++ [last]).map taskKey) head) :
    ∃ left last' head',
      rest.foldl makeTaskLinksStep (some left', some last, head) = (some left, some last', head') ∧
        (pre ++ last :: rest).getLast? = some last' ∧ last' ∈ last :: rest ∧
        Levels fork ((pre ++ last :: rest).map taskKey) head' := by
  induction rest generalizing pre last left' head with
  | nil => exact ⟨left', last, head, rfl, by simp, by simp, h⟩
  | cons ti rest ih =>
    have hpre : taskKey last ∉ pre.map taskKey := by
      simp only [List.map_append, List.map_cons] at hdistinct
      intro hmem
      exact (List.nodup_append.mp hdistinct).2.2 _ hmem _ (by simp) rfl
    rw [List.map_append, List.map_cons, List.map_nil] at h
    have hlink : Levels fork (pre.map taskKey ++ [taskKey last, some ti.id]) _ :=
      addTaskLink_levels h (hfork last (by simp)) hpre
    have hnext : pre ++ last :: ti :: rest = (pre ++ [last]) ++ ti :: rest := by simp
    have hkeys : (pre ++ [last] ++ [ti]).map taskKey = pre.map taskKey ++ [taskKey last, some ti.id] := by
      simp [taskKey]
    rw [hnext] at hdistinct ⊢
    rw [← hkeys] at hlink
    obtain ⟨left, last', head', hfold, hlast, hmem, hlevels⟩ := ih last _
      (fun ti' hti' => hfork ti' (List.mem_cons_of_mem _ hti')) hdistinct hlink
    exact ⟨left, last', head', hfold, hlast, List.mem_cons_of_mem _ hmem, hlevels⟩

theorem makeTaskLinks_levels {ms : MicroService} (hlen : 2 ≤ ms.tasks.nodes.length)
    (hnil : ms.taskLinkHead = .nil) :
    Levels (forks ms.tasks) (levelKeys ms.tasks.nodes) (makeTaskLinks ms).taskLinkHead := by
  obtain ⟨first, second, rest, hnodes⟩ : ∃ a b rest, ms.tasks.nodes = a :: b :: rest := by
    match h : ms.tasks.nodes with
    | [] => simp [h] at hlen
    | [_] => simp [h] at hlen
    | a :: b :: rest => exact ⟨a, b, rest, rfl⟩
  have hforks : ∀ ti ∈ first :: second :: rest, forks ms.tasks (taskKey ti) = ti.offloading := by
    intro ti hti
    exact forks_taskKey ms.tasks (hnodes ▸ hti)
  have hdistinct : ((first :: second :: rest).map taskKey).Nodup := by
    have h := ms.tasks.distinct
    rw [hnodes] at h
    have hmap : (first :: second :: rest).map taskKey =
        ((first :: second :: rest).map TaskInfo.id).map some := by
      rw [List.map_map]
      rfl
    rw [hmap]
    exact (List.nodup_map_iff (Option.some_injective _)).mpr h
  have hroot : Levels _ [taskKey first, some second.id] _ := addTaskLink_nil (hforks first (by simp))
  obtain ⟨left, last, head, hfold, hlast, hmem, hlevels⟩ :=
    makeTaskLinksStep_levels first [first] rest
      (fun ti hti => hforks ti (List.mem_cons_of_mem _ hti)) hdistinct hroot
  have hhead : ms.tasks.nodes.foldl makeTaskLinksStep (none, none, ms.taskLinkHead) =
      (some left, some last, head) := by
    rw [hnodes, hnil]
    exact hfold
  unfold makeTaskLinks levelKeys
  rw [hhead, hnodes]
  simp only [List.cons_append, List.nil_append] at hlast hlevels
  simp only [hlast, Option.any_some]
  by_cases hoff : last.offloading
  · rw [if_pos hoff, if_pos hoff]
    have hsplit : first :: second :: rest = (first :: second :: rest).dropLast ++ [last] := by
      exact (List.dropLast_append_getLast? last hlast).symm
    have hlast' : taskKey last ∉ ((first :: second :: rest).dropLast).map taskKey := by
      rw [hsplit, List.map_append] at hdistinct
      intro hmem
      exact (List.nodup_append.mp hdistinct).2.2 _ hmem _ (by simp) rfl
    rw [hsplit, List.map_append] at hlevels
    have hextra : Levels _ (_ ++ [taskKey last, none]) _ :=
      addTaskLink_levels hlevels (hforks last (List.mem_cons_of_mem _ hmem)) hlast'
    rw [hsplit]
    simpa using hextra
  · rw [if_neg hoff, if_neg hoff, List.append_nil]
    exact hlevels

-- ---------------------------------------------------------------------------
-- The two walks
-- ---------------------------------------------------------------------------

/-- The names are those of tasks that can be switched off. -/
def Offloadable (ms : MicroService) (names : List Text) : Prop :=
  ∀ name ∈ names, ∃ ti ∈ ms.tasks.nodes, ti.name = name ∧ ti.offloading

/-- In `ms'` exactly the tasks of these names are inactive, among the tasks of
`ms`. -/
def ExactlyOff (ms ms' : MicroService) (names : List Text) : Prop :=
  ∀ ti ∈ ms.tasks.nodes, ∃ ti' ∈ ms'.tasks.nodes, ti'.id = ti.id ∧
    (ti'.state.isActive = false ↔ ti.name ∈ names)

def SameNames (names names' : List Text) : Prop := ∀ name, name ∈ names ↔ name ∈ names'

/-- What `make_task_links` relies on: two tasks at least, with names that can be
told apart. -/
structure LinkableTasks (ms : MicroService) : Prop where
  two_le : 2 ≤ ms.tasks.nodes.length
  names_nodup : (ms.tasks.nodes.map TaskInfo.name).Nodup
  names_ne_nil : ∀ ti ∈ ms.tasks.nodes, ti.name ≠ []

theorem LinkableTasks.getTaskInfoByName (h : LinkableTasks ms) (hti : ti ∈ ms.tasks.nodes) :
    getTaskInfoByName ms ti.name = some ti := by
  unfold Micro.getTaskInfoByName
  rw [if_neg (h.names_ne_nil ti hti)]
  obtain ⟨ti', hti'⟩ : ∃ ti', ms.tasks.nodes.find? (fun t => ti.name = t.name) = some ti' := by
    rw [← Option.isSome_iff_exists, List.find?_isSome]
    exact ⟨ti, hti, by simp⟩
  have hname : ti.name = ti'.name := by simpa using List.find?_some hti'
  rw [hti', List.inj_on_of_nodup_map h.names_nodup (List.mem_of_find?_eq_some hti') hti hname.symm]

theorem LinkableTasks.mem_offTaskIds (h : LinkableTasks ms) (hoff : Offloadable ms names)
    (hti : ti ∈ ms.tasks.nodes) : ti.id ∈ offTaskIds ms names ↔ ti.name ∈ names := by
  unfold offTaskIds
  rw [List.mem_filterMap]
  constructor
  · rintro ⟨name, hname, hid⟩
    obtain ⟨ti', hti', rfl, -⟩ := hoff name hname
    rw [h.getTaskInfoByName hti', Option.map_some, Option.some.injEq] at hid
    rw [List.inj_on_of_nodup_map ms.tasks.distinct hti' hti hid] at hname
    exact hname
  · intro hname
    exact ⟨ti.name, hname, by rw [h.getTaskInfoByName hti, Option.map_some]⟩

theorem LinkableTasks.onoffTest_taskKey (h : LinkableTasks ms) (hoff : Offloadable ms names)
    (hti : ti ∈ ms.tasks.nodes) :
    onoffTest (offTaskIds ms names) (taskKey ti) = decide (ti.name ∉ names) := by
  rw [Bool.eq_iff_iff, decide_eq_true_iff, ← h.mem_offTaskIds hoff hti]
  simp only [onoffTest, taskKey, Bool.not_eq_true', List.any_eq_false, decide_eq_true_eq,
    Option.some.injEq]
  exact ⟨fun hall hmem => hall _ hmem rfl, fun hnot id hid heq => hnot (heq ▸ hid)⟩

theorem ExactlyOff.currTaskState_taskKey (h : ExactlyOff ms ms' names) (hti : ti ∈ ms.tasks.nodes) :
    currTaskState ms' (taskKey ti) = decide (ti.name ∉ names) := by
  obtain ⟨ti', hti', hid, hstate⟩ := h ti hti
  rw [Bool.eq_iff_iff, decide_eq_true_iff, ← hstate]
  simp [currTaskState, taskKey, ← hid, ms'.tasks.find?_of_mem hti']

theorem taskKey_of_mem_levelKeys {tis : List TaskInfo} (h : key ∈ (levelKeys tis).dropLast) :
    ∃ ti ∈ tis, key = taskKey ti := by
  unfold levelKeys at h
  split at h
  · rw [List.dropLast_concat] at h
    obtain ⟨ti, hti, rfl⟩ := List.mem_map.mp h
    exact ⟨ti, hti, rfl⟩
  · rw [List.append_nil] at h
    obtain ⟨ti, hti, rfl⟩ := List.mem_map.mp ((List.dropLast_sublist _).subset h)
    exact ⟨ti, hti, rfl⟩

theorem taskKey_mem_levelKeys {tis : List TaskInfo} (hti : ti ∈ tis) (hoff : ti.offloading) :
    taskKey ti ∈ (levelKeys tis).dropLast := by
  unfold levelKeys
  split
  · rw [List.dropLast_concat]
    exact List.mem_map_of_mem hti
  · rename_i hlast
    rw [List.append_nil, ← List.map_dropLast]
    refine List.mem_map_of_mem ?_
    obtain ⟨last, hlast'⟩ : ∃ last, tis.getLast? = some last :=
      Option.isSome_iff_exists.mp (by simpa using List.ne_nil_of_mem hti)
    rw [hlast', Option.any_some] at hlast
    rw [← List.dropLast_append_getLast? last hlast', List.mem_append, List.mem_singleton] at hti
    rcases hti with hti | rfl
    · exact hti
    · exact absurd hoff hlast

theorem LinkableTasks.walk (h : LinkableTasks ms) (hoff : Offloadable ms names)
    (hlevels : Levels (forks ms.tasks) (levelKeys ms.tasks.nodes) tree)
    {test : Option TaskId → Bool}
    (htest : ∀ ti ∈ ms.tasks.nodes, test (taskKey ti) = decide (ti.name ∉ names)) :
    tree.walk test = some ((levelKeys ms.tasks.nodes).dropLast.map test) := by
  refine hlevels.walk ?_
  intro key hkey hfork
  obtain ⟨ti, hti, rfl⟩ := taskKey_of_mem_levelKeys hkey
  rw [htest ti hti, decide_eq_true_iff]
  intro hname
  obtain ⟨ti', hti', hname', hoff'⟩ := hoff _ hname
  have heq := List.inj_on_of_nodup_map h.names_nodup hti' hti hname'
  rw [forks_taskKey _ hti, ← heq, hoff'] at hfork
  cases hfork

def leafOf (ms : MicroService) (names : List Text) : Path :=
  (levelKeys ms.tasks.nodes).dropLast.map (onoffTest (offTaskIds ms names))

theorem LinkableTasks.walk_congr (h : LinkableTasks ms) (hoff : Offloadable ms names)
    (hlevels : Levels (forks ms.tasks) (levelKeys ms.tasks.nodes) tree)
    {test test' : Option TaskId → Bool}
    (htest : ∀ ti ∈ ms.tasks.nodes, test (taskKey ti) = decide (ti.name ∉ names))
    (htest' : ∀ ti ∈ ms.tasks.nodes, test' (taskKey ti) = decide (ti.name ∉ names)) :
    tree.walk test = tree.walk test' := by
  rw [h.walk hoff hlevels htest, h.walk hoff hlevels htest']
  congr 1
  refine List.map_congr_left ?_
  intro key hkey
  obtain ⟨ti, hti, rfl⟩ := taskKey_of_mem_levelKeys hkey
  rw [htest ti hti, htest' ti hti]

theorem LinkableTasks.walk_ne (h : LinkableTasks ms) (hoff : Offloadable ms names)
    (hoff' : Offloadable ms names') (hne : ¬ SameNames names names')
    (hlevels : Levels (forks ms.tasks) (levelKeys ms.tasks.nodes) tree)
    {test test' : Option TaskId → Bool}
    (htest : ∀ ti ∈ ms.tasks.nodes, test (taskKey ti) = decide (ti.name ∉ names))
    (htest' : ∀ ti ∈ ms.tasks.nodes, test' (taskKey ti) = decide (ti.name ∉ names')) :
    tree.walk test ≠ tree.walk test' := by
  obtain ⟨name, hname⟩ := not_forall.mp hne
  obtain ⟨ti, hti, rfl, hti'⟩ : ∃ ti ∈ ms.tasks.nodes, ti.name = name ∧ ti.offloading := by
    by_cases hmem : name ∈ names
    · exact hoff name hmem
    · exact hoff' name (by_contra fun hmem' => hname (iff_of_false hmem hmem'))
  rw [h.walk hoff hlevels htest, h.walk hoff' hlevels htest']
  intro heq
  have hagree := List.map_inj_left.mp (Option.some.inj heq) _ (taskKey_mem_levelKeys hti hti')
  rw [htest ti hti, htest' ti hti, decide_eq_decide, not_iff_not] at hagree
  exact hname hagree

-- ---------------------------------------------------------------------------
-- What is registered
-- ---------------------------------------------------------------------------

/-- The arguments of a `set_connect_link`. -/
structure Registration where
  lines : List (Option ConnectLine)
  outputName : Text
  names : List Text

def register (ms : MicroService) (regs : List Registration) : MicroService :=
  regs.foldl (fun ms reg => setConnectLink ms reg.lines reg.outputName reg.names) ms

theorem register_tasks (ms : MicroService) (regs : List Registration) :
    (register ms regs).tasks = ms.tasks := by
  induction regs generalizing ms with
  | nil => rfl
  | cons reg regs ih => exact (ih _).trans (setConnectLink_tasks ms _ _ _)

theorem offTaskIds_congr {ms ms' : MicroService} (h : ms.tasks = ms'.tasks) (names : List Text) :
    offTaskIds ms names = offTaskIds ms' names := by
  unfold offTaskIds getTaskInfoByName
  rw [h]

theorem setConnectLink_levels (hlevels : Levels fork ks ms.taskLinkHead) :
    Levels fork ks (setConnectLink ms lines outputName names).taskLinkHead := by
  unfold setConnectLink
  split
  · exact hlevels
  · exact hlevels.modify _ _

theorem register_levels (hlevels : Levels fork ks ms.taskLinkHead) (regs : List Registration) :
    Levels fork ks (register ms regs).taskLinkHead := by
  induction regs generalizing ms with
  | nil => exact hlevels
  | cons reg regs ih => exact ih (setConnectLink_levels hlevels)

theorem setConnectLink_payload (hwalk : onoffWalk ms names = some path) :
    (setConnectLink ms lines outputName names).taskLinkHead.payload? path =
      some ⟨some lines, outputName⟩ := by
  have hsome := Tree.payload?_isSome_of_walk hwalk
  obtain ⟨link, hlink⟩ := Option.isSome_iff_exists.mp hsome
  unfold setConnectLink
  rw [hwalk]
  simp only
  rw [Tree.payload?_modify_self, hlink, Option.map_some]

theorem setConnectLink_payload_ne (hwalk : onoffWalk ms names ≠ some path) :
    (setConnectLink ms lines outputName names).taskLinkHead.payload? path =
      ms.taskLinkHead.payload? path := by
  unfold setConnectLink
  split
  · rfl
  · rename_i path' hpath'
    rw [hpath'] at hwalk
    exact Tree.payload?_modify_ne _ _ fun heq => hwalk (congrArg some heq)

theorem LinkableTasks.register_payload (h : LinkableTasks ms) (hoff : Offloadable ms names)
    (hpath : ∀ tree : TaskLink, Levels (forks ms.tasks) (levelKeys ms.tasks.nodes) tree →
      tree.walk (onoffTest (offTaskIds ms names)) = some path)
    {regs : List Registration}
    (hother : ∀ reg ∈ regs, Offloadable ms reg.names ∧ ¬ SameNames names reg.names)
    (htasks : ms₁.tasks = ms.tasks)
    (hlevels : Levels (forks ms.tasks) (levelKeys ms.tasks.nodes) ms₁.taskLinkHead) :
    (register ms₁ regs).taskLinkHead.payload? path = ms₁.taskLinkHead.payload? path := by
  induction regs generalizing ms₁ with
  | nil => rfl
  | cons reg regs ih =>
    obtain ⟨hreg, hne⟩ := hother reg (by simp)
    have hrest := ih (fun reg hreg => hother reg (List.mem_cons_of_mem _ hreg))
      ((setConnectLink_tasks ms₁ reg.lines reg.outputName reg.names).trans htasks)
      (setConnectLink_levels hlevels)
    refine hrest.trans (setConnectLink_payload_ne ?_)
    unfold onoffWalk
    rw [offTaskIds_congr htasks, ← hpath _ hlevels]
    exact (h.walk_ne hoff hreg hne hlevels (fun _ => h.onoffTest_taskKey hoff)
      (fun _ => h.onoffTest_taskKey hreg)).symm

/-- For every set of tasks that can be switched off, `set_connect_link` with
their names and the states in which exactly these are inactive lead to one leaf
of the built tree, which is no other set's; so the lines registered last for
the set are those selected when it is off. -/
theorem link_tree_selection {ms : MicroService} (h : LinkableTasks ms)
    (hnil : ms.taskLinkHead = .nil) (hoff : Offloadable ms names) :
    ∃ path,
      onoffWalk (makeTaskLinks ms) names = some path ∧
      (∀ ms', ms'.taskLinkHead = (makeTaskLinks ms).taskLinkHead → ExactlyOff ms ms' names →
        currWalk ms' = some path) ∧
      (∀ names', Offloadable ms names' → ¬ SameNames names names' →
        onoffWalk (makeTaskLinks ms) names' ≠ some path) ∧
      ∀ before after lines outputName ms',
        (∀ reg ∈ after, Offloadable ms reg.names ∧ ¬ SameNames names reg.names) →
        ms'.taskLinkHead = (register (makeTaskLinks ms)
          (before ++ ⟨lines, outputName, names⟩ :: after)).taskLinkHead →
        ExactlyOff ms ms' names →
        selectedLink ms' = some (path, ⟨some lines, outputName⟩) := by
  have hlevels := makeTaskLinks_levels h.two_le hnil
  have hpath (tree : TaskLink) (htree : Levels (forks ms.tasks) (levelKeys ms.tasks.nodes) tree) :
      tree.walk (onoffTest (offTaskIds ms names)) = some (leafOf ms names) :=
    h.walk hoff htree (fun _ => h.onoffTest_taskKey hoff)
  have hcurr (tree : TaskLink) (htree : Levels (forks ms.tasks) (levelKeys ms.tasks.nodes) tree)
      (ms' : MicroService) (hstates : ExactlyOff ms ms' names) :
      tree.walk (currTaskState ms') = tree.walk (onoffTest (offTaskIds ms names)) :=
    h.walk_congr hoff htree (fun _ => hstates.currTaskState_taskKey)
      (fun _ => h.onoffTest_taskKey hoff)
  refine ⟨_, hpath _ hlevels, ?_, ?_, ?_⟩
  · intro ms' htree hstates
    unfold currWalk
    rw [htree, hcurr _ hlevels ms' hstates, hpath _ hlevels]
  · intro names' hoff' hne
    rw [← hpath _ hlevels]
    exact (h.walk_ne hoff hoff' hne hlevels (fun _ => h.onoffTest_taskKey hoff)
      (fun _ => h.onoffTest_taskKey hoff')).symm
  · intro before after lines outputName ms' hother htree hstates
    have hbefore := register_tasks (makeTaskLinks ms) before
    have hlevels₁ := register_levels hlevels before
    have hwalk : onoffWalk (register (makeTaskLinks ms) before) names = some (leafOf ms names) := by
      unfold onoffWalk
      rw [offTaskIds_congr hbefore]
      exact hpath _ hlevels₁
    have hlevels₂ : Levels _ _ (setConnectLink _ lines outputName names).taskLinkHead :=
      setConnectLink_levels hlevels₁
    have hafter := h.register_payload hoff hpath hother
      ((setConnectLink_tasks _ lines outputName names).trans hbefore) hlevels₂
    have hlevels₃ := register_levels hlevels₂ after
    unfold register at htree
    rw [List.foldl_append, List.foldl_cons] at htree
    unfold selectedLink currWalk
    rw [htree]
    have hsel := (hcurr _ hlevels₃ ms' hstates).trans (hpath _ hlevels₃)
    have hpay := hafter.trans (setConnectLink_payload hwalk)
    unfold register at hsel hpay
    rw [hsel]
    simp only [Option.bind_eq_bind, Option.bind_some, hpay]
    rfl

def sampleTasks : MicroService :=
  (makeMicroService "101".toList
    [.addNewTask (sampleTask "sensor".toList false), .addNewTask (sampleTask "filter".toList true),
      .addNewTask (sampleTask "log".toList true)]).runCreate

theorem sampleTasks_linkable : LinkableTasks sampleTasks :=
  ⟨by decide, by decide, by decide⟩

theorem sampleTasks_offloadable : Offloadable sampleTasks ["log".toList] := by
  unfold Offloadable
  decide

theorem link_tree_selection_log :
    ∃ path,
      onoffWalk (makeTaskLinks sampleTasks) ["log".toList] = some path ∧
      ∀ ms', ms'.taskLinkHead = (makeTaskLinks sampleTasks).taskLinkHead →
        ExactlyOff sampleTasks ms' ["log".toList] → currWalk ms' = some path := by
  obtain ⟨path, honoff, hcurr, -, -⟩ :=
    link_tree_selection sampleTasks_linkable (by decide) sampleTasks_offloadable
  exact ⟨path, honoff, hcurr⟩

end IoTware.Micro
