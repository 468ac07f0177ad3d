import IoTware.Micro.LinkTree
import IoTware.Micro.Lifecycle

/-!
# The link that a run selects

Running a created microservice selects a leaf of its tree by the tasks that it
has started. There is none where the tree has no level, for fewer than two tasks,
or where a task that cannot be switched off is initially off.
-/

namespace IoTware.Micro

open CText LwMsg DecisionTree

def linkView (ti : TaskInfo) : TaskId × Bool := (ti.id, ti.offloading)

/-- The tree was built by `make_task_links` over the tasks there are, and then
given link lists. -/
def LinksBuilt (ms : MicroService) : Prop :=
  ∃ pre regs, pre.taskLinkHead = .nil ∧
    pre.tasks.nodes.map linkView = ms.tasks.nodes.map linkView ∧
    ms.taskLinkHead = (register (makeTaskLinks pre) regs).taskLinkHead

/-- There are two tasks, and every one that the walk asks can be switched off or
will be active. -/
def Selects (ms : MicroService) : Prop :=
  2 ≤ ms.tasks.nodes.length ∧
    ∀ ti ∈ ms.tasks.nodes.dropLast, ti.offloading ∨ ti.initialOnoff ∨ ti.state.isActive

-- ---------------------------------------------------------------------------
-- The tree
-- ---------------------------------------------------------------------------

theorem makeTaskLinks_short {ms : MicroService} (hlen : ms.tasks.nodes.length < 2)
    (hnil : ms.taskLinkHead = .nil) : (makeTaskLinks ms).taskLinkHead = .nil := by
  unfold makeTaskLinks
  rw [hnil]
  match h : ms.tasks.nodes with
  | [] => rfl
  | [_] => rfl
  | _ :: _ :: _ =>
    rw [h] at hlen
    exact absurd hlen (by simp)

theorem setConnectLink_nil {ms : MicroService} (hnil : ms.taskLinkHead = .nil)
    (lines : List (Option ConnectLine)) (outputName : Text) (names : List Text) :
    setConnectLink ms lines outputName names = ms := by
  unfold setConnectLink onoffWalk
  rw [hnil]
  rfl

theorem register_nil {ms : MicroService} (hnil : ms.taskLinkHead = .nil)
    (regs : List Registration) : (register ms regs).taskLinkHead = .nil := by
  induction regs generalizing ms with
  | nil => exact hnil
  | cons reg regs ih =>
    exact ih ((congrArg MicroService.taskLinkHead (setConnectLink_nil hnil _ _ _)).trans hnil)

theorem forks_congr {ts ts' : TaskList} (h : ts'.nodes.map linkView = ts.nodes.map linkView) :
    forks ts' = forks ts := by
  have hview : ∀ (ts : TaskList) id, (ts.find? id).any TaskInfo.offloading =
      ((ts.nodes.map linkView).find? fun v => v.1 = id).any Prod.snd := by
    intro ts id
    rw [List.find?_map, Option.any_map]
    rfl
  funext key
  cases key with
  | none => rfl
  | some id =>
    unfold forks
    dsimp only
    rw [hview, hview, h]

theorem levelKeys_congr {tis tis' : List TaskInfo} (h : tis'.map linkView = tis.map linkView) :
    levelKeys tis' = levelKeys tis := by
  have hkeys : ∀ tis : List TaskInfo, tis.map taskKey = (tis.map linkView).map fun v => some v.1 := by
    intro tis
    rw [List.map_map]
    rfl
  have hlast : ∀ tis : List TaskInfo,
      tis.getLast?.any TaskInfo.offloading = (tis.map linkView).getLast?.any Prod.snd := by
    intro tis
    rw [List.getLast?_map, Option.any_map]
    rfl
  unfold levelKeys
  rw [hkeys, hkeys, hlast, hlast, h]

theorem forall_levelKeys_iff {ts : TaskList} {test : Option TaskId → Bool} :
    (∀ key ∈ (levelKeys ts.nodes).dropLast, forks ts key = false → test key = true) ↔
      ∀ ti ∈ ts.nodes.dropLast, ti.offloading = false → test (taskKey ti) = true := by
  have hmem : ∀ ti ∈ ts.nodes.dropLast, ti ∈ ts.nodes := (List.dropLast_sublist _).subset
  constructor
  · intro h ti hti hoff
    refine h (taskKey ti) ?_ ((forks_taskKey ts (hmem ti hti)).trans hoff)
    unfold levelKeys
    split
    · rw [List.dropLast_concat]
      exact List.mem_map_of_mem (hmem ti hti)
    · rw [List.append_nil, ← List.map_dropLast]
      exact List.mem_map_of_mem hti
  · intro h key hkey hfork
    obtain ⟨ti, hti, rfl, hdrop⟩ : ∃ ti ∈ ts.nodes, key = taskKey ti ∧
        (ti.offloading = false → ti ∈ ts.nodes.dropLast) := by
      unfold levelKeys at hkey
      split at hkey
      · rename_i hlast
        rw [List.dropLast_concat] at hkey
        obtain ⟨ti, hti, rfl⟩ := List.mem_map.mp hkey
        refine ⟨ti, hti, rfl, fun hoff => ?_⟩
        cases hget : ts.nodes.getLast? with
        | none =>
          rw [hget] at hlast
          cases hlast
        | some last =>
          rw [hget, Option.any_some] at hlast
          rw [← List.dropLast_append_getLast? last hget, List.mem_append, List.mem_singleton] at hti
          obtain hti | rfl := hti
          · exact hti
          · rw [hoff] at hlast
            cases hlast
      · rw [List.append_nil, ← List.map_dropLast] at hkey
        obtain ⟨ti, hti, rfl⟩ := List.mem_map.mp hkey
        exact ⟨ti, hmem ti hti, rfl, fun _ => hti⟩
    rw [forks_taskKey ts hti] at hfork
    exact h ti (hdrop hfork) hfork

theorem LinksBuilt.walk_isSome_iff (h : LinksBuilt ms) (test : Option TaskId → Bool) :
    (ms.taskLinkHead.walk test).isSome ↔ 2 ≤ ms.tasks.nodes.length ∧
      ∀ ti ∈ ms.tasks.nodes.dropLast, ti.offloading = false → test (taskKey ti) = true := by
  obtain ⟨pre, regs, hnil, hview, htree⟩ := h
  have hlength : pre.tasks.nodes.length = ms.tasks.nodes.length := by
    simpa using congrArg List.length hview
  by_cases hlen : 2 ≤ ms.tasks.nodes.length
  · have hlevels := register_levels (makeTaskLinks_levels (hlength ▸ hlen) hnil) regs
    rw [← htree, forks_congr hview, levelKeys_congr hview] at hlevels
    rw [hlevels.walk_isSome_iff, forall_levelKeys_iff, and_iff_right hlen]
  · have hempty := register_nil (makeTaskLinks_short (by omega) hnil) regs
    rw [htree, hempty]
    exact iff_of_false Bool.false_ne_true fun h => hlen h.1

-- ---------------------------------------------------------------------------
-- The run
-- ---------------------------------------------------------------------------

def activeView (ti : TaskInfo) : TaskId × Bool := (ti.id, ti.state.isActive)

theorem any_isActive_find? (ts : TaskList) (id : TaskId) :
    (ts.find? id).any (fun ti => ti.state.isActive) =
      ((ts.nodes.map activeView).find? fun v => v.1 = id).any Prod.snd := by
  rw [List.find?_map, Option.any_map]
  rfl

theorem currTaskState_congr {ms ms' : MicroService}
    (h : ms'.tasks.nodes.map activeView = ms.tasks.nodes.map activeView) :
    currTaskState ms' = currTaskState ms := by
  funext task
  cases task with
  | none => rfl
  | some id =>
    unfold currTaskState
    dsimp only
    rw [any_isActive_find?, any_isActive_find?, h]

theorem startTask_active (h : startTask ti k = ((ti', k'), true)) : ti'.state.isActive = true := by
  unfold startTask at h
  split at h
  · cases h
  · cases h
    rfl

theorem runTask_active (h : runTask force init ti k = ((ti', k'), true)) :
    ti'.state.isActive = true := by
  unfold runTask at h
  split at h
  · cases h
  · dsimp only at h
    split at h
    · split at h
      · cases h
      · exact startTask_active h
    · exact startTask_active h

theorem runTasks_active (inits : Inits) (tis : List TaskInfo) (k : Kernel)
    (h : (runTasks inits tis k).2.2 = true) :
    (runTasks inits tis k).1.map activeView =
      tis.map fun ti => (ti.id, ti.initialOnoff || ti.state.isActive) := by
  induction tis generalizing k with
  | nil => rfl
  | cons ti tis ih =>
    unfold runTasks at h ⊢
    split
    · rename_i hon
      rw [if_pos hon] at h
      split
      · rename_i hrun
        rw [hrun] at h
        cases h
      · rename_i ti' k' hrun
        rw [hrun] at h
        have hid : (runTask false (inits ti.id) ti k).1.1.id = ti.id :=
          runTask_frame (fun _ _ _ _ => rfl) (fun _ _ _ => rfl) false (inits ti.id) ti k
        rw [hrun] at hid
        rw [List.map_cons, List.map_cons, ih k' h, hon]
        exact congrArg (· :: _) (Prod.ext hid (runTask_active hrun))
    · rename_i hoff
      rw [if_neg hoff] at h
      rw [List.map_cons, List.map_cons, ih k h, Bool.eq_false_iff.mpr hoff]
      rfl

theorem currTaskState_startTasks {ms : MicroService} (hok : (startTasks inits ms).2 = true)
    (hti : ti ∈ ms.tasks.nodes) :
    currTaskState (startTasks inits ms).1 (taskKey ti) = (ti.initialOnoff || ti.state.isActive) := by
  have hnodes : (startTasks inits ms).1.tasks.nodes.map activeView =
      ms.tasks.nodes.map fun ti => (ti.id, ti.initialOnoff || ti.state.isActive) :=
    runTasks_active inits _ _ hok
  have hfind := ms.tasks.find?_of_mem hti
  unfold TaskList.find? at hfind
  unfold currTaskState taskKey
  dsimp only
  rw [any_isActive_find?, hnodes, List.find?_map, Option.any_map]
  unfold Function.comp
  rw [hfind]
  rfl

theorem selectedLink_isSome (ms : MicroService) :
    (selectedLink ms).isSome ↔ (currWalk ms).isSome := by
  unfold selectedLink
  cases hwalk : currWalk ms with
  | none => rfl
  | some path =>
    obtain ⟨link, hlink⟩ := Option.isSome_iff_exists.mp (Tree.payload?_isSome_of_walk hwalk)
    simp [hlink]

theorem setOutputConnectLine_currentTaskLink (ms : MicroService) :
    (setOutputConnectLine ms).currentTaskLink =
      ((selectedLink ms).map Prod.fst).or ms.currentTaskLink := by
  unfold setOutputConnectLine
  cases selectedLink ms with
  | none => rfl
  | some p =>
    dsimp only
    split
    · rfl
    · rw [foldl_connectPort MicroService.currentTaskLink fun _ _ => rfl]
      rfl

/-- A created microservice that is run has a current link exactly if it had one
before, or its tasks select one. -/
theorem run_selects_iff {ms : MicroService} (hbuilt : LinksBuilt ms) (hstate : ms.state = .created)
    (hrun : runMicroService inits ms = .ok (ms', true)) :
    ms'.currentTaskLink ≠ none ↔ ms.currentTaskLink ≠ none ∨ Selects ms := by
  obtain ⟨-, hok, -, rfl⟩ | ⟨-, -, h, -⟩ | ⟨h, -⟩ := runMicroService_cases hrun
  · have hsome : (selectedLink (startTasks inits ms).1).isSome ↔ Selects ms := by
      rw [selectedLink_isSome]
      refine (hbuilt.walk_isSome_iff _).trans (and_congr_right fun _ => forall₂_congr fun ti hti => ?_)
      rw [currTaskState_startTasks hok ((List.dropLast_sublist _).subset hti), Bool.or_eq_true]
      cases ti.offloading with
      | false => simp
      | true => simp
    have hlink : (startTasks inits ms).1.currentTaskLink = ms.currentTaskLink := rfl
    rw [setOutputConnectLine_currentTaskLink, hlink, ← hsome]
    cases selectedLink (startTasks inits ms).1 with
    | none => simp
    | some p => simp
  · cases h
  · rw [hstate] at h
    cases h

-- ---------------------------------------------------------------------------
-- The callback
-- ---------------------------------------------------------------------------

def CreateCall.connects : CreateCall → Bool
  | .addMsInputParam _ | .addConnectLine .. | .setConnectLink .. => true
  | .addNewTask _ | .makeTaskLinks => false

theorem createStep_nil {call : CreateCall} (hcall : call ≠ .makeTaskLinks)
    (hnil : s.1.taskLinkHead = .nil) : (createStep s call).1.taskLinkHead = .nil := by
  cases call with
  | addNewTask config =>
    unfold createStep addNewTask
    dsimp only
    split
    · split
      · exact hnil
      · unfold MicroService.onTask
        split <;> exact hnil
    · exact hnil
  | addMsInputParam param => exact hnil
  | addConnectLine start outputPort dest inputPort =>
    obtain h | ⟨line, h⟩ := createStep_addConnectLine s start dest outputPort inputPort
    · rwa [h]
    · rw [h]
      exact hnil
  | makeTaskLinks => exact absurd rfl hcall
  | setConnectLink lines outputName offTasks =>
    unfold createStep
    dsimp only
    rw [setConnectLink_nil hnil]
    exact hnil

theorem setConnectLink_congr {ms ms' : MicroService} (htasks : ms'.tasks = ms.tasks)
    (hhead : ms'.taskLinkHead = ms.taskLinkHead) (lines : List (Option ConnectLine)) (outputName : Text)
    (names : List Text) :
    (setConnectLink ms' lines outputName names).taskLinkHead =
      (setConnectLink ms lines outputName names).taskLinkHead := by
  have hwalk : onoffWalk ms' names = onoffWalk ms names := by
    unfold onoffWalk
    rw [offTaskIds_congr htasks, hhead]
  unfold setConnectLink
  rw [hwalk]
  cases onoffWalk ms names with
  | none => exact hhead
  | some path => exact congrArg (Tree.modify _ path) hhead

/-- The tasks are those that `make_task_links` has linked, and the tree is the one
it built, with link lists. -/
def LinkedAs (pre ms : MicroService) : Prop :=
  ms.tasks = pre.tasks ∧ ∃ regs, ms.taskLinkHead = (register (makeTaskLinks pre) regs).taskLinkHead

theorem createStep_linkedAs {call : CreateCall} (hcall : call.connects = true)
    (h : LinkedAs pre s.1) : LinkedAs pre (createStep s call).1 := by
  cases call with
  | addNewTask config => cases hcall
  | makeTaskLinks => cases hcall
  | addMsInputParam param => exact h
  | addConnectLine start outputPort dest inputPort =>
    obtain heq | ⟨line, heq⟩ := createStep_addConnectLine s start dest outputPort inputPort
    · rwa [heq]
    · rw [heq]
      exact h
  | setConnectLink lines outputName offTasks =>
    obtain ⟨htasks, regs, hhead⟩ := h
    refine ⟨(setConnectLink_tasks _ _ _ _).trans htasks,
      regs ++ [⟨makeConnectLinkList s.2 lines, outputName, offTasks⟩], ?_⟩
    unfold register
    rw [List.foldl_append]
    exact setConnectLink_congr (htasks.trans (register_tasks (makeTaskLinks pre) regs).symm) hhead _ _ _

/-- A callback that links its tasks after it has added them, and then connects
them, builds the links. -/
theorem linksBuilt_runCreate {ms : MicroService} (calls links : List CreateCall)
    (hnil : ms.taskLinkHead = .nil) (hcreate : ms.create = calls ++ .makeTaskLinks :: links)
    (hcalls : ∀ call ∈ calls, call ≠ .makeTaskLinks) (hlinks : ∀ call ∈ links, call.connects = true) :
    LinksBuilt ms.runCreate := by
  have hbefore : ∀ (calls : List CreateCall) (s : MicroService × List (Option ConnectLine)),
      (∀ call ∈ calls, call ≠ .makeTaskLinks) → s.1.taskLinkHead = .nil →
      (calls.foldl createStep s).1.taskLinkHead = .nil := by
    intro calls
    induction calls with
    | nil => exact fun _ _ h => h
    | cons call calls ih =>
      intro s hcalls hs
      obtain ⟨hcall, hcalls⟩ := List.forall_mem_cons.mp hcalls
      exact ih _ hcalls (createStep_nil hcall hs)
  have hbehind : ∀ (links : List CreateCall) pre (s : MicroService × List (Option ConnectLine)),
      (∀ call ∈ links, call.connects = true) → LinkedAs pre s.1 →
      LinkedAs pre (links.foldl createStep s).1 := by
    intro links pre
    induction links with
    | nil => exact fun _ _ h => h
    | cons call links ih =>
      intro s hlinks hs
      obtain ⟨hcall, hlinks⟩ := List.forall_mem_cons.mp hlinks
      exact ih _ hlinks (createStep_linkedAs hcall hs)
  unfold MicroService.runCreate
  rw [hcreate, List.foldl_append, List.foldl_cons]
  obtain ⟨htasks, regs, hhead⟩ := hbehind links (calls.foldl createStep (ms, [])).1
    (createStep (calls.foldl createStep (ms, [])) .makeTaskLinks) hlinks ⟨rfl, [], rfl⟩
  exact ⟨_, regs, hbefore calls (ms, []) hcalls hnil, by rw [htasks], hhead⟩

/-- A log and a sensor that cannot be switched off, but may be initially. -/
def sampleLinked (sensorOn : Bool) : MicroService :=
  lifecycleStep (makeMicroService "101".toList
    [.addNewTask (sampleTask "log".toList false),
      .addNewTask { sampleTask "sensor".toList false with initialOn := sensorOn }, .makeTaskLinks]) .create

theorem linksBuilt_sampleLinked (sensorOn : Bool) : LinksBuilt (sampleLinked sensorOn) := by
  have hcreate : LinksBuilt (makeMicroService "101".toList
      [.addNewTask (sampleTask "log".toList false),
        .addNewTask { sampleTask "sensor".toList false with initialOn := sensorOn },
        .makeTaskLinks]).runCreate :=
    linksBuilt_runCreate [_, _] [] rfl rfl (by simp) (by simp)
  exact hcreate

/-- The sensor is asked first and has no other branch. -/
theorem sensor_off_selects_none :
    ¬ ∀ inits ms ms', LinksBuilt ms → ms.tasks.nodes ≠ [] → ms.state = .created →
      runMicroService inits ms = .ok (ms', true) → ms'.currentTaskLink ≠ none := by
  intro h
  exact h (initAll false) _ _ (linksBuilt_sampleLinked false) (by decide) rfl rfl (by decide)

theorem run_selects_linked :
    ∃ ms', runMicroService (initAll false) (sampleLinked true) = .ok (ms', true) ∧
      ms'.currentTaskLink ≠ none := by
  have hrun : runMicroService (initAll false) (sampleLinked true) = .ok (_, true) := rfl
  refine ⟨_, hrun, (run_selects_iff (linksBuilt_sampleLinked true) rfl hrun).mpr (.inr ?_)⟩
  unfold Selects
  decide

end IoTware.Micro
