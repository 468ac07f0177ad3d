import IoTware.Lib.Ledger
import IoTware.Micro.Report

/-!
# The kernel tasks of a microservice

`run_task` creates kernel tasks; running a task again, switching it off and deleting
its microservice delete them. Each one that was created is held by one task or was
deleted once, and a call for a kernel task is made while it is there.
-/

namespace IoTware.Micro

open CText LwMsg Handles Runs

def KernelCall.createdTask : KernelCall → Option Handle
  | .createTask h => some h
  | _ => none

def KernelCall.deletedTask : KernelCall → Option Handle
  | .deleteTask h => some h
  | _ => none

def KernelCall.usedTask : KernelCall → Option Handle
  | .deleteTask h | .suspendTask h | .resumeTask h => some h
  | _ => none

def taskLedger (calls : List KernelCall) : Ledger Handle :=
  ⟨calls.filterMap KernelCall.createdTask, calls.filterMap KernelCall.deletedTask⟩

/-- Each call was made for a kernel task that was there; the last call is the first
of the log. -/
def UsesLive : List KernelCall → Prop
  | [] => True
  | c :: calls =>
    (∀ h ∈ c.usedTask, h ∈ (taskLedger calls).created ∧ h ∉ (taskLedger calls).deleted) ∧
      UsesLive calls

structure Accounted (held : List Handle) (k : Kernel) : Prop where
  exact : Exact held (taskLedger k.calls)
  live : UsesLive k.calls
  fresh : ∀ h ∈ (taskLedger k.calls).created, h < k.next

def heldTasks (tis : List TaskInfo) : List Handle := tis.filterMap TaskInfo.taskT

theorem heldTasks_cons (ti : TaskInfo) (tis : List TaskInfo) :
    heldTasks (ti :: tis) = ti.taskT.toList ++ heldTasks tis := by
  cases h : ti.taskT <;> simp [heldTasks, h]

-- ---------------------------------------------------------------------------
-- Calls of the kernel
-- ---------------------------------------------------------------------------

section

variable {held : List Handle} {k : Kernel}

theorem Accounted.perm (hp : held.Perm held') (h : Accounted held k) : Accounted held' k where
  exact := h.exact.perm hp
  live := h.live
  fresh := h.fresh

def KernelCall.OnQueue (c : KernelCall) : Prop :=
  c.createdTask = none ∧ c.deletedTask = none ∧ c.usedTask = none

theorem taskLedger_cons {c : KernelCall} (hcreated : c.createdTask = none)
    (hdeleted : c.deletedTask = none) (calls : List KernelCall) :
    taskLedger (c :: calls) = taskLedger calls := by
  simp [taskLedger, hcreated, hdeleted]

theorem Accounted.onQueue {c : KernelCall} (hc : c.OnQueue) (hle : k.next ≤ next)
    (h : Accounted held k) : Accounted held ⟨next, c :: k.calls⟩ := by
  obtain ⟨hcreated, hdeleted, hused⟩ := hc
  refine ⟨?_, ⟨by simp [hused], h.live⟩, ?_⟩ <;> dsimp only <;>
    rw [taskLedger_cons hcreated hdeleted]
  · exact h.exact
  · exact fun x hx => Nat.lt_of_lt_of_le (h.fresh x hx) hle

theorem Accounted.createQueue (h : Accounted held k) : Accounted held k.createQueue.2 :=
  h.onQueue ⟨rfl, rfl, rfl⟩ (Nat.le_succ _)

theorem Accounted.deleteQueue (queue : Option Handle) (h : Accounted held k) :
    Accounted held (k.deleteQueue queue) := by
  cases queue with
  | none => exact h
  | some queue => exact h.onQueue ⟨rfl, rfl, rfl⟩ (Nat.le_refl _)

theorem Accounted.sendQueue (queue : Handle) (h : Accounted held k) :
    Accounted held (k.call (.sendQueue queue)) :=
  h.onQueue ⟨rfl, rfl, rfl⟩ (Nat.le_refl _)

theorem Accounted.createTask (h : Accounted held k) :
    Accounted (k.createTask.1 :: held) k.createTask.2 where
  exact := h.exact.create fun hmem => Nat.lt_irrefl _ (h.fresh _ hmem)
  live := ⟨nofun, h.live⟩
  fresh x hx := by
    rcases List.mem_cons.mp hx with rfl | hx
    · exact Nat.lt_succ_self _
    · exact Nat.lt_succ_of_lt (h.fresh x hx)

theorem Accounted.deleteTask {task : Option Handle} (h : Accounted (task.toList ++ held) k) :
    Accounted held (k.deleteTask task) := by
  cases task with
  | none => exact h
  | some task =>
    refine ⟨h.exact.delete, ⟨?_, h.live⟩, h.fresh⟩
    rintro x ⟨⟩
    exact h.exact.live List.mem_cons_self

theorem Accounted.use {c : KernelCall} (hcreated : c.createdTask = none)
    (hdeleted : c.deletedTask = none) (hused : ∀ x ∈ c.usedTask, x ∈ held)
    (h : Accounted held k) : Accounted held (k.call c) := by
  refine ⟨?_, ⟨fun x hx => h.exact.live (hused x hx), h.live⟩, ?_⟩ <;>
    unfold Kernel.call <;> dsimp only <;> rw [taskLedger_cons hcreated hdeleted]
  · exact h.exact
  · exact h.fresh

-- ---------------------------------------------------------------------------
-- Tasks
-- ---------------------------------------------------------------------------

theorem forQueues_accounted {visit : Nat → Option Handle → Kernel → Option Handle × Kernel}
    (hvisit : ∀ i queue k, Accounted held k → Accounted held (visit i queue k).2)
    (i : Nat) (queues : List (Option Handle)) (h : Accounted held k) :
    Accounted held (Micro.forQueues visit i queues k).2 := by
  induction queues generalizing i k with
  | nil => exact h
  | cons queue queues ih => exact ih (i + 1) (hvisit i queue k h)

theorem setInoutItemSize_accounted (n m : Nat) (ti : TaskInfo) (h : Accounted held k) :
    Accounted held ((setInoutItemSize n m).run ti k).2 := by
  refine forQueues_accounted (fun i queue k h => ?_) 0 ti.inputQueues h
  dsimp only
  split
  · exact h
  · exact (h.deleteQueue queue).createQueue

theorem offTask_accounted {ti : TaskInfo} (h : Accounted (ti.taskT.toList ++ held) k) :
    Accounted held (offTask.run ti k).2 := by
  refine forQueues_accounted (fun i queue k h => ?_) 0 ti.inputQueues h.deleteTask
  dsimp only
  split
  · exact (h.deleteQueue queue).createQueue
  · exact h.deleteQueue queue

theorem callInit_accounted (init : InitReturn) (ti : TaskInfo) (h : Accounted held k) :
    Accounted held (callInit init ti k).2 ∧ (callInit init ti k).1.taskT = ti.taskT := by
  unfold callInit
  split
  · exact ⟨h, rfl⟩
  · exact ⟨setInoutItemSize_accounted _ _ ti h, rfl⟩

theorem startTask_accounted {ti : TaskInfo} (hnone : ti.taskT = none) (h : Accounted held k) :
    Accounted ((startTask ti k).1.1.taskT.toList ++ held) (startTask ti k).1.2 := by
  unfold startTask
  split
  · rw [hnone]
    exact h
  · exact h.createTask

theorem runTask_accounted (force : Bool) (init : InitReturn) {ti : TaskInfo}
    (h : Accounted (ti.taskT.toList ++ held) k) :
    Accounted ((runTask force init ti k).1.1.taskT.toList ++ held) (runTask force init ti k).1.2 := by
  unfold runTask
  split
  · exact h
  dsimp only
  split
  · obtain ⟨hinit, hnone⟩ := callInit_accounted init { ti with taskT := none, state := .stopped }
      h.deleteTask
    split
    · rw [hnone]
      exact hinit
    · exact startTask_accounted hnone hinit
  · exact startTask_accounted rfl h.deleteTask

theorem runTasks_accounted (inits : Inits) (tis : List TaskInfo)
    (h : Accounted (heldTasks tis ++ held) k) :
    Accounted (heldTasks (runTasks inits tis k).1 ++ held) (runTasks inits tis k).2.1 := by
  induction tis generalizing k held with
  | nil => exact h
  | cons ti tis ih =>
    have hswap : ∀ (ti : TaskInfo) tis, (heldTasks (ti :: tis) ++ held).Perm
        (heldTasks tis ++ (ti.taskT.toList ++ held)) := by
      intro ti tis
      rw [heldTasks_cons, List.append_assoc]
      exact List.perm_append_comm_assoc _ _ _
    have hfirst : Accounted (ti.taskT.toList ++ (heldTasks tis ++ held)) k := by
      rwa [heldTasks_cons, List.append_assoc] at h
    unfold runTasks
    split
    · have hrun := runTask_accounted false (inits ti.id) hfirst
      split
      · rename_i heq
        rw [heq] at hrun
        rw [heldTasks_cons, List.append_assoc]
        exact hrun
      · rename_i heq
        rw [heq] at hrun
        exact (ih (hrun.perm (List.perm_append_comm_assoc _ _ _))).perm (hswap _ _).symm
    · exact (ih (h.perm (hswap ti tis))).perm (hswap _ _).symm

theorem foldl_deleteQueue_accounted (queues : List (Option Handle)) (h : Accounted held k) :
    Accounted held (queues.foldl Kernel.deleteQueue k) := by
  induction queues generalizing k with
  | nil => exact h
  | cons queue queues ih => exact ih (h.deleteQueue queue)

theorem foldl_deleteTaskInfo_accounted (tis : List TaskInfo)
    (h : Accounted (heldTasks tis ++ held) k) : Accounted held (tis.foldl deleteTaskInfo k) := by
  induction tis generalizing k with
  | nil => exact h
  | cons ti tis ih =>
    rw [heldTasks_cons, List.append_assoc] at h
    exact ih (foldl_deleteQueue_accounted ti.inputQueues h.deleteTask)

theorem foldl_suspend_accounted (tis : List TaskInfo) (hheld : ∀ ti ∈ tis, ∀ x ∈ ti.taskT, x ∈ held)
    (h : Accounted held k) :
    Accounted held (tis.foldl
      (fun k ti => ti.taskT.elim k fun h => (k.call (.suspendTask h)).call (.resumeTask h)) k) := by
  induction tis generalizing k with
  | nil => exact h
  | cons ti tis ih =>
    have hti := hheld ti List.mem_cons_self
    refine ih (fun t ht => hheld t (List.mem_cons_of_mem _ ht)) ?_
    dsimp only
    cases htask : ti.taskT with
    | none => exact h
    | some task =>
      have hmem : ∀ x ∈ some task, x ∈ held := htask ▸ hti
      have hsuspended : Accounted held (k.call (.suspendTask task)) := h.use rfl rfl hmem
      exact hsuspended.use rfl rfl hmem

end

-- ---------------------------------------------------------------------------
-- Microservices
-- ---------------------------------------------------------------------------

/-- The kernel tasks of a microservice are accounted for. -/
def TasksAccounted (ms : MicroService) : Prop := Accounted (heldTasks ms.tasks.nodes) ms.kernel

theorem mem_heldTasks {tis : List TaskInfo} {ti : TaskInfo} (hti : ti ∈ tis) :
    ∀ x ∈ ti.taskT, x ∈ heldTasks tis :=
  fun _ hx => List.mem_filterMap.mpr ⟨ti, hti, hx⟩

theorem heldTasks_congr {tis tis' : List TaskInfo}
    (h : tis'.map TaskInfo.taskT = tis.map TaskInfo.taskT) : heldTasks tis' = heldTasks tis := by
  have hview : ∀ tis : List TaskInfo, heldTasks tis = (tis.map TaskInfo.taskT).filterMap id := by
    intro tis
    simp [heldTasks, List.filterMap_map]
  rw [hview, hview, h]

theorem TasksAccounted.congr {ms' : MicroService} (h : TasksAccounted ms)
    (htasks : ms'.tasks.nodes.map TaskInfo.taskT = ms.tasks.nodes.map TaskInfo.taskT)
    (hkernel : ms'.kernel = ms.kernel) : TasksAccounted ms' := by
  unfold TasksAccounted
  rw [heldTasks_congr htasks, hkernel]
  exact h

theorem TasksAccounted.onTask {op : TaskOp}
    (hop : ∀ ti k held, Accounted (ti.taskT.toList ++ held) k →
      Accounted ((op.run ti k).1.taskT.toList ++ held) (op.run ti k).2)
    (id : TaskId) (h : TasksAccounted ms) : TasksAccounted (ms.onTask id op) := by
  unfold MicroService.onTask
  split
  · exact h
  · rename_i ti hti
    obtain ⟨before, after, heq, hupdate⟩ := TaskList.update_split hti
    have hperm : ∀ t : TaskInfo, (heldTasks (before ++ t :: after)).Perm
        (t.taskT.toList ++ heldTasks (before ++ after)) := by
      intro t
      rw [← heldTasks_cons]
      exact List.perm_middle.filterMap _
    unfold TasksAccounted MicroService.updateTask at *
    dsimp only
    rw [heq] at h
    rw [hupdate]
    exact (hop ti ms.kernel _ (h.perm (hperm ti))).perm (hperm _).symm

theorem addNewTask_accounted (config : TaskConfig) (h : TasksAccounted ms) :
    TasksAccounted (addNewTask ms config) := by
  unfold addNewTask
  split
  swap
  · exact h
  rename_i hr
  have hadd : ∀ queue kernel, Accounted (heldTasks ms.tasks.nodes) kernel →
      TasksAccounted { ms with
        tasks := ms.tasks.add (newTask config hr (nodeNum ms.tasks.nodes) queue) fun _ => rfl
        kernel := kernel } := fun _ _ h => h
  have hsizes : ∀ (ms' : MicroService) n m, TasksAccounted ms' →
      TasksAccounted (ms'.onTask ms.tasks.next (setInoutItemSize n m)) := fun _ _ _ h =>
    h.onTask (fun ti k held h => setInoutItemSize_accounted _ _ ti h) _
  dsimp only
  cases config.lwmsgInputPort <;> cases config.itemSizes
  · exact hadd _ _ h
  · exact hsizes _ _ _ (hadd _ _ h)
  · exact hadd _ _ h.createQueue
  · exact hsizes _ _ _ (hadd _ _ h.createQueue)

theorem runCreate_accounted (h : TasksAccounted ms) : TasksAccounted ms.runCreate := by
  refine runCreate_invariant (fun s call h => ?_) h
  obtain ⟨config, rfl⟩ | ⟨-, _, _, _, heq⟩ := createStep_cases s call
  · exact addNewTask_accounted config h
  · rw [heq]
    exact h

theorem addNewTask_heldTasks (ms : MicroService) (config : TaskConfig) :
    heldTasks (addNewTask ms config).tasks.nodes = heldTasks ms.tasks.nodes := by
  have hsizes : ∀ (ms' : MicroService) id n m,
      heldTasks (ms'.onTask id (setInoutItemSize n m)).tasks.nodes = heldTasks ms'.tasks.nodes :=
    fun ms' id n m => heldTasks_congr (onTask_map TaskInfo.taskT ms' id _ fun _ _ => rfl)
  unfold addNewTask
  split
  · dsimp only
    split
    · rfl
    · rw [hsizes]
      rfl
  · rfl

theorem runCreate_heldTasks (ms : MicroService) :
    heldTasks ms.runCreate.tasks.nodes = heldTasks ms.tasks.nodes := by
  refine runCreate_frame (fun ms => heldTasks ms.tasks.nodes) (fun s call => ?_) ms
  obtain ⟨config, rfl⟩ | ⟨-, _, _, _, heq⟩ := createStep_cases s call
  · exact addNewTask_heldTasks s.1 config
  · rw [heq]

theorem setOutputConnectLine_accounted (h : TasksAccounted ms) :
    TasksAccounted (setOutputConnectLine ms) :=
  h.congr (setOutputConnectLine_tasks (fun _ _ _ => rfl) ms)
    (setOutputConnectLine_frame MicroService.kernel (fun _ _ => rfl) (fun _ _ _ => rfl) ms)

theorem stopTask_accounted (h : TasksAccounted ms) : TasksAccounted (stopTask ms).1 := by
  unfold stopTask
  split
  · exact foldl_suspend_accounted ms.tasks.nodes (fun _ hti => mem_heldTasks hti) h
  · exact h

theorem delMicroService_accounted (h : TasksAccounted ms) :
    TasksAccounted (delMicroService ms).1 := by
  have hdel : ∀ ms : MicroService, TasksAccounted ms →
      Accounted (heldTasks ms.tasks.foreachToDel.nodes)
        ((ms.tasks.nodes.take (nodeNum ms.tasks.nodes)).foldl deleteTaskInfo ms.kernel) := by
    intro ms h
    refine foldl_deleteTaskInfo_accounted _ ?_
    have hsplit : heldTasks (ms.tasks.nodes.take (nodeNum ms.tasks.nodes)) ++
        heldTasks ms.tasks.foreachToDel.nodes = heldTasks ms.tasks.nodes := by
      unfold heldTasks
      rw [← List.filterMap_append]
      exact congrArg _ (List.take_append_drop _ _)
    rw [hsplit]
    exact h
  unfold delMicroService
  dsimp only
  split
  · exact hdel _ (stopTask_accounted h)
  · exact hdel ms h

theorem startTasks_accounted (inits : Inits) (h : TasksAccounted ms) :
    TasksAccounted (startTasks inits ms).1 := by
  have hall : Accounted (heldTasks ms.tasks.nodes ++ []) ms.kernel := by
    rwa [List.append_nil]
  have hrun := runTasks_accounted inits ms.tasks.nodes hall
  rwa [List.append_nil] at hrun

theorem runMicroService_accounted (h : TasksAccounted ms)
    (hrun : runMicroService inits ms = .ok (ms', ok)) : TasksAccounted ms' := by
  rcases runMicroService_cases hrun with ⟨-, -, -, rfl⟩ | ⟨-, -, -, rfl⟩ | ⟨-, -, rfl⟩
  · exact setOutputConnectLine_accounted (startTasks_accounted inits h)
  · exact stopTask_accounted (startTasks_accounted inits h)
  · exact h.congr (map_resumeStopped (fun _ _ => rfl) _) rfl

theorem taskOnoff_accounted (id : TaskId) (onoff : Bool) (h : TasksAccounted ms) :
    TasksAccounted (taskOnoff ms id onoff).1 := by
  unfold taskOnoff
  split
  · exact h
  · rename_i hswitch
    obtain ⟨ti, -, -, ⟨-, -, rfl⟩ | ⟨-, rfl⟩⟩ := switchTask_some hswitch
    · refine setOutputConnectLine_accounted (h.congr ?_ rfl)
      exact TaskList.map_update _ ms.tasks id setActive fun _ => rfl
    · exact setOutputConnectLine_accounted (h.onTask (fun _ _ _ h => offTask_accounted h) id)

theorem sendOutputRead_accounted (dri : Text) (h : TasksAccounted ms) :
    TasksAccounted (sendOutputRead ms dri) := by
  have hsend : ∀ (tis : List TaskInfo) k, Accounted (heldTasks ms.tasks.nodes) k →
      Accounted (heldTasks ms.tasks.nodes) (tis.foldl
        (fun k ti => ti.lwmsgQueue.elim k fun queue => k.call (.sendQueue queue)) k) := by
    intro tis
    induction tis with
    | nil => exact fun _ h => h
    | cons ti tis ih =>
      refine fun k h => ih _ ?_
      dsimp only
      cases ti.lwmsgQueue with
      | none => exact h
      | some queue => exact h.sendQueue queue
  exact hsend ms.tasks.nodes ms.kernel h

theorem lifecycleStep_accounted (e : LifecycleEvent) (h : TasksAccounted ms) :
    TasksAccounted (lifecycleStep ms e) := by
  cases e with
  | create =>
    obtain ⟨-, heq⟩ | heq := lifecycleStep_create ms <;> rw [heq]
    · exact runCreate_accounted h
    · exact h
  | run inits =>
    unfold lifecycleStep
    dsimp only
    split
    · rename_i hrun
      exact runMicroService_accounted h hrun
    · exact h
  | stopMs => exact runCreate_accounted (delMicroService_accounted h)
  | stopTask => exact stopTask_accounted h
  | del => exact delMicroService_accounted h
  | onoff id onoff => exact taskOnoff_accounted id onoff h
  | taskState id state =>
    refine h.congr (TaskList.map_update _ ms.tasks id _ fun ti => ?_) rfl
    exact setTaskState_frame (fun _ _ => rfl) state ti
  | outputValue type value => exact h
  | paramSet id params => exact h.congr (TaskList.map_update _ ms.tasks id _ fun _ => rfl) rfl
  | outputRead dri => exact sendOutputRead_accounted dri h

theorem reported_accounted (h : TasksAccounted ms) : TasksAccounted (reported ms) := by
  unfold reported
  split
  · exact h
  · exact delMicroService_accounted (runCreate_accounted h)

-- ---------------------------------------------------------------------------
-- Runs
-- ---------------------------------------------------------------------------

theorem services_accounted (hrun : ServicesRun services₀ run services) (h₀ : Registered services₀) :
    ∀ ms ∈ services, TasksAccounted ms :=
  services_invariant hrun h₀
    (fun _ _ => ⟨⟨List.nodup_nil, List.Perm.refl _⟩, trivial, fun _ h => absurd h List.not_mem_nil⟩)
    (fun _ e h => lifecycleStep_accounted e h) (fun _ h => reported_accounted h)

/-- In every run, the kernel tasks a microservice created are different ones, each is held
by one of its tasks or was deleted once, and each was there when it was suspended, resumed
or deleted. Where its tasks can be counted, stopping or deleting the microservice gives
all of them back. -/
theorem kernel_tasks_accounted (hrun : ServicesRun services₀ run services)
    (h₀ : Registered services₀) :
    ∀ ms ∈ services,
      (taskLedger ms.kernel.calls).created.Nodup ∧
      (taskLedger ms.kernel.calls).created.Perm
        (heldTasks ms.tasks.nodes ++ (taskLedger ms.kernel.calls).deleted) ∧
      UsesLive ms.kernel.calls ∧
      (ms.tasks.nodes.length < 256 →
        ∀ ms' ∈ [(delMicroService ms).1, (stopMicroService ms).1],
          (taskLedger ms'.kernel.calls).created.Perm (taskLedger ms'.kernel.calls).deleted) := by
  intro ms hms
  have h := services_accounted hrun h₀ ms hms
  have hgiven : ∀ ms : MicroService, TasksAccounted ms → heldTasks ms.tasks.nodes = [] →
      (taskLedger ms.kernel.calls).created.Perm (taskLedger ms.kernel.calls).deleted := by
    intro ms h hnone
    have hbalance := h.exact.balance
    rwa [hnone] at hbalance
  refine ⟨h.exact.once, h.exact.balance, h.live, fun hlt ms' hms' => ?_⟩
  have hdel := delMicroService_accounted h
  have hnone : heldTasks (delMicroService ms).1.tasks.nodes = [] := by
    rw [(delMicroService_lists ms).1]
    exact congrArg heldTasks (foreachToDel_of_lt hlt)
  rcases List.mem_cons.mp hms' with rfl | hms'
  · exact hgiven _ hdel hnone
  · obtain rfl := List.mem_singleton.mp hms'
    exact hgiven _ (runCreate_accounted hdel) ((runCreate_heldTasks _).trans hnone)

theorem kernel_tasks_sensor :
    let ms := lifecycleStep (lifecycleStep sampleSensor .create) (.run (initAll false))
    heldTasks ms.tasks.nodes = [1] ∧
      (taskLedger (stopMicroService ms).1.kernel.calls).created = [1] ∧
      (taskLedger (stopMicroService ms).1.kernel.calls).created.Perm
        (taskLedger (stopMicroService ms).1.kernel.calls).deleted := by
  have hrun := run_trace servicesStep [sampleSensor]
    [.service 0 .create, .service 0 (.run (initAll false))]
  have h₀ : Registered [sampleSensor] := by
    intro ms hms
    exact ⟨_, _, List.mem_singleton.mp hms⟩
  obtain ⟨-, -, -, hback⟩ := kernel_tasks_accounted hrun h₀ _ List.mem_cons_self
  refine ⟨by decide, by decide, ?_⟩
  exact hback (by decide) _ (List.mem_cons_of_mem _ List.mem_cons_self)

end IoTware.Micro
