import IoTware.Micro.Report

/-!
# Ports for messages have their queues

Whatever happens to a microservice, a task with a port for messages has a queue
at that port: `add_new_task` creates it, a change of the item sizes leaves it,
and switching the task off replaces it.
-/

namespace IoTware.Micro

open CText LwMsg Runs

def TaskInfo.HasLwmsgQueue (ti : TaskInfo) : Prop := ti.lwmsgInputPort.isSome → ti.lwmsgQueue ≠ none

def LwmsgQueues (ms : MicroService) : Prop := ∀ ti ∈ ms.tasks.nodes, ti.HasLwmsgQueue

-- ---------------------------------------------------------------------------
-- Tasks
-- ---------------------------------------------------------------------------

theorem lwmsgQueue_forQueues (ti : TaskInfo)
    (visit : Nat → Option Handle → Kernel → Option Handle × Kernel) (k : Kernel) {port : Nat}
    (hport : ti.lwmsgInputPort = some port) :
    ∃ k', (ti.forQueues visit k).1.lwmsgQueue = (visit port ti.lwmsgQueue k').1 := by
  have hlt : port < ti.inputQueues.length := by
    rw [ti.queues_length]
    exact ti.lwmsg_lt port hport
  have hget := List.getElem?_eq_getElem hlt
  obtain ⟨k', hk'⟩ := forQueues_getElem? visit hget 0 k
  refine ⟨k', ?_⟩
  have hold : ti.lwmsgQueue = ti.inputQueues[port] := by
    unfold TaskInfo.lwmsgQueue
    rw [hport, Option.bind_some, hget]
    rfl
  have hnew : (ti.forQueues visit k).1.lwmsgQueue = (forQueues visit 0 ti.inputQueues k).1[port]?.join := by
    unfold TaskInfo.lwmsgQueue TaskInfo.forQueues
    dsimp only
    rw [hport]
    rfl
  rw [hnew, hk', Nat.zero_add, hold]
  rfl

theorem setInoutItemSize_lwmsgQueue (n m : Nat) (ti : TaskInfo) (k : Kernel) :
    ((setInoutItemSize n m).run ti k).1.lwmsgQueue = ti.lwmsgQueue := by
  cases hport : ti.lwmsgInputPort with
  | none =>
    unfold TaskInfo.lwmsgQueue setInoutItemSize TaskInfo.forQueues
    dsimp only
    rw [hport]
    rfl
  | some port =>
    obtain ⟨k', hk'⟩ := lwmsgQueue_forQueues
      { ti with inputItemSize := n, outputItemSize := m } _ k hport
    refine hk'.trans ?_
    rw [if_pos hport.symm]
    rfl

theorem offTask_hasLwmsgQueue (ti : TaskInfo) (k : Kernel) : (offTask.run ti k).1.HasLwmsgQueue := by
  intro hsome
  obtain ⟨port, hport⟩ := Option.isSome_iff_exists.mp hsome
  have hport : ti.lwmsgInputPort = some port := hport
  obtain ⟨k', hk'⟩ := lwmsgQueue_forQueues { ti with taskT := none }
    (fun i queue k =>
      let k := k.deleteQueue queue
      if some i = ti.lwmsgInputPort ∨ 0 < ti.inputItemSize then
        (some k.createQueue.1, k.createQueue.2)
      else (queue, k)) (k.deleteTask ti.taskT) hport
  have hqueue : (offTask.run ti k).1.lwmsgQueue = _ := hk'
  rw [hqueue]
  dsimp only
  rw [if_pos (.inl hport.symm)]
  exact Option.some_ne_none _

theorem newTask_hasLwmsgQueue (config : TaskConfig) (h : config.rejected = false) (taskIdx : Nat)
    (queue : Handle) (id : TaskId) :
    (newTask config h taskIdx (some queue) id).HasLwmsgQueue := by
  intro hsome
  obtain ⟨port, hport⟩ := Option.isSome_iff_exists.mp hsome
  have hport : config.lwmsgInputPort = some port := hport
  have hlt := config.lwmsgInputPort_lt h port hport
  unfold TaskInfo.lwmsgQueue newTask
  dsimp only
  rw [hport]
  simp [hlt]

-- ---------------------------------------------------------------------------
-- Microservices
-- ---------------------------------------------------------------------------

theorem lwmsgQueues_congr {ms ms' : MicroService}
    (h : ms'.tasks.nodes.map (fun ti => (ti.lwmsgInputPort, ti.lwmsgQueue)) =
      ms.tasks.nodes.map fun ti => (ti.lwmsgInputPort, ti.lwmsgQueue)) :
    LwmsgQueues ms' ↔ LwmsgQueues ms := by
  have hall : ∀ ms : MicroService, LwmsgQueues ms ↔
      ∀ p ∈ ms.tasks.nodes.map fun ti => (ti.lwmsgInputPort, ti.lwmsgQueue),
        p.1.isSome = true → p.2 ≠ none := by
    intro ms
    rw [List.forall_mem_map]
    rfl
  rw [hall, hall, h]

theorem lwmsgQueues_updateTask {f : TaskUpdate}
    (hf : ∀ ti, ((f.apply ti).lwmsgInputPort, (f.apply ti).lwmsgQueue) =
      (ti.lwmsgInputPort, ti.lwmsgQueue)) (ms : MicroService) (id : TaskId) :
    LwmsgQueues (ms.updateTask id f) ↔ LwmsgQueues ms :=
  lwmsgQueues_congr (TaskList.map_update _ ms.tasks id f hf)

theorem lwmsgQueues_add (h : LwmsgQueues ms) (config : TaskConfig) (hr : config.rejected = false)
    (taskIdx : Nat) (queue : Option Handle) (kernel : Kernel)
    (hqueue : config.lwmsgInputPort.isSome → queue ≠ none) :
    LwmsgQueues { ms with
      tasks := ms.tasks.add (newTask config hr taskIdx queue) fun _ => rfl
      kernel := kernel } := by
  intro ti hti
  rcases List.mem_cons.mp hti with rfl | hti
  · intro hsome
    obtain ⟨queue, rfl⟩ := Option.ne_none_iff_exists'.mp (hqueue hsome)
    exact newTask_hasLwmsgQueue config hr taskIdx queue _ hsome
  · exact h ti hti

theorem lwmsgQueues_addNewTask (h : LwmsgQueues ms) (config : TaskConfig) :
    LwmsgQueues (addNewTask ms config) := by
  unfold addNewTask
  split
  · rename_i hr
    have hadd := lwmsgQueues_add h config hr (nodeNum ms.tasks.nodes)
    have hsize (n m : Nat) {ms : MicroService} (h : LwmsgQueues ms) (id : TaskId) :
        LwmsgQueues (ms.onTask id (setInoutItemSize n m)) := by
      refine (lwmsgQueues_congr (onTask_map _ _ _ _ ?_)).mpr h
      intro ti k
      exact Prod.ext rfl (setInoutItemSize_lwmsgQueue _ _ ti k)
    cases hport : config.lwmsgInputPort with
    | none =>
      have hnew := hadd none ms.kernel (by simp [hport])
      cases config.itemSizes with
      | none => exact hnew
      | some sizes => exact hsize _ _ hnew _
    | some port =>
      have hnew := hadd (some ms.kernel.createQueue.1) ms.kernel.createQueue.2 fun _ => Option.some_ne_none _
      cases config.itemSizes with
      | none => exact hnew
      | some sizes => exact hsize _ _ hnew _
  · exact h

theorem lwmsgQueues_runCreate (h : LwmsgQueues ms) : LwmsgQueues ms.runCreate := by
  refine runCreate_invariant ?_ h
  intro s call hs
  obtain ⟨config, rfl⟩ | ⟨-, _, _, _, h⟩ := createStep_cases s call
  · exact lwmsgQueues_addNewTask hs config
  · rw [h]
    exact hs

theorem lwmsgQueues_setOutputConnectLine (ms : MicroService) :
    LwmsgQueues (setOutputConnectLine ms) ↔ LwmsgQueues ms :=
  lwmsgQueues_congr (setOutputConnectLine_tasks (fun _ _ _ => rfl) ms)

theorem lwmsgQueues_startTasks (inits : Inits) (ms : MicroService) :
    LwmsgQueues (startTasks inits ms).1 ↔ LwmsgQueues ms := by
  refine lwmsgQueues_congr
    (runTasks_map (g := fun ti => (ti.lwmsgInputPort, ti.lwmsgQueue)) ?_ _ _ _)
  refine runTask_frame (g := fun ti => (ti.lwmsgInputPort, ti.lwmsgQueue)) ?_ (fun _ _ _ => rfl) false
  intro n m ti k
  exact Prod.ext rfl (setInoutItemSize_lwmsgQueue n m ti k)

theorem lwmsgQueues_stopTask (ms : MicroService) : LwmsgQueues (stopTask ms).1 ↔ LwmsgQueues ms := by
  unfold LwmsgQueues
  rw [stopTask_tasks]

theorem lwmsgQueues_delMicroService (h : LwmsgQueues ms) : LwmsgQueues (delMicroService ms).1 := by
  intro ti hti
  rw [(delMicroService_lists ms).1] at hti
  exact h ti (List.mem_of_mem_drop hti)

theorem lwmsgQueues_run (h : LwmsgQueues ms) (inits : Inits) :
    LwmsgQueues (lifecycleStep ms (.run inits)) := by
  unfold lifecycleStep
  dsimp only
  cases hrun : runMicroService inits ms with
  | error => exact h
  | ok p =>
    obtain ⟨ms', ok⟩ := p
    dsimp only
    rcases runMicroService_cases hrun with ⟨-, -, -, rfl⟩ | ⟨-, -, -, rfl⟩ | ⟨-, -, rfl⟩
    · rw [lwmsgQueues_setOutputConnectLine, lwmsgQueues_startTasks]
      exact h
    · rw [lwmsgQueues_stopTask, lwmsgQueues_startTasks]
      exact h
    · exact (lwmsgQueues_congr (map_resumeStopped (fun _ _ => rfl) ms.tasks.nodes)).mpr h

theorem lwmsgQueues_lifecycleStep (h : LwmsgQueues ms) (e : LifecycleEvent) :
    LwmsgQueues (lifecycleStep ms e) := by
  cases e with
  | create =>
    obtain ⟨-, hcreate⟩ | hcreate := lifecycleStep_create ms <;> rw [hcreate]
    · have hbuilt := lwmsgQueues_runCreate h
      exact hbuilt
    · exact h
  | run inits => exact lwmsgQueues_run h inits
  | stopMs =>
    have hcreate := lwmsgQueues_runCreate (lwmsgQueues_delMicroService h)
    exact hcreate
  | stopTask => exact (lwmsgQueues_stopTask ms).mpr h
  | del => exact lwmsgQueues_delMicroService h
  | onoff id onoff =>
    unfold lifecycleStep taskOnoff
    dsimp only
    split
    · exact h
    · rename_i ms' hswitch
      rw [lwmsgQueues_setOutputConnectLine]
      obtain ⟨ti, hti, -, ⟨-, -, rfl⟩ | ⟨-, rfl⟩⟩ := switchTask_some hswitch
      · exact (lwmsgQueues_updateTask (fun _ => rfl) ms id).mpr h
      · unfold MicroService.onTask
        rw [hti]
        exact TaskList.forall_update (fun ti hti _ => h ti hti)
          fun ti _ => offTask_hasLwmsgQueue ti ms.kernel
  | taskState id state =>
    refine (lwmsgQueues_updateTask ?_ ms id).mpr h
    exact setTaskState_frame (g := fun ti => (ti.lwmsgInputPort, ti.lwmsgQueue)) (fun _ _ => rfl) state
  | outputValue type value => exact h
  | paramSet id params => exact (lwmsgQueues_updateTask (fun _ => rfl) ms id).mpr h
  | outputRead dri => exact h

theorem lwmsgQueues_reported (h : LwmsgQueues ms) : LwmsgQueues (reported ms) := by
  unfold reported
  split
  · exact h
  · exact lwmsgQueues_delMicroService (lwmsgQueues_runCreate h)

theorem services_lwmsgQueues (hrun : ServicesRun services₀ run services)
    (h₀ : Registered services₀) : ∀ ms ∈ services, LwmsgQueues ms :=
  services_invariant hrun h₀ (fun _ _ _ hti => absurd hti List.not_mem_nil)
    (fun _ e h => lwmsgQueues_lifecycleStep h e) (fun _ h => lwmsgQueues_reported h)

end IoTware.Micro
