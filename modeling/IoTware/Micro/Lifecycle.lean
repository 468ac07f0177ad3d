import IoTware.Lib.Runs
import IoTware.Micro.Create

/-!
# The life of a microservice

The operations that create, run, stop and delete a microservice and switch its
tasks on and off, and what its tasks do meanwhile. An `init_fn` is the
application's: what it returns, and the item sizes it sets, are parameters.
-/

namespace IoTware.Micro

open CText LwMsg DecisionTree

-- ---------------------------------------------------------------------------
-- Running
-- ---------------------------------------------------------------------------

/-- What an `init_fn` returns, and the item sizes it has set. -/
structure InitReturn where
  isAbort : Bool
  itemSizes : Option (Nat × Nat)
  deriving DecidableEq

/-- The outcome of the `init_fn` of each task. -/
abbrev Inits := TaskId → InitReturn

def callInit (init : InitReturn) (ti : TaskInfo) (k : Kernel) : TaskInfo × Kernel :=
  match init.itemSizes with
  | none => (ti, k)
  | some (inputItemSize, outputItemSize) =>
    (setInoutItemSize inputItemSize outputItemSize).run ti k

/-- The rest of `run_task`, behind the call of `init_fn`. -/
def startTask (ti : TaskInfo) (k : Kernel) : (TaskInfo × Kernel) × Bool :=
  if ti.inputItemSize = 0 ∧ ti.lwmsgInputPort = none then ((ti, k), false)
  else (({ ti with taskT := some k.createTask.1, state := .created }, k.createTask.2), true)

def runTask (force : Bool) (init : InitReturn) (ti : TaskInfo) (k : Kernel) :
    (TaskInfo × Kernel) × Bool :=
  if !force ∧ ti.state.isActive then ((ti, k), false)
  else
    let k := k.deleteTask ti.taskT
    let ti := { ti with taskT := none, state := .stopped }
    if ti.hasInitFn then
      let (ti, k) := callInit init ti k
      if init.isAbort then ((ti, k), false) else startTask ti k
    else startTask ti k

/-- The loop of `run_micro_service` over the tasks: it ends at the first one
that does not run. -/
def runTasks (inits : Inits) : List TaskInfo → Kernel → List TaskInfo × Kernel × Bool
  | [], k => ([], k, true)
  | ti :: tis, k =>
    if ti.initialOnoff then
      match runTask false (inits ti.id) ti k with
      | ((ti, k), false) => (ti :: tis, k, false)
      | ((ti, k), true) =>
        let (tis, k, ok) := runTasks inits tis k
        (ti :: tis, k, ok)
    else
      let (tis, k, ok) := runTasks inits tis k
      (ti :: tis, k, ok)

/-- What neither a change of the item sizes nor of the kernel task and the
state of a task shows stays when the task is run. -/
theorem runTask_frame {α : Type} {g : TaskInfo → α}
    (hsizes : ∀ n m ti k, g ((setInoutItemSize n m).run ti k).1 = g ti)
    (hstate : ∀ (ti : TaskInfo) taskT state, g { ti with taskT := taskT, state := state } = g ti)
    (force : Bool) (init : InitReturn) (ti : TaskInfo) (k : Kernel) :
    g (runTask force init ti k).1.1 = g ti := by
  have hstart : ∀ ti k, g (startTask ti k).1.1 = g ti := by
    intro ti k
    unfold startTask
    split
    · rfl
    · exact hstate ti _ _
  have hinit : ∀ ti k, g (callInit init ti k).1 = g ti := by
    intro ti k
    unfold callInit
    split
    · rfl
    · exact hsizes _ _ ti k
  unfold runTask
  split
  · rfl
  · dsimp only
    split
    · split
      · exact (hinit _ _).trans (hstate ti _ _)
      · exact ((hstart _ _).trans (hinit _ _)).trans (hstate ti _ _)
    · exact (hstart _ _).trans (hstate ti _ _)

theorem runTasks_map {α : Type} {g : TaskInfo → α}
    (hrun : ∀ init ti k, g (runTask false init ti k).1.1 = g ti)
    (inits : Inits) (tis : List TaskInfo) (k : Kernel) :
    (runTasks inits tis k).1.map g = tis.map g := by
  induction tis generalizing k with
  | nil => rfl
  | cons ti tis ih =>
    unfold runTasks
    split
    · have hti := hrun (inits ti.id) ti k
      split
      · rename_i hresult
        rw [hresult] at hti
        rw [List.map_cons, List.map_cons, hti]
      · rename_i hresult
        rw [hresult] at hti
        rw [List.map_cons, List.map_cons, hti, ih]
    · rw [List.map_cons, List.map_cons, ih]

theorem runTasks_ids (inits : Inits) (tis : List TaskInfo) (k : Kernel) :
    (runTasks inits tis k).1.map TaskInfo.id = tis.map TaskInfo.id :=
  runTasks_map (runTask_frame (fun _ _ _ _ => rfl) (fun _ _ _ => rfl) false) inits tis k

def TaskList.withNodes (ts : TaskList) (nodes : List TaskInfo)
    (h : nodes.map TaskInfo.id = ts.nodes.map TaskInfo.id) : TaskList where
  nodes := nodes
  next := ts.next
  distinct := h ▸ ts.distinct
  below := by
    intro ti hti
    have hmem : ti.id ∈ ts.nodes.map TaskInfo.id := h ▸ List.mem_map_of_mem hti
    obtain ⟨ti', hti', hid⟩ := List.mem_map.mp hmem
    exact hid ▸ ts.below ti' hti'

/-- `stop_task`: every task is suspended and resumed at once. -/
def stopTask (ms : MicroService) : MicroService × Bool :=
  if ms.state = .running ∨ ms.state = .stopped then
    let kernel := ms.tasks.nodes.foldl
      (fun k ti => ti.taskT.elim k fun h => (k.call (.suspendTask h)).call (.resumeTask h)) ms.kernel
    ({ ms with state := .stopped, latestDri := [], kernel := kernel }, true)
  else (ms, false)

theorem stopTask_frame {α : Type} (f : MicroService → α)
    (hf : ∀ (ms : MicroService) kernel,
      f { ms with state := .stopped, latestDri := [], kernel := kernel } = f ms)
    (ms : MicroService) : f (stopTask ms).1 = f ms := by
  unfold stopTask
  split
  · exact hf ms _
  · rfl

theorem stopTask_tasks (ms : MicroService) : (stopTask ms).1.tasks = ms.tasks :=
  stopTask_frame MicroService.tasks (fun _ _ => rfl) ms

theorem stopTask_of_running (h : ms.state = .running) : (stopTask ms).1.state = .stopped := by
  unfold stopTask
  rw [if_pos (.inl h)]

def resumeStopped : TaskUpdate where
  apply ti := if ti.state = .stopped then { ti with state := .running } else ti
  id_apply ti := by split <;> rfl

theorem map_resumeStopped {α : Type} {g : TaskInfo → α}
    (hg : ∀ (ti : TaskInfo) state, g { ti with state := state } = g ti) (tis : List TaskInfo) :
    (tis.map resumeStopped.apply).map g = tis.map g := by
  rw [List.map_map]
  refine List.map_congr_left fun ti _ => ?_
  dsimp only [Function.comp_apply, resumeStopped]
  split
  · exact hg ti _
  · rfl

theorem map_resumeStopped_ids (tis : List TaskInfo) :
    (tis.map resumeStopped.apply).map TaskInfo.id = tis.map TaskInfo.id :=
  map_resumeStopped (fun _ _ => rfl) tis

/-- `run_micro_service` from `CREATED` on, up to the end of its loop. -/
def startTasks (inits : Inits) (ms : MicroService) : MicroService × Bool :=
  let run := runTasks inits ms.tasks.nodes ms.kernel
  ({ ms with
      state := .running
      tasks := ms.tasks.withNodes run.1 (runTasks_ids inits ms.tasks.nodes ms.kernel)
      kernel := run.2.1 }, run.2.2)

/-- `run_micro_service`. In a state it does not accept it prints `psi->state`,
and `psi` is NULL. -/
def runMicroService (inits : Inits) (ms : MicroService) : Except Fault (MicroService × Bool) :=
  match ms.state with
  | .created =>
    match startTasks inits ms with
    | (ms, true) => .ok (setOutputConnectLine ms, true)
    | (ms, false) => .ok ((stopTask ms).1, false)
  | .stopped =>
    .ok ({ ms with
      state := .running
      tasks := ms.tasks.withNodes _ (map_resumeStopped_ids ms.tasks.nodes) }, true)
  | .notReady | .running => .error .nullPointer

/-- The runs that are accepted: of a created microservice, which succeeds or
fails at a task, and of a stopped one. -/
theorem runMicroService_cases (h : runMicroService inits ms = .ok (ms', ok)) :
    (ms.state = .created ∧ (startTasks inits ms).2 = true ∧ ok = true ∧
      ms' = setOutputConnectLine (startTasks inits ms).1) ∨
    (ms.state = .created ∧ (startTasks inits ms).2 = false ∧ ok = false ∧
      ms' = (stopTask (startTasks inits ms).1).1) ∨
    (ms.state = .stopped ∧ ok = true ∧ ms' = { ms with
      state := .running
      tasks := ms.tasks.withNodes _ (map_resumeStopped_ids ms.tasks.nodes) }) := by
  unfold runMicroService at h
  split at h
  · rename_i hstate
    split at h
    · rename_i pre hstart
      obtain ⟨rfl, rfl⟩ := Prod.mk.inj (Except.ok.inj h)
      exact .inl ⟨hstate, by rw [hstart], rfl, by rw [hstart]⟩
    · rename_i pre hstart
      obtain ⟨rfl, rfl⟩ := Prod.mk.inj (Except.ok.inj h)
      exact .inr (.inl ⟨hstate, by rw [hstart], rfl, by rw [hstart]⟩)
  · rename_i hstate
    obtain ⟨rfl, rfl⟩ := Prod.mk.inj (Except.ok.inj h)
    exact .inr (.inr ⟨hstate, rfl, rfl⟩)
  · cases h
  · cases h

theorem runMicroService_msId (h : runMicroService inits ms = .ok (ms', ok)) : ms'.msId = ms.msId := by
  rcases runMicroService_cases h with ⟨-, -, -, rfl⟩ | ⟨-, -, -, rfl⟩ | ⟨-, -, rfl⟩
  · exact setOutputConnectLine_frame MicroService.msId (fun _ _ => rfl) (fun _ _ _ => rfl) _
  · exact stopTask_frame MicroService.msId (fun _ _ => rfl) _
  · rfl

theorem runMicroService_state (h : runMicroService inits ms = .ok (ms', ok)) :
    ms'.state = .running ∨ ms'.state = .stopped := by
  rcases runMicroService_cases h with ⟨-, -, -, rfl⟩ | ⟨-, -, -, rfl⟩ | ⟨-, -, rfl⟩
  · exact .inl (setOutputConnectLine_state _)
  · exact .inr (stopTask_of_running rfl)
  · exact .inl rfl

-- ---------------------------------------------------------------------------
-- Creating and deleting
-- ---------------------------------------------------------------------------

def createMicroService (ms : MicroService) : MicroService × Bool :=
  if ms.state = .notReady then ({ ms.runCreate with state := .created }, true) else (ms, false)

def deleteTaskInfo (k : Kernel) (ti : TaskInfo) : Kernel :=
  ti.inputQueues.foldl Kernel.deleteQueue (k.deleteTask ti.taskT)

def delMicroService (ms : MicroService) : MicroService × Bool :=
  let ms := if ms.state = .running then (stopTask ms).1 else ms
  ({ ms with
      state := .notReady
      taskLinkHead := .nil
      tasks := ms.tasks.foreachToDel
      kernel := (ms.tasks.nodes.take (nodeNum ms.tasks.nodes)).foldl deleteTaskInfo ms.kernel
      outputParam := { ms.outputParam with value := none }
      inputParams := foreachToDel ms.inputParams
      connectLines := foreachToDel ms.connectLines
      currentTaskLink := none }, true)

theorem delMicroService_lists (ms : MicroService) :
    (delMicroService ms).1.tasks = ms.tasks.foreachToDel ∧
      (delMicroService ms).1.inputParams = foreachToDel ms.inputParams ∧
      (delMicroService ms).1.connectLines = foreachToDel ms.connectLines := by
  unfold delMicroService
  dsimp only
  split
  · have h := stopTask_frame (fun ms => (ms.tasks, ms.inputParams, ms.connectLines)) (fun _ _ => rfl) ms
    injection h with htasks h
    injection h with hparams hlines
    rw [htasks, hparams, hlines]
    exact ⟨rfl, rfl, rfl⟩
  · exact ⟨rfl, rfl, rfl⟩

theorem delMicroService_msId (ms : MicroService) : (delMicroService ms).1.msId = ms.msId := by
  unfold delMicroService
  dsimp only
  split
  · exact stopTask_frame MicroService.msId (fun _ _ => rfl) ms
  · rfl

/-- `stop_micro_service`: what `del_micro_service` does, and then the callback
again. -/
def stopMicroService (ms : MicroService) : MicroService × Bool :=
  ({ (delMicroService ms).1.runCreate with state := .created }, true)

-- ---------------------------------------------------------------------------
-- Switching tasks
-- ---------------------------------------------------------------------------

def setActive : TaskUpdate where
  apply ti := { ti with initialState := .iSActive }
  id_apply _ := rfl

/-- A task is switched off. The queue of a port keeps its handle if no new one
is made for it. -/
def offTask : TaskOp where
  run ti k :=
    let r := { ti with taskT := none }.forQueues
      (fun i queue k =>
        let k := k.deleteQueue queue
        if some i = ti.lwmsgInputPort ∨ 0 < ti.inputItemSize then
          (some k.createQueue.1, k.createQueue.2)
        else (queue, k)) (k.deleteTask ti.taskT)
    ({ r.1 with
        outputPorts := List.replicate ti.outputCount.toNat none
        ports_length := List.length_replicate
        state := .stopped
        initialState := .iSStop }, r.2)
  id_run _ _ := rfl

/-- `task_onoff` up to the call of `set_output_connect_line`, unless it returns
`FALSE` before. Without a task at the address it is called with NULL. -/
def switchTask (ms : MicroService) (id : TaskId) (onoff : Bool) : Option MicroService :=
  match ms.tasks.find? id with
  | none => none
  | some ti =>
    if !ti.offloading then none
    else if onoff then
      if ti.state.isActive then none else some (ms.updateTask id setActive)
    else some (ms.onTask id offTask)

def taskOnoff (ms : MicroService) (id : TaskId) (onoff : Bool) : MicroService × Bool :=
  match switchTask ms id onoff with
  | none => (ms, false)
  | some ms => (setOutputConnectLine ms, true)

theorem switchTask_some {id : TaskId} (h : switchTask ms id onoff = some ms') :
    ∃ ti, ms.tasks.find? id = some ti ∧ ti.offloading = true ∧
      (onoff = true ∧ ti.state.isActive = false ∧ ms' = ms.updateTask id setActive ∨
        onoff = false ∧ ms' = ms.onTask id offTask) := by
  unfold switchTask at h
  split at h
  · cases h
  rename_i ti hti
  split at h
  · cases h
  rename_i hoff
  have hoff : ti.offloading = true := by simpa using hoff
  split at h
  · rename_i hon
    split at h
    · cases h
    · rename_i hactive
      exact ⟨ti, hti, hoff, .inl ⟨hon, by simpa using hactive, (Option.some.inj h).symm⟩⟩
  · rename_i hon
    exact ⟨ti, hti, hoff, .inr ⟨by simpa using hon, (Option.some.inj h).symm⟩⟩

-- ---------------------------------------------------------------------------
-- Runs
-- ---------------------------------------------------------------------------

/-- The state a kernel task gives to its task: `SET_TASK_WAITING`,
`SET_TASK_RUNNING`, or `STOPPED` when it ends. -/
def setTaskState (state : StateType) : TaskUpdate where
  apply ti := if ti.taskT.isSome ∧ state ≠ .notReady then { ti with state := state } else ti
  id_apply ti := by split <;> rfl

theorem setTaskState_frame {α : Type} {g : TaskInfo → α}
    (hg : ∀ (ti : TaskInfo) state, g { ti with state := state } = g ti) (state : StateType)
    (ti : TaskInfo) : g ((setTaskState state).apply ti) = g ti := by
  unfold setTaskState
  dsimp only
  split
  · exact hg ti _
  · rfl

/-- `set_output_param_value`, called by the functions of a task. -/
def setOutputParamValue (ms : MicroService) (type : ParamType) (value : List UInt8) : MicroService :=
  { ms with outputParam :=
      { ms.outputParam with type := type, value := if value = [] then none else some value } }

/-- The queue of the port for messages; no task has one without such a port. -/
def TaskInfo.lwmsgQueue (ti : TaskInfo) : Option Handle :=
  ti.lwmsgInputPort.bind fun port => ti.inputQueues[port]?.join

/-- A request for the output is sent to every task with a port for messages and
becomes the latest one. -/
def sendOutputRead (ms : MicroService) (dri : Text) : MicroService :=
  { ms with
    latestDri := dri
    kernel := ms.tasks.nodes.foldl
      (fun k ti => ti.lwmsgQueue.elim k fun queue => k.call (.sendQueue queue)) ms.kernel }

def setFlexibleParams (params : List Parameter) : TaskUpdate where
  apply ti := { ti with flexibleParams := params }
  id_apply _ := rfl

/-- The calls of the operations, what the tasks do at any time, and what the
requests for parameters and outputs write. -/
inductive LifecycleEvent
  | create
  | run (inits : Inits)
  | stopMs
  | stopTask
  | del
  | onoff (id : TaskId) (onoff : Bool)
  | taskState (id : TaskId) (state : StateType)
  | outputValue (type : ParamType) (value : List UInt8)
  | paramSet (id : TaskId) (params : List Parameter)
  | outputRead (dri : Text)

/-- A run in a state that `run_micro_service` does not accept is taken to have no
effect. -/
def lifecycleStep (ms : MicroService) : LifecycleEvent → MicroService
  | .create => (createMicroService ms).1
  | .run inits =>
    match runMicroService inits ms with
    | .ok (ms', _) => ms'
    | .error _ => ms
  | .stopMs => (stopMicroService ms).1
  | .stopTask => (stopTask ms).1
  | .del => (delMicroService ms).1
  | .onoff id onoff => (taskOnoff ms id onoff).1
  | .taskState id state => ms.updateTask id (setTaskState state)
  | .outputValue type value => setOutputParamValue ms type value
  | .paramSet id params => ms.updateTask id (setFlexibleParams params)
  | .outputRead dri => sendOutputRead ms dri

theorem lifecycleStep_create (ms : MicroService) :
    ms.state = .notReady ∧ lifecycleStep ms .create = { ms.runCreate with state := .created } ∨
      lifecycleStep ms .create = ms := by
  unfold lifecycleStep createMicroService
  dsimp only
  split
  · rename_i hstate
    exact .inl ⟨hstate, rfl⟩
  · exact .inr rfl

abbrev LifecycleRun := Runs.Run fun ms e ms' => ms' = lifecycleStep ms e

/-- The `init_fn` of every task sets the item sizes to 4 and
returns this. -/
def initAll (isAbort : Bool) : Inits := fun _ => ⟨isAbort, some (4, 4)⟩

end IoTware.Micro
