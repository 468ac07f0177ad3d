import IoTware.Micro.Links

/-!
# Building a microservice

A microservice is built by its `create` callback, a list of calls of the
functions below. The callback gives `set_connect_link` only lines that
`add_connect_line` has made for it.
-/

namespace IoTware.Micro

open CText LwMsg DecisionTree

-- ---------------------------------------------------------------------------
-- Operations of a task
-- ---------------------------------------------------------------------------

/-- What a function does to the task it is called with and to the kernel. -/
structure TaskOp where
  run : TaskInfo → Kernel → TaskInfo × Kernel
  id_run : ∀ ti k, (run ti k).1.id = ti.id

def MicroService.onTask (ms : MicroService) (id : TaskId) (op : TaskOp) : MicroService :=
  match ms.tasks.find? id with
  | none => ms
  | some ti =>
    { ms.updateTask id ⟨fun ti => (op.run ti ms.kernel).1, fun ti => op.id_run ti ms.kernel⟩ with
      kernel := (op.run ti ms.kernel).2 }

theorem onTask_map {α : Type} (g : TaskInfo → α) (ms : MicroService) (id : TaskId) (op : TaskOp)
    (hop : ∀ ti k, g (op.run ti k).1 = g ti) :
    (ms.onTask id op).tasks.nodes.map g = ms.tasks.nodes.map g := by
  unfold MicroService.onTask
  split
  · rfl
  · exact TaskList.map_update g ms.tasks id _ fun ti => hop ti ms.kernel

/-- Runs over the input queues of a task; `visit` gets the number of the port. -/
def forQueues (visit : Nat → Option Handle → Kernel → Option Handle × Kernel) (i : Nat) :
    List (Option Handle) → Kernel → List (Option Handle) × Kernel
  | [], k => ([], k)
  | queue :: queues, k =>
    let (queue, k) := visit i queue k
    let (queues, k) := forQueues visit (i + 1) queues k
    (queue :: queues, k)

@[simp] theorem length_forQueues (visit : Nat → Option Handle → Kernel → Option Handle × Kernel)
    (i : Nat) (queues : List (Option Handle)) (k : Kernel) :
    (forQueues visit i queues k).1.length = queues.length := by
  induction queues generalizing i k with
  | nil => rfl
  | cons queue queues ih => simp [forQueues, ih]

theorem forQueues_getElem? (visit : Nat → Option Handle → Kernel → Option Handle × Kernel)
    (h : queues[port]? = some queue) (i : Nat) (k : Kernel) :
    ∃ k', (forQueues visit i queues k).1[port]? = some (visit (i + port) queue k').1 := by
  induction queues generalizing port i k with
  | nil => cases h
  | cons first queues ih =>
    unfold forQueues
    cases port with
    | zero =>
      cases h
      exact ⟨k, rfl⟩
    | succ port =>
      obtain ⟨k', hk'⟩ := ih h (i + 1) (visit i first k).2
      have hadd : i + 1 + port = i + (port + 1) := by omega
      rw [hadd] at hk'
      exact ⟨k', hk'⟩

theorem forQueues_calls {visit : Nat → Option Handle → Kernel → Option Handle × Kernel}
    (hvisit : ∀ i queue k, k.calls <:+ (visit i queue k).2.calls) (i : Nat)
    (queues : List (Option Handle)) (k : Kernel) :
    k.calls <:+ (forQueues visit i queues k).2.calls := by
  induction queues generalizing i k with
  | nil => exact List.suffix_refl _
  | cons queue queues ih => exact (hvisit i queue k).trans (ih (i + 1) _)

theorem deleteQueue_calls (k : Kernel) (queue : Option Handle) :
    k.calls <:+ (k.deleteQueue queue).calls := by
  cases queue with
  | none => exact List.suffix_refl _
  | some queue => exact List.suffix_cons _ _

def TaskInfo.forQueues (ti : TaskInfo)
    (visit : Nat → Option Handle → Kernel → Option Handle × Kernel) (k : Kernel) :
    TaskInfo × Kernel :=
  let queues := Micro.forQueues visit 0 ti.inputQueues k
  ({ ti with
      inputQueues := queues.1
      queues_length := by rw [length_forQueues]; exact ti.queues_length }, queues.2)

def setInoutItemSize (inputItemSize outputItemSize : Nat) : TaskOp where
  run ti k :=
    { ti with inputItemSize := inputItemSize, outputItemSize := outputItemSize }.forQueues
      (fun i queue k =>
        if some i = ti.lwmsgInputPort then (queue, k)
        else
          let (queue, k) := (k.deleteQueue queue).createQueue
          (some queue, k)) k
  id_run _ _ := rfl

-- ---------------------------------------------------------------------------
-- The callback
-- ---------------------------------------------------------------------------

/-- The test at the start of `add_new_task`; the sum has 32 bits. -/
def TaskConfig.rejected (config : TaskConfig) : Bool :=
  0 ≤ config.lwmsgInput ∧ config.inputCount < config.lwmsgInput.toUInt32 + 1

def TaskConfig.lwmsgInputPort (config : TaskConfig) : Option Nat :=
  if 0 ≤ config.lwmsgInput then some config.lwmsgInput.toUInt32.toNat else none

theorem TaskConfig.lwmsgInputPort_lt {config : TaskConfig} (h : config.rejected = false) :
    ∀ p ∈ config.lwmsgInputPort, p < config.inputCount.toNat := by
  intro p hp
  unfold lwmsgInputPort at hp
  split at hp
  · rename_i hport
    have hp : p = config.lwmsgInput.toUInt32.toNat := (Option.some.inj hp).symm
    have hsmall : config.lwmsgInput.toUInt32.toNat = config.lwmsgInput.toInt.toNat :=
      Int32.toNat_toUInt32_of_le hport
    have hmax := config.lwmsgInput.toInt_lt
    have hle : config.lwmsgInput.toUInt32 + 1 ≤ config.inputCount := by
      simpa [rejected, hport] using h
    rw [UInt32.le_iff_toNat_le, UInt32.toNat_add] at hle
    have hone : (1 : UInt32).toNat = 1 := rfl
    omega
  · cases hp

/-- The task `add_new_task` makes, with what its block sets. -/
def newTask (config : TaskConfig) (h : config.rejected = false) (taskIdx : Nat)
    (queue : Option Handle) (id : TaskId) : TaskInfo where
  id := id
  name := config.name.take 30
  taskT := none
  taskFn := config.taskFn
  taskIdx := taskIdx
  hasInitFn := config.hasInitFn
  inputCount := config.inputCount
  outputCount := config.outputCount
  inputQueues :=
    match config.lwmsgInputPort with
    | none => List.replicate config.inputCount.toNat none
    | some port => (List.replicate config.inputCount.toNat none).set port queue
  outputPorts := List.replicate config.outputCount.toNat none
  inputItemSize := 0
  outputItemSize := 0
  userParams := config.userParams
  staticParams := config.staticParams
  flexibleParams := config.flexibleParams
  lwmsgInputPort := config.lwmsgInputPort
  initialState := if config.initialOn then .iSReady else .iSStop
  offloading := config.offloading
  addTaskList := config.addTaskList
  state := .notReady
  queues_length := by split <;> simp
  ports_length := List.length_replicate
  lwmsg_lt := config.lwmsgInputPort_lt h

/-- The block writes through `__self`: one of its macros sets a field or adds a parameter.
`set_inout_item_size` accepts NULL. -/
def TaskConfig.writesSelf (config : TaskConfig) : Bool :=
  config.writesDefault || config.hasInitFn || config.offloading || config.addTaskList ||
    !config.initialOn || config.userParams ≠ [] || config.staticParams ≠ [] ||
    config.flexibleParams ≠ []

/-- What an `ADD_NEW_TASK` block makes. A block that is rejected and writes through
`__self` comes no further, see `writesNullTask`. -/
def addNewTask (ms : MicroService) (config : TaskConfig) : MicroService :=
  if h : config.rejected = false then
    let (queue, kernel) :=
      match config.lwmsgInputPort with
      | none => (none, ms.kernel)
      | some _ => let (queue, kernel) := ms.kernel.createQueue; (some queue, kernel)
    let ms' := { ms with
      tasks := ms.tasks.add (newTask config h (nodeNum ms.tasks.nodes) queue) fun _ => rfl
      kernel := kernel }
    match config.itemSizes with
    | none => ms'
    | some (inputItemSize, outputItemSize) =>
      ms'.onTask ms.tasks.next (setInoutItemSize inputItemSize outputItemSize)
  else ms

def makeConnectLinkList (made : List (Option ConnectLine)) (lines : List Nat) :
    List (Option ConnectLine) :=
  (lines.map fun n => made[n]?.join).reverse

/-- A call of the callback. `made` holds what each `ADD_CONNECT_LINE` so far
returned. -/
def createStep (s : MicroService × List (Option ConnectLine)) :
    CreateCall → MicroService × List (Option ConnectLine)
  | .addNewTask config => (addNewTask s.1 config, s.2)
  | .addMsInputParam param => ({ s.1 with inputParams := param :: s.1.inputParams }, s.2)
  | .addConnectLine start outputPort dest inputPort =>
    let (ms, line) := addConnectLine s.1 start outputPort dest inputPort
    (ms, s.2 ++ [line])
  | .makeTaskLinks => (makeTaskLinks s.1, s.2)
  | .setConnectLink lines outputName offTasks =>
    (setConnectLink s.1 (makeConnectLinkList s.2 lines) outputName offTasks, s.2)

/-- A block of the callback writes through a task that is NULL. -/
def MicroService.writesNullTask (ms : MicroService) : Bool :=
  ms.create.any fun
    | .addNewTask config => config.rejected && config.writesSelf
    | _ => false

def MicroService.runCreate (ms : MicroService) : MicroService :=
  (ms.create.foldl createStep (ms, [])).1

theorem createStep_addConnectLine (s : MicroService × List (Option ConnectLine)) (start dest : Text)
    (outputPort inputPort : UInt32) :
    (createStep s (.addConnectLine start outputPort dest inputPort)).1 = s.1 ∨
      ∃ line, (createStep s (.addConnectLine start outputPort dest inputPort)).1 =
        { s.1 with connectLines := line :: s.1.connectLines } := by
  unfold createStep addConnectLine
  dsimp only
  split
  · split
    · exact .inl rfl
    · exact .inr ⟨_, rfl⟩
  · exact .inl rfl

theorem createStep_setConnectLink (s : MicroService × List (Option ConnectLine)) (lines : List Nat)
    (outputName : Text) (offTasks : List Text) :
    (createStep s (.setConnectLink lines outputName offTasks)).1 = s.1 ∨
      ∃ head, (createStep s (.setConnectLink lines outputName offTasks)).1 =
        { s.1 with taskLinkHead := head } := by
  unfold createStep setConnectLink
  dsimp only
  split
  · exact .inl rfl
  · exact .inr ⟨_, rfl⟩

theorem createStep_cases (s : MicroService × List (Option ConnectLine)) (call : CreateCall) :
    (∃ config, call = .addNewTask config) ∨
      (∀ config, call ≠ .addNewTask config) ∧
        ∃ inputParams connectLines taskLinkHead, (createStep s call).1 =
          { s.1 with
            inputParams := inputParams, connectLines := connectLines
            taskLinkHead := taskLinkHead } := by
  cases call with
  | addNewTask config => exact .inl ⟨config, rfl⟩
  | addMsInputParam param => exact .inr ⟨nofun, _, _, _, rfl⟩
  | addConnectLine start outputPort dest inputPort =>
    obtain h | ⟨line, h⟩ := createStep_addConnectLine s start dest outputPort inputPort
    · exact .inr ⟨nofun, _, _, _, h⟩
    · exact .inr ⟨nofun, _, _, _, h⟩
  | makeTaskLinks => exact .inr ⟨nofun, _, _, _, rfl⟩
  | setConnectLink lines outputName offTasks =>
    obtain h | ⟨head, h⟩ := createStep_setConnectLink s lines outputName offTasks
    · exact .inr ⟨nofun, _, _, _, h⟩
    · exact .inr ⟨nofun, _, _, _, h⟩

theorem runCreate_frame {α : Type} (f : MicroService → α)
    (hstep : ∀ s call, f (createStep s call).1 = f s.1) (ms : MicroService) :
    f ms.runCreate = f ms := by
  have hfold : ∀ (calls : List CreateCall) s, f (calls.foldl createStep s).1 = f s.1 := by
    intro calls
    induction calls with
    | nil => intro s; rfl
    | cons call calls ih =>
      intro s
      rw [List.foldl_cons, ih, hstep]
  exact hfold ms.create (ms, [])

theorem runCreate_invariant {I : MicroService → Prop}
    (hstep : ∀ s call, I s.1 → I (createStep s call).1) {ms : MicroService} (h : I ms) :
    I ms.runCreate := by
  have hfold : ∀ (calls : List CreateCall) s, I s.1 → I (calls.foldl createStep s).1 := by
    intro calls
    induction calls with
    | nil => intro s hs; exact hs
    | cons call calls ih =>
      intro s hs
      exact ih _ (hstep s call hs)
  exact hfold ms.create (ms, []) h

theorem createStep_frame {α : Type} (f : MicroService → α)
    (hf : ∀ (ms : MicroService) tasks inputParams connectLines taskLinkHead kernel,
      f { ms with
        tasks := tasks, inputParams := inputParams, connectLines := connectLines
        taskLinkHead := taskLinkHead, kernel := kernel } = f ms)
    (s : MicroService × List (Option ConnectLine)) (call : CreateCall) :
    f (createStep s call).1 = f s.1 := by
  obtain ⟨config, rfl⟩ | ⟨-, _, _, _, h⟩ := createStep_cases s call
  · unfold createStep addNewTask
    dsimp only
    split
    · split
      · exact hf s.1 _ _ _ _ _
      · unfold MicroService.onTask
        split <;> exact hf s.1 _ _ _ _ _
    · rfl
  · rw [h]
    exact hf s.1 _ _ _ _ _

theorem runCreate_msId (ms : MicroService) : ms.runCreate.msId = ms.msId :=
  runCreate_frame MicroService.msId (createStep_frame _ fun _ _ _ _ _ _ => rfl) ms

theorem runCreate_create (ms : MicroService) : ms.runCreate.create = ms.create :=
  runCreate_frame MicroService.create (createStep_frame _ fun _ _ _ _ _ _ => rfl) ms

def sampleTask (name : Text) (offloading : Bool) : TaskConfig where
  name := name
  taskFn := .other
  hasInitFn := true
  inputCount := 1
  outputCount := 1
  lwmsgInput := -1
  itemSizes := none
  userParams := []
  staticParams := []
  flexibleParams := []
  offloading := offloading
  addTaskList := true
  initialOn := true
  writesDefault := false

def sampleSensor : MicroService :=
  makeMicroService "101".toList [.addNewTask (sampleTask "sensor".toList false)]

end IoTware.Micro
