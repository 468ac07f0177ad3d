import IoTware.Micro.Task

/-!
# Connect lines and the link tree

A microservice has one leaf in its link tree for every set of tasks that can be
switched off. `make_task_links` builds the tree, `set_connect_link` registers
the connect lines of a leaf, and `set_output_connect_line` connects the ports
by the leaf that the states of the tasks select.
-/

namespace IoTware.Micro

open CText LwMsg DecisionTree

/-- `add_connect_line`. The port numbers are compared after an addition in 32
bits. -/
def addConnectLine (ms : MicroService) (startTaskName : Text) (outputPortNo : UInt32)
    (destTaskName : Text) (inputPortNo : UInt32) : MicroService × Option ConnectLine :=
  match getTaskInfoByName ms startTaskName, getTaskInfoByName ms destTaskName with
  | some startTask, some destTask =>
    if startTask.outputCount < outputPortNo + 1 ∨ destTask.inputCount < inputPortNo + 1 then
      (ms, none)
    else
      let line := ⟨startTask.id, outputPortNo, destTask.id, inputPortNo⟩
      ({ ms with connectLines := line :: ms.connectLines }, some line)
  | _, _ => (ms, none)

def addTaskLink (head : TaskLink) (startTi : TaskInfo) (dest : Option TaskId) : TaskLink :=
  let head := if head.isNil then .node (some startTi.id) .nil .nil LinkInfo.zero else head
  .graft (some startTi.id) startTi.offloading (.node dest .nil .nil LinkInfo.zero) head

/-- The loop body of `make_task_links`: `left`, `right` and the tree. -/
def makeTaskLinksStep : Option TaskInfo × Option TaskInfo × TaskLink → TaskInfo →
    Option TaskInfo × Option TaskInfo × TaskLink
  | (none, right, head), ti => (some ti, right, head)
  | (some left, none, head), ti => (some left, some ti, addTaskLink head left (some ti.id))
  | (some _, some right, head), ti => (some right, some ti, addTaskLink head right (some ti.id))

/-- `make_task_links`. Where the last task can be switched off, it gets a level
of leaves without a task. -/
def makeTaskLinks (ms : MicroService) : MicroService :=
  let (_, right, head) := ms.tasks.nodes.foldl makeTaskLinksStep (none, none, ms.taskLinkHead)
  { ms with
    taskLinkHead :=
      match right with
      | some right => if right.offloading then addTaskLink head right none else head
      | none => head }

def onoffTest (offTasks : List TaskId) (task : Option TaskId) : Bool :=
  !offTasks.any fun id => some id = task

/-- The tasks that `set_connect_link` finds by their names. -/
def offTaskIds (ms : MicroService) (names : List Text) : List TaskId :=
  names.filterMap fun name => (getTaskInfoByName ms name).map TaskInfo.id

def onoffWalk (ms : MicroService) (names : List Text) : Option Path :=
  ms.taskLinkHead.walk (onoffTest (offTaskIds ms names))

def setConnectLink (ms : MicroService) (lines : List (Option ConnectLine)) (outputName : Text)
    (names : List Text) : MicroService :=
  match onoffWalk ms names with
  | none => ms
  | some path =>
    { ms with
      taskLinkHead := ms.taskLinkHead.modify (fun _ => ⟨some lines, outputName⟩) path }

def currTaskState (ms : MicroService) : Option TaskId → Bool
  | none => false
  | some id => (ms.tasks.find? id).any fun ti => ti.state.isActive

def currWalk (ms : MicroService) : Option Path := ms.taskLinkHead.walk (currTaskState ms)

/-- `set_output_param`: a value of no bytes is NULL. -/
def setOutputParam (ms : MicroService) (type : ParamType) (size : Nat) (name : Text) : MicroService :=
  { ms with
    outputParam := ⟨name.take 30, type, if size > 0 then some (List.replicate size 0) else none⟩ }

/-- The port of the start task gets the line, if it has that port. -/
def setPort (line : ConnectLine) : TaskUpdate where
  apply ti :=
    if line.outputPortNo < ti.outputCount then
      { ti with
        outputPorts := ti.outputPorts.set line.outputPortNo.toNat (some line)
        ports_length := by rw [List.length_set]; exact ti.ports_length }
    else ti
  id_apply ti := by split <;> rfl

def connectPort (ms : MicroService) (line : ConnectLine) : MicroService :=
  ms.updateTask line.startTask (setPort line)

def selectedLink (ms : MicroService) : Option (Path × LinkInfo) := do
  let path ← currWalk ms
  return (path, ← ms.taskLinkHead.payload? path)

/-- The lines of a list that are not NULL. -/
def presentLines (lines : List (Option ConnectLine)) : List ConnectLine := lines.filterMap id

/-- What `set_output_connect_line` writes: no port is cleared. Where a line is NULL it
comes no further, see `readsNullLine`. -/
def setOutputConnectLine (ms : MicroService) : MicroService :=
  match selectedLink ms with
  | none => ms
  | some (path, link) =>
    let ms := setOutputParam { ms with currentTaskLink := some path } .unknown 0 link.outputParamName
    match link.connectLinkHead with
    | none => ms
    | some lines => (presentLines lines).foldl connectPort ms

/-- `set_output_connect_line` reads through a line that is NULL. -/
def readsNullLine (ms : MicroService) : Bool :=
  (selectedLink ms).any fun link => (link.2.connectLinkHead.getD []).contains none

-- ---------------------------------------------------------------------------
-- What stays
-- ---------------------------------------------------------------------------

@[simp] theorem connectPort_state (ms : MicroService) (line : ConnectLine) :
    (connectPort ms line).state = ms.state := rfl

@[simp] theorem connectPort_taskLinkHead (ms : MicroService) (line : ConnectLine) :
    (connectPort ms line).taskLinkHead = ms.taskLinkHead := rfl

@[simp] theorem connectPort_connectLines (ms : MicroService) (line : ConnectLine) :
    (connectPort ms line).connectLines = ms.connectLines := rfl

theorem foldl_connectPort {α : Type} (f : MicroService → α)
    (hf : ∀ ms line, f (connectPort ms line) = f ms) (lines : List ConnectLine) (ms : MicroService) :
    f (lines.foldl connectPort ms) = f ms := by
  induction lines generalizing ms with
  | nil => rfl
  | cons line lines ih => rw [List.foldl_cons, ih, hf]

theorem setOutputConnectLine_frame {α : Type} (f : MicroService → α)
    (hline : ∀ ms line, f (connectPort ms line) = f ms)
    (hlink : ∀ (ms : MicroService) path param,
      f { ms with currentTaskLink := path, outputParam := param } = f ms) (ms : MicroService) :
    f (setOutputConnectLine ms) = f ms := by
  unfold setOutputConnectLine
  split
  · rfl
  · split
    · exact hlink ms _ _
    · rw [foldl_connectPort f hline]
      exact hlink ms _ _

theorem setConnectLink_tasks (ms : MicroService) (lines : List (Option ConnectLine)) (outputName : Text)
    (names : List Text) : (setConnectLink ms lines outputName names).tasks = ms.tasks := by
  unfold setConnectLink
  split <;> rfl

@[simp] theorem setOutputConnectLine_state (ms : MicroService) :
    (setOutputConnectLine ms).state = ms.state :=
  setOutputConnectLine_frame MicroService.state (fun _ _ => rfl) (fun _ _ _ => rfl) ms

theorem setPort_frame {α : Type} {g : TaskInfo → α}
    (hg : ∀ (ti : TaskInfo) outputPorts ports_length,
      g { ti with outputPorts := outputPorts, ports_length := ports_length } = g ti)
    (line : ConnectLine) (ti : TaskInfo) : g ((setPort line).apply ti) = g ti := by
  unfold setPort
  dsimp only
  split
  · exact hg ti _ _
  · rfl

theorem setOutputConnectLine_tasks {α : Type} {g : TaskInfo → α}
    (hg : ∀ (ti : TaskInfo) outputPorts ports_length,
      g { ti with outputPorts := outputPorts, ports_length := ports_length } = g ti)
    (ms : MicroService) :
    (setOutputConnectLine ms).tasks.nodes.map g = ms.tasks.nodes.map g := by
  refine setOutputConnectLine_frame (fun ms => ms.tasks.nodes.map g) ?_ (fun _ _ _ => rfl) ms
  intro ms line
  exact TaskList.map_update g ms.tasks line.startTask (setPort line) (setPort_frame hg line)

end IoTware.Micro
