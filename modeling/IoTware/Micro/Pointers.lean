import IoTware.Micro.Report
import IoTware.Micro.Selection

/-!
# NULL in the operations

Two of the pointers that the operations go through may be NULL: the task that
`add_new_task` returns for a rejected block, and a connect line that
`add_connect_line` has rejected. An operation that comes to one is a fault, and
otherwise does what it does without them. Which lines it comes to is told by the
states that the tasks have before.
-/

namespace IoTware.Micro

open CText LwMsg DecisionTree

namespace Pointers

def createMicroService (ms : MicroService) : Except Fault (MicroService × Bool) :=
  if ms.state = .notReady ∧ ms.writesNullTask then .error .nullPointer
  else .ok (Micro.createMicroService ms)

def runMicroService (inits : Inits) (ms : MicroService) : Except Fault (MicroService × Bool) :=
  if ms.state = .created ∧ (startTasks inits ms).2 ∧ readsNullLine (startTasks inits ms).1 then
    .error .nullPointer
  else Micro.runMicroService inits ms

def stopMicroService (ms : MicroService) : Except Fault (MicroService × Bool) :=
  if ms.writesNullTask then .error .nullPointer else .ok (Micro.stopMicroService ms)

def taskOnoff (ms : MicroService) (id : TaskId) (onoff : Bool) : Except Fault (MicroService × Bool) :=
  if (switchTask ms id onoff).any readsNullLine then .error .nullPointer
  else .ok (Micro.taskOnoff ms id onoff)

def makeDeviceInformationLwmsg2 (pf : Platform) (services : List MicroService) (dri : Option Text)
    (rsc : UInt32) : Except Fault (List MicroService × LWMessage) :=
  if services.any fun ms => ms.state ≠ .running && ms.writesNullTask then .error .nullPointer
  else Micro.makeDeviceInformationLwmsg2 pf services dri rsc

variable {ms ms' : MicroService} {r : MicroService × Bool}

theorem createMicroService_ok (h : createMicroService ms = .ok r) : r = Micro.createMicroService ms := by
  unfold createMicroService at h
  split at h <;> cases h
  rfl

theorem runMicroService_ok (h : runMicroService inits ms = .ok r) :
    Micro.runMicroService inits ms = .ok r := by
  unfold runMicroService at h
  split at h
  · cases h
  · exact h

theorem stopMicroService_ok (h : stopMicroService ms = .ok r) : r = Micro.stopMicroService ms := by
  unfold stopMicroService at h
  split at h <;> cases h
  rfl

theorem taskOnoff_ok {id : TaskId} (h : taskOnoff ms id onoff = .ok r) :
    r = Micro.taskOnoff ms id onoff := by
  unfold taskOnoff at h
  split at h <;> cases h
  rfl

theorem taskOnoff_refused {id : TaskId} (h : switchTask ms id onoff = none) :
    taskOnoff ms id onoff = .ok (ms, false) := by
  unfold taskOnoff Micro.taskOnoff
  rw [h]
  rfl

theorem taskOnoff_switched {id : TaskId} (h : switchTask ms id onoff = some pre) :
    taskOnoff ms id onoff = if readsNullLine pre then .error .nullPointer
      else .ok ((Micro.taskOnoff ms id onoff).1, true) := by
  unfold taskOnoff Micro.taskOnoff
  rw [h]
  rfl

theorem makeDeviceInformationLwmsg2_ok (h : makeDeviceInformationLwmsg2 pf services dri rsc = .ok res) :
    Micro.makeDeviceInformationLwmsg2 pf services dri rsc = .ok res := by
  unfold makeDeviceInformationLwmsg2 at h
  split at h
  · cases h
  · exact h

end Pointers

-- ---------------------------------------------------------------------------
-- The lines that are read
-- ---------------------------------------------------------------------------

/-- The leaf that a test selects has a list with a line that is NULL. -/
def nullLineFor (head : TaskLink) (test : Option TaskId → Bool) : Bool :=
  ((head.walk test).bind head.payload?).any fun link => (link.connectLinkHead.getD []).contains none

/-- The task is active once those that are initially on are started. -/
def activeStarted (ms : MicroService) : Option TaskId → Bool
  | none => false
  | some id => (ms.tasks.find? id).any fun ti => ti.initialOnoff || ti.state.isActive

def activeWithout (ms : MicroService) (offs : List TaskId) (task : Option TaskId) : Bool :=
  currTaskState ms task && !offs.any fun id => some id = task

theorem readsNullLine_eq (ms : MicroService) :
    readsNullLine ms = nullLineFor ms.taskLinkHead (currTaskState ms) := by
  unfold readsNullLine nullLineFor selectedLink currWalk
  cases ms.taskLinkHead.walk (currTaskState ms) with
  | none => rfl
  | some path => cases hlink : ms.taskLinkHead.payload? path <;> simp [hlink]

theorem currTaskState_started {ms : MicroService} (hok : (startTasks inits ms).2 = true) :
    currTaskState (startTasks inits ms).1 = activeStarted ms := by
  have hnodes : (startTasks inits ms).1.tasks.nodes.map activeView =
      ms.tasks.nodes.map fun ti => (ti.id, ti.initialOnoff || ti.state.isActive) :=
    runTasks_active inits _ _ hok
  funext task
  cases task with
  | none => rfl
  | some id =>
    unfold currTaskState activeStarted
    dsimp only
    rw [any_isActive_find?, hnodes, List.find?_map, Option.any_map]
    rfl

theorem readsNullLine_startTasks {ms : MicroService} (hok : (startTasks inits ms).2 = true) :
    readsNullLine (startTasks inits ms).1 = nullLineFor ms.taskLinkHead (activeStarted ms) := by
  rw [readsNullLine_eq, currTaskState_started hok]
  rfl

theorem activeWithout_nil (ms : MicroService) : activeWithout ms [] = currTaskState ms := by
  funext task
  simp [activeWithout]

theorem currTaskState_off {ms : MicroService} {id : TaskId} (hti : ms.tasks.find? id = some ti)
    (task : Option TaskId) :
    currTaskState (ms.onTask id offTask) task = (currTaskState ms task && !decide (some id = task)) := by
  cases task with
  | none => rfl
  | some other =>
    unfold currTaskState MicroService.onTask
    rw [hti]
    dsimp only [MicroService.updateTask]
    by_cases hid : id = other
    · subst hid
      rw [TaskList.find?_update _ hti]
      simp [offTask, StateType.isActive]
    · rw [TaskList.find?_update_ne _ (Ne.symm hid)]
      simp [hid]

theorem currTaskState_on (ms : MicroService) (id : TaskId) :
    currTaskState (ms.updateTask id setActive) = currTaskState ms :=
  currTaskState_congr (TaskList.map_update activeView ms.tasks id setActive fun _ => rfl)

theorem currTaskState_setOutputConnectLine (ms : MicroService) :
    currTaskState (setOutputConnectLine ms) = currTaskState ms :=
  currTaskState_congr (setOutputConnectLine_tasks (fun _ _ _ => rfl) ms)

def offsBehind (onoff : Bool) (id : TaskId) (offs : List TaskId) : List TaskId :=
  if onoff then offs else id :: offs

theorem switchTask_active {id : TaskId} (h : switchTask ms' id onoff = some pre)
    (htest : currTaskState ms' = activeWithout ms offs) (hhead : ms'.taskLinkHead = ms.taskLinkHead) :
    currTaskState pre = activeWithout ms (offsBehind onoff id offs) ∧
      pre.taskLinkHead = ms.taskLinkHead := by
  obtain ⟨ti, hti, -, ⟨rfl, -, rfl⟩ | ⟨rfl, rfl⟩⟩ := switchTask_some h
  · exact ⟨(currTaskState_on ms' id).trans htest, hhead⟩
  · constructor
    · funext task
      rw [currTaskState_off hti, htest]
      simp [activeWithout, offsBehind, Bool.and_comm, Bool.and_left_comm]
    · unfold MicroService.onTask
      rw [hti]
      exact hhead

end IoTware.Micro
