import IoTware.Micro.Routing
import IoTware.Micro.Selection

/-!
# Off and on again

Switching a task off deletes its kernel task, clears its ports and selects another
link. Switching it on is to undo this, but only marks the task as initially on: its state
stays `STOPPED`, so that also the link stays the one for the task being off.
-/

namespace IoTware.Micro

open LwMsg Runs

def currentLines (ms : MicroService) : Option (List ConnectLine) := do
  let path ← ms.currentTaskLink
  let link ← ms.taskLinkHead.payload? path
  link.connectLinkHead.map presentLines

/-- The task runs, and the ports of all tasks are those of the link selected before. -/
structure Restored (before after : MicroService) (id : TaskId) : Prop where
  active : ∃ ti ∈ after.tasks.find? id, ti.state.isActive ∧ ti.taskT ≠ none
  routed : ∀ lines ∈ currentLines before, Routed after.tasks.nodes lines

/-- Off and then on, each with success, restores a task. -/
def OffOnRestores (ms : MicroService) (id : TaskId) : Prop :=
  ∀ off on, taskOnoff ms id false = (off, true) → taskOnoff off id true = (on, true) →
    Restored ms on id

-- ---------------------------------------------------------------------------
-- What the calls leave of the task
-- ---------------------------------------------------------------------------

structure Switch where
  offloading : Bool
  state : StateType
  initialState : StateType
  taskT : Option Handle
  deriving DecidableEq

def TaskInfo.switch (ti : TaskInfo) : Switch := ⟨ti.offloading, ti.state, ti.initialState, ti.taskT⟩

def switchOf (ms : MicroService) (id : TaskId) : Option Switch :=
  (ms.tasks.find? id).map TaskInfo.switch

theorem switchOf_setOutputConnectLine (ms : MicroService) (id : TaskId) :
    switchOf (setOutputConnectLine ms) id = switchOf ms id :=
  TaskList.find?_map_congr (setOutputConnectLine_tasks (fun _ _ _ => rfl) ms) id

theorem switchOf_off {id : TaskId} (h : switchOf ms id = some sw) (hoff : sw.offloading = true) :
    (taskOnoff ms id false).2 = true ∧
      switchOf (taskOnoff ms id false).1 id = some ⟨true, .stopped, .iSStop, none⟩ := by
  obtain ⟨ti, hti, rfl⟩ := Option.map_eq_some_iff.mp h
  have hoff : ti.offloading = true := hoff
  have hswitch : switchTask ms id false = some (ms.onTask id offTask) := by
    unfold switchTask
    rw [hti]
    dsimp only
    rw [hoff]
    rfl
  unfold taskOnoff
  rw [hswitch]
  refine ⟨rfl, ?_⟩
  dsimp only
  rw [switchOf_setOutputConnectLine]
  unfold switchOf MicroService.onTask
  rw [hti]
  exact (congrArg (Option.map _) (TaskList.find?_update _ hti)).trans
    (congrArg (fun b => some (Switch.mk b .stopped .iSStop none)) hoff)

theorem switchOf_on {id : TaskId} (h : switchOf ms id = some sw) (hoff : sw.offloading = true)
    (hstate : sw.state.isActive = false) :
    (taskOnoff ms id true).2 = true ∧
      switchOf (taskOnoff ms id true).1 id = some { sw with initialState := .iSActive } := by
  obtain ⟨ti, hti, rfl⟩ := Option.map_eq_some_iff.mp h
  have hswitch : switchTask ms id true = some (ms.updateTask id setActive) := by
    unfold switchTask
    rw [hti]
    dsimp only
    rw [show ti.offloading = true from hoff, show ti.state.isActive = false from hstate]
    rfl
  unfold taskOnoff
  rw [hswitch]
  refine ⟨rfl, ?_⟩
  dsimp only
  rw [switchOf_setOutputConnectLine]
  exact congrArg (Option.map _) (TaskList.find?_update _ hti)

/-- The link that is selected depends on the states of the tasks, which switching a task
on leaves: it stays the one for the task being off. -/
theorem selectedLink_on (ms : MicroService) (id : TaskId) :
    selectedLink (taskOnoff ms id true).1 = selectedLink ms := by
  have hkeep : ∀ ms' : MicroService, ms'.taskLinkHead = ms.taskLinkHead →
      ms'.tasks.nodes.map activeView = ms.tasks.nodes.map activeView →
      selectedLink ms' = selectedLink ms := by
    intro ms' hhead hview
    unfold selectedLink currWalk
    rw [hhead, currTaskState_congr hview]
  unfold taskOnoff
  split
  · rfl
  · rename_i ms' hswitch
    obtain ⟨ti, -, -, ⟨-, -, rfl⟩ | ⟨hon, -⟩⟩ := switchTask_some hswitch
    · refine hkeep _ ?_ ?_
      · exact setOutputConnectLine_frame MicroService.taskLinkHead (fun _ _ => rfl)
          (fun _ _ _ => rfl) _
      · rw [setOutputConnectLine_tasks fun _ _ _ => rfl]
        exact TaskList.map_update activeView ms.tasks id setActive fun _ => rfl
    · cases hon

-- ---------------------------------------------------------------------------
-- No task is restored
-- ---------------------------------------------------------------------------

theorem switchOf_off_on {id : TaskId} (h : switchOf ms id = some sw) (hoff : sw.offloading = true) :
    ∃ off on, taskOnoff ms id false = (off, true) ∧ taskOnoff off id true = (on, true) ∧
      switchOf on id = some ⟨true, .stopped, .iSActive, none⟩ := by
  obtain ⟨hoffOk, hoffSwitch⟩ := switchOf_off h hoff
  obtain ⟨honOk, honSwitch⟩ := switchOf_on hoffSwitch rfl rfl
  exact ⟨_, _, Prod.ext rfl hoffOk, Prod.ext rfl honOk, honSwitch⟩

/-- Off and on restores no task, in whatever state the microservice and the task are. -/
theorem offOn_never_restores {id : TaskId}
    (hoff : (ms.tasks.find? id).any TaskInfo.offloading) : ¬OffOnRestores ms id := by
  intro h
  obtain ⟨ti, hti, hoff⟩ : ∃ ti, ms.tasks.find? id = some ti ∧ ti.offloading = true := by
    cases hti : ms.tasks.find? id with
    | none =>
      rw [hti] at hoff
      cases hoff
    | some ti =>
      rw [hti] at hoff
      exact ⟨ti, rfl, hoff⟩
  obtain ⟨off, on, hoffOk, honOk, hswitch⟩ :=
    switchOf_off_on (congrArg (Option.map TaskInfo.switch) hti) hoff
  obtain ⟨t, ht, hactive, -⟩ := (h off on hoffOk honOk).active
  have hstopped : t.switch = ⟨true, .stopped, .iSActive, none⟩ := by
    unfold switchOf at hswitch
    rw [Option.mem_def.mp ht] at hswitch
    exact Option.some.inj hswitch
  have hstate : t.state = .stopped := congrArg Switch.state hstopped
  rw [hstate] at hactive
  cases hactive

def sampleLogging : MicroService :=
  [.create, .run (initAll false)].foldl lifecycleStep (sampleRouting [1])

theorem log_never_restored :
    sampleLogging.state = .running ∧ currTaskState sampleLogging (some 1) = true ∧
      ¬OffOnRestores sampleLogging 1 :=
  ⟨by decide, by decide, offOn_never_restores (by decide)⟩

theorem log_not_restored :
    ¬ ∀ ms id, ms.state = .running → (ms.tasks.find? id).any TaskInfo.offloading →
      currTaskState ms (some id) → OffOnRestores ms id := by
  intro h
  have hrestored := h sampleLogging 1 (by decide) (by decide) (by decide)
    (taskOnoff sampleLogging 1 false).1 (taskOnoff (taskOnoff sampleLogging 1 false).1 1 true).1
    (Prod.ext rfl (by decide)) (Prod.ext rfl (by decide))
  obtain ⟨ti, hti, hactive, -⟩ := hrestored.active
  have hstopped : ((taskOnoff (taskOnoff sampleLogging 1 false).1 1 true).1.tasks.find? 1).any
      (·.state.isActive) = false := by decide
  rw [Option.mem_def.mp hti] at hstopped
  exact Bool.false_ne_true (hstopped.symm.trans hactive)

end IoTware.Micro
