import IoTware.Micro.Lifecycle

/-!
# A running microservice has its kernel tasks

Running a created microservice gives every task that is initially on a kernel
task, and a run that fails stops the microservice. But running a stopped one
creates no kernel tasks, and switching a task on only marks it as initially on.
-/

namespace IoTware.Micro

open CText LwMsg Runs

def OnTasksLive (tis : List TaskInfo) : Prop := ∀ ti ∈ tis, ti.initialOnoff → ti.taskT ≠ none

def RunningLive (ms : MicroService) : Prop := ms.state = .running → OnTasksLive ms.tasks.nodes

/-- A microservice is run from `STOPPED` only if its tasks are live, and only a
task with a kernel task is switched on while the microservice is running. -/
def KeepsLive (ms : MicroService) : LifecycleEvent → Prop
  | .run _ => ms.state = .stopped → OnTasksLive ms.tasks.nodes
  | .onoff id true => ms.state = .running →
      ∀ ti ∈ ms.tasks.find? id, ti.offloading → ti.state.isActive = false → ti.taskT ≠ none
  | _ => True

-- ---------------------------------------------------------------------------
-- Tasks
-- ---------------------------------------------------------------------------

theorem onTasksLive_congr (h : tis.map (fun ti => (ti.initialOnoff, ti.taskT)) =
    tis'.map fun ti => (ti.initialOnoff, ti.taskT)) : OnTasksLive tis ↔ OnTasksLive tis' := by
  have hall : ∀ tis : List TaskInfo, OnTasksLive tis ↔
      ∀ p ∈ tis.map fun ti => (ti.initialOnoff, ti.taskT), p.1 = true → p.2 ≠ none := by
    intro tis
    rw [List.forall_mem_map]
    rfl
  rw [hall, hall, h]

theorem setOutputConnectLine_live (ms : MicroService) :
    OnTasksLive (setOutputConnectLine ms).tasks.nodes ↔ OnTasksLive ms.tasks.nodes :=
  onTasksLive_congr (setOutputConnectLine_tasks (fun _ _ _ => rfl) ms)

theorem startTask_live (h : startTask ti k = ((ti', k'), true)) : ti'.taskT ≠ none := by
  unfold startTask at h
  split at h
  · cases h
  · cases h
    exact Option.some_ne_none _

theorem runTask_live (h : runTask force init ti k = ((ti', k'), true)) : ti'.taskT ≠ none := by
  unfold runTask at h
  split at h
  · cases h
  · dsimp only at h
    split at h
    · split at h
      · cases h
      · exact startTask_live h
    · exact startTask_live h

theorem runTasks_live (h : (runTasks inits tis k).2.2 = true) :
    OnTasksLive (runTasks inits tis k).1 := by
  induction tis generalizing k with
  | nil => exact fun _ hti => absurd hti List.not_mem_nil
  | cons ti tis ih =>
    unfold runTasks at h ⊢
    split
    · rename_i hon
      rw [if_pos hon] at h
      split
      · rename_i hrun
        rw [hrun] at h
        cases h
      · rename_i ti' k' hrun
        rw [hrun] at h
        intro t ht hinit
        rcases List.mem_cons.mp ht with rfl | ht
        · exact runTask_live hrun
        · exact ih h t ht hinit
    · rename_i hoff
      rw [if_neg hoff] at h
      intro t ht hinit
      rcases List.mem_cons.mp ht with rfl | ht
      · exact absurd hinit hoff
      · exact ih h t ht hinit

-- ---------------------------------------------------------------------------
-- Steps
-- ---------------------------------------------------------------------------

theorem stopTask_state (ms : MicroService) : (stopTask ms).1.state ≠ .running := by
  unfold stopTask
  split
  · exact StateType.noConfusion
  · rename_i h
    exact fun hrun => h (.inl hrun)

theorem map_resumeStopped_live (tis : List TaskInfo) :
    OnTasksLive (tis.map resumeStopped.apply) ↔ OnTasksLive tis :=
  onTasksLive_congr (map_resumeStopped (fun _ _ => rfl) tis)

theorem run_live (ms : MicroService) (inits : Inits) (hlive : RunningLive ms) :
    RunningLive (lifecycleStep ms (.run inits)) ↔ KeepsLive ms (.run inits) := by
  unfold lifecycleStep KeepsLive
  dsimp only
  cases hrun : runMicroService inits ms with
  | error =>
    have hstate : ms.state ≠ .stopped := by
      intro hstopped
      unfold runMicroService at hrun
      rw [hstopped] at hrun
      cases hrun
    exact iff_of_true hlive fun hstopped => absurd hstopped hstate
  | ok p =>
    obtain ⟨ms', ok⟩ := p
    dsimp only
    rcases runMicroService_cases hrun with ⟨hstate, hok, -, rfl⟩ | ⟨hstate, -, -, rfl⟩ |
      ⟨hstate, -, rfl⟩
    · refine iff_of_true (fun _ => ?_) ?_
      · rw [setOutputConnectLine_live]
        exact runTasks_live hok
      · rw [hstate]
        exact fun h => StateType.noConfusion h
    · refine iff_of_true (fun h => absurd h (stopTask_state _)) ?_
      rw [hstate]
      exact fun h => StateType.noConfusion h
    · unfold RunningLive
      dsimp only [TaskList.withNodes]
      rw [map_resumeStopped_live]
      exact ⟨fun h _ => h rfl, fun h _ => h hstate⟩

theorem taskOnoff_on_live (ms : MicroService) (id : TaskId) (hlive : RunningLive ms) :
    RunningLive (taskOnoff ms id true).1 ↔ KeepsLive ms (.onoff id true) := by
  have hkeeps : KeepsLive ms (.onoff id true) ↔ (ms.state = .running → ∀ ti ∈ ms.tasks.find? id,
      ti.offloading → ti.state.isActive = false → ti.taskT ≠ none) := Iff.rfl
  rw [hkeeps]
  unfold taskOnoff
  split
  · rename_i hswitch
    refine iff_of_true hlive fun _ ti hti hoff hactive => ?_
    unfold switchTask at hswitch
    rw [hti] at hswitch
    simp [hoff, hactive] at hswitch
  · rename_i ms' hswitch
    obtain ⟨ti, hti, hoff, ⟨-, hactive, rfl⟩ | ⟨hon, -⟩⟩ := switchTask_some hswitch
    · unfold RunningLive
      rw [setOutputConnectLine_state, setOutputConnectLine_live]
      constructor
      · intro h hrunning t ht _ _
        rw [Option.mem_unique ht hti]
        have hmem : setActive.apply ti ∈ (ms.updateTask id setActive).tasks.nodes :=
          TaskList.mem_update setActive hti
        exact h hrunning (setActive.apply ti) hmem rfl
      · intro h hrunning
        refine TaskList.forall_update (fun t ht _ => hlive hrunning t ht) ?_
        intro t ht _
        rw [Option.mem_unique ht hti]
        exact h hrunning ti hti hoff hactive
    · cases hon

theorem taskOnoff_off_live (ms : MicroService) (id : TaskId) (hlive : RunningLive ms) :
    RunningLive (taskOnoff ms id false).1 := by
  unfold taskOnoff
  split
  · exact hlive
  rename_i ms' hswitch
  obtain ⟨ti, hti, -, ⟨hon, -⟩ | ⟨-, rfl⟩⟩ := switchTask_some hswitch
  · cases hon
  unfold RunningLive
  rw [setOutputConnectLine_state, setOutputConnectLine_live]
  unfold MicroService.onTask
  rw [hti]
  intro hrunning
  refine TaskList.forall_update (fun t ht _ => hlive hrunning t ht) ?_
  exact fun t _ hon => absurd hon Bool.false_ne_true

theorem lifecycleStep_live (ms : MicroService) (e : LifecycleEvent) (hlive : RunningLive ms) :
    RunningLive (lifecycleStep ms e) ↔ KeepsLive ms e := by
  cases e with
  | run inits => exact run_live ms inits hlive
  | onoff id onoff =>
    cases onoff with
    | true => exact taskOnoff_on_live ms id hlive
    | false => exact iff_of_true (taskOnoff_off_live ms id hlive) trivial
  | create =>
    refine iff_of_true ?_ trivial
    obtain ⟨-, hcreate⟩ | hcreate := lifecycleStep_create ms <;> rw [hcreate]
    · exact fun h => StateType.noConfusion h
    · exact hlive
  | stopMs => exact iff_of_true (fun h => StateType.noConfusion h) trivial
  | stopTask => exact iff_of_true (fun h => absurd h (stopTask_state ms)) trivial
  | del => exact iff_of_true (fun h => StateType.noConfusion h) trivial
  | taskState id state =>
    refine iff_of_true (fun hrunning => ?_) trivial
    refine TaskList.forall_update (fun t ht _ => hlive hrunning t ht) ?_
    intro ti hti hon
    have hti := (TaskList.mem_of_find? hti).1
    unfold setTaskState at hon ⊢
    dsimp only at hon ⊢
    split at hon
    · rename_i h
      rw [if_pos h]
      exact hlive hrunning ti hti hon
    · rename_i h
      rw [if_neg h]
      exact hlive hrunning ti hti hon
  | outputValue type value => exact iff_of_true hlive trivial
  | paramSet id params =>
    refine iff_of_true (fun hrunning => ?_) trivial
    refine TaskList.forall_update (fun t ht _ => hlive hrunning t ht) ?_
    intro ti hti
    exact hlive hrunning ti (TaskList.mem_of_find? hti).1
  | outputRead dri => exact iff_of_true hlive trivial

/-- The tasks of a microservice are live in all its running states exactly if
every step of its run meets the condition. -/
theorem lifecycle_live_iff (hrun : LifecycleRun (makeMicroService msId create) run ms) :
    (∀ t ∈ visited run ms, RunningLive t) ↔ ∀ x ∈ run, KeepsLive x.1 x.2 := by
  refine hrun.always_iff (I := fun _ => True) trivial (fun h => StateType.noConfusion h)
    (fun _ _ _ _ _ => trivial) ?_
  rintro t e t' - hlive rfl
  exact lifecycleStep_live t e hlive

/-- The run whose first task aborts stops the microservice; run again, it is
running without a kernel task. -/
theorem run_again_not_live :
    ¬ ∀ msId create run ms, LifecycleRun (makeMicroService msId create) run ms → RunningLive ms := by
  intro h
  have hrun : LifecycleRun sampleSensor _ _ :=
    run_trace lifecycleStep sampleSensor
      [.create, .run (initAll true), .run (initAll true)]
  have hlive := h _ _ _ _ hrun
  revert hlive
  unfold RunningLive OnTasksLive
  decide

theorem run_pause_resume_live :
    RunningLive ([.create, .run (initAll false), .stopTask, .run (initAll false)].foldl lifecycleStep
      sampleSensor) := by
  have hrun : LifecycleRun sampleSensor _ _ :=
    run_trace lifecycleStep sampleSensor
      [.create, .run (initAll false), .stopTask, .run (initAll false)]
  refine (lifecycle_live_iff hrun).mpr ?_ _ (by simp [visited])
  intro x hx
  simp only [trace, List.mem_cons, List.not_mem_nil, or_false] at hx
  rcases hx with rfl | rfl | rfl | rfl
  · trivial
  · exact fun h => absurd h (by decide)
  · trivial
  · intro _
    unfold OnTasksLive
    decide

end IoTware.Micro
