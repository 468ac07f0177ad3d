import IoTware.Micro.Running
import IoTware.Dist.OperationSafety

/-!
# Runs that fail

`run_micro_service` ends at the first task that does not start and then calls
`stop_task`, which takes nothing back: the microservice is left `STOPPED`, and
the tasks in front of the one that failed keep their kernel tasks.
-/

namespace IoTware.Dist

open CText LwMsg Micro Runs Loops

/-- What a run that returns `FALSE` should leave: the state, and the state and
the kernel task of every task. -/
def runView (ms : MicroService) : StateType × List (TaskId × StateType × Option Handle) :=
  (ms.state, ms.tasks.nodes.map fun ti => (ti.id, ti.state, ti.taskT))

/-- The call uses no NULL pointer, and it leaves everything if it returns
`FALSE`. -/
def AllOrNothing (inits : Inits) (ms : MicroService) : Prop :=
  ∃ ms' ok, runMicroService inits ms = .ok (ms', ok) ∧ (ok = false → runView ms' = runView ms)

def AllStart (inits : Inits) (ms : MicroService) : Prop :=
  ∀ ti ∈ ms.tasks.nodes, ti.initialOnoff = true → Starts (inits ti.id) ti

theorem runTask_failed (h : runTask false init ti k = ((ti', k'), false)) :
    ti.state.isActive = true ∧ ti' = ti ∨ ti'.taskT = none ∧ ti'.state = .stopped := by
  have hstart : ∀ ti k, (startTask ti k).2 = false → (startTask ti k).1.1 = ti := by
    intro ti k hfail
    unfold startTask at hfail ⊢
    split at hfail
    · rename_i hsize
      rw [if_pos hsize]
    · cases hfail
  have hinit : ∀ init ti k, (callInit init ti k).1.taskT = ti.taskT ∧
      (callInit init ti k).1.state = ti.state := by
    intro init ti k
    unfold callInit
    split <;> exact ⟨rfl, rfl⟩
  unfold runTask at h
  split at h
  · rename_i hactive
    cases h
    exact .inl ⟨by simpa using hactive, rfl⟩
  · dsimp only at h
    refine .inr ?_
    split at h
    · obtain ⟨htask, hstate⟩ := hinit init { ti with taskT := none, state := .stopped }
        (k.deleteTask ti.taskT)
      split at h
      · cases h
        exact ⟨htask, hstate⟩
      · have heq := hstart _ _ (congrArg Prod.snd h)
        rw [h] at heq
        rw [show ti' = _ from heq]
        exact ⟨htask, hstate⟩
    · have heq := hstart _ _ (congrArg Prod.snd h)
      rw [h] at heq
      rw [show ti' = _ from heq]
      exact ⟨rfl, rfl⟩

/-- What a loop over the tasks leaves that has failed at one of them: the tasks
in front of it that are on have kernel tasks, and those behind it are untouched. -/
inductive FailedLoop (inits : Inits) : List TaskInfo → List TaskInfo → Prop
  | here (hon : ti.initialOnoff = true) (hfails : ¬Starts (inits ti.id) ti)
      (hleft : ti.state.isActive = true ∧ ti' = ti ∨ ti'.taskT = none ∧ ti'.state = .stopped) :
      FailedLoop inits (ti :: rest) (ti' :: rest)
  | there (hid : ti'.id = ti.id) (hlive : ti'.initialOnoff = true → ti'.taskT ≠ none)
      (h : FailedLoop inits tis tis') : FailedLoop inits (ti :: tis) (ti' :: tis')

theorem runTasks_failed (h : (runTasks inits tis k).2.2 = false) :
    FailedLoop inits tis (runTasks inits tis k).1 := by
  induction tis generalizing k with
  | nil => cases h
  | cons ti tis ih =>
    unfold runTasks at h ⊢
    split
    · rename_i hon
      rw [if_pos hon] at h
      have hok := runTask_ok_iff (inits ti.id) ti k
      have hid : (runTask false (inits ti.id) ti k).1.1.id = ti.id :=
        runTask_frame (fun _ _ _ _ => rfl) (fun _ _ _ => rfl) false _ ti k
      split
      · rename_i hrun
        rw [hrun] at hok
        exact .here hon (fun hstarts => Bool.false_ne_true (hok.mpr hstarts)) (runTask_failed hrun)
      · rename_i hrun
        rw [hrun] at h hid
        exact .there hid (fun _ => runTask_live hrun) (ih h)
    · rename_i hoff
      rw [if_neg hoff] at h
      exact .there rfl (fun hon => absurd hon hoff) (ih h)

theorem runMicroService_failed (h : runMicroService inits ms = .ok (ms', false)) :
    ms'.state = .stopped ∧ FailedLoop inits ms.tasks.nodes ms'.tasks.nodes := by
  rcases runMicroService_cases h with ⟨-, -, hok, -⟩ | ⟨-, hfail, -, rfl⟩ | ⟨-, hok, -⟩
  · cases hok
  · refine ⟨stopTask_of_running rfl, ?_⟩
    rw [stopTask_tasks]
    exact runTasks_failed hfail
  · cases hok

/-- A run is all or nothing exactly if it cannot fail. -/
theorem run_allOrNothing_iff (inits : Inits) (ms : MicroService) :
    AllOrNothing inits ms ↔
      ms.state = .stopped ∨ ms.state = .created ∧ AllStart inits ms := by
  have hstarts := runTasks_ok_iff inits ms.tasks.nodes ms.kernel
  constructor
  · rintro ⟨ms', ok, hrun, hkeep⟩
    rcases runMicroService_cases hrun with ⟨hstate, hok, -, -⟩ | ⟨hstate, -, rfl, -⟩ | ⟨hstate, -, -⟩
    · exact .inr ⟨hstate, hstarts.mp hok⟩
    · -- the failed run leaves STOPPED, and it was called in CREATED
      have hview : ms'.state = ms.state := congrArg Prod.fst (hkeep rfl)
      rw [(runMicroService_failed hrun).1, hstate] at hview
      cases hview
    · exact .inl hstate
  · rintro (hstate | ⟨hstate, hall⟩)
    · unfold AllOrNothing runMicroService
      rw [hstate]
      exact ⟨_, true, rfl, fun h => absurd h (by decide)⟩
    · have hok : (startTasks inits ms).2 = true := hstarts.mpr hall
      refine ⟨setOutputConnectLine (startTasks inits ms).1, true, ?_, fun h => absurd h (by decide)⟩
      unfold runMicroService
      rw [hstate]
      dsimp only
      split
      · rename_i hstart
        rw [hstart]
      · rename_i hstart
        rw [hstart] at hok
        cases hok

/-- The run of a created microservice whose task aborts leaves it stopped. -/
theorem failed_run_not_undone :
    ¬∀ msId create run ms inits, LifecycleRun (makeMicroService msId create) run ms →
      AllOrNothing inits ms := by
  intro h
  have hrun : LifecycleRun sampleSensor _ _ := run_trace lifecycleStep sampleSensor [.create]
  obtain ⟨ms', ok, hcall, hkeep⟩ := h _ _ _ _ (initAll true) hrun
  rcases runMicroService_cases hcall with ⟨-, hok, -, -⟩ | ⟨hstate, -, rfl, -⟩ | ⟨hstate, -, -⟩
  · revert hok
    decide
  · have hview : ms'.state = _ := congrArg Prod.fst (hkeep rfl)
    rw [(runMicroService_failed hcall).1] at hview
    cases hview.trans hstate
  · revert hstate
    decide

end IoTware.Dist
