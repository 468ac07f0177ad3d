import IoTware.Micro.Lifecycle

/-!
# What `run_task` reports

`run_task` with allocations and a `create_task` that may fail. It returns `TRUE` also where
there is no memory for the argument of the kernel task, so that none is created, and where
`create_task` has yielded no handle.
-/

namespace IoTware.Micro

inductive InputBlock
  | item (size : Nat) | message
  deriving DecidableEq

/-- `struct stProcessingParam`, the argument of a kernel task, as far as `run_task` sets it.
A pointer to the user's data is an address. -/
structure ProcessingParam where
  taskInfo : TaskId
  inputData : Option InputBlock
  userData : Option Nat
  deriving DecidableEq

/-- What may go wrong in a call: the allocations of the argument and of its input, the
`init_fn`, and `create_task`. -/
structure RunOutcome where
  allocParam : Bool
  init : InitReturn
  userData : Option Nat
  allocInput : Bool
  createTask : Bool
  deriving DecidableEq

/-- The call of `create_task`: its argument, and the handle it yields. -/
structure CreateTaskCall where
  arg : Option ProcessingParam
  handle : Option Handle
  deriving DecidableEq

structure RunReport where
  ti : TaskInfo
  kernel : Kernel
  created : Option CreateTaskCall
  ok : Bool
  deriving DecidableEq

def safeAlloc {α : Type} (ok : Bool) (block : α) : Option α := if ok then some block else none

def tryCreateTask (ok : Bool) (k : Kernel) : Option Handle × Kernel :=
  if ok then (some k.createTask.1, k.createTask.2) else (none, k)

def createWith (out : RunOutcome) (pparam : Option ProcessingParam) (ti : TaskInfo) (k : Kernel) :
    RunReport :=
  let task := tryCreateTask out.createTask k
  ⟨{ ti with taskT := task.1, state := .created }, task.2, some ⟨pparam, task.1⟩, true⟩

def startWith (out : RunOutcome) (pparam : ProcessingParam) (ti : TaskInfo) (k : Kernel) :
    RunReport :=
  if 0 < ti.inputItemSize then
    createWith out
      (some { pparam with inputData := safeAlloc out.allocInput (.item ti.inputItemSize) }) ti k
  else if ti.lwmsgInputPort.isSome then
    createWith out (some { pparam with inputData := safeAlloc out.allocInput .message }) ti k
  else ⟨ti, k, none, false⟩

/-- From the allocation of `pparam` on, when the old kernel task is deleted. -/
def runDeleted (out : RunOutcome) (ti : TaskInfo) (k : Kernel) : RunReport :=
  match safeAlloc out.allocParam (⟨ti.id, none, none⟩ : ProcessingParam) with
  | none => ⟨ti, k, none, true⟩
  | some pparam =>
    if ti.hasInitFn then
      let (ti, k) := callInit out.init ti k
      if out.init.isAbort then ⟨ti, k, none, false⟩
      else startWith out { pparam with userData := out.userData } ti k
    else startWith out pparam ti k

def runTaskWith (force : Bool) (out : RunOutcome) (ti : TaskInfo) (k : Kernel) : RunReport :=
  if !force ∧ ti.state.isActive then ⟨ti, k, none, false⟩
  else runDeleted out { ti with taskT := none, state := .stopped } (k.deleteTask ti.taskT)

-- ---------------------------------------------------------------------------
-- The outcomes
-- ---------------------------------------------------------------------------

def TaskInfo.hasInput (ti : TaskInfo) : Bool := 0 < ti.inputItemSize ∨ ti.lwmsgInputPort.isSome

theorem startTask_eq (ti : TaskInfo) (k : Kernel) :
    startTask ti k =
      if ti.hasInput then
        (({ ti with taskT := some k.createTask.1, state := .created }, k.createTask.2), true)
      else ((ti, k), false) := by
  have hinput : ti.hasInput = true ↔ ¬(ti.inputItemSize = 0 ∧ ti.lwmsgInputPort = none) := by
    unfold TaskInfo.hasInput
    rw [decide_eq_true_iff, Nat.pos_iff_ne_zero, Option.isSome_iff_ne_none, not_and_or]
  unfold startTask
  by_cases h : ti.inputItemSize = 0 ∧ ti.lwmsgInputPort = none
  · rw [if_pos h, if_neg fun hinput' => hinput.mp hinput' h]
  · rw [if_neg h, if_pos (hinput.mpr h)]

theorem startWith_cases (out : RunOutcome) (pparam : ProcessingParam) (ti : TaskInfo) (k : Kernel) :
    (ti.hasInput = false ∧ startWith out pparam ti k = ⟨ti, k, none, false⟩) ∨
      (ti.hasInput = true ∧
        ∃ pparam', startWith out pparam ti k = createWith out (some pparam') ti k) := by
  unfold startWith
  by_cases hsize : 0 < ti.inputItemSize
  · rw [if_pos hsize]
    exact .inr ⟨decide_eq_true (.inl hsize), _, rfl⟩
  · rw [if_neg hsize]
    by_cases hport : ti.lwmsgInputPort.isSome
    · rw [if_pos hport]
      exact .inr ⟨decide_eq_true (.inr hport), _, rfl⟩
    · rw [if_neg hport]
      exact .inl ⟨decide_eq_false (not_or.mpr ⟨hsize, hport⟩), rfl⟩

/-- With memory for the argument and a kernel that creates its tasks, it is `run_task` as
the life of a microservice has it. -/
theorem runTaskWith_eq_runTask (force : Bool) {out : RunOutcome} (halloc : out.allocParam = true)
    (hcreate : out.createTask = true) (ti : TaskInfo) (k : Kernel) :
    let r := runTaskWith force out ti k
    ((r.ti, r.kernel), r.ok) = runTask force out.init ti k := by
  have hstart : ∀ pparam ti k, let r := startWith out pparam ti k
      ((r.ti, r.kernel), r.ok) = startTask ti k := by
    intro pparam ti k
    rw [startTask_eq]
    obtain ⟨hinput, heq⟩ | ⟨hinput, pparam', heq⟩ := startWith_cases out pparam ti k
    · rw [heq, hinput]
      rfl
    · rw [heq, hinput]
      unfold createWith tryCreateTask
      rw [hcreate]
      rfl
  unfold runTaskWith runTask
  split
  · rfl
  · unfold runDeleted safeAlloc
    rw [halloc, if_pos rfl]
    dsimp only
    split
    · split
      · rfl
      · exact hstart _ _ _
    · exact hstart _ _ _

def refused (force : Bool) (ti : TaskInfo) : Bool := !force ∧ ti.state.isActive

def aborts (out : RunOutcome) (ti : TaskInfo) : Bool := ti.hasInitFn ∧ out.init.isAbort

def sizeAfterInit (out : RunOutcome) (ti : TaskInfo) : Nat :=
  if ti.hasInitFn then (out.init.itemSizes.map Prod.fst).getD ti.inputItemSize
  else ti.inputItemSize

def startable (out : RunOutcome) (ti : TaskInfo) : Bool :=
  0 < sizeAfterInit out ti ∨ ti.lwmsgInputPort.isSome

theorem setInoutItemSize_calls (n m : Nat) (ti : TaskInfo) (k : Kernel) :
    k.calls <:+ ((setInoutItemSize n m).run ti k).2.calls := by
  refine forQueues_calls (fun i queue k => ?_) 0 ti.inputQueues k
  dsimp only
  split
  · exact List.suffix_refl _
  · exact (deleteQueue_calls k queue).trans (List.suffix_cons _ _)

theorem callInit_spec (init : InitReturn) (ti : TaskInfo) (k : Kernel) :
    (callInit init ti k).1.taskT = ti.taskT ∧ (callInit init ti k).1.state = ti.state ∧
      k.calls <:+ (callInit init ti k).2.calls ∧
      (callInit init ti k).1.hasInput =
        decide (0 < (init.itemSizes.map Prod.fst).getD ti.inputItemSize ∨
          ti.lwmsgInputPort.isSome) := by
  unfold callInit
  cases init.itemSizes with
  | none => exact ⟨rfl, rfl, List.suffix_refl _, rfl⟩
  | some sizes => exact ⟨rfl, rfl, setInoutItemSize_calls _ _ ti k, rfl⟩

/-- The call ends in one of three ways: without an argument, with an `init_fn` that aborts
or no input, or with the creation of the kernel task. -/
theorem runDeleted_cases (out : RunOutcome) (ti : TaskInfo) (k : Kernel) :
    ∃ (ti' : TaskInfo) (k' : Kernel), ti'.taskT = ti.taskT ∧ ti'.state = ti.state ∧
      k.calls <:+ k'.calls ∧
      ((out.allocParam = false ∧ runDeleted out ti k = ⟨ti', k', none, true⟩) ∨
        (out.allocParam = true ∧ (aborts out ti = true ∨ startable out ti = false) ∧
          runDeleted out ti k = ⟨ti', k', none, false⟩) ∨
        (out.allocParam = true ∧ aborts out ti = false ∧ startable out ti = true ∧
          ∃ pparam, runDeleted out ti k = createWith out (some pparam) ti' k')) := by
  unfold runDeleted safeAlloc aborts startable sizeAfterInit
  by_cases halloc : out.allocParam = true
  swap
  · rw [if_neg halloc]
    exact ⟨ti, k, rfl, rfl, List.suffix_refl _, .inl ⟨Bool.eq_false_iff.mpr halloc, rfl⟩⟩
  rw [if_pos halloc]
  dsimp only
  by_cases hfn : ti.hasInitFn = true
  · obtain ⟨htaskT, hstate, hcalls, hsize⟩ := callInit_spec out.init ti k
    rw [if_pos hfn, if_pos hfn]
    refine ⟨_, _, htaskT, hstate, hcalls, .inr ?_⟩
    by_cases habort : out.init.isAbort = true
    · rw [if_pos habort]
      exact .inl ⟨halloc, .inl (decide_eq_true ⟨hfn, habort⟩), rfl⟩
    · rw [if_neg habort, ← hsize]
      have hgoes : decide (ti.hasInitFn = true ∧ out.init.isAbort = true) = false :=
        decide_eq_false fun h => habort h.2
      obtain ⟨hinput, heq⟩ | ⟨hinput, pparam, heq⟩ :=
        startWith_cases out ⟨ti.id, none, out.userData⟩ (callInit out.init ti k).1 _
      · exact .inl ⟨halloc, .inr hinput, heq⟩
      · exact .inr ⟨halloc, hgoes, hinput, pparam, heq⟩
  · rw [if_neg hfn, if_neg hfn]
    refine ⟨ti, k, rfl, rfl, List.suffix_refl _, .inr ?_⟩
    have hgoes : decide (ti.hasInitFn = true ∧ out.init.isAbort = true) = false :=
      decide_eq_false fun h => hfn h.1
    obtain ⟨hinput, heq⟩ | ⟨hinput, pparam, heq⟩ := startWith_cases out ⟨ti.id, none, none⟩ ti k
    · exact .inl ⟨halloc, .inr hinput, heq⟩
    · exact .inr ⟨halloc, hgoes, hinput, pparam, heq⟩

-- ---------------------------------------------------------------------------
-- What is reported
-- ---------------------------------------------------------------------------

/-- A call that returns `TRUE` has created the kernel task of the task, with an argument.
One that returns `FALSE` behind the guard has deleted the old one and leaves none. -/
structure TruthfulReport (force : Bool) (ti : TaskInfo) (r : RunReport) : Prop where
  success : r.ok = true →
    ∃ h pparam, r.created = some ⟨some pparam, some h⟩ ∧
      r.kernel.calls.head? = some (.createTask h) ∧ r.ti.taskT = some h ∧ r.ti.state = .created
  failure : r.ok = false → refused force ti = false →
    (∀ h ∈ ti.taskT, .deleteTask h ∈ r.kernel.calls) ∧ r.created = none ∧
      r.ti.taskT = none ∧ r.ti.state.isActive = false

theorem deleteTask_calls (k : Kernel) (task : Option Handle) :
    ∀ h ∈ task, .deleteTask h ∈ (k.deleteTask task).calls := by
  rintro h rfl
  exact List.mem_cons_self

/-- The report is truthful exactly when the guard refuses the call, or there is memory for
the argument and the kernel creates its task, unless this is not tried. -/
theorem truthfulReport_iff (force : Bool) (out : RunOutcome) (ti : TaskInfo) (k : Kernel) :
    TruthfulReport force ti (runTaskWith force out ti k) ↔
      refused force ti = true ∨ (out.allocParam = true ∧
        (aborts out ti = true ∨ startable out ti = false ∨ out.createTask = true)) := by
  by_cases hrefused : refused force ti = true
  · have hrun : runTaskWith force out ti k = ⟨ti, k, none, false⟩ :=
      if_pos (of_decide_eq_true hrefused)
    rw [hrun]
    refine iff_of_true ⟨fun h => absurd h Bool.false_ne_true, fun _ h => ?_⟩ (.inl hrefused)
    exact absurd (h.symm.trans hrefused) Bool.false_ne_true
  · have hrun : runTaskWith force out ti k =
        runDeleted out { ti with taskT := none, state := .stopped } (k.deleteTask ti.taskT) :=
      if_neg fun h => hrefused (decide_eq_true h)
    obtain ⟨ti', k', htaskT, hstate, hcalls, hend⟩ :=
      runDeleted_cases out { ti with taskT := none, state := .stopped } (k.deleteTask ti.taskT)
    rw [hrun, or_iff_right hrefused]
    obtain ⟨halloc, heq⟩ | ⟨halloc, hfails, heq⟩ | ⟨halloc, hgoes, hinput, pparam, heq⟩ := hend
    · rw [heq, halloc]
      refine iff_of_false (fun h => ?_) fun h => absurd h.1 Bool.false_ne_true
      obtain ⟨_, _, hcreated, -⟩ := h.success rfl
      cases hcreated
    · rw [heq]
      refine iff_of_true ⟨fun h => absurd h Bool.false_ne_true, fun _ _ => ?_⟩
        ⟨halloc, hfails.imp_right .inl⟩
      refine ⟨fun h hh => hcalls.mem (deleteTask_calls k ti.taskT h hh), rfl, htaskT, ?_⟩
      rw [hstate]
      rfl
    · rw [heq]
      unfold createWith tryCreateTask
      by_cases hcreate : out.createTask = true
      · rw [if_pos hcreate]
        refine iff_of_true ⟨fun _ => ?_, fun h => absurd h.symm Bool.false_ne_true⟩
          ⟨halloc, .inr (.inr hcreate)⟩
        exact ⟨_, _, rfl, rfl, rfl, rfl⟩
      · rw [if_neg hcreate]
        refine iff_of_false (fun h => ?_) fun h => ?_
        · obtain ⟨_, _, hcreated, -⟩ := h.success rfl
          cases hcreated
        · obtain hfails | hfails | hfails := h.2
          · exact absurd (hgoes.symm.trans hfails) Bool.false_ne_true
          · exact absurd (hfails.symm.trans hinput) Bool.false_ne_true
          · exact hcreate hfails

/-- Without memory for the argument, the call returns `TRUE` and the task stays stopped. -/
theorem run_without_param_not_truthful :
    ¬ ∀ force out ti k, TruthfulReport force ti (runTaskWith force out ti k) := by
  intro h
  obtain ⟨_, _, hcreated, -⟩ := (h false ⟨false, ⟨false, none⟩, none, true, true⟩
    (newTask (sampleTask "log".toList false) rfl 0 none 0) ⟨0, []⟩).success rfl
  cases hcreated

end IoTware.Micro
