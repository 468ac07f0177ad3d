import Mathlib.Data.List.ReduceOption
import IoTware.Lib.Ledger
import IoTware.Micro.Queues

/-!
# The handles of the input queues

The queues of the tasks, where `create_queue` may fail. A queue is deleted when the item
sizes are set, when its task is switched off and when the microservice is deleted; its
handle is replaced or dropped then, but for one case: a task without an item size keeps
the handles of its other ports when it is switched off.
-/

namespace IoTware.Micro

open LwMsg Handles Runs

section
variable (made : Handle → Bool)

def tryCreateQueue (k : Kernel) : Option Handle × Kernel :=
  if made k.next then (some k.createQueue.1, k.createQueue.2) else (none, { k with next := k.next + 1 })

def resizeQueue (lwmsgInputPort : Option Nat) (i : Nat) (queue : Option Handle) (k : Kernel) :
    Option Handle × Kernel :=
  if some i = lwmsgInputPort then (queue, k) else tryCreateQueue made (k.deleteQueue queue)

def setInoutItemSizeWith (inputItemSize outputItemSize : Nat) : TaskOp where
  run ti k :=
    { ti with inputItemSize := inputItemSize, outputItemSize := outputItemSize }.forQueues
      (resizeQueue made ti.lwmsgInputPort) k
  id_run _ _ := rfl

/-- What `task_onoff` does with a queue of a task that is switched off. -/
def offQueue (lwmsgInputPort : Option Nat) (inputItemSize i : Nat) (queue : Option Handle)
    (k : Kernel) : Option Handle × Kernel :=
  let k := k.deleteQueue queue
  if some i = lwmsgInputPort ∨ 0 < inputItemSize then tryCreateQueue made k else (queue, k)

def offTaskWith : TaskOp where
  run ti k :=
    let r := { ti with taskT := none }.forQueues (offQueue made ti.lwmsgInputPort ti.inputItemSize)
      (k.deleteTask ti.taskT)
    ({ r.1 with
        outputPorts := List.replicate ti.outputCount.toNat none
        ports_length := by rw [List.length_replicate]; rfl
        state := .stopped
        initialState := .iSStop }, r.2)
  id_run _ _ := rfl

def taskOnoffWith (ms : MicroService) (id : TaskId) (onoff : Bool) : MicroService × Bool :=
  match ms.tasks.find? id with
  | none => (ms, false)
  | some ti =>
    if !ti.offloading then (ms, false)
    else if onoff then
      if ti.state.isActive then (ms, false)
      else (setOutputConnectLine (ms.updateTask id setActive), true)
    else (setOutputConnectLine (ms.onTask id (offTaskWith made)), true)

theorem newTask_id (config : TaskConfig) (h : config.rejected = false) (taskIdx : Nat)
    (queue : Option Handle) (id : TaskId) : (newTask config h taskIdx queue id).id = id := rfl

def addNewTaskWith (ms : MicroService) (config : TaskConfig) : MicroService :=
  if h : config.rejected = false then
    let (queue, kernel) :=
      match config.lwmsgInputPort with
      | none => (none, ms.kernel)
      | some _ => tryCreateQueue made ms.kernel
    let ms' := { ms with
      tasks := ms.tasks.add (newTask config h (nodeNum ms.tasks.nodes) queue)
        (newTask_id config h _ queue)
      kernel := kernel }
    match config.itemSizes with
    | none => ms'
    | some (inputItemSize, outputItemSize) =>
      ms'.onTask ms.tasks.next (setInoutItemSizeWith made inputItemSize outputItemSize)
  else ms

def createStepWith (s : MicroService × List (Option ConnectLine)) (call : CreateCall) :
    MicroService × List (Option ConnectLine) :=
  match call with
  | .addNewTask config => (addNewTaskWith made s.1 config, s.2)
  | _ => createStep s call

def runCreateWith (ms : MicroService) : MicroService :=
  (ms.create.foldl (createStepWith made) (ms, [])).1

def createMicroServiceWith (ms : MicroService) : MicroService × Bool :=
  if ms.state = .notReady then ({ runCreateWith made ms with state := .created }, true)
  else (ms, false)

def stopMicroServiceWith (ms : MicroService) : MicroService × Bool :=
  ({ runCreateWith made (delMicroService ms).1 with state := .created }, true)

inductive QueueEvent
  | create
  | setSizes (id : TaskId) (inputItemSize outputItemSize : Nat)
  | onoff (id : TaskId) (onoff : Bool)
  | stopMs
  | del

def queueStep (ms : MicroService) : QueueEvent → MicroService
  | .create => (createMicroServiceWith made ms).1
  | .setSizes id inputItemSize outputItemSize =>
    ms.onTask id (setInoutItemSizeWith made inputItemSize outputItemSize)
  | .onoff id onoff => (taskOnoffWith made ms id onoff).1
  | .stopMs => (stopMicroServiceWith made ms).1
  | .del => (delMicroService ms).1
end

abbrev QueueRun (made : Handle → Bool) := Run fun ms e ms' => ms' = queueStep made ms e

-- ---------------------------------------------------------------------------
-- Where `create_queue` succeeds
-- ---------------------------------------------------------------------------

theorem setInoutItemSizeWith_eq (n m : Nat) :
    setInoutItemSizeWith (fun _ => true) n m = setInoutItemSize n m := rfl

theorem createStepWith_eq (s : MicroService × List (Option ConnectLine)) (call : CreateCall) :
    createStepWith (fun _ => true) s call = createStep s call := by
  cases call with
  | addNewTask config =>
    unfold createStepWith createStep addNewTaskWith addNewTask
    dsimp only
    cases config.lwmsgInputPort <;> rfl
  | _ => rfl

theorem taskOnoffWith_eq (ms : MicroService) (id : TaskId) (onoff : Bool) :
    taskOnoffWith (fun _ => true) ms id onoff = taskOnoff ms id onoff := by
  unfold taskOnoffWith taskOnoff switchTask
  cases ms.tasks.find? id with
  | none => rfl
  | some ti =>
    dsimp only
    split
    · rfl
    · split
      · split <;> rfl
      · rfl

def QueueEvent.lifecycle : QueueEvent → Option LifecycleEvent
  | .create => some .create
  | .setSizes _ _ _ => none
  | .onoff id on => some (.onoff id on)
  | .stopMs => some .stopMs
  | .del => some .del

theorem queueStep_eq_lifecycleStep {e : QueueEvent} (h : e.lifecycle = some e') (ms : MicroService) :
    queueStep (fun _ => true) ms e = lifecycleStep ms e' := by
  have hcreate : ∀ ms, runCreateWith (fun _ => true) ms = ms.runCreate := by
    intro ms
    unfold runCreateWith MicroService.runCreate
    congr 2
    funext s call
    exact createStepWith_eq s call
  cases e with
  | create =>
    cases h
    unfold queueStep lifecycleStep createMicroServiceWith createMicroService
    dsimp only
    rw [hcreate]
  | setSizes id n m => cases h
  | onoff id onoff =>
    cases h
    exact congrArg Prod.fst (taskOnoffWith_eq ms id onoff)
  | stopMs =>
    cases h
    unfold queueStep lifecycleStep stopMicroServiceWith stopMicroService
    dsimp only
    rw [hcreate]
  | del =>
    cases h
    rfl

-- ---------------------------------------------------------------------------
-- The ledger of the kernel
-- ---------------------------------------------------------------------------

def KernelCall.createdQueue : KernelCall → Option Handle
  | .createQueue h => some h
  | _ => none

def KernelCall.deletedQueue : KernelCall → Option Handle
  | .deleteQueue h => some h
  | _ => none

def Kernel.queues (k : Kernel) : Ledger Handle :=
  ⟨k.calls.filterMap KernelCall.createdQueue, k.calls.filterMap KernelCall.deletedQueue⟩

theorem mem_queues_created {k : Kernel} : h ∈ k.queues.created ↔ .createQueue h ∈ k.calls := by
  unfold Kernel.queues
  rw [List.mem_filterMap]
  constructor
  · rintro ⟨call, hcall, heq⟩
    cases call <;> cases heq
    exact hcall
  · exact fun hcall => ⟨_, hcall, rfl⟩

theorem mem_queues_deleted {k : Kernel} : h ∈ k.queues.deleted ↔ .deleteQueue h ∈ k.calls := by
  unfold Kernel.queues
  rw [List.mem_filterMap]
  constructor
  · rintro ⟨call, hcall, heq⟩
    cases call <;> cases heq
    exact hcall
  · exact fun hcall => ⟨_, hcall, rfl⟩

/-- A kernel accounts for the handles that are held, and gives out new ones. -/
structure Tracked (held : List Handle) (k : Kernel) : Prop where
  holds : Holds held k.queues
  fresh : ∀ h ∈ k.queues.created, h < k.next

def Sound (held : List Handle) (k : Kernel) : Prop := Tracked held k ∧ Live held k.queues

/-- A statement about the held handles and the kernel that is kept when a handle is deleted
and dropped, and when one is created and held. -/
structure Accounts (made : Handle → Bool) (I : List Handle → Kernel → Prop) : Prop where
  perm : held.Perm held' → I held k → I held' k
  delete {held : List Handle} {queue : Option Handle} {k : Kernel} : I (queue.toList ++ held) k → I held (k.deleteQueue queue)
  create : I held k → I ((tryCreateQueue made k).1.toList ++ held) (tryCreateQueue made k).2
  other : k'.queues = k.queues → k'.next = k.next → I held k → I held k'

theorem Tracked.deleteQueue {queue : Option Handle} (h : Tracked (queue.toList ++ held) k) :
    Tracked (queue.toList ++ held) (k.deleteQueue queue) := by
  cases queue with
  | none => exact h
  | some queue => exact ⟨h.holds.delete List.mem_cons_self, h.fresh⟩

theorem accounts_tracked (made : Handle → Bool) : Accounts made Tracked where
  perm hp h := ⟨h.holds.perm hp, h.fresh⟩
  delete {held queue k} h := by
    cases queue with
    | none => exact h
    | some queue => exact ⟨h.deleteQueue.holds.drop, h.fresh⟩
  create {held k} h := by
    unfold tryCreateQueue
    split
    · refine ⟨h.holds.create fun hmem => Nat.lt_irrefl _ (h.fresh _ hmem), ?_⟩
      intro x hx
      rcases List.mem_cons.mp hx with rfl | hx
      · exact Nat.lt_succ_self _
      · exact Nat.lt_succ_of_lt (h.fresh x hx)
    · exact ⟨h.holds, fun x hx => Nat.lt_succ_of_lt (h.fresh x hx)⟩
  other hqueues hnext h := by
    refine ⟨hqueues ▸ h.holds, ?_⟩
    rw [hqueues, hnext]
    exact h.fresh

theorem accounts_sound (made : Handle → Bool) : Accounts made Sound where
  perm hp h := ⟨(accounts_tracked made).perm hp h.1, h.2.perm hp⟩
  delete {held queue k} h := by
    refine ⟨(accounts_tracked made).delete h.1, ?_⟩
    cases queue with
    | none => exact h.2
    | some queue => exact h.2.delete h.1.holds
  create {held k} h := by
    refine ⟨(accounts_tracked made).create h.1, ?_⟩
    unfold tryCreateQueue
    split
    · exact h.2.create (fun hmem => Nat.lt_irrefl _ (h.1.fresh _ hmem)) h.1.holds
    · exact h.2
  other hqueues hnext h :=
    ⟨(accounts_tracked made).other hqueues hnext h.1, hqueues ▸ h.2⟩

theorem queues_deleteTask (k : Kernel) (task : Option Handle) :
    (k.deleteTask task).queues = k.queues ∧ (k.deleteTask task).next = k.next := by
  cases task <;> exact ⟨rfl, rfl⟩

-- ---------------------------------------------------------------------------
-- Tasks
-- ---------------------------------------------------------------------------

def TaskInfo.handles (ti : TaskInfo) : List Handle := ti.inputQueues.reduceOption

theorem reduceOption_cons (queue : Option Handle) (queues : List (Option Handle)) :
    (queue :: queues).reduceOption = queue.toList ++ queues.reduceOption := by
  cases queue <;> rfl

section
variable {made : Handle → Bool} {I : List Handle → Kernel → Prop}

theorem forQueues_accounts (hI : Accounts made I)
    {visit : Nat → Option Handle → Kernel → Option Handle × Kernel} {i : Nat}
    {queues : List (Option Handle)}
    (hvisit : ∀ j queue, queues[j]? = some queue → ∀ held k, I (queue.toList ++ held) k →
      I ((visit (i + j) queue k).1.toList ++ held) (visit (i + j) queue k).2)
    (h : I (queues.reduceOption ++ held) k) :
    I ((Micro.forQueues visit i queues k).1.reduceOption ++ held)
      (Micro.forQueues visit i queues k).2 := by
  induction queues generalizing i held k with
  | nil => exact h
  | cons queue queues ih =>
    unfold Micro.forQueues
    dsimp only
    rw [reduceOption_cons, List.append_assoc] at h ⊢
    have hfirst := hvisit 0 queue rfl _ _ h
    have hrest := ih (i := i + 1) (fun j queue hj held k h => by
      have hadd : i + 1 + j = i + (j + 1) := by omega
      rw [hadd]
      exact hvisit (j + 1) queue hj held k h) (hI.perm (List.perm_append_comm_assoc _ _ _) hfirst)
    exact hI.perm (List.perm_append_comm_assoc _ _ _) hrest

theorem resizeQueue_accounts (hI : Accounts made I) (lwmsgInputPort : Option Nat) (i : Nat)
    {queue : Option Handle} (h : I (queue.toList ++ held) k) :
    I ((resizeQueue made lwmsgInputPort i queue k).1.toList ++ held)
      (resizeQueue made lwmsgInputPort i queue k).2 := by
  unfold resizeQueue
  split
  · exact h
  · exact hI.create (hI.delete h)

theorem setInoutItemSize_accounts (hI : Accounts made I) (n m : Nat) {ti : TaskInfo}
    (h : I (ti.handles ++ held) k) :
    I (((setInoutItemSizeWith made n m).run ti k).1.handles ++ held)
      ((setInoutItemSizeWith made n m).run ti k).2 :=
  forQueues_accounts hI (fun _ _ _ _ _ h => resizeQueue_accounts hI ti.lwmsgInputPort _ h) h

/-- A port whose queue is deleted, and not replaced when the task is switched off. -/
def TaskInfo.keepsDeleted (ti : TaskInfo) (i : Nat) : Prop :=
  some i ≠ ti.lwmsgInputPort ∧ ti.inputItemSize = 0

theorem offTask_accounts (hI : Accounts made I) {ti : TaskInfo}
    (hkeep : ∀ i queue, ti.inputQueues[i]? = some queue → ti.keepsDeleted i → ∀ held k,
      I (queue.toList ++ held) k → I (queue.toList ++ held) (k.deleteQueue queue))
    (h : I (ti.handles ++ held) k) :
    I (((offTaskWith made).run ti k).1.handles ++ held) ((offTaskWith made).run ti k).2 := by
  refine forQueues_accounts hI (fun i queue hqueue held k h => ?_)
    (hI.other (queues_deleteTask k ti.taskT).1 (queues_deleteTask k ti.taskT).2 h)
  unfold offQueue
  rw [Nat.zero_add]
  dsimp only
  split
  · exact hI.create (hI.delete h)
  · rename_i hport
    obtain ⟨hport, hsize⟩ := not_or.mp hport
    exact hkeep i queue hqueue ⟨hport, Nat.eq_zero_of_not_pos hsize⟩ held k h

theorem newTask_handles (config : TaskConfig) (hr : config.rejected = false) (taskIdx : Nat)
    (queue : Option Handle) (id : TaskId) :
    (newTask config hr taskIdx queue id).handles =
      if config.lwmsgInputPort.isSome then queue.toList else [] := by
  unfold TaskInfo.handles newTask
  dsimp only
  cases hport : config.lwmsgInputPort with
  | none => exact List.reduceOption_replicate_none
  | some port =>
    have hlt := config.lwmsgInputPort_lt hr port hport
    dsimp only
    rw [List.set_eq_take_append_cons_drop, if_pos (by rw [List.length_replicate]; exact hlt),
      List.reduceOption_append, reduceOption_cons, List.take_replicate, List.drop_replicate,
      List.reduceOption_replicate_none, List.reduceOption_replicate_none, List.append_nil]
    rfl

theorem deleteTaskInfo_accounts (hI : Accounts made I) {ti : TaskInfo}
    (h : I (ti.handles ++ held) k) : I held (deleteTaskInfo k ti) := by
  have hqueues : ∀ (queues : List (Option Handle)) k, I (queues.reduceOption ++ held) k →
      I held (queues.foldl Kernel.deleteQueue k) := by
    intro queues
    induction queues with
    | nil => exact fun _ h => h
    | cons queue queues ih =>
      intro k h
      rw [reduceOption_cons, List.append_assoc] at h
      exact ih _ (hI.delete h)
  exact hqueues ti.inputQueues _
    (hI.other (queues_deleteTask k ti.taskT).1 (queues_deleteTask k ti.taskT).2 h)

theorem foldl_deleteTaskInfo_accounts (hI : Accounts made I) (tis : List TaskInfo)
    (h : I (tis.flatMap TaskInfo.handles ++ held) k) : I held (tis.foldl deleteTaskInfo k) := by
  induction tis generalizing k with
  | nil => exact h
  | cons ti tis ih =>
    rw [List.flatMap_cons, List.append_assoc] at h
    exact ih (deleteTaskInfo_accounts hI h)

-- ---------------------------------------------------------------------------
-- Microservices
-- ---------------------------------------------------------------------------

def handles (ms : MicroService) : List Handle := ms.tasks.nodes.flatMap TaskInfo.handles

theorem onTask_accounts (hI : Accounts made I) {ms : MicroService} {id : TaskId} {op : TaskOp}
    (hop : ∀ ti, ms.tasks.find? id = some ti → ∀ held, I (ti.handles ++ held) ms.kernel →
      I ((op.run ti ms.kernel).1.handles ++ held) (op.run ti ms.kernel).2)
    (h : I (handles ms) ms.kernel) : I (handles (ms.onTask id op)) (ms.onTask id op).kernel := by
  unfold MicroService.onTask
  split
  · exact h
  · rename_i ti hti
    obtain ⟨before, after, heq, hupdate⟩ := TaskList.update_split hti
    have hperm : ∀ t : TaskInfo, ((before ++ t :: after).flatMap TaskInfo.handles).Perm
        (t.handles ++ (before ++ after).flatMap TaskInfo.handles) := fun t =>
      List.Perm.flatMap_right _ List.perm_middle
    unfold handles at h ⊢
    unfold MicroService.updateTask
    dsimp only
    rw [heq] at h
    rw [hupdate]
    exact hI.perm (hperm _).symm (hop ti hti _ (hI.perm (hperm ti) h))

theorem setSizes_accounts (hI : Accounts made I) (id : TaskId) (n m : Nat)
    (h : I (handles ms) ms.kernel) :
    I (handles (ms.onTask id (setInoutItemSizeWith made n m)))
      (ms.onTask id (setInoutItemSizeWith made n m)).kernel :=
  onTask_accounts hI (fun _ _ _ h => setInoutItemSize_accounts hI n m h) h

theorem addNewTask_accounts (hI : Accounts made I) (config : TaskConfig)
    (h : I (handles ms) ms.kernel) :
    I (handles (addNewTaskWith made ms config)) (addNewTaskWith made ms config).kernel := by
  unfold addNewTaskWith
  split
  · rename_i hr
    have hadd : ∀ queue kernel, I (Option.toList queue ++ handles ms) kernel →
        (config.lwmsgInputPort = none → queue = none) →
        let ms' := { ms with
          tasks := ms.tasks.add (newTask config hr (nodeNum ms.tasks.nodes) queue) fun _ => rfl
          kernel := kernel }
        I (handles ms') ms'.kernel := by
      intro queue kernel h hnone
      unfold handles TaskList.add
      dsimp only
      rw [List.flatMap_cons, newTask_handles]
      split
      · exact h
      · rename_i hport
        rw [hnone (Option.not_isSome_iff_eq_none.mp hport)] at h
        exact h
    have hsizes : ∀ ms' : MicroService, I (handles ms') ms'.kernel →
        let ms'' := match config.itemSizes with
          | none => ms'
          | some (n, m) => ms'.onTask ms.tasks.next (setInoutItemSizeWith made n m)
        I (handles ms'') ms''.kernel := by
      intro ms' h
      dsimp only
      split
      · exact h
      · exact setSizes_accounts hI _ _ _ h
    cases hport : config.lwmsgInputPort with
    | none => exact hsizes _ (hadd none _ h fun _ => rfl)
    | some port =>
      exact hsizes _ (hadd _ _ (hI.create h) fun hnone => absurd (hport.symm.trans hnone) (by simp))
  · exact h

theorem runCreate_accounts (hI : Accounts made I) (h : I (handles ms) ms.kernel) :
    I (handles (runCreateWith made ms)) (runCreateWith made ms).kernel := by
  have hstep : ∀ s call, I (handles s.1) s.1.kernel →
      I (handles (createStepWith made s call).1) (createStepWith made s call).1.kernel := by
    intro s call h
    obtain ⟨config, rfl⟩ | ⟨hcall, _, _, _, heq⟩ := createStep_cases s call
    · exact addNewTask_accounts hI config h
    · have hsame : createStepWith made s call = createStep s call := by
        unfold createStepWith
        split
        · exact absurd rfl (hcall _)
        · rfl
      rw [hsame, heq]
      exact h
  have hfold : ∀ (calls : List CreateCall) s, I (handles s.1) s.1.kernel →
      I (handles (calls.foldl (createStepWith made) s).1)
        (calls.foldl (createStepWith made) s).1.kernel := by
    intro calls
    induction calls with
    | nil => exact fun _ h => h
    | cons call calls ih => exact fun s h => ih _ (hstep s call h)
  exact hfold ms.create (ms, []) h

theorem setOutputConnectLine_handles (ms : MicroService) :
    handles (setOutputConnectLine ms) = handles ms ∧
      (setOutputConnectLine ms).kernel = ms.kernel := by
  refine ⟨?_, setOutputConnectLine_frame MicroService.kernel (fun _ _ => rfl) (fun _ _ _ => rfl) ms⟩
  unfold handles
  rw [List.flatMap_def, List.flatMap_def, setOutputConnectLine_tasks fun _ _ _ => rfl]

theorem stopTask_accounts (hI : Accounts made I) (h : I (handles ms) ms.kernel) :
    I (handles (stopTask ms).1) (stopTask ms).1.kernel := by
  have hfold : ∀ (tis : List TaskInfo) (k : Kernel), I (handles ms) k →
      I (handles ms) (tis.foldl (fun k ti =>
        ti.taskT.elim k fun h => (k.call (.suspendTask h)).call (.resumeTask h)) k) := by
    intro tis
    induction tis with
    | nil => exact fun _ h => h
    | cons ti tis ih =>
      intro k h
      refine ih _ ?_
      dsimp only
      cases ti.taskT with
      | none => exact h
      | some task =>
        refine hI.other ?_ ?_ h
        · rfl
        · rfl
  unfold stopTask
  split
  · exact hfold ms.tasks.nodes ms.kernel h
  · exact h

theorem delMicroService_accounts (hI : Accounts made I) (h : I (handles ms) ms.kernel) :
    I (handles (delMicroService ms).1) (delMicroService ms).1.kernel := by
  have hdel : ∀ ms : MicroService, I (handles ms) ms.kernel →
      I (ms.tasks.foreachToDel.nodes.flatMap TaskInfo.handles)
        ((ms.tasks.nodes.take (nodeNum ms.tasks.nodes)).foldl deleteTaskInfo ms.kernel) := by
    intro ms h
    refine foldl_deleteTaskInfo_accounts hI _ ?_
    unfold TaskList.foreachToDel IoTware.foreachToDel
    rw [← List.flatMap_append, List.take_append_drop]
    exact h
  unfold delMicroService
  dsimp only
  split
  · exact hdel _ (stopTask_accounts hI h)
  · exact hdel ms h

theorem taskOnoff_accounts (hI : Accounts made I) {id : TaskId} {onoff : Bool}
    (hkeep : onoff = false → ∀ ti, ms.tasks.find? id = some ti → ti.offloading →
      ∀ i queue, ti.inputQueues[i]? = some queue → ti.keepsDeleted i → ∀ held k,
        I (queue.toList ++ held) k → I (queue.toList ++ held) (k.deleteQueue queue))
    (h : I (handles ms) ms.kernel) :
    I (handles (taskOnoffWith made ms id onoff).1) (taskOnoffWith made ms id onoff).1.kernel := by
  have hselect : ∀ ms' : MicroService, I (handles ms') ms'.kernel →
      I (handles (setOutputConnectLine ms')) (setOutputConnectLine ms').kernel := by
    intro ms' h
    rwa [(setOutputConnectLine_handles ms').1, (setOutputConnectLine_handles ms').2]
  have hactive : handles (ms.updateTask id setActive) = handles ms := by
    unfold handles MicroService.updateTask
    rw [List.flatMap_def, List.flatMap_def,
      TaskList.map_update TaskInfo.handles ms.tasks id setActive fun _ => rfl]
  unfold taskOnoffWith
  split
  · exact h
  rename_i ti hti
  split
  · exact h
  rename_i hoff
  have hoff : ti.offloading = true := by simpa using hoff
  cases onoff with
  | true =>
    rw [if_pos rfl]
    split
    · exact h
    · refine hselect _ ?_
      rw [hactive]
      exact h
  | false =>
    rw [if_neg Bool.false_ne_true]
    refine hselect _ (onTask_accounts hI (fun t ht held h => ?_) h)
    rw [hti] at ht
    cases ht
    exact offTask_accounts hI (hkeep rfl ti hti hoff) h
end

end IoTware.Micro
