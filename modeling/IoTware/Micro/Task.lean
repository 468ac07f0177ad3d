import Mathlib.Data.List.Nodup
import IoTware.Lib.DecisionTree
import IoTware.Micro.Parameter

/-!
# Tasks and microservices

The structures of `iw_fw_microservices.h`, with the fields the modelled
functions use. A task is known by the address it was allocated at, its `id`;
a kernel queue or task by its handle. The kernel calls a microservice makes are
logged.
-/

namespace IoTware.Micro

open CText LwMsg DecisionTree

/-- `enum eSTATE_TYPE`; `WAITING` is `CREATED`. -/
inductive StateType
  | notReady | created | stopped | running
  deriving DecidableEq

/-- `I_S_ACTIVE`, `I_S_READY` and `I_S_STOP` share the values of the states. -/
abbrev StateType.iSActive : StateType := .notReady
abbrev StateType.iSReady : StateType := .created
abbrev StateType.iSStop : StateType := .stopped

def StateType.isActive : StateType → Bool
  | .created | .running => true
  | .notReady | .stopped => false

abbrev TaskId := Nat

abbrev Handle := Nat

inductive TaskFn
  | baseTaskType1 | baseTaskType2 | baseTaskType3 | baseTaskType4 | other
  deriving DecidableEq

structure ConnectLine where
  startTask : TaskId
  outputPortNo : UInt32
  destTask : TaskId
  inputPortNo : UInt32
  deriving DecidableEq

/-- `struct stTaskInfo`. The arrays have the lengths they were allocated with,
and the port for messages, if there is one, is in range. -/
structure TaskInfo where
  id : TaskId
  name : Text
  taskT : Option Handle
  taskFn : TaskFn
  taskIdx : Nat
  hasInitFn : Bool
  inputCount : UInt32
  outputCount : UInt32
  inputQueues : List (Option Handle)
  outputPorts : List (Option ConnectLine)
  inputItemSize : Nat
  outputItemSize : Nat
  userParams : List Parameter
  staticParams : List Parameter
  flexibleParams : List Parameter
  lwmsgInputPort : Option Nat
  initialState : StateType
  offloading : Bool
  addTaskList : Bool
  state : StateType
  queues_length : inputQueues.length = inputCount.toNat
  ports_length : outputPorts.length = outputCount.toNat
  lwmsg_lt : ∀ p ∈ lwmsgInputPort, p < inputCount.toNat
  deriving DecidableEq

def TaskInfo.initialOnoff (ti : TaskInfo) : Bool := ti.initialState ≠ .iSStop

/-- What a leaf of the link tree holds: `connect_link_head`, whose nodes may
hold NULL, and `output_param_name`. -/
structure LinkInfo where
  connectLinkHead : Option (List (Option ConnectLine))
  outputParamName : Text
  deriving DecidableEq

def LinkInfo.zero : LinkInfo := ⟨none, []⟩

/-- `struct stTaskLink`; the task of a node may be NULL. -/
abbrev TaskLink := Tree (Option TaskId) LinkInfo

inductive KernelCall
  | createQueue (h : Handle) | deleteQueue (h : Handle)
  | createTask (h : Handle) | deleteTask (h : Handle)
  | suspendTask (h : Handle) | resumeTask (h : Handle)
  | sendQueue (h : Handle)
  deriving DecidableEq

/-- The handles given out so far and the calls made, the last one first. -/
structure Kernel where
  next : Handle
  calls : List KernelCall
  deriving DecidableEq

def Kernel.call (k : Kernel) (c : KernelCall) : Kernel := { k with calls := c :: k.calls }

def Kernel.createQueue (k : Kernel) : Handle × Kernel :=
  (k.next, { next := k.next + 1, calls := .createQueue k.next :: k.calls })

def Kernel.createTask (k : Kernel) : Handle × Kernel :=
  (k.next, { next := k.next + 1, calls := .createTask k.next :: k.calls })

def Kernel.deleteQueue (k : Kernel) (h : Option Handle) : Kernel :=
  h.elim k fun h => k.call (.deleteQueue h)

def Kernel.deleteTask (k : Kernel) (h : Option Handle) : Kernel :=
  h.elim k fun h => k.call (.deleteTask h)

-- ---------------------------------------------------------------------------
-- Task lists
-- ---------------------------------------------------------------------------

/-- The tasks of a microservice, from the head on. No two are at one address. -/
structure TaskList where
  nodes : List TaskInfo
  next : TaskId
  distinct : (nodes.map TaskInfo.id).Nodup
  below : ∀ ti ∈ nodes, ti.id < next
  deriving DecidableEq

def TaskList.empty : TaskList := ⟨[], 0, List.nodup_nil, by simp⟩

structure TaskUpdate where
  apply : TaskInfo → TaskInfo
  id_apply : ∀ ti, (apply ti).id = ti.id

def TaskList.update (ts : TaskList) (id : TaskId) (f : TaskUpdate) : TaskList where
  nodes := ts.nodes.map fun ti => if ti.id = id then f.apply ti else ti
  next := ts.next
  distinct := by
    have hid : (fun ti => (if ti.id = id then f.apply ti else ti).id) = TaskInfo.id := by
      funext ti
      split
      · exact f.id_apply ti
      · rfl
    rw [List.map_map]
    simpa only [Function.comp_def, hid] using ts.distinct
  below := by
    intro ti hti
    obtain ⟨ti', hti', rfl⟩ := List.mem_map.mp hti
    have hlt := ts.below ti' hti'
    split
    · rw [f.id_apply]; exact hlt
    · exact hlt

def TaskList.add (ts : TaskList) (make : TaskId → TaskInfo) (hid : ∀ id, (make id).id = id) :
    TaskList where
  nodes := make ts.next :: ts.nodes
  next := ts.next + 1
  distinct := by
    rw [List.map_cons, List.nodup_cons, hid]
    refine ⟨?_, ts.distinct⟩
    intro hmem
    obtain ⟨ti, hti, heq⟩ := List.mem_map.mp hmem
    exact absurd (ts.below ti hti) (heq ▸ Nat.lt_irrefl _)
  below := by
    intro ti hti
    rcases List.mem_cons.mp hti with rfl | hti
    · rw [hid]; exact Nat.lt_succ_self _
    · exact Nat.lt_succ_of_lt (ts.below ti hti)

def TaskList.foreachToDel (ts : TaskList) : TaskList where
  nodes := IoTware.foreachToDel ts.nodes
  next := ts.next
  distinct := ((List.drop_sublist _ _).map _).nodup ts.distinct
  below := fun ti hti => ts.below ti (List.mem_of_mem_drop hti)

def TaskList.find? (ts : TaskList) (id : TaskId) : Option TaskInfo :=
  ts.nodes.find? fun ti => ti.id = id

theorem TaskList.find?_of_mem (ts : TaskList) (h : ti ∈ ts.nodes) : ts.find? ti.id = some ti := by
  unfold TaskList.find?
  obtain ⟨ti', hti'⟩ : ∃ ti', ts.nodes.find? (fun t => t.id = ti.id) = some ti' := by
    rw [← Option.isSome_iff_exists, List.find?_isSome]
    exact ⟨ti, h, by simp⟩
  have hid : ti'.id = ti.id := by simpa using List.find?_some hti'
  rw [hti', List.inj_on_of_nodup_map ts.distinct (List.mem_of_find?_eq_some hti') h hid]

theorem TaskList.mem_of_find? {ts : TaskList} {id : TaskId} (h : ts.find? id = some ti) :
    ti ∈ ts.nodes ∧ ti.id = id :=
  ⟨List.mem_of_find?_eq_some h, by simpa using List.find?_some h⟩

theorem TaskList.mem_update {ts : TaskList} {id : TaskId} (f : TaskUpdate)
    (h : ts.find? id = some ti) : f.apply ti ∈ (ts.update id f).nodes := by
  obtain ⟨hti, hid⟩ := mem_of_find? h
  exact List.mem_map.mpr ⟨ti, hti, if_pos hid⟩

theorem TaskList.forall_update {ts : TaskList} {id : TaskId} {f : TaskUpdate} {P : TaskInfo → Prop}
    (h : ∀ ti ∈ ts.nodes, ti.id ≠ id → P ti) (hf : ∀ ti ∈ ts.find? id, P (f.apply ti)) :
    ∀ ti ∈ (ts.update id f).nodes, P ti := by
  intro t ht
  obtain ⟨ti, hti, rfl⟩ := List.mem_map.mp ht
  split
  · rename_i hid
    exact hf ti (hid ▸ ts.find?_of_mem hti)
  · rename_i hid
    exact h ti hti hid

theorem TaskList.find?_map_congr {α : Type} {g : TaskInfo → α} {ts ts' : TaskList}
    (h : ts'.nodes.map (fun ti => (ti.id, g ti)) = ts.nodes.map fun ti => (ti.id, g ti))
    (id : TaskId) : (ts'.find? id).map g = (ts.find? id).map g := by
  have hview : ∀ tis : List TaskInfo, (tis.find? fun ti => ti.id = id).map g =
      ((tis.map fun ti => (ti.id, g ti)).find? fun p => p.1 = id).map Prod.snd := by
    intro tis
    rw [List.find?_map, Option.map_map]
    rfl
  unfold find?
  rw [hview, hview, h]

theorem TaskList.find?_update {ts : TaskList} {id : TaskId} (f : TaskUpdate) (h : ts.find? id = some ti) :
    (ts.update id f).find? id = some (f.apply ti) := by
  have hid : (f.apply ti).id = id := (f.id_apply ti).trans (mem_of_find? h).2
  have hfind := find?_of_mem _ (mem_update f h)
  rwa [hid] at hfind

theorem TaskList.find?_update_ne {ts : TaskList} {id other : TaskId} (f : TaskUpdate) (h : other ≠ id) :
    (ts.update id f).find? other = ts.find? other := by
  have hother : ∀ tis : List TaskInfo,
      (tis.map fun ti => if ti.id = id then f.apply ti else ti).find? (fun ti => ti.id = other) =
        tis.find? fun ti => ti.id = other := by
    intro tis
    induction tis with
    | nil => rfl
    | cons ti tis ih =>
      rw [List.map_cons, List.find?_cons, List.find?_cons, ih]
      by_cases hid : ti.id = id
      · rw [if_pos hid, f.id_apply, hid, decide_eq_false (Ne.symm h)]
      · rw [if_neg hid]
  exact hother ts.nodes

theorem TaskList.update_split {ts : TaskList} {id : TaskId} (h : ts.find? id = some ti) :
    ∃ before after, ts.nodes = before ++ ti :: after ∧
      ∀ f : TaskUpdate, (ts.update id f).nodes = before ++ f.apply ti :: after := by
  obtain ⟨hti, rfl⟩ := mem_of_find? h
  obtain ⟨before, after, heq⟩ := List.append_of_mem hti
  have hdistinct := ts.distinct
  rw [heq, List.map_append, List.map_cons, List.nodup_append, List.nodup_cons] at hdistinct
  obtain ⟨-, ⟨hafter, -⟩, hbefore⟩ := hdistinct
  have hkeep : ∀ (f : TaskUpdate) (tis : List TaskInfo), ti.id ∉ tis.map TaskInfo.id →
      tis.map (fun t => if t.id = ti.id then f.apply t else t) = tis := by
    intro f tis hnot
    refine (List.map_congr_left fun t ht => ?_).trans (List.map_id tis)
    exact if_neg fun hid : t.id = ti.id => hnot (hid ▸ List.mem_map_of_mem ht)
  refine ⟨before, after, heq, fun f => ?_⟩
  unfold update
  dsimp only
  rw [heq, List.map_append, List.map_cons, if_pos rfl, hkeep f after hafter, hkeep f before]
  exact fun hmem => hbefore _ hmem _ List.mem_cons_self rfl

theorem TaskList.map_update_find? {α : Type} (g : TaskInfo → α) {ts : TaskList} {id : TaskId}
    {f : TaskUpdate} (hf : ∀ ti ∈ ts.find? id, g (f.apply ti) = g ti) :
    (ts.update id f).nodes.map g = ts.nodes.map g := by
  unfold update
  dsimp only
  rw [List.map_map]
  refine List.map_congr_left fun ti hti => ?_
  dsimp only [Function.comp_apply]
  split
  · rename_i hid
    exact hf ti (hid ▸ ts.find?_of_mem hti)
  · rfl

theorem TaskList.map_update {α : Type} (g : TaskInfo → α) (ts : TaskList) (id : TaskId)
    (f : TaskUpdate) (hf : ∀ ti, g (f.apply ti) = g ti) :
    (ts.update id f).nodes.map g = ts.nodes.map g :=
  map_update_find? g fun ti _ => hf ti

theorem TaskList.update_eq_self {ts : TaskList} {id : TaskId} {f : TaskUpdate}
    (hf : ∀ ti ∈ ts.find? id, f.apply ti = ti) : ts.update id f = ts := by
  have hnodes : (ts.update id f).nodes = ts.nodes := by
    have hmap := map_update_find? (fun ti => ti) hf
    rwa [List.map_id'', List.map_id''] at hmap <;> exact fun _ => rfl
  cases ts
  unfold update at hnodes ⊢
  congr 1

theorem TaskList.update_add (ts : TaskList) (make : TaskId → TaskInfo) (hid : ∀ id, (make id).id = id)
    (f : TaskUpdate) :
    ((ts.add make hid).update ts.next f).nodes = f.apply (make ts.next) :: ts.nodes := by
  have hrest : ts.nodes.map (fun ti => if ti.id = ts.next then f.apply ti else ti) = ts.nodes := by
    refine (List.map_congr_left fun ti hti => ?_).trans (List.map_id _)
    exact if_neg (Nat.ne_of_lt (ts.below ti hti))
  unfold update add
  dsimp only
  rw [List.map_cons, hrest]
  congr 1
  exact if_pos (hid _)

-- ---------------------------------------------------------------------------
-- Microservices
-- ---------------------------------------------------------------------------

/-- The arguments of `add_new_task` and what the rest of its `ADD_NEW_TASK`
block sets. -/
structure TaskConfig where
  name : Text
  taskFn : TaskFn
  hasInitFn : Bool
  inputCount : UInt32
  outputCount : UInt32
  lwmsgInput : Int32
  itemSizes : Option (Nat × Nat)
  userParams : List Parameter
  staticParams : List Parameter
  flexibleParams : List Parameter
  offloading : Bool
  addTaskList : Bool
  initialOn : Bool
  /-- The block writes a value through `__self` that a new task has anyway. -/
  writesDefault : Bool
  deriving DecidableEq

/-- A call of the generated `create` callback. A connect line is known by the
number of its `ADD_CONNECT_LINE`. -/
inductive CreateCall
  | addNewTask (config : TaskConfig)
  | addMsInputParam (param : Parameter)
  | addConnectLine (start : Text) (outputPort : UInt32) (dest : Text) (inputPort : UInt32)
  | makeTaskLinks
  | setConnectLink (lines : List Nat) (outputName : Text) (offTasks : List Text)
  deriving DecidableEq

/-- The `output_param` of a microservice; `none` is a NULL value. -/
structure OutputParam where
  name : Text
  type : ParamType
  value : Option (List UInt8)
  deriving DecidableEq

/-- `struct stMicroServiceInfo`. The link tree has no addresses: a pointer to
one of its nodes is the path to it. -/
structure MicroService where
  msId : Text
  create : List CreateCall
  tasks : TaskList
  taskLinkHead : TaskLink
  currentTaskLink : Option Path
  connectLines : List ConnectLine
  state : StateType
  latestDri : Text
  inputParams : List Parameter
  outputParam : OutputParam
  kernel : Kernel
  deriving DecidableEq

def makeMicroService (msId : Text) (create : List CreateCall) : MicroService where
  msId := msId.take 30
  create := create
  tasks := .empty
  taskLinkHead := .nil
  currentTaskLink := none
  connectLines := []
  state := .notReady
  latestDri := []
  inputParams := []
  outputParam := ⟨[], .unknown, none⟩
  kernel := ⟨0, []⟩

def MicroService.updateTask (ms : MicroService) (id : TaskId) (f : TaskUpdate) : MicroService :=
  { ms with tasks := ms.tasks.update id f }

def getTaskInfoByName (ms : MicroService) (name : Text) : Option TaskInfo :=
  if name = [] then none else ms.tasks.nodes.find? fun ti => name = ti.name

def getTaskInfoByIdx (ms : MicroService) (index : UInt32) : Option TaskInfo :=
  if nodeNum ms.tasks.nodes < (index + 1).toNat then none
  else ms.tasks.nodes.find? fun ti => ti.taskIdx = index.toNat

end IoTware.Micro
