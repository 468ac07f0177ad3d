import IoTware.Micro.Report

/-!
# The structure of a microservice over its life

A microservice that is not ready has nothing, and any other has what one run of
its callback makes. What breaks this is a report: it runs the callback once more
on a microservice that was created or stopped, and deletes the nodes that an
8-bit counter counts.
-/

namespace IoTware.Micro

open CText LwMsg DecisionTree Runs

structure TaskDesign where
  id : TaskId
  name : Text
  taskFn : TaskFn
  taskIdx : Nat
  hasInitFn : Bool
  inputCount : UInt32
  outputCount : UInt32
  userParams : List Parameter
  staticParams : List Parameter
  lwmsgInputPort : Option Nat
  offloading : Bool
  addTaskList : Bool
  deriving DecidableEq

def TaskInfo.design (ti : TaskInfo) : TaskDesign where
  id := ti.id
  name := ti.name
  taskFn := ti.taskFn
  taskIdx := ti.taskIdx
  hasInitFn := ti.hasInitFn
  inputCount := ti.inputCount
  outputCount := ti.outputCount
  userParams := ti.userParams
  staticParams := ti.staticParams
  lwmsgInputPort := ti.lwmsgInputPort
  offloading := ti.offloading
  addTaskList := ti.addTaskList

structure Build where
  create : List CreateCall
  tasks : List TaskDesign
  inputParams : List Parameter
  connectLines : List ConnectLine
  taskLinkHead : TaskLink
  deriving DecidableEq

def build (ms : MicroService) : Build where
  create := ms.create
  tasks := ms.tasks.nodes.map TaskInfo.design
  inputParams := ms.inputParams
  connectLines := ms.connectLines
  taskLinkHead := ms.taskLinkHead

structure Empty (ms : MicroService) : Prop where
  tasks : ms.tasks.nodes = []
  inputParams : ms.inputParams = []
  connectLines : ms.connectLines = []
  taskLinkHead : ms.taskLinkHead = .nil
  currentTaskLink : ms.currentTaskLink = none

def BuiltOnce (ms : MicroService) : Prop :=
  ∃ base, Empty base ∧ base.create = ms.create ∧ build ms = build base.runCreate

def Structured (ms : MicroService) : Prop :=
  if ms.state = .notReady then Empty ms else BuiltOnce ms

-- ---------------------------------------------------------------------------
-- The sizes of the lists
-- ---------------------------------------------------------------------------

/-- The names and the ports of the tasks, and the numbers of input parameters
and connect lines. -/
structure Tally where
  tasks : List (Text × UInt32 × UInt32)
  params : Nat
  lines : Nat

def Tally.zero : Tally := ⟨[], 0, 0⟩

def Build.tally (b : Build) : Tally where
  tasks := b.tasks.map fun task => (task.name, task.inputCount, task.outputCount)
  params := b.inputParams.length
  lines := b.connectLines.length

def Tally.ports (t : Tally) (name : Text) : Option (UInt32 × UInt32) :=
  if name = [] then none else (t.tasks.find? fun task => name = task.1).map Prod.snd

def tallyStep (t : Tally) : CreateCall → Tally
  | .addNewTask config =>
    if config.rejected then t
    else { t with tasks := (config.name.take 30, config.inputCount, config.outputCount) :: t.tasks }
  | .addMsInputParam _ => { t with params := t.params + 1 }
  | .addConnectLine start outputPort dest inputPort =>
    match t.ports start, t.ports dest with
    | some (_, outputCount), some (inputCount, _) =>
      if outputCount < outputPort + 1 ∨ inputCount < inputPort + 1 then t
      else { t with lines := t.lines + 1 }
    | _, _ => t
  | .makeTaskLinks | .setConnectLink .. => t

/-- What the callback makes of an empty microservice, and what of that one when
it is run again. -/
def made (create : List CreateCall) : Tally := create.foldl tallyStep .zero

def madeTwice (create : List CreateCall) : Tally := create.foldl tallyStep (made create)

structure Tally.Countable (t : Tally) : Prop where
  tasks : t.tasks.length < 256
  params : t.params < 256
  lines : t.lines < 256

-- ---------------------------------------------------------------------------
-- What the callback makes
-- ---------------------------------------------------------------------------

theorem build_updateTask {f : TaskUpdate} (hf : ∀ ti, (f.apply ti).design = ti.design)
    (ms : MicroService) (id : TaskId) : build (ms.updateTask id f) = build ms :=
  congrArg (fun tasks => { build ms with tasks := tasks }) (TaskList.map_update _ ms.tasks id f hf)

theorem build_onTask {op : TaskOp} (hop : ∀ ti k, (op.run ti k).1.design = ti.design)
    (ms : MicroService) (id : TaskId) : build (ms.onTask id op) = build ms := by
  unfold MicroService.onTask
  split
  · rfl
  · exact build_updateTask (fun ti => hop ti ms.kernel) ms id

theorem tally_addNewTask (ms : MicroService) (config : TaskConfig) :
    (build (addNewTask ms config)).tally = tallyStep (build ms).tally (.addNewTask config) := by
  unfold addNewTask
  split
  · rename_i h
    refine Eq.trans ?_ (if_neg (by rw [h]; exact Bool.false_ne_true)).symm
    dsimp only
    split
    · rfl
    · rw [build_onTask (fun _ _ => rfl)]
      rfl
  · rename_i h
    exact (if_pos (Bool.eq_true_of_not_eq_false h)).symm

theorem ports_build (ms : MicroService) (name : Text) :
    (build ms).tally.ports name =
      (getTaskInfoByName ms name).map fun ti => (ti.inputCount, ti.outputCount) := by
  unfold Tally.ports getTaskInfoByName Build.tally build
  split
  · rfl
  · rw [List.map_map, List.find?_map, Option.map_map]
    rfl

theorem tally_addConnectLine (ms : MicroService) (start dest : Text) (outputPort inputPort : UInt32) :
    (build (addConnectLine ms start outputPort dest inputPort).1).tally =
      tallyStep (build ms).tally (.addConnectLine start outputPort dest inputPort) := by
  unfold addConnectLine tallyStep
  dsimp only
  rw [ports_build, ports_build]
  cases getTaskInfoByName ms start with
  | none => rfl
  | some startTask =>
    cases getTaskInfoByName ms dest with
    | none => rfl
    | some destTask =>
      dsimp only [Option.map_some]
      split <;> rfl

theorem tally_createStep (s : MicroService × List (Option ConnectLine)) (call : CreateCall) :
    (build (createStep s call).1).tally = tallyStep (build s.1).tally call := by
  cases call with
  | addNewTask config => exact tally_addNewTask s.1 config
  | addMsInputParam param => rfl
  | addConnectLine start outputPort dest inputPort =>
    exact tally_addConnectLine s.1 start dest outputPort inputPort
  | makeTaskLinks => rfl
  | setConnectLink lines outputName offTasks =>
    unfold createStep setConnectLink
    dsimp only
    split <;> rfl

theorem tally_runCreate (ms : MicroService) :
    (build ms.runCreate).tally = ms.create.foldl tallyStep (build ms).tally := by
  have hfold : ∀ (calls : List CreateCall) s,
      (build (calls.foldl createStep s).1).tally = calls.foldl tallyStep (build s.1).tally := by
    intro calls
    induction calls with
    | nil => intro s; rfl
    | cons call calls ih =>
      intro s
      rw [List.foldl_cons, List.foldl_cons, ih, tally_createStep]
  exact hfold ms.create (ms, [])

theorem Empty.tally (h : Empty ms) : (build ms).tally = .zero := by
  unfold Build.tally build
  rw [h.tasks, h.inputParams, h.connectLines]
  rfl

theorem BuiltOnce.tally (h : BuiltOnce ms) : (build ms).tally = made ms.create := by
  obtain ⟨base, hempty, hcreate, hbuild⟩ := h
  rw [hbuild, tally_runCreate, hempty.tally, hcreate]
  rfl

theorem Structured.countable (h : Structured ms) (hmade : (made ms.create).Countable) :
    (build ms).tally.Countable := by
  unfold Structured at h
  split at h
  · rw [h.tally]
    exact ⟨by decide, by decide, by decide⟩
  · rw [h.tally]
    exact hmade

-- ---------------------------------------------------------------------------
-- The operations
-- ---------------------------------------------------------------------------

theorem Empty.builtOnce (h : Empty ms) (state : StateType) :
    BuiltOnce { ms.runCreate with state := state } :=
  ⟨ms, h, (runCreate_create ms).symm, rfl⟩

theorem empty_delMicroService_iff (ms : MicroService) :
    Empty (delMicroService ms).1 ↔ (build ms).tally.Countable := by
  obtain ⟨htasks, hparams, hlines⟩ := delMicroService_lists ms
  have hlength : (build ms).tally.tasks.length = ms.tasks.nodes.length := by
    simp [Build.tally, build]
  constructor
  · rintro ⟨htasks', hparams', hlines', -, -⟩
    rw [htasks] at htasks'
    rw [hparams] at hparams'
    rw [hlines] at hlines'
    refine ⟨?_, foreachToDel_eq_nil_iff.mp hparams', foreachToDel_eq_nil_iff.mp hlines'⟩
    rw [hlength]
    exact foreachToDel_eq_nil_iff.mp htasks'
  · rintro ⟨hltTasks, hltParams, hltLines⟩
    rw [hlength] at hltTasks
    refine ⟨?_, ?_, ?_, rfl, rfl⟩
    · rw [htasks]
      exact foreachToDel_of_lt hltTasks
    · rw [hparams]
      exact foreachToDel_of_lt hltParams
    · rw [hlines]
      exact foreachToDel_of_lt hltLines

theorem build_stopTask (ms : MicroService) : build (stopTask ms).1 = build ms :=
  stopTask_frame build (fun _ _ => rfl) ms

theorem build_setOutputConnectLine (ms : MicroService) :
    build (setOutputConnectLine ms) = build ms := by
  refine setOutputConnectLine_frame build ?_ (fun _ _ _ => rfl) ms
  intro ms line
  exact build_updateTask (setPort_frame (fun _ _ _ => rfl) line) ms line.startTask

theorem build_withNodes (ms : MicroService) (state : StateType) (kernel : Kernel)
    {nodes : List TaskInfo} (hids : nodes.map TaskInfo.id = ms.tasks.nodes.map TaskInfo.id)
    (h : nodes.map TaskInfo.design = ms.tasks.nodes.map TaskInfo.design) :
    build { ms with state := state, tasks := ms.tasks.withNodes nodes hids, kernel := kernel } =
      build ms :=
  congrArg (fun tasks => { build ms with tasks := tasks }) h

theorem build_startTasks (inits : Inits) (ms : MicroService) :
    build (startTasks inits ms).1 = build ms :=
  build_withNodes ms .running _ _
    (runTasks_map (runTask_frame (fun _ _ _ _ => rfl) (fun _ _ _ => rfl) false) inits _ _)

theorem build_runMicroService (h : runMicroService inits ms = .ok (ms', ok)) :
    build ms' = build ms := by
  rcases runMicroService_cases h with ⟨-, -, -, rfl⟩ | ⟨-, -, -, rfl⟩ | ⟨-, -, rfl⟩
  · rw [build_setOutputConnectLine, build_startTasks]
  · rw [build_stopTask, build_startTasks]
  · exact build_withNodes ms .running ms.kernel _ (map_resumeStopped (fun _ _ => rfl) ms.tasks.nodes)

theorem build_taskOnoff (ms : MicroService) (id : TaskId) (onoff : Bool) :
    build (taskOnoff ms id onoff).1 = build ms := by
  unfold taskOnoff
  split
  · rfl
  rename_i ms' hswitch
  rw [build_setOutputConnectLine]
  obtain ⟨ti, -, -, ⟨-, -, rfl⟩ | ⟨-, rfl⟩⟩ := switchTask_some hswitch
  · exact build_updateTask (fun _ => rfl) ms id
  · exact build_onTask (fun _ _ => rfl) ms id

theorem taskOnoff_state (ms : MicroService) (id : TaskId) (onoff : Bool) :
    (taskOnoff ms id onoff).1.state = ms.state :=
  congrArg Prod.fst (shape_taskOnoff ms id onoff)

theorem Structured.congr (h : Structured ms) (hstate : ms'.state = ms.state)
    (hbuild : build ms' = build ms)
    (hlink : Empty ms → ms'.currentTaskLink = ms.currentTaskLink) : Structured ms' := by
  unfold Structured at h ⊢
  rw [hstate]
  split
  · rename_i hnotReady
    rw [if_pos hnotReady] at h
    refine ⟨?_, ?_, ?_, ?_, (hlink h).trans h.currentTaskLink⟩
    · have htasks := congrArg Build.tasks hbuild
      rw [show (build ms).tasks = [] from congrArg (List.map TaskInfo.design) h.tasks] at htasks
      exact List.map_eq_nil_iff.mp htasks
    · exact (congrArg Build.inputParams hbuild).trans h.inputParams
    · exact (congrArg Build.connectLines hbuild).trans h.connectLines
    · exact (congrArg Build.taskLinkHead hbuild).trans h.taskLinkHead
  · rename_i hnot
    rw [if_neg hnot] at h
    obtain ⟨base, hempty, hcreate, hms⟩ := h
    exact ⟨base, hempty, hcreate.trans (congrArg Build.create hbuild).symm, hbuild.trans hms⟩

theorem Structured.moves (h : Structured ms) (hold : ms.state ≠ .notReady)
    (hnew : ms'.state ≠ .notReady) (hbuild : build ms' = build ms) : Structured ms' := by
  unfold Structured at h ⊢
  rw [if_neg hnew]
  rw [if_neg hold] at h
  obtain ⟨base, hempty, hcreate, hms⟩ := h
  exact ⟨base, hempty, hcreate.trans (congrArg Build.create hbuild).symm, hbuild.trans hms⟩

theorem structured_run (h : Structured ms) (inits : Inits) :
    Structured (lifecycleStep ms (.run inits)) := by
  unfold lifecycleStep
  dsimp only
  cases hrun : runMicroService inits ms with
  | error => exact h
  | ok p =>
    refine h.moves ?_ ?_ (build_runMicroService hrun)
    · rcases runMicroService_cases hrun with ⟨hstate, -⟩ | ⟨hstate, -⟩ | ⟨hstate, -⟩ <;>
        rw [hstate] <;> decide
    · rcases runMicroService_state hrun with hstate | hstate <;> rw [hstate] <;> decide

theorem structured_stopTask (h : Structured ms) : Structured (stopTask ms).1 := by
  have hbuild := build_stopTask ms
  unfold stopTask at hbuild ⊢
  split
  · rename_i hstate
    rw [if_pos hstate] at hbuild
    refine h.moves ?_ (fun h => nomatch h) hbuild
    rcases hstate with hstate | hstate <;> rw [hstate] <;> decide
  · exact h

theorem structured_updateTask {f : TaskUpdate} (hf : ∀ ti, (f.apply ti).design = ti.design)
    (h : Structured ms) (id : TaskId) : Structured (ms.updateTask id f) :=
  h.congr rfl (build_updateTask hf ms id) fun _ => rfl

theorem structured_taskOnoff (h : Structured ms) (id : TaskId) (onoff : Bool) :
    Structured (taskOnoff ms id onoff).1 := by
  refine h.congr (taskOnoff_state ms id onoff) (build_taskOnoff ms id onoff) ?_
  intro hempty
  have hnone : switchTask ms id onoff = none := by
    unfold switchTask TaskList.find?
    rw [hempty.tasks]
    rfl
  unfold taskOnoff
  rw [hnone]

theorem structured_delMicroService (h : (build ms).tally.Countable) :
    Structured (delMicroService ms).1 := by
  unfold Structured
  exact (if_pos rfl).mpr ((empty_delMicroService_iff ms).mpr h)

theorem structured_lifecycleStep (hmade : (made ms.create).Countable) (h : Structured ms)
    (e : LifecycleEvent) : Structured (lifecycleStep ms e) := by
  cases e with
  | create =>
    obtain ⟨hstate, hcreate⟩ | hcreate := lifecycleStep_create ms <;> rw [hcreate]
    · unfold Structured at h ⊢
      rw [if_pos hstate] at h
      exact (if_neg fun h => nomatch h).mpr (h.builtOnce .created)
    · exact h
  | run inits => exact structured_run h inits
  | stopMs =>
    have hempty := (empty_delMicroService_iff ms).mpr (h.countable hmade)
    unfold Structured
    exact (if_neg fun h => nomatch h).mpr (hempty.builtOnce .created)
  | stopTask => exact structured_stopTask h
  | del => exact structured_delMicroService (h.countable hmade)
  | onoff id onoff => exact structured_taskOnoff h id onoff
  | taskState id state =>
    exact structured_updateTask (setTaskState_frame (fun _ _ => rfl) state) h id
  | outputValue type value => exact h.congr rfl rfl fun _ => rfl
  | paramSet id params => exact structured_updateTask (fun _ => rfl) h id
  | outputRead dri => exact h.congr rfl rfl fun _ => rfl

-- ---------------------------------------------------------------------------
-- Reports
-- ---------------------------------------------------------------------------

def Idle (ms : MicroService) : Prop := ms.state = .created ∨ ms.state = .stopped

theorem structured_reported_iff (hmade : (made ms.create).Countable) (h : Structured ms) :
    Structured (reported ms) ↔ (Idle ms → (madeTwice ms.create).Countable) := by
  have hdel : Structured (delMicroService ms.runCreate).1 ↔
      (ms.create.foldl tallyStep (build ms).tally).Countable := by
    rw [← tally_runCreate, ← empty_delMicroService_iff]
    exact iff_of_eq (if_pos rfl)
  have hbuilt : ms.state ≠ .notReady → (build ms).tally = made ms.create := by
    intro hstate
    unfold Structured at h
    rw [if_neg hstate] at h
    exact h.tally
  have hidle : ms.state ≠ .running → reported ms = (delMicroService ms.runCreate).1 :=
    fun h => if_neg h
  unfold Idle
  cases hstate : ms.state with
  | running =>
    refine iff_of_true ?_ ?_
    · unfold reported
      rw [if_pos hstate]
      exact h
    · rintro (h | h) <;> cases h
  | notReady =>
    rw [hidle (by rw [hstate]; exact fun h => nomatch h), hdel]
    refine iff_of_true ?_ ?_
    · unfold Structured at h
      rw [if_pos hstate] at h
      rw [h.tally]
      exact hmade
    · rintro (h | h) <;> cases h
  | created =>
    rw [hidle (by rw [hstate]; exact fun h => nomatch h), hdel,
      hbuilt (by rw [hstate]; exact fun h => nomatch h)]
    exact ⟨fun h _ => h, fun h => h (.inl rfl)⟩
  | stopped =>
    rw [hidle (by rw [hstate]; exact fun h => nomatch h), hdel,
      hbuilt (by rw [hstate]; exact fun h => nomatch h)]
    exact ⟨fun h _ => h, fun h => h (.inr rfl)⟩

-- ---------------------------------------------------------------------------
-- Runs
-- ---------------------------------------------------------------------------

theorem create_lifecycleStep (ms : MicroService) (e : LifecycleEvent) :
    (lifecycleStep ms e).create = ms.create := by
  have hdel : (delMicroService ms).1.create = ms.create := by
    unfold delMicroService
    dsimp only
    split
    · exact congrArg Build.create (build_stopTask ms)
    · rfl
  cases e with
  | create =>
    obtain ⟨-, hcreate⟩ | hcreate := lifecycleStep_create ms <;> rw [hcreate]
    exact runCreate_create ms
  | run inits =>
    unfold lifecycleStep
    dsimp only
    cases hrun : runMicroService inits ms with
    | error => rfl
    | ok p => exact congrArg Build.create (build_runMicroService hrun)
  | stopMs => exact (runCreate_create _).trans hdel
  | stopTask => exact congrArg Build.create (build_stopTask ms)
  | del => exact hdel
  | onoff id onoff => exact congrArg Build.create (build_taskOnoff ms id onoff)
  | taskState | outputValue | paramSet | outputRead => rfl

theorem create_reported (ms : MicroService) : (reported ms).create = ms.create := by
  unfold reported
  split
  · rfl
  · exact (create_lifecycleStep ms.runCreate .del).trans (runCreate_create ms)

/-- No report comes while a microservice is idle whose callback makes more than
can be counted when it is run twice. -/
def ReportFits (services : List MicroService) : ServicesEvent → Prop
  | .service .. => True
  | .report => ∀ ms ∈ services, Idle ms → (madeTwice ms.create).Countable

theorem countable_servicesStep (e : ServicesEvent)
    (h : ∀ ms ∈ services, (made ms.create).Countable) :
    ∀ ms ∈ servicesStep services e, (made ms.create).Countable := by
  cases e with
  | service i e =>
    refine forall_mem_modify (fun ms _ h => ?_) h i
    rw [create_lifecycleStep]
    exact h
  | report =>
    refine List.forall_mem_map.mpr fun ms hms => ?_
    rw [create_reported]
    exact h ms hms

theorem structured_servicesStep_iff (hmade : ∀ ms ∈ services, (made ms.create).Countable)
    (h : ∀ ms ∈ services, Structured ms) (e : ServicesEvent) :
    (∀ ms ∈ servicesStep services e, Structured ms) ↔ ReportFits services e := by
  cases e with
  | service i e =>
    refine iff_of_true ?_ trivial
    exact forall_mem_modify (fun ms hms h => structured_lifecycleStep (hmade ms hms) h e) h i
  | report =>
    refine List.forall_mem_map.trans (forall₂_congr fun ms hms => ?_)
    exact structured_reported_iff (hmade ms hms) (h ms hms)

/-- In every run all microservices have the structure that their states say
exactly if every report fits. -/
theorem structure_iff (hrun : ServicesRun services₀ run services) (h₀ : Registered services₀)
    (hmade : ∀ ms ∈ services₀, (made ms.create).Countable) :
    (∀ t ∈ visited run services, ∀ ms ∈ t, Structured ms) ↔ ∀ x ∈ run, ReportFits x.1 x.2 := by
  refine hrun.always_iff (I := fun t => ∀ ms ∈ t, (made ms.create).Countable) hmade ?_ ?_ ?_
  · intro ms hms
    obtain ⟨msId, create, rfl⟩ := h₀ ms hms
    exact (if_pos rfl).mpr ⟨rfl, rfl, rfl, rfl, rfl⟩
  · rintro t e _ h rfl
    exact countable_servicesStep e h
  · rintro t e _ hmade h rfl
    exact structured_servicesStep_iff hmade h e

def sampleInputs : MicroService :=
  makeMicroService "101".toList
    (List.replicate 128 (.addMsInputParam ⟨"a".toList, [], .int8, [0]⟩))

/-- The report makes them again, and then none is counted. -/
theorem report_leaves_params :
    ¬ ∀ services₀ run services, ServicesRun services₀ run services → Registered services₀ →
      (∀ ms ∈ services₀, (made ms.create).Countable) →
      ∀ ms ∈ services, Structured ms := by
  intro h
  have hrun := run_trace servicesStep [sampleInputs] [.service 0 .create, .report]
  have h₀ : Registered [sampleInputs] := by
    intro ms hms
    exact ⟨_, _, List.mem_singleton.mp hms⟩
  have hmade : ∀ ms ∈ [sampleInputs], (made ms.create).Countable := by
    intro ms hms
    rw [List.mem_singleton.mp hms]
    exact ⟨by decide +kernel, by decide +kernel, by decide +kernel⟩
  have hall := h _ _ _ hrun h₀ hmade _ List.mem_cons_self
  have hempty : Empty _ := (if_pos (by decide +kernel)).mp hall
  exact absurd hempty.inputParams (by decide +kernel)

theorem sensor_structured :
    Structured (lifecycleStep (reported (lifecycleStep sampleSensor .create)) .stopMs) := by
  have hrun := run_trace servicesStep [sampleSensor] [.service 0 .create, .report, .service 0 .stopMs]
  have h₀ : Registered [sampleSensor] := by
    intro ms hms
    exact ⟨_, _, List.mem_singleton.mp hms⟩
  have hmade : ∀ ms ∈ [sampleSensor], (made ms.create).Countable := by
    intro ms hms
    rw [List.mem_singleton.mp hms]
    exact ⟨by decide, by decide, by decide⟩
  refine (structure_iff hrun h₀ hmade).mpr ?_ _ (List.mem_append_right _ List.mem_cons_self) _
    List.mem_cons_self
  intro x hx
  simp only [trace, List.mem_cons, List.not_mem_nil, or_false] at hx
  obtain rfl | rfl | rfl := hx
  · trivial
  · intro ms hms _
    obtain rfl := List.mem_singleton.mp hms
    exact ⟨by decide, by decide, by decide⟩
  · trivial

end IoTware.Micro
