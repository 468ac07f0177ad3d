import IoTware.LwMsg.Message
import IoTware.Micro.Lifecycle

/-!
# Reports of the microservices

The two messages with the registered microservices and their tasks. For the
report a microservice that is not running is built by its callback, and deleted
again behind it: the callback is run even if it is built already, and what is
left is a microservice that is not ready.
-/

namespace IoTware.Micro

open CText LwMsg DecisionTree Runs Loops

-- ---------------------------------------------------------------------------
-- The messages
-- ---------------------------------------------------------------------------

def initTaskState (ms : MicroService) : Option TaskId → Bool
  | none => false
  | some id => (ms.tasks.find? id).any fun ti => ti.initialState = .iSReady

/-- The element of `mif` for a microservice: its id, and the output of the link
that the initial states select. -/
def microserviceInfo (ms : MicroService) (mif : List LWMObject) :
    Except Fault (List LWMObject) := do
  let result := (ms.taskLinkHead.walk (initTaskState ms)).bind ms.taskLinkHead.payload?
  let dop := addLwmObjectToArray [] (result.map fun link => .string (some link.outputParamName))
  let dmi ← setLwmObject [] "mi".toList (some (.string (some ms.msId)))
  let dmi ← setLwmObject dmi "ops".toList (if nodeNum dop > 0 then some (.array dop) else none)
  return addLwmObjectToArray mif (some (.dictionary dmi))

def paramDict (pf : Platform) (params : List Parameter) : Except Fault LWMDictionary :=
  params.foldlM (fun dict param =>
    setLwmObject dict param.aliasName (newLwmObjectFromTypeValue pf param.type param.value)) []

/-- The element of `tif` for a task: its index, whether it can be switched off,
and its parameters. -/
def taskInfo (pf : Platform) (tif : List LWMObject) (ti : TaskInfo) :
    Except Fault (List LWMObject) := do
  if ti.addTaskList then
    let dsp ← paramDict pf ti.staticParams
    let dfp ← paramDict pf ti.flexibleParams
    let dti ← setLwmObject [] "ti".toList (some (.number (.int32 (Int32.ofNat ti.taskIdx))))
    let dti ← setLwmObject dti "to".toList
      (some (.string (some (if ti.offloading then "TRUE".toList else "FALSE".toList))))
    let dti ← setLwmObject dti "sp".toList
      (if nodeNum dsp > 0 then some (.dictionary dsp) else none)
    let dti ← setLwmObject dti "fp".toList
      (if nodeNum dfp > 0 then some (.dictionary dfp) else none)
    return addLwmObjectToArray tif (some (.dictionary dti))
  else return tif

def tasksInfo (pf : Platform) (ms : MicroService) (tif : List LWMObject) :
    Except Fault (List LWMObject) :=
  ms.tasks.nodes.foldlM (taskInfo pf) tif

/-- The loop over the microservices: one that is not running is built, and
deleted when its elements are in the array. -/
def reportServices (info : MicroService → List LWMObject → Except Fault (List LWMObject)) :
    List MicroService → List LWMObject → Except Fault (List MicroService × List LWMObject)
  | [], items => .ok ([], items)
  | ms :: services, items => do
    let isRunning : Bool := ms.state = .running
    let ms := if isRunning then ms else ms.runCreate
    let items ← info ms items
    let ms := if isRunning then ms else (delMicroService ms).1
    let (services, items) ← reportServices info services items
    return (ms :: services, items)

def makeDeviceInformationLwmsg (services : List MicroService) (interfaceId : UInt32)
    (dri di : Option Text) : Except Fault (List MicroService × LWMessage) := do
  let msg ← newLwmReqMessage interfaceId dri di
  let (services, mif) ← reportServices microserviceInfo services []
  return (services, ← setLwmBodyObject msg "mif".toList (some (.array mif)))

def makeDeviceInformationLwmsg2 (pf : Platform) (services : List MicroService)
    (dri : Option Text) (rsc : UInt32) : Except Fault (List MicroService × LWMessage) := do
  let msg ← newLwmRespMessage dri rsc
  let (services, tif) ← reportServices (tasksInfo pf) services []
  return (services, ← setLwmBodyObject msg "tif".toList (some (.array tif)))

-- ---------------------------------------------------------------------------
-- What a report does to a microservice
-- ---------------------------------------------------------------------------

def reported (ms : MicroService) : MicroService :=
  if ms.state = .running then ms else (delMicroService ms.runCreate).1

theorem reportServices_services (h : reportServices info services items = .ok (services', items')) :
    services' = services.map reported := by
  induction services generalizing services' items with
  | nil =>
    cases h
    rfl
  | cons ms services ih =>
    simp only [reportServices, bind_ok, pure_ok] at h
    obtain ⟨_, -, ⟨rest, items⟩, hrest, heq⟩ := h
    cases heq
    rw [List.map_cons, ih hrest]
    congr 1
    unfold reported
    by_cases hrunning : ms.state = .running
    · simp [hrunning]
    · simp [hrunning]

theorem makeDeviceInformationLwmsg_services
    (h : makeDeviceInformationLwmsg services interfaceId dri di = .ok (services', msg)) :
    services' = services.map reported := by
  simp only [makeDeviceInformationLwmsg, bind_ok, pure_ok] at h
  obtain ⟨_, -, ⟨_, _⟩, hreport, _, -, heq⟩ := h
  cases heq
  exact reportServices_services hreport

theorem makeDeviceInformationLwmsg2_services
    (h : makeDeviceInformationLwmsg2 pf services dri rsc = .ok (services', msg)) :
    services' = services.map reported := by
  simp only [makeDeviceInformationLwmsg2, bind_ok, pure_ok] at h
  obtain ⟨_, -, ⟨_, _⟩, hreport, _, -, heq⟩ := h
  cases heq
  exact reportServices_services hreport

-- ---------------------------------------------------------------------------
-- No report fails
-- ---------------------------------------------------------------------------

theorem paramDict_ok (pf : Platform) (params : List Parameter) :
    ∃ dict, paramDict pf params = .ok dict := by
  have hfold : ∀ (params : List Parameter) dict, KeysNonNull dict →
      ∃ dict', params.foldlM (fun dict param => setLwmObject dict param.aliasName
        (newLwmObjectFromTypeValue pf param.type param.value)) dict = .ok dict' := by
    intro params
    induction params with
    | nil => intro dict _; exact ⟨dict, rfl⟩
    | cons param params ih =>
      intro dict hn
      obtain ⟨dict', hset, hn'⟩ := setLwmObject_ok hn param.aliasName
        (newLwmObjectFromTypeValue pf param.type param.value)
      obtain ⟨dict'', hrest⟩ := ih dict' hn'
      refine ⟨dict'', ?_⟩
      rw [List.foldlM_cons, hset]
      exact hrest
  exact hfold params [] keysNonNull_nil

theorem taskInfo_ok (pf : Platform) (tif : List LWMObject) (ti : TaskInfo) :
    ∃ tif', taskInfo pf tif ti = .ok tif' := by
  unfold taskInfo
  split
  · obtain ⟨dsp, hdsp⟩ := paramDict_ok pf ti.staticParams
    obtain ⟨dfp, hdfp⟩ := paramDict_ok pf ti.flexibleParams
    obtain ⟨d₁, h₁, hn₁⟩ := setLwmObject_ok keysNonNull_nil "ti".toList
      (some (.number (.int32 (Int32.ofNat ti.taskIdx))))
    obtain ⟨d₂, h₂, hn₂⟩ := setLwmObject_ok hn₁ "to".toList
      (some (.string (some (if ti.offloading then "TRUE".toList else "FALSE".toList))))
    obtain ⟨d₃, h₃, hn₃⟩ := setLwmObject_ok hn₂ "sp".toList
      (if nodeNum dsp > 0 then some (.dictionary dsp) else none)
    obtain ⟨d₄, h₄, -⟩ := setLwmObject_ok hn₃ "fp".toList
      (if nodeNum dfp > 0 then some (.dictionary dfp) else none)
    simp only [hdsp, hdfp, h₁, h₂, h₃, h₄, bind, Except.bind]
    exact ⟨_, rfl⟩
  · exact ⟨tif, rfl⟩

theorem tasksInfo_ok (pf : Platform) (ms : MicroService) (tif : List LWMObject) :
    ∃ tif', tasksInfo pf ms tif = .ok tif' := by
  unfold tasksInfo
  induction ms.tasks.nodes generalizing tif with
  | nil => exact ⟨tif, rfl⟩
  | cons ti tis ih =>
    obtain ⟨tif', hti⟩ := taskInfo_ok pf tif ti
    rw [List.foldlM_cons, hti]
    exact ih tif'

theorem microserviceInfo_ok (ms : MicroService) (mif : List LWMObject) :
    ∃ mif', microserviceInfo ms mif = .ok mif' := by
  unfold microserviceInfo
  obtain ⟨d₁, h₁, hn₁⟩ := setLwmObject_ok keysNonNull_nil "mi".toList
    (some (.string (some ms.msId)))
  simp only [h₁, bind, Except.bind]
  obtain ⟨d₂, h₂, -⟩ := setLwmObject_ok hn₁ "ops".toList _
  rw [h₂]
  exact ⟨_, rfl⟩

theorem reportServices_ok {info : MicroService → List LWMObject → Except Fault (List LWMObject)}
    (hinfo : ∀ ms items, ∃ items', info ms items = .ok items') (services : List MicroService)
    (items : List LWMObject) :
    ∃ services' items', reportServices info services items = .ok (services', items') := by
  induction services generalizing items with
  | nil => exact ⟨[], items, rfl⟩
  | cons ms services ih =>
    obtain ⟨items', hms⟩ := hinfo (if (decide (ms.state = .running)) then ms else ms.runCreate) items
    obtain ⟨services', items'', hrest⟩ := ih items'
    unfold reportServices
    simp only [hms, hrest, bind, Except.bind]
    exact ⟨_, _, rfl⟩

theorem makeDeviceInformationLwmsg_ok (services : List MicroService) (interfaceId : UInt32)
    (dri di : Option Text) :
    ∃ services' msg, makeDeviceInformationLwmsg services interfaceId dri di = .ok (services', msg) := by
  have hmsg : ∃ msg, newLwmReqMessage interfaceId dri di = .ok msg ∧ msg.body = [] := by
    unfold newLwmReqMessage
    cases dri <;> cases di <;> exact ⟨_, rfl, rfl⟩
  obtain ⟨msg, hmsg, hbody⟩ := hmsg
  obtain ⟨services', mif, hreport⟩ := reportServices_ok microserviceInfo_ok services []
  have hnil : KeysNonNull msg.body := hbody ▸ keysNonNull_nil
  obtain ⟨msg', hset, -, -⟩ := setLwmBodyObject_ok hnil "mif".toList (some (.array mif))
  unfold makeDeviceInformationLwmsg
  simp only [hmsg, hreport, hset, bind, Except.bind]
  exact ⟨_, _, rfl⟩

theorem makeDeviceInformationLwmsg2_ok (pf : Platform) (services : List MicroService)
    (hresp : newLwmRespMessage dri rsc = .ok resp) (hbody : resp.body = []) :
    ∃ services' msg, makeDeviceInformationLwmsg2 pf services dri rsc = .ok (services', msg) ∧
      msg.header = resp.header := by
  obtain ⟨services', tif, hreport⟩ := reportServices_ok (tasksInfo_ok pf) services []
  have hnil : KeysNonNull resp.body := hbody ▸ keysNonNull_nil
  obtain ⟨msg', hset, hheader, -⟩ := setLwmBodyObject_ok hnil "tif".toList (some (.array tif))
  unfold makeDeviceInformationLwmsg2
  simp only [hresp, hreport, hset, bind, Except.bind]
  exact ⟨_, _, rfl, hheader⟩

-- ---------------------------------------------------------------------------
-- What the callback adds
-- ---------------------------------------------------------------------------

/-- The tasks and lines of the first one are those of the second, behind new
ones. -/
structure Extends (ms' ms : MicroService) : Prop where
  state : ms'.state = ms.state
  tasks : ∃ tis, ms'.tasks.nodes = tis ++ ms.tasks.nodes
  connectLines : ∃ lines, ms'.connectLines = lines ++ ms.connectLines

theorem Extends.refl (ms : MicroService) : Extends ms ms := ⟨rfl, ⟨[], rfl⟩, ⟨[], rfl⟩⟩

theorem Extends.trans (h : Extends ms₂ ms₁) (h' : Extends ms₁ ms) : Extends ms₂ ms := by
  obtain ⟨hstate, ⟨tis, htis⟩, ⟨lines, hlines⟩⟩ := h
  obtain ⟨hstate', ⟨tis', htis'⟩, ⟨lines', hlines'⟩⟩ := h'
  refine ⟨hstate.trans hstate', ⟨tis ++ tis', ?_⟩, ⟨lines ++ lines', ?_⟩⟩
  · rw [htis, htis', List.append_assoc]
  · rw [hlines, hlines', List.append_assoc]

theorem addNewTask_extends (ms : MicroService) (config : TaskConfig) :
    Extends (addNewTask ms config) ms := by
  unfold addNewTask
  split
  · dsimp only
    split
    · exact ⟨rfl, ⟨[_], rfl⟩, ⟨[], rfl⟩⟩
    · unfold MicroService.onTask
      split
      · exact ⟨rfl, ⟨[_], rfl⟩, ⟨[], rfl⟩⟩
      · exact ⟨rfl, ⟨[_], TaskList.update_add _ _ (fun _ => rfl) _⟩, ⟨[], rfl⟩⟩
  · exact .refl ms

theorem createStep_extends (s : MicroService × List (Option ConnectLine)) (call : CreateCall) :
    Extends (createStep s call).1 s.1 := by
  cases call with
  | addNewTask config => exact addNewTask_extends s.1 config
  | addMsInputParam param => exact ⟨rfl, ⟨[], rfl⟩, ⟨[], rfl⟩⟩
  | addConnectLine start outputPort dest inputPort =>
    obtain h | ⟨line, h⟩ := createStep_addConnectLine s start dest outputPort inputPort
    · rw [h]
      exact .refl s.1
    · rw [h]
      exact ⟨rfl, ⟨[], rfl⟩, ⟨[line], rfl⟩⟩
  | makeTaskLinks => exact ⟨rfl, ⟨[], rfl⟩, ⟨[], rfl⟩⟩
  | setConnectLink lines outputName offTasks =>
    obtain h | ⟨head, h⟩ := createStep_setConnectLink s lines outputName offTasks
    · rw [h]
      exact .refl s.1
    · rw [h]
      exact ⟨rfl, ⟨[], rfl⟩, ⟨[], rfl⟩⟩

theorem runCreate_extends (ms : MicroService) : Extends ms.runCreate ms :=
  runCreate_invariant (I := fun ms' => Extends ms' ms)
    (fun s call h => (createStep_extends s call).trans h) (.refl ms)

-- ---------------------------------------------------------------------------
-- When a report leaves a microservice as it was
-- ---------------------------------------------------------------------------

/-- The microservice is as it was: its state, its tasks, its link tree and its
connect lines. -/
structure Unchanged (ms ms' : MicroService) : Prop where
  state : ms'.state = ms.state
  tasks : ms'.tasks.nodes = ms.tasks.nodes
  taskLinkHead : ms'.taskLinkHead = ms.taskLinkHead
  connectLines : ms'.connectLines = ms.connectLines

def tasksMade (ms : MicroService) : Nat :=
  ms.runCreate.tasks.nodes.length - ms.tasks.nodes.length

def linesMade (ms : MicroService) : Nat :=
  ms.runCreate.connectLines.length - ms.connectLines.length

/-- A microservice that is running is not built, and one that is not ready is
built and deleted again if its lists can be counted. -/
def ReportKeeps (ms : MicroService) : Prop :=
  ms.state = .running ∨ ms.state = .notReady ∧ tasksMade ms < 256 ∧ linesMade ms < 256

/-- What is left of a microservice that is not ready: no tree, and the nodes
that could not be counted. -/
def Emptied (ms : MicroService) : Prop :=
  ms.state = .notReady → ms.taskLinkHead = .nil ∧ ms.tasks.nodes.length % 256 = 0 ∧
    ms.connectLines.length % 256 = 0

theorem reported_notReady (h : ms.state = .notReady) :
    (reported ms).state = .notReady ∧ (reported ms).taskLinkHead = .nil ∧
      (reported ms).tasks.nodes = foreachToDel ms.runCreate.tasks.nodes ∧
      (reported ms).connectLines = foreachToDel ms.runCreate.connectLines := by
  have hstate : ms.runCreate.state = .notReady := (runCreate_extends ms).state.trans h
  unfold reported delMicroService
  rw [h, hstate]
  exact ⟨rfl, rfl, rfl, rfl⟩

theorem reported_unchanged_iff (hempty : Emptied ms) :
    Unchanged ms (reported ms) ↔ ReportKeeps ms := by
  cases hstate : ms.state with
  | running =>
    refine iff_of_true ?_ (.inl hstate)
    unfold reported
    rw [if_pos hstate]
    exact ⟨rfl, rfl, rfl, rfl⟩
  | notReady =>
    obtain ⟨hnil, htis, hlines⟩ := hempty hstate
    obtain ⟨hstate', hhead', htis', hlines'⟩ := reported_notReady hstate
    obtain ⟨-, ⟨newTis, hnewTis⟩, ⟨newLines, hnewLines⟩⟩ := runCreate_extends ms
    have hmade : tasksMade ms = newTis.length := by
      unfold tasksMade
      rw [hnewTis, List.length_append, Nat.add_sub_cancel]
    have hmade' : linesMade ms = newLines.length := by
      unfold linesMade
      rw [hnewLines, List.length_append, Nat.add_sub_cancel]
    unfold ReportKeeps
    rw [hmade, hmade', ← foreachToDel_append_iff htis, ← foreachToDel_append_iff hlines,
      ← hnewTis, ← hnewLines, ← htis', ← hlines']
    constructor
    · rintro ⟨-, h₁, -, h₂⟩
      exact .inr ⟨hstate, h₁, h₂⟩
    · rintro (hrunning | ⟨-, h₁, h₂⟩)
      · rw [hstate] at hrunning
        cases hrunning
      · exact ⟨hstate'.trans hstate.symm, h₁, hhead'.trans hnil.symm, h₂⟩
  | created =>
    refine iff_of_false ?_ ?_
    · rintro ⟨h, -, -, -⟩
      unfold reported at h
      rw [hstate] at h
      cases h
    · rintro (h | ⟨h, -⟩) <;> rw [hstate] at h <;> cases h
  | stopped =>
    refine iff_of_false ?_ ?_
    · rintro ⟨h, -, -, -⟩
      unfold reported at h
      rw [hstate] at h
      cases h
    · rintro (h | ⟨h, -⟩) <;> rw [hstate] at h <;> cases h

-- ---------------------------------------------------------------------------
-- Runs of the registered microservices
-- ---------------------------------------------------------------------------

inductive ServicesEvent
  | service (i : Nat) (e : LifecycleEvent)
  | report

def servicesStep (services : List MicroService) : ServicesEvent → List MicroService
  | .service i e => services.modify i (lifecycleStep · e)
  | .report => services.map reported

abbrev ServicesRun := Run fun services e services' => services' = servicesStep services e

def Registered (services : List MicroService) : Prop :=
  ∀ ms ∈ services, ∃ msId create, ms = makeMicroService msId create

theorem emptied_delMicroService (ms : MicroService) : Emptied (delMicroService ms).1 := by
  intro _
  unfold delMicroService
  exact ⟨rfl, length_foreachToDel_mod _, length_foreachToDel_mod _⟩

theorem emptied_reported (h : Emptied ms) : Emptied (reported ms) := by
  unfold reported
  split
  · exact h
  · exact emptied_delMicroService _

def shape (ms : MicroService) : StateType × TaskLink × Nat × Nat :=
  (ms.state, ms.taskLinkHead, ms.tasks.nodes.length, ms.connectLines.length)

theorem emptied_congr (h : shape ms' = shape ms) : Emptied ms' ↔ Emptied ms := by
  unfold shape at h
  obtain ⟨hstate, hhead, htis, hlines⟩ : ms'.state = ms.state ∧ ms'.taskLinkHead = ms.taskLinkHead ∧
      ms'.tasks.nodes.length = ms.tasks.nodes.length ∧
      ms'.connectLines.length = ms.connectLines.length := by
    simpa using h
  unfold Emptied
  rw [hstate, hhead, htis, hlines]

theorem shape_updateTask (ms : MicroService) (id : TaskId) (f : TaskUpdate) :
    shape (ms.updateTask id f) = shape ms := by
  unfold shape MicroService.updateTask TaskList.update
  simp

theorem shape_setOutputConnectLine (ms : MicroService) :
    shape (setOutputConnectLine ms) = shape ms :=
  setOutputConnectLine_frame shape (fun ms line => shape_updateTask ms line.startTask (setPort line))
    (fun _ _ _ => rfl) ms

theorem shape_taskOnoff (ms : MicroService) (id : TaskId) (onoff : Bool) :
    shape (taskOnoff ms id onoff).1 = shape ms := by
  unfold taskOnoff
  split
  · rfl
  · rename_i ms' hswitch
    refine (shape_setOutputConnectLine ms').trans ?_
    obtain ⟨ti, hti, -, ⟨-, -, rfl⟩ | ⟨-, rfl⟩⟩ := switchTask_some hswitch
    · exact shape_updateTask ms id setActive
    · unfold MicroService.onTask
      rw [hti]
      exact shape_updateTask ms id _

theorem emptied_lifecycleStep (h : Emptied ms) (e : LifecycleEvent) :
    Emptied (lifecycleStep ms e) := by
  cases e with
  | create =>
    obtain ⟨-, hcreate⟩ | hcreate := lifecycleStep_create ms <;> rw [hcreate]
    · exact fun h => StateType.noConfusion h
    · exact h
  | run inits =>
    unfold lifecycleStep
    dsimp only
    cases hrun : runMicroService inits ms with
    | error => exact h
    | ok p =>
      intro hstate
      rcases runMicroService_state hrun with hrunning | hstopped
      · rw [hrunning] at hstate
        cases hstate
      · rw [hstopped] at hstate
        cases hstate
  | stopMs => exact fun h => StateType.noConfusion h
  | stopTask =>
    unfold lifecycleStep stopTask
    dsimp only
    split
    · exact fun h => StateType.noConfusion h
    · exact h
  | del => exact emptied_delMicroService ms
  | onoff id onoff => exact (emptied_congr (shape_taskOnoff ms id onoff)).mpr h
  | taskState id state => exact (emptied_congr (shape_updateTask ms id _)).mpr h
  | outputValue type value => exact h
  | paramSet id params => exact (emptied_congr (shape_updateTask ms id _)).mpr h
  | outputRead dri => exact h

theorem forall_mem_modify {services : List MicroService} {I : MicroService → Prop}
    {f : MicroService → MicroService}
    (hf : ∀ ms ∈ services, I ms → I (f ms)) (h : ∀ ms ∈ services, I ms) (i : Nat) :
    ∀ ms ∈ services.modify i f, I ms := by
  intro ms hms
  obtain ⟨j, hj⟩ := List.getElem?_of_mem hms
  rw [List.getElem?_modify] at hj
  obtain ⟨ms', hget, rfl⟩ := Option.map_eq_some_iff.mp hj
  have hmem := List.mem_of_getElem? hget
  split
  · exact hf ms' hmem (h ms' hmem)
  · exact h ms' hmem

theorem services_invariant {I : MicroService → Prop} (hrun : ServicesRun services₀ run services)
    (h₀ : Registered services₀) (hmake : ∀ msId create, I (makeMicroService msId create))
    (hstep : ∀ ms e, I ms → I (lifecycleStep ms e)) (hreport : ∀ ms, I ms → I (reported ms)) :
    ∀ ms ∈ services, I ms := by
  refine hrun.invariant (I := fun services => ∀ ms ∈ services, I ms) ?_ ?_
  · intro ms hms
    obtain ⟨msId, create, rfl⟩ := h₀ ms hms
    exact hmake msId create
  · rintro services e _ hall rfl
    cases e with
    | service i e => exact forall_mem_modify (fun ms _ h => hstep ms e h) hall i
    | report =>
      intro ms hms
      obtain ⟨ms', hms', rfl⟩ := List.mem_map.mp hms
      exact hreport ms' (hall ms' hms')

theorem services_emptied (hrun : ServicesRun services₀ run services) (h₀ : Registered services₀) :
    ∀ ms ∈ services, Emptied ms :=
  services_invariant hrun h₀ (fun _ _ _ => ⟨rfl, rfl, rfl⟩) (fun _ e h => emptied_lifecycleStep h e)
    (fun _ h => emptied_reported h)

/-- Neither report fails, and each leaves the microservices as they were exactly
if every one is running, or is not ready and makes fewer than 256 tasks and
lines. -/
theorem report_unchanged_iff (hrun : ServicesRun services₀ run services)
    (h₀ : Registered services₀) (pf : Platform) (interfaceId rsc : UInt32) (dri di : Option Text) :
    (∃ services' msg,
      makeDeviceInformationLwmsg services interfaceId dri di = .ok (services', msg) ∧
      (List.Forall₂ Unchanged services services' ↔ ∀ ms ∈ services, ReportKeeps ms)) ∧
    ∃ services' msg, makeDeviceInformationLwmsg2 pf services dri rsc = .ok (services', msg) ∧
      (List.Forall₂ Unchanged services services' ↔ ∀ ms ∈ services, ReportKeeps ms) := by
  have hempty := services_emptied hrun h₀
  have hkeeps : List.Forall₂ Unchanged services (services.map reported) ↔
      ∀ ms ∈ services, ReportKeeps ms := by
    rw [List.forall₂_map_right_iff, List.forall₂_same]
    exact forall₂_congr fun ms hms => reported_unchanged_iff (hempty ms hms)
  constructor
  · obtain ⟨services', msg, hreport⟩ := makeDeviceInformationLwmsg_ok services interfaceId dri di
    refine ⟨services', msg, hreport, ?_⟩
    rw [makeDeviceInformationLwmsg_services hreport]
    exact hkeeps
  · obtain ⟨resp, hresp⟩ := newLwmRespMessage_total dri rsc
    obtain ⟨services', msg, hreport, -⟩ :=
      makeDeviceInformationLwmsg2_ok pf services hresp (newLwmRespMessage_body hresp)
    refine ⟨services', msg, hreport, ?_⟩
    rw [makeDeviceInformationLwmsg2_services hreport]
    exact hkeeps

/-- A microservice that was created is not ready behind the report. -/
theorem report_deletes_created :
    ¬ ∀ services₀ run services, ServicesRun services₀ run services → Registered services₀ →
      ∀ pf dri rsc services' msg,
        makeDeviceInformationLwmsg2 pf services dri rsc = .ok (services', msg) →
        List.Forall₂ Unchanged services services' := by
  intro h
  have hrun := run_trace servicesStep [sampleSensor] [.service 0 .create]
  have h₀ : Registered [sampleSensor] := by
    intro ms hms
    exact ⟨_, _, List.mem_singleton.mp hms⟩
  obtain ⟨resp, hresp⟩ := newLwmRespMessage_total none 200
  obtain ⟨services', msg, hreport, -⟩ := makeDeviceInformationLwmsg2_ok samplePlatform
    ([.service 0 .create].foldl servicesStep [sampleSensor]) hresp (newLwmRespMessage_body hresp)
  have hall := h _ _ _ hrun h₀ samplePlatform none 200 services' msg hreport
  rw [makeDeviceInformationLwmsg2_services hreport] at hall
  cases hall with
  | cons hfirst _ => exact absurd hfirst.state (by decide)

theorem report_keeps_running :
    ∃ services' msg,
      makeDeviceInformationLwmsg2 samplePlatform
        ([.service 0 .create, .service 0 (.run (initAll false))].foldl servicesStep
          [sampleSensor, sampleSensor]) none 200 = .ok (services', msg) ∧
      List.Forall₂ Unchanged
        ([.service 0 .create, .service 0 (.run (initAll false))].foldl servicesStep
          [sampleSensor, sampleSensor]) services' := by
  have hrun := run_trace servicesStep [sampleSensor, sampleSensor]
    [.service 0 .create, .service 0 (.run (initAll false))]
  have h₀ : Registered [sampleSensor, sampleSensor] := by
    intro ms hms
    rcases List.mem_cons.mp hms with h | h
    · exact ⟨_, _, h⟩
    · exact ⟨_, _, List.mem_singleton.mp h⟩
  obtain ⟨-, services', msg, hreport, hiff⟩ :=
    report_unchanged_iff hrun h₀ samplePlatform 2 200 none none
  refine ⟨services', msg, hreport, hiff.mpr ?_⟩
  unfold ReportKeeps
  decide

end IoTware.Micro
