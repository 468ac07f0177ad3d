import IoTware.Dist.Services

/-!
# Requests that run or switch

The handlers of operations and of switching tasks, and what they need of a
request to meet no fault. Creating, stopping and deleting accept every
microservice; running one accepts it a number of times, and switching looks at
the objects of `tis` up to the first that it fails at.
-/

namespace IoTware.Dist

open CText LwMsg Micro Loops

-- ---------------------------------------------------------------------------
-- Operations
-- ---------------------------------------------------------------------------

/-- The size of an input item behind the call of `init_fn`. -/
def itemSizeAfter (init : InitReturn) (ti : TaskInfo) : Nat :=
  if ti.hasInitFn then init.itemSizes.elim ti.inputItemSize Prod.fst else ti.inputItemSize

/-- `run_task` starts a task that is not active, does not abort in its `init_fn`
and has a size of items or a port for messages. -/
structure Starts (init : InitReturn) (ti : TaskInfo) : Prop where
  notActive : ti.state.isActive = false
  notAborted : ti.hasInitFn = true → init.isAbort = false
  receives : itemSizeAfter init ti = 0 → ti.lwmsgInputPort.isSome = true

instance (init : InitReturn) (ti : TaskInfo) : Decidable (Starts init ti) :=
  decidable_of_iff (ti.state.isActive = false ∧ (ti.hasInitFn = true → init.isAbort = false) ∧
      (itemSizeAfter init ti = 0 → ti.lwmsgInputPort.isSome = true))
    ⟨fun ⟨h₁, h₂, h₃⟩ => ⟨h₁, h₂, h₃⟩, fun ⟨h₁, h₂, h₃⟩ => ⟨h₁, h₂, h₃⟩⟩

/-- How often `run_micro_service` can be called until it finds a state that it
does not accept, or a line that is NULL. A run that fails leaves one more. -/
def runsAccepted (inits : Inits) (ms : MicroService) : Nat :=
  match ms.state with
  | .created =>
    if ∀ ti ∈ ms.tasks.nodes, ti.initialOnoff = true → Starts (inits ti.id) ti then
      if nullLineFor ms.taskLinkHead (activeStarted ms) then 0 else 1
    else 2
  | .stopped => 1
  | .notReady | .running => 0

theorem startTask_ok (ti : TaskInfo) (k : Kernel) :
    (startTask ti k).2 = true ↔ (ti.inputItemSize = 0 → ti.lwmsgInputPort.isSome) := by
  unfold startTask
  split
  · rename_i h
    simp [h]
  · rename_i h
    refine iff_of_true rfl fun hsize => ?_
    exact Option.isSome_iff_ne_none.mpr fun hport => h ⟨hsize, hport⟩

theorem callInit_itemSize (init : InitReturn) (ti : TaskInfo) (k : Kernel) :
    (callInit init ti k).1.inputItemSize = init.itemSizes.elim ti.inputItemSize Prod.fst ∧
      (callInit init ti k).1.lwmsgInputPort = ti.lwmsgInputPort := by
  unfold callInit
  cases init.itemSizes with
  | none => exact ⟨rfl, rfl⟩
  | some sizes => exact ⟨rfl, rfl⟩

theorem runTask_ok_iff (init : InitReturn) (ti : TaskInfo) (k : Kernel) :
    (runTask false init ti k).2 = true ↔ Starts init ti := by
  unfold runTask
  split
  · rename_i hactive
    refine iff_of_false Bool.false_ne_true fun h => ?_
    rw [h.notActive] at hactive
    cases hactive.2
  rename_i hactive
  have hactive : ti.state.isActive = false := by simpa using hactive
  dsimp only
  split
  · rename_i hinit
    obtain ⟨hsize, hport⟩ := callInit_itemSize init
      { ti with taskT := none, state := .stopped } (k.deleteTask ti.taskT)
    have hafter : itemSizeAfter init ti = init.itemSizes.elim ti.inputItemSize Prod.fst := if_pos hinit
    split
    · rename_i habort
      refine iff_of_false Bool.false_ne_true fun h => ?_
      exact Bool.false_ne_true ((h.notAborted hinit).symm.trans habort)
    · rename_i habort
      rw [startTask_ok, hsize, hport]
      constructor
      · exact fun h => ⟨hactive, fun _ => by simpa using habort, hafter ▸ h⟩
      · exact fun h => hafter ▸ h.receives
  · rename_i hinit
    have hafter : itemSizeAfter init ti = ti.inputItemSize := if_neg hinit
    rw [startTask_ok]
    constructor
    · exact fun h => ⟨hactive, fun h => absurd h hinit, hafter ▸ h⟩
    · exact fun h => hafter ▸ h.receives

theorem runTasks_ok_iff (inits : Inits) (tis : List TaskInfo) (k : Kernel) :
    (runTasks inits tis k).2.2 = true ↔
      ∀ ti ∈ tis, ti.initialOnoff = true → Starts (inits ti.id) ti := by
  induction tis generalizing k with
  | nil => simp [runTasks]
  | cons ti tis ih =>
    rw [List.forall_mem_cons, runTasks]
    split
    · rename_i hon
      have hti := runTask_ok_iff (inits ti.id) ti k
      split
      · rename_i hrun
        rw [hrun] at hti
        refine iff_of_false Bool.false_ne_true ?_
        exact fun h => Bool.false_ne_true (hti.mpr (h.1 hon))
      · rename_i hrun
        rw [hrun] at hti
        exact (ih _).trans (and_iff_right fun _ => hti.mp rfl).symm
    · rename_i hoff
      exact (ih _).trans (and_iff_right fun hon => absurd hon hoff).symm

theorem startTasks_ok_iff (inits : Inits) (ms : MicroService) :
    (startTasks inits ms).2 = true ↔
      ∀ ti ∈ ms.tasks.nodes, ti.initialOnoff = true → Starts (inits ti.id) ti :=
  runTasks_ok_iff inits ms.tasks.nodes ms.kernel

theorem runsAccepted_started (hstate : ms.state = .created) (hok : (startTasks inits ms).2 = true) :
    runsAccepted inits ms = if readsNullLine (startTasks inits ms).1 then 0 else 1 := by
  unfold runsAccepted
  rw [hstate, readsNullLine_startTasks hok]
  exact if_pos ((startTasks_ok_iff inits ms).mp hok)

theorem runsAccepted_failed (hstate : ms.state = .created) (hok : (startTasks inits ms).2 = false) :
    runsAccepted inits ms = 2 := by
  unfold runsAccepted
  rw [hstate]
  exact if_neg fun h => Bool.false_ne_true (hok.symm.trans ((startTasks_ok_iff inits ms).mpr h))

theorem succeeds_runMicroService (inits : Inits) (ms : MicroService) :
    Succeeds (Pointers.runMicroService inits ms) ↔ 0 < runsAccepted inits ms := by
  unfold Pointers.runMicroService
  cases hstate : ms.state with
  | created =>
    cases hok : (startTasks inits ms).2 with
    | true =>
      rw [runsAccepted_started hstate hok]
      cases hnull : readsNullLine (startTasks inits ms).1 with
      | true => exact iff_of_false (not_succeeds_error _) (Nat.lt_irrefl 0)
      | false =>
        refine iff_of_true ?_ Nat.one_pos
        rw [if_neg (by simp)]
        unfold runMicroService
        rw [hstate]
        dsimp only
        split <;> exact succeeds_ok _
    | false =>
      rw [runsAccepted_failed hstate hok]
      refine iff_of_true ?_ Nat.two_pos
      rw [if_neg (by simp)]
      unfold runMicroService
      rw [hstate]
      dsimp only
      split <;> exact succeeds_ok _
  | stopped =>
    unfold runsAccepted runMicroService
    rw [hstate]
    exact iff_of_true (succeeds_ok _) Nat.one_pos
  | notReady =>
    unfold runsAccepted runMicroService
    rw [hstate]
    exact iff_of_false (not_succeeds_error _) (Nat.lt_irrefl 0)
  | running =>
    unfold runsAccepted runMicroService
    rw [hstate]
    exact iff_of_false (not_succeeds_error _) (Nat.lt_irrefl 0)

theorem readsNullLine_of_run (hstate : ms.state = .created) (hok : (startTasks inits ms).2 = true)
    (h : Pointers.runMicroService inits ms = .ok r) :
    readsNullLine (startTasks inits ms).1 = false := by
  unfold Pointers.runMicroService at h
  split at h
  · cases h
  · rename_i hnull
    simpa [hstate, hok] using hnull

theorem runsAccepted_run (h : Pointers.runMicroService inits ms = .ok (ms', ok)) :
    runsAccepted inits ms = runsAccepted inits ms' + 1 := by
  rcases runMicroService_cases (Pointers.runMicroService_ok h) with
    ⟨hstate, hok, -, rfl⟩ | ⟨hstate, hstart, -, rfl⟩ | ⟨hstate, -, rfl⟩
  · have hrunning : (setOutputConnectLine (startTasks inits ms).1).state = .running :=
      setOutputConnectLine_state _
    rw [runsAccepted_started hstate hok, readsNullLine_of_run hstate hok h]
    unfold runsAccepted
    rw [hrunning]
    rfl
  · have hstopped : (stopTask (startTasks inits ms).1).1.state = .stopped := stopTask_of_running rfl
    rw [runsAccepted_failed hstate hstart]
    unfold runsAccepted
    rw [hstopped]
  · unfold runsAccepted
    rw [hstate]

def namesPlace (services : List MicroService) (i : Nat) (msid : LWMObject) : Bool :=
  (getMicroServiceInfoById services msid.stringValue).map Prod.snd = some i

theorem SameView.namesPlace {view : MicroService → α} (h : SameView view services services') :
    namesPlace services' = namesPlace services := by
  funext i msid
  have hinfo := congrArg (Option.map Prod.snd) (h.info msid.stringValue)
  rw [Option.map_map, Option.map_map] at hinfo
  exact congrArg (fun place => decide (place = some i)) hinfo

def RunsSafe (inits : Nat → Inits) (services : List MicroService) (mis : List LWMObject) : Prop :=
  ∀ i ms, services[i]? = some ms → mis.countP (namesPlace services i) ≤ runsAccepted (inits i) ms

theorem runsSafe_cons_none (h : getMicroServiceInfoById services msid.stringValue = none) :
    RunsSafe inits services (msid :: mis) ↔ RunsSafe inits services mis := by
  refine forall_congr' fun i => ?_
  have hnot : namesPlace services i msid = false := by
    unfold namesPlace
    rw [h]
    rfl
  rw [List.countP_cons_of_neg (by rw [hnot]; exact Bool.false_ne_true)]

theorem runsSafe_cons_some (h : getMicroServiceInfoById services msid.stringValue = some (ms, j))
    (hrun : Pointers.runMicroService (inits j) ms = .ok (ms', ok)) :
    RunsSafe inits services (msid :: mis) ↔ RunsSafe inits (services.set j ms') mis := by
  have hget := getMicroServiceInfoById_some h
  have hlt : j < services.length := (List.getElem?_eq_some_iff.mp hget).1
  have hsame : SameView (fun _ => ()) services (services.set j ms') :=
    (SameView.refl _ services).set hget (runMicroService_msId (Pointers.runMicroService_ok hrun)) rfl
  have hnames : ∀ i, namesPlace services i msid = true ↔ j = i := by
    intro i
    unfold namesPlace
    rw [h, decide_eq_true_iff]
    exact Option.some_inj
  unfold RunsSafe
  rw [hsame.namesPlace]
  refine forall_congr' fun i => ?_
  by_cases hij : j = i
  · subst hij
    rw [List.countP_cons_of_pos ((hnames j).mpr rfl), hget, List.getElem?_set_self hlt]
    constructor
    · rintro hall _ ⟨⟩
      have hle := hall ms rfl
      rw [runsAccepted_run hrun] at hle
      exact Nat.le_of_succ_le_succ hle
    · rintro hall _ ⟨⟩
      rw [runsAccepted_run hrun]
      exact Nat.succ_le_succ (hall ms' rfl)
  · rw [List.countP_cons_of_neg (fun hi => hij ((hnames i).mp hi)), List.getElem?_set_ne hij]

theorem succeeds_runs (inits : Nat → Inits) (mis : List LWMObject) (services : List MicroService)
    (rsc : UInt32) :
    Succeeds (mis.foldlM (operationStep inits .msRun) (services, rsc)) ↔
      RunsSafe inits services mis := by
  induction mis generalizing services rsc with
  | nil => exact iff_of_true (succeeds_ok _) fun _ _ _ => Nat.zero_le _
  | cons msid mis ih =>
    rw [List.foldlM_cons]
    unfold operationStep
    cases hinfo : getMicroServiceInfoById services msid.stringValue with
    | none => exact (ih services 404).trans (runsSafe_cons_none hinfo).symm
    | some p =>
      obtain ⟨ms, j⟩ := p
      have hget := getMicroServiceInfoById_some hinfo
      dsimp only [operation]
      rw [bind_assoc, succeeds_bind]
      constructor
      · rintro ⟨⟨ms', ok⟩, hrun, hrest⟩
        exact (runsSafe_cons_some hinfo hrun).mpr ((ih _ _).mp hrest)
      · intro hall
        have hpos : 0 < runsAccepted (inits j) ms := by
          refine Nat.lt_of_lt_of_le ?_ (hall j ms hget)
          refine List.countP_pos_iff.mpr ⟨msid, List.mem_cons_self, ?_⟩
          unfold namesPlace
          rw [hinfo]
          exact decide_eq_true rfl
        obtain ⟨⟨ms', ok⟩, hrun⟩ := (succeeds_runMicroService (inits j) ms).mpr hpos
        exact ⟨(ms', ok), hrun, (ih _ _).mpr ((runsSafe_cons_some hinfo hrun).mp hall)⟩

def IsOperation (interfaceId : LwmIf) : Prop :=
  interfaceId = .msCreation ∨ interfaceId = .msRun ∨ interfaceId = .msStop ∨ interfaceId = .msDelete

instance (interfaceId : LwmIf) : Decidable (IsOperation interfaceId) :=
  inferInstanceAs (Decidable (_ ∨ _))

/-- Creating or stopping the microservice calls a callback that writes through NULL. -/
def callbackFaults (interfaceId : LwmIf) (ms : MicroService) : Bool :=
  match interfaceId with
  | .msCreation => ms.state = .notReady ∧ ms.writesNullTask
  | .msStop => ms.writesNullTask
  | _ => false

theorem operation_msId (hop : IsOperation interfaceId)
    (h : operation inits interfaceId ms = .ok (ms', ok)) : ms'.msId = ms.msId := by
  obtain rfl | rfl | rfl | rfl := hop
  · have h := Pointers.createMicroService_ok h
    unfold createMicroService at h
    split at h <;> cases h
    · exact runCreate_msId ms
    · rfl
  · exact runMicroService_msId (Pointers.runMicroService_ok h)
  · cases Pointers.stopMicroService_ok h
    exact (runCreate_msId _).trans (delMicroService_msId ms)
  · cases h
    exact delMicroService_msId ms

theorem writesNullTask_congr {ms ms' : MicroService} (h : ms'.create = ms.create) :
    ms'.writesNullTask = ms.writesNullTask := by
  unfold MicroService.writesNullTask
  rw [h]

theorem stopMicroService_create (ms : MicroService) : (stopMicroService ms).1.create = ms.create := by
  refine (runCreate_create _).trans ?_
  unfold delMicroService
  dsimp only
  split
  · exact stopTask_frame MicroService.create (fun _ _ => rfl) ms
  · rfl

theorem succeeds_operation (hop : IsOperation interfaceId) (hrun : interfaceId ≠ .msRun)
    (inits : Inits) (ms : MicroService) :
    Succeeds (operation inits interfaceId ms) ↔ callbackFaults interfaceId ms = false := by
  obtain rfl | rfl | rfl | rfl := hop
  · unfold operation Pointers.createMicroService callbackFaults
    dsimp only
    split
    · rename_i hnull
      exact iff_of_false (not_succeeds_error _) (by simp [hnull])
    · rename_i hnull
      exact iff_of_true (succeeds_ok _) (decide_eq_false hnull)
  · exact absurd rfl hrun
  · unfold operation Pointers.stopMicroService callbackFaults
    dsimp only
    cases ms.writesNullTask with
    | true => exact iff_of_false (not_succeeds_error _) Bool.noConfusion
    | false => exact iff_of_true (succeeds_ok _) rfl
  · exact iff_of_true (succeeds_ok _) rfl

theorem callbackFaults_operation (hop : IsOperation interfaceId) (hrun : interfaceId ≠ .msRun)
    (h : operation inits interfaceId ms = .ok (ms', ok)) :
    callbackFaults interfaceId ms' = callbackFaults interfaceId ms := by
  have hnone := (succeeds_operation hop hrun inits ms).mp ⟨_, h⟩
  rw [hnone]
  obtain rfl | rfl | rfl | rfl := hop
  · have h := Pointers.createMicroService_ok h
    unfold createMicroService at h
    split at h <;> cases h
    · simp [callbackFaults]
    · exact hnone
  · exact absurd rfl hrun
  · cases Pointers.stopMicroService_ok h
    exact (writesNullTask_congr (stopMicroService_create ms)).trans hnone
  · rfl

def CallsSafe (inits : Nat → Inits) (interfaceId : LwmIf) (services : List MicroService)
    (mis : List LWMObject) : Prop :=
  if interfaceId = .msRun then RunsSafe inits services mis
  else ∀ msid ∈ mis, ∀ ms, serviceOf services msid = some ms → callbackFaults interfaceId ms = false

def OperationSafe (inits : Nat → Inits) (interfaceId : LwmIf) (services : List MicroService)
    (body : LWMDictionary) : Prop :=
  Finds body "mis".toList fun mis => WhenArray mis fun mis => CallsSafe inits interfaceId services mis

theorem succeeds_operationStep (hop : IsOperation interfaceId) (hrun : interfaceId ≠ .msRun)
    (hview : SameView (callbackFaults interfaceId) services s.1) (inits : Nat → Inits)
    (msid : LWMObject) :
    Succeeds (operationStep inits interfaceId s msid) ↔
      ∀ ms, serviceOf services msid = some ms → callbackFaults interfaceId ms = false := by
  unfold operationStep serviceOf
  cases hinfo : getMicroServiceInfoById s.1 msid.stringValue with
  | none =>
    refine iff_of_true (succeeds_ok _) ?_
    rw [hview.notFound hinfo]
    rintro _ ⟨⟩
  | some p =>
    obtain ⟨ms', i⟩ := p
    obtain ⟨ms, hms, hfaults⟩ := hview.found hinfo
    rw [hms]
    simp only [Option.map_some, Option.some.injEq, forall_eq', ← hfaults]
    refine (succeeds_bind_of fun _ _ => succeeds_pure _).trans ?_
    exact succeeds_operation hop hrun (inits i) ms'

theorem operationStep_view (hop : IsOperation interfaceId) (hrun : interfaceId ≠ .msRun)
    (hview : SameView (callbackFaults interfaceId) services s.1)
    (h : operationStep inits interfaceId s msid = .ok s') :
    SameView (callbackFaults interfaceId) services s'.1 := by
  unfold operationStep at h
  split at h
  · cases h
    exact hview
  · rename_i ms i hinfo
    simp only [bind_ok, pure_ok] at h
    obtain ⟨⟨ms', ok⟩, hcall, rfl⟩ := h
    exact hview.set (getMicroServiceInfoById_some hinfo) (operation_msId hop hcall)
      (callbackFaults_operation hop hrun hcall)

theorem succeeds_operations (hop : IsOperation interfaceId) (inits : Nat → Inits)
    (services : List MicroService) (mis : List LWMObject) (rsc : UInt32) :
    Succeeds (mis.foldlM (operationStep inits interfaceId) (services, rsc)) ↔
      CallsSafe inits interfaceId services mis := by
  unfold CallsSafe
  split
  · rename_i hrun
    subst hrun
    exact succeeds_runs inits mis services rsc
  · rename_i hrun
    exact foldlM_succeeds_iff (I := fun s => SameView (callbackFaults interfaceId) services s.1)
      (fun _ _ _ hs h => operationStep_view hop hrun hs h)
      (fun _ msid hs => succeeds_operationStep hop hrun hs inits msid) mis (.refl _ _)

theorem succeeds_lwmsgOperation (hop : IsOperation interfaceId) (inits : Nat → Inits)
    (services : List MicroService) (msg : LWMessage) :
    Succeeds (lwmsgOperation inits interfaceId services msg) ↔
      OperationSafe inits interfaceId services msg.body :=
  succeeds_lookup (succeeds_whenArray fun mis => succeeds_operations hop inits services mis 400)
    msg.body _

-- ---------------------------------------------------------------------------
-- Switching tasks
-- ---------------------------------------------------------------------------

def Switchable (onoff : Bool) (ti : TaskInfo) : Prop :=
  ti.offloading = true ∧ (onoff = true → ti.state.isActive = false)

/-- The objects of `tis` are strings up to the first that names no task to
switch, and the lines that are selected behind each switch are not NULL. The tasks
`offs` are switched off before. -/
def SwitchSafe (onoff : Bool) (ms : MicroService) : List TaskId → List LWMObject → Prop
  | _, [] => True
  | offs, obj :: tis => NamesTask ms (fun task => ∀ ti, task = some ti → Switchable onoff ti →
      nullLineFor ms.taskLinkHead (activeWithout ms (offsBehind onoff ti.id offs)) = false ∧
        SwitchSafe onoff ms (offsBehind onoff ti.id offs) tis) obj

def OffloardingSafe (onoff : Bool) (services : List MicroService) (body : LWMDictionary) : Prop :=
  Finds body "mis".toList fun mis => WhenArray mis fun mis => nodeNum mis = 1 → ∀ msid ∈ mis,
    Finds body "tis".toList fun tis => WhenArray tis fun tis => ∀ ms,
      serviceOf services msid = some ms → SwitchSafe onoff ms [] tis

def switchView (onoff : Bool) (ti : TaskInfo) : Nat × TaskId × Bool :=
  (ti.taskIdx, ti.id, ti.offloading && (!onoff || !ti.state.isActive))

def switchesView (onoff : Bool) (ms : MicroService) : List (Nat × TaskId × Bool) :=
  ms.tasks.nodes.map (switchView onoff)

theorem switchable_iff (onoff : Bool) (ti : TaskInfo) :
    Switchable onoff ti ↔ (switchView onoff ti).2.2 = true := by
  cases onoff <;> simp [Switchable, switchView]

theorem switchable_view {ti' : TaskInfo} (h : switchView onoff ti' = switchView onoff ti) :
    ti'.id = ti.id ∧ (Switchable onoff ti' ↔ Switchable onoff ti) := by
  rw [switchable_iff, switchable_iff, h]
  exact ⟨congrArg (fun v => v.2.1) h, Iff.rfl⟩

theorem switchTask_switched {ms : MicroService} (hti : ms.tasks.find? ti.id = some ti) (onoff : Bool) :
    (switchTask ms ti.id onoff).isSome ↔ Switchable onoff ti := by
  unfold switchTask Switchable
  rw [hti]
  cases hoff : ti.offloading with
  | false => simp [hoff]
  | true => cases onoff <;> cases hactive : ti.state.isActive <;> simp [hoff, hactive]

theorem taskOnoff_view (ms : MicroService) (id : TaskId) (onoff : Bool) :
    switchesView onoff (taskOnoff ms id onoff).1 = switchesView onoff ms := by
  unfold taskOnoff
  split
  · rfl
  rename_i ms' hswitch
  refine (setOutputConnectLine_tasks (fun _ _ _ => rfl) ms').trans ?_
  obtain ⟨ti, -, -, ⟨rfl, -, rfl⟩ | ⟨rfl, rfl⟩⟩ := switchTask_some hswitch
  · exact TaskList.map_update _ _ _ _ fun _ => rfl
  · exact onTask_map _ _ _ _ fun ti k => by simp [switchView, offTask, TaskInfo.forQueues]

theorem taskOnoff_msId (ms : MicroService) (id : TaskId) (onoff : Bool) :
    (taskOnoff ms id onoff).1.msId = ms.msId := by
  unfold taskOnoff
  split
  · rfl
  rename_i ms' hswitch
  refine (setOutputConnectLine_frame MicroService.msId (fun _ _ => rfl) (fun _ _ _ => rfl) ms').trans ?_
  obtain ⟨ti, -, -, ⟨-, -, rfl⟩ | ⟨-, rfl⟩⟩ := switchTask_some hswitch
  · rfl
  · unfold MicroService.onTask
    split <;> rfl

/-- A microservice whose tasks `offs` have been switched off, or some switched on. -/
structure Switched (onoff : Bool) (ms : MicroService) (offs : List TaskId) (ms' : MicroService) :
    Prop where
  view : switchesView onoff ms' = switchesView onoff ms
  msId : ms'.msId = ms.msId
  head : ms'.taskLinkHead = ms.taskLinkHead
  active : currTaskState ms' = activeWithout ms offs

theorem Switched.refl (onoff : Bool) (ms : MicroService) : Switched onoff ms [] ms :=
  ⟨rfl, rfl, rfl, (activeWithout_nil ms).symm⟩

theorem Switched.task (h : Switched onoff ms offs ms') (index : UInt32) :
    (getTaskInfoByIdx ms' index).map (switchView onoff) =
      (getTaskInfoByIdx ms index).map (switchView onoff) :=
  getTaskInfoByIdx_view Prod.fst (fun _ => rfl) h.view index

theorem Switched.switch {id : TaskId} (h : Switched onoff ms offs ms')
    (hswitch : switchTask ms' id onoff = some pre) :
    Switched onoff ms (offsBehind onoff id offs) (taskOnoff ms' id onoff).1 ∧
      readsNullLine pre = nullLineFor ms.taskLinkHead (activeWithout ms (offsBehind onoff id offs)) := by
  obtain ⟨hactive, hhead⟩ := switchTask_active hswitch h.active h.head
  have hdone : taskOnoff ms' id onoff = (setOutputConnectLine pre, true) := by
    unfold taskOnoff
    rw [hswitch]
  constructor
  · refine ⟨(taskOnoff_view ms' id onoff).trans h.view, (taskOnoff_msId ms' id onoff).trans h.msId, ?_, ?_⟩
    · rw [hdone]
      exact (setOutputConnectLine_frame MicroService.taskLinkHead (fun _ _ => rfl)
        (fun _ _ _ => rfl) pre).trans hhead
    · rw [hdone]
      exact (currTaskState_setOutputConnectLine pre).trans hactive
  · rw [readsNullLine_eq, hactive, hhead]

theorem Switched.notFound (h : Switched onoff ms offs ms') (hti : getTaskInfoByIdx ms' index = none) :
    getTaskInfoByIdx ms index = none := by
  have htask := h.task index
  rw [hti] at htask
  exact Option.map_eq_none_iff.mp htask.symm

theorem Switched.found (h : Switched onoff ms offs ms') (hti' : getTaskInfoByIdx ms' index = some ti') :
    ∃ ti, getTaskInfoByIdx ms index = some ti ∧ ti.id = ti'.id ∧
      (Switchable onoff ti ↔ (switchTask ms' ti'.id onoff).isSome) := by
  have htask := h.task index
  rw [hti', Option.map_some] at htask
  obtain ⟨ti, hti, hview⟩ := Option.map_eq_some_iff.mp htask.symm
  obtain ⟨hid, hiff⟩ := switchable_view hview
  exact ⟨ti, hti, hid, hiff.trans (switchTask_switched (getTaskInfoByIdx_find? hti') onoff).symm⟩

theorem offloardingTask_ok {s' : MicroService × UInt32} (h : Switched onoff ms offs s.1)
    (hstep : offloardingTask onoff s obj = .ok (s', stop)) :
    (stop = true ∧ s'.1 = s.1 ∧ ∃ text, obj.stringValue = some text ∧
      ∀ ti, getTaskInfoByIdx ms (atol text).toUInt32 = some ti → ¬ Switchable onoff ti) ∨
      stop = false ∧ ∃ text ti, obj.stringValue = some text ∧
        getTaskInfoByIdx ms (atol text).toUInt32 = some ti ∧ Switchable onoff ti ∧
        nullLineFor ms.taskLinkHead (activeWithout ms (offsBehind onoff ti.id offs)) = false ∧
        Switched onoff ms (offsBehind onoff ti.id offs) s'.1 := by
  unfold offloardingTask taskIndex at hstep
  cases htext : obj.stringValue with
  | none =>
    rw [htext] at hstep
    cases hstep
  | some text =>
    rw [htext, bind_ok] at hstep
    obtain ⟨index, hindex, hstep⟩ := hstep
    cases hindex
    split at hstep
    · rename_i hti'
      cases hstep
      refine .inl ⟨rfl, rfl, text, rfl, ?_⟩
      rw [h.notFound hti']
      rintro _ ⟨⟩
    rename_i ti' hti'
    obtain ⟨ti, hti, hid, hiff⟩ := h.found hti'
    rw [bind_ok] at hstep
    obtain ⟨r, hcall, hstep⟩ := hstep
    cases hswitch : switchTask s.1 ti'.id onoff with
    | none =>
      cases (Pointers.taskOnoff_refused hswitch).symm.trans hcall
      cases hstep
      refine .inl ⟨rfl, rfl, text, rfl, ?_⟩
      rw [hti]
      rintro _ ⟨⟩ hon
      rw [hswitch] at hiff
      cases hiff.mp hon
    | some pre =>
      obtain ⟨hafter, hnull⟩ := h.switch hswitch
      rw [Pointers.taskOnoff_switched hswitch] at hcall
      split at hcall
      · cases hcall
      rename_i hread
      cases hcall
      cases hstep
      refine .inr ⟨rfl, text, ti, rfl, hti, hiff.mpr (by rw [hswitch]; rfl), ?_, hid ▸ hafter⟩
      rw [hid, ← hnull]
      exact Bool.eq_false_iff.mpr hread

theorem succeeds_offloardingTask (onoff : Bool) (tis : List LWMObject) (s : MicroService × UInt32)
    (h : Switched onoff ms offs s.1) :
    Succeeds (loop (offloardingTask onoff) s tis) ↔ SwitchSafe onoff ms offs tis := by
  induction tis generalizing s offs with
  | nil => exact iff_of_true (succeeds_ok _) trivial
  | cons obj tis ih =>
    unfold loop offloardingTask
    rw [bind_assoc]
    refine succeeds_taskIndex (fun index => ?_) obj
    cases hti' : getTaskInfoByIdx s.1 index with
    | none =>
      rw [h.notFound hti']
      refine iff_of_true (succeeds_ok _) ?_
      rintro _ ⟨⟩
    | some ti' =>
      obtain ⟨ti, hti, hid, hiff⟩ := h.found hti'
      rw [hti]
      simp only [Option.some.injEq, forall_eq', hid]
      cases hswitch : switchTask s.1 ti'.id onoff with
      | none =>
        rw [Pointers.taskOnoff_refused hswitch]
        refine iff_of_true (succeeds_ok _) fun hon => ?_
        rw [hswitch] at hiff
        cases hiff.mp hon
      | some pre =>
        obtain ⟨hafter, hnull⟩ := h.switch hswitch
        have hon : Switchable onoff ti := hiff.mpr (by rw [hswitch]; rfl)
        rw [Pointers.taskOnoff_switched hswitch, ← hnull]
        refine Iff.trans ?_ (forall_prop_of_true hon).symm
        cases readsNullLine pre with
        | true => exact iff_of_false (not_succeeds_error _) fun h => Bool.noConfusion h.1
        | false => exact (ih ((taskOnoff s.1 ti'.id onoff).1, 200) hafter).trans (and_iff_right rfl).symm

theorem activeWithout_offsBehind {id : TaskId} (h : offsBehind onoff id offs ⊆ all) :
    activeWithout ms (offsBehind onoff id all) = activeWithout ms all := by
  cases onoff with
  | true => rfl
  | false =>
    have hid : id ∈ all := h List.mem_cons_self
    have hany : ∀ task : Option TaskId,
        (id :: all).any (fun id => decide (some id = task)) = all.any fun id => some id = task := by
      intro task
      rw [List.any_cons, Bool.or_eq_right_iff_imp, decide_eq_true_iff, List.any_eq_true]
      exact fun htask => ⟨id, hid, decide_eq_true htask⟩
    funext task
    exact congrArg (fun off => currTaskState ms task && !off) (hany task)

theorem subset_offsBehind (onoff : Bool) (id : TaskId) (offs : List TaskId) :
    offs ⊆ offsBehind onoff id offs := by
  cases onoff with
  | true => exact List.Subset.refl _
  | false => exact List.subset_cons_self _ _

/-- The loop can be run again, with at least its tasks off: they all are switched to what
they are. -/
theorem offloardingTasks_again {tis : List LWMObject} {s' : MicroService × UInt32}
    (h : Switched onoff ms offs s.1) (hloop : loop (offloardingTask onoff) s tis = .ok (s', stop)) :
    ∃ offs', Switched onoff ms offs' s'.1 ∧ offs ⊆ offs' ∧
      ((offs' = offs ∧ ∀ all, SwitchSafe onoff ms all tis) ∨
        nullLineFor ms.taskLinkHead (activeWithout ms offs') = false ∧
          ∀ all, offs' ⊆ all → nullLineFor ms.taskLinkHead (activeWithout ms all) = false →
            SwitchSafe onoff ms all tis) := by
  induction tis generalizing s offs with
  | nil =>
    cases hloop
    exact ⟨offs, h, List.Subset.refl _, .inl ⟨rfl, fun _ => trivial⟩⟩
  | cons obj tis ih =>
    rw [loop, bind_ok] at hloop
    obtain ⟨⟨s₁, stop₁⟩, hstep, hrest⟩ := hloop
    rcases offloardingTask_ok h hstep with ⟨rfl, hsame, text, htext, hnot⟩ |
      ⟨rfl, text, ti, htext, hti, hon, hnull, hswitched⟩
    · cases hrest
      refine ⟨offs, hsame ▸ h, List.Subset.refl _, .inl ⟨rfl, fun all => ⟨text, htext, ?_⟩⟩⟩
      exact fun ti hti hon => absurd hon (hnot ti hti)
    · obtain ⟨offs', hafter, hsub, hagain⟩ := ih hswitched hrest
      refine ⟨offs', hafter, List.Subset.trans (subset_offsBehind onoff ti.id offs) hsub, .inr ?_⟩
      have hsafe : ∀ all, offs' ⊆ all → nullLineFor ms.taskLinkHead (activeWithout ms all) = false →
          SwitchSafe onoff ms (offsBehind onoff ti.id all) tis → SwitchSafe onoff ms all (obj :: tis) := by
        intro all hall hallNull htis
        refine ⟨text, htext, ?_⟩
        rw [hti]
        rintro _ ⟨⟩ -
        rw [activeWithout_offsBehind (List.Subset.trans hsub hall)]
        exact ⟨hallNull, htis⟩
      rcases hagain with ⟨rfl, hagain⟩ | ⟨hnull', hagain⟩
      · exact ⟨hnull, fun all hall hallNull => hsafe all hall hallNull (hagain _)⟩
      · refine ⟨hnull', fun all hall hallNull => hsafe all hall hallNull (hagain _ ?_ ?_)⟩
        · exact List.Subset.trans hall (subset_offsBehind onoff ti.id all)
        · rwa [activeWithout_offsBehind (List.Subset.trans hsub hall)]

/-- A microservice as the passes over `tis` so far have left it: another one meets a fault
exactly if the first one does. -/
def Passed (onoff : Bool) (tis : List LWMObject) (ms ms' : MicroService) : Prop :=
  ∃ offs, Switched onoff ms offs ms' ∧ (SwitchSafe onoff ms offs tis ↔ SwitchSafe onoff ms [] tis)

theorem Passed.refl (onoff : Bool) (tis : List LWMObject) (ms : MicroService) :
    Passed onoff tis ms ms :=
  ⟨[], .refl onoff ms, Iff.rfl⟩

theorem Passed.pass {s' : MicroService × UInt32} (h : Passed onoff tis ms s.1)
    (hloop : loop (offloardingTask onoff) s tis = .ok (s', stop)) : Passed onoff tis ms s'.1 := by
  obtain ⟨offs, hswitched, hiff⟩ := h
  have hsafe := (succeeds_offloardingTask onoff tis s hswitched).mp ⟨_, hloop⟩
  obtain ⟨offs', hafter, -, hagain⟩ := offloardingTasks_again hswitched hloop
  refine ⟨offs', hafter, iff_of_true ?_ (hiff.mp hsafe)⟩
  rcases hagain with ⟨-, hagain⟩ | ⟨hnull, hagain⟩
  · exact hagain offs'
  · exact hagain offs' (List.Subset.refl _) hnull

/-- The microservices as the loop over `mis` has left them. -/
structure PassedAll (onoff : Bool) (body : LWMDictionary) (services services' : List MicroService) :
    Prop where
  ids : SameView (fun _ => ()) services services'
  passed : ∀ tis, getLwmObjectFromDict body "tis".toList = .ok (some (.array tis)) →
    ∀ (i : Nat) ms ms', services[i]? = some ms → services'[i]? = some ms' → Passed onoff tis ms ms'

theorem PassedAll.refl (onoff : Bool) (body : LWMDictionary) (services : List MicroService) :
    PassedAll onoff body services services where
  ids := .refl _ services
  passed tis _ i ms ms' h h' := by
    cases h.symm.trans h'
    exact .refl onoff tis ms

theorem PassedAll.found {text : Option Text} (h : PassedAll onoff body services services')
    (hinfo : getMicroServiceInfoById services' text = some (ms', i)) :
    ∃ ms, getMicroServiceInfoById services text = some (ms, i) ∧
      ∀ tis, getLwmObjectFromDict body "tis".toList = .ok (some (.array tis)) →
        Passed onoff tis ms ms' := by
  obtain ⟨ms, hms, -⟩ := h.ids.found hinfo
  refine ⟨ms, hms, fun tis htis => ?_⟩
  exact h.passed tis htis i ms ms' (getMicroServiceInfoById_some hms) (getMicroServiceInfoById_some hinfo)

theorem succeeds_offloardingStep (h : PassedAll onoff body services s.1) (msid : LWMObject) :
    Succeeds (offloardingStep onoff body s msid) ↔
      Finds body "tis".toList fun tis => WhenArray tis fun tis => ∀ ms,
        serviceOf services msid = some ms → SwitchSafe onoff ms [] tis := by
  unfold offloardingStep serviceOf Finds
  rw [succeeds_bind]
  refine exists_congr fun value => and_congr_right fun hvalue => ?_
  cases hinfo : getMicroServiceInfoById s.1 msid.stringValue with
  | none =>
    refine iff_of_true (succeeds_pure _) fun tis _ => ?_
    rw [h.ids.notFound hinfo]
    rintro _ ⟨⟩
  | some p =>
    obtain ⟨ms', i⟩ := p
    obtain ⟨ms, hms, hpassed⟩ := h.found hinfo
    rw [hms]
    simp only [Option.map_some, Option.some.injEq, forall_eq']
    split
    · rename_i tis hservice
      cases hservice
      rw [whenArray_array]
      obtain ⟨offs, hswitched, hiff⟩ := hpassed tis hvalue
      refine (succeeds_bind_of fun _ _ => succeeds_pure _).trans ?_
      exact (succeeds_offloardingTask onoff tis (ms', s.2) hswitched).trans hiff
    · rename_i hnot
      exact iff_of_true (succeeds_pure _) fun tis h => absurd h (hnot ms' i tis rfl)

theorem PassedAll.step (h : PassedAll onoff body services s.1)
    (hstep : offloardingStep onoff body s msid = .ok s') : PassedAll onoff body services s'.1 := by
  unfold offloardingStep at hstep
  rw [bind_ok] at hstep
  obtain ⟨value, hvalue, hstep⟩ := hstep
  split at hstep
  · rename_i ms i tis hinfo
    simp only [bind_ok, pure_ok] at hstep
    obtain ⟨⟨⟨ms', rsc⟩, stopped⟩, hloop, rfl⟩ := hstep
    have hget := getMicroServiceInfoById_some hinfo
    obtain ⟨ms₀, hms₀, hpassed⟩ := h.found hinfo
    have hget₀ := getMicroServiceInfoById_some hms₀
    have hpass := (hpassed tis hvalue).pass hloop
    have hid : ms'.msId = ms.msId := by
      obtain ⟨_, hbefore, -⟩ := hpassed tis hvalue
      obtain ⟨_, hafter, -⟩ := hpass
      exact hafter.msId.trans hbefore.msId.symm
    refine ⟨h.ids.set hget hid rfl, fun tis' htis' j ms₁ ms₂ h₁ h₂ => ?_⟩
    cases htis'.symm.trans hvalue
    by_cases hij : i = j
    · subst hij
      rw [List.getElem?_set_self (List.getElem?_eq_some_iff.mp hget).1] at h₂
      cases h₂
      cases h₁.symm.trans hget₀
      exact hpass
    · rw [List.getElem?_set_ne hij] at h₂
      exact h.passed tis htis' j ms₁ ms₂ h₁ h₂
  · cases hstep
    exact h

theorem succeeds_lwmsgOffloarding (onoff : Bool) (services : List MicroService) (msg : LWMessage) :
    Succeeds (lwmsgOffloarding onoff services msg) ↔ OffloardingSafe onoff services msg.body := by
  refine succeeds_lookup (succeeds_whenArray fun mis => ?_) msg.body _
  split
  · rename_i hone
    refine Iff.trans ?_ (forall_prop_of_true hone).symm
    exact foldlM_succeeds_iff (I := fun s => PassedAll onoff msg.body services s.1)
      (fun _ _ _ hs h => hs.step h)
      (fun _ msid hs => succeeds_offloardingStep hs msid) mis (.refl onoff msg.body services)
  · rename_i hmany
    exact iff_of_true (succeeds_pure _) fun hone => absurd hone hmany

end IoTware.Dist
