import IoTware.Lib.Runs
import IoTware.Oal.Network

/-!
# Connection tasks

The tasks that `iw_init_network` starts to keep a WiFi or LoRa device connected, and
that `iw_deinit_network` ends. One handle stands for the tasks of all devices, and a
task finds its device by the type.
-/

namespace IoTware.Oal

open Runs

/-- A call of `iw_init_network`, and whether there is memory for a task, or one of
`iw_deinit_network`. -/
inductive NetworkCall
  | init (devId : Nat) (memory : Bool)
  | deinit (devId : Nat)

def NetworkCall.devId : NetworkCall → Nat
  | .init devId _ => devId
  | .deinit devId => devId

def NetworkCall.isInit : NetworkCall → Bool
  | .init .. => true
  | .deinit _ => false

/-- A task of `netConnectionTask`, with the type that is its argument. -/
structure ConnectionTask where
  handle : Nat
  type : NetType

/-- `connection_task_handle`, the connection tasks that are alive and the handle of the
next task. The calls so far, the last one first, are read by no code. -/
structure Connections where
  connectionTaskHandle : Option Nat
  tasks : List ConnectionTask
  nextHandle : Nat
  calls : List NetworkCall

def Connections.start : Connections := ⟨none, [], 0, []⟩

def createConnectionTask (s : Connections) (type : NetType) (memory : Bool) :
    Connections × Option Nat :=
  if memory then
    ({ s with tasks := ⟨s.nextHandle, type⟩ :: s.tasks, nextHandle := s.nextHandle + 1 },
      some s.nextHandle)
  else (s, none)

def deleteConnectionTask (s : Connections) (handle : Nat) : Connections :=
  { s with tasks := s.tasks.filter fun task => task.handle ≠ handle }

def NetType.Connects (type : NetType) : Prop := type = .wifi ∨ type = .lora

instance (type : NetType) : Decidable type.Connects := inferInstanceAs (Decidable (_ ∨ _))

def initNetwork (neti : NetInfo) (driver : IwError) (memory : Bool) (s : Connections) (devId : Nat) :
    Connections × IwError :=
  match neti.dev[devId]? with
  | none => (s, .fail)
  | some dev =>
    if dev.type = 0 then (s, .fail)
    else if dev.func = false then (s, .fail)
    else if driver = .fail then (s, .fail)
    else if dev.type.Connects then
      let (s, task) := createConnectionTask s dev.type memory
      let s := { s with connectionTaskHandle := task }
      if task = none then (s, .fail) else (s, .success)
    else (s, .success)

/-- `iw_deinit_network`: only the driver is told which device it is. -/
def deinitNetwork (s : Connections) : Connections × IwError :=
  match s.connectionTaskHandle with
  | some handle => ({ deleteConnectionTask s handle with connectionTaskHandle := none }, .success)
  | none => (s, .success)

def ConnectionTask.devId (neti : NetInfo) (task : ConnectionTask) : Option Nat :=
  getNetworkDevid neti task.type none

def networkCall (neti : NetInfo) (s : Connections) (call : NetworkCall) : Connections :=
  let s := { s with calls := call :: s.calls }
  match call with
  | .init devId memory => (initNetwork neti .success memory s devId).1
  | .deinit _ => (deinitNetwork s).1

/-- A step is a call for a device that is registered and has a driver. -/
def NetworkStep (neti : NetInfo) (s : Connections) (call : NetworkCall) (s' : Connections) : Prop :=
  (∃ dev ∈ neti.dev[call.devId]?, dev.func = true) ∧ s' = networkCall neti s call

-- ---------------------------------------------------------------------------
-- What is to hold
-- ---------------------------------------------------------------------------

def NetInfo.IsConnection (neti : NetInfo) (d : Nat) : Prop := ∃ dev ∈ neti.dev[d]?, dev.type.Connects

instance (neti : NetInfo) (d : Nat) : Decidable (neti.IsConnection d) :=
  inferInstanceAs (Decidable (∃ dev ∈ neti.dev[d]?, dev.type.Connects))

def LastInit (calls : List NetworkCall) (d : Nat) : Prop :=
  (calls.find? (·.devId = d)).any NetworkCall.isInit

instance (calls : List NetworkCall) (d : Nat) : Decidable (LastInit calls d) :=
  inferInstanceAs (Decidable (_ = true))

/-- A connection task operates on a device exactly if its last call was an init, and one
task at most. -/
structure OneTaskEach (neti : NetInfo) (s : Connections) : Prop where
  alive_iff : ∀ d, neti.IsConnection d →
    ((∃ task ∈ s.tasks, task.devId neti = some d) ↔ LastInit s.calls d)
  one : ∀ d, neti.IsConnection d → s.tasks.countP (fun task => task.devId neti = some d) ≤ 1

/-- The device for which a task was started last, unless there was a deinit after it or
no memory for a task. -/
def startedLast (neti : NetInfo) : List NetworkCall → Option Nat
  | [] => none
  | .deinit _ :: _ => none
  | .init d memory :: calls =>
    if neti.IsConnection d then if memory then some d else none else startedLast neti calls

/-- No device that was registered later has a bit of the type of the device. -/
def LastOfType (neti : NetInfo) (d : Nat) : Prop :=
  ∀ dev ∈ neti.dev[d]?, ∀ later ∈ neti.dev.drop (d + 1), later.type &&& dev.type = 0

/-- The calls under which the one handle and the types are enough: an init, with memory
for a task, of a device that is the last one of its type and not initialised already,
or, without memory, of one that is; a deinit of the device for which a task was started
last, or, where there is no such device, of one that is not initialised. -/
def Undisturbed (neti : NetInfo) (calls : List NetworkCall) : NetworkCall → Prop
  | .init d true => neti.IsConnection d → LastOfType neti d ∧ ¬ LastInit calls d
  | .init d false => neti.IsConnection d → LastInit calls d
  | .deinit d =>
    (∀ e, startedLast neti calls = some e → d = e) ∧
      (startedLast neti calls = none → neti.IsConnection d → ¬ LastInit calls d)

-- ---------------------------------------------------------------------------
-- The device of a task
-- ---------------------------------------------------------------------------

def NetDevInfo.Shares (type : NetType) (dev : NetDevInfo) : Prop := type > 0 ∧ dev.type &&& type ≠ 0

theorem devidFrom_some (h : devidFrom type none i found devs = some d) :
    (found = some d ∧ ∀ dev ∈ devs, ¬ dev.Shares type) ∨
      ∃ before dev after, devs = before ++ dev :: after ∧ d = i + before.length ∧ dev.Shares type ∧
        ∀ later ∈ after, ¬ later.Shares type := by
  induction devs generalizing i found with
  | nil => exact .inl ⟨h, nofun⟩
  | cons dev devs ih =>
    rw [devidFrom] at h
    split at h
    · rename_i hdev
      rcases ih h with ⟨hfound, hnone⟩ | ⟨before, dev', after, rfl, rfl, hlast⟩
      · cases hfound
        exact .inr ⟨[], dev, devs, rfl, rfl, hdev, hnone⟩
      · exact .inr ⟨dev :: before, dev', after, rfl, by rw [List.length_cons]; omega, hlast⟩
    · rename_i hdev
      rcases ih h with ⟨hfound, hnone⟩ | ⟨before, dev', after, rfl, rfl, hlast⟩
      · exact .inl ⟨hfound, List.forall_mem_cons.mpr ⟨hdev, hnone⟩⟩
      · exact .inr ⟨dev :: before, dev', after, rfl, by rw [List.length_cons]; omega, hlast⟩

theorem devidFrom_append (before rest : List NetDevInfo) (i : Nat) (found : Option Nat) :
    devidFrom type none i found (before ++ rest) =
      devidFrom type none (i + before.length) (devidFrom type none i found before) rest := by
  induction before generalizing i found with
  | nil => rfl
  | cons dev before ih =>
    rw [List.cons_append, devidFrom, devidFrom, List.length_cons, ← Nat.add_assoc, Nat.add_right_comm]
    split
    · exact ih ..
    · exact ih ..

theorem devidFrom_none (h : ∀ dev ∈ devs, ¬ dev.Shares type) (i : Nat) (found : Option Nat) :
    devidFrom type none i found devs = found := by
  induction devs generalizing i with
  | nil => rfl
  | cons dev devs ih =>
    rw [List.forall_mem_cons] at h
    have hdev : ¬ (type > 0 ∧ dev.type &&& type ≠ 0) := h.1
    rw [devidFrom, if_neg hdev, ih h.2]

theorem NetType.Connects.pos {type : NetType} (h : type.Connects) : type > 0 := by
  rcases h with rfl | rfl <;> decide

theorem NetType.Connects.eq_of_and {type type' : NetType} (h : type.Connects) (h' : type'.Connects)
    (hand : type &&& type' ≠ 0) : type' = type := by
  rcases h with rfl | rfl <;> rcases h' with rfl | rfl
  · rfl
  · exact absurd (by decide) hand
  · exact absurd (by decide) hand
  · rfl

theorem NetType.Connects.and_self {type : NetType} (h : type.Connects) : type &&& type ≠ 0 := by
  rcases h with rfl | rfl <;> decide

theorem getNetworkDevid_some (h : getNetworkDevid neti type none = some d)
    (hdev : neti.dev[d]? = some dev) :
    dev.Shares type ∧ ∀ later ∈ neti.dev.drop (d + 1), ¬ later.Shares type := by
  rcases devidFrom_some h with ⟨hfound, -⟩ | ⟨before, dev', after, heq, rfl, hshares, hlast⟩
  · cases hfound
  · rw [Nat.zero_add] at hdev ⊢
    rw [heq, getElem?_middle] at hdev
    cases hdev
    rw [heq, List.drop_append, List.drop_of_length_le (Nat.le_succ _), Nat.add_sub_cancel_left]
    exact ⟨hshares, hlast⟩

theorem getNetworkDevid_eq_iff (hdev : neti.dev[d]? = some dev) (hconn : dev.type.Connects) :
    getNetworkDevid neti dev.type none = some d ↔ LastOfType neti d := by
  have hiff (later : NetDevInfo) : ¬ later.Shares dev.type ↔ later.type &&& dev.type = 0 := by
    unfold NetDevInfo.Shares
    rw [and_iff_right hconn.pos, not_not]
  constructor
  · intro h dev' hdev' later hlater
    cases hdev.symm.trans hdev'
    exact (hiff later).mp ((getNetworkDevid_some h hdev).2 later hlater)
  · intro h
    obtain ⟨hlt, hget⟩ := List.getElem?_eq_some_iff.mp hdev
    have hlast : ∀ later ∈ neti.dev.drop (d + 1), ¬ later.Shares dev.type := fun later hlater =>
      (hiff later).mpr (h dev hdev later hlater)
    have hsplit : neti.dev = neti.dev.take d ++ dev :: neti.dev.drop (d + 1) := by
      rw [← hget, ← List.drop_eq_getElem_cons hlt, List.take_append_drop]
    unfold getNetworkDevid
    rw [hsplit, devidFrom_append, devidFrom, if_pos ⟨hconn.pos, hconn.and_self⟩, devidFrom_none hlast,
      List.length_take_of_le (Nat.le_of_lt hlt), Nat.zero_add]

theorem ConnectionTask.type_eq {task : ConnectionTask} (h : task.devId neti = some d)
    (htask : task.type.Connects) (hdev : neti.dev[d]? = some dev) (hconn : dev.type.Connects) :
    task.type = dev.type :=
  hconn.eq_of_and htask (getNetworkDevid_some h hdev).1.2

-- ---------------------------------------------------------------------------
-- The calls so far
-- ---------------------------------------------------------------------------

theorem lastInit_same (h : call.devId = d) : LastInit (call :: calls) d ↔ call.isInit = true := by
  unfold LastInit
  rw [List.find?_cons_of_pos (by simpa using h)]
  rfl

theorem lastInit_other (h : call.devId ≠ d) : LastInit (call :: calls) d ↔ LastInit calls d := by
  unfold LastInit
  rw [List.find?_cons_of_neg (by simpa using h)]

theorem startedLast_some (h : startedLast neti calls = some e) :
    neti.IsConnection e ∧ LastInit calls e := by
  induction calls with
  | nil => cases h
  | cons call calls ih =>
    cases call with
    | deinit d => cases h
    | init d memory =>
      rw [startedLast] at h
      split at h
      · rename_i hconn
        cases memory with
        | false => cases h
        | true =>
          cases h
          exact ⟨hconn, (lastInit_same rfl).mpr rfl⟩
      · rename_i hconn
        obtain ⟨hconn', hlast⟩ := ih h
        have hne : d ≠ e := fun heq => hconn (heq ▸ hconn')
        have hother : LastInit (.init d memory :: calls) e ↔ LastInit calls e := lastInit_other hne
        exact ⟨hconn', hother.mpr hlast⟩

-- ---------------------------------------------------------------------------
-- What a call does
-- ---------------------------------------------------------------------------

theorem networkCall_init (hdev : neti.dev[d]? = some dev) (hfunc : dev.func = true) (memory : Bool) :
    networkCall neti s (.init d memory) =
      if dev.type.Connects then
        let (s', task) := createConnectionTask s dev.type memory
        { s' with connectionTaskHandle := task, calls := .init d memory :: s.calls }
      else { s with calls := .init d memory :: s.calls } := by
  have hzero (hconn : dev.type.Connects) : dev.type ≠ 0 := fun heq => by
    have := hconn.pos
    rw [heq] at this
    exact absurd this (by decide)
  have hfunc' : ¬ dev.func = false := by rw [hfunc]; nofun
  have hdriver : ¬ IwError.success = IwError.fail := nofun
  unfold networkCall initNetwork
  dsimp only
  rw [hdev]
  dsimp only
  rw [if_neg hfunc', if_neg hdriver]
  split
  · rename_i heq
    rw [if_neg fun hconn => hzero hconn heq]
  · split
    · cases memory <;> rfl
    · rfl

/-- The tasks are of connection types, and the handle is the one of the task that was
started last. -/
structure Linked (neti : NetInfo) (s : Connections) : Prop where
  connects : ∀ task ∈ s.tasks, task.type.Connects
  handle_lt : ∀ task ∈ s.tasks, task.handle < s.nextHandle
  unnamed : s.connectionTaskHandle = none → startedLast neti s.calls = none
  named : ∀ handle, s.connectionTaskHandle = some handle →
    ∃ e dev, startedLast neti s.calls = some e ∧ neti.dev[e]? = some dev ∧
      ⟨handle, dev.type⟩ ∈ s.tasks ∧ ∀ task ∈ s.tasks, task.handle = handle → task.type = dev.type

theorem linked_start (neti : NetInfo) : Linked neti .start :=
  ⟨nofun, nofun, fun _ => rfl, nofun⟩

theorem Linked.networkStep (h : Linked neti s) (hstep : NetworkStep neti s call s') :
    Linked neti s' := by
  obtain ⟨⟨dev, hdev, hfunc⟩, rfl⟩ := hstep
  cases call with
  | init d memory =>
    have hdev : neti.dev[d]? = some dev := hdev
    rw [networkCall_init hdev hfunc]
    by_cases hconn : dev.type.Connects
    · have hstarted : startedLast neti (.init d memory :: s.calls) = if memory then some d else none :=
        if_pos ⟨dev, hdev, hconn⟩
      rw [if_pos hconn]
      cases memory with
      | false => exact ⟨h.connects, h.handle_lt, fun _ => hstarted, nofun⟩
      | true =>
        have hlt : ∀ task ∈ s.tasks, task.handle < s.nextHandle + 1 := fun task htask =>
          Nat.lt_succ_of_lt (h.handle_lt task htask)
        refine ⟨List.forall_mem_cons.mpr ⟨hconn, h.connects⟩,
          List.forall_mem_cons.mpr ⟨Nat.lt_succ_self _, hlt⟩, nofun, ?_⟩
        rintro handle ⟨⟩
        refine ⟨d, dev, hstarted, hdev, List.mem_cons_self, List.forall_mem_cons.mpr ⟨fun _ => rfl, ?_⟩⟩
        intro task htask heq
        exact absurd heq (Nat.ne_of_lt (h.handle_lt task htask))
    · have hconn' : ¬ neti.IsConnection d := by
        rintro ⟨dev', hdev', hconn'⟩
        cases hdev.symm.trans hdev'
        exact hconn hconn'
      have hstarted : startedLast neti (.init d memory :: s.calls) = startedLast neti s.calls :=
        if_neg hconn'
      rw [if_neg hconn]
      refine ⟨h.connects, h.handle_lt, fun hnone => hstarted.trans (h.unnamed hnone), ?_⟩
      intro handle hsome
      obtain ⟨e, dev', hlast, hrest⟩ := h.named handle hsome
      exact ⟨e, dev', hstarted.trans hlast, hrest⟩
  | deinit d =>
    unfold networkCall deinitNetwork
    dsimp only
    split
    · exact ⟨fun task htask => h.connects task (List.mem_of_mem_filter htask),
        fun task htask => h.handle_lt task (List.mem_of_mem_filter htask), fun _ => rfl, nofun⟩
    · rename_i hnone
      refine ⟨h.connects, h.handle_lt, fun _ => rfl, fun handle hsome => ?_⟩
      cases hnone.symm.trans hsome

-- ---------------------------------------------------------------------------
-- When a call keeps one task for each device
-- ---------------------------------------------------------------------------

/-- The number of the tasks that operate on a device. -/
def tasksOn (neti : NetInfo) (s : Connections) (d : Nat) : Nat :=
  s.tasks.countP fun task => task.devId neti = some d

theorem tasksOn_pos_iff : 0 < tasksOn neti s d ↔ ∃ task ∈ s.tasks, task.devId neti = some d := by
  unfold tasksOn
  rw [List.countP_pos_iff]
  simp

theorem oneTaskEach_iff : OneTaskEach neti s ↔
    ∀ d, neti.IsConnection d → tasksOn neti s d = if LastInit s.calls d then 1 else 0 := by
  constructor
  · intro h d hd
    have hiff := tasksOn_pos_iff.trans (h.alive_iff d hd)
    have hone : tasksOn neti s d ≤ 1 := h.one d hd
    split
    · rename_i hlast
      have := hiff.mpr hlast
      omega
    · rename_i hlast
      have hzero : ¬ 0 < tasksOn neti s d := fun hpos => hlast (hiff.mp hpos)
      omega
  · intro h
    refine ⟨fun d hd => ?_, fun d hd => ?_⟩
    · rw [← tasksOn_pos_iff, h d hd]
      split <;> simp_all
    · have := h d hd
      unfold tasksOn at this
      split at this <;> omega

theorem OneTaskEach.tasksOn_eq_one_iff (h : OneTaskEach neti s) (hd : neti.IsConnection d) :
    tasksOn neti s d = 1 ↔ LastInit s.calls d := by
  rw [oneTaskEach_iff.mp h d hd]
  split <;> simp_all

theorem OneTaskEach.tasksOn_eq_zero_iff (h : OneTaskEach neti s) (hd : neti.IsConnection d) :
    tasksOn neti s d = 0 ↔ ¬ LastInit s.calls d := by
  rw [oneTaskEach_iff.mp h d hd]
  split <;> simp_all

theorem OneTaskEach.next_iff (h : OneTaskEach neti s) (hcalls : s'.calls = call :: s.calls) :
    OneTaskEach neti s' ↔
      (neti.IsConnection call.devId →
        tasksOn neti s' call.devId = if call.isInit then 1 else 0) ∧
      ∀ d, d ≠ call.devId → neti.IsConnection d → tasksOn neti s' d = tasksOn neti s d := by
  rw [oneTaskEach_iff, hcalls]
  constructor
  · intro h'
    refine ⟨fun hconn => ?_, fun d hne hconn => ?_⟩
    · rw [h' _ hconn]
      exact if_congr (lastInit_same rfl) rfl rfl
    · rw [h' d hconn, oneTaskEach_iff.mp h d hconn]
      exact if_congr (lastInit_other (Ne.symm hne)) rfl rfl
  · rintro ⟨hsame, hothers⟩ d hconn
    by_cases heq : d = call.devId
    · subst heq
      rw [hsame hconn]
      exact (if_congr (lastInit_same rfl) rfl rfl).symm
    · rw [hothers d heq hconn, oneTaskEach_iff.mp h d hconn]
      exact (if_congr (lastInit_other (Ne.symm heq)) rfl rfl).symm

theorem Linked.devId_of_pos (h : Linked neti s) (hdev : neti.dev[d]? = some dev)
    (hconn : dev.type.Connects) (hpos : 0 < tasksOn neti s d) :
    getNetworkDevid neti dev.type none = some d := by
  obtain ⟨task, htask, hid⟩ := tasksOn_pos_iff.mp hpos
  rw [← task.type_eq hid (h.connects task htask) hdev hconn]
  exact hid

theorem OneTaskEach.init_memory_iff (h : OneTaskEach neti s) (hlink : Linked neti s)
    (hdev : neti.dev[d]? = some dev) (hconn : dev.type.Connects)
    (hcalls : s'.calls = .init d true :: s.calls) (htasks : s'.tasks = ⟨handle, dev.type⟩ :: s.tasks) :
    OneTaskEach neti s' ↔ LastOfType neti d ∧ ¬ LastInit s.calls d := by
  have hd : neti.IsConnection d := ⟨dev, hdev, hconn⟩
  have hcount (e : Nat) : tasksOn neti s' e =
      tasksOn neti s e + if getNetworkDevid neti dev.type none = some e then 1 else 0 := by
    unfold tasksOn
    rw [htasks, List.countP_cons]
    exact congrArg _ (if_congr decide_eq_true_iff rfl rfl)
  rw [h.next_iff hcalls, ← getNetworkDevid_eq_iff hdev hconn, ← h.tasksOn_eq_zero_iff hd]
  simp only [hcount]
  constructor
  · rintro ⟨hsame, -⟩
    have hone : tasksOn neti s d + (if getNetworkDevid neti dev.type none = some d then 1 else 0) = 1 :=
      hsame hd
    by_cases hfind : getNetworkDevid neti dev.type none = some d
    · rw [if_pos hfind] at hone
      exact ⟨hfind, by omega⟩
    · rw [if_neg hfind] at hone
      exact absurd (hlink.devId_of_pos hdev hconn (by omega)) hfind
  · rintro ⟨hfind, hzero⟩
    refine ⟨fun _ => ?_, fun e hne _ => ?_⟩
    · show tasksOn neti s d + (if getNetworkDevid neti dev.type none = some d then 1 else 0) = 1
      rw [hzero, if_pos hfind]
    · rw [if_neg fun hfind' => hne (Option.some.inj (hfind'.symm.trans hfind)), Nat.add_zero]

theorem OneTaskEach.deinit_some_iff (h : OneTaskEach neti s) (hlink : Linked neti s)
    (hhandle : s.connectionTaskHandle = some handle) (hlast : startedLast neti s.calls = some e)
    (hcalls : s'.calls = .deinit d :: s.calls)
    (htasks : s'.tasks = s.tasks.filter (·.handle ≠ handle)) :
    OneTaskEach neti s' ↔ d = e := by
  obtain ⟨e', dev, hlast', hdev, hmem, hnamed⟩ := hlink.named handle hhandle
  cases hlast.symm.trans hlast'
  obtain ⟨hconn, hinit⟩ := startedLast_some hlast
  have hconnects : dev.type.Connects := hlink.connects _ hmem
  have hone := (h.tasksOn_eq_one_iff hconn).mpr hinit
  have hfind := hlink.devId_of_pos hdev hconnects (by omega)
  -- the tasks that are left and those that the handle names
  have hsplit (k : Nat) : tasksOn neti s k = tasksOn neti s' k +
      (s.tasks.filter (·.handle = handle)).countP (fun task => task.devId neti = some k) := by
    unfold tasksOn
    rw [htasks, List.countP_eq_countP_filter_add _ _ fun task => decide (task.handle ≠ handle)]
    simp only [decide_not, Bool.not_not]
  have hnamedOn (k : Nat) (hk : k ≠ e) :
      (s.tasks.filter (·.handle = handle)).countP (fun task => task.devId neti = some k) = 0 := by
    rw [List.countP_eq_zero]
    intro task htask hon
    rw [List.mem_filter] at htask
    unfold ConnectionTask.devId at hon
    rw [hnamed task htask.1 (of_decide_eq_true htask.2), hfind] at hon
    exact hk (Option.some.inj (of_decide_eq_true hon)).symm
  have hzero : tasksOn neti s' e = 0 := by
    have hnamedPos : 0 <
        (s.tasks.filter (·.handle = handle)).countP (fun task => task.devId neti = some e) := by
      rw [List.countP_pos_iff]
      exact ⟨_, List.mem_filter.mpr ⟨hmem, decide_eq_true rfl⟩, decide_eq_true hfind⟩
    have := hsplit e
    omega
  rw [h.next_iff hcalls]
  constructor
  · rintro ⟨-, hothers⟩
    by_contra hne
    have := hothers e (Ne.symm hne) hconn
    omega
  · rintro rfl
    refine ⟨fun _ => hzero, fun k hk _ => ?_⟩
    rw [hsplit k, hnamedOn k hk, Nat.add_zero]

theorem OneTaskEach.same_tasks_iff (h : OneTaskEach neti s) (hcalls : s'.calls = call :: s.calls)
    (htasks : s'.tasks = s.tasks) :
    OneTaskEach neti s' ↔
      (neti.IsConnection call.devId → (LastInit s.calls call.devId ↔ call.isInit = true)) := by
  have hcount (d : Nat) : tasksOn neti s' d = tasksOn neti s d := by
    unfold tasksOn
    rw [htasks]
  rw [h.next_iff hcalls, and_iff_left fun d _ _ => hcount d, hcount]
  refine forall_congr' fun hconn => ?_
  rw [oneTaskEach_iff.mp h _ hconn]
  split <;> split <;> simp_all

/-- A call keeps one task for each device exactly if it is one of the calls under which
the handle and the types are enough. -/
theorem OneTaskEach.networkStep_iff (hstep : NetworkStep neti s call s') (hlink : Linked neti s)
    (h : OneTaskEach neti s) : OneTaskEach neti s' ↔ Undisturbed neti s.calls call := by
  obtain ⟨⟨dev, hdev, hfunc⟩, rfl⟩ := hstep
  cases call with
  | init d memory =>
    have hdev : neti.dev[d]? = some dev := hdev
    have hconn_iff : neti.IsConnection d ↔ dev.type.Connects := by
      refine ⟨?_, fun hconn => ⟨dev, hdev, hconn⟩⟩
      rintro ⟨dev', hdev', hconn⟩
      cases hdev.symm.trans hdev'
      exact hconn
    rw [networkCall_init hdev hfunc]
    by_cases hconn : dev.type.Connects
    · rw [if_pos hconn]
      cases memory with
      | true =>
        refine (h.init_memory_iff hlink hdev hconn rfl rfl).trans ?_
        exact ⟨fun hok _ => hok, fun hok => hok (hconn_iff.mpr hconn)⟩
      | false =>
        refine (h.same_tasks_iff (by rfl) (by rfl)).trans ?_
        exact forall_congr' fun _ => iff_true_right rfl
    · have hnot : ¬ neti.IsConnection d := fun hd => hconn (hconn_iff.mp hd)
      rw [if_neg hconn]
      refine (h.same_tasks_iff (by rfl) (by rfl)).trans ?_
      cases memory <;> exact iff_of_true (fun hd => absurd hd hnot) fun hd => absurd hd hnot
  | deinit d =>
    unfold networkCall deinitNetwork
    dsimp only
    split
    · rename_i handle hhandle
      obtain ⟨e, -, hlast, -⟩ := hlink.named handle hhandle
      refine (h.deinit_some_iff hlink hhandle hlast rfl rfl).trans ?_
      unfold Undisturbed
      simp [hlast]
    · rename_i hhandle
      refine (h.same_tasks_iff (by rfl) (by rfl)).trans ?_
      unfold Undisturbed
      simp [hlink.unnamed hhandle, NetworkCall.devId, NetworkCall.isInit]

theorem oneTaskEach_start (neti : NetInfo) : OneTaskEach neti .start :=
  oneTaskEach_iff.mpr fun _ _ => rfl

/-- In a run, each device has its one task all the time exactly if no call of the run
is one that disturbs it. -/
theorem oneTaskEach_always_iff (hrun : Run (NetworkStep neti) .start run s) :
    (∀ t ∈ visited run s, OneTaskEach neti t) ↔ ∀ x ∈ run, Undisturbed neti x.1.calls x.2 :=
  hrun.always_iff (linked_start neti) (oneTaskEach_start neti)
    (fun _ _ _ hlink hstep => hlink.networkStep hstep)
    fun _ _ _ hlink h hstep => h.networkStep_iff hstep hlink

def sampleTwoNets : NetInfo where
  dev := [sampleWifi, ⟨.lora, ['l', 'o', 'r', 'a'], true, by decide, by decide⟩]
  dev_le := by decide

def afterCalls (calls : List NetworkCall) : Connections :=
  calls.foldl (networkCall sampleTwoNets) .start

theorem run_two_nets :
    (∀ t ∈ visited [(.start, NetworkCall.init 1 true), (afterCalls [.init 1 true], .deinit 1)]
        (afterCalls [.init 1 true, .deinit 1]), OneTaskEach sampleTwoNets t) ↔
      ∀ x ∈ [(.start, NetworkCall.init 1 true), (afterCalls [.init 1 true], .deinit 1)],
        Undisturbed sampleTwoNets x.1.calls x.2 := by
  have hrun : Run (NetworkStep sampleTwoNets) .start
      [(.start, .init 1 true), (afterCalls [.init 1 true], .deinit 1)]
      (afterCalls [.init 1 true, .deinit 1]) :=
    (Run.start.step ⟨⟨_, rfl, rfl⟩, rfl⟩).step ⟨⟨_, rfl, rfl⟩, rfl⟩
  exact oneTaskEach_always_iff hrun

/-- The WiFi device is ended, and it is the task of the LoRa device that ends. -/
theorem deinit_of_other :
    ∃ run s, Run (NetworkStep sampleTwoNets) .start run s ∧ ¬ OneTaskEach sampleTwoNets s := by
  have hrun : Run (NetworkStep sampleTwoNets) .start
      [(.start, .init 0 true), (afterCalls [.init 0 true], .init 1 true),
        (afterCalls [.init 0 true, .init 1 true], .deinit 0)]
      (afterCalls [.init 0 true, .init 1 true, .deinit 0]) :=
    ((Run.start.step ⟨⟨_, rfl, rfl⟩, rfl⟩).step ⟨⟨_, rfl, rfl⟩, rfl⟩).step ⟨⟨_, rfl, rfl⟩, rfl⟩
  refine ⟨_, _, hrun, fun h => ?_⟩
  have halive := (h.alive_iff 1 (by decide)).mpr (by decide)
  revert halive
  decide

end IoTware.Oal
