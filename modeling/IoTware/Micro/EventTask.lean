import Mathlib.Logic.Function.Basic
import IoTware.Lib.Runs
import IoTware.Micro.Create

/-!
# Event tasks

`base_task_type1` and `base_task_type2`: a loop that takes an item from an input
queue, calls the functions of the task, and sends its output to the tasks it is
connected with. What the functions do to the memory they work on is the
application's. The body of the loop does all of this, but the loop ends before
its first turn.
-/

namespace IoTware.Micro

open Runs

variable {σ α β : Type}

/-- The functions of a task over the memory they work on, called with the number
of the queue and the item; one may be NULL. `before_fn` reports whether there is
an output, which is then at `output_ptr`. -/
structure TaskFns (σ α β : Type) where
  beforeFn : Option (σ → Nat → α → σ × Bool)
  afterFn : Option (σ → Nat → α → σ)
  outputPtr : σ → β

/-- What a task does, seen from outside. A sent output goes to an input queue of
another task. -/
inductive TaskAction (α β : Type)
  | received (queueNum : Nat) (item : α)
  | before
  | sent (destTask : TaskId) (inputPortNo : UInt32) (output : β)
  | after

/-- The task and its input queues: their items, and the queues of the queue set
in the order in which they were activated. -/
structure EventTask (σ α β : Type) where
  queues : Handle → List α
  queueSet : List Handle
  memory : σ
  state : StateType
  ended : Bool
  log : List (TaskAction α β)

-- ---------------------------------------------------------------------------
-- The body of the loop
-- ---------------------------------------------------------------------------

/-- The call of `before_fn`: the zeroed `beforeReturn` has no output. -/
def callBefore (fns : TaskFns σ α β) (m : σ) (queueNum : Nat) (item : α) :
    (σ × Bool) × List (TaskAction α β) :=
  match fns.beforeFn with
  | none => ((m, false), [])
  | some beforeFn => (beforeFn m queueNum item, [.before])

def callAfter (fns : TaskFns σ α β) (m : σ) (queueNum : Nat) (item : α) :
    σ × List (TaskAction α β) :=
  match fns.afterFn with
  | none => (m, [])
  | some afterFn => (afterFn m queueNum item, [.after])

def sendOutput (output : β) : List (Option ConnectLine) → List (TaskAction α β)
  | [] => []
  | none :: ports => sendOutput output ports
  | some line :: ports => .sent line.destTask line.inputPortNo output :: sendOutput output ports

def processItem (fns : TaskFns σ α β) (ti : TaskInfo) (m : σ) (queueNum : Nat) (item : α) :
    σ × List (TaskAction α β) :=
  let ((m, hasOutput), before) := callBefore fns m queueNum item
  let sent := if hasOutput then sendOutput (fns.outputPtr m) ti.outputPorts else []
  let (m, after) := callAfter fns m queueNum item
  (m, .received queueNum item :: before ++ sent ++ after)

def receive (fns : TaskFns σ α β) (ti : TaskInfo) (s : EventTask σ α β) (queue : Handle)
    (queueNum : Nat) : EventTask σ α β :=
  match s.queues queue with
  | [] => s
  | item :: items =>
    let (m, actions) := processItem fns ti s.memory queueNum item
    { s with
      queues := Function.update s.queues queue items
      memory := m, state := .running, log := s.log ++ actions }

/-- The body of `base_task_type1`: the queue set names the queue. -/
def iterate1 (fns : TaskFns σ α β) (ti : TaskInfo) (s : EventTask σ α β) : EventTask σ α β :=
  let s := { s with state := .created }
  match s.queueSet with
  | [] => s
  | queue :: rest =>
    let s := { s with queueSet := rest }
    match ti.inputQueues.findIdx? fun q => q = some queue with
    | none => s
    | some queueNum => receive fns ti s queue queueNum

/-- The body of `base_task_type2`: it waits for an item of the first queue. -/
def iterate2 (fns : TaskFns σ α β) (ti : TaskInfo) (s : EventTask σ α β) : EventTask σ α β :=
  let s := { s with state := .created }
  match ti.inputQueues[0]?.join with
  | none => s
  | some queue => receive fns ti s queue 0

inductive EventTaskFn
  | baseTaskType1 | baseTaskType2

def EventTaskFn.iterate : EventTaskFn → TaskFns σ α β → TaskInfo → EventTask σ α β → EventTask σ α β
  | .baseTaskType1 => iterate1
  | .baseTaskType2 => iterate2

-- ---------------------------------------------------------------------------
-- Runs
-- ---------------------------------------------------------------------------

def loopCondition : Int32 := 1

/-- The test of the loop, `loop_condition == FALSE`. -/
def loopTest : Bool := loopCondition = 0

def turn (test : Bool) (fn : EventTaskFn) (fns : TaskFns σ α β) (ti : TaskInfo)
    (s : EventTask σ α β) : EventTask σ α β :=
  if s.ended then s
  else if test then fn.iterate fns ti s
  else { s with state := .stopped, ended := true }

/-- An item is placed in an input queue, or the task gets its turn. -/
inductive EventTaskEvent (α : Type)
  | place (queue : Handle) (item : α)
  | turn

inductive EventTaskStep (test : Bool) (fn : EventTaskFn) (fns : TaskFns σ α β) (ti : TaskInfo) :
    EventTask σ α β → EventTaskEvent α → EventTask σ α β → Prop
  | place : some queue ∈ ti.inputQueues →
      EventTaskStep test fn fns ti s (.place queue item)
        { s with
          queues := Function.update s.queues queue (s.queues queue ++ [item])
          queueSet := s.queueSet ++ [queue] }
  | turn : EventTaskStep test fn fns ti s .turn (turn test fn fns ti s)

def started (m : σ) : EventTask σ α β where
  queues := fun _ => []
  queueSet := []
  memory := m
  state := .created
  ended := false
  log := []

def EventTaskEvent.placed : EventTaskEvent α → Option (Handle × α)
  | .place queue item => some (queue, item)
  | .turn => none

def placed (events : List (EventTaskEvent α)) : List (Handle × α) := events.filterMap EventTaskEvent.placed

def itemsOf (queue : Handle) (items : List (Handle × α)) : List (Handle × α) :=
  items.filter fun item => item.1 = queue

-- ---------------------------------------------------------------------------
-- The data flow
-- ---------------------------------------------------------------------------

def portOf (ti : TaskInfo) (queue : Handle) : Nat := ti.inputQueues.idxOf (some queue)

/-- What is to be done with an item: `before_fn`, the output to every port that is
connected, and `after_fn`. -/
def itemActions (fns : TaskFns σ α β) (ti : TaskInfo) (m : σ) (queueNum : Nat) (item : α) :
    σ × List (TaskAction α β) :=
  let before := (fns.beforeFn.map fun beforeFn => beforeFn m queueNum item).getD (m, false)
  let after := (fns.afterFn.map fun afterFn => afterFn before.1 queueNum item).getD before.1
  (after,
    [.received queueNum item] ++ (if fns.beforeFn.isSome then [.before] else []) ++
      (if before.2 then
        ti.outputPorts.filterMap fun port =>
          port.map fun line => .sent line.destTask line.inputPortNo (fns.outputPtr before.1)
      else []) ++
      if fns.afterFn.isSome then [.after] else [])

/-- What is to be done with a list of items, one after the other. -/
def flow (fns : TaskFns σ α β) (ti : TaskInfo) : σ → List (Handle × α) → σ × List (TaskAction α β)
  | m, [] => (m, [])
  | m, (queue, item) :: items =>
    let (m, actions) := itemActions fns ti m (portOf ti queue) item
    let (m, rest) := flow fns ti m items
    (m, actions ++ rest)

/-- All items are consumed, those of a queue in the order they were placed in it,
and what the task has done is what is to be done with them. -/
def DataFlow (fns : TaskFns σ α β) (ti : TaskInfo) (m : σ) (items : List (Handle × α))
    (log : List (TaskAction α β)) : Prop :=
  ∃ consumed, (∀ queue, itemsOf queue consumed = itemsOf queue items) ∧
    log = (flow fns ti m consumed).2

-- ---------------------------------------------------------------------------
-- The body does what is to be done
-- ---------------------------------------------------------------------------

theorem sendOutput_eq_filterMap (output : β) (ports : List (Option ConnectLine)) :
    (sendOutput output ports : List (TaskAction α β)) =
      ports.filterMap fun port => port.map fun line => .sent line.destTask line.inputPortNo output := by
  induction ports with
  | nil => rfl
  | cons port ports ih =>
    cases port with
    | none => exact ih
    | some line => exact congrArg (.sent line.destTask line.inputPortNo output :: ·) ih

theorem processItem_eq (fns : TaskFns σ α β) (ti : TaskInfo) (m : σ) (queueNum : Nat) (item : α) :
    processItem fns ti m queueNum item = itemActions fns ti m queueNum item := by
  unfold processItem itemActions callBefore callAfter
  cases fns.beforeFn with
  | none => cases fns.afterFn <;> rfl
  | some beforeFn => cases fns.afterFn <;> simp [sendOutput_eq_filterMap]

theorem flow_concat (fns : TaskFns σ α β) (ti : TaskInfo) (m : σ) (items : List (Handle × α))
    (queue : Handle) (item : α) :
    flow fns ti m (items ++ [(queue, item)]) =
      ((itemActions fns ti (flow fns ti m items).1 (portOf ti queue) item).1,
        (flow fns ti m items).2 ++
          (itemActions fns ti (flow fns ti m items).1 (portOf ti queue) item).2) := by
  induction items generalizing m with
  | nil => simp [flow]
  | cons first items ih => simp [flow, ih]

/-- Items were consumed, and those in the queues are still to be. -/
structure Consumed (fns : TaskFns σ α β) (ti : TaskInfo) (m : σ) (items consumed : List (Handle × α))
    (s : EventTask σ α β) : Prop where
  order : ∀ queue, itemsOf queue consumed ++ (s.queues queue).map (queue, ·) = itemsOf queue items
  flow : (s.memory, s.log) = flow fns ti m consumed

theorem Consumed.dataFlow {s : EventTask σ α β} (h : Consumed fns ti m items consumed s)
    (hempty : ∀ queue, s.queues queue = []) : DataFlow fns ti m items s.log := by
  refine ⟨consumed, fun queue => ?_, congrArg Prod.snd h.flow⟩
  have horder := h.order queue
  rw [hempty, List.map_nil, List.append_nil] at horder
  exact horder

theorem receive_consumed {s : EventTask σ α β} (h : Consumed fns ti m items consumed s)
    (queue : Handle) :
    ∃ consumed', Consumed fns ti m items consumed' (receive fns ti s queue (portOf ti queue)) := by
  unfold receive
  cases hqueue : s.queues queue with
  | nil => exact ⟨consumed, h⟩
  | cons item rest =>
    obtain ⟨horder, hflow⟩ := h
    obtain ⟨hmemory, hlog⟩ := Prod.mk.inj hflow
    refine ⟨consumed ++ [(queue, item)], ?_, ?_⟩
    · intro other
      dsimp only
      rw [← horder other]
      unfold itemsOf
      rw [List.filter_append]
      by_cases hother : other = queue
      · subst hother
        rw [Function.update_self, hqueue]
        simp
      · rw [Function.update_of_ne hother]
        simp [Ne.symm hother]
    · dsimp only
      rw [flow_concat, ← hmemory, ← hlog, processItem_eq]

theorem findIdx?_portOf {queue : Handle} (h : some queue ∈ ti.inputQueues) :
    ti.inputQueues.findIdx? (fun q => q = some queue) = some (portOf ti queue) := by
  rw [List.findIdx?_eq_some_iff_findIdx_eq]
  refine ⟨List.idxOf_lt_length_iff.mpr h, ?_⟩
  unfold portOf List.idxOf
  congr 1
  funext q
  exact (beq_eq_decide q (some queue)).symm

theorem portOf_first {queue : Handle} (h : ti.inputQueues[0]?.join = some queue) :
    portOf ti queue = 0 := by
  unfold portOf
  cases hqueues : ti.inputQueues with
  | nil =>
    rw [hqueues] at h
    cases h
  | cons first queues =>
    rw [hqueues] at h
    cases h
    exact List.idxOf_cons_self

theorem iterate_consumed (fn : EventTaskFn) {s : EventTask σ α β}
    (h : Consumed fns ti m items consumed s) :
    ∃ consumed', Consumed fns ti m items consumed' (fn.iterate fns ti s) := by
  have hkeep : ∀ state queueSet,
      Consumed fns ti m items consumed { s with state := state, queueSet := queueSet } :=
    fun _ _ => ⟨h.order, h.flow⟩
  cases fn with
  | baseTaskType1 =>
    unfold EventTaskFn.iterate iterate1
    dsimp only
    split
    · exact ⟨consumed, hkeep .created s.queueSet⟩
    · rename_i queue rest _
      by_cases hport : some queue ∈ ti.inputQueues
      · rw [findIdx?_portOf hport]
        exact receive_consumed (hkeep .created rest) queue
      · have hnone : ti.inputQueues.findIdx? (fun q => q = some queue) = none := by
          refine List.findIdx?_eq_none_iff.mpr fun q hq => ?_
          exact decide_eq_false fun heq => hport (heq ▸ hq)
        rw [hnone]
        exact ⟨consumed, hkeep .created rest⟩
  | baseTaskType2 =>
    unfold EventTaskFn.iterate iterate2
    dsimp only
    split
    · exact ⟨consumed, hkeep .created s.queueSet⟩
    · rename_i queue hqueue
      have hreceive := receive_consumed (hkeep .created s.queueSet) queue
      rw [portOf_first hqueue] at hreceive
      exact hreceive

/-- In every run what the task has done is what is to be done with the items it
has consumed. -/
theorem run_consumed (hrun : Run (EventTaskStep test fn fns ti) (started m) run s) :
    ∃ consumed, Consumed fns ti m (placed (run.map Prod.snd)) consumed s := by
  refine hrun.history (I := fun events s => ∃ consumed, Consumed fns ti m (placed events) consumed s)
    ⟨[], fun _ => rfl, rfl⟩ ?_
  rintro events s e s' ⟨consumed, h⟩ hstep
  cases hstep with
  | @place queue _ item hqueue =>
    refine ⟨consumed, ?_, h.flow⟩
    intro other
    unfold placed
    rw [List.filterMap_append]
    unfold itemsOf
    rw [List.filter_append]
    have horder := h.order other
    unfold itemsOf placed at horder
    rw [← horder]
    dsimp only
    by_cases hother : other = queue
    · subst hother
      rw [Function.update_self]
      simp [EventTaskEvent.placed]
    · rw [Function.update_of_ne hother]
      simp [EventTaskEvent.placed, Ne.symm hother]
  | turn =>
    have hplaced : placed (events ++ [EventTaskEvent.turn]) = placed events := by
      unfold placed
      rw [List.filterMap_append]
      exact List.append_nil _
    rw [hplaced]
    unfold turn
    split
    · exact ⟨consumed, h⟩
    · split
      · exact iterate_consumed fn h
      · exact ⟨consumed, h.order, h.flow⟩

-- ---------------------------------------------------------------------------
-- The loop of the code
-- ---------------------------------------------------------------------------

theorem turns_log (fn : EventTaskFn) (fns : TaskFns σ α β) (ti : TaskInfo) (s : EventTask σ α β)
    (n : Nat) : ((turn loopTest fn fns ti)^[n] s).log = s.log := by
  induction n generalizing s with
  | zero => rfl
  | succ n ih =>
    rw [Function.iterate_succ_apply, ih]
    unfold turn
    split
    · rfl
    · rw [if_neg (by decide)]

theorem run_log (hrun : Run (EventTaskStep loopTest fn fns ti) (started m) run s) : s.log = [] := by
  refine hrun.invariant (I := fun s => s.log = []) rfl ?_
  intro s e s' h hstep
  cases hstep with
  | place => exact h
  | turn => exact (turns_log fn fns ti s 1).trans h

theorem flow_ne_nil (fns : TaskFns σ α β) (ti : TaskInfo) (m : σ) (item : Handle × α)
    (items : List (Handle × α)) : (flow fns ti m (item :: items)).2 ≠ [] := by
  simp [flow, itemActions]

/-- The items that are placed in the queues of a task flow through it, after
however many turns, exactly if there are none. -/
theorem dataFlow_iff (hrun : Run (EventTaskStep loopTest fn fns ti) (started m) run s) :
    (∃ n, DataFlow fns ti m (placed (run.map Prod.snd)) ((turn loopTest fn fns ti)^[n] s).log) ↔
      placed (run.map Prod.snd) = [] := by
  simp only [turns_log, run_log hrun, exists_const]
  constructor
  · rintro ⟨consumed, horder, hlog⟩
    cases consumed with
    | cons item items => exact absurd hlog.symm (flow_ne_nil fns ti m item items)
    | nil =>
      refine List.eq_nil_iff_forall_not_mem.mpr fun item hitem => ?_
      have hmem : item ∈ itemsOf item.1 (placed (run.map Prod.snd)) :=
        List.mem_filter.mpr ⟨hitem, decide_eq_true rfl⟩
      rw [← horder] at hmem
      cases hmem
  · intro hnone
    rw [hnone]
    exact ⟨[], fun _ => rfl, rfl⟩

def sampleEventTask : TaskInfo :=
  ((setInoutItemSize 4 4).run (newTask (sampleTask "log".toList false) rfl 0 none 0) ⟨0, []⟩).1

/-- It has no functions, and an item is placed in its queue. -/
theorem item_not_consumed :
    ¬ ∀ (σ α β : Type) fn (fns : TaskFns σ α β) ti m run s,
      Run (EventTaskStep loopTest fn fns ti) (started m) run s →
      ∃ n, DataFlow fns ti m (placed (run.map Prod.snd)) ((turn loopTest fn fns ti)^[n] s).log := by
  intro h
  have hrun : Run (EventTaskStep loopTest .baseTaskType1 ⟨none, none, fun _ => ()⟩ sampleEventTask)
      (started ()) ([] ++ [(started (), .place 0 ())]) _ :=
    .step .start (.place (by decide))
  obtain ⟨n, consumed, horder, hlog⟩ := h Unit Unit Unit _ _ _ _ _ _ hrun
  rw [turns_log] at hlog
  cases consumed with
  | nil => exact absurd (horder 0) (by decide)
  | cons item items => exact flow_ne_nil _ _ _ item items hlog.symm

theorem no_item_consumed :
    ∃ n, DataFlow (⟨none, none, fun _ => ()⟩ : TaskFns Unit Unit Unit) sampleEventTask ()
      (placed [.turn]) ((turn loopTest .baseTaskType1 ⟨none, none, fun _ => ()⟩ sampleEventTask)^[n]
        (turn loopTest .baseTaskType1 ⟨none, none, fun _ => ()⟩ sampleEventTask (started ()))).log :=
  (dataFlow_iff (.step .start .turn)).mpr rfl

-- ---------------------------------------------------------------------------
-- The loop with its test turned round
-- ---------------------------------------------------------------------------

/-- A queue is in the queue set as often as it has items. -/
structure Activated (ti : TaskInfo) (s : EventTask σ α β) : Prop where
  ports : ∀ queue ∈ s.queueSet, some queue ∈ ti.inputQueues
  counts : ∀ queue, s.queueSet.count queue = (s.queues queue).length
  goes : s.ended = false

theorem iterate1_activated (fns : TaskFns σ α β) {s : EventTask σ α β} (h : Activated ti s) :
    Activated ti (iterate1 fns ti s) ∧ (iterate1 fns ti s).queueSet = s.queueSet.tail := by
  unfold iterate1
  cases hset : s.queueSet with
  | nil =>
    dsimp only
    exact ⟨⟨hset ▸ h.ports, hset ▸ h.counts, h.goes⟩, rfl⟩
  | cons queue rest =>
    have hcount := h.counts queue
    rw [hset, List.count_cons_self] at hcount
    obtain ⟨item, items, hqueue⟩ := List.exists_cons_of_length_eq_add_one hcount.symm
    rw [hqueue, List.length_cons] at hcount
    have hports := h.ports
    rw [hset, List.forall_mem_cons] at hports
    dsimp only
    rw [findIdx?_portOf hports.1]
    dsimp only [receive]
    rw [hqueue]
    refine ⟨⟨hports.2, ?_, h.goes⟩, rfl⟩
    intro other
    dsimp only
    by_cases hother : other = queue
    · subst hother
      rw [Function.update_self]
      exact Nat.succ.inj hcount
    · rw [Function.update_of_ne hother, ← h.counts other, hset,
        List.count_cons_of_ne (Ne.symm hother)]

theorem run_activated (hrun : Run (EventTaskStep true .baseTaskType1 fns ti) (started m) run s) :
    Activated ti s := by
  refine hrun.invariant ⟨fun _ h => absurd h List.not_mem_nil, fun _ => rfl, rfl⟩ ?_
  intro s e s' h hstep
  cases hstep with
  | @place queue _ item hqueue =>
    refine ⟨?_, ?_, h.goes⟩
    · exact List.forall_mem_append.mpr ⟨h.ports, List.forall_mem_singleton.mpr hqueue⟩
    · intro other
      dsimp only
      rw [List.count_append, h.counts other]
      by_cases hother : other = queue
      · subst hother
        rw [Function.update_self, List.length_append, List.count_singleton_self]
        rfl
      · rw [Function.update_of_ne hother, List.count_singleton, if_neg]
        · rfl
        · simpa using Ne.symm hother
  | turn =>
    unfold turn
    rw [if_neg (by rw [h.goes]; exact Bool.false_ne_true)]
    exact (iterate1_activated fns h).1

theorem base_task_type1_dataFlow
    (hrun : Run (EventTaskStep true .baseTaskType1 fns ti) (started m) run s) :
    ∃ n, DataFlow fns ti m (placed (run.map Prod.snd)) ((turn true .baseTaskType1 fns ti)^[n] s).log := by
  obtain ⟨consumed, hconsumed⟩ := run_consumed hrun
  have hactivated := run_activated hrun
  generalize placed (run.map Prod.snd) = items at hconsumed
  clear hrun
  generalize hset : s.queueSet = queues
  induction queues generalizing s consumed with
  | nil =>
    refine ⟨0, hconsumed.dataFlow fun queue => ?_⟩
    have hcount := hactivated.counts queue
    rw [hset] at hcount
    exact List.eq_nil_of_length_eq_zero hcount.symm
  | cons queue queues ih =>
    have hturn : turn true .baseTaskType1 fns ti s = iterate1 fns ti s :=
      if_neg (by rw [hactivated.goes]; exact Bool.false_ne_true)
    obtain ⟨hnext, htail⟩ := iterate1_activated fns hactivated
    obtain ⟨consumed', hconsumed'⟩ := iterate_consumed .baseTaskType1 hconsumed
    rw [hset] at htail
    obtain ⟨n, hflow⟩ := ih consumed' hnext hconsumed' htail
    refine ⟨n + 1, ?_⟩
    rw [Function.iterate_succ_apply, hturn]
    exact hflow

end IoTware.Micro
