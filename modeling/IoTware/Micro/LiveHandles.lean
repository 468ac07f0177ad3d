import IoTware.Micro.Handles

/-!
# Which handles are live

Whatever is called, the ports hold different handles, of queues that were created. That
none of these queues is deleted, and none twice, holds in a run exactly if each task that
is switched off has an item size, or no queue but the one for messages.
-/

namespace IoTware.Micro

open LwMsg Handles Runs

/-- Every handle in a port is a queue that was created and not deleted, and no queue was
deleted twice. -/
def QueuesLive (ms : MicroService) : Prop :=
  (∀ ti ∈ ms.tasks.nodes, ∀ h, some h ∈ ti.inputQueues →
    .createQueue h ∈ ms.kernel.calls ∧ .deleteQueue h ∉ ms.kernel.calls) ∧
  (ms.kernel.calls.filterMap KernelCall.deletedQueue).Nodup

/-- A task that is switched off has an item size, or no queue at a port other than the one
for messages. -/
def QueuesReplaced (ms : MicroService) : QueueEvent → Prop
  | .onoff id false => ∀ ti ∈ ms.tasks.find? id, ti.offloading →
      ∀ i h, ti.inputQueues[i]? = some (some h) → ¬ti.keepsDeleted i
  | _ => True

theorem mem_handles : h ∈ handles ms ↔ ∃ ti ∈ ms.tasks.nodes, some h ∈ ti.inputQueues := by
  unfold handles TaskInfo.handles
  rw [List.mem_flatMap]
  exact exists_congr fun ti => and_congr_right fun _ => List.reduceOption_mem_iff

theorem queuesLive_iff (h : Tracked (handles ms) ms.kernel) :
    QueuesLive ms ↔ Live (handles ms) ms.kernel.queues := by
  constructor
  · rintro ⟨hlive, honce⟩
    refine ⟨fun x hx hdel => ?_, honce⟩
    obtain ⟨ti, hti, hqueue⟩ := mem_handles.mp hx
    exact (hlive ti hti x hqueue).2 (mem_queues_deleted.mp hdel)
  · intro hlive
    refine ⟨fun ti hti x hqueue => ?_, hlive.once⟩
    have hx : x ∈ handles ms := mem_handles.mpr ⟨ti, hti, hqueue⟩
    exact ⟨mem_queues_created.mp (h.holds.held_created x hx),
      fun hdel => hlive.not_deleted x hx (mem_queues_deleted.mpr hdel)⟩

section
variable {made : Handle → Bool}

theorem queueStep_accounts {I : List Handle → Kernel → Prop} (hI : Accounts made I)
    (ms : MicroService) (e : QueueEvent)
    (hkeep : ∀ id, e = .onoff id false → ∀ ti, ms.tasks.find? id = some ti → ti.offloading →
      ∀ i queue, ti.inputQueues[i]? = some queue → ti.keepsDeleted i → ∀ held k,
        I (queue.toList ++ held) k → I (queue.toList ++ held) (k.deleteQueue queue))
    (h : I (handles ms) ms.kernel) :
    I (handles (queueStep made ms e)) (queueStep made ms e).kernel := by
  cases e with
  | create =>
    unfold queueStep createMicroServiceWith
    dsimp only
    split
    · exact runCreate_accounts hI h
    · exact h
  | setSizes id n m => exact setSizes_accounts hI id n m h
  | onoff id onoff =>
    refine taskOnoff_accounts hI ?_ h
    rintro rfl
    exact hkeep id rfl
  | stopMs => exact runCreate_accounts hI (delMicroService_accounts hI h)
  | del => exact delMicroService_accounts hI h

theorem tracked_queueStep (h : Tracked (handles ms) ms.kernel) (e : QueueEvent) :
    Tracked (handles (queueStep made ms e)) (queueStep made ms e).kernel :=
  queueStep_accounts (accounts_tracked made) ms e
    (fun _ _ _ _ _ _ _ _ _ _ _ h => h.deleteQueue) h

theorem sound_queueStep (h : Sound (handles ms) ms.kernel) (hreplaced : QueuesReplaced ms e) :
    Sound (handles (queueStep made ms e)) (queueStep made ms e).kernel := by
  refine queueStep_accounts (accounts_sound made) ms e ?_ h
  rintro id rfl ti hti hoff i queue hqueue hkeeps held k h
  cases queue with
  | none => exact h
  | some x => exact absurd hkeeps (hreplaced ti hti hoff i x hqueue)

theorem tryCreateQueue_calls (k : Kernel) : k.calls <:+ (tryCreateQueue made k).2.calls := by
  unfold tryCreateQueue
  split
  · exact List.suffix_cons _ _
  · exact List.suffix_refl _

theorem offQueue_calls (lwmsgInputPort : Option Nat) (size i : Nat) (queue : Option Handle)
    (k : Kernel) :
    (k.deleteQueue queue).calls <:+ (offQueue made lwmsgInputPort size i queue k).2.calls := by
  unfold offQueue
  dsimp only
  split
  · exact tryCreateQueue_calls _
  · exact List.suffix_refl _

theorem forQueues_offQueue_deletes (lwmsgInputPort : Option Nat) (size i : Nat)
    {queues : List (Option Handle)} (k : Kernel) (hmem : some h ∈ queues) :
    .deleteQueue h ∈ (Micro.forQueues (offQueue made lwmsgInputPort size) i queues k).2.calls := by
  induction queues generalizing i k with
  | nil => cases hmem
  | cons queue queues ih =>
    rcases List.mem_cons.mp hmem with rfl | hmem
    · have hvisit : KernelCall.deleteQueue h ∈
          (offQueue made lwmsgInputPort size i (some h) k).2.calls :=
        (offQueue_calls lwmsgInputPort size i (some h) k).mem List.mem_cons_self
      refine (forQueues_calls (fun i queue k => ?_) (i + 1) queues _).mem hvisit
      exact (deleteQueue_calls k queue).trans (offQueue_calls lwmsgInputPort size i queue k)
    · exact ih (i + 1) _ hmem

theorem offTask_keepsDeleted {ti : TaskInfo} {i : Nat}
    (hqueue : ti.inputQueues[i]? = some (some h)) (hkeeps : ti.keepsDeleted i) (k : Kernel) :
    some h ∈ ((offTaskWith made).run ti k).1.inputQueues ∧
      .deleteQueue h ∈ ((offTaskWith made).run ti k).2.calls := by
  refine ⟨?_, forQueues_offQueue_deletes _ _ 0 _ (List.mem_of_getElem? hqueue)⟩
  obtain ⟨k', hk'⟩ := forQueues_getElem? (offQueue made ti.lwmsgInputPort ti.inputItemSize) hqueue 0
    (k.deleteTask ti.taskT)
  unfold offQueue at hk'
  rw [Nat.zero_add] at hk'
  dsimp only at hk'
  rw [if_neg (not_or.mpr ⟨hkeeps.1, Nat.not_lt.mpr (Nat.le_of_eq hkeeps.2)⟩)] at hk'
  exact List.mem_of_getElem? hk'

theorem not_live_of_keepsDeleted {ti : TaskInfo} {id : TaskId} {i : Nat}
    (hti : ms.tasks.find? id = some ti) (hoff : ti.offloading = true)
    (hqueue : ti.inputQueues[i]? = some (some h)) (hkeeps : ti.keepsDeleted i) :
    ¬Live (handles (queueStep made ms (.onoff id false)))
      (queueStep made ms (.onoff id false)).kernel.queues := by
  have hstep : queueStep made ms (.onoff id false) =
      setOutputConnectLine (ms.onTask id (offTaskWith made)) := by
    unfold queueStep taskOnoffWith
    dsimp only
    rw [hti]
    dsimp only
    rw [hoff]
    rfl
  obtain ⟨hqueue', hdel⟩ : some h ∈ ((offTaskWith made).run ti ms.kernel).1.inputQueues ∧
      .deleteQueue h ∈ ((offTaskWith made).run ti ms.kernel).2.calls :=
    offTask_keepsDeleted hqueue hkeeps ms.kernel
  have htask : ((offTaskWith made).run ti ms.kernel).1 ∈ (ms.onTask id (offTaskWith made)).tasks.nodes := by
    unfold MicroService.onTask
    rw [hti]
    exact TaskList.mem_update _ hti
  have hkernel : (ms.onTask id (offTaskWith made)).kernel =
      ((offTaskWith made).run ti ms.kernel).2 := by
    unfold MicroService.onTask
    rw [hti]
  rw [hstep, (setOutputConnectLine_handles _).1, (setOutputConnectLine_handles _).2, hkernel]
  exact not_live_of_deleted (mem_handles.mpr ⟨_, htask, hqueue'⟩) (mem_queues_deleted.mpr hdel)

/-- A step from a state whose handles are live keeps them live exactly if it replaces the
queues it deletes. -/
theorem queuesLive_queueStep_iff (htracked : Tracked (handles ms) ms.kernel)
    (hlive : QueuesLive ms) (e : QueueEvent) :
    QueuesLive (queueStep made ms e) ↔ QueuesReplaced ms e := by
  constructor
  · intro hnext
    have hlive' := (queuesLive_iff (tracked_queueStep htracked e)).mp hnext
    cases e with
    | onoff id onoff =>
      cases onoff with
      | false =>
        intro ti hti hoff i x hqueue hkeeps
        exact not_live_of_keepsDeleted hti hoff hqueue hkeeps hlive'
      | true => trivial
    | _ => trivial
  · intro hreplaced
    have hsound : Sound (handles (queueStep made ms e)) (queueStep made ms e).kernel :=
      sound_queueStep ⟨htracked, (queuesLive_iff htracked).mp hlive⟩ hreplaced
    exact (queuesLive_iff hsound.1).mpr hsound.2

/-- In every run, all handles are live in all states exactly if every task that is switched
off has an item size or no queue but that for messages. -/
theorem queues_live_iff (hrun : QueueRun made (makeMicroService msId create) run ms) :
    (∀ t ∈ visited run ms, QueuesLive t) ↔ ∀ x ∈ run, QueuesReplaced x.1 x.2 := by
  refine hrun.always_iff (I := fun ms => Tracked (handles ms) ms.kernel) ?_ ?_ ?_ ?_
  · exact ⟨⟨List.nodup_nil, fun _ h => absurd h List.not_mem_nil,
      fun _ h => absurd h List.not_mem_nil⟩, fun _ h => absurd h List.not_mem_nil⟩
  · exact ⟨fun _ h => absurd h List.not_mem_nil, List.nodup_nil⟩
  · rintro t e t' h rfl
    exact tracked_queueStep h e
  · rintro t e t' h hlive rfl
    exact queuesLive_queueStep_iff h hlive e
end

def sampleLog : MicroService :=
  makeMicroService "101".toList [.addNewTask (sampleTask "log".toList true)]

theorem queues_live_log :
    QueuesLive ([.create, .setSizes 0 4 4, .onoff 0 false, .del].foldl (queueStep fun _ => true)
      sampleLog) := by
  have hrun := run_trace (queueStep fun _ => true) sampleLog
    [.create, .setSizes 0 4 4, .onoff 0 false, .del]
  refine (queues_live_iff hrun).mpr ?_ _ (List.mem_append_right _ List.mem_cons_self)
  intro x hx
  simp only [trace, List.mem_cons, List.not_mem_nil, or_false] at hx
  rcases hx with rfl | rfl | rfl | rfl
  · trivial
  · trivial
  · rintro ti hti - i h - ⟨-, hsize⟩
    have hpos : ∀ ti ∈ (queueStep (fun _ => true) (queueStep (fun _ => true) sampleLog .create)
        (.setSizes 0 4 4)).tasks.nodes, ti.inputItemSize ≠ 0 := by decide
    exact hpos ti (TaskList.mem_of_find? hti).1 hsize
  · trivial

/-- Switched off with an item size of 0, the log keeps the handle of its deleted queue. -/
theorem log_keeps_deleted :
    ¬ ∀ made msId create run ms, QueueRun made (makeMicroService msId create) run ms →
      ∀ t ∈ visited run ms, QueuesLive t := by
  intro h
  have hrun : QueueRun (fun _ => true) sampleLog _ _ :=
    run_trace (queueStep fun _ => true) sampleLog [.create, .setSizes 0 0 0, .onoff 0 false]
  have hlive := h _ _ _ _ _ hrun _ (List.mem_append_right _ List.mem_cons_self)
  have hkept : ¬ ∀ ti ∈ ([.create, .setSizes 0 0 0, .onoff 0 false].foldl (queueStep fun _ => true)
      sampleLog).tasks.nodes, ∀ queue ∈ ti.inputQueues, ∀ h ∈ queue,
        .deleteQueue h ∉ ([.create, .setSizes 0 0 0, .onoff 0 false].foldl
          (queueStep fun _ => true) sampleLog).kernel.calls := by decide
  exact hkept fun ti hti queue hqueue x hx => (hlive.1 ti hti x (hx ▸ hqueue)).2

end IoTware.Micro
