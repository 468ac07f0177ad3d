import Mathlib.Data.Set.Basic
import IoTware.Micro.Lifecycle

/-!
# Which ports hold a line

Selecting a link list connects the ports its lines start at and clears none. So
the ports follow the list exactly if it has a line at every port that was
connected before and not cleared since, which only switching its task off or
deleting it does.
-/

namespace IoTware.Micro

open CText LwMsg Runs

def ConnectLine.startPort (line : ConnectLine) : TaskId × Nat :=
  (line.startTask, line.outputPortNo.toNat)

def TaskInfo.port (ti : TaskInfo) (k : Nat) : Option ConnectLine := ti.outputPorts[k]?.join

/-- Every port holds a line of the list that starts there, if there is one, and
otherwise none. -/
def Routed (tis : List TaskInfo) (lines : List ConnectLine) : Prop :=
  ∀ ti ∈ tis, ∀ k < ti.outputCount.toNat,
    ((ti.port k).isSome ↔ ∃ line ∈ lines, line.startPort = (ti.id, k)) ∧
    ∀ line ∈ ti.port k, line ∈ lines ∧ line.startPort = (ti.id, k)

def starts (lines : List ConnectLine) : Set (TaskId × Nat) :=
  {p | ∃ line ∈ lines, line.startPort = p}

def ports (tis : List TaskInfo) : Set (TaskId × Nat) :=
  {p | ∃ ti ∈ tis, ti.id = p.1 ∧ p.2 < ti.outputCount.toNat}

def held (tis : List TaskInfo) : Set (TaskId × Nat) :=
  {p | ∃ ti ∈ tis, ti.id = p.1 ∧ (ti.port p.2).isSome}

theorem port_isSome_lt {ti : TaskInfo} (h : (ti.port k).isSome) : k < ti.outputCount.toNat := by
  unfold TaskInfo.port at h
  rw [← ti.ports_length]
  by_contra hlt
  rw [List.getElem?_eq_none (Nat.le_of_not_lt hlt)] at h
  cases h

theorem held_congr {tis tis' : List TaskInfo} (h : tis.map (fun ti => (ti.id, ti.outputPorts)) =
    tis'.map fun ti => (ti.id, ti.outputPorts)) : held tis = held tis' := by
  have hview : ∀ tis : List TaskInfo, held tis =
      {p | ∃ view ∈ tis.map fun ti => (ti.id, ti.outputPorts), view.1 = p.1 ∧
        (view.2[p.2]?.join).isSome} := by
    intro tis
    ext p
    constructor
    · rintro ⟨ti, hti, hid, hsome⟩
      exact ⟨_, List.mem_map_of_mem hti, hid, hsome⟩
    · rintro ⟨view, hview, hid, hsome⟩
      obtain ⟨ti, hti, rfl⟩ := List.mem_map.mp hview
      exact ⟨ti, hti, hid, hsome⟩
  rw [hview, hview, h]

-- ---------------------------------------------------------------------------
-- Selecting a list
-- ---------------------------------------------------------------------------

def TaskInfo.connect (ti : TaskInfo) (line : ConnectLine) : TaskInfo :=
  if ti.id = line.startTask then (setPort line).apply ti else ti

theorem connectPort_nodes (ms : MicroService) (line : ConnectLine) :
    (connectPort ms line).tasks.nodes = ms.tasks.nodes.map (·.connect line) := rfl

theorem foldl_connectPort_nodes (lines : List ConnectLine) (ms : MicroService) :
    (lines.foldl connectPort ms).tasks.nodes =
      ms.tasks.nodes.map fun ti => lines.foldl TaskInfo.connect ti := by
  induction lines generalizing ms with
  | nil => exact (List.map_id _).symm
  | cons line lines ih =>
    rw [List.foldl_cons, ih, connectPort_nodes, List.map_map]
    rfl

@[simp] theorem connect_id (ti : TaskInfo) (line : ConnectLine) : (ti.connect line).id = ti.id := by
  unfold TaskInfo.connect
  split
  · exact (setPort line).id_apply ti
  · rfl

@[simp] theorem connect_outputCount (ti : TaskInfo) (line : ConnectLine) :
    (ti.connect line).outputCount = ti.outputCount := by
  unfold TaskInfo.connect setPort
  dsimp only
  split
  · split <;> rfl
  · rfl

theorem connect_port (ti : TaskInfo) (line : ConnectLine) (hk : k < ti.outputCount.toNat) :
    (ti.connect line).port k =
      if line.startPort = (ti.id, k) then some line else ti.port k := by
  unfold TaskInfo.connect setPort ConnectLine.startPort
  dsimp only
  by_cases htask : ti.id = line.startTask
  · rw [if_pos htask]
    by_cases hport : line.outputPortNo.toNat = k
    · have hlt : line.outputPortNo < ti.outputCount := by
        rw [UInt32.lt_iff_toNat_lt, hport]
        exact hk
      rw [if_pos hlt, if_pos (by rw [htask, hport])]
      unfold TaskInfo.port
      dsimp only
      rw [hport, List.getElem?_set_self (by rw [ti.ports_length]; exact hk)]
      rfl
    · rw [if_neg fun h => hport (Prod.mk.inj h).2]
      split
      · unfold TaskInfo.port
        dsimp only
        rw [List.getElem?_set_ne hport]
      · rfl
  · rw [if_neg htask, if_neg fun h => htask (Prod.mk.inj h).1.symm]

@[simp] theorem foldl_connect_id (lines : List ConnectLine) (ti : TaskInfo) :
    (lines.foldl TaskInfo.connect ti).id = ti.id := by
  induction lines generalizing ti with
  | nil => rfl
  | cons line lines ih => rw [List.foldl_cons, ih, connect_id]

@[simp] theorem foldl_connect_outputCount (lines : List ConnectLine) (ti : TaskInfo) :
    (lines.foldl TaskInfo.connect ti).outputCount = ti.outputCount := by
  induction lines generalizing ti with
  | nil => rfl
  | cons line lines ih => rw [List.foldl_cons, ih, connect_outputCount]

theorem foldl_connect_port (lines : List ConnectLine) (ti : TaskInfo)
    (hk : k < ti.outputCount.toNat) :
    (lines.foldl TaskInfo.connect ti).port k =
      (lines.reverse.find? fun line => line.startPort = (ti.id, k)).or (ti.port k) := by
  induction lines generalizing ti with
  | nil => rfl
  | cons line lines ih =>
    rw [List.foldl_cons, ih _ (by rw [connect_outputCount]; exact hk), connect_id,
      connect_port ti line hk, List.reverse_cons, List.find?_append, Option.or_assoc]
    congr 1
    by_cases hline : line.startPort = (ti.id, k)
    · simp [hline]
    · simp [hline]

/-- The lines of the list that `set_output_connect_line` finds. -/
def selectedLines (ms : MicroService) : Option (List ConnectLine) :=
  (selectedLink ms).bind fun link => link.2.connectLinkHead.map presentLines

theorem setOutputConnectLine_nodes (ms : MicroService) :
    (setOutputConnectLine ms).tasks.nodes =
      match selectedLines ms with
      | none => ms.tasks.nodes
      | some lines => ms.tasks.nodes.map fun ti => lines.foldl TaskInfo.connect ti := by
  unfold setOutputConnectLine selectedLines
  cases selectedLink ms with
  | none => rfl
  | some link =>
    obtain ⟨path, lines, name⟩ := link
    cases lines with
    | none => rfl
    | some lines => exact foldl_connectPort_nodes (presentLines lines) _

/-- The ports follow the selected list exactly if the list has a line at every
port that holds one. -/
theorem routed_iff (h : selectedLines ms = some lines) :
    Routed (setOutputConnectLine ms).tasks.nodes lines ↔ held ms.tasks.nodes ⊆ starts lines := by
  rw [setOutputConnectLine_nodes, h]
  unfold Routed
  simp only [List.forall_mem_map, foldl_connect_id, foldl_connect_outputCount]
  constructor
  · rintro hall ⟨id, k⟩ ⟨ti, hti, rfl, hsome⟩
    have hk := port_isSome_lt hsome
    refine ((hall ti hti k hk).1).mp ?_
    rw [foldl_connect_port lines ti hk, Option.isSome_or, hsome, Bool.or_true]
  · intro hsub ti hti k hk
    rw [foldl_connect_port lines ti hk]
    cases hfind : lines.reverse.find? fun line => line.startPort = (ti.id, k) with
    | none =>
      have hnone : ¬ ∃ line ∈ lines, line.startPort = (ti.id, k) := by
        rintro ⟨line, hline, hstart⟩
        have hno := List.find?_eq_none.mp hfind line (List.mem_reverse.mpr hline)
        exact hno (decide_eq_true hstart)
      have hport : ti.port k = none := by
        cases hport : ti.port k with
        | none => rfl
        | some line =>
          refine absurd (hsub (a := (ti.id, k)) ⟨ti, hti, rfl, ?_⟩) hnone
          rw [hport]
          rfl
      rw [hport]
      exact ⟨iff_of_false Bool.false_ne_true hnone, fun line hline => nomatch hline⟩
    | some line =>
      have hline : line ∈ lines := List.mem_reverse.mp (List.mem_of_find?_eq_some hfind)
      have hstart : line.startPort = (ti.id, k) := by simpa using List.find?_some hfind
      refine ⟨iff_of_true rfl ⟨line, hline, hstart⟩, ?_⟩
      rintro _ ⟨⟩
      exact ⟨hline, hstart⟩

-- ---------------------------------------------------------------------------
-- Steps
-- ---------------------------------------------------------------------------

/-- The state in which a step calls `set_output_connect_line`. -/
def selecting (ms : MicroService) : LifecycleEvent → Option MicroService
  | .run inits =>
    if ms.state = .created ∧ (startTasks inits ms).2 then some (startTasks inits ms).1 else none
  | .onoff id onoff => switchTask ms id onoff
  | _ => none

theorem lifecycleStep_selecting (h : selecting ms e = some pre) :
    lifecycleStep ms e = setOutputConnectLine pre := by
  cases e with
  | run inits =>
    unfold selecting at h
    dsimp only at h
    split at h
    · rename_i hstart
      obtain ⟨hstate, hok⟩ := hstart
      cases h
      unfold lifecycleStep runMicroService
      rw [hstate]
      dsimp only
      rw [← Prod.mk.eta (p := startTasks inits ms), hok]
    · cases h
  | onoff id onoff =>
    have h : switchTask ms id onoff = some pre := h
    unfold lifecycleStep taskOnoff
    dsimp only
    rw [h]
  | create => cases h
  | stopMs => cases h
  | stopTask => cases h
  | del => cases h
  | taskState id state => cases h
  | outputValue type value => cases h
  | paramSet id params => cases h
  | outputRead dri => cases h

/-- The ports a step clears: those of the task it switches off, and those of
the tasks it deletes. -/
def cleared (ms : MicroService) : LifecycleEvent → Set (TaskId × Nat)
  | .onoff id false => {p | p.1 = id ∧ (switchTask ms id false).isSome}
  | .del | .stopMs =>
    {p | p.1 ∈ (ms.tasks.nodes.take (nodeNum ms.tasks.nodes)).map TaskInfo.id}
  | _ => ∅

def connected (ms : MicroService) (e : LifecycleEvent) : Set (TaskId × Nat) :=
  {p | ∃ pre ∈ selecting ms e, ∃ lines ∈ selectedLines pre, p ∈ starts lines ∩ ports pre.tasks.nodes}

theorem held_setOutputConnectLine (ms : MicroService) :
    held (setOutputConnectLine ms).tasks.nodes = held ms.tasks.nodes ∪
      {p | ∃ lines ∈ selectedLines ms, p ∈ starts lines ∩ ports ms.tasks.nodes} := by
  rw [setOutputConnectLine_nodes]
  cases selectedLines ms with
  | none => simp
  | some lines =>
    ext ⟨id, k⟩
    constructor
    · rintro ⟨t, ht, hid, hsome⟩
      obtain ⟨ti, hti, rfl⟩ := List.mem_map.mp ht
      have hk := port_isSome_lt hsome
      rw [foldl_connect_outputCount] at hk
      rw [foldl_connect_id] at hid
      have hid : ti.id = id := hid
      rw [foldl_connect_port lines ti hk, Option.isSome_or, Bool.or_eq_true] at hsome
      rcases hsome with hsome | hsome
      · obtain ⟨line, hfind⟩ := Option.isSome_iff_exists.mp hsome
        have hline : line ∈ lines := List.mem_reverse.mp (List.mem_of_find?_eq_some hfind)
        have hstart : line.startPort = (ti.id, k) := by simpa using List.find?_some hfind
        exact .inr ⟨lines, rfl, ⟨line, hline, hid ▸ hstart⟩, ti, hti, hid, hk⟩
      · exact .inl ⟨ti, hti, hid, hsome⟩
    · rintro (⟨ti, hti, rfl, hsome⟩ | ⟨_, ⟨⟩, ⟨line, hline, hstart⟩, ti, hti, rfl, hk⟩)
      · refine ⟨_, List.mem_map_of_mem hti, foldl_connect_id lines ti, ?_⟩
        rw [foldl_connect_port lines ti (port_isSome_lt hsome), Option.isSome_or, hsome,
          Bool.or_true]
      · refine ⟨_, List.mem_map_of_mem hti, foldl_connect_id lines ti, ?_⟩
        rw [foldl_connect_port lines ti hk, Option.isSome_or, Bool.or_eq_true]
        left
        rw [List.find?_isSome]
        exact ⟨line, List.mem_reverse.mpr hline, decide_eq_true hstart⟩

theorem held_startTasks (inits : Inits) (ms : MicroService) :
    held (startTasks inits ms).1.tasks.nodes = held ms.tasks.nodes := by
  refine held_congr (runTasks_map (g := fun ti => (ti.id, ti.outputPorts)) ?_ _ _ _)
  exact runTask_frame (g := fun ti => (ti.id, ti.outputPorts)) (fun _ _ _ _ => rfl)
    (fun _ _ _ => rfl) false

theorem held_update {ts : TaskList} {id : TaskId} {f : TaskUpdate}
    (hf : ∀ ti, (f.apply ti).outputPorts = ti.outputPorts) :
    held (ts.update id f).nodes = held ts.nodes := by
  refine held_congr (TaskList.map_update _ ts id f fun ti => ?_)
  rw [f.id_apply, hf]

theorem held_stopTask (ms : MicroService) :
    held (stopTask ms).1.tasks.nodes = held ms.tasks.nodes := by
  rw [stopTask_tasks]

theorem held_addNewTask (ms : MicroService) (config : TaskConfig) :
    held (addNewTask ms config).tasks.nodes = held ms.tasks.nodes := by
  have hnew : ∀ h taskIdx queue tis,
      held (newTask config h taskIdx queue ms.tasks.next :: tis) = held tis := by
    intro h taskIdx queue tis
    ext p
    constructor
    · rintro ⟨ti, hti, hid, hsome⟩
      rcases List.mem_cons.mp hti with rfl | hti
      · unfold TaskInfo.port newTask at hsome
        dsimp only at hsome
        rw [List.getElem?_replicate] at hsome
        split at hsome <;> cases hsome
      · exact ⟨ti, hti, hid, hsome⟩
    · rintro ⟨ti, hti, hid, hsome⟩
      exact ⟨ti, List.mem_cons_of_mem _ hti, hid, hsome⟩
  unfold addNewTask
  split
  · dsimp only
    split
    · exact hnew _ _ _ _
    · refine (held_congr (onTask_map _ _ _ _ fun _ _ => rfl)).trans ?_
      exact hnew _ _ _ _
  · rfl

theorem held_runCreate (ms : MicroService) :
    held ms.runCreate.tasks.nodes = held ms.tasks.nodes := by
  refine runCreate_frame (fun ms => held ms.tasks.nodes) ?_ ms
  intro s call
  obtain ⟨config, rfl⟩ | ⟨-, _, _, _, h⟩ := createStep_cases s call
  · exact held_addNewTask s.1 config
  · rw [h]

theorem held_offTask {ms : MicroService} {id : TaskId} (hti : ms.tasks.find? id = some ti) :
    held (ms.onTask id offTask).tasks.nodes = held ms.tasks.nodes \ {p | p.1 = id} := by
  unfold MicroService.onTask
  rw [hti]
  ext p
  constructor
  · rintro ⟨t', ht', hid, hsome⟩
    obtain ⟨t, ht, rfl⟩ := List.mem_map.mp ht'
    split at hid
    · rename_i heq
      rw [if_pos heq] at hsome
      unfold TaskInfo.port offTask at hsome
      dsimp only at hsome
      rw [List.getElem?_replicate] at hsome
      split at hsome <;> cases hsome
    · rename_i hne
      rw [if_neg hne] at hsome
      exact ⟨⟨t, ht, hid, hsome⟩, fun h => hne (hid.trans h)⟩
  · rintro ⟨⟨t, ht, hid, hsome⟩, hne⟩
    refine ⟨t, List.mem_map.mpr ⟨t, ht, if_neg fun heq => hne ?_⟩, hid, hsome⟩
    exact hid.symm.trans heq

theorem held_delMicroService (ms : MicroService) :
    held (delMicroService ms).1.tasks.nodes = held ms.tasks.nodes \
      {p | p.1 ∈ (ms.tasks.nodes.take (nodeNum ms.tasks.nodes)).map TaskInfo.id} := by
  have htasks : (delMicroService ms).1.tasks = ms.tasks.foreachToDel := by
    unfold delMicroService
    dsimp only
    split
    · rw [stopTask_tasks]
    · rfl
  rw [htasks]
  have hsplit := List.take_append_drop (nodeNum ms.tasks.nodes) ms.tasks.nodes
  ext p
  constructor
  · rintro ⟨ti, hti, hid, hsome⟩
    refine ⟨⟨ti, List.mem_of_mem_drop hti, hid, hsome⟩, ?_⟩
    intro hmem
    have hnodup := ms.tasks.distinct
    rw [← hsplit, List.map_append] at hnodup
    refine (List.nodup_append.mp hnodup).2.2 _ hmem _ ?_ hid.symm
    exact List.mem_map_of_mem hti
  · rintro ⟨⟨ti, hti, hid, hsome⟩, hnot⟩
    rw [← hsplit, List.mem_append] at hti
    rcases hti with hti | hti
    · exact absurd (List.mem_map.mpr ⟨ti, hti, hid⟩) hnot
    · exact ⟨ti, hti, hid, hsome⟩

theorem held_run_none (h : selecting ms (.run inits) = none) :
    held (lifecycleStep ms (.run inits)).tasks.nodes = held ms.tasks.nodes := by
  have h : (if ms.state = .created ∧ (startTasks inits ms).2 then some (startTasks inits ms).1
      else none) = none := h
  unfold lifecycleStep runMicroService
  dsimp only
  cases hstate : ms.state with
  | created =>
    dsimp only
    cases hstart : startTasks inits ms with
    | mk pre ok =>
      cases ok with
      | true =>
        rw [hstate, hstart, if_pos ⟨rfl, rfl⟩] at h
        cases h
      | false =>
        have hpre : pre = (startTasks inits ms).1 := by rw [hstart]
        dsimp only
        rw [held_stopTask, hpre, held_startTasks]
  | stopped => exact held_congr (map_resumeStopped (fun _ _ => rfl) ms.tasks.nodes)
  | notReady => rfl
  | running => rfl

theorem held_selecting (h : selecting ms e = some pre) :
    held pre.tasks.nodes = held ms.tasks.nodes \ cleared ms e := by
  cases e with
  | run inits =>
    rw [show cleared ms (.run inits) = ∅ from rfl, Set.sdiff_empty]
    unfold selecting at h
    dsimp only at h
    split at h
    · cases h
      exact held_startTasks inits ms
    · cases h
  | onoff id onoff =>
    obtain ⟨ti, hti, -, ⟨rfl, -, rfl⟩ | ⟨rfl, rfl⟩⟩ := switchTask_some h
    · rw [show cleared ms (.onoff id true) = ∅ from rfl, Set.sdiff_empty]
      exact held_update fun _ => rfl
    · have hsome : (switchTask ms id false).isSome := by
        have h : switchTask ms id false = some (ms.onTask id offTask) := h
        rw [h]
        rfl
      rw [held_offTask hti]
      unfold cleared
      simp only [hsome, and_true]
  | create => cases h
  | stopMs => cases h
  | stopTask => cases h
  | del => cases h
  | taskState id state => cases h
  | outputValue type value => cases h
  | paramSet id params => cases h
  | outputRead dri => cases h

theorem held_not_selecting (h : selecting ms e = none) :
    held (lifecycleStep ms e).tasks.nodes = held ms.tasks.nodes \ cleared ms e := by
  cases e with
  | run inits =>
    rw [show cleared ms (.run inits) = ∅ from rfl, Set.sdiff_empty]
    exact held_run_none h
  | onoff id onoff =>
    have h : switchTask ms id onoff = none := h
    have hstep : lifecycleStep ms (.onoff id onoff) = ms := by
      unfold lifecycleStep taskOnoff
      dsimp only
      rw [h]
    have hclear : cleared ms (.onoff id onoff) = ∅ := by
      unfold cleared
      cases onoff with
      | true => rfl
      | false => simp [h]
    rw [hstep, hclear, Set.sdiff_empty]
  | create =>
    rw [show cleared ms .create = ∅ from rfl, Set.sdiff_empty]
    obtain ⟨-, hcreate⟩ | hcreate := lifecycleStep_create ms <;> rw [hcreate]
    exact held_runCreate ms
  | stopMs => exact (held_runCreate _).trans (held_delMicroService ms)
  | stopTask =>
    rw [show cleared ms .stopTask = ∅ from rfl, Set.sdiff_empty]
    exact held_stopTask ms
  | del => exact held_delMicroService ms
  | taskState id state =>
    rw [show cleared ms (.taskState id state) = ∅ from rfl, Set.sdiff_empty]
    exact held_update (setTaskState_frame (fun _ _ => rfl) state)
  | outputValue type value =>
    rw [show cleared ms (.outputValue type value) = ∅ from rfl, Set.sdiff_empty]
    rfl
  | paramSet id params =>
    rw [show cleared ms (.paramSet id params) = ∅ from rfl, Set.sdiff_empty]
    exact held_update fun _ => rfl
  | outputRead dri =>
    rw [show cleared ms (.outputRead dri) = ∅ from rfl, Set.sdiff_empty]
    rfl

theorem held_lifecycleStep (ms : MicroService) (e : LifecycleEvent) :
    held (lifecycleStep ms e).tasks.nodes =
      held ms.tasks.nodes \ cleared ms e ∪ connected ms e := by
  unfold connected
  cases hsel : selecting ms e with
  | none =>
    rw [held_not_selecting hsel]
    simp
  | some pre =>
    rw [lifecycleStep_selecting hsel, held_setOutputConnectLine, held_selecting hsel]
    simp

-- ---------------------------------------------------------------------------
-- Runs
-- ---------------------------------------------------------------------------

/-- The ports that the steps of a run connected and have not cleared since. -/
def wired (run : List (MicroService × LifecycleEvent)) : Set (TaskId × Nat) :=
  run.foldl (fun w x => w \ cleared x.1 x.2 ∪ connected x.1 x.2) ∅

theorem held_run (hrun : LifecycleRun ms₀ run ms) (h₀ : held ms₀.tasks.nodes = ∅) :
    held ms.tasks.nodes = wired run := by
  induction hrun with
  | start => exact h₀
  | step _ hs ih =>
    rw [hs, held_lifecycleStep, ih]
    unfold wired
    rw [List.foldl_append]
    rfl

def RoutedStep (ms : MicroService) (e : LifecycleEvent) : Prop :=
  ∀ pre ∈ selecting ms e, ∀ lines ∈ selectedLines pre,
    Routed (lifecycleStep ms e).tasks.nodes lines

/-- If a step selects a list, it has a line at each of these ports that the step
does not clear. -/
def Covers (w : Set (TaskId × Nat)) (ms : MicroService) (e : LifecycleEvent) : Prop :=
  ∀ pre ∈ selecting ms e, ∀ lines ∈ selectedLines pre, w \ cleared ms e ⊆ starts lines

theorem routedStep_iff (ms : MicroService) (e : LifecycleEvent) :
    RoutedStep ms e ↔ Covers (held ms.tasks.nodes) ms e := by
  unfold RoutedStep Covers
  refine forall₂_congr fun pre hpre => forall₂_congr fun lines hlines => ?_
  rw [lifecycleStep_selecting hpre, routed_iff hlines, held_selecting hpre]

/-- The ports follow every selected list of a run exactly if each has a line at
every port that was connected before and not cleared since. -/
theorem routing_iff (hrun : LifecycleRun ms₀ run ms) (h₀ : held ms₀.tasks.nodes = ∅) :
    (∀ x ∈ run, RoutedStep x.1 x.2) ↔
      ∀ before x after, run = before ++ x :: after → Covers (wired before) x.1 x.2 := by
  have hsplit : ∀ before x after, run = before ++ x :: after →
      (RoutedStep x.1 x.2 ↔ Covers (wired before) x.1 x.2) := by
    rintro before x after rfl
    rw [routedStep_iff, held_run hrun.before h₀]
  constructor
  · intro hall before x after heq
    refine (hsplit before x after heq).mp (hall x ?_)
    rw [heq]
    exact List.mem_append_right _ List.mem_cons_self
  · intro hall x hx
    obtain ⟨before, after, heq⟩ := List.append_of_mem hx
    exact (hsplit before x after heq).mpr (hall before x after heq)

/-- A sensor with two ports, a log that can be switched off and a display: the
display has its line in both lists, the log in the one for all tasks. -/
def sampleRouting (logOff : List Nat) : MicroService :=
  makeMicroService "101".toList
    [.addNewTask { sampleTask "sensor".toList false with outputCount := 2 },
      .addNewTask (sampleTask "log".toList true), .addNewTask (sampleTask "display".toList false),
      .addConnectLine "sensor".toList 0 "log".toList 0,
      .addConnectLine "sensor".toList 1 "display".toList 0,
      .addConnectLine "sensor".toList 0 "display".toList 0, .makeTaskLinks,
      .setConnectLink [0, 1] "all".toList [],
      .setConnectLink logOff "short".toList ["log".toList]]

theorem held_sampleRouting (logOff : List Nat) :
    held (sampleRouting logOff).tasks.nodes = ∅ := by
  ext p
  exact ⟨fun ⟨_, hti, _⟩ => absurd hti List.not_mem_nil, False.elim⟩

/-- When the log is switched off, the port of the sensor keeps the line to it. -/
theorem switched_off_not_routed :
    ¬ ∀ ms₀ run ms, LifecycleRun ms₀ run ms → held ms₀.tasks.nodes = ∅ →
      ∀ x ∈ run, RoutedStep x.1 x.2 := by
  intro h
  have hrun := run_trace lifecycleStep (sampleRouting [1]) [.create, .run (initAll false), .onoff 1 false]
  have hstep := h _ _ _ hrun (held_sampleRouting [1]) _ (List.mem_of_getElem? (i := 2) rfl)
  have hlines : (selecting ([.create, .run (initAll false)].foldl lifecycleStep (sampleRouting [1]))
      (.onoff 1 false)).bind selectedLines = some [⟨0, 1, 2, 0⟩] := by decide
  obtain ⟨pre, hpre, hlines⟩ := Option.bind_eq_some_iff.mp hlines
  have hrouted := hstep pre hpre _ hlines
  revert hrouted
  unfold Routed
  decide

theorem covers_held (h : ∀ lines ∈ (selecting ms e).bind selectedLines, ∀ ti ∈ ms.tasks.nodes,
    ∀ k < ti.outputCount.toNat, (ti.port k).isSome → ∃ line ∈ lines, line.startPort = (ti.id, k)) :
    Covers (held ms.tasks.nodes) ms e := by
  rintro pre hpre lines hlines ⟨id, k⟩ ⟨⟨ti, hti, rfl, hsome⟩, -⟩
  have hbind : (selecting ms e).bind selectedLines = some lines := by
    rw [hpre]
    exact hlines
  exact h lines hbind ti hti k (port_isSome_lt hsome) hsome

theorem switched_off_routed :
    RoutedStep ([.create, .run (initAll false)].foldl lifecycleStep (sampleRouting [1, 2]))
      (.onoff 1 false) := by
  have hrun := run_trace lifecycleStep (sampleRouting [1, 2])
    [.create, .run (initAll false), .onoff 1 false]
  refine (routing_iff hrun (held_sampleRouting [1, 2])).mpr ?_ _ (List.mem_of_getElem? (i := 2) rfl)
  intro before x after heq
  have hx : x ∈ before ++ x :: after := List.mem_append_right _ List.mem_cons_self
  rw [heq] at hrun
  rw [← heq] at hx
  rw [← held_run hrun.before (held_sampleRouting [1, 2])]
  simp only [trace, List.mem_cons, List.not_mem_nil, or_false] at hx
  rcases hx with rfl | rfl | rfl <;> exact covers_held (by decide)

end IoTware.Micro
