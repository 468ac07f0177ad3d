import IoTware.Lib.Runs
import IoTware.Micro.Report

/-!
# Ports of connect lines

The ports that a connect line names, over the calls that build a microservice. The
bodies of the tasks index the arrays of a task with them.
-/

namespace IoTware.Micro

open CText Runs

def uint32Max : UInt32 := 0xFFFFFFFF

/-- The ports of a line are ports of its tasks, and the arrays of the tasks have them. -/
structure ValidLine (ms : MicroService) (line : ConnectLine) : Prop where
  start : ∃ startTask ∈ ms.tasks.find? line.startTask, line.outputPortNo < startTask.outputCount ∧
    line.outputPortNo.toNat < startTask.outputPorts.length
  dest : ∃ destTask ∈ ms.tasks.find? line.destTask, line.inputPortNo < destTask.inputCount ∧
    line.inputPortNo.toNat < destTask.inputQueues.length

def ValidPorts (ms : MicroService) : Prop := ∀ line ∈ ms.connectLines, ValidLine ms line

def Rejected (ms : MicroService) : CreateCall → Prop
  | .addNewTask config => config.rejected = true
  | .addConnectLine start outputPort dest inputPort =>
    (addConnectLine ms start outputPort dest inputPort).2 = none
  | .addMsInputParam _ | .makeTaskLinks | .setConnectLink .. => False

/-- Where the call connects two tasks and a port is `UINT32_MAX`, the other port is
neither a port of its task nor `UINT32_MAX`. -/
def KeepsPorts (ms : MicroService) : CreateCall → Prop
  | .addConnectLine start outputPort dest inputPort =>
    ∀ startTask ∈ getTaskInfoByName ms start, ∀ destTask ∈ getTaskInfoByName ms dest,
      (outputPort = uint32Max → destTask.inputCount ≤ inputPort ∧ inputPort ≠ uint32Max) ∧
      (inputPort = uint32Max → startTask.outputCount ≤ outputPort ∧ outputPort ≠ uint32Max)
  | .addNewTask _ | .addMsInputParam _ | .makeTaskLinks | .setConnectLink .. => True

def CreateStep (s : MicroService × List (Option ConnectLine)) (call : CreateCall)
    (s' : MicroService × List (Option ConnectLine)) : Prop :=
  s' = createStep s call

-- ---------------------------------------------------------------------------
-- One line
-- ---------------------------------------------------------------------------

theorem port_passes_iff (count port : UInt32) :
    ¬ count < port + 1 ↔ port < count ∨ port = uint32Max := by
  have hmax : port = uint32Max ↔ port.toNat = 4294967295 := UInt32.toNat_inj.symm
  have hport := port.toNat_lt
  have hcount := count.toNat_lt
  have hone : (port + 1).toNat = (port.toNat + 1) % 4294967296 := UInt32.toNat_add port 1
  rw [hmax, UInt32.lt_iff_toNat_lt, UInt32.lt_iff_toNat_lt, hone]
  omega

theorem not_lt_uint32Max (count : UInt32) : ¬ uint32Max < count := by
  have hcount := count.toNat_lt
  have hmax : uint32Max.toNat = 4294967295 := rfl
  rw [UInt32.lt_iff_toNat_lt, hmax]
  omega

theorem passes_imp_iff (outputCount inputCount outputPort inputPort : UInt32) :
    (¬ (outputCount < outputPort + 1 ∨ inputCount < inputPort + 1) →
        outputPort < outputCount ∧ inputPort < inputCount) ↔
      (outputPort = uint32Max → inputCount ≤ inputPort ∧ inputPort ≠ uint32Max) ∧
      (inputPort = uint32Max → outputCount ≤ outputPort ∧ outputPort ≠ uint32Max) := by
  have hout : outputPort = uint32Max → ¬ outputPort < outputCount := fun h => h ▸ not_lt_uint32Max _
  have hin : inputPort = uint32Max → ¬ inputPort < inputCount := fun h => h ▸ not_lt_uint32Max _
  rw [not_or, port_passes_iff, port_passes_iff, ← UInt32.not_lt, ← UInt32.not_lt]
  tauto

theorem getTaskInfoByName_find? (h : getTaskInfoByName ms name = some ti) :
    ms.tasks.find? ti.id = some ti := by
  unfold getTaskInfoByName at h
  split at h
  · cases h
  · exact ms.tasks.find?_of_mem (List.mem_of_find?_eq_some h)

theorem validLine_iff {startTask destTask : TaskInfo}
    (hstart : ms.tasks.find? line.startTask = some startTask)
    (hdest : ms.tasks.find? line.destTask = some destTask) :
    ValidLine ms line ↔
      line.outputPortNo < startTask.outputCount ∧ line.inputPortNo < destTask.inputCount := by
  constructor
  · rintro ⟨⟨st, hst, hout, -⟩, dt, hdt, hin, -⟩
    cases hstart.symm.trans hst
    cases hdest.symm.trans hdt
    exact ⟨hout, hin⟩
  · rintro ⟨hout, hin⟩
    refine ⟨⟨startTask, hstart, hout, ?_⟩, destTask, hdest, hin, ?_⟩
    · rw [startTask.ports_length]
      exact UInt32.lt_iff_toNat_lt.mp hout
    · rw [destTask.queues_length]
      exact UInt32.lt_iff_toNat_lt.mp hin

theorem ValidLine.extends (h : ValidLine ms line) (hext : Extends ms' ms) : ValidLine ms' line := by
  obtain ⟨tis, htis⟩ := hext.tasks
  have hfind {id : TaskId} {ti} (hti : ms.tasks.find? id = some ti) : ms'.tasks.find? id = some ti := by
    obtain ⟨hmem, rfl⟩ := TaskList.mem_of_find? hti
    exact ms'.tasks.find?_of_mem (htis ▸ List.mem_append_right tis hmem)
  obtain ⟨⟨startTask, hstart, hout⟩, destTask, hdest, hin⟩ := h
  exact ⟨⟨startTask, hfind hstart, hout⟩, destTask, hfind hdest, hin⟩

-- ---------------------------------------------------------------------------
-- All lines
-- ---------------------------------------------------------------------------

theorem ValidPorts.createStep (h : ValidPorts s.1)
    (hlines : (Micro.createStep s call).1.connectLines = s.1.connectLines) :
    ValidPorts (Micro.createStep s call).1 := by
  intro line hline
  rw [hlines] at hline
  exact (h line hline).extends (createStep_extends s call)

theorem ValidPorts.addConnectLine_iff (h : ValidPorts ms) (start dest : Text)
    (outputPort inputPort : UInt32) :
    ValidPorts (addConnectLine ms start outputPort dest inputPort).1 ↔
      KeepsPorts ms (.addConnectLine start outputPort dest inputPort) := by
  unfold addConnectLine KeepsPorts
  split
  · rename_i startTask destTask hstart hdest
    simp only [hstart, hdest, Option.mem_def, Option.some.injEq, forall_eq']
    rw [← passes_imp_iff]
    split
    · rename_i hfails
      exact iff_of_true h fun hpasses => absurd hfails hpasses
    · rename_i hpasses
      let line : ConnectLine := ⟨startTask.id, outputPort, destTask.id, inputPort⟩
      have hvalid : ValidLine ms line ↔
          outputPort < startTask.outputCount ∧ inputPort < destTask.inputCount :=
        validLine_iff (getTaskInfoByName_find? hstart) (getTaskInfoByName_find? hdest)
      have hlines :
          ValidPorts { ms with connectLines := line :: ms.connectLines } ↔ ValidLine ms line := by
        constructor
        · intro h'
          obtain ⟨hout, hin⟩ := h' line List.mem_cons_self
          exact ⟨hout, hin⟩
        · intro hline
          refine List.forall_mem_cons.mpr ⟨⟨hline.start, hline.dest⟩, fun line' hline' => ?_⟩
          exact ⟨(h line' hline').start, (h line' hline').dest⟩
      rw [hlines, hvalid]
      exact ⟨fun hports _ => hports, fun hports => hports hpasses⟩
  · rename_i hnone
    refine iff_of_true h fun startTask hstart destTask hdest => ?_
    exact absurd hdest (hnone startTask destTask hstart)

theorem addNewTask_connectLines (ms : MicroService) (config : TaskConfig) :
    (addNewTask ms config).connectLines = ms.connectLines := by
  unfold addNewTask
  split
  · dsimp only
    split
    · rfl
    · unfold MicroService.onTask
      split <;> rfl
  · rfl

theorem ValidPorts.createStep_iff (h : ValidPorts s.1) (call : CreateCall) :
    ValidPorts (Micro.createStep s call).1 ↔ KeepsPorts s.1 call := by
  cases call with
  | addConnectLine start outputPort dest inputPort =>
    exact h.addConnectLine_iff start dest outputPort inputPort
  | addNewTask config =>
    refine iff_of_true (h.createStep ?_) trivial
    exact addNewTask_connectLines s.1 config
  | addMsInputParam param => exact iff_of_true (h.createStep rfl) trivial
  | makeTaskLinks => exact iff_of_true (h.createStep rfl) trivial
  | setConnectLink lines outputName offTasks =>
    refine iff_of_true (h.createStep ?_) trivial
    obtain heq | ⟨head, heq⟩ := createStep_setConnectLink s lines outputName offTasks
    · rw [heq]
    · rw [heq]

theorem createStep_of_rejected (h : Rejected s.1 call) :
    (Micro.createStep s call).1.connectLines = s.1.connectLines := by
  cases call with
  | addNewTask config => exact addNewTask_connectLines s.1 config
  | addConnectLine start outputPort dest inputPort =>
    have h : (addConnectLine s.1 start outputPort dest inputPort).2 = none := h
    show (addConnectLine s.1 start outputPort dest inputPort).1.connectLines = _
    unfold addConnectLine at h ⊢
    split at h
    · split at h
      · rename_i hfails
        rw [if_pos hfails]
      · cases h
    · rfl
  | addMsInputParam param => cases h
  | makeTaskLinks => cases h
  | setConnectLink lines outputName offTasks => cases h

/-- In a run of calls, all lines have valid ports all the time, and a rejected call
leaves the lines as they were, exactly if no call connects tasks by a port that cannot
be counted. -/
theorem validPorts_always_iff (h : ValidPorts s₀.1) (hrun : Run CreateStep s₀ run s) :
    ((∀ t ∈ visited run s, ValidPorts t.1) ∧
        ∀ x ∈ run, Rejected x.1.1 x.2 → (createStep x.1 x.2).1.connectLines = x.1.1.connectLines) ↔
      ∀ x ∈ run, KeepsPorts x.1.1 x.2 := by
  rw [and_iff_left fun x _ hrejected => createStep_of_rejected hrejected]
  refine hrun.always_iff (I := fun _ => True) (P := fun t => ValidPorts t.1)
    (C := fun t call => KeepsPorts t.1 call) trivial h
    (fun _ _ _ _ _ => trivial) ?_
  rintro t call t' - ht rfl
  exact ht.createStep_iff call

def sampleLine (outputPort inputPort : UInt32) : List CreateCall :=
  [.addNewTask (sampleTask "log".toList false), .addNewTask (sampleTask "sensor".toList false),
    .addConnectLine "sensor".toList outputPort "log".toList inputPort]

def sampleStart : MicroService × List (Option ConnectLine) := (makeMicroService "101".toList [], [])

theorem validPorts_sample :
    ((∀ t ∈ visited (trace createStep sampleStart (sampleLine 0 0))
          ((sampleLine 0 0).foldl createStep sampleStart), ValidPorts t.1) ∧
        ∀ x ∈ trace createStep sampleStart (sampleLine 0 0),
          Rejected x.1.1 x.2 → (createStep x.1 x.2).1.connectLines = x.1.1.connectLines) ↔
      ∀ x ∈ trace createStep sampleStart (sampleLine 0 0), KeepsPorts x.1.1 x.2 :=
  validPorts_always_iff (fun _ hline => absurd hline List.not_mem_nil)
    (run_trace createStep sampleStart (sampleLine 0 0))

/-- A line from the port `UINT32_MAX` of a task that has one port. -/
theorem line_from_uint32Max :
    ∃ run s, Run CreateStep sampleStart run s ∧ ¬ ValidPorts s.1 := by
  refine ⟨_, _, run_trace createStep sampleStart (sampleLine uint32Max 0), fun h => ?_⟩
  obtain ⟨⟨startTask, hstart, hout, -⟩, -⟩ := h ⟨1, uint32Max, 0, 0⟩ (by decide)
  have hport : (((sampleLine uint32Max 0).foldl createStep sampleStart).1.tasks.find? 1).any
      (fun ti => uint32Max < ti.outputCount) = false := by decide
  rw [Option.mem_def.mp hstart] at hport
  exact absurd hout (of_decide_eq_false hport)

end IoTware.Micro
