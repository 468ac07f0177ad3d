import IoTware.Dist.Answers

/-!
# Requests that fail

A request to switch tasks stops at the first task that it cannot switch and
keeps what it has switched before. A request to set parameters fails only for a
microservice of which it has set none.
-/

namespace IoTware.Dist

open CText LwMsg Micro Runs Loops

-- ---------------------------------------------------------------------------
-- Switching tasks
-- ---------------------------------------------------------------------------

/-- An object of `tis` names a task, and it is switched. -/
def SwitchedBy (onoff : Bool) (ms : MicroService) (obj : LWMObject) (ms' : MicroService) : Prop :=
  ∃ index ti, taskIndex obj = .ok index ∧ getTaskInfoByIdx ms index = some ti ∧
    taskOnoff ms ti.id onoff = (ms', true)

/-- It names no task, or one that `task_onoff` refuses to switch. -/
def SwitchFails (onoff : Bool) (ms : MicroService) (obj : LWMObject) : Prop :=
  ∃ index, taskIndex obj = .ok index ∧ ∀ ti, getTaskInfoByIdx ms index = some ti →
    taskOnoff ms ti.id onoff = (ms, false)

def Switches (onoff : Bool) : MicroService → List LWMObject → MicroService → Prop
  | ms, [], ms' => ms' = ms
  | ms, obj :: objs, ms' => ∃ ms₁, SwitchedBy onoff ms obj ms₁ ∧ Switches onoff ms₁ objs ms'

/-- What a request that fails at a microservice leaves: nothing has changed, or
the tasks in front of the first failing one are switched. -/
def KeepsPrefix (onoff : Bool) (body : LWMDictionary) (services : List MicroService) (msid : LWMObject)
    (services' : List MicroService) : Prop :=
  services' = services ∨ ∃ ms i tis switched failing rest ms',
    getMicroServiceInfoById services msid.stringValue = some (ms, i) ∧
    getLwmObjectFromDict body "tis".toList = .ok (some (.array tis)) ∧
    tis = switched ++ failing :: rest ∧ Switches onoff ms switched ms' ∧
    SwitchFails onoff ms' failing ∧ services' = services.set i ms'

theorem taskOnoff_refused {id : TaskId} (h : (taskOnoff ms id onoff).2 = false) :
    taskOnoff ms id onoff = (ms, false) := by
  unfold taskOnoff at h ⊢
  cases hswitch : switchTask ms id onoff with
  | none => rfl
  | some ms' =>
    rw [hswitch] at h
    cases h

theorem offloardingTask_cases {s' : MicroService × UInt32}
    (h : offloardingTask onoff s obj = .ok (s', stop)) :
    stop = false ∧ s'.2 = 200 ∧ SwitchedBy onoff s.1 obj s'.1 ∨
      stop = true ∧ s'.1 = s.1 ∧ SwitchFails onoff s.1 obj := by
  obtain ⟨index, hindex, ⟨hti, rfl, rfl⟩ | ⟨ti, hti, hms, hstop, hcode⟩⟩ := offloardingTask_inv h
  · refine .inr ⟨rfl, rfl, index, hindex, ?_⟩
    rw [hti]
    rintro _ ⟨⟩
  · cases hon : (taskOnoff s.1 ti.id onoff).2 with
    | true =>
      rw [hon] at hstop hcode
      exact .inl ⟨hstop, hcode, index, ti, hindex, hti, Prod.ext hms.symm hon⟩
    | false =>
      have hrefused := taskOnoff_refused hon
      rw [hrefused] at hms hstop
      refine .inr ⟨hstop, hms, index, hindex, ?_⟩
      rw [hti]
      rintro _ ⟨⟩
      exact hrefused

theorem offloardingTasks_failure {s' : MicroService × UInt32}
    (h : loop (offloardingTask onoff) s tis = .ok (s', stop)) (hrsc : s'.2 ≠ 200) :
    tis = [] ∧ s' = s ∨ ∃ switched failing rest, tis = switched ++ failing :: rest ∧
      Switches onoff s.1 switched s'.1 ∧ SwitchFails onoff s'.1 failing := by
  induction tis generalizing s with
  | nil =>
    cases h
    exact .inl ⟨rfl, rfl⟩
  | cons obj tis ih =>
    right
    rw [loop, bind_ok] at h
    obtain ⟨⟨s₁, stop₁⟩, h₁, hrest⟩ := h
    obtain ⟨rfl, hcode, hswitched⟩ | ⟨rfl, hsame, hfails⟩ := offloardingTask_cases h₁
    · obtain ⟨rfl, rfl⟩ | ⟨switched, failing, rest, rfl, hswitches, hfails⟩ := ih hrest
      · exact absurd hcode hrsc
      · exact ⟨obj :: switched, failing, rest, rfl, ⟨s₁.1, hswitched, hswitches⟩, hfails⟩
    · cases hrest
      refine ⟨[], obj, tis, rfl, hsame, ?_⟩
      rw [hsame]
      exact hfails

theorem offloardingStep_failure (h : offloardingStep onoff body s msid = .ok s') (hrsc : s'.2 ≠ 200) :
    KeepsPrefix onoff body s.1 msid s'.1 := by
  unfold offloardingStep at h
  rw [bind_ok] at h
  obtain ⟨value, htis, h⟩ := h
  split at h
  · rename_i ms i tis hinfo
    simp only [bind_ok, pure_ok] at h
    obtain ⟨⟨⟨ms', rsc⟩, stop⟩, hloop, rfl⟩ := h
    obtain ⟨-, heq⟩ | ⟨switched, failing, rest, hsplit, hswitches, hfails⟩ :=
      offloardingTasks_failure hloop hrsc
    · cases heq
      exact .inl (set_getElem?_self (getMicroServiceInfoById_some hinfo))
    · exact .inr ⟨ms, i, tis, switched, failing, rest, ms', hinfo, htis, hsplit, hswitches, hfails, rfl⟩
  · cases h
    exact .inl rfl

-- ---------------------------------------------------------------------------
-- Setting parameters
-- ---------------------------------------------------------------------------

theorem fpSteps_notFound {entries : List FpEntry}
    (h : entries.foldlM (fpStep pf) (params, found) = .ok (params', false)) :
    found = false ∧ params' = params := by
  have hkeep : ∀ s entry s', (s.2 = false → found = false ∧ s.1 = params) →
      fpStep pf s entry = .ok s' → (s'.2 = false → found = false ∧ s'.1 = params) := by
    intro s entry s' hs h
    unfold fpStep at h
    split at h
    · cases h
    split at h
    · cases h
      exact hs
    · simp only [bind_ok, pure_ok] at h
      obtain ⟨_, -, _, -, rfl⟩ := h
      rintro ⟨⟩
  exact foldlM_invariant hkeep (fun h => ⟨h, rfl⟩) h rfl

theorem updateTask_setFlexibleParams_self {ms : MicroService}
    (h : ms.tasks.find? ti.id = some ti) :
    ms.updateTask ti.id (setFlexibleParams ti.flexibleParams) = ms := by
  unfold MicroService.updateTask
  rw [TaskList.update_eq_self]
  rw [h]
  rintro _ ⟨⟩
  rfl

/-- A microservice is as it was until a parameter is found. From then on the
code is 200, as there is an `fp`. -/
def UnsetOrSet (body : LWMDictionary) (ms : MicroService) (s : MicroService × Bool × UInt32) : Prop :=
  s.2.1 = false ∧ s.1 = ms ∨
    s.2.1 = true ∧ s.2.2 = 200 ∧ ∃ fp, getLwmObjectFromDict body "fp".toList = .ok (some fp)

theorem paramSetTask_unsetOrSet (hs : UnsetOrSet body ms s)
    (h : paramSetTask pf body s obj = .ok (s', stop)) : UnsetOrSet body ms s' := by
  unfold paramSetTask at h
  rw [bind_ok] at h
  obtain ⟨value, hfp, h⟩ := h
  cases value with
  | none =>
    cases h
    obtain ⟨hnot, hsame⟩ | ⟨-, -, fp, hsome⟩ := hs
    · exact .inl ⟨hnot, hsame⟩
    · rw [hfp] at hsome
      cases hsome
  | some fp =>
    simp only [bind_ok, pure_ok] at h
    obtain ⟨index, -, entries, -, ⟨params, found⟩, hloop, heq⟩ := h
    cases heq
    cases found with
    | true => exact .inr ⟨rfl, rfl, fp, hfp⟩
    | false =>
      obtain ⟨hnot, hsame⟩ := fpSteps_notFound hloop
      obtain ⟨-, hms⟩ | ⟨hfound, -⟩ := hs
      · refine .inl ⟨rfl, Eq.trans ?_ hms⟩
        rw [hsame]
        cases hti : getTaskInfoByIdx s.1 index with
        | none => rfl
        | some ti => exact updateTask_setFlexibleParams_self (getTaskInfoByIdx_find? hti)
      · rw [hfound] at hnot
        cases hnot

theorem paramSetStep_failure (h : paramSetStep pf body s msid = .ok (s', stop)) (hrsc : s'.2 ≠ 200) :
    s'.1 = s.1 := by
  unfold paramSetStep at h
  split at h
  · cases h
    rfl
  rename_i ms i hinfo
  rw [bind_ok] at h
  obtain ⟨value, -, h⟩ := h
  split at h
  · rename_i tis
    simp only [bind_ok, pure_ok] at h
    obtain ⟨⟨⟨ms', found, rsc⟩, returned⟩, hloop, heq⟩ := h
    cases heq
    obtain ⟨⟨-, hsame⟩ | ⟨-, hcode, -⟩, -⟩ := loop_invariant (P := True)
      (fun _ _ _ _ hs h => ⟨paramSetTask_unsetOrSet hs h, fun _ => trivial⟩) (.inl ⟨rfl, rfl⟩) hloop
    · cases hsame
      exact set_getElem?_self (getMicroServiceInfoById_some hinfo)
    · exact absurd hcode hrsc
  · cases h
    rfl

-- ---------------------------------------------------------------------------
-- The requests
-- ---------------------------------------------------------------------------

/-- A failing request to switch tasks keeps what it did for the objects of `mis`
before the last one, and of that one the tasks it switched. As `mis` counts as
one object there are none before it, or a multiple of 256. -/
def SwitchLeaves (onoff : Bool) (services : List MicroService) (body : LWMDictionary)
    (services' : List MicroService) : Prop :=
  services' = services ∨ ∃ front msid services₁ rsc₁,
    getLwmObjectFromDict body "mis".toList = .ok (some (.array (front ++ [msid]))) ∧
    front.length % 256 = 0 ∧
    front.foldlM (offloardingStep onoff body) (services, 400) = .ok (services₁, rsc₁) ∧
    KeepsPrefix onoff body services₁ msid services'

/-- A failing request to set parameters keeps what it did before the last object
of `mis` that it came to. -/
def SetLeaves (pf : Platform) (services : List MicroService) (body : LWMDictionary)
    (services' : List MicroService) : Prop :=
  services' = services ∨ ∃ front msid rest rsc₁,
    getLwmObjectFromDict body "mis".toList = .ok (some (.array (front ++ msid :: rest))) ∧
    (front ++ rest).length % 256 = 0 ∧
    loop (paramSetStep pf body) (services, 400) front = .ok ((services', rsc₁), false)

theorem ne_ok_of_failure {rsc : UInt32} (h : 400 ≤ rsc) : rsc ≠ 200 := by
  rintro rfl
  exact absurd h (by decide)

theorem lwmsgOffloarding_failure {rsc : UInt32} (hrsc : 400 ≤ rsc)
    (h : lwmsgOffloarding onoff services msg = .ok (services', rsc)) :
    SwitchLeaves onoff services msg.body services' := by
  unfold lwmsgOffloarding at h
  rw [bind_ok] at h
  obtain ⟨value, hmis, h⟩ := h
  split at h
  · rename_i mis
    split at h
    · rename_i hone
      obtain rfl | ⟨front, msid, rfl⟩ := mis.eq_nil_or_concat'
      · cases hone
      right
      rw [List.foldlM_append, bind_ok] at h
      obtain ⟨⟨services₁, rsc₁⟩, hfront, hlast⟩ := h
      rw [List.foldlM_cons, bind_ok] at hlast
      obtain ⟨_, hlast, ⟨⟩⟩ := hlast
      refine ⟨front, msid, services₁, rsc₁, hmis, ?_, hfront,
        offloardingStep_failure hlast (ne_ok_of_failure hrsc)⟩
      unfold nodeNum at hone
      rw [List.length_append, List.length_singleton] at hone
      omega
    · cases h
      exact .inl rfl
  · cases h
    exact .inl rfl

theorem lwmsgParamSet_failure {rsc : UInt32} (hrsc : 400 ≤ rsc)
    (h : lwmsgParamSet pf services msg = .ok (services', rsc)) :
    SetLeaves pf services msg.body services' := by
  unfold lwmsgParamSet at h
  rw [bind_ok] at h
  obtain ⟨value, hmis, h⟩ := h
  split at h
  · rename_i mis
    split at h
    · rename_i hone
      simp only [bind_ok, pure_ok] at h
      obtain ⟨⟨s, stop⟩, hloop, rfl⟩ := h
      have hne : mis ≠ [] := by
        rintro rfl
        cases hone
      obtain ⟨front, msid, rest, ⟨services₁, rsc₁⟩, rfl, hfront, hlast⟩ := loop_last hloop hne
      cases paramSetStep_failure hlast (ne_ok_of_failure hrsc)
      refine .inr ⟨front, msid, rest, rsc₁, hmis, ?_, hfront⟩
      unfold nodeNum at hone
      rw [List.length_append, List.length_cons] at hone
      rw [List.length_append]
      omega
    · cases h
      exact .inl rfl
  · cases h
    exact .inl rfl

/-- What a request that fails leaves behind. -/
theorem failure_keeps_processed (pf : Platform) (onoff : Bool) (services services' : List MicroService)
    (msg : LWMessage) (rsc : UInt32) (hrsc : 400 ≤ rsc) :
    (lwmsgOffloarding onoff services msg = .ok (services', rsc) →
      SwitchLeaves onoff services msg.body services') ∧
    (lwmsgParamSet pf services msg = .ok (services', rsc) →
      SetLeaves pf services msg.body services') :=
  ⟨lwmsgOffloarding_failure hrsc, lwmsgParamSet_failure hrsc⟩

structure TaskData where
  state : StateType
  initialState : StateType
  taskT : Option Handle
  inputQueues : List (Option Handle)
  outputPorts : List (Option ConnectLine)
  params : List (List Parameter)
  deriving DecidableEq

def taskData (ti : TaskInfo) : TaskData where
  state := ti.state
  initialState := ti.initialState
  taskT := ti.taskT
  inputQueues := ti.inputQueues
  outputPorts := ti.outputPorts
  params := [ti.userParams, ti.staticParams, ti.flexibleParams]

def SameTaskData (services services' : List MicroService) : Prop :=
  services'.map (fun ms => ms.tasks.nodes.map taskData) =
    services.map fun ms => ms.tasks.nodes.map taskData

instance (services services' : List MicroService) : Decidable (SameTaskData services services') :=
  inferInstanceAs (Decidable (_ = _))

def sampleLog : MicroService :=
  makeMicroService "101".toList [.addNewTask (sampleTask "log".toList true)]

def sampleTaskOff : LWMessage where
  header := [(some "dri".toList, .string (some "1".toList)), (some "if".toList, .string (some "24".toList))]
  body := [(some "tis".toList, .array [.string (some "0".toList), .string (some "7".toList)]),
    (some "mis".toList, .array [.string (some "101".toList)])]

theorem switching_not_atomic :
    ¬ ∀ services₀ run services, ServicesRun services₀ run services → Registered services₀ →
      ∀ pf onoff services' msg rsc, 400 ≤ rsc →
        (lwmsgOffloarding onoff services msg = .ok (services', rsc) → SameTaskData services services') ∧
        (lwmsgParamSet pf services msg = .ok (services', rsc) → SameTaskData services services') := by
  intro h
  have hrun := run_trace servicesStep [sampleLog] [.service 0 .create]
  have h₀ : Registered [sampleLog] := by
    intro ms hms
    exact ⟨_, _, List.mem_singleton.mp hms⟩
  have hsame := (h _ _ _ hrun h₀ samplePlatform false _ sampleTaskOff 404 (by decide)).1 rfl
  exact absurd hsame (by decide)

theorem failure_keeps_processed_sample :
    (∃ services', SwitchLeaves false ([.service 0 .create].foldl servicesStep [sampleLog])
      sampleTaskOff.body services') ∧
    ∃ services', SetLeaves samplePlatform ([.service 0 .create].foldl servicesStep [sampleLog])
      sampleTaskOff.body services' :=
  ⟨⟨_, (failure_keeps_processed samplePlatform false _ _ sampleTaskOff 404 (by decide)).1 rfl⟩,
    ⟨_, (failure_keeps_processed samplePlatform false _ _ sampleTaskOff 400 (by decide)).2 rfl⟩⟩

end IoTware.Dist
