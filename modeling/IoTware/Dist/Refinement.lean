import Mathlib.Logic.Relation
import IoTware.Dist.Gate

/-!
# Requests are operations

What a handler does to the microservices are operations of their lives, on those that
the request names. So whatever holds in every life holds however requests arrive.
-/

namespace IoTware.Dist

open CText LwMsg Micro Loops Runs Relation

def Evolves : MicroService → MicroService → Prop :=
  ReflTransGen fun ms ms' => ∃ e, ms' = lifecycleStep ms e

inductive Serve (mis : List LWMObject) (services : List MicroService) : List MicroService → Prop
  | named (hmsid : msid ∈ mis)
      (hinfo : getMicroServiceInfoById services msid.stringValue = some (ms, i))
      (h : Evolves ms ms') : Serve mis services (services.set i ms')

def Served (mis : List LWMObject) : List MicroService → List MicroService → Prop :=
  ReflTransGen (Serve mis)

theorem Evolves.one (ms : MicroService) (e : LifecycleEvent) : Evolves ms (lifecycleStep ms e) :=
  .single ⟨e, rfl⟩

theorem Evolves.refl (ms : MicroService) : Evolves ms ms := ReflTransGen.refl

theorem Evolves.trans (h : Evolves ms ms') (h' : Evolves ms' ms'') : Evolves ms ms'' :=
  ReflTransGen.trans h h'

theorem Served.refl (mis : List LWMObject) (services : List MicroService) :
    Served mis services services := ReflTransGen.refl

theorem Served.named {mis : List LWMObject} (h : Served mis services₀ services) (hmsid : msid ∈ mis)
    (hinfo : getMicroServiceInfoById services msid.stringValue = some (ms, i))
    (hms : Evolves ms ms') : Served mis services₀ (services.set i ms') :=
  h.tail (.named hmsid hinfo hms)

-- ---------------------------------------------------------------------------
-- The handlers
-- ---------------------------------------------------------------------------

def namedServices (msg : LWMessage) : List LWMObject := arrayItems (lookup msg.body "mis".toList)

theorem operation_evolves (h : operation inits interfaceId ms = .ok (ms', ok)) :
    Evolves ms ms' := by
  have hdone : ∀ {p : MicroService × Bool} {e}, lifecycleStep ms e = p.1 →
      (.ok p : Except Fault _) = .ok (ms', ok) → Evolves ms ms' := by
    rintro _ e hstep ⟨⟩
    have hone := Evolves.one ms e
    rwa [hstep] at hone
  cases interfaceId with
  | msCreation => exact hdone (e := .create) rfl (congrArg _ (Pointers.createMicroService_ok h).symm)
  | msRun =>
    have hrun : runMicroService inits ms = .ok (ms', ok) := Pointers.runMicroService_ok h
    exact hdone (e := .run inits) (by simp [lifecycleStep, hrun]) rfl
  | msStop => exact hdone (e := .stopMs) rfl (congrArg _ (Pointers.stopMicroService_ok h).symm)
  | msDelete => exact hdone (e := .del) rfl h
  | _ => cases h

theorem lwmsgOperation_served (h : lwmsgOperation inits interfaceId services msg = .ok s') :
    Served (namedServices msg) services s'.1 := by
  unfold lwmsgOperation at h
  rw [bind_ok] at h
  obtain ⟨value, hmis, h⟩ := h
  unfold namedServices
  rw [lookup_of_ok hmis]
  split at h
  · refine foldlM_invariant_mem (I := fun s => Served _ services s.1) ?_ (.refl _ _) h
    intro s msid hmsid s₁ hs hstep
    unfold operationStep at hstep
    split at hstep
    · cases hstep
      exact hs
    · rename_i hinfo
      simp only [bind_ok, pure_ok] at hstep
      obtain ⟨⟨ms', ok⟩, hop, rfl⟩ := hstep
      exact hs.named hmsid hinfo (operation_evolves hop)
  · cases h
    exact .refl _ _

theorem paramSetTask_evolves {s' : MicroService × Bool × UInt32}
    (h : paramSetTask pf body s obj = .ok (s', stop)) : Evolves s.1 s'.1 := by
  unfold paramSetTask at h
  rw [bind_ok] at h
  obtain ⟨value, -, h⟩ := h
  cases value with
  | none =>
    cases h
    exact .refl _
  | some fp =>
    simp only [bind_ok, pure_ok] at h
    obtain ⟨index, -, entries, -, ⟨params, found⟩, -, heq⟩ := h
    cases heq
    dsimp only
    split
    · rename_i ti params _
      exact .one s.1 (.paramSet ti.id params)
    · exact .refl _

theorem lwmsgParamSet_served (h : lwmsgParamSet pf services msg = .ok s') :
    Served (namedServices msg) services s'.1 := by
  unfold lwmsgParamSet at h
  rw [bind_ok] at h
  obtain ⟨value, hmis, h⟩ := h
  unfold namedServices
  rw [lookup_of_ok hmis]
  split at h
  swap
  · cases h
    exact .refl _ _
  split at h
  swap
  · cases h
    exact .refl _ _
  simp only [bind_ok, pure_ok] at h
  obtain ⟨⟨s₁, stop⟩, hloop, rfl⟩ := h
  refine loop_invariant_mem (I := fun s => Served _ services s.1) ?_ (.refl _ _) hloop
  intro s msid hmsid s₂ stop hs hstep
  unfold paramSetStep at hstep
  split at hstep
  · cases hstep
    exact hs
  rename_i ms i hinfo
  rw [bind_ok] at hstep
  obtain ⟨tis, -, hstep⟩ := hstep
  split at hstep
  · simp only [bind_ok, pure_ok] at hstep
    obtain ⟨⟨⟨ms', _, rsc⟩, returned⟩, htasks, heq⟩ := hstep
    cases heq
    refine hs.named hmsid hinfo ?_
    exact loop_invariant_mem (I := fun s => Evolves ms s.1)
      (fun _ _ _ _ _ hs h => hs.trans (paramSetTask_evolves h)) (.refl ms) htasks
  · cases hstep
    exact hs

theorem offloardingTask_evolves {s' : MicroService × UInt32}
    (h : offloardingTask onoff s obj = .ok (s', stop)) : Evolves s.1 s'.1 := by
  obtain ⟨index, -, ⟨-, rfl, -⟩ | ⟨ti, -, hms, -, -⟩⟩ := offloardingTask_inv h
  · exact .refl _
  · rw [hms]
    exact Evolves.one s.1 (.onoff ti.id onoff)

theorem lwmsgOffloarding_served (h : lwmsgOffloarding onoff services msg = .ok s') :
    Served (namedServices msg) services s'.1 := by
  unfold lwmsgOffloarding at h
  rw [bind_ok] at h
  obtain ⟨value, hmis, h⟩ := h
  unfold namedServices
  rw [lookup_of_ok hmis]
  split at h
  swap
  · cases h
    exact .refl _ _
  split at h
  swap
  · cases h
    exact .refl _ _
  refine foldlM_invariant_mem (I := fun s => Served _ services s.1) ?_ (.refl _ _) h
  intro s msid hmsid s₁ hs hstep
  unfold offloardingStep at hstep
  rw [bind_ok] at hstep
  obtain ⟨tis, -, hstep⟩ := hstep
  split at hstep
  · rename_i ms i tis hinfo
    simp only [bind_ok, pure_ok] at hstep
    obtain ⟨⟨⟨ms', rsc⟩, stopped⟩, htasks, rfl⟩ := hstep
    refine hs.named hmsid hinfo ?_
    exact loop_invariant_mem (I := fun s => Evolves ms s.1)
      (fun _ _ _ _ _ hs h => hs.trans (offloardingTask_evolves h)) (.refl ms) htasks
  · cases hstep
    exact hs

theorem lwmsgOutputParamRead_served (h : lwmsgOutputParamRead pf dri d msg = .ok s') :
    Served (namedServices msg) d.services s'.1.services := by
  unfold lwmsgOutputParamRead at h
  rw [bind_ok] at h
  obtain ⟨value, hmis, h⟩ := h
  unfold namedServices
  rw [lookup_of_ok hmis]
  split at h
  swap
  · cases h
    exact .refl _ _
  refine foldlM_invariant_mem (I := fun s => Served _ d.services s.1.services) ?_ (.refl _ _) h
  intro s msid hmsid s₁ hs hstep
  obtain ⟨-, rfl⟩ | ⟨ms, i, hinfo, ⟨-, rfl⟩ | ⟨-, text, d', -, rfl, ⟨-, hd'⟩ | ⟨-, hd'⟩⟩⟩ :=
    outputReadStep_cases hstep
  · exact hs
  · exact hs
  · rw [answerOutput_services hd']
    exact hs
  · rw [answerOutput_services hd']
    exact hs.named hmsid hinfo (.one ms (.outputRead text))

theorem lwmsgParamRead_services (h : lwmsgParamRead pf isAll dri d msg = .ok s') :
    s'.1.services = d.services := by
  unfold lwmsgParamRead at h
  rw [bind_ok] at h
  obtain ⟨_, -, h⟩ := h
  split at h
  · split at h
    · simp only [bind_ok, pure_ok] at h
      obtain ⟨⟨s, stop⟩, hloop, rfl⟩ := h
      exact loop_invariant_mem (I := fun s => s.1.services = d.services)
        (fun _ _ _ _ _ hs h => (paramReadStep_keeps h).1.trans hs) rfl hloop
    · cases h
      rfl
  · cases h
    rfl

def interfaceOf (msg : LWMessage) : LwmIf :=
  .ofInt (((lookup msg.header "if".toList).bind LWMObject.stringValue).elim 0 atol)

/-- A request serves the microservices it names, and a request for the device information
reports all of them. -/
theorem handleRequest_served (h : handleRequest pf inits interfaceId dri d msg = .ok s') :
    Served (namedServices msg) d.services s'.1.services ∨
      interfaceId = .devTaskInfoRequest ∧ s'.1.services = d.services.map reported := by
  unfold handleRequest at h
  cases interfaceId with
  | devTaskInfoRequest =>
    simp only [bind_ok, pure_ok] at h
    obtain ⟨⟨services, res⟩, hreport, rfl⟩ := h
    exact .inr ⟨rfl, makeDeviceInformationLwmsg2_services (Pointers.makeDeviceInformationLwmsg2_ok hreport)⟩
  | msCreation | msRun | msStop | msDelete =>
    simp only [bind_ok, pure_ok] at h
    obtain ⟨s, hs, rfl⟩ := h
    exact .inl (lwmsgOperation_served hs)
  | taskParamSet =>
    simp only [bind_ok, pure_ok] at h
    obtain ⟨s, hs, rfl⟩ := h
    exact .inl (lwmsgParamSet_served hs)
  | taskOn | taskOff =>
    simp only [bind_ok, pure_ok] at h
    obtain ⟨s, hs, rfl⟩ := h
    exact .inl (lwmsgOffloarding_served hs)
  | taskParamRead | taskParamReadAll =>
    rw [lwmsgParamRead_services h]
    exact .inl (.refl _ _)
  | msOutputParamRead => exact .inl (lwmsgOutputParamRead_served h)
  | other =>
    cases h
    exact .inl (.refl _ _)

theorem finishRequest_services (h : finishRequest dri s = .ok d') : d'.services = s.1.services := by
  unfold finishRequest at h
  split at h
  · cases h
    rfl
  split at h
  · cases h
    rfl
  · simp only [bind_ok, pure_ok] at h
    obtain ⟨_, -, rfl⟩ := h
    rfl

theorem distRequest_served (h : distRequest pf inits d msg = .ok (dri, s)) :
    Served (namedServices msg) d.services s.1.services ∨
      interfaceOf msg = .devTaskInfoRequest ∧ s.1.services = d.services.map reported := by
  unfold distRequest at h
  split at h
  swap
  · cases h
    exact .inl (.refl _ _)
  simp only [bind_ok] at h
  obtain ⟨cif, hif, cdri, -, _, -, h⟩ := h
  split at h
  · rename_i cif cdri
    simp only [bind_ok, pure_ok] at h
    obtain ⟨interfaceId, hinterface, s, hhandle, heq⟩ := h
    cases heq
    refine (handleRequest_served hhandle).imp_right (And.imp_left fun hinfo => ?_)
    unfold interfaceOf
    rw [lookup_of_ok hif, ← hinfo]
    cases htext : cif.stringValue with
    | none =>
      rw [htext] at hinterface
      cases hinterface
    | some text =>
      rw [htext] at hinterface
      cases hinterface
      simp [htext]
  · cases h
    exact .inl (.refl _ _)

-- ---------------------------------------------------------------------------
-- Runs of the device
-- ---------------------------------------------------------------------------

abbrev Lives : List MicroService → List MicroService → Prop :=
  Reaches fun services e services' => services' = servicesStep services e

theorem Lives.report (h : Lives services₀ services) (hreport : services' = services.map reported) :
    Lives services₀ services' := by
  have hstep : services' = servicesStep services .report := hreport
  exact h.next hstep

theorem Evolves.lives (h : Evolves ms ms') (hlives : Lives services₀ services)
    (hget : services[i]? = some ms) : Lives services₀ (services.set i ms') := by
  induction h with
  | refl =>
    rw [set_getElem?_self hget]
    exact hlives
  | @tail ms₁ ms₂ _ hstep ih =>
    obtain ⟨e, rfl⟩ := hstep
    refine ih.next (e := .service i e) ?_
    simp only [servicesStep, List.set_eq_modify, List.modify_modify_eq]
    rfl

theorem Served.lives {mis : List LWMObject} (h : Served mis services services')
    (hlives : Lives services₀ services) : Lives services₀ services' := by
  induction h with
  | refl => exact hlives
  | tail _ hserve ih =>
    obtain ⟨-, hinfo, hms⟩ := hserve
    exact hms.lives ih (getMicroServiceInfoById_some hinfo)

/-- What the tasks of the microservices do is an operation of one of them. -/
def TasksOperate : System × Event → Prop
  | (s, .run services) => ∃ i e, services = servicesStep s.services (.service i e)
  | _ => True

theorem Step.lives (hs : Step s e s') (htasks : TasksOperate (s, e))
    (h : Lives services₀ s.services) : Lives services₀ s'.services := by
  cases hs with
  | distHandle _ hhandle hfinish =>
    dsimp only
    rw [finishRequest_services hfinish]
    rcases distRequest_served hhandle with hserved | ⟨-, heq⟩
    · exact hserved.lives h
    · exact h.report heq
  | txRead _ _ heffect =>
    unfold txEffect at heffect
    split at heffect
    · simp only [bind_ok, pure_ok] at heffect
      obtain ⟨⟨services, info⟩, hinfo, rfl⟩ := heffect
      exact h.report (makeDeviceInformationLwmsg_services hinfo)
    · cases heffect
      exact h
    · cases heffect
      exact h
  | run =>
    obtain ⟨i, e, rfl⟩ := htasks
    exact h.next (e := .service i e) rfl
  | _ => exact h

/-- However the message tasks are interleaved and whatever arrives, the microservices are
always in a state that the operations of their lives lead to. -/
theorem system_refines_lifecycle (hrun : Run Step s₀ run s) (htasks : ∀ x ∈ run, TasksOperate x) :
    ∃ lives, ServicesRun s₀.services lives s.services := by
  induction hrun with
  | start => exact ⟨[], .start⟩
  | step _ hs ih =>
    have hlives : Lives s₀.services _ := ih fun x hx => htasks x (List.mem_append_left _ hx)
    exact hs.lives (htasks _ (List.mem_append_right _ List.mem_cons_self)) hlives

def sampleCreate : LWMessage where
  header := [(some "dri".toList, .string (some "9".toList)), (some "if".toList, .string (some "10".toList))]
  body := [(some "mis".toList, .array [.string (some "101".toList)])]

theorem system_refines_lifecycle_create :
    ∃ (s : System) (lives : _), s.services.map MicroService.state = [.created] ∧
      ServicesRun [sampleSensor] lives s.services := by
  let s₀ : System := { powerUp [sampleSensor] with receiveQueue := [⟨0, sampleCreate⟩] }
  have hrun : Run Step s₀ _ _ := (Run.start.step (.distReceive rfl rfl)).step
    (e := .distHandle samplePlatform fun _ => initAll false) (.distHandle rfl rfl rfl)
  obtain ⟨lives, hlives⟩ := system_refines_lifecycle hrun (by simp [TasksOperate])
  exact ⟨_, lives, rfl, hlives⟩

-- ---------------------------------------------------------------------------
-- Isolation
-- ---------------------------------------------------------------------------

theorem lifecycleStep_msId (ms : MicroService) (e : LifecycleEvent) :
    (lifecycleStep ms e).msId = ms.msId := by
  cases e with
  | create =>
    obtain ⟨-, heq⟩ | heq := lifecycleStep_create ms <;> rw [heq]
    exact runCreate_msId ms
  | run inits =>
    unfold lifecycleStep
    dsimp only
    split
    · rename_i hrun
      exact runMicroService_msId hrun
    · rfl
  | stopMs => exact (runCreate_msId _).trans (delMicroService_msId ms)
  | stopTask => exact stopTask_frame MicroService.msId (fun _ _ => rfl) ms
  | del => exact delMicroService_msId ms
  | onoff id onoff => exact taskOnoff_msId ms id onoff
  | taskState | outputValue | paramSet | outputRead => rfl

theorem Evolves.msId (h : Evolves ms ms') : ms'.msId = ms.msId := by
  induction h with
  | refl => rfl
  | tail _ hstep ih =>
    obtain ⟨e, rfl⟩ := hstep
    exact (lifecycleStep_msId _ e).trans ih

def NamesOther (services : List MicroService) (j : Nat) (msid : LWMObject) : Prop :=
  (getMicroServiceInfoById services msid.stringValue).map Prod.snd ≠ some j

def Spares (j : Nat) (services services' : List MicroService) : Prop :=
  SameView (fun _ => ()) services services' ∧ services'[j]? = services[j]?

theorem Spares.namesOther (h : Spares j services services') (hother : NamesOther services j msid) :
    NamesOther services' j msid := by
  intro hsome
  obtain ⟨⟨ms, i⟩, hinfo, rfl⟩ := Option.map_eq_some_iff.mp hsome
  obtain ⟨ms', hinfo', -⟩ := h.1.found hinfo
  exact hother (Option.map_eq_some_iff.mpr ⟨_, hinfo', rfl⟩)

theorem Served.spares {mis : List LWMObject} (h : Served mis services services')
    (hother : ∀ msid ∈ mis, NamesOther services j msid) : Spares j services services' := by
  induction h with
  | refl => exact ⟨.refl _ _, rfl⟩
  | tail _ hserve ih =>
    obtain ⟨hmsid, hinfo, hms⟩ := hserve
    rename_i msid ms i ms'
    have hne : i ≠ j := by
      rintro rfl
      exact ih.namesOther (hother msid hmsid) (Option.map_eq_some_iff.mpr ⟨_, hinfo, rfl⟩)
    refine ⟨ih.1.set (getMicroServiceInfoById_some hinfo) hms.msId rfl, ?_⟩
    rw [List.getElem?_set_ne hne]
    exact ih.2

/-- A microservice that none of the requests finds by an id is as it was behind them, in
its state, its tasks and their kernel tasks and queues; and no request changes an id. -/
theorem requests_isolated {msgs : List LWMessage} {d d' : Device}
    (h : msgs.foldlM (lwmsgDist pf inits) d = .ok d')
    (hinfo : ∀ msg ∈ msgs, interfaceOf msg ≠ .devTaskInfoRequest)
    (hother : ∀ msg ∈ msgs, ∀ msid ∈ namedServices msg, NamesOther d.services j msid) :
    d'.services.map MicroService.msId = d.services.map MicroService.msId ∧
      d'.services[j]? = d.services[j]? := by
  have hspares : Spares j d.services d'.services := by
    refine foldlM_invariant_mem (I := fun d' => Spares j d.services d'.services) ?_
      ⟨.refl _ _, rfl⟩ h
    intro d₁ msg hmsg d₂ hspares hstep
    rw [lwmsgDist_eq, bind_ok] at hstep
    obtain ⟨⟨dri, s⟩, hhandle, hfinish⟩ := hstep
    rcases distRequest_served hhandle with hserved | ⟨hreport, -⟩
    · have hserved := hserved.spares fun msid hmsid =>
        hspares.namesOther (hother msg hmsg msid hmsid)
      rw [finishRequest_services hfinish]
      exact ⟨hserved.1.trans hspares.1, hserved.2.trans hspares.2⟩
    · exact absurd hreport (hinfo msg hmsg)
  refine ⟨?_, hspares.2⟩
  simpa [Function.comp_def] using congrArg (List.map Prod.fst) hspares.1

theorem requests_isolated_second :
    let second := makeMicroService "102".toList [.addNewTask (sampleTask "sensor".toList false)]
    ∃ d', [sampleCreate].foldlM (lwmsgDist samplePlatform fun _ => initAll false)
        ⟨[sampleSensor, second], []⟩ = .ok d' ∧
      d'.services[0]?.map MicroService.state = some .created ∧ d'.services[1]? = some second := by
  intro second
  obtain ⟨d', hd', hstate⟩ : ∃ d', [sampleCreate].foldlM
      (lwmsgDist samplePlatform fun _ => initAll false) ⟨[sampleSensor, second], []⟩ = .ok d' ∧
      d'.services[0]?.map MicroService.state = some .created := ⟨_, rfl, rfl⟩
  refine ⟨d', hd', hstate, (requests_isolated (j := 1) hd' ?_ ?_).2⟩
  · simp only [List.forall_mem_singleton]
    decide
  · simp only [List.forall_mem_singleton]
    intro msid hmsid
    obtain rfl := List.mem_singleton.mp hmsid
    exact fun h => by cases h

end IoTware.Dist
