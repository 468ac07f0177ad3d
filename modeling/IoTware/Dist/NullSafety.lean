import IoTware.Dist.OperationSafety
import IoTware.Dist.ParamSafety
import IoTware.LwMsg.Complete
import IoTware.Micro.Queues

/-!
# The requests that meet no fault

The handlers check the shape of a request in places only. For each handler its
condition says what the rest must be like: it follows the handler's loops, over
the microservices as they are before the request.
-/

namespace IoTware.Dist

open CText LwMsg Micro Runs Loops

-- ---------------------------------------------------------------------------
-- Reading outputs
-- ---------------------------------------------------------------------------

/-- A running microservice that is asked for its output needs the `dri`. -/
def OutputReadSafe (dri : Option Text) (services : List MicroService) (body : LWMDictionary) : Prop :=
  Finds body "mis".toList fun mis => WhenArray mis fun mis => ∀ msid ∈ mis, ∀ ms,
    serviceOf services msid = some ms → ms.state = .running → dri ≠ none

theorem succeeds_answerOutput (pf : Platform) (dri : Option Text) (d : Device) (param : OutputParam) :
    Succeeds (answerOutput pf dri d param) := by
  unfold answerOutput
  cases param.value with
  | none => exact succeeds_ok d
  | some value =>
    obtain ⟨opDict, hset, -⟩ := setLwmObject_ok keysNonNull_nil param.name
      (newLwmObjectFromTypeValue pf param.type value)
    obtain ⟨res, hres⟩ := newLwmRespMessage_total dri 200
    have hn : KeysNonNull res.body := newLwmRespMessage_body hres ▸ keysNonNull_nil
    obtain ⟨res₁, h₁, -⟩ := setLwmBodyObject_ok hn "op".toList (some (.dictionary opDict))
    dsimp only
    rw [succeeds_bind_ok hset, succeeds_bind_ok hres, succeeds_bind_ok h₁]
    exact succeeds_pure _

theorem answerOutput_services (h : answerOutput pf dri d param = .ok d') : d'.services = d.services := by
  unfold answerOutput at h
  split at h
  · cases h
    rfl
  · simp only [bind_ok, pure_ok] at h
    obtain ⟨_, -, _, -, _, -, rfl⟩ := h
    rfl

theorem forwardOutputRead_some (hqueues : LwmsgQueues ms) (text : Text) :
    forwardOutputRead ms (some text) = .ok (sendOutputRead ms text) := by
  unfold forwardOutputRead
  refine if_neg ?_
  rw [List.any_eq_true]
  rintro ⟨ti, hti, hmissing⟩
  obtain ⟨hport, hnone⟩ := of_decide_eq_true hmissing
  exact hqueues ti hti hport hnone

theorem forwardOutputRead_none (ms : MicroService) : ¬ Succeeds (forwardOutputRead ms none) := by
  unfold forwardOutputRead
  split <;> exact not_succeeds_error _

def queuesView (ms : MicroService) : TaskList × StateType := (ms.tasks, ms.state)

theorem succeeds_outputReadStep (pf : Platform) (dri : Option Text)
    (hqueues : ∀ ms ∈ services, LwmsgQueues ms)
    (hview : SameView queuesView services s.1.services) (msid : LWMObject) :
    Succeeds (outputReadStep pf dri s msid) ↔
      ∀ ms, serviceOf services msid = some ms → ms.state = .running → dri ≠ none := by
  unfold outputReadStep serviceOf
  cases hinfo : getMicroServiceInfoById s.1.services msid.stringValue with
  | none =>
    refine iff_of_true (succeeds_ok _) ?_
    rw [hview.notFound hinfo]
    rintro _ ⟨⟩
  | some p =>
    obtain ⟨ms', i⟩ := p
    obtain ⟨ms, hms, hview⟩ := hview.found hinfo
    obtain ⟨htasks, hstate⟩ := Prod.mk.inj hview
    have hq : LwmsgQueues ms' := by
      unfold LwmsgQueues
      rw [htasks]
      exact hqueues ms (List.mem_of_getElem? (getMicroServiceInfoById_some hms))
    rw [hms]
    simp only [Option.map_some, Option.some.injEq, forall_eq', ← hstate]
    by_cases hrunning : ms'.state = .running
    · refine Iff.trans ?_ (forall_prop_of_true hrunning).symm
      rw [if_pos hrunning]
      cases dri with
      | none =>
        refine iff_of_false ?_ fun h => h rfl
        split
        · exact not_succeeds_error _
        · rw [succeeds_bind]
          rintro ⟨ms'', hforward, -⟩
          exact forwardOutputRead_none ms' ⟨ms'', hforward⟩
      | some text =>
        refine iff_of_true ?_ (Option.some_ne_none text)
        split
        · dsimp only
          split
          · obtain ⟨d, hd⟩ := succeeds_answerOutput pf (some text) s.1 ms'.outputParam
            rw [succeeds_bind_ok hd]
            exact succeeds_pure _
          · exact succeeds_pure _
        · rw [succeeds_bind_ok (forwardOutputRead_some hq text)]
          obtain ⟨d, hd⟩ := succeeds_answerOutput pf (some text)
            { s.1 with services := s.1.services.set i (sendOutputRead ms' text) }
            (sendOutputRead ms' text).outputParam
          rw [succeeds_bind_ok hd]
          exact succeeds_pure _
    · rw [if_neg hrunning]
      exact iff_of_true (succeeds_ok _) fun h => absurd h hrunning

theorem forwardOutputRead_ok (h : forwardOutputRead ms dri = .ok ms') :
    ∃ text, dri = some text ∧ ms' = sendOutputRead ms text := by
  unfold forwardOutputRead at h
  split at h
  · cases h
  split at h
  · cases h
  · cases h
    exact ⟨_, rfl, rfl⟩

/-- What the step does: nothing, or it answers with the output, and if no task is
running it forwards the request first. -/
theorem outputReadStep_cases (h : outputReadStep pf dri s msid = .ok s') :
    (getMicroServiceInfoById s.1.services msid.stringValue = none ∧ s' = (s.1, 404)) ∨
    ∃ ms i, getMicroServiceInfoById s.1.services msid.stringValue = some (ms, i) ∧
      ((ms.state = .running → isTasksRunning ms = true ∧ dri ≠ some ms.latestDri) ∧ s' = (s.1, 400) ∨
        ms.state = .running ∧ ∃ text d', dri = some text ∧ s' = (d', 300) ∧
          (ms.latestDri = text ∧ answerOutput pf dri s.1 ms.outputParam = .ok d' ∨
            isTasksRunning ms = false ∧ answerOutput pf dri
              { s.1 with services := s.1.services.set i (sendOutputRead ms text) } ms.outputParam =
                .ok d')) := by
  unfold outputReadStep at h
  split at h
  · rename_i hinfo
    cases h
    exact .inl ⟨hinfo, rfl⟩
  rename_i ms i hinfo
  refine .inr ⟨ms, i, hinfo, ?_⟩
  split at h
  · rename_i hrunning
    split at h
    · rename_i htasks
      split at h
      · cases h
      rename_i text
      split at h
      · rename_i hlatest
        simp only [bind_ok, pure_ok] at h
        obtain ⟨d', hd', rfl⟩ := h
        exact .inr ⟨hrunning, text, d', rfl, rfl, .inl ⟨hlatest, hd'⟩⟩
      · rename_i hlatest
        cases h
        refine .inl ⟨fun _ => ⟨htasks, ?_⟩, rfl⟩
        rintro ⟨⟩
        exact hlatest rfl
    · rename_i htasks
      simp only [bind_ok, pure_ok] at h
      obtain ⟨ms', hforward, d', hd', rfl⟩ := h
      obtain ⟨text, rfl, rfl⟩ := forwardOutputRead_ok hforward
      exact .inr ⟨hrunning, text, d', rfl, rfl, .inr ⟨by simpa using htasks, hd'⟩⟩
  · rename_i hrunning
    cases h
    exact .inl ⟨fun h => absurd h hrunning, rfl⟩

theorem outputReadStep_view {view : MicroService → α}
    (hsend : ∀ ms text, isTasksRunning ms = false → view (sendOutputRead ms text) = view ms)
    (h : outputReadStep pf dri s msid = .ok s') : SameView view s.1.services s'.1.services := by
  obtain ⟨-, rfl⟩ | ⟨ms, i, hinfo, ⟨-, rfl⟩ | ⟨-, text, d', -, rfl, ⟨-, hd⟩ | ⟨htasks, hd⟩⟩⟩ :=
    outputReadStep_cases h
  · exact .refl _ _
  · exact .refl _ _
  · rw [answerOutput_services hd]
    exact .refl _ _
  · rw [answerOutput_services hd]
    exact (SameView.refl view _).set (getMicroServiceInfoById_some hinfo) rfl (hsend ms text htasks)

theorem succeeds_lwmsgOutputParamRead (pf : Platform) (dri : Option Text) {d : Device}
    (hqueues : ∀ ms ∈ d.services, LwmsgQueues ms) (msg : LWMessage) :
    Succeeds (lwmsgOutputParamRead pf dri d msg) ↔ OutputReadSafe dri d.services msg.body := by
  refine succeeds_lookup (succeeds_whenArray fun mis => ?_) msg.body _
  refine foldlM_succeeds_iff (I := fun s => SameView queuesView d.services s.1.services) ?_ ?_ mis
    (.refl _ _)
  · exact fun s msid s' hs h => (outputReadStep_view (fun _ _ _ => rfl) h).trans hs
  · exact fun s msid hs => succeeds_outputReadStep pf dri hqueues hs msid

-- ---------------------------------------------------------------------------
-- The dispatcher
-- ---------------------------------------------------------------------------

/-- The callback of no microservice that is not running writes through NULL. -/
def ReportSafe (services : List MicroService) : Prop :=
  ∀ ms ∈ services, ms.state ≠ .running → ms.writesNullTask = false

theorem succeeds_makeDeviceInformationLwmsg2 (pf : Platform) (services : List MicroService)
    (dri : Option Text) :
    Succeeds (Pointers.makeDeviceInformationLwmsg2 pf services dri 200) ↔ ReportSafe services := by
  have hnull : (services.any fun ms => ms.state ≠ .running && ms.writesNullTask) = true ↔
      ¬ ReportSafe services := by
    rw [List.any_eq_true]
    simp [ReportSafe]
  unfold Pointers.makeDeviceInformationLwmsg2
  split
  · rename_i h
    exact iff_of_false (not_succeeds_error _) (hnull.mp h)
  · rename_i h
    obtain ⟨resp, hresp⟩ := newLwmRespMessage_total dri 200
    obtain ⟨services', msg, hreport, -⟩ :=
      makeDeviceInformationLwmsg2_ok pf services hresp (newLwmRespMessage_body hresp)
    exact iff_of_true ⟨_, hreport⟩ (not_not.mp fun hnot => h (hnull.mpr hnot))

def HandlerSafe (pf : Platform) (inits : Nat → Inits) (interfaceId : LwmIf) (dri : Option Text)
    (services : List MicroService) (body : LWMDictionary) : Prop :=
  match interfaceId with
  | .msCreation | .msRun | .msStop | .msDelete => OperationSafe inits interfaceId services body
  | .taskParamSet => ParamSetSafe pf services body
  | .taskParamRead => ParamReadSafe false services body
  | .taskParamReadAll => ParamReadSafe true services body
  | .msOutputParamRead => OutputReadSafe dri services body
  | .taskOn => OffloardingSafe true services body
  | .taskOff => OffloardingSafe false services body
  | .devTaskInfoRequest => ReportSafe services
  | .other => True

/-- The lookups in the header meet no NULL key, and with `if` and `dri` there
`if` is a string and the handler has what it needs. -/
def NullSafe (pf : Platform) (inits : Nat → Inits) (services : List MicroService) (msg : LWMessage) : Prop :=
  nodeNum msg.header > 0 →
    Finds msg.header "if".toList fun cif => Finds msg.header "dri".toList fun cdri =>
      Finds msg.header "rsc".toList fun _ => ∀ valueIf, cif = some valueIf →
        ∀ valueDri, cdri = some valueDri → ∃ text, valueIf.stringValue = some text ∧
          HandlerSafe pf inits (.ofInt (atol text)) valueDri.stringValue services msg.body

theorem succeeds_finishRequest (dri : Option Text) (s : Device × UInt32) :
    Succeeds (finishRequest dri s) := by
  unfold finishRequest
  split
  · exact succeeds_ok _
  · split
    · exact succeeds_ok _
    · rename_i text
      obtain ⟨res, hres⟩ := newLwmRespMessage_total (some text) s.2
      rw [succeeds_bind_ok hres]
      exact succeeds_pure _

theorem succeeds_handleRequest (pf : Platform) (inits : Nat → Inits) (interfaceId : LwmIf)
    (dri : Option Text) {d : Device} (hqueues : ∀ ms ∈ d.services, LwmsgQueues ms) (msg : LWMessage) :
    Succeeds (handleRequest pf inits interfaceId dri d msg) ↔
      HandlerSafe pf inits interfaceId dri d.services msg.body := by
  unfold handleRequest HandlerSafe
  cases interfaceId with
  | devTaskInfoRequest =>
    refine (succeeds_bind_of fun _ _ => succeeds_pure _).trans ?_
    exact succeeds_makeDeviceInformationLwmsg2 pf d.services dri
  | msCreation =>
    refine (succeeds_bind_of fun _ _ => succeeds_pure _).trans ?_
    exact succeeds_lwmsgOperation (.inl rfl) inits d.services msg
  | msRun =>
    refine (succeeds_bind_of fun _ _ => succeeds_pure _).trans ?_
    exact succeeds_lwmsgOperation (.inr (.inl rfl)) inits d.services msg
  | msStop =>
    refine (succeeds_bind_of fun _ _ => succeeds_pure _).trans ?_
    exact succeeds_lwmsgOperation (.inr (.inr (.inl rfl))) inits d.services msg
  | msDelete =>
    refine (succeeds_bind_of fun _ _ => succeeds_pure _).trans ?_
    exact succeeds_lwmsgOperation (.inr (.inr (.inr rfl))) inits d.services msg
  | taskParamSet =>
    refine (succeeds_bind_of fun _ _ => succeeds_pure _).trans ?_
    exact succeeds_lwmsgParamSet pf d.services msg
  | taskParamRead => exact succeeds_lwmsgParamRead pf false dri d msg
  | taskParamReadAll => exact succeeds_lwmsgParamRead pf true dri d msg
  | msOutputParamRead => exact succeeds_lwmsgOutputParamRead pf dri hqueues msg
  | taskOn =>
    refine (succeeds_bind_of fun _ _ => succeeds_pure _).trans ?_
    exact succeeds_lwmsgOffloarding true d.services msg
  | taskOff =>
    refine (succeeds_bind_of fun _ _ => succeeds_pure _).trans ?_
    exact succeeds_lwmsgOffloarding false d.services msg
  | other => exact iff_of_true (succeeds_ok _) trivial

/-- In every state of the microservices a message is handled without a fault
exactly if it has the shape that its handler needs. -/
theorem lwmsgDist_nullSafe_iff (hrun : ServicesRun services₀ run d.services)
    (h₀ : Registered services₀) (pf : Platform) (inits : Nat → Inits) (msg : LWMessage) :
    Succeeds (lwmsgDist pf inits d msg) ↔ NullSafe pf inits d.services msg := by
  have hqueues := services_lwmsgQueues hrun h₀
  unfold lwmsgDist NullSafe
  split
  · rename_i hheader
    refine Iff.trans ?_ (forall_prop_of_true hheader).symm
    refine succeeds_lookup (fun cif => succeeds_lookup (fun cdri => succeeds_lookup (fun _ => ?_)
      _ _) _ _) _ _
    cases cif with
    | none =>
      refine iff_of_true (succeeds_pure _) ?_
      rintro _ ⟨⟩
    | some valueIf =>
      cases cdri with
      | none =>
        refine iff_of_true (succeeds_pure _) ?_
        rintro _ _ _ ⟨⟩
      | some valueDri =>
        simp only [Option.some.injEq, forall_eq']
        cases valueIf.stringValue with
        | none =>
          refine iff_of_false (not_succeeds_error _) ?_
          rintro ⟨_, ⟨⟩, -⟩
        | some text =>
          simp only [Option.some.injEq, exists_eq_left']
          rw [← succeeds_handleRequest pf inits _ _ hqueues]
          refine (succeeds_bind_ok rfl).trans ?_
          exact succeeds_bind_of fun s _ => succeeds_finishRequest _ s
  · rename_i hempty
    exact iff_of_true (succeeds_pure _) fun h => absurd h hempty

def sampleDevice (events : List ServicesEvent) : Device where
  services := events.foldl servicesStep [sampleSensor]
  sendQueue := []

theorem sampleDevice_run (events : List ServicesEvent) :
    ServicesRun [sampleSensor] (trace servicesStep [sampleSensor] events)
      (sampleDevice events).services :=
  run_trace servicesStep [sampleSensor] events

theorem registered_sampleSensor : Registered [sampleSensor] := by
  intro ms hms
  exact ⟨_, _, List.mem_singleton.mp hms⟩

def sampleParamSet : MessageTree where
  header := [("if".toList, .text "21".toList), ("dri".toList, .text "1".toList)]
  body := some [("mis".toList, .array [.text "101".toList]), ("tis".toList, .array [.text "7".toList]),
    ("fp".toList, .dictionary [("a".toList, .text "1".toList)])]

def sampleParamSetMsg : LWMessage where
  header := [(some "dri".toList, .string (some "1".toList)), (some "if".toList, .string (some "21".toList))]
  body := [(some "fp".toList, .dictionary [(some "a".toList, .string (some "1".toList))]),
    (some "tis".toList, .array [.string (some "7".toList)]),
    (some "mis".toList, .array [.string (some "101".toList)])]

/-- A request to set a parameter of a task that there is not. -/
theorem param_set_unknown_task :
    ¬ ∀ services₀ run (d : Device), ServicesRun services₀ run d.services → Registered services₀ →
      ∀ pf inits text msg, parseLwmMessageStr (terminated text) = .ok (some msg) →
        lwmsgDist pf inits d msg ≠ .error .nullPointer := by
  intro h
  have hparse : parseLwmMessageStr (terminated sampleParamSet.render) = .ok (some sampleParamSetMsg) := by
    refine MessageTree.NestsLast.parse_render ?_ ?_
    · simp [MessageTree.NestsLast, entriesNestLast, Tree.NestsLast, itemsNestLast, sampleParamSet,
        Tree.isDictionary]
    · simp [MessageTree.WellFormed, Tree.WellFormed, entriesWellFormed, itemsWellFormed, sampleParamSet]
      decide
  have hdist : lwmsgDist samplePlatform (fun _ => initAll false) (sampleDevice []) sampleParamSetMsg =
      .error .nullPointer := rfl
  exact h _ _ _ (sampleDevice_run []) registered_sampleSensor _ _ _ _ hparse hdist

theorem param_read_null_safe :
    Succeeds (lwmsgDist samplePlatform (fun _ => initAll false)
      (sampleDevice [.service 0 .create, .service 0 (.run (initAll false))])
      ⟨[(some "dri".toList, .string (some "1".toList)), (some "if".toList, .string (some "22".toList))],
        [(some "fps".toList, .array [.string (some "a".toList)]),
          (some "tis".toList, .array [.string (some "0".toList)]),
          (some "mis".toList, .array [.string (some "101".toList)])]⟩) := by
  refine (lwmsgDist_nullSafe_iff (sampleDevice_run _) registered_sampleSensor _ _ _).mpr fun _ => ?_
  refine ⟨_, rfl, _, rfl, _, rfl, ?_⟩
  rintro _ ⟨⟩ _ ⟨⟩
  refine ⟨_, rfl, _, rfl, ?_⟩
  rintro _ ⟨⟩ - msid hmsid ms hms -
  refine ⟨_, rfl, _, rfl, _, rfl, ?_⟩
  rintro _ ⟨⟩ - - obj hobj
  obtain rfl := List.mem_singleton.mp hmsid
  obtain rfl := List.mem_singleton.mp hobj
  cases hms
  exact ⟨_, rfl, _, _, rfl, rfl, fun _ => by decide⟩

end IoTware.Dist
