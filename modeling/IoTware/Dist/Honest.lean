import Mathlib.Data.List.Induction
import IoTware.Dist.NullSafety

/-!
# The code of an operation

`_lwmsg_operation` has one code for a list of microservices. An element gives it
404 if it names none, 200 if its operation is done, and leaves it if the
operation is refused. What each element gives is told by the microservice as it
is before the request, and by how often it was named before.
-/

namespace IoTware.Dist

open CText LwMsg Micro Runs Loops

inductive Verdict
  | unknown | refused | done
  deriving DecidableEq

/-- The operation returns `TRUE` when it is called after `k` calls of it. -/
def opDone (interfaceId : LwmIf) (inits : Inits) (ms : MicroService) (k : Nat) : Bool :=
  match interfaceId with
  | .msCreation => ms.state = .notReady ∧ k = 0 ∧ callbackFaults .msCreation ms = false
  | .msRun => k + 1 = runsAccepted inits ms
  | .msStop => callbackFaults .msStop ms = false
  | .msDelete => true
  | _ => false

/-- The verdicts on the elements; `seen` counts how often each place was named
before. -/
def verdicts (interfaceId : LwmIf) (inits : Nat → Inits) (services : List MicroService)
    (seen : Nat → Nat) : List LWMObject → List Verdict
  | [] => []
  | msid :: mis =>
    match getMicroServiceInfoById services msid.stringValue with
    | none => .unknown :: verdicts interfaceId inits services seen mis
    | some (ms, i) =>
      (if opDone interfaceId (inits i) ms (seen i) then .done else .refused) ::
        verdicts interfaceId inits services (Function.update seen i (seen i + 1)) mis

def Verdict.code (rsc : UInt32) : Verdict → UInt32
  | .unknown => 404
  | .refused => rsc
  | .done => 200

def LastDone (vs : List Verdict) : Prop := (vs.filter (· ≠ .refused)).getLast? = some .done

instance (vs : List Verdict) : Decidable (LastDone vs) := inferInstanceAs (Decidable (_ = _))

/-- Every element names a microservice, and its operation returns `TRUE`. -/
def AllDone (inits : Nat → Inits) (interfaceId : LwmIf) : List MicroService → List LWMObject → Prop
  | _, [] => True
  | services, msid :: mis => ∃ ms i ms', getMicroServiceInfoById services msid.stringValue = some (ms, i) ∧
      operation (inits i) interfaceId ms = .ok (ms', true) ∧
      AllDone inits interfaceId (services.set i ms') mis

-- ---------------------------------------------------------------------------
-- One operation
-- ---------------------------------------------------------------------------

theorem runMicroService_done (h : Pointers.runMicroService inits ms = .ok (ms', ok)) :
    ok = true ↔ runsAccepted inits ms = 1 := by
  rw [runsAccepted_run h]
  rcases runMicroService_cases (Pointers.runMicroService_ok h) with ⟨-, -, rfl, rfl⟩ | ⟨-, -, rfl, rfl⟩ | ⟨-, rfl, rfl⟩
  · have hrunning : (setOutputConnectLine (startTasks inits ms).1).state = .running :=
      setOutputConnectLine_state _
    unfold runsAccepted
    rw [hrunning]
    exact iff_of_true rfl rfl
  · have hstopped : (stopTask (startTasks inits ms).1).1.state = .stopped := stopTask_of_running rfl
    unfold runsAccepted
    rw [hstopped]
    exact iff_of_false Bool.false_ne_true (by simp)
  · exact iff_of_true rfl rfl

theorem operation_done (hop : IsOperation interfaceId)
    (h : operation inits interfaceId ms = .ok (ms', ok)) :
    ok = opDone interfaceId inits ms 0 ∧
      ∀ k, opDone interfaceId inits ms' k = opDone interfaceId inits ms (k + 1) := by
  have hfaults := fun hrun => callbackFaults_operation hop hrun h
  have hnone := fun hrun => (succeeds_operation hop hrun inits ms).mp ⟨_, h⟩
  obtain rfl | rfl | rfl | rfl := hop
  · have hfaults := hfaults (by decide)
    have hnone := hnone (by decide)
    have h := Pointers.createMicroService_ok h
    unfold createMicroService at h
    unfold opDone
    dsimp only
    rw [hfaults, hnone]
    split at h
    · rename_i hstate
      cases h
      simp [hstate]
    · rename_i hstate
      cases h
      simp [hstate]
  · have hdone := runMicroService_done h
    have hleft := runsAccepted_run h
    unfold opDone
    dsimp only
    constructor
    · rw [Bool.eq_iff_iff, hdone, decide_eq_true_iff]
      exact eq_comm
    · intro k
      rw [hleft, decide_eq_decide]
      exact Nat.succ_inj.symm
  · have hfaults := hfaults (by decide)
    have hnone := hnone (by decide)
    unfold opDone
    dsimp only
    rw [hfaults, hnone]
    cases Pointers.stopMicroService_ok h
    exact ⟨rfl, fun _ => rfl⟩
  · cases h
    exact ⟨rfl, fun _ => rfl⟩

theorem operation_fault (hop : IsOperation interfaceId)
    (h : operation inits interfaceId ms = .error fault) : opDone interfaceId inits ms 0 = false := by
  have hfails : ¬ Succeeds (operation inits interfaceId ms) := by
    rintro ⟨p, hp⟩
    cases hp.symm.trans h
  have hfaults := fun hrun => mt (succeeds_operation hop hrun inits ms).mpr hfails
  obtain rfl | rfl | rfl | rfl := hop
  · simpa [opDone] using fun _ => hfaults (by decide)
  · have hnone : ¬ 0 < runsAccepted inits ms := mt (succeeds_runMicroService inits ms).mpr hfails
    have hzero : runsAccepted inits ms = 0 := Nat.eq_zero_of_not_pos hnone
    unfold opDone
    rw [hzero]
    rfl
  · simpa [opDone] using hfaults (by decide)
  · cases h

-- ---------------------------------------------------------------------------
-- The loop
-- ---------------------------------------------------------------------------

/-- The microservices as the loop has left them: the verdicts are those of the
microservices as they were, `seen` calls on. -/
structure Follows (interfaceId : LwmIf) (inits : Nat → Inits) (services : List MicroService)
    (seen : Nat → Nat) (services' : List MicroService) : Prop where
  ids : SameView (fun _ => ()) services services'
  done : ∀ i ms ms', services[i]? = some ms → services'[i]? = some ms' →
    ∀ k, opDone interfaceId (inits i) ms' k = opDone interfaceId (inits i) ms (seen i + k)

theorem Follows.start (interfaceId : LwmIf) (inits : Nat → Inits) (services : List MicroService) :
    Follows interfaceId inits services (fun _ => 0) services where
  ids := .refl _ services
  done i ms ms' h h' k := by
    cases h.symm.trans h'
    rw [Nat.zero_add]

theorem Follows.call (h : Follows interfaceId inits services seen services')
    (hop : IsOperation interfaceId) (hget : services'[i]? = some ms)
    (hcall : operation (inits i) interfaceId ms = .ok (ms', ok)) :
    Follows interfaceId inits services (Function.update seen i (seen i + 1)) (services'.set i ms') where
  ids := h.ids.set hget (operation_msId hop hcall) rfl
  done := by
    intro j ms₀ ms₁ h₀ h₁ k
    have hlt : i < services'.length := (List.getElem?_eq_some_iff.mp hget).1
    by_cases hij : i = j
    · subst hij
      rw [List.getElem?_set_self hlt] at h₁
      cases h₁
      rw [(operation_done hop hcall).2, h.done i ms₀ ms h₀ hget, Function.update_self, Nat.add_right_comm]
      rfl
    · rw [List.getElem?_set_ne hij] at h₁
      rw [Function.update_of_ne (Ne.symm hij)]
      exact h.done j ms₀ ms₁ h₀ h₁ k

theorem Follows.verdict (h : Follows interfaceId inits services seen services')
    (hinfo : getMicroServiceInfoById services' text = some (ms', i)) :
    ∃ ms, getMicroServiceInfoById services text = some (ms, i) ∧
      opDone interfaceId (inits i) ms' 0 = opDone interfaceId (inits i) ms (seen i) := by
  obtain ⟨ms, hms, -⟩ := h.ids.found hinfo
  refine ⟨ms, hms, ?_⟩
  exact h.done i ms ms' (getMicroServiceInfoById_some hms) (getMicroServiceInfoById_some hinfo) 0

theorem operations_code (hop : IsOperation interfaceId)
    (hfollows : Follows interfaceId inits services seen services')
    (h : mis.foldlM (operationStep inits interfaceId) (services', rsc) = .ok (services'', rsc')) :
    rsc' = (verdicts interfaceId inits services seen mis).foldl Verdict.code rsc := by
  induction mis generalizing seen services' rsc with
  | nil =>
    cases h
    rfl
  | cons msid mis ih =>
    rw [List.foldlM_cons, bind_ok] at h
    obtain ⟨s, hstep, hrest⟩ := h
    unfold operationStep at hstep
    unfold verdicts
    split at hstep
    · rename_i hinfo
      cases hstep
      rw [hfollows.ids.notFound hinfo]
      exact ih hfollows hrest
    · rename_i ms' i hinfo
      obtain ⟨ms, hms, hdone⟩ := hfollows.verdict hinfo
      simp only [bind_ok, pure_ok] at hstep
      obtain ⟨⟨ms'', ok⟩, hcall, rfl⟩ := hstep
      have hok := (operation_done hop hcall).1
      rw [hms]
      refine (ih (hfollows.call hop (getMicroServiceInfoById_some hinfo) hcall) hrest).trans ?_
      dsimp only
      rw [List.foldl_cons, ← hdone, ← hok]
      cases ok <;> rfl

theorem allDone_iff (hop : IsOperation interfaceId)
    (hfollows : Follows interfaceId inits services seen services') (mis : List LWMObject) :
    AllDone inits interfaceId services' mis ↔
      ∀ v ∈ verdicts interfaceId inits services seen mis, v = .done := by
  induction mis generalizing seen services' with
  | nil => exact iff_of_true trivial fun _ hv => absurd hv List.not_mem_nil
  | cons msid mis ih =>
    unfold AllDone verdicts
    cases hinfo : getMicroServiceInfoById services' msid.stringValue with
    | none =>
      rw [hfollows.ids.notFound hinfo]
      refine iff_of_false ?_ fun h => Verdict.noConfusion (h .unknown List.mem_cons_self)
      rintro ⟨_, _, _, ⟨⟩, -⟩
    | some p =>
      obtain ⟨ms', i⟩ := p
      obtain ⟨ms, hms, hdone⟩ := hfollows.verdict hinfo
      rw [hms]
      dsimp only
      rw [List.forall_mem_cons, ← hdone]
      cases hcall : operation (inits i) interfaceId ms' with
      | error fault =>
        rw [operation_fault hop hcall]
        refine iff_of_false ?_ fun h => Verdict.noConfusion h.1
        rintro ⟨_, _, _, ⟨⟩, hok, -⟩
        cases hcall.symm.trans hok
      | ok r =>
        obtain ⟨ms'', ok⟩ := r
        have hok := (operation_done hop hcall).1
        rw [← hok]
        have hrest := ih (hfollows.call hop (getMicroServiceInfoById_some hinfo) hcall)
        cases ok with
        | false =>
          refine iff_of_false ?_ fun h => Verdict.noConfusion h.1
          rintro ⟨_, _, _, ⟨⟩, hok, -⟩
          cases hcall.symm.trans hok
        | true =>
          rw [← hrest]
          constructor
          · rintro ⟨_, _, _, ⟨⟩, hok, hall⟩
            cases hcall.symm.trans hok
            exact ⟨rfl, hall⟩
          · exact fun h => ⟨_, _, _, rfl, hcall, h.2⟩

theorem allDone_succeeds (h : AllDone inits interfaceId services mis) :
    Succeeds (mis.foldlM (operationStep inits interfaceId) (services, rsc)) := by
  induction mis generalizing services rsc with
  | nil => exact succeeds_ok _
  | cons msid mis ih =>
    obtain ⟨ms, i, ms', hinfo, hcall, hrest⟩ := h
    rw [List.foldlM_cons]
    unfold operationStep
    rw [hinfo]
    dsimp only
    rw [hcall]
    exact ih hrest

theorem foldl_code_iff (vs : List Verdict) (hrsc : rsc ≠ 200) :
    vs.foldl Verdict.code rsc = 200 ↔ LastDone vs := by
  unfold LastDone
  induction vs using List.reverseRecOn with
  | nil => exact iff_of_false hrsc (by simp)
  | append_singleton vs v ih =>
    rw [List.foldl_append, List.filter_append, List.foldl_cons, List.foldl_nil]
    cases v with
    | unknown => exact iff_of_false (by decide : (404 : UInt32) ≠ 200) (by simp)
    | refused => simpa [Verdict.code] using ih
    | done => exact iff_of_true rfl (by simp)

theorem lastDone_of_all {vs : List Verdict} (hne : vs ≠ []) (h : ∀ v ∈ vs, v = .done) : LastDone vs := by
  unfold LastDone
  rw [List.filter_eq_self.mpr fun v hv => by rw [h v hv]; rfl, List.getLast?_eq_some_getLast hne,
    h _ (List.getLast_mem hne)]

theorem verdicts_ne_nil (hne : mis ≠ []) : verdicts interfaceId inits services seen mis ≠ [] := by
  cases mis with
  | nil => exact absurd rfl hne
  | cons msid mis =>
    unfold verdicts
    split <;> exact List.cons_ne_nil _ _

-- ---------------------------------------------------------------------------
-- The answer
-- ---------------------------------------------------------------------------

def AnswersSuccess (inits : Nat → Inits) (interfaceId : LwmIf) (services : List MicroService)
    (msg : LWMessage) : Prop :=
  ∃ services', lwmsgOperation inits interfaceId services msg = .ok (services', 200)

/-- The answer is 200 exactly for a request of which all is done, if and only if
all is done, or the last element that is not refused is unknown, or none is; or
the request meets a fault. -/
theorem lwmsgOperation_honest_iff (hop : IsOperation interfaceId)
    (hmis : getLwmObjectFromDict msg.body "mis".toList = .ok (some (.array mis))) (hne : mis ≠ [])
    (inits : Nat → Inits) (services : List MicroService) :
    (AnswersSuccess inits interfaceId services msg ↔ AllDone inits interfaceId services mis) ↔
      (OperationSafe inits interfaceId services msg.body →
        (∀ v ∈ verdicts interfaceId inits services (fun _ => 0) mis, v = .done) ∨
          ¬ LastDone (verdicts interfaceId inits services (fun _ => 0) mis)) := by
  have hstart := Follows.start interfaceId inits services
  have hloop : lwmsgOperation inits interfaceId services msg =
      mis.foldlM (operationStep inits interfaceId) (services, 400) := by
    unfold lwmsgOperation
    rw [hmis]
    rfl
  have hsafe : OperationSafe inits interfaceId services msg.body ↔
      Succeeds (mis.foldlM (operationStep inits interfaceId) (services, 400)) := by
    rw [← hloop, succeeds_lwmsgOperation hop]
  rw [hsafe]
  unfold AnswersSuccess
  rw [hloop]
  by_cases hsucceeds : Succeeds (mis.foldlM (operationStep inits interfaceId) (services, 400))
  · refine Iff.trans ?_ ⟨fun h _ => h, fun h => h hsucceeds⟩
    obtain ⟨⟨services', rsc⟩, hresult⟩ := hsucceeds
    have hcode := operations_code hop hstart hresult
    have hsuccess : (∃ services', mis.foldlM (operationStep inits interfaceId) (services, 400) =
        .ok (services', 200)) ↔ LastDone (verdicts interfaceId inits services (fun _ => 0) mis) := by
      rw [← foldl_code_iff _ (by decide : (400 : UInt32) ≠ 200), ← hcode, hresult]
      constructor
      · rintro ⟨_, ⟨⟩⟩
        rfl
      · rintro rfl
        exact ⟨services', rfl⟩
    have hall : (∀ v ∈ verdicts interfaceId inits services (fun _ => 0) mis, v = .done) →
        LastDone (verdicts interfaceId inits services (fun _ => 0) mis) :=
      lastDone_of_all (verdicts_ne_nil hne)
    rw [hsuccess, allDone_iff hop hstart]
    constructor
    · intro h
      by_cases hlast : LastDone (verdicts interfaceId inits services (fun _ => 0) mis)
      · exact .inl (h.mp hlast)
      · exact .inr hlast
    · rintro (h | h)
      · exact iff_of_true (hall h) h
      · exact iff_of_false h fun h' => h (hall h')
  · refine iff_of_true (iff_of_false ?_ fun h => hsucceeds (allDone_succeeds h)) fun h => absurd h hsucceeds
    rintro ⟨services', h⟩
    exact hsucceeds ⟨_, h⟩

/-- A list of an id that names no microservice and one that is created. -/
def sampleCreation : LWMessage where
  header := []
  body := [(some "mis".toList,
    .array [.string (some "999".toList), .string (some "101".toList)])]

/-- The code of the last element hides that the first is unknown. -/
theorem creation_hides_unknown :
    ¬ ∀ interfaceId (msg : LWMessage) mis, IsOperation interfaceId →
      getLwmObjectFromDict msg.body "mis".toList = .ok (some (.array mis)) → mis ≠ [] →
      ∀ services₀ run services, ServicesRun services₀ run services → Registered services₀ →
        ∀ inits, AnswersSuccess inits interfaceId services msg ↔
          AllDone inits interfaceId services mis := by
  intro h
  have hiff := h .msCreation sampleCreation _ (.inl rfl) rfl (List.cons_ne_nil _ _) _ _ _
    (sampleDevice_run []) registered_sampleSensor (fun _ => initAll false)
  obtain ⟨_, _, _, hinfo, -⟩ := hiff.mp ⟨_, rfl⟩
  cases hinfo

def samplePair : List MicroService :=
  [sampleSensor, makeMicroService "102".toList [.addNewTask (sampleTask "log".toList true)]]

theorem creation_honest :
    AnswersSuccess (fun _ => initAll false) .msCreation samplePair
        ⟨[], [(some "mis".toList, .array [.string (some "101".toList), .string (some "102".toList)])]⟩ ↔
      AllDone (fun _ => initAll false) .msCreation samplePair
        [.string (some "101".toList), .string (some "102".toList)] :=
  (lwmsgOperation_honest_iff (.inl rfl) rfl (List.cons_ne_nil _ _) _ _).mpr fun _ => .inl (by decide)

end IoTware.Dist
