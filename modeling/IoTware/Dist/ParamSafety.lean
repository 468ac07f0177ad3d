import IoTware.Dist.Services

/-!
# Requests for parameters

The handlers that set and read parameters, and what they need of a request to
meet no fault. Setting parameters leaves their aliases and types, so the nodes of
`fp` can be judged by the parameters as they are before.
-/

namespace IoTware.Dist

open CText LwMsg Micro Loops

-- ---------------------------------------------------------------------------
-- Setting parameters
-- ---------------------------------------------------------------------------

/-- The value of an entry can be set: `atol` and `atof` need a string. -/
def Settable (value : LWMObject) (type : ParamType) : Prop :=
  value.stringValue ≠ none ∨ type = .double ∨ type = .string ∨ type = .unknown

def namedType (params : List Parameter) (key : Option Text) : Option ParamType :=
  (getParameterFromParamList params key).map Parameter.type

/-- A node of `fp` can be read: where its key names a parameter it is an entry,
with a value that can be set. -/
def EntrySafe (pf : Platform) (params : List Parameter) (entry : FpEntry) : Prop :=
  ∀ type, namedType params (entry.key pf) = some type →
    match entry with
    | .kvo _ value => Settable value type
    | .object _ => False

/-- The value of `fp` is a list, and an empty one or one for a task there is. -/
def FpSafe (pf : Platform) (fp : LWMObject) (task : Option TaskInfo) : Prop :=
  ∃ entries, fpEntries fp = .ok entries ∧
    ∀ entry ∈ entries, ∃ ti, task = some ti ∧ EntrySafe pf ti.flexibleParams entry

def paramView (param : Parameter) : Text × ParamType := (param.aliasName, param.type)

def taskView (ti : TaskInfo) : Nat × List (Text × ParamType) :=
  (ti.taskIdx, ti.flexibleParams.map paramView)

def tasksView (ms : MicroService) : List (Nat × List (Text × ParamType)) :=
  ms.tasks.nodes.map taskView

theorem succeeds_parameterSetByString (pf : Platform) (param : Parameter) (value : LWMObject) :
    Succeeds (parameterSetByString pf param value.stringValue) ↔ Settable value param.type := by
  unfold parameterSetByString Settable
  cases value.stringValue <;> cases param.type <;> simp

theorem parameterSetByString_view {str : Option Text}
    (h : parameterSetByString pf param str = .ok new) : paramView new = paramView param := by
  unfold parameterSetByString at h
  split at h <;> cases h <;> rfl

theorem namedType_view (params : List Parameter) (key : Option Text) :
    namedType params key =
      key.bind fun key =>
        if nodeNum (params.map paramView) = 0 then none
        else ((params.map paramView).find? fun v => v.1 = key).map Prod.snd := by
  unfold namedType getParameterFromParamList
  cases key with
  | none => rfl
  | some key =>
    have hnum : nodeNum (params.map paramView) = nodeNum params := congrArg (· % 256) (List.length_map _)
    dsimp only [Option.bind_some]
    rw [hnum, List.find?_map, Option.map_map]
    split <;> rfl

theorem replaceParam_view (aliasName : Text) (hnew : paramView new = paramView param)
    (params : List Parameter)
    (hparam : params.find? (fun param => param.aliasName = aliasName) = some param) :
    (replaceParam aliasName new params).map paramView = params.map paramView := by
  induction params with
  | nil => rfl
  | cons first params ih =>
    unfold replaceParam
    rw [List.find?_cons] at hparam
    split
    · rename_i hfirst
      rw [decide_eq_true hfirst] at hparam
      cases hparam
      rw [List.map_cons, List.map_cons, hnew]
    · rename_i hfirst
      rw [decide_eq_false hfirst] at hparam
      rw [List.map_cons, List.map_cons, ih hparam]

theorem entrySafe_view (h : params'.map paramView = params.map paramView) (pf : Platform)
    (entry : FpEntry) : EntrySafe pf params' entry ↔ EntrySafe pf params entry := by
  unfold EntrySafe
  rw [namedType_view, namedType_view, h]

theorem fpSafe_view {task' task : Option TaskInfo} (h : task'.map taskView = task.map taskView)
    (pf : Platform) (fp : LWMObject) : FpSafe pf fp task' ↔ FpSafe pf fp task := by
  cases task' with
  | none =>
    have hnone : task = none := Option.map_eq_none_iff.mp h.symm
    rw [hnone]
  | some ti' =>
    obtain ⟨ti, rfl, hview⟩ := Option.map_eq_some_iff.mp h.symm
    have hparams := (congrArg Prod.snd hview).symm
    unfold FpSafe
    refine exists_congr fun entries => and_congr_right fun _ => forall₂_congr fun entry _ => ?_
    constructor
    · rintro ⟨_, ⟨⟩, hentry⟩
      exact ⟨ti, rfl, (entrySafe_view hparams pf entry).mp hentry⟩
    · rintro ⟨_, ⟨⟩, hentry⟩
      exact ⟨ti', rfl, (entrySafe_view hparams pf entry).mpr hentry⟩

theorem succeeds_fpStep (pf : Platform) (params : List Parameter) (found : Bool) (entry : FpEntry) :
    Succeeds (fpStep pf (some params, found) entry) ↔ EntrySafe pf params entry := by
  unfold fpStep EntrySafe namedType
  dsimp only
  cases getParameterFromParamList params (entry.key pf) with
  | none =>
    refine iff_of_true (succeeds_pure _) ?_
    rintro _ ⟨⟩
  | some param =>
    simp only [Option.map_some, Option.some.injEq, forall_eq']
    cases entry with
    | kvo key value =>
      refine (succeeds_bind_of fun _ _ => succeeds_pure _).trans ?_
      exact succeeds_parameterSetByString pf param value
    | object obj => exact iff_of_false (not_succeeds_error _) id

theorem fpStep_view (h : fpStep pf s entry = .ok s') :
    s'.1.map (List.map paramView) = s.1.map (List.map paramView) := by
  unfold fpStep at h
  split at h
  · cases h
  rename_i params hparams
  split at h
  · cases h
    rfl
  rename_i param hfind
  simp only [bind_ok, pure_ok] at h
  obtain ⟨str, -, new, hset, rfl⟩ := h
  cases hentry : entry.key pf with
  | none =>
    rw [hentry] at hfind
    cases hfind
  | some key =>
    rw [hentry] at hfind
    have hfind := getParameterFromParamList_some hfind
    have hkey : param.aliasName = key := by simpa using List.find?_some hfind
    rw [hparams]
    exact congrArg some
      (replaceParam_view param.aliasName (parameterSetByString_view hset) params (hkey ▸ hfind))

theorem succeeds_fpEntries (pf : Platform) (fp : LWMObject) (task : Option TaskInfo) (found : Bool) :
    Succeeds (do (← fpEntries fp).foldlM (fpStep pf) (task.map TaskInfo.flexibleParams, found)) ↔
      FpSafe pf fp task := by
  unfold FpSafe
  rw [succeeds_bind]
  refine exists_congr fun entries => and_congr_right fun _ => ?_
  refine foldlM_succeeds_iff
    (I := fun s => s.1.map (List.map paramView) =
      (task.map TaskInfo.flexibleParams).map (List.map paramView)) ?_ ?_ entries rfl
  · intro s entry s' hs h
    exact (fpStep_view h).trans hs
  · rintro ⟨params, found⟩ entry hs
    cases task with
    | none =>
      obtain rfl : params = none := Option.map_eq_none_iff.mp hs
      refine iff_of_false (not_succeeds_error _) ?_
      rintro ⟨_, ⟨⟩, -⟩
    | some ti =>
      obtain ⟨params, rfl, hview⟩ := Option.map_eq_some_iff.mp hs
      refine (succeeds_fpStep pf params found entry).trans ((entrySafe_view hview pf entry).trans ?_)
      constructor
      · exact fun h => ⟨ti, rfl, h⟩
      · rintro ⟨_, ⟨⟩, h⟩
        exact h

theorem fpEntries_view {task : Option TaskInfo} {entries : List FpEntry}
    (h : entries.foldlM (fpStep pf) (task.map TaskInfo.flexibleParams, found) = .ok (params, found')) :
    params.map (List.map paramView) = task.map fun ti => ti.flexibleParams.map paramView := by
  have hview := foldlM_invariant
    (I := fun s => s.1.map (List.map paramView) =
      (task.map TaskInfo.flexibleParams).map (List.map paramView))
    (fun _ _ _ hs hstep => (fpStep_view hstep).trans hs) rfl h
  rw [Option.map_map] at hview
  exact hview

/-- What `_lwmsg_param_set` needs of an object of `tis`. -/
def SetTaskSafe (pf : Platform) (ms : MicroService) (body : LWMDictionary) (obj : LWMObject) : Prop :=
  Finds body "fp".toList fun fp => ∀ value, fp = some value → NamesTask ms (FpSafe pf value) obj

theorem tasksView_setFlexibleParams {ms : MicroService} {index : UInt32}
    (hti : getTaskInfoByIdx ms index = some ti)
    (hparams : params.map paramView = ti.flexibleParams.map paramView) :
    tasksView (ms.updateTask ti.id (setFlexibleParams params)) = tasksView ms := by
  refine TaskList.map_update_find? taskView ?_
  rw [getTaskInfoByIdx_find? hti]
  rintro _ ⟨⟩
  exact congrArg (ti.taskIdx, ·) hparams

theorem succeeds_paramSetTask (pf : Platform) (body : LWMDictionary)
    (hview : tasksView s.1 = tasksView ms) (obj : LWMObject) :
    Succeeds (paramSetTask pf body s obj) ↔ SetTaskSafe pf ms body obj := by
  refine succeeds_lookup ?_ body _
  intro value
  cases value with
  | none =>
    refine iff_of_true (succeeds_pure _) ?_
    rintro _ ⟨⟩
  | some fp =>
    simp only [Option.some.injEq, forall_eq']
    refine succeeds_taskIndex (fun index => ?_) obj
    have htask := getTaskInfoByIdx_view Prod.fst (fun _ => rfl) hview index
    refine Iff.trans ?_ ((succeeds_fpEntries pf fp _ s.2.1).trans (fpSafe_view htask pf fp))
    rw [← bind_assoc]
    exact succeeds_bind_of fun _ _ => succeeds_pure _

theorem paramSetTask_view {s' : MicroService × Bool × UInt32}
    (h : paramSetTask pf body s obj = .ok (s', stop)) :
    tasksView s'.1 = tasksView s.1 ∧ s'.1.msId = s.1.msId ∧
      (stop = true → ∀ ms obj, SetTaskSafe pf ms body obj) := by
  unfold paramSetTask at h
  rw [bind_ok] at h
  obtain ⟨value, hfp, h⟩ := h
  cases value with
  | none =>
    cases h
    refine ⟨rfl, rfl, fun _ ms obj => ⟨none, hfp, ?_⟩⟩
    rintro _ ⟨⟩
  | some fp =>
    simp only [bind_ok, pure_ok] at h
    obtain ⟨index, -, entries, -, ⟨params, found⟩, hloop, heq⟩ := h
    cases heq
    refine ⟨?_, ?_, by rintro ⟨⟩⟩
    · have hview := fpEntries_view hloop
      dsimp only
      split
      · rename_i ti params hti
        rw [hti] at hview
        exact tasksView_setFlexibleParams hti (Option.some.inj hview)
      · rfl
    · dsimp only
      split <;> rfl

/-- What `_lwmsg_param_set` needs of an object of `mis`. -/
def SetServiceSafe (pf : Platform) (services : List MicroService) (body : LWMDictionary) (msid : LWMObject) : Prop :=
  ∀ ms, serviceOf services msid = some ms →
    Finds body "tis".toList fun tis => WhenArray tis fun tis => ∀ obj ∈ tis, SetTaskSafe pf ms body obj

def ParamSetSafe (pf : Platform) (services : List MicroService) (body : LWMDictionary) : Prop :=
  Finds body "mis".toList fun mis => WhenArray mis fun mis =>
    nodeNum mis = 1 → ∀ msid ∈ mis, SetServiceSafe pf services body msid

theorem succeeds_paramSetStep (pf : Platform) (body : LWMDictionary)
    (hview : SameView tasksView services s.1) (msid : LWMObject) :
    Succeeds (paramSetStep pf body s msid) ↔ SetServiceSafe pf services body msid := by
  unfold paramSetStep SetServiceSafe serviceOf
  cases hinfo : getMicroServiceInfoById s.1 msid.stringValue with
  | none =>
    refine iff_of_true (succeeds_ok _) ?_
    rw [hview.notFound hinfo]
    rintro _ ⟨⟩
  | some p =>
    obtain ⟨ms', i⟩ := p
    obtain ⟨ms, hms, htasks⟩ := hview.found hinfo
    rw [hms]
    simp only [Option.map_some, Option.some.injEq, forall_eq']
    refine succeeds_lookup (succeeds_whenArray fun tis => ?_) body _
    refine (succeeds_bind_of fun _ _ => succeeds_pure _).trans ?_
    refine loop_succeeds_iff (I := fun s => tasksView s.1 = tasksView ms) ?_ ?_ tis htasks
    · intro s obj s' stop hs h
      obtain ⟨hkeep, -, hstop⟩ := paramSetTask_view h
      exact ⟨hkeep.trans hs, fun h => hstop h ms⟩
    · exact fun s obj hs => succeeds_paramSetTask pf body hs obj

theorem paramSetStep_view (hview : SameView tasksView services s.1)
    (h : paramSetStep pf body s msid = .ok (s', stop)) :
    SameView tasksView services s'.1 ∧ (stop = true → ∀ msid, SetServiceSafe pf services body msid) := by
  unfold paramSetStep at h
  split at h
  · cases h
    exact ⟨hview, fun h => nomatch h⟩
  rename_i ms i hinfo
  rw [bind_ok] at h
  obtain ⟨value, htis, h⟩ := h
  split at h
  · rename_i tis
    simp only [bind_ok, pure_ok] at h
    obtain ⟨⟨⟨ms', found, rsc⟩, returned⟩, hloop, heq⟩ := h
    cases heq
    obtain ⟨⟨htasks, hid⟩, hstop⟩ := loop_invariant
      (I := fun s => tasksView s.1 = tasksView ms ∧ s.1.msId = ms.msId)
      (P := ∀ ms obj, SetTaskSafe pf ms body obj)
      (fun s obj s' stop hs h =>
        have hkeep := paramSetTask_view h
        ⟨⟨hkeep.1.trans hs.1, hkeep.2.1.trans hs.2⟩, hkeep.2.2⟩) ⟨rfl, rfl⟩ hloop
    refine ⟨hview.set (getMicroServiceInfoById_some hinfo) hid htasks, ?_⟩
    intro h msid ms _
    exact ⟨_, htis, fun tis _ obj _ => hstop h ms obj⟩
  · cases h
    exact ⟨hview, fun h => nomatch h⟩

theorem succeeds_lwmsgParamSet (pf : Platform) (services : List MicroService) (msg : LWMessage) :
    Succeeds (lwmsgParamSet pf services msg) ↔ ParamSetSafe pf services msg.body := by
  refine succeeds_lookup (succeeds_whenArray fun mis => ?_) msg.body _
  split
  · rename_i hone
    refine (succeeds_bind_of fun _ _ => succeeds_pure _).trans (Iff.trans ?_
      (forall_prop_of_true hone).symm)
    exact loop_succeeds_iff (I := fun s => SameView tasksView services s.1)
      (fun _ _ _ _ hs h => paramSetStep_view hs h)
      (fun _ msid hs => succeeds_paramSetStep pf msg.body hs msid) mis (.refl _ _)
  · rename_i hmany
    exact iff_of_true (succeeds_pure _) fun hone => absurd hone hmany

-- ---------------------------------------------------------------------------
-- Reading parameters
-- ---------------------------------------------------------------------------

/-- The value of `fps` or `sps` is a list, and an empty one or one for a task
there is. -/
def NamesSafe (cp : Option LWMObject) (task : Option TaskInfo) : Prop :=
  ∃ value names, cp = some value ∧ paramNames value = .ok names ∧ (names ≠ [] → task ≠ none)

def ReadTaskSafe (isAll : Bool) (cp : Option LWMObject) (task : Option TaskInfo) : Prop :=
  if isAll then task ≠ none else NamesSafe cp task

/-- What `_lwmsg_param_read` needs of an object of `mis`. -/
def ReadServiceSafe (isAll : Bool) (services : List MicroService) (body : LWMDictionary)
    (msid : LWMObject) : Prop :=
  ∀ ms, serviceOf services msid = some ms → ms.state = .running →
    Finds body "tis".toList fun cti => Finds body "fps".toList fun cfp =>
      Finds body "sps".toList fun csp => WhenArray cti fun tis =>
        nodeNum tis = 1 → ¬ (cfp.isSome ∧ csp.isSome) →
          ∀ obj ∈ tis, NamesTask ms (ReadTaskSafe isAll (cfp.or csp)) obj

def ParamReadSafe (isAll : Bool) (services : List MicroService) (body : LWMDictionary) : Prop :=
  Finds body "mis".toList fun mis => WhenArray mis fun mis =>
    nodeNum mis = 1 → ∀ msid ∈ mis, ReadServiceSafe isAll services body msid

theorem succeeds_readAll (pf : Platform) (dri : Option Text) (d : Device) (task : Option TaskInfo) :
    Succeeds (readAll pf dri d task) ↔ task ≠ none := by
  obtain ⟨res, hres⟩ := newLwmRespMessage_total dri 200
  unfold readAll
  rw [succeeds_bind_ok hres]
  cases task with
  | none => exact iff_of_false (not_succeeds_error _) (fun h => h rfl)
  | some ti =>
    refine iff_of_true ?_ (Option.some_ne_none ti)
    obtain ⟨fpDict, hfp⟩ := paramDict_ok pf ti.flexibleParams
    obtain ⟨spDict, hsp⟩ := paramDict_ok pf ti.staticParams
    have hn : KeysNonNull res.body := newLwmRespMessage_body hres ▸ keysNonNull_nil
    obtain ⟨res₁, h₁, -, hn₁⟩ := setLwmBodyObject_ok hn "fp".toList (some (.dictionary fpDict))
    obtain ⟨res₂, h₂, -⟩ := setLwmBodyObject_ok hn₁ "sp".toList (some (.dictionary spDict))
    dsimp only
    rw [succeeds_bind_ok hfp, succeeds_bind_ok hsp, succeeds_bind_ok h₁, succeeds_bind_ok h₂]
    exact succeeds_pure _

theorem nameStep_ok (pf : Platform) (params : List Parameter) (hn : KeysNonNull s.1)
    (name : Option Text) :
    ∃ s', nameStep pf (some params) s name = .ok s' ∧ KeysNonNull s'.1 := by
  unfold nameStep
  dsimp only
  split
  · exact ⟨_, rfl, hn⟩
  · rename_i param _
    obtain ⟨dict, hset, hn'⟩ := setLwmObject_ok hn param.aliasName
      (newLwmObjectFromTypeValue pf param.type param.value)
    refine ⟨(dict, true), ?_, hn'⟩
    rw [hset]
    rfl

theorem succeeds_names (pf : Platform) (task : Option TaskInfo) (params : TaskInfo → List Parameter)
    (names : List (Option Text)) :
    Succeeds (names.foldlM (nameStep pf (task.map params)) ([], false)) ↔ (names ≠ [] → task ≠ none) := by
  cases task with
  | some ti =>
    refine iff_of_true ?_ fun _ => Option.some_ne_none ti
    refine (foldlM_succeeds_iff (I := fun s => KeysNonNull s.1) (C := fun _ => True) ?_ ?_ names
      keysNonNull_nil).mpr fun _ _ => trivial
    · intro s name s' hs h
      obtain ⟨s'', hstep, hn⟩ := nameStep_ok pf (params ti) hs name
      rw [Option.map_some, hstep] at h
      cases h
      exact hn
    · intro s name hs
      obtain ⟨s', hstep, -⟩ := nameStep_ok pf (params ti) hs name
      exact iff_of_true ⟨s', hstep⟩ trivial
  | none =>
    cases names with
    | nil => exact iff_of_true (succeeds_ok _) fun h => absurd rfl h
    | cons name names =>
      refine iff_of_false (not_succeeds_error _) fun h => ?_
      exact h (List.cons_ne_nil _ _) rfl

theorem succeeds_readNamed (pf : Platform) (req : ReadRequest) (d : Device) (task : Option TaskInfo) :
    Succeeds (readNamed pf req d task) ↔ NamesSafe (req.cfp.or req.csp) task := by
  unfold readNamed NamesSafe
  cases req.cfp.or req.csp with
  | none =>
    refine iff_of_false (not_succeeds_error _) ?_
    rintro ⟨_, _, ⟨⟩, -⟩
  | some cp =>
    dsimp only
    rw [succeeds_bind]
    simp only [Option.some.injEq, exists_and_left, exists_eq_left']
    refine exists_congr fun names => and_congr_right fun _ => ?_
    refine Iff.trans ?_ (succeeds_names pf task
      (fun ti => if req.cfp.isSome then ti.flexibleParams else ti.staticParams) names)
    refine succeeds_bind_of ?_
    rintro ⟨cpDict, found⟩ -
    dsimp only
    split
    · obtain ⟨res, hres⟩ := newLwmRespMessage_total req.dri 200
      have hn : KeysNonNull res.body := newLwmRespMessage_body hres ▸ keysNonNull_nil
      obtain ⟨res₁, h₁, -⟩ := setLwmBodyObject_ok hn
        (if req.cfp.isSome then "fp".toList else "sp".toList) (some (.dictionary cpDict))
      rw [succeeds_bind_ok hres, succeeds_bind_ok h₁]
      exact succeeds_pure _
    · exact succeeds_pure _

theorem succeeds_paramReadTask (pf : Platform) (req : ReadRequest) (ms : MicroService)
    (s : Device × UInt32) (obj : LWMObject) :
    Succeeds (paramReadTask pf req ms s obj) ↔
      NamesTask ms (ReadTaskSafe req.isAll (req.cfp.or req.csp)) obj := by
  refine succeeds_taskIndex (fun index => ?_) obj
  unfold ReadTaskSafe
  split
  · exact succeeds_readAll pf req.dri s.1 _
  · exact succeeds_readNamed pf req s.1 _

theorem paramReadTask_services (h : paramReadTask pf req ms s obj = .ok s') :
    s'.1.services = s.1.services := by
  unfold paramReadTask at h
  rw [bind_ok] at h
  obtain ⟨index, -, h⟩ := h
  dsimp only at h
  split at h
  · unfold readAll at h
    rw [bind_ok] at h
    obtain ⟨res, -, h⟩ := h
    split at h
    · cases h
    · simp only [bind_ok, pure_ok] at h
      obtain ⟨_, -, _, -, _, -, _, -, rfl⟩ := h
      rfl
  · unfold readNamed at h
    split at h
    · cases h
    · simp only [bind_ok] at h
      obtain ⟨_, -, _, -, h⟩ := h
      split at h
      · simp only [bind_ok, pure_ok] at h
        obtain ⟨_, -, _, -, rfl⟩ := h
        rfl
      · cases h
        rfl

/-- What the step does: it passes the microservice over, it returns for the shape
of the request, or it goes through the tasks. -/
theorem paramReadStep_cases (h : paramReadStep pf isAll dri body s msid = .ok (s', stop)) :
    (getMicroServiceInfoById s.1.services msid.stringValue = none ∧ s' = (s.1, 404) ∧
      stop = false) ∨
    ∃ ms i, getMicroServiceInfoById s.1.services msid.stringValue = some (ms, i) ∧
      (ms.state ≠ .running ∧ s' = (s.1, 403) ∧ stop = false ∨
        ms.state = .running ∧ ∃ cti cfp csp, getLwmObjectFromDict body "tis".toList = .ok cti ∧
          getLwmObjectFromDict body "fps".toList = .ok cfp ∧
          getLwmObjectFromDict body "sps".toList = .ok csp ∧
          ((∀ tis, cti = some (.array tis) →
              ¬(nodeNum tis = 1 ∧ ¬(cfp.isSome ∧ csp.isSome))) ∧ s' = s ∧ stop = true ∨
            ∃ tis, cti = some (.array tis) ∧ (nodeNum tis = 1 ∧ ¬(cfp.isSome ∧ csp.isSome)) ∧
              tis.foldlM (paramReadTask pf ⟨dri, isAll, cfp, csp⟩ ms) s = .ok s' ∧
              stop = false)) := by
  unfold paramReadStep at h
  split at h
  · rename_i hinfo
    cases h
    exact .inl ⟨hinfo, rfl, rfl⟩
  rename_i ms i hinfo
  refine .inr ⟨ms, i, hinfo, ?_⟩
  split at h
  · rename_i hstate
    cases h
    exact .inl ⟨hstate, rfl, rfl⟩
  rename_i hstate
  simp only [bind_ok] at h
  obtain ⟨cti, hcti, cfp, hcfp, csp, hcsp, h⟩ := h
  refine .inr ⟨not_not.mp hstate, cti, cfp, csp, hcti, hcfp, hcsp, ?_⟩
  split at h
  · rename_i tis
    split at h
    · rename_i hshape
      cases h
      refine .inl ⟨?_, rfl, rfl⟩
      rintro _ ⟨⟩ ⟨hone, hboth⟩
      exact hshape.elim (fun hmany => hmany hone) hboth
    · rename_i hshape
      rw [not_or, not_not] at hshape
      rw [bind_ok] at h
      obtain ⟨s₁, hloop, heq⟩ := h
      cases heq
      exact .inr ⟨tis, rfl, hshape, hloop, rfl⟩
  · rename_i hnot
    cases h
    exact .inl ⟨fun tis htis => absurd htis (hnot tis), rfl, rfl⟩

/-- The step leaves the microservices, and returns only where the shape of the
request does not let it come to a task. -/
theorem paramReadStep_keeps (h : paramReadStep pf isAll dri body s msid = .ok (s', stop)) :
    s'.1.services = s.1.services ∧
      (stop = true → ∀ services msid, ReadServiceSafe isAll services body msid) := by
  obtain ⟨-, rfl, rfl⟩ | ⟨ms, i, -, ⟨-, rfl, rfl⟩ | ⟨-, cti, cfp, csp, hcti, hcfp, hcsp, h⟩⟩ :=
    paramReadStep_cases h
  · exact ⟨rfl, fun h => absurd h Bool.false_ne_true⟩
  · exact ⟨rfl, fun h => absurd h Bool.false_ne_true⟩
  · obtain ⟨hshape, rfl, rfl⟩ | ⟨tis, -, -, hloop, rfl⟩ := h
    · exact ⟨rfl, fun _ _ _ _ _ _ => ⟨cti, hcti, cfp, hcfp, csp, hcsp,
        fun tis htis hone hboth => absurd ⟨hone, hboth⟩ (hshape tis htis)⟩⟩
    · refine ⟨?_, fun h => absurd h Bool.false_ne_true⟩
      exact foldlM_invariant (I := fun s' => s'.1.services = s.1.services)
        (fun _ _ _ hs h => (paramReadTask_services h).trans hs) rfl hloop

theorem succeeds_paramReadStep (pf : Platform) (isAll : Bool) (dri : Option Text)
    (body : LWMDictionary) (s : Device × UInt32) (msid : LWMObject) :
    Succeeds (paramReadStep pf isAll dri body s msid) ↔
      ReadServiceSafe isAll s.1.services body msid := by
  unfold paramReadStep ReadServiceSafe serviceOf
  cases getMicroServiceInfoById s.1.services msid.stringValue with
  | none =>
    refine iff_of_true (succeeds_ok _) ?_
    rintro _ ⟨⟩
  | some p =>
    obtain ⟨ms, i⟩ := p
    simp only [Option.map_some, Option.some.injEq, forall_eq']
    by_cases hrunning : ms.state = .running
    · rw [if_neg (not_not_intro hrunning)]
      refine Iff.trans ?_ (forall_prop_of_true hrunning).symm
      refine succeeds_lookup (fun cti => succeeds_lookup (fun cfp => succeeds_lookup (fun csp => ?_)
        body _) body _) body _
      refine succeeds_whenArray (fun tis => ?_) cti
      split
      · rename_i hshape
        refine iff_of_true (succeeds_pure _) fun hone hboth => ?_
        rcases hshape with hmany | hshape
        · exact absurd hone hmany
        · exact absurd hshape hboth
      · rename_i hshape
        rw [not_or, not_not] at hshape
        obtain ⟨hone, hboth⟩ := hshape
        refine (succeeds_bind_of fun _ _ => succeeds_pure _).trans ?_
        refine Iff.trans ?_ ⟨fun h _ _ => h, fun h => h hone hboth⟩
        exact foldlM_succeeds_iff (I := fun _ => True) (fun _ _ _ _ _ => trivial)
          (fun s obj _ => succeeds_paramReadTask pf ⟨dri, isAll, cfp, csp⟩ ms s obj) tis trivial
    · rw [if_pos hrunning]
      exact iff_of_true (succeeds_ok _) fun h => absurd h hrunning

theorem succeeds_lwmsgParamRead (pf : Platform) (isAll : Bool) (dri : Option Text) (d : Device)
    (msg : LWMessage) :
    Succeeds (lwmsgParamRead pf isAll dri d msg) ↔ ParamReadSafe isAll d.services msg.body := by
  refine succeeds_lookup (succeeds_whenArray fun mis => ?_) msg.body _
  split
  · rename_i hone
    refine (succeeds_bind_of fun _ _ => succeeds_pure _).trans (Iff.trans ?_
      (forall_prop_of_true hone).symm)
    refine loop_succeeds_iff (I := fun s => s.1.services = d.services) ?_ ?_ mis rfl
    · intro s msid s' stop hs h
      obtain ⟨hkeep, hstop⟩ := paramReadStep_keeps h
      exact ⟨hkeep.trans hs, fun h => hstop h d.services⟩
    · intro s msid hs
      rw [← hs]
      exact succeeds_paramReadStep pf isAll dri msg.body s msid
  · rename_i hmany
    exact iff_of_true (succeeds_pure _) fun hone => absurd hone hmany

end IoTware.Dist
