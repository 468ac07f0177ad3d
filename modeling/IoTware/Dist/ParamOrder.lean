import IoTware.LwMsg.Dictionary
import IoTware.Dist.ParamSafety

/-!
# The order of requested parameters

An answer to a request for parameters has the same pairs in whatever order the
parameters are named. But whether there is an answer is decided by the last name only.
-/

namespace IoTware.Dist

open CText LwMsg Micro Loops Updates

def SameEntry (kv kv' : LWMKVObject) : Prop :=
  kv.1 = kv'.1 ∧ (kv.2 = kv'.2 ∨ ∃ pairs pairs' : LWMDictionary,
    kv.2 = .dictionary pairs ∧ kv'.2 = .dictionary pairs' ∧ pairs.Perm pairs')

def SameMessage (msg msg' : LWMessage) : Prop :=
  msg.header = msg'.header ∧ List.Forall₂ SameEntry msg.body msg'.body

/-- The same code, and the same messages sent up to the order of the pairs in them. -/
def SameOutcome : Except Fault (Device × UInt32) → Except Fault (Device × UInt32) → Prop
  | .ok (d, rsc), .ok (d', rsc') =>
    rsc = rsc' ∧ d.services = d'.services ∧ List.Forall₂ SameMessage d.sendQueue d'.sendQueue
  | .error e, .error e' => e = e'
  | _, _ => False

/-- A message for every list of names, which requests parameters of one task: flexible
ones, or static ones. -/
structure NamedRead (flexible : Bool) (msid tobj : LWMObject)
    (request : List LWMObject → LWMessage) : Prop where
  mis : ∀ names, getLwmObjectFromDict (request names).body "mis".toList = .ok (some (.array [msid]))
  tis : ∀ names, getLwmObjectFromDict (request names).body "tis".toList = .ok (some (.array [tobj]))
  fps : ∀ names, getLwmObjectFromDict (request names).body "fps".toList =
    .ok (if flexible then some (.array names) else none)
  sps : ∀ names, getLwmObjectFromDict (request names).body "sps".toList =
    .ok (if flexible then none else some (.array names))

def readParams (flexible : Bool) (ti : TaskInfo) : List Parameter :=
  if flexible then ti.flexibleParams else ti.staticParams

def Found (params : List Parameter) (name : LWMObject) : Bool :=
  (getParameterFromParamList params name.stringValue).isSome

/-- The name is the alias of a parameter. -/
def Known (params : List Parameter) (name : LWMObject) : Bool :=
  params.any fun param => name.stringValue = some param.aliasName

-- ---------------------------------------------------------------------------
-- The loop over the names
-- ---------------------------------------------------------------------------

theorem SameOutcome.refl (r : Except Fault (Device × UInt32)) : SameOutcome r r := by
  cases r with
  | error e => rfl
  | ok s =>
    have hentry : ∀ kv : LWMKVObject, SameEntry kv kv := fun _ => ⟨rfl, .inl rfl⟩
    have hmsg : ∀ msg : LWMessage, SameMessage msg msg :=
      fun _ => ⟨rfl, List.forall₂_same.mpr fun kv _ => hentry kv⟩
    exact ⟨rfl, rfl, List.forall₂_same.mpr fun msg _ => hmsg msg⟩

def readPair (pf : Platform) (params : List Parameter) (name : LWMObject) :
    Option (Text × LWMObject) := do
  let param ← getParameterFromParamList params name.stringValue
  let value ← newLwmObjectFromTypeValue pf param.type param.value
  return (param.aliasName, value)

theorem readPairs_consistent (pf : Platform) (params : List Parameter) (names : List LWMObject) :
    Consistent (names.filterMap (readPair pf params)) := by
  have hpair : ∀ name pair, readPair pf params name = some pair →
      ∃ param, params.find? (fun p => p.aliasName = pair.1) = some param ∧
        newLwmObjectFromTypeValue pf param.type param.value = some pair.2 := by
    intro name pair hpair
    unfold readPair at hpair
    obtain ⟨param, hparam, hpair⟩ := Option.bind_eq_some_iff.mp hpair
    obtain ⟨value, hvalue, hpair⟩ := Option.bind_eq_some_iff.mp hpair
    cases hpair
    refine ⟨param, ?_, hvalue⟩
    cases htext : name.stringValue with
    | none =>
      rw [htext] at hparam
      cases hparam
    | some text =>
      rw [htext] at hparam
      have hparam := getParameterFromParamList_some hparam
      have halias : param.aliasName = text := by simpa using List.find?_some hparam
      rwa [halias]
  intro u hu u' hu' hkey
  obtain ⟨name, -, hname⟩ := List.mem_filterMap.mp hu
  obtain ⟨name', -, hname'⟩ := List.mem_filterMap.mp hu'
  obtain ⟨param, hparam, hvalue⟩ := hpair name u hname
  obtain ⟨param', hparam', hvalue'⟩ := hpair name' u' hname'
  rw [hkey, hparam'] at hparam
  cases hparam
  exact Option.some.inj (hvalue.symm.trans hvalue')

theorem nameStep_ofMap (pf : Platform) (params : List Parameter) (updates : List (Text × LWMObject))
    (found : Bool) (name : LWMObject) :
    nameStep pf (some params) (ofMap (replay updates), found) name.stringValue =
      .ok (ofMap (replay (updates ++ (readPair pf params name).toList)), Found params name) := by
  unfold nameStep readPair Found
  dsimp only
  cases getParameterFromParamList params name.stringValue with
  | none => simp
  | some param =>
    dsimp only [Option.bind_eq_bind, Option.bind_some]
    unfold setLwmObject
    cases newLwmObjectFromTypeValue pf param.type param.value with
    | none => simp
    | some value =>
      have hpair : (some value).bind (fun value => (pure (param.aliasName, value) : Option _)) =
          some (param.aliasName, value) := rfl
      rw [hpair, Option.toList_some, replay_concat]
      dsimp only
      rw [setLwmObjectToDict_ofMap]
      rfl

theorem foldlM_nameStep (pf : Platform) (params : List Parameter) (names : List LWMObject) :
    (names.map LWMObject.stringValue).foldlM (nameStep pf (some params)) ([], false) =
      .ok (ofMap (replay (names.filterMap (readPair pf params))), names.getLast?.any (Found params)) := by
  induction names using List.reverseRecOn with
  | nil => rfl
  | append_singleton names name ih =>
    rw [List.map_append, List.foldlM_append, ih, List.filterMap_append, List.getLast?_concat]
    simp only [List.map_singleton, List.foldlM_cons, List.foldlM_nil, bind_ok]
    refine ⟨_, rfl, _, nameStep_ofMap pf params _ _ name, ?_⟩
    cases hpair : readPair pf params name with
    | none => simp [hpair, pure, Except.pure]
    | some pair => simp [hpair, pure, Except.pure]

-- ---------------------------------------------------------------------------
-- The request
-- ---------------------------------------------------------------------------

def namedAnswer (pf : Platform) (flexible : Bool) (header : LWMDictionary) (d : Device)
    (ti : TaskInfo) (names : List LWMObject) : Device × UInt32 :=
  let params := readParams flexible ti
  if names.getLast?.any (Found params) then
    (responseLwmsg d ⟨header, [(some (if flexible then "fp".toList else "sp".toList),
      .dictionary (ofMap (replay (names.filterMap (readPair pf params)))))]⟩, 300)
  else (d, 404)

theorem readNamed_array (pf : Platform) (dri : Option Text) :
    ∃ header, ∀ (req : ReadRequest) (d : Device) (ti : TaskInfo) (names : List LWMObject),
      req.dri = dri → req.cfp.or req.csp = some (.array names) →
      readNamed pf req d (some ti) = .ok (namedAnswer pf req.cfp.isSome header d ti names) := by
  obtain ⟨res, hres⟩ := newLwmRespMessage_total dri 200
  have hbody := newLwmRespMessage_body hres
  refine ⟨res.header, fun req d ti names hdri hcp => ?_⟩
  have hset : ∀ key (dict : LWMDictionary), setLwmBodyObject res key (some (.dictionary dict)) =
      .ok ⟨res.header, [(some key, .dictionary dict)]⟩ := by
    intro key dict
    unfold setLwmBodyObject
    rw [hbody]
    rfl
  have hloop := foldlM_nameStep pf (readParams req.cfp.isSome ti) names
  unfold readParams at hloop
  unfold readNamed namedAnswer readParams
  rw [hcp, hdri]
  dsimp only [Option.map_some]
  generalize (if req.cfp.isSome = true then ti.flexibleParams else ti.staticParams) = params at *
  simp only [paramNames, hloop, hres, hset, bind, Except.bind]
  cases names.getLast?.any (Found params) <;> rfl

theorem lwmsgParamRead_eq {request : List LWMObject → LWMessage}
    (h : NamedRead flexible msid tobj request) (pf : Platform) (isAll : Bool) (dri : Option Text)
    {d : Device} (hms : getMicroServiceInfoById d.services msid.stringValue = some (ms, i))
    (hrunning : ms.state = .running) (hindex : taskIndex tobj = .ok index) (names : List LWMObject) :
    lwmsgParamRead pf isAll dri d (request names) =
      if isAll then readAll pf dri d (getTaskInfoByIdx ms index)
      else readNamed pf ⟨dri, isAll, if flexible then some (.array names) else none,
        if flexible then none else some (.array names)⟩ d (getTaskInfoByIdx ms index) := by
  have hfps := h.fps names
  have hsps := h.sps names
  have hboth : ¬ ((if flexible then some (LWMObject.array names) else none).isSome ∧
      (if flexible then none else some (LWMObject.array names)).isSome) := by
    cases flexible <;> simp
  generalize (if flexible then some (LWMObject.array names) else none) = cfp at *
  generalize (if flexible then none else some (LWMObject.array names)) = csp at *
  have hnum : ¬ (nodeNum [tobj] ≠ 1 ∨ (cfp.isSome ∧ csp.isSome)) := not_or.mpr ⟨not_not.mpr rfl, hboth⟩
  have hone : nodeNum [msid] = 1 := rfl
  unfold lwmsgParamRead
  simp only [h.mis, bind, Except.bind, if_pos hone, loop, paramReadStep, hms, hrunning, h.tis, hfps,
    hsps, if_neg hnum, List.foldlM_cons, List.foldlM_nil, paramReadTask, hindex]
  rw [if_neg fun h : StateType.running ≠ .running => h rfl]
  generalize (if isAll = true then readAll pf dri d (getTaskInfoByIdx ms index)
    else readNamed pf ⟨dri, isAll, cfp, csp⟩ d (getTaskInfoByIdx ms index)) = r
  cases r <;> rfl

-- ---------------------------------------------------------------------------
-- Permutations
-- ---------------------------------------------------------------------------

theorem ofMap_replay_perm (pf : Platform) (params : List Parameter) {names names' : List LWMObject}
    (h : names'.Perm names) :
    (ofMap (replay (names'.filterMap (readPair pf params)))).Perm
      (ofMap (replay (names.filterMap (readPair pf params)))) :=
  (replay_perm (readPairs_consistent pf params names) (h.filterMap _)).map _

theorem namedAnswer_code (pf : Platform) (flexible : Bool) (header : LWMDictionary) (d : Device)
    (ti : TaskInfo) (names : List LWMObject) :
    (namedAnswer pf flexible header d ti names).2 =
      if names.getLast?.any (Found (readParams flexible ti)) then 300 else 404 := by
  unfold namedAnswer
  dsimp only
  split <;> rfl

theorem sameOutcome_namedAnswer_iff (pf : Platform) (flexible : Bool) (header : LWMDictionary)
    (d : Device) (ti : TaskInfo) {names names' : List LWMObject} (h : names'.Perm names) :
    SameOutcome (.ok (namedAnswer pf flexible header d ti names))
        (.ok (namedAnswer pf flexible header d ti names')) ↔
      names'.getLast?.any (Found (readParams flexible ti)) =
        names.getLast?.any (Found (readParams flexible ti)) := by
  constructor
  · intro hsame
    have hcode : (namedAnswer pf flexible header d ti names).2 =
        (namedAnswer pf flexible header d ti names').2 := hsame.1
    rw [namedAnswer_code, namedAnswer_code] at hcode
    revert hcode
    cases names.getLast?.any (Found (readParams flexible ti)) <;>
      cases names'.getLast?.any (Found (readParams flexible ti)) <;> decide
  · intro hlast
    unfold namedAnswer
    dsimp only
    rw [hlast]
    split
    · refine ⟨rfl, rfl, .cons ⟨rfl, .cons ⟨rfl, .inr ⟨_, _, rfl, rfl, ?_⟩⟩ .nil⟩ ?_⟩
      · exact (ofMap_replay_perm pf _ h).symm
      · exact (SameOutcome.refl (.ok (d, 300))).2.2
    · exact SameOutcome.refl _

theorem exists_perm_getLast? {name : LWMObject} {names : List LWMObject} (h : name ∈ names) :
    ∃ names' : List LWMObject, names'.Perm names ∧ names'.getLast? = some name := by
  obtain ⟨before, after, rfl⟩ := List.append_of_mem h
  refine ⟨before ++ after ++ [name], ?_, List.getLast?_concat⟩
  exact (List.perm_append_singleton _ _).trans List.perm_middle.symm

theorem forall_getLast?_iff (p : LWMObject → Bool) (names : List LWMObject) :
    (∀ names' : List LWMObject, names'.Perm names → names'.getLast?.any p = names.getLast?.any p) ↔
      (∀ name ∈ names, p name = true) ∨ ∀ name ∈ names, p name = false := by
  constructor
  · intro hall
    have hlast : ∀ name ∈ names, p name = names.getLast?.any p := by
      intro name hname
      obtain ⟨names', hperm, hget⟩ := exists_perm_getLast? hname
      rw [← hall names' hperm, hget, Option.any_some]
    cases hp : names.getLast?.any p with
    | true => exact .inl fun name hname => (hlast name hname).trans hp
    | false => exact .inr fun name hname => (hlast name hname).trans hp
  · intro hsame names' hperm
    obtain ⟨b, hb⟩ : ∃ b, ∀ name ∈ names, p name = b := hsame.elim (fun h => ⟨_, h⟩) fun h => ⟨_, h⟩
    rcases List.eq_nil_or_concat names with rfl | ⟨before, name, rfl⟩
    · rw [List.perm_nil.mp hperm]
    · obtain ⟨before', name', rfl⟩ : ∃ before' name', names' = before' ++ [name'] := by
        rcases List.eq_nil_or_concat names' with rfl | ⟨before', name', rfl⟩
        · exact absurd hperm.symm (by simp)
        · exact ⟨before', name', List.concat_eq_append⟩
      rw [List.concat_eq_append] at hb hperm ⊢
      rw [List.getLast?_concat, List.getLast?_concat, Option.any_some, Option.any_some,
        hb name (List.mem_append_right _ List.mem_cons_self),
        hb name' (hperm.mem_iff.mp (List.mem_append_right _ List.mem_cons_self))]

theorem found_eq (params : List Parameter) (name : LWMObject) :
    Found params name = (nodeNum params ≠ 0 && Known params name) := by
  unfold Found Known getParameterFromParamList
  cases name.stringValue with
  | none => simp
  | some text =>
    by_cases hnum : nodeNum params = 0
    · simp [hnum]
    · have hfind : (params.find? fun param => param.aliasName = text).isSome =
          params.any fun param => some text = some param.aliasName := by
        rw [Bool.eq_iff_iff, List.find?_isSome, List.any_eq_true]
        simp only [Option.some.injEq, eq_comm]
      simpa [hnum] using hfind

theorem found_all_iff (params : List Parameter) (names : List LWMObject) :
    ((∀ name ∈ names, Found params name = true) ∨ ∀ name ∈ names, Found params name = false) ↔
      nodeNum params = 0 ∨ (∀ name ∈ names, Known params name = true) ∨
        ∀ name ∈ names, Known params name = false := by
  by_cases hnum : nodeNum params = 0
  · exact iff_of_true (.inr fun name _ => by simp [found_eq, hnum]) (.inl hnum)
  · rw [or_iff_right hnum]
    simp [found_eq, hnum]

/-- A request has the same outcome in every order of its names exactly if it is for all
parameters, or the counter of the parameters is 0, or all its names are known, or none is. -/
theorem paramRead_order_iff {request : List LWMObject → LWMessage}
    (h : NamedRead flexible msid tobj request) (pf : Platform) (isAll : Bool) (dri : Option Text)
    {d : Device} (hms : getMicroServiceInfoById d.services msid.stringValue = some (ms, i))
    (hrunning : ms.state = .running) (hindex : taskIndex tobj = .ok index)
    (hti : getTaskInfoByIdx ms index = some ti) (names : List LWMObject) :
    (∀ names', names'.Perm names → SameOutcome (lwmsgParamRead pf isAll dri d (request names))
        (lwmsgParamRead pf isAll dri d (request names'))) ↔
      isAll = true ∨ nodeNum (readParams flexible ti) = 0 ∨
        (∀ name ∈ names, Known (readParams flexible ti) name = true) ∨
        ∀ name ∈ names, Known (readParams flexible ti) name = false := by
  have heq := lwmsgParamRead_eq h pf isAll dri hms hrunning hindex
  rw [hti] at heq
  cases isAll with
  | true =>
    refine iff_of_true (fun names' _ => ?_) (.inl rfl)
    rw [heq, heq]
    exact SameOutcome.refl _
  | false =>
    obtain ⟨header, hanswer⟩ := readNamed_array pf dri
    have hread : ∀ names, lwmsgParamRead pf false dri d (request names) =
        .ok (namedAnswer pf flexible header d ti names) := by
      intro names
      rw [heq, if_neg Bool.false_ne_true, hanswer _ d ti names rfl (by cases flexible <;> rfl)]
      cases flexible <;> rfl
    rw [or_iff_right Bool.false_ne_true, ← found_all_iff, ← forall_getLast?_iff]
    refine forall₂_congr fun names' hperm => ?_
    rw [hread, hread]
    exact sameOutcome_namedAnswer_iff pf flexible header d ti hperm

def sampleLimits : Device where
  services := [.service 0 .create, .service 0 (.run (initAll false))].foldl servicesStep
    [makeMicroService "101".toList [.addNewTask { sampleTask "sensor".toList false with
      flexibleParams := [⟨"low".toList, "lo".toList, .int8, [5]⟩, ⟨"high".toList, "hi".toList, .int8, [9]⟩] }]]
  sendQueue := []

def sampleNames (names : List Text) : List LWMObject := names.map fun name => .string (some name)

def sampleNamedRead (names : List LWMObject) : LWMessage where
  header := []
  body := [(some "fps".toList, .array names), (some "tis".toList, .array [.string (some "0".toList)]),
    (some "mis".toList, .array [.string (some "101".toList)])]

theorem namedRead_sample :
    NamedRead true (.string (some "101".toList)) (.string (some "0".toList)) sampleNamedRead :=
  ⟨fun _ => rfl, fun _ => rfl, fun _ => rfl, fun _ => rfl⟩

theorem paramRead_order_limits :
    SameOutcome (lwmsgParamRead samplePlatform false (some ['1']) sampleLimits
        (sampleNamedRead (sampleNames ["lo".toList, "hi".toList])))
      (lwmsgParamRead samplePlatform false (some ['1']) sampleLimits
        (sampleNamedRead (sampleNames ["hi".toList, "lo".toList]))) := by
  refine (paramRead_order_iff namedRead_sample samplePlatform false (some ['1']) rfl rfl rfl rfl
    (sampleNames ["lo".toList, "hi".toList])).mpr (.inr (.inr (.inl ?_))) _ (.swap _ _ _)
  decide

/-- A limit and a name that is not known: the code is 300 or 404. -/
theorem paramRead_order_matters :
    ¬ ∀ (pf : Platform) (dri : Option Text) (d : Device) (flexible : Bool) (msid tobj : LWMObject)
        (request : List LWMObject → LWMessage) ms i index ti,
      NamedRead flexible msid tobj request →
      getMicroServiceInfoById d.services msid.stringValue = some (ms, i) → ms.state = .running →
      taskIndex tobj = .ok index → getTaskInfoByIdx ms index = some ti →
      ∀ names names', names'.Perm names → SameOutcome (lwmsgParamRead pf false dri d (request names))
        (lwmsgParamRead pf false dri d (request names')) := by
  intro h
  have hsame := h samplePlatform (some ['1']) sampleLimits true _ _ sampleNamedRead _ _ _ _
    namedRead_sample rfl rfl rfl rfl (sampleNames ["lo".toList, "x".toList])
    (sampleNames ["x".toList, "lo".toList]) (.swap _ _ _)
  exact absurd hsame.1 (by decide)

end IoTware.Dist
