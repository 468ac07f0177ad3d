import IoTware.Dist.NullSafety
import IoTware.Lib.CArray

/-!
# Copies of names

Two texts are copied by `strcpy` into arrays of microservices: the `dri` of a request for
outputs into `latest_dri`, and the name of an output into `output_param_name`. The
functions are taken again with these arrays, and are the ones above as long as the texts
fit.
-/

namespace IoTware.Dist

open CText LwMsg Micro Loops CArray

def msMaxNameLength : Nat := 30

def latestDriSize : Nat := msMaxNameLength + 1

def outputParamNameSize : Nat := 30

inductive CopyFault
  | fault (f : Fault)
  | outOfBounds

def ofFault : Except Fault α → Except CopyFault α
  | .ok a => .ok a
  | .error f => .error (.fault f)

def ofCopy : Except OutOfBounds α → Except CopyFault α
  | .ok a => .ok a
  | .error _ => .error .outOfBounds

def arrayOf (size : Nat) (text : Text) : List Char := (terminated text ++ calloc size).take size

def Idle (ms : MicroService) : Prop := ms.state = .running ∧ isTasksRunning ms = false

instance (ms : MicroService) : Decidable (Idle ms) := inferInstanceAs (Decidable (_ ∧ _))

def copyDri (ms : MicroService) (dri : Text) : Except OutOfBounds (List Char) :=
  strcpy (arrayOf latestDriSize ms.latestDri) (terminated dri)

/-- `outputReadStep`, with the copy where a request becomes the latest one. -/
def outputReadStepInto (pf : Platform) (dri : Option Text) (s : Device × UInt32) (msid : LWMObject) :
    Except CopyFault (Device × UInt32) :=
  match getMicroServiceInfoById s.1.services msid.stringValue with
  | none => .ok (s.1, 404)
  | some (ms, i) =>
    if Idle ms then do
      let ms' ← ofFault (forwardOutputRead ms dri)
      let _ ← ofCopy (copyDri ms ms'.latestDri)
      let d := { s.1 with services := s.1.services.set i ms' }
      return (← ofFault (answerOutput pf dri d ms'.outputParam), 300)
    else ofFault (outputReadStep pf dri s msid)

def lwmsgOutputParamReadInto (pf : Platform) (dri : Option Text) (d : Device) (msg : LWMessage) :
    Except CopyFault (Device × UInt32) := do
  match ← ofFault (getLwmObjectFromDict msg.body "mis".toList) with
  | some (.array mis) => mis.foldlM (outputReadStepInto pf dri) (d, 400)
  | _ => return (d, 400)

/-- `setConnectLink`, with the copy into the link that is found. -/
def setConnectLinkInto (ms : MicroService) (lines : List (Option ConnectLine)) (outputName : Text)
    (names : List Text) : Except OutOfBounds MicroService :=
  match onoffWalk ms names with
  | none => .ok ms
  | some path => do
    let link := (ms.taskLinkHead.payload? path).getD .zero
    let _ ← strcpy (arrayOf outputParamNameSize link.outputParamName) (terminated outputName)
    return setConnectLink ms lines outputName names

-- ---------------------------------------------------------------------------
-- The conditions
-- ---------------------------------------------------------------------------

def firstIdle (services : List MicroService) (mis : List LWMObject) : Option MicroService :=
  (mis.filterMap (serviceOf services)).find? fun ms => Idle ms

/-- The string at `text` has at most that many characters. -/
def AtMost (n : Nat) (s : Text) : Prop := (text (terminated s)).length ≤ n

instance (n : Nat) (s : Text) : Decidable (AtMost n s) := inferInstanceAs (Decidable (_ ≤ _))

/-- The `dri` is no longer than a name, unless no microservice takes it. -/
def DriFits (dri : Option Text) (services : List MicroService) (body : LWMDictionary) : Prop :=
  ∀ mis, getLwmObjectFromDict body "mis".toList = .ok (some (.array mis)) →
    ∀ ms ∈ firstIdle services mis, LwmsgQueues ms → ∀ s ∈ dri, AtMost msMaxNameLength s

/-- The name of the output is shorter than a name may be, unless there is no link for
it. -/
def OutputNameFits (ms : MicroService) (outputName : Text) (names : List Text) : Prop :=
  onoffWalk ms names ≠ none → AtMost (msMaxNameLength - 1) outputName

-- ---------------------------------------------------------------------------
-- One copy
-- ---------------------------------------------------------------------------

theorem length_arrayOf (size : Nat) (s : Text) : (arrayOf size s).length = size := by
  unfold arrayOf
  rw [List.length_take, List.length_append, length_calloc]
  omega

theorem strcpy_arrayOf_iff (s : Text) (old : Text) :
    Succeeds (strcpy (arrayOf (n + 1) old) (terminated s)) ↔ AtMost n s := by
  rw [strcpy_succeeds_iff (string_terminated s), length_arrayOf, Nat.lt_succ_iff]
  rfl

theorem outOfBounds_of_not_succeeds {x : Except OutOfBounds α} (h : ¬ Succeeds x) :
    x = .error .outOfBounds := by
  cases x with
  | ok a => exact absurd (succeeds_ok a) h
  | error e => cases e; rfl

theorem ofFault_ne_outOfBounds (x : Except Fault α) : ofFault x ≠ .error .outOfBounds := by
  cases x <;> nofun

theorem ofFault_bind (x : Except Fault α) (f : α → Except Fault β) :
    ofFault (x >>= f) = ofFault x >>= fun a => ofFault (f a) := by
  cases x <;> rfl

-- ---------------------------------------------------------------------------
-- One microservice
-- ---------------------------------------------------------------------------

theorem forwardOutputRead_some_iff (ms : MicroService) (dri : Text) :
    Succeeds (forwardOutputRead ms (some dri)) ↔ LwmsgQueues ms := by
  constructor
  · intro h ti hti hport hnone
    unfold forwardOutputRead at h
    have hmissing :
        (ms.tasks.nodes.any fun ti => ti.lwmsgInputPort.isSome ∧ ti.lwmsgQueue = none) = true :=
      List.any_eq_true.mpr ⟨ti, hti, decide_eq_true ⟨hport, hnone⟩⟩
    rw [if_pos hmissing] at h
    exact not_succeeds_error _ h
  · exact fun h => ⟨_, forwardOutputRead_some h dri⟩

theorem outputReadStepInto_idle
    (hsome : getMicroServiceInfoById s.1.services msid.stringValue = some (ms, i)) (hidle : Idle ms) (pf : Platform) (dri : Option Text) :
    outputReadStepInto pf dri s msid = (do
      let ms' ← ofFault (forwardOutputRead ms dri)
      let _ ← ofCopy (copyDri ms ms'.latestDri)
      let d := { s.1 with services := s.1.services.set i ms' }
      return (← ofFault (answerOutput pf dri d ms'.outputParam), 300)) := by
  unfold outputReadStepInto
  rw [hsome]
  exact if_pos hidle

theorem outputReadStepInto_of_fits (h : ∀ t ∈ dri, AtMost msMaxNameLength t) (pf : Platform)
    (s : Device × UInt32) (msid : LWMObject) :
    outputReadStepInto pf dri s msid = ofFault (outputReadStep pf dri s msid) := by
  cases hinfo : getMicroServiceInfoById s.1.services msid.stringValue with
  | none =>
    unfold outputReadStepInto outputReadStep
    rw [hinfo]
    rfl
  | some p =>
    obtain ⟨ms, i⟩ := p
    by_cases hidle : Idle ms
    · rw [outputReadStepInto_idle hinfo hidle]
      unfold outputReadStep
      rw [hinfo]
      dsimp only
      rw [if_pos hidle.1, hidle.2, if_neg Bool.false_ne_true, ofFault_bind]
      cases hforward : forwardOutputRead ms dri with
      | error e => rfl
      | ok ms' =>
        obtain ⟨t, hdri, rfl⟩ := forwardOutputRead_ok hforward
        obtain ⟨a, ha⟩ := (strcpy_arrayOf_iff t ms.latestDri).mpr (h t hdri)
        have hcopy : ofCopy (copyDri ms t) = .ok a := congrArg ofCopy ha
        change (ofCopy (copyDri ms t) >>= fun _ => _) = _
        rw [hcopy]
        exact (ofFault_bind (answerOutput pf dri
          { s.1 with services := s.1.services.set i (sendOutputRead ms t) } ms.outputParam)
          fun d => pure (d, 300)).symm
    · unfold outputReadStepInto
      rw [hinfo]
      exact if_neg hidle

theorem outputReadStepInto_of_not_idle (h : ∀ ms ∈ serviceOf s.1.services msid, ¬ Idle ms)
    (pf : Platform) (t : Text) :
    ∃ s', outputReadStepInto pf (some t) s msid = .ok s' ∧ s'.1.services = s.1.services := by
  unfold serviceOf at h
  unfold outputReadStepInto outputReadStep
  cases hinfo : getMicroServiceInfoById s.1.services msid.stringValue with
  | none => exact ⟨_, rfl, rfl⟩
  | some p =>
    obtain ⟨ms, i⟩ := p
    have hidle : ¬ Idle ms := h ms (by rw [hinfo]; rfl)
    dsimp only
    rw [if_neg hidle]
    by_cases hrunning : ms.state = .running
    · have htasks : isTasksRunning ms = true := by
        cases htasks : isTasksRunning ms with
        | true => rfl
        | false => exact absurd ⟨hrunning, htasks⟩ hidle
      rw [if_pos hrunning, if_pos htasks]
      by_cases hlatest : ms.latestDri = t
      · obtain ⟨d, hd⟩ := succeeds_answerOutput pf (some t) s.1 ms.outputParam
        rw [if_pos hlatest, hd]
        exact ⟨_, rfl, answerOutput_services hd⟩
      · rw [if_neg hlatest]
        exact ⟨_, rfl, rfl⟩
    · rw [if_neg hrunning]
      exact ⟨_, rfl, rfl⟩

theorem outputReadStepInto_of_long (hms : serviceOf s.1.services msid = some ms) (hidle : Idle ms)
    (hlong : ¬ AtMost msMaxNameLength t) (pf : Platform) :
    ∃ e, outputReadStepInto pf (some t) s msid = .error e ∧ (e = .outOfBounds ↔ LwmsgQueues ms) := by
  obtain ⟨⟨ms, i⟩, hinfo, rfl⟩ := Option.map_eq_some_iff.mp hms
  rw [outputReadStepInto_idle hinfo hidle]
  by_cases hqueues : LwmsgQueues ms
  · have hover : ¬ Succeeds (copyDri ms t) := fun h => hlong ((strcpy_arrayOf_iff t ms.latestDri).mp h)
    have hcopy : ofCopy (copyDri ms t) = .error .outOfBounds :=
      congrArg ofCopy (outOfBounds_of_not_succeeds hover)
    rw [forwardOutputRead_some hqueues]
    refine ⟨.outOfBounds, ?_, iff_of_true rfl hqueues⟩
    change (ofCopy (copyDri ms t) >>= fun _ => _) = _
    rw [hcopy]
    rfl
  · cases hforward : forwardOutputRead ms (some t) with
    | ok ms' => exact absurd ((forwardOutputRead_some_iff ms t).mp ⟨ms', hforward⟩) hqueues
    | error e => exact ⟨.fault e, rfl, iff_of_false nofun hqueues⟩

-- ---------------------------------------------------------------------------
-- All microservices of a request
-- ---------------------------------------------------------------------------

theorem outputReadsInto_of_fits (h : ∀ t ∈ dri, AtMost msMaxNameLength t) (pf : Platform)
    (mis : List LWMObject) (s : Device × UInt32) :
    mis.foldlM (outputReadStepInto pf dri) s = ofFault (mis.foldlM (outputReadStep pf dri) s) := by
  induction mis generalizing s with
  | nil => rfl
  | cons msid mis ih =>
    rw [List.foldlM_cons, List.foldlM_cons, outputReadStepInto_of_fits h, ofFault_bind]
    exact congrArg _ (funext ih)

theorem firstIdle_cons (services : List MicroService) (msid : LWMObject) (mis : List LWMObject) :
    (∃ ms, serviceOf services msid = some ms ∧ Idle ms ∧ firstIdle services (msid :: mis) = some ms) ∨
      (∀ ms ∈ serviceOf services msid, ¬ Idle ms) ∧
        firstIdle services (msid :: mis) = firstIdle services mis := by
  unfold firstIdle
  cases hms : serviceOf services msid with
  | none =>
    rw [List.filterMap_cons_none hms]
    exact .inr ⟨nofun, rfl⟩
  | some ms =>
    rw [List.filterMap_cons_some hms]
    by_cases hidle : Idle ms
    · exact .inl ⟨ms, rfl, hidle, List.find?_cons_of_pos (decide_eq_true hidle)⟩
    · refine .inr ⟨?_, List.find?_cons_of_neg fun h => hidle (of_decide_eq_true h)⟩
      rintro _ ⟨⟩
      exact hidle

/-- A text that does not fit is written behind an array exactly if a microservice of the
request takes it. -/
theorem outputReadsInto_of_long (hlong : ¬ AtMost msMaxNameLength t) (pf : Platform)
    (mis : List LWMObject) (s : Device × UInt32) :
    mis.foldlM (outputReadStepInto pf (some t)) s = .error .outOfBounds ↔
      ∃ ms ∈ firstIdle s.1.services mis, LwmsgQueues ms := by
  induction mis generalizing s with
  | nil => exact iff_of_false nofun nofun
  | cons msid mis ih =>
    rw [List.foldlM_cons]
    rcases firstIdle_cons s.1.services msid mis with ⟨ms, hms, hidle, hfirst⟩ | ⟨hnot, hfirst⟩
    · obtain ⟨e, he, hiff⟩ := outputReadStepInto_of_long hms hidle hlong pf
      rw [hfirst, he]
      simp only [Option.mem_def, Option.some.injEq, exists_eq_left']
      rw [← hiff]
      exact ⟨Except.error.inj, congrArg Except.error⟩
    · obtain ⟨s', hs', hservices⟩ := outputReadStepInto_of_not_idle hnot pf t
      rw [hfirst, hs', ← hservices]
      exact ih s'

theorem lwmsgOutputParamReadInto_iff (pf : Platform) (dri : Option Text) (d : Device)
    (msg : LWMessage) :
    lwmsgOutputParamReadInto pf dri d msg ≠ .error .outOfBounds ↔ DriFits dri d.services msg.body := by
  unfold lwmsgOutputParamReadInto DriFits
  cases hmis : getLwmObjectFromDict msg.body "mis".toList with
  | error e => exact iff_of_true nofun nofun
  | ok cmis =>
    have hother (h : ∀ mis, cmis ≠ some (.array mis)) : ∀ mis,
        (.ok cmis : Except Fault (Option LWMObject)) = .ok (some (.array mis)) →
          ∀ ms ∈ firstIdle d.services mis, LwmsgQueues ms → ∀ s ∈ dri, AtMost msMaxNameLength s :=
      fun mis heq => absurd (Except.ok.inj heq) (h mis)
    rcases cmis with _ | ⟨_⟩ | ⟨_⟩ | ⟨mis⟩ | ⟨_⟩
    · exact iff_of_true nofun (hother nofun)
    · exact iff_of_true nofun (hother nofun)
    · exact iff_of_true nofun (hother nofun)
    · change mis.foldlM (outputReadStepInto pf dri) (d, 400) ≠ .error .outOfBounds ↔ _
      by_cases hfits : ∀ t ∈ dri, AtMost msMaxNameLength t
      · rw [outputReadsInto_of_fits hfits]
        exact iff_of_true (ofFault_ne_outOfBounds _) fun _ _ _ _ _ => hfits
      · simp only [not_forall] at hfits
        obtain ⟨t, rfl, hlong⟩ := hfits
        rw [ne_eq, outputReadsInto_of_long hlong]
        constructor
        · rintro hnone mis' heq ms hms hqueues
          cases heq
          exact absurd ⟨ms, hms, hqueues⟩ hnone
        · rintro h ⟨ms, hms, hqueues⟩
          exact hlong (h mis rfl ms hms hqueues t rfl)
    · exact iff_of_true nofun (hother nofun)

theorem setConnectLinkInto_iff (ms : MicroService) (lines : List (Option ConnectLine)) (outputName : Text)
    (names : List Text) :
    Succeeds (setConnectLinkInto ms lines outputName names) ↔ OutputNameFits ms outputName names := by
  unfold setConnectLinkInto OutputNameFits
  cases onoffWalk ms names with
  | none => exact iff_of_true (succeeds_ok ms) fun h => absurd rfl h
  | some path =>
    dsimp only
    rw [succeeds_bind_of fun _ _ => succeeds_pure _]
    refine (strcpy_arrayOf_iff outputName _).trans ⟨fun h _ => h, fun h => h nofun⟩

theorem lwmsgOutputParamReadInto_of_fits (h : ∀ t ∈ dri, AtMost msMaxNameLength t) (pf : Platform)
    (d : Device) (msg : LWMessage) :
    lwmsgOutputParamReadInto pf dri d msg = ofFault (lwmsgOutputParamRead pf dri d msg) := by
  unfold lwmsgOutputParamReadInto lwmsgOutputParamRead
  rw [ofFault_bind]
  refine congrArg _ (funext fun cmis => ?_)
  rcases cmis with _ | ⟨_⟩ | ⟨_⟩ | ⟨mis⟩ | ⟨_⟩
  · rfl
  · rfl
  · rfl
  · exact outputReadsInto_of_fits h pf mis (d, 400)
  · rfl

theorem setConnectLinkInto_ok (h : setConnectLinkInto ms lines outputName names = .ok ms') :
    ms' = setConnectLink ms lines outputName names := by
  unfold setConnectLinkInto at h
  split at h
  · rename_i hnone
    cases h
    unfold setConnectLink
    rw [hnone]
  · obtain ⟨_, -, hset⟩ := bind_ok.mp h
    exact (pure_ok.mp hset).symm

/-- Both copies stay within their arrays exactly if the texts fit or are not copied. -/
theorem nameCopies_fit_iff (pf : Platform) (dri : Option Text) (d : Device) (msg : LWMessage)
    (ms : MicroService) (lines : List (Option ConnectLine)) (outputName : Text) (names : List Text) :
    (lwmsgOutputParamReadInto pf dri d msg ≠ .error .outOfBounds ∧
        Succeeds (setConnectLinkInto ms lines outputName names)) ↔
      DriFits dri d.services msg.body ∧ OutputNameFits ms outputName names :=
  and_congr (lwmsgOutputParamReadInto_iff pf dri d msg)
    (setConnectLinkInto_iff ms lines outputName names)

/-- A request for the output of a microservice, with a `dri` of 31 characters. -/
def longDriFrame : Text := "\x7bif=13;dri=0123456789012345678901234567890\x7d\x7bmis=[101]\x7d".toList

def idleDevice : Device := ⟨[[.create, .run (initAll false)].foldl lifecycleStep sampleSensor], []⟩

def sampleLinks : MicroService :=
  (makeMicroService "101".toList [.addNewTask (sampleTask "log".toList true),
    .addNewTask (sampleTask "sensor".toList false), .makeTaskLinks]).runCreate

def overruns : Except CopyFault α → Bool
  | .error .outOfBounds => true
  | .error (.fault _) => false
  | .ok _ => false

theorem overruns_iff {x : Except CopyFault α} : overruns x = true ↔ x = .error .outOfBounds := by
  constructor
  · intro h
    rcases x with (_ | _) | _
    · cases h
    · rfl
    · cases h
  · rintro rfl
    rfl

theorem ok_of_join_any {x : Except Fault (Option α)} {p : α → Bool} (h : x.toOption.join.any p = true) :
    ∃ a, x = .ok (some a) ∧ p a = true := by
  rcases x with _ | _ | a
  · cases h
  · cases h
  · exact ⟨a, rfl, h⟩

theorem nameCopies_overflow :
    (∃ msg cdri, longDriFrame.length ≤ 127 ∧
      parseLwmMessageStr (terminated longDriFrame) = .ok (some msg) ∧
      getLwmObjectFromDict msg.header "dri".toList = .ok (some cdri) ∧
      lwmsgOutputParamReadInto samplePlatform cdri.stringValue idleDevice msg = .error .outOfBounds) ∧
    ¬ Succeeds (setConnectLinkInto sampleLinks [] (List.replicate 30 'a') ["log".toList]) := by
  constructor
  · have hread : ((parseLwmMessageStr (terminated longDriFrame)).toOption.join.any fun msg =>
        (getLwmObjectFromDict msg.header "dri".toList).toOption.join.any fun cdri =>
          overruns (lwmsgOutputParamReadInto samplePlatform cdri.stringValue idleDevice msg)) =
        true := by
      decide +kernel
    obtain ⟨msg, hparse, hread⟩ := ok_of_join_any hread
    obtain ⟨cdri, hdri, hread⟩ := ok_of_join_any hread
    exact ⟨msg, cdri, by decide, hparse, hdri, overruns_iff.mp hread⟩
  · rw [setConnectLinkInto_iff]
    unfold OutputNameFits
    decide

end IoTware.Dist
