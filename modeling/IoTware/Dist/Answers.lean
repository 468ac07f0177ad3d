import IoTware.Dist.NullSafety

/-!
# One answer for a request

What a handler answers by itself, and what is left to the dispatcher. Each step
of a handler's loops has an outcome: whether it sends an answer, and whether it
leaves the mark 300 behind. The dispatcher answers unless the last one does.
-/

namespace IoTware.Dist

open CText LwMsg Micro Runs Loops

def Carries (dri : Text) (msg : LWMessage) : Prop :=
  getLwmObjectFromDict msg.header "dri".toList = .ok (some (.string (some dri)))

/-- Exactly one message was sent, and it carries the `dri`. -/
def OneAnswer (dri : Text) (d d' : Device) : Prop :=
  ∃ msg, d'.sendQueue = msg :: d.sendQueue ∧ Carries dri msg

structure Outcome where
  sent : Bool
  own : Bool
  deriving DecidableEq

def lastOwn (outcomes : List Outcome) : Bool := outcomes.getLast?.any Outcome.own

def SingleAnswer (outcomes : List Outcome) : Prop :=
  outcomes.countP Outcome.sent = if lastOwn outcomes then 1 else 0

instance (outcomes : List Outcome) : Decidable (SingleAnswer outcomes) :=
  inferInstanceAs (Decidable (_ = _))

/-- What the steps with these outcomes have sent, and the code they return. -/
structure Sent (dri : Text) (d : Device) (s : Device × UInt32) (outcomes : List Outcome) : Prop where
  messages : ∃ msgs, s.1.sendQueue = msgs ++ d.sendQueue ∧ (∀ msg ∈ msgs, Carries dri msg) ∧
    msgs.length = outcomes.countP Outcome.sent
  code : s.2 = 300 ↔ lastOwn outcomes = true

-- ---------------------------------------------------------------------------
-- Outcomes
-- ---------------------------------------------------------------------------

theorem Sent.start (dri : Text) (d : Device) (h : rsc ≠ 300) : Sent dri d (d, rsc) [] :=
  ⟨⟨[], rfl, fun _ hmsg => absurd hmsg List.not_mem_nil, rfl⟩, iff_of_false h Bool.false_ne_true⟩

theorem Sent.silent (h : Sent dri d s outcomes) (own : Bool) (hqueue : d'.sendQueue = s.1.sendQueue)
    (hown : rsc = 300 ↔ own = true) : Sent dri d (d', rsc) (outcomes ++ [⟨false, own⟩]) := by
  obtain ⟨⟨msgs, hmsgs, hall, hlength⟩, -⟩ := h
  refine ⟨⟨msgs, hqueue.trans hmsgs, hall, ?_⟩, ?_⟩
  · rw [List.countP_append, hlength]
    rfl
  · unfold lastOwn
    rw [List.getLast?_concat]
    exact hown

theorem Sent.answer (h : Sent dri d s outcomes) (hcarries : Carries dri msg)
    (hqueue : d'.sendQueue = msg :: s.1.sendQueue) :
    Sent dri d (d', 300) (outcomes ++ [⟨true, true⟩]) := by
  obtain ⟨⟨msgs, hmsgs, hall, hlength⟩, -⟩ := h
  refine ⟨⟨msg :: msgs, ?_, ?_, ?_⟩, ?_⟩
  · rw [hqueue, hmsgs]
    rfl
  · exact List.forall_mem_cons.mpr ⟨hcarries, hall⟩
  · rw [List.countP_append, List.length_cons, hlength]
    rfl
  · unfold lastOwn
    rw [List.getLast?_concat]
    exact iff_of_true rfl rfl

theorem newLwmRespMessage_carries (h : newLwmRespMessage (some dri) rsc = .ok msg) :
    Carries dri msg := by
  obtain ⟨msg', hmsg', -, hdri⟩ := newLwmRespMessage_ok dri rsc
  cases hmsg'.symm.trans h
  exact hdri

theorem oneAnswer_finishRequest (h : Sent dri d s outcomes) :
    (∃ d', finishRequest (some dri) s = .ok d' ∧ OneAnswer dri d d') ↔ SingleAnswer outcomes := by
  obtain ⟨⟨msgs, hmsgs, hall, hlength⟩, hcode⟩ := h
  unfold finishRequest SingleAnswer
  cases hown : lastOwn outcomes with
  | true =>
    rw [if_pos (hcode.mpr hown), ← hlength]
    constructor
    · rintro ⟨_, ⟨⟩, msg, hqueue, -⟩
      have hone : msgs = [msg] := List.append_cancel_right (hmsgs.symm.trans hqueue)
      rw [hone]
      rfl
    · intro hone
      obtain ⟨msg, rfl⟩ := List.length_eq_one_iff.mp hone
      exact ⟨s.1, rfl, msg, hmsgs, hall msg List.mem_cons_self⟩
  | false =>
    have hnot : s.2 ≠ 300 := fun h300 => Bool.false_ne_true (hown.symm.trans (hcode.mp h300))
    obtain ⟨res, hres⟩ := newLwmRespMessage_total (some dri) s.2
    rw [if_neg hnot, ← hlength]
    dsimp only
    rw [hres]
    constructor
    · rintro ⟨_, ⟨⟩, msg, hqueue, -⟩
      have hqueue : [res] ++ msgs ++ d.sendQueue = [msg] ++ d.sendQueue := by
        rw [List.append_assoc, ← hmsgs]
        exact hqueue
      have hlengths := congrArg List.length (List.append_cancel_right hqueue)
      exact Nat.succ.inj (by simpa using hlengths)
    · intro hnone
      obtain rfl := List.length_eq_zero_iff.mp hnone
      exact ⟨_, rfl, res, congrArg (res :: ·) hmsgs, newLwmRespMessage_carries hres⟩

-- ---------------------------------------------------------------------------
-- Handlers that return a code
-- ---------------------------------------------------------------------------

theorem badReq_ne : (400 : UInt32) ≠ 300 := by decide

theorem notFound_ne : (404 : UInt32) ≠ 300 := by decide

theorem operationStep_code (hs : s.2 ≠ 300) (h : operationStep inits interfaceId s msid = .ok s') :
    s'.2 ≠ 300 := by
  unfold operationStep at h
  split at h
  · cases h
    exact notFound_ne
  · simp only [bind_ok, pure_ok] at h
    obtain ⟨⟨ms, success⟩, -, rfl⟩ := h
    dsimp only
    split
    · decide
    · exact hs

theorem lwmsgOperation_code (h : lwmsgOperation inits interfaceId services msg = .ok s') :
    s'.2 ≠ 300 := by
  unfold lwmsgOperation at h
  rw [bind_ok] at h
  obtain ⟨mis, -, h⟩ := h
  split at h
  · exact foldlM_invariant (I := fun s => s.2 ≠ 300) (fun _ _ _ => operationStep_code) badReq_ne h
  · cases h
    exact badReq_ne

theorem paramSetTask_code {s' : MicroService × Bool × UInt32}
    (h : paramSetTask pf body s obj = .ok (s', stop)) : s'.2.2 ≠ 300 := by
  unfold paramSetTask at h
  rw [bind_ok] at h
  obtain ⟨fp, -, h⟩ := h
  split at h
  · cases h
    exact badReq_ne
  · simp only [bind_ok, pure_ok] at h
    obtain ⟨_, -, _, -, ⟨params, found⟩, -, heq⟩ := h
    cases heq
    dsimp only
    split <;> decide

theorem paramSetStep_code (hs : s.2 ≠ 300) (h : paramSetStep pf body s msid = .ok (s', stop)) :
    s'.2 ≠ 300 := by
  unfold paramSetStep at h
  split at h
  · cases h
    exact hs
  rw [bind_ok] at h
  obtain ⟨tis, -, h⟩ := h
  split at h
  · simp only [bind_ok, pure_ok] at h
    obtain ⟨⟨⟨ms, found, rsc⟩, returned⟩, hloop, heq⟩ := h
    cases heq
    exact (loop_invariant (I := fun s : MicroService × Bool × UInt32 => s.2.2 ≠ 300) (P := True)
      (fun _ _ _ _ _ h => ⟨paramSetTask_code h, fun _ => trivial⟩) hs hloop).1
  · cases h
    exact badReq_ne

theorem lwmsgParamSet_code (h : lwmsgParamSet pf services msg = .ok s') : s'.2 ≠ 300 := by
  unfold lwmsgParamSet at h
  rw [bind_ok] at h
  obtain ⟨mis, -, h⟩ := h
  split at h
  · split at h
    · simp only [bind_ok, pure_ok] at h
      obtain ⟨⟨s, stop⟩, hloop, rfl⟩ := h
      exact (loop_invariant (I := fun s => s.2 ≠ 300) (P := True)
        (fun _ _ _ _ hs h => ⟨paramSetStep_code hs h, fun _ => trivial⟩) badReq_ne hloop).1
    · cases h
      exact badReq_ne
  · cases h
    exact badReq_ne

theorem offloardingTask_code {s' : MicroService × UInt32}
    (h : offloardingTask onoff s obj = .ok (s', stop)) : s'.2 ≠ 300 := by
  obtain ⟨index, -, ⟨-, rfl, -⟩ | ⟨ti, -, -, -, hcode⟩⟩ := offloardingTask_inv h
  · exact notFound_ne
  · rw [hcode]
    split <;> decide

theorem offloardingStep_code (hs : s.2 ≠ 300) (h : offloardingStep onoff body s msid = .ok s') :
    s'.2 ≠ 300 := by
  unfold offloardingStep at h
  rw [bind_ok] at h
  obtain ⟨tis, -, h⟩ := h
  split at h
  · simp only [bind_ok, pure_ok] at h
    obtain ⟨⟨⟨ms, rsc⟩, stopped⟩, hloop, rfl⟩ := h
    exact (loop_invariant (I := fun s : MicroService × UInt32 => s.2 ≠ 300) (P := True)
      (fun _ _ _ _ _ h => ⟨offloardingTask_code h, fun _ => trivial⟩) hs hloop).1
  · cases h
    exact notFound_ne

theorem lwmsgOffloarding_code (h : lwmsgOffloarding onoff services msg = .ok s') : s'.2 ≠ 300 := by
  unfold lwmsgOffloarding at h
  rw [bind_ok] at h
  obtain ⟨mis, -, h⟩ := h
  split at h
  · split at h
    · exact foldlM_invariant (I := fun s => s.2 ≠ 300) (fun _ _ _ => offloardingStep_code)
        badReq_ne h
    · cases h
      exact badReq_ne
  · cases h
    exact badReq_ne

-- ---------------------------------------------------------------------------
-- Outputs
-- ---------------------------------------------------------------------------

/-- A request for the output with this `dri` is served. -/
def served (dri : Text) (ms : MicroService) : Bool :=
  ms.state = .running ∧ (isTasksRunning ms = true → ms.latestDri = dri)

/-- A microservice that is served leaves the mark, and an answer if it has a
value. -/
def outputOutcome (dri : Text) (ms : MicroService) : Outcome :=
  if served dri ms then ⟨ms.outputParam.value.isSome, true⟩ else ⟨false, false⟩

def outputOutcomes (dri : Text) (services : List MicroService) (mis : List LWMObject) : List Outcome :=
  mis.map fun msid => (serviceOf services msid).elim ⟨false, false⟩ (outputOutcome dri)

theorem outputOutcome_sendOutputRead (dri text : Text) (h : isTasksRunning ms = false) :
    outputOutcome dri (sendOutputRead ms text) = outputOutcome dri ms := by
  have hsame : isTasksRunning (sendOutputRead ms text) = isTasksRunning ms := rfl
  unfold outputOutcome served
  rw [hsame, h]
  simp [sendOutputRead]

theorem Sent.answerOutput (hsent : Sent dri d₀ s outcomes) (hqueue : d.sendQueue = s.1.sendQueue)
    (h : answerOutput pf (some dri) d param = .ok d') :
    Sent dri d₀ (d', 300) (outcomes ++ [⟨param.value.isSome, true⟩]) := by
  unfold Dist.answerOutput at h
  split at h
  · rename_i hnone
    cases h
    rw [hnone]
    exact hsent.silent true hqueue (iff_of_true rfl rfl)
  · rename_i value hsome
    simp only [bind_ok, pure_ok] at h
    obtain ⟨opDict, -, res, hres, res', hset, rfl⟩ := h
    rw [hsome]
    refine hsent.answer ?_ (congrArg (res' :: ·) hqueue)
    unfold Carries
    rw [setLwmBodyObject_header hset]
    exact newLwmRespMessage_carries hres

theorem outputReadStep_sent (hsent : Sent dri d s outcomes)
    (hview : SameView (outputOutcome dri) services s.1.services)
    (h : outputReadStep pf (some dri) s msid = .ok s') :
    Sent dri d s' (outcomes ++ [(serviceOf services msid).elim ⟨false, false⟩ (outputOutcome dri)]) := by
  unfold serviceOf
  obtain ⟨hinfo, rfl⟩ | ⟨ms', i, hinfo, h⟩ := outputReadStep_cases h
  · rw [hview.notFound hinfo]
    exact hsent.silent false rfl (by decide)
  obtain ⟨ms, hms, hsame⟩ := hview.found hinfo
  rw [hms, Option.map_some, Option.elim_some, ← hsame]
  unfold outputOutcome served
  obtain ⟨hnot, rfl⟩ | ⟨hrunning, text, d', htext, rfl, ⟨hlatest, hd'⟩ | ⟨htasks, hd'⟩⟩ := h
  · have hunserved : ¬ (ms'.state = .running ∧ (isTasksRunning ms' = true → ms'.latestDri = dri)) := by
      rintro ⟨hrunning, hlatest⟩
      obtain ⟨htasks, hne⟩ := hnot hrunning
      exact hne (congrArg some (hlatest htasks).symm)
    rw [if_neg (by simpa using hunserved)]
    exact hsent.silent false rfl (by decide)
  · cases htext
    rw [if_pos (by simp [hrunning, hlatest])]
    exact hsent.answerOutput rfl hd'
  · rw [if_pos (by simp [hrunning, htasks])]
    have hqueue : { s.1 with services := s.1.services.set i (sendOutputRead ms' text) }.sendQueue =
        s.1.sendQueue := rfl
    exact hsent.answerOutput hqueue hd'

theorem outputReads_sent (h : mis.foldlM (outputReadStep pf (some dri)) (d, 400) = .ok s') :
    Sent dri d s' (outputOutcomes dri d.services mis) := by
  refine (foldlM_history (I := fun mis s => Sent dri d s (outputOutcomes dri d.services mis) ∧
    SameView (outputOutcome dri) d.services s.1.services) ?_ ⟨.start dri d (by decide), .refl _ _⟩ h).1
  rintro mis s msid s' ⟨hsent, hview⟩ h
  refine ⟨?_, ?_⟩
  · have hstep := outputReadStep_sent hsent hview h
    unfold outputOutcomes at hstep ⊢
    rw [List.map_append]
    exact hstep
  · exact (outputReadStep_view (fun _ text hidle => outputOutcome_sendOutputRead dri text hidle) h).trans
      hview

-- ---------------------------------------------------------------------------
-- Parameters
-- ---------------------------------------------------------------------------

def lookup (dict : LWMDictionary) (key : Text) : Option LWMObject :=
  (getLwmObjectFromDict dict key).toOption.join

def lastFound (params : List Parameter) (names : List (Option Text)) : Bool :=
  names.getLast?.any fun name => (getParameterFromParamList params name).isSome

def namesFound (cfp csp : Option LWMObject) (ti : TaskInfo) : Bool :=
  (cfp.or csp).any fun cp => (paramNames cp).toOption.any fun names =>
    lastFound (if cfp.isSome then ti.flexibleParams else ti.staticParams) names

/-- The request for the task that an object of `tis` names is answered. -/
def taskAnswered (isAll : Bool) (cfp csp : Option LWMObject) (ms : MicroService) (obj : LWMObject) :
    Bool :=
  obj.stringValue.any fun text =>
    (getTaskInfoByIdx ms (atol text).toUInt32).any fun ti => isAll || namesFound cfp csp ti

def arrayItems : Option LWMObject → List LWMObject
  | some (.array items) => items
  | _ => []

def requestedTasks (body : LWMDictionary) : List LWMObject :=
  let tis := arrayItems (lookup body "tis".toList)
  if nodeNum tis = 1 ∧ ¬ ((lookup body "fps".toList).isSome ∧ (lookup body "sps".toList).isSome) then
    tis
  else []

def readOutcome (answered : Bool) : Outcome := ⟨answered, answered⟩

def readOutcomes (isAll : Bool) (services : List MicroService) (body : LWMDictionary)
    (msid : LWMObject) : List Outcome :=
  match serviceOf services msid with
  | none => [readOutcome false]
  | some ms =>
    if ms.state = .running then
      (requestedTasks body).map fun obj => readOutcome
        (taskAnswered isAll (lookup body "fps".toList) (lookup body "sps".toList) ms obj)
    else [readOutcome false]

theorem arrayItems_of_not {value : Option LWMObject}
    (h : ∀ items, value = some (.array items) → False) : arrayItems value = [] := by
  unfold arrayItems
  split
  · exact absurd rfl (h _)
  · rfl

theorem lookup_of_ok (h : getLwmObjectFromDict dict key = .ok value) : lookup dict key = value := by
  unfold lookup
  rw [h]
  rfl

theorem nameSteps_found {names : List (Option Text)} {s' : LWMDictionary × Bool}
    (h : names.foldlM (nameStep pf (some params)) ([], false) = .ok s') :
    s'.2 = lastFound params names := by
  refine foldlM_history (I := fun names s => s.2 = lastFound params names) ?_ rfl h
  intro names s name s' _ h
  unfold nameStep at h
  unfold lastFound
  rw [List.getLast?_concat]
  dsimp only at h
  split at h
  · rename_i hfind
    cases h
    simp [hfind]
  · rename_i param hfind
    simp only [bind_ok, pure_ok] at h
    obtain ⟨_, -, rfl⟩ := h
    simp [hfind]

theorem readAll_sent (hsent : Sent dri d s outcomes) (h : readAll pf (some dri) s.1 task = .ok s') :
    task.isSome = true ∧ Sent dri d s' (outcomes ++ [readOutcome true]) := by
  unfold readAll at h
  rw [bind_ok] at h
  obtain ⟨res, hres, h⟩ := h
  split at h
  · cases h
  · simp only [bind_ok, pure_ok] at h
    obtain ⟨fpDict, -, spDict, -, res₁, h₁, res₂, h₂, rfl⟩ := h
    refine ⟨rfl, hsent.answer ?_ rfl⟩
    unfold Carries
    rw [setLwmBodyObject_header h₂, setLwmBodyObject_header h₁]
    exact newLwmRespMessage_carries hres

theorem readNamed_sent (hsent : Sent dri d s outcomes)
    (h : readNamed pf ⟨some dri, isAll, cfp, csp⟩ s.1 task = .ok s') :
    Sent dri d s' (outcomes ++ [readOutcome (task.any (namesFound cfp csp))]) := by
  unfold readNamed at h
  split at h
  · cases h
  rename_i cp hcp
  simp only [bind_ok] at h
  obtain ⟨names, hnames, ⟨cpDict, found⟩, hloop, h⟩ := h
  have hfound : found = task.any (namesFound cfp csp) := by
    cases task with
    | none =>
      cases names with
      | nil =>
        cases hloop
        rfl
      | cons name names => cases hloop
    | some ti =>
      refine (nameSteps_found hloop).trans ?_
      unfold namesFound
      rw [hcp]
      simp only [Option.any_some, hnames]
      rfl
  rw [← hfound]
  dsimp only at h
  split at h
  · rename_i htrue
    simp only [bind_ok, pure_ok] at h
    obtain ⟨res, hres, res', hset, rfl⟩ := h
    rw [htrue]
    refine hsent.answer ?_ rfl
    unfold Carries
    rw [setLwmBodyObject_header hset]
    exact newLwmRespMessage_carries hres
  · rename_i hfalse
    cases h
    rw [Bool.eq_false_iff.mpr hfalse]
    exact hsent.silent false rfl (by decide)

theorem paramReadTask_sent (hsent : Sent dri d s outcomes)
    (h : paramReadTask pf ⟨some dri, isAll, cfp, csp⟩ ms s obj = .ok s') :
    Sent dri d s' (outcomes ++ [readOutcome (taskAnswered isAll cfp csp ms obj)]) := by
  unfold paramReadTask taskIndex at h
  unfold taskAnswered
  cases htext : obj.stringValue with
  | none =>
    rw [htext] at h
    cases h
  | some text =>
    rw [htext] at h
    dsimp only [atoi, bind, Except.bind, pure, Except.pure] at h
    rw [Option.any_some]
    cases isAll with
    | true =>
      obtain ⟨htask, hanswer⟩ := readAll_sent hsent h
      simpa [Option.any_true, htask] using hanswer
    | false => exact readNamed_sent hsent h

theorem Sent.idle (h : Sent dri d s outcomes) (hown : lastOwn outcomes = false)
    (hidle : ∀ o ∈ more, o = readOutcome false) :
    Sent dri d s (outcomes ++ more) ∧ lastOwn (outcomes ++ more) = false := by
  obtain ⟨⟨msgs, hmsgs, hall, hlength⟩, hcode⟩ := h
  have hnone : more.countP Outcome.sent = 0 := by
    rw [List.countP_eq_zero]
    intro o ho
    rw [hidle o ho]
    exact Bool.false_ne_true
  have hlast : lastOwn (outcomes ++ more) = false := by
    rcases List.eq_nil_or_concat more with rfl | ⟨front, o, rfl⟩
    · rw [List.append_nil]
      exact hown
    · unfold lastOwn
      rw [List.concat_eq_append, ← List.append_assoc, List.getLast?_concat, hidle o (by simp)]
      rfl
  refine ⟨⟨⟨msgs, hmsgs, hall, ?_⟩, ?_⟩, hlast⟩
  · rw [List.countP_append, hnone]
    exact hlength
  · rw [hcode, hown, hlast]

theorem readOutcomes_idle (h : requestedTasks body = []) :
    ∀ o ∈ readOutcomes isAll services body msid, o = readOutcome false := by
  intro o ho
  unfold readOutcomes at ho
  split at ho
  · exact List.mem_singleton.mp ho
  · split at ho
    · rw [h] at ho
      cases ho
    · exact List.mem_singleton.mp ho

theorem paramReadStep_sent (hsent : Sent dri d s outcomes)
    (h : paramReadStep pf isAll (some dri) body s msid = .ok (s', stop)) :
    stop = false ∧ Sent dri d s' (outcomes ++ readOutcomes isAll s.1.services body msid) ∨
      stop = true ∧ s' = s ∧ requestedTasks body = [] := by
  unfold readOutcomes serviceOf
  obtain ⟨hinfo, rfl, rfl⟩ | ⟨ms, i, hinfo, h⟩ := paramReadStep_cases h
  · rw [hinfo]
    exact .inl ⟨rfl, hsent.silent false rfl (by decide)⟩
  rw [hinfo, Option.map_some]
  dsimp only
  obtain ⟨hstate, rfl, rfl⟩ | ⟨hstate, cti, cfp, csp, hcti, hcfp, hcsp, h⟩ := h
  · rw [if_neg hstate]
    exact .inl ⟨rfl, hsent.silent false rfl (by decide)⟩
  rw [if_pos hstate]
  unfold requestedTasks
  rw [lookup_of_ok hcti, lookup_of_ok hcfp, lookup_of_ok hcsp]
  obtain ⟨hshape, rfl, rfl⟩ | ⟨tis, rfl, hshape, hloop, rfl⟩ := h
  · refine .inr ⟨rfl, rfl, ?_⟩
    unfold arrayItems
    split
    · rename_i tis
      exact if_neg (hshape tis rfl)
    · rfl
  · dsimp only [arrayItems]
    rw [if_pos hshape]
    refine .inl ⟨rfl, ?_⟩
    refine foldlM_history (I := fun tis s' => Sent dri d s' (outcomes ++ tis.map fun obj =>
      readOutcome (taskAnswered isAll cfp csp ms obj))) ?_ ?_ hloop
    · intro tis s obj s' hs h
      have hstep := paramReadTask_sent hs h
      rw [List.append_assoc] at hstep
      rw [List.map_append]
      exact hstep
    · rw [List.map_nil, List.append_nil]
      exact hsent

theorem paramReads_sent {mis : List LWMObject} (hsent : Sent dri d s outcomes)
    (hown : requestedTasks body = [] → lastOwn outcomes = false)
    (h : loop (paramReadStep pf isAll (some dri) body) s mis = .ok (s', stop)) :
    Sent dri d s' (outcomes ++ mis.flatMap (readOutcomes isAll s.1.services body)) := by
  induction mis generalizing s outcomes with
  | nil =>
    cases h
    rw [List.flatMap_nil, List.append_nil]
    exact hsent
  | cons msid mis ih =>
    rw [loop, bind_ok] at h
    obtain ⟨⟨s₁, stop₁⟩, h₁, hrest⟩ := h
    obtain ⟨rfl, hstep⟩ | ⟨rfl, rfl, hnone⟩ := paramReadStep_sent hsent h₁
    · have hall := ih hstep (fun hnone => ((hsent.idle (hown hnone)) (readOutcomes_idle hnone)).2) hrest
      have hservices : s₁.1.services = s.1.services := (paramReadStep_keeps h₁).1
      rw [hservices, List.append_assoc] at hall
      rw [List.flatMap_cons]
      exact hall
    · cases hrest
      refine (hsent.idle (hown hnone) ?_).1
      intro o ho
      obtain ⟨msid', -, ho⟩ := List.mem_flatMap.mp ho
      exact readOutcomes_idle hnone o ho

-- ---------------------------------------------------------------------------
-- The dispatcher
-- ---------------------------------------------------------------------------

theorem Sent.ofCode (h : s.2 ≠ 300) (hqueue : s.1.sendQueue = d.sendQueue) : Sent dri d s [] :=
  ⟨⟨[], hqueue, fun _ hmsg => absurd hmsg List.not_mem_nil, rfl⟩, iff_of_false h Bool.false_ne_true⟩

def paramReadOutcomes (isAll : Bool) (services : List MicroService) (body : LWMDictionary) :
    List Outcome :=
  let mis := arrayItems (lookup body "mis".toList)
  if nodeNum mis = 1 then mis.flatMap (readOutcomes isAll services body) else []

/-- The outcomes of the steps of a handler. One that returns a code only has
none. -/
def handlerOutcomes (interfaceId : LwmIf) (dri : Text) (services : List MicroService)
    (body : LWMDictionary) : List Outcome :=
  match interfaceId with
  | .devTaskInfoRequest => [⟨true, true⟩]
  | .msOutputParamRead => outputOutcomes dri services (arrayItems (lookup body "mis".toList))
  | .taskParamRead => paramReadOutcomes false services body
  | .taskParamReadAll => paramReadOutcomes true services body
  | .msCreation | .msRun | .msStop | .msDelete | .taskOn | .taskParamSet | .taskOff | .other => []

theorem lwmsgOutputParamRead_sent (h : lwmsgOutputParamRead pf (some dri) d msg = .ok s') :
    Sent dri d s' (outputOutcomes dri d.services (arrayItems (lookup msg.body "mis".toList))) := by
  unfold lwmsgOutputParamRead at h
  rw [bind_ok] at h
  obtain ⟨value, hmis, h⟩ := h
  rw [lookup_of_ok hmis]
  split at h
  · exact outputReads_sent h
  · rename_i hnot
    cases h
    rw [arrayItems_of_not hnot]
    exact .start dri d badReq_ne

theorem lwmsgParamRead_sent (h : lwmsgParamRead pf isAll (some dri) d msg = .ok s') :
    Sent dri d s' (paramReadOutcomes isAll d.services msg.body) := by
  unfold lwmsgParamRead at h
  rw [bind_ok] at h
  obtain ⟨value, hmis, h⟩ := h
  unfold paramReadOutcomes
  rw [lookup_of_ok hmis]
  split at h
  · rename_i mis
    dsimp only [arrayItems]
    split at h
    · rename_i hone
      simp only [bind_ok, pure_ok] at h
      obtain ⟨⟨s, stop⟩, hloop, rfl⟩ := h
      rw [if_pos hone]
      exact paramReads_sent (.start dri d badReq_ne) (fun _ => rfl) hloop
    · rename_i hmany
      cases h
      rw [if_neg hmany]
      exact .start dri d badReq_ne
  · rename_i hnot
    cases h
    rw [arrayItems_of_not hnot]
    exact .start dri d badReq_ne

theorem onServices_sent (dri : Text) {result : Except Fault (List MicroService × UInt32)}
    (hcode : ∀ s, result = .ok s → s.2 ≠ 300)
    (h : (do let (services, rsc) ← result; return ({ d with services := services }, rsc)) = .ok s') :
    Sent dri d s' [] := by
  simp only [bind_ok, pure_ok] at h
  obtain ⟨⟨services, rsc⟩, hresult, rfl⟩ := h
  exact .ofCode (hcode _ hresult) rfl

theorem handleRequest_sent (h : handleRequest pf inits interfaceId (some dri) d msg = .ok s') :
    Sent dri d s' (handlerOutcomes interfaceId dri d.services msg.body) := by
  unfold handleRequest at h
  cases interfaceId with
  | devTaskInfoRequest =>
    simp only [bind_ok, pure_ok] at h
    obtain ⟨⟨services, res⟩, hreport, rfl⟩ := h
    obtain ⟨resp, hresp, hbody, hdri⟩ := newLwmRespMessage_ok dri 200
    obtain ⟨services', res', hreport', hheader⟩ := makeDeviceInformationLwmsg2_ok pf d.services hresp hbody
    cases hreport'.symm.trans (Pointers.makeDeviceInformationLwmsg2_ok hreport)
    have hcarries : Carries dri res := by
      unfold Carries
      rw [hheader]
      exact hdri
    exact (Sent.start dri d badReq_ne).answer hcarries rfl
  | msCreation | msRun | msStop | msDelete =>
    exact onServices_sent dri (fun _ h => lwmsgOperation_code h) h
  | taskParamSet => exact onServices_sent dri (fun _ h => lwmsgParamSet_code h) h
  | taskParamRead | taskParamReadAll => exact lwmsgParamRead_sent h
  | msOutputParamRead => exact lwmsgOutputParamRead_sent h
  | taskOn | taskOff => exact onServices_sent dri (fun _ h => lwmsgOffloarding_code h) h
  | other =>
    cases h
    exact .start dri d badReq_ne

/-- A request with the texts of its `if` and `dri` gets exactly one answer if and
only if it meets no fault, the entries of its header are counted, and the
outcomes of its handler make one answer. -/
theorem lwmsgDist_oneAnswer_iff (hrun : ServicesRun services₀ run d.services)
    (h₀ : Registered services₀) (pf : Platform) (inits : Nat → Inits)
    (hif : getLwmObjectFromDict msg.header "if".toList = .ok (some (.string (some textIf))))
    (hdri : getLwmObjectFromDict msg.header "dri".toList = .ok (some (.string (some dri)))) :
    (∃ d', lwmsgDist pf inits d msg = .ok d' ∧ OneAnswer dri d d') ↔
      NullSafe pf inits d.services msg ∧ nodeNum msg.header > 0 ∧
        SingleAnswer (handlerOutcomes (.ofInt (atol textIf)) dri d.services msg.body) := by
  rw [← lwmsgDist_nullSafe_iff hrun h₀]
  by_cases hheader : nodeNum msg.header > 0
  · have hdist : lwmsgDist pf inits d msg =
        getLwmObjectFromDict msg.header "rsc".toList >>= fun _ =>
          handleRequest pf inits (.ofInt (atol textIf)) (some dri) d msg >>= finishRequest (some dri) := by
      unfold lwmsgDist
      rw [if_pos hheader, hif, hdri]
      rfl
    constructor
    · rintro ⟨d', h, hone⟩
      refine ⟨⟨d', h⟩, hheader, ?_⟩
      simp only [hdist, bind_ok] at h
      obtain ⟨_, -, s, hhandle, hfinish⟩ := h
      exact (oneAnswer_finishRequest (handleRequest_sent hhandle)).mp ⟨d', hfinish, hone⟩
    · rintro ⟨⟨d', h⟩, -, hsingle⟩
      refine ⟨d', h, ?_⟩
      simp only [hdist, bind_ok] at h
      obtain ⟨_, -, s, hhandle, hfinish⟩ := h
      obtain ⟨d'', hfinish', hone⟩ := (oneAnswer_finishRequest (handleRequest_sent hhandle)).mpr hsingle
      cases hfinish'.symm.trans hfinish
      exact hone
  · refine iff_of_false ?_ fun h => hheader h.2.1
    rintro ⟨d', h, msg', hqueue, -⟩
    unfold lwmsgDist at h
    rw [if_neg hheader] at h
    cases h
    exact absurd (congrArg List.length hqueue) (by simp)

def sampleOutputRead : LWMessage where
  header := [(some "dri".toList, .string (some "1".toList)), (some "if".toList, .string (some "13".toList))]
  body := [(some "mis".toList, .array [.string (some "101".toList)])]

/-- A running sensor that has no output yet leaves the request without an
answer. -/
theorem output_read_unanswered :
    ¬ ∀ services₀ run (d : Device), ServicesRun services₀ run d.services → Registered services₀ →
      ∀ pf inits (msg : LWMessage) textIf dri,
        getLwmObjectFromDict msg.header "if".toList = .ok (some (.string (some textIf))) →
        getLwmObjectFromDict msg.header "dri".toList = .ok (some (.string (some dri))) →
        ∃ d', lwmsgDist pf inits d msg = .ok d' ∧ OneAnswer dri d d' := by
  intro h
  have hnone : (match lwmsgDist samplePlatform (fun _ => initAll false)
        (sampleDevice [.service 0 .create, .service 0 (.run (initAll false))]) sampleOutputRead with
      | .ok d' => d'.sendQueue.isEmpty
      | .error _ => false) = true := by
    decide
  obtain ⟨d', hdist, msg, hqueue, -⟩ := h _ _ _ (sampleDevice_run _) registered_sampleSensor
    samplePlatform (fun _ => initAll false) sampleOutputRead _ _ rfl rfl
  rw [hdist] at hnone
  dsimp only at hnone
  rw [hqueue] at hnone
  cases hnone

theorem output_read_answered :
    ∃ d', lwmsgDist samplePlatform (fun _ => initAll false)
        (sampleDevice [.service 0 .create, .service 0 (.run (initAll false)),
          .service 0 (.outputValue .int32 [1, 0, 0, 0])]) sampleOutputRead = .ok d' ∧
      OneAnswer "1".toList
        (sampleDevice [.service 0 .create, .service 0 (.run (initAll false)),
          .service 0 (.outputValue .int32 [1, 0, 0, 0])]) d' := by
  refine (lwmsgDist_oneAnswer_iff (sampleDevice_run _) registered_sampleSensor _ _ rfl rfl).mpr
    ⟨fun _ => ?_, by decide, by decide⟩
  refine ⟨_, rfl, _, rfl, _, rfl, ?_⟩
  rintro _ ⟨⟩ _ ⟨⟩
  refine ⟨_, rfl, _, rfl, ?_⟩
  rintro _ ⟨⟩ _ _ _ _ _
  exact Option.some_ne_none _

end IoTware.Dist
