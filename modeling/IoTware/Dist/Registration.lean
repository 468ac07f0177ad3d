import IoTware.Dist.AnswerOrder
import IoTware.LwMsg.Frames

/-!
# The registration with the server

The system from its start on, with the counter that `get_lwm_tx_dri` takes the `dri` of
a request from. As long as the counter does not come round, no two requests have the same
`dri`. So where the network hands over an answer only after a request with its `dri` was
sent, the answers that make a device a registered one are answers to its own requests.
-/

namespace IoTware.Dist

open CText LwMsg Micro Loops Runs

-- ---------------------------------------------------------------------------
-- The dri of a request
-- ---------------------------------------------------------------------------

def maxTxDri : Nat := 99999900

/-- `get_lwm_tx_dri`: the text it returns, and `lwmsg_tx_dri` behind the call. -/
def getLwmTxDri (lwmsgTxDri : Int) : Text × Int :=
  ((toString lwmsgTxDri).toList, if lwmsgTxDri + 1 > maxTxDri then 1 else lwmsgTxDri + 1)

/-- The system, and `lwmsg_tx_dri`. -/
structure Numbered where
  system : System
  lwmsgTxDri : Int

def startUp (services : List MicroService) : Numbered := ⟨powerUp services, 1⟩

/-- The request that is made in the step: one of another task, or the device information
that `iw_fw_lwMsgTx` makes when the registration is answered. -/
def made (x : System × Event) : Option LWMessage :=
  match x.2 with
  | .request msg _ => some msg
  | .txRead dri _ =>
    match x.1.tx with
    | .requesting req _ (.unread m) =>
      match onResponse req m.msg with
      | .ok (some (.registered di)) =>
        match makeDeviceInformationLwmsg x.1.services 2 (some dri) (some di) with
        | .ok (_, info) => some info
        | .error _ => none
      | _ => none
    | _ => none
  | _ => none

def HasDri (dri : Text) (msg : LWMessage) : Prop :=
  stringUnder msg.header "dri".toList = .ok (some dri)

/-- A step that makes a request takes its `dri` from `GET_LWM_TX_DRI`. -/
inductive NumberedStep : Numbered → Event → Numbered → Prop
  | draw : Step d.system e s → made (d.system, e) = some msg →
      HasDri (getLwmTxDri d.lwmsgTxDri).1 msg → NumberedStep d e ⟨s, (getLwmTxDri d.lwmsgTxDri).2⟩
  | other : Step d.system e s → made (d.system, e) = none → NumberedStep d e ⟨s, d.lwmsgTxDri⟩

abbrev NumberedRun := List (Numbered × Event)

def issued (run : NumberedRun) : List LWMessage := run.filterMap fun x => made (x.1.system, x.2)

theorem NumberedStep.system (h : NumberedStep d e d') : Step d.system e d'.system := by
  cases h with
  | draw hs => exact hs
  | other hs => exact hs

theorem run_system (hrun : Run NumberedStep (startUp services) run d) :
    Run Step (powerUp services) (run.map fun x => (x.1.system, x.2)) d.system := by
  induction hrun with
  | start => exact .start
  | step _ hs ih =>
    rw [List.map_append]
    exact ih.step hs.system

-- ---------------------------------------------------------------------------
-- The requests are told apart
-- ---------------------------------------------------------------------------

theorem issued_append (run run' : NumberedRun) : issued (run ++ run') = issued run ++ issued run' :=
  List.filterMap_append

theorem issued_snoc (run : NumberedRun) (x : Numbered × Event) :
    issued (run ++ [x]) = issued run ++ (made (x.1.system, x.2)).toList := by
  rw [issued_append]
  simp only [issued, List.filterMap_cons, List.filterMap_nil]
  cases made (x.1.system, x.2) <;> rfl

def driText (k : Nat) : Text := (getLwmTxDri (k % maxTxDri + 1 : Nat)).1

theorem getLwmTxDri_next (k : Nat) :
    (getLwmTxDri (k % maxTxDri + 1 : Nat)).2 = ((k + 1) % maxTxDri + 1 : Nat) := by
  unfold getLwmTxDri maxTxDri
  by_cases hlast : ((k % 99999900 + 1 : Nat) : Int) + 1 > (99999900 : Nat)
  · rw [if_pos hlast]
    omega
  · rw [if_neg hlast]
    omega

theorem getLwmTxDri_text (k : Nat) : (getLwmTxDri k).1 = Nat.toDigits 10 k :=
  Numerals.toList_toString_ofNat k

theorem hasDri_getLwmTxDri (k : Nat) (h : HasDri (Nat.toDigits 10 k) msg) :
    HasDri (getLwmTxDri k).1 msg :=
  getLwmTxDri_text k ▸ h

theorem driText_eq (k : Nat) : driText k = Nat.toDigits 10 (k % maxTxDri + 1) := getLwmTxDri_text _

theorem driText_inj (hj : j < maxTxDri) (hk : k < maxTxDri) (h : driText j = driText k) : j = k := by
  rw [driText_eq, driText_eq, Nat.mod_eq_of_lt hj, Nat.mod_eq_of_lt hk] at h
  have hvalue := congrArg Numerals.natValue h
  rw [Numerals.natValue_toDigits, Numerals.natValue_toDigits] at hvalue
  exact Nat.succ.inj (Option.some.inj hvalue)

structure Counted (run : NumberedRun) (d : Numbered) : Prop where
  counter : d.lwmsgTxDri = ((issued run).length % maxTxDri + 1 : Nat)
  dri : ∀ k msg, (issued run)[k]? = some msg → HasDri (driText k) msg

theorem counted (hrun : Run NumberedStep (startUp services) run d) : Counted run d := by
  induction hrun with
  | start => exact ⟨rfl, nofun⟩
  | @step run d e _ _ hs ih =>
    cases hs with
    | draw _ hmade hdri =>
      rw [ih.counter] at hdri
      refine ⟨?_, fun k msg hk => ?_⟩
      · simp only [ih.counter, getLwmTxDri_next, issued_snoc, hmade]
        simp
      · rw [issued_snoc, hmade] at hk
        rcases Nat.lt_trichotomy k (issued run).length with hlt | rfl | hgt
        · rw [List.getElem?_append_left hlt] at hk
          exact ih.dri k msg hk
        · rw [List.getElem?_append_right (Nat.le_refl _), Nat.sub_self] at hk
          cases hk
          exact hdri
        · rw [List.getElem?_eq_none (by simpa [Nat.succ_le_iff] using hgt)] at hk
          cases hk
    | other _ hmade =>
      have hsame : issued (run ++ [(d, e)]) = issued run := by simp [issued_snoc, hmade]
      exact ⟨hsame ▸ ih.counter, hsame ▸ ih.dri⟩

theorem issued_unique (hrun : Run NumberedStep (startUp services) run d)
    (hround : (issued run).length ≤ maxTxDri) (hmsg : msg ∈ issued run) (hmsg' : msg' ∈ issued run)
    (hdri : HasDri dri msg) (hdri' : HasDri dri msg') : msg = msg' := by
  obtain ⟨j, hj⟩ := List.mem_iff_getElem?.mp hmsg
  obtain ⟨k, hk⟩ := List.mem_iff_getElem?.mp hmsg'
  have hdris := (counted hrun).dri
  have hlt {i m} (hget : (issued run)[i]? = some m) : i < maxTxDri :=
    Nat.lt_of_lt_of_le (List.getElem?_eq_some_iff.mp hget).1 hround
  have htext {i m} (hget : (issued run)[i]? = some m) (hm : HasDri dri m) : driText i = dri := by
    have := (hdris i m hget).symm.trans hm
    simpa using this
  obtain rfl := driText_inj (hlt hj) (hlt hk) ((htext hj hdri).trans (htext hk hdri').symm)
  exact Option.some.inj (hj.symm.trans hk)

-- ---------------------------------------------------------------------------
-- What the network sees, and what is read
-- ---------------------------------------------------------------------------

def Posts (req : TxRequest) (x : Numbered × Event) : Prop :=
  ∃ i, x.1.system.tx = .requesting req (.posting i) .nothing ∧ x.2 = .txSend true

def Arrives (msg : LWMessage) (x : Numbered × Event) : Prop :=
  ∃ buffer, x.2 = .rxReceive buffer ∧ parseLwmMessageStr buffer = .ok (some msg)

/-- `iw_fw_lwMsgTx` reads the message while the request is pending. -/
def Reads (req : TxRequest) (msg : LWMessage) (x : Numbered × Event) : Prop :=
  ∃ phase m dri taken, x.1.system.tx = .requesting req phase (.unread m) ∧ m.msg = msg ∧
    x.2 = .txRead dri taken

/-- The network hands over an answer of code 200 only after a request with its `dri` was
given to it. -/
def Honest (run : NumberedRun) : Prop :=
  ∀ before x after msg dri, run = before ++ x :: after → Arrives msg x → Succeeds msg →
    HasDri dri msg → ∃ y ∈ before, ∃ req, Posts req y ∧ req.sendDri = some dri

/-- The message is the device information under the `di`. -/
def IsInformation (di : Text) (msg : LWMessage) : Prop :=
  ∃ services services' dri,
    makeDeviceInformationLwmsg services 2 (some dri) (some di) = .ok (services', msg)

structure Exchange (interfaceId : UInt32) (req : TxRequest) (msg : LWMessage) : Prop where
  sendIf : req.sendIf = interfaceId
  carries : LwMsg.Carries req msg
  succeeds : LwMsg.Succeeds msg

def exchange (req : TxRequest) (msg : LWMessage) : List (Numbered × Event → Prop) :=
  [Posts req, Arrives msg, Reads req msg]

/-- The registration was sent, and the server answered it with the `di`. -/
def RegisteredAs (di : Text) (run : NumberedRun) : Prop :=
  ∃ req msg, Exchange 1 req msg ∧ stringUnder msg.body "di".toList = .ok (some di) ∧
    Successive (exchange req msg) run

theorem RegisteredAs.append (h : RegisteredAs di run) (x : Numbered × Event) :
    RegisteredAs di (run ++ [x]) := by
  obtain ⟨req, msg, hexchange, hdi, hrun⟩ := h
  exact ⟨req, msg, hexchange, hdi, hrun.mono (List.sublist_append_left run [x])⟩

theorem Honest.before (h : Honest (first ++ rest)) : Honest first := by
  rintro before x after msg dri rfl
  exact h before x (after ++ rest) msg dri (by simp)

-- ---------------------------------------------------------------------------
-- The requests and the answers that are under way
-- ---------------------------------------------------------------------------

/-- The request was made, the device information only after the registration was answered
with the `di` that is in it. -/
structure Requested (run : NumberedRun) (msg : LWMessage) : Prop where
  issued : msg ∈ issued run
  information : getLwmInterfaceId msg = .ok 2 → ∃ di, IsInformation di msg ∧ RegisteredAs di run

theorem Requested.append (h : Requested run msg) (x : Numbered × Event) : Requested (run ++ [x]) msg where
  issued := by
    rw [issued_append]
    exact List.mem_append_left _ h.issued
  information hif := by
    obtain ⟨di, hinfo, hregistered⟩ := h.information hif
    exact ⟨di, hinfo, hregistered.append x⟩

def Polled.message : Polled → Option Parsed
  | .nothing => none
  | .unread m | .read m => some m

def TxTask.polled : TxTask → Option Parsed
  | .requesting _ _ polled => polled.message
  | _ => none

def RxTask.answer : RxTask → Option Parsed
  | .parsed m | .response m => some m
  | _ => none

def System.answers (s : System) : List Parsed :=
  s.rx.answer.toList ++ s.respQueue.getD [] ++ s.tx.polled.toList

theorem mem_answers {s : System} : m ∈ s.answers ↔
    s.rx.answer = some m ∨ m ∈ s.respQueue.getD [] ∨ s.tx.polled = some m := by
  simp [System.answers]

structure Followed (run : NumberedRun) (s : System) : Prop where
  queued : ∀ msg ∈ s.sendQueue, ¬IsResponse msg → Requested run msg
  pending : ∀ req phase polled, s.tx = .requesting req phase polled →
    ∃ msg, Requested run msg ∧ txRequest msg = .ok (some req)
  posted : ∀ x ∈ run, ∀ req, Posts req x → ∃ msg ∈ Dist.issued run, txRequest msg = .ok (some req)
  answers : ∀ m ∈ s.answers, ∃ x ∈ run, Arrives m.msg x

theorem txRequest_not_response (h : txRequest msg = .ok (some req)) : ¬IsResponse msg := by
  simp only [txRequest, bind_ok] at h
  obtain ⟨cif, hcif, _, -, _, -, h⟩ := h
  split at h
  · rename_i hsome
    intro hresponse
    cases hresponse.symm.trans hcif
    exact absurd hsome.1 Bool.false_ne_true
  · cases h

theorem txRequest_dri (h : txRequest msg = .ok (some req)) :
    stringUnder msg.header "dri".toList = .ok req.sendDri := by
  simp only [txRequest, bind_ok] at h
  obtain ⟨_, -, cdri, hcdri, _, -, h⟩ := h
  split at h
  · simp only [bind_ok, pure_ok] at h
    obtain ⟨_, -, heq⟩ := h
    cases heq
    simp only [stringUnder, bind_ok, pure_ok]
    exact ⟨cdri, hcdri, rfl⟩
  · cases h

theorem txBranch_cases (h : txBranch msg = .ok tx) :
    (∃ req, txRequest msg = .ok (some req) ∧ tx = .requesting req (attempt req 0) .nothing) ∨
      (∃ frame, tx = .responding frame) ∨ tx = .finishing := by
  simp only [txBranch, bind_ok] at h
  obtain ⟨request, hrequest, h⟩ := h
  cases request with
  | some req =>
    cases h
    exact .inl ⟨req, hrequest, rfl⟩
  | none =>
    simp only [bind_ok] at h
    obtain ⟨_, -, _, -, _, -, h⟩ := h
    split at h
    · cases h
      exact .inr (.inl ⟨_, rfl⟩)
    · cases h
      exact .inr (.inr rfl)

theorem Followed.append (h : Followed run d.system) (e : Event) : Followed (run ++ [(d, e)]) d.system where
  queued msg hmsg hrequest := (h.queued msg hmsg hrequest).append _
  pending req phase polled htx := by
    obtain ⟨msg, hmsg, hreq⟩ := h.pending req phase polled htx
    exact ⟨msg, hmsg.append _, hreq⟩
  posted := by
    intro x hx req hpost
    rw [issued_append]
    rcases List.mem_append.mp hx with hx | hx
    · obtain ⟨msg, hmsg, hreq⟩ := h.posted x hx req hpost
      exact ⟨msg, List.mem_append_left _ hmsg, hreq⟩
    · obtain rfl := List.mem_singleton.mp hx
      obtain ⟨i, htx, -⟩ := hpost
      obtain ⟨msg, hmsg, hreq⟩ := h.pending _ _ _ htx
      exact ⟨msg, List.mem_append_left _ hmsg.issued, hreq⟩
  answers m hm := by
    obtain ⟨x, hx, harrives⟩ := h.answers m hm
    exact ⟨x, List.mem_append_left _ hx, harrives⟩

theorem Followed.quiet (h : Followed run s)
    (hqueue : ∀ msg ∈ s'.sendQueue, msg ∈ s.sendQueue ∨ IsResponse msg)
    (hpending : ∀ req phase polled, s'.tx = .requesting req phase polled →
      ∃ phase polled, s.tx = .requesting req phase polled)
    (hanswers : s'.answers ⊆ s.answers) : Followed run s' where
  queued msg hmsg hrequest :=
    h.queued msg ((hqueue msg hmsg).resolve_right hrequest) hrequest
  pending req phase polled htx := by
    obtain ⟨phase', polled', htx'⟩ := hpending req phase polled htx
    exact h.pending req phase' polled' htx'
  posted := h.posted
  answers m hm := h.answers m (hanswers hm)

theorem Followed.put_request (h : Followed run s) (hmsg : Requested run msg) (taken : Bool)
    (hqueue : s'.sendQueue = put s.sendQueue msg taken) (htx : s'.tx = s.tx)
    (hanswers : s'.answers = s.answers) : Followed run s' where
  queued msg' hmsg' hrequest := by
    rw [hqueue] at hmsg'
    rcases mem_put hmsg' with hold | rfl
    · exact h.queued msg' hold hrequest
    · exact hmsg
  pending := htx ▸ h.pending
  posted := h.posted
  answers := hanswers ▸ h.answers

theorem Followed.effect (h : Followed run s) (heffect : txEffect dri taken s phase = .ok s')
    (hinfo : ∀ di services info, phase = .broken (.registered di) →
      makeDeviceInformationLwmsg s.services 2 (some dri) (some di) = .ok (services, info) →
      Requested run info) : Followed run s' ∧ s'.tx = s.tx := by
  unfold txEffect at heffect
  split at heffect
  · simp only [bind_ok, pure_ok] at heffect
    obtain ⟨⟨services, info⟩, hmake, rfl⟩ := heffect
    exact ⟨h.put_request (hinfo _ _ _ rfl hmake) taken rfl rfl rfl, rfl⟩
  · cases heffect
    exact ⟨h.quiet (fun _ hmsg => .inl hmsg) (fun _ _ _ htx => ⟨_, _, htx⟩) (List.Subset.refl _), rfl⟩
  · cases heffect
    exact ⟨h, rfl⟩

theorem rxBranch_answer (h : rxBranch registered m = .ok rx) : ∀ m' ∈ rx.answer, m' = m := by
  simp only [rxBranch, bind_ok] at h
  obtain ⟨_, -, _, -, h⟩ := h
  split at h
  · cases h
    simp [RxTask.answer]
  split at h <;> cases h <;> exact nofun

theorem requested_information (htx : d.system.tx = .requesting req phase (.unread m))
    (hresponse : onResponse req m.msg = .ok (some (.registered di)))
    (hinfo : makeDeviceInformationLwmsg d.system.services 2 (some dri) (some di) = .ok (services, info))
    (hregistered : RegisteredAs di (run ++ [(d, .txRead dri taken)])) :
    Requested (run ++ [(d, .txRead dri taken)]) info where
  issued := by
    rw [issued_snoc]
    simp [made, htx, hresponse, hinfo]
  information _ := ⟨di, ⟨_, _, _, hinfo⟩, hregistered⟩

theorem Followed.step (h : Followed run d.system)
    (hresponding : ∀ m msgs, d.system.dist = .answering m msgs → ∀ msg ∈ msgs, IsResponse msg)
    (hregistered : ∀ req phase m di dri taken, d.system.tx = .requesting req phase (.unread m) →
      onResponse req m.msg = .ok (some (.registered di)) → e = .txRead dri taken →
      RegisteredAs di (run ++ [(d, e)]))
    (hs : Step d.system e s') : Followed (run ++ [(d, e)]) s' := by
  have hrun := h.append e
  have hsame {s' : System} (hqueue : s'.sendQueue = d.system.sendQueue) (htx : s'.tx = d.system.tx)
      (hanswers : s'.answers ⊆ d.system.answers) : Followed (run ++ [(d, e)]) s' :=
    hrun.quiet (fun msg hmsg => .inl (hqueue ▸ hmsg)) (fun _ _ _ hpending => ⟨_, _, htx ▸ hpending⟩) hanswers
  cases hs with
  | rxNull => exact hrun
  | rxParse hrx hparse =>
    refine { hrun with answers := fun m hm => ?_ }
    rcases mem_answers.mp hm with ⟨⟨⟩⟩ | hm
    · exact ⟨_, List.mem_append_right _ (List.mem_singleton_self _), _, rfl, hparse⟩
    · exact hrun.answers m (mem_answers.mpr (.inr hm))
  | rxBranch hrx hbranch =>
    refine hsame rfl rfl fun m hm => mem_answers.mpr ?_
    rcases mem_answers.mp hm with hm | hm
    · obtain rfl := rxBranch_answer hbranch m hm
      exact .inl (congrArg RxTask.answer hrx)
    · exact .inr hm
  | rxRespond hrx =>
    refine hsame rfl rfl fun m hm => mem_answers.mpr ?_
    rcases mem_answers.mp hm with hm | hm | hm
    · cases hm
    · cases hqueue : d.system.respQueue with
      | none => exact absurd hm (by simp [hqueue])
      | some queue =>
        simp only [hqueue, Option.map_some, Option.getD_some] at hm
        rcases mem_put hm with hold | rfl
        · exact .inr (.inl hold)
        · exact .inl (congrArg RxTask.answer hrx)
    · exact .inr (.inr hm)
  | rxRequest hrx =>
    refine hsame rfl rfl ?_
    cases ‹Bool› <;> simp [System.answers, hrx, RxTask.answer]
  | rxDelete hrx => exact hsame rfl rfl (by simp [System.answers, hrx, RxTask.answer])
  | distReceive | distHandle | distFinish | run => exact hsame rfl rfl (List.Subset.refl _)
  | distSend hdist =>
    refine hrun.quiet (fun msg hmsg => ?_) (fun _ _ _ hpending => ⟨_, _, hpending⟩) (List.Subset.refl _)
    rcases mem_put hmsg with hold | rfl
    · exact .inl hold
    · exact .inr (hresponding _ _ hdist _ List.mem_cons_self)
  | txStart htx =>
    refine hrun.quiet (fun _ hmsg => .inl hmsg) nofun ?_
    cases hqueue : d.system.respQueue <;> simp [System.answers, hqueue, TxTask.polled]
  | txReceive htx hqueue hbranch =>
    have hqueued : ∀ msg ∈ _, ¬IsResponse msg → Requested (run ++ [(d, .txReceive)]) msg := fun msg hmsg =>
      hrun.queued msg (hqueue ▸ List.mem_cons_of_mem _ hmsg)
    rcases txBranch_cases hbranch with ⟨req, hreq, rfl⟩ | ⟨frame, rfl⟩ | rfl
    · refine ⟨hqueued, ?_, hrun.posted, ?_⟩
      · rintro _ _ _ ⟨⟩
        exact ⟨_, hrun.queued _ (hqueue ▸ List.mem_cons_self) (txRequest_not_response hreq), hreq⟩
      · intro m hm
        refine hrun.answers m ?_
        simpa [mem_answers, htx, TxTask.polled, Polled.message] using hm
    · refine ⟨hqueued, nofun, hrun.posted, fun m hm => hrun.answers m ?_⟩
      simpa [mem_answers, htx, TxTask.polled] using hm
    · refine ⟨hqueued, nofun, hrun.posted, fun m hm => hrun.answers m ?_⟩
      simpa [mem_answers, htx, TxTask.polled] using hm
  | txPost htx | txPollNothing htx | txDelete htx =>
    refine hrun.quiet (fun _ hmsg => .inl hmsg) ?_ ?_
    · rintro req phase polled ⟨⟩
      exact ⟨_, _, htx⟩
    · simp [System.answers, htx, TxTask.polled, Polled.message]
  | txRespond htx | txLeave htx | txFinish htx =>
    refine hrun.quiet (fun _ hmsg => .inl hmsg) nofun ?_
    simp [System.answers, htx, TxTask.polled]
  | txPoll htx hqueue =>
    refine hrun.quiet (fun _ hmsg => .inl hmsg) ?_ ?_
    · rintro req phase polled ⟨⟩
      exact ⟨_, _, htx⟩
    · simp [System.answers, htx, hqueue, TxTask.polled, Polled.message]
  | @txRead req phase phase' dri taken _ s₁ m htx hstep heffect =>
    obtain ⟨hfollowed, htx₁⟩ := hrun.effect heffect fun di services info hphase hinfo => by
      have hresponse := (hphase ▸ hstep).read_response
      exact requested_information htx hresponse hinfo (hregistered _ _ _ _ _ _ htx hresponse rfl)
    rw [htx] at htx₁
    refine hfollowed.quiet (fun _ hmsg => .inl hmsg) ?_ ?_
    · rintro req phase polled ⟨⟩
      exact ⟨_, _, htx₁⟩
    · simp [System.answers, htx₁, TxTask.polled, Polled.message]
  | request =>
    refine hrun.put_request ⟨?_, fun hif => absurd hif ‹_›⟩ _ rfl rfl rfl
    rw [issued_snoc]
    exact List.mem_append_right _ (List.mem_singleton_self _)

-- ---------------------------------------------------------------------------
-- The answers are answers to the requests
-- ---------------------------------------------------------------------------

/-- The answer that is read with the `dri` of the pending request arrived after this very
request was posted. -/
theorem Followed.posted_before (h : Followed run d.system) (hrun : Run NumberedStep (startUp services) run d)
    (hround : (issued run).length ≤ maxTxDri) (hhonest : Honest run)
    (htx : d.system.tx = .requesting req phase (.unread m)) (hcarries : LwMsg.Carries req m.msg)
    (hsucceeds : LwMsg.Succeeds m.msg) :
    ∃ before y between x after, run = before ++ y :: between ++ x :: after ∧ Posts req y ∧
      Arrives m.msg x := by
  obtain ⟨dri, hdri, hsendDri⟩ := hcarries
  have hm : m ∈ d.system.answers :=
    mem_answers.mpr (.inr (.inr (by rw [htx]; rfl)))
  obtain ⟨x, hx, harrives⟩ := h.answers m hm
  obtain ⟨first, after, rfl⟩ := List.append_of_mem hx
  obtain ⟨y, hy, req', hposts, hdri'⟩ := hhonest first x after _ _ rfl harrives hsucceeds hdri
  obtain ⟨msg', hmsg', hreq'⟩ := h.posted y (List.mem_append_left _ hy) req' hposts
  obtain ⟨msg, hmsg, hreq⟩ := h.pending _ _ _ htx
  have hissued : HasDri dri msg := (txRequest_dri hreq).trans (congrArg _ hsendDri)
  have hissued' : HasDri dri msg' := (txRequest_dri hreq').trans (congrArg _ hdri')
  obtain rfl := issued_unique hrun hround hmsg.issued hmsg' hissued hissued'
  cases hreq.symm.trans hreq'
  obtain ⟨before, between, rfl⟩ := List.append_of_mem hy
  exact ⟨before, y, between, x, after, rfl, hposts, harrives⟩

theorem onResponse_di (h : onResponse req msg = .ok (some (.registered di))) :
    stringUnder msg.body "di".toList = .ok (some di) := by
  have hif := onResponse_registered h
  simp only [onResponse, hif, bind_ok, if_true] at h
  obtain ⟨_, -, _, -, b, -, h⟩ := h
  cases b with
  | false => cases h
  | true =>
    simp only [if_true, bind_ok] at h
    obtain ⟨found, hfound, h⟩ := h
    cases found with
    | none => cases h
    | some di' =>
      cases h
      exact hfound

theorem followed_start (services : List MicroService) : Followed [] (powerUp services) where
  queued _ hmsg := absurd hmsg List.not_mem_nil
  pending _ _ _ htx := by cases htx
  posted _ hx := absurd hx List.not_mem_nil
  answers m hm := absurd hm (by simp [mem_answers, powerUp, RxTask.answer, TxTask.polled])

theorem followed (hrun : Run NumberedStep (startUp services) run d)
    (hround : (issued run).length ≤ maxTxDri) (hhonest : Honest run) : Followed run d.system := by
  induction hrun with
  | start => exact followed_start services
  | @step run d e d' hrun hs ih =>
    rw [issued_append, List.length_append] at hround
    have hround' := Nat.le_of_add_right_le hround
    have hfollowed := ih hround' hhonest.before
    refine hfollowed.step (fun _ _ => (gated (run_system hrun)).responding) ?_ hs.system
    rintro req phase m di dri taken htx hresponse rfl
    obtain ⟨hsucceeds, hcarries⟩ := onResponse_some hresponse
    have hif := onResponse_registered hresponse
    obtain ⟨before, y, between, x, after, rfl, hposts, harrives⟩ :=
      hfollowed.posted_before hrun hround' hhonest.before htx (hcarries hif) hsucceeds
    have hreads : Reads req m.msg (d, .txRead dri taken) := ⟨phase, m, dri, taken, htx, rfl, rfl⟩
    exact ⟨req, m.msg, ⟨hif, hcarries hif, hsucceeds⟩, onResponse_di hresponse,
      (((successive_nil before).then hposts).then harrives).then hreads⟩

theorem txRequest_interfaceId (h : txRequest msg = .ok (some req)) :
    getLwmInterfaceId msg = .ok req.sendIf := by
  simp only [txRequest, bind_ok] at h
  obtain ⟨_, -, _, -, _, -, h⟩ := h
  split at h
  · simp only [bind_ok, pure_ok] at h
    obtain ⟨sendIf, hif, heq⟩ := h
    cases heq
    exact hif
  · cases h

/-- Where the counter has not come round and the network is honest, a registered device has
sent the registration, got the `di` in the answer to it, sent its information under this
`di`, and got the answer to that, in this order. -/
theorem registration_agreed (hrun : Run NumberedStep (startUp services) run d)
    (hround : (issued run).length ≤ maxTxDri) (hhonest : Honest run)
    (hopen : d.system.registered = true ∨ ∃ m, d.system.rx = .request m) :
    ∃ req ans di req' ans' info, Exchange 1 req ans ∧ stringUnder ans.body "di".toList = .ok (some di) ∧
      Exchange 2 req' ans' ∧ IsInformation di info ∧ req'.frame = serializeLwmMessage info ∧
      Successive (exchange req ans ++ exchange req' ans') run := by
  have hgated := gated (run_system hrun)
  have hregistered : d.system.registered = true := by
    rcases hopen with hflag | ⟨m, hrx⟩
    · exact hflag
    · exact hgated.forwarding hrx
  obtain ⟨_, _, hsub, -, req', phase, m, dri, taken, htx, hread, hif, hcarries, hsucceeds⟩ :=
    hgated.flag hregistered
  obtain ⟨y, hy, rfl⟩ := List.mem_map.mp (hsub.subset (List.mem_cons_of_mem _ List.mem_cons_self))
  obtain ⟨before, after, rfl⟩ := List.append_of_mem hy
  have hbefore := hrun.before
  rw [issued_append, List.length_append] at hround
  have hround' := Nat.le_of_add_right_le hround
  obtain ⟨first, z, between, x, rest, rfl, hposts, harrives⟩ :=
    (followed hbefore hround' hhonest.before).posted_before hbefore hround' hhonest.before htx hcarries
      hsucceeds
  rw [List.append_assoc] at hbefore hround' hhonest
  rw [issued_append, List.length_append] at hround'
  have hfirst := followed hbefore.before (Nat.le_of_add_right_le hround') hhonest.before.before
  obtain ⟨i, hposting, -⟩ := id hposts
  obtain ⟨info, hinfo, hreq⟩ := hfirst.pending _ _ _ hposting
  obtain ⟨di, hinformation, req, ans, hexchange, hdi, hsuccessive⟩ :=
    hinfo.information ((txRequest_interfaceId hreq).trans (congrArg _ hif))
  have hreads : Reads req' m.msg y := ⟨phase, m, dri, taken, htx, rfl, hread⟩
  exact ⟨req, ans, di, req', m.msg, info, hexchange, hdi, ⟨hif, hcarries, hsucceeds⟩, hinformation,
    txRequest_frame hreq, ((hsuccessive.then hposts).then harrives).then hreads⟩

-- ---------------------------------------------------------------------------
-- A server that answers
-- ---------------------------------------------------------------------------

theorem Honest.snoc (h : Honest run)
    (hx : ∀ msg dri, Arrives msg x → HasDri dri msg → ∃ y ∈ run, ∃ req, Posts req y ∧ req.sendDri = some dri) :
    Honest (run ++ [x]) := by
  intro before y after msg dri hsplit harrives hsucceeds hdri
  rcases List.eq_nil_or_concat after with rfl | ⟨after, last, rfl⟩
  · obtain ⟨rfl, hlast⟩ := List.append_inj' hsplit rfl
    cases hlast
    exact hx msg dri harrives hdri
  · rw [List.concat_eq_append, ← List.cons_append, ← List.append_assoc] at hsplit
    exact h before y after msg dri (List.append_inj' hsplit rfl).1 harrives hsucceeds hdri

theorem not_arrives (hx : ∀ buffer, x.2 ≠ .rxReceive buffer) : ¬Arrives msg x := by
  rintro ⟨buffer, hbuffer, -⟩
  exact hx buffer hbuffer

/-- A device without microservices gets there in `k` steps, with requests of these `dri`
given to an honest network. -/
def HonestlyReaches (k : Nat) (dris : List Text) (d : Numbered) : Prop :=
  ∃ run, Run NumberedStep (startUp []) run d ∧ Honest run ∧ run.length = k ∧
    ∀ dri ∈ dris, ∃ y ∈ run, ∃ req, Posts req y ∧ req.sendDri = some dri

theorem HonestlyReaches.step (h : HonestlyReaches k dris d) (hs : NumberedStep d e d')
    (harrives : ∀ msg dri, Arrives msg (d, e) → HasDri dri msg → dri ∈ dris)
    (hposts : ∀ dri ∈ dris', dri ∈ dris ∨ ∃ req, Posts req (d, e) ∧ req.sendDri = some dri) :
    HonestlyReaches (k + 1) dris' d' := by
  obtain ⟨run, hrun, hhonest, rfl, hposted⟩ := h
  refine ⟨_, hrun.step hs, hhonest.snoc fun msg dri hmsg hdri => hposted dri (harrives msg dri hmsg hdri),
    by simp, fun dri hdri => ?_⟩
  rcases hposts dri hdri with hdri | hlast
  · obtain ⟨y, hy, hposted⟩ := hposted dri hdri
    exact ⟨y, List.mem_append_left _ hy, hposted⟩
  · exact ⟨_, List.mem_append_right _ (List.mem_singleton_self _), hlast⟩

theorem HonestlyReaches.next (h : HonestlyReaches k dris d) (hs : Step d.system e s)
    (he : ∀ buffer, e ≠ .rxReceive buffer) (hmade : made (d.system, e) = none) :
    HonestlyReaches (k + 1) dris ⟨s, d.lwmsgTxDri⟩ :=
  h.step (.other hs hmade) (fun _ _ hmsg => absurd hmsg (not_arrives he)) fun _ hdri => .inl hdri

theorem HonestlyReaches.delivered {d : Sample}
    (h : HonestlyReaches k dris
      ⟨d.system .receiving (.requesting req (.waiting 0 0) .nothing) [], n⟩)
    (hdri : PlainText dri) (hposted : dri ∈ dris) :
    HonestlyReaches (k + 4) dris
      ⟨{ d with created := d.created + 1 : Sample }.system .receiving
        (.requesting req (.waiting 0 0) (.unread ⟨d.created, sampleAnswerMsg dri⟩)) [], n⟩ := by
  let m : Parsed := ⟨d.created, sampleAnswerMsg dri⟩
  let d' : Sample := { d with created := d.created + 1 }
  let waiting : TxTask := .requesting req (.waiting 0 0) .nothing
  have hparsed := parse_sampleAnswer dri hdri
  have h₁ : HonestlyReaches (k + 1) dris ⟨d'.system (.parsed m) waiting [], n⟩ := by
    refine h.step (.other (.rxParse rfl hparsed) rfl) ?_ fun _ hdri => .inl hdri
    rintro msg dri' ⟨buffer, heq, hparse⟩ hmsg
    cases heq
    cases hparse.symm.trans hparsed
    cases hmsg
    exact hposted
  have h₂ : HonestlyReaches (k + 2) dris ⟨d'.system (.response m) waiting [], n⟩ :=
    h₁.next (.rxBranch rfl rfl) (by simp) rfl
  have h₃ : HonestlyReaches (k + 3) dris ⟨d'.system .receiving waiting [m], n⟩ :=
    h₂.next (e := .rxSend true) (.rxRespond rfl fun _ => rfl) (by simp) rfl
  exact h₃.next (.txPoll rfl rfl) (by simp) rfl

theorem answered_honestly (dri : Text) {d d' : Sample} (hdri : PlainText dri)
    (hqueue : d.sendQueue = [msg])
    (hbranch : txBranch msg = .ok (.requesting req (.posting 0) .nothing))
    (hsendDri : req.sendDri = some dri)
    (hresp : onResponse req (sampleAnswerMsg dri) = .ok (some effect))
    (heffect : ∀ rx tx respQueue deleted, txEffect ['2'] true
      ({ d with sendQueue := [], created := d.created + 1, deleted := deleted : Sample }.system
        rx tx respQueue) (.broken effect) =
      .ok ({ d' with deleted := deleted : Sample }.system rx tx respQueue))
    (hread : ∀ t address s, t.services = [] →
      t.tx = .requesting req (.waiting 0 0) (.unread ⟨address, sampleAnswerMsg dri⟩) →
      Step t (.txRead ['2'] true) s → NumberedStep ⟨t, n⟩ (.txRead ['2'] true) ⟨s, n'⟩)
    (hdeleted : d'.deleted = d.created :: d.deleted)
    (h : HonestlyReaches k dris ⟨d.system .receiving .receiving [], n⟩) :
    HonestlyReaches (k + 9) (dri :: dris) ⟨d'.system .receiving .receiving [], n'⟩ := by
  let d₁ : Sample := { d with sendQueue := [] }
  have h₁ : HonestlyReaches (k + 1) dris
      ⟨d₁.system .receiving (.requesting req (.posting 0) .nothing) [], n⟩ :=
    h.next (.txReceive rfl hqueue hbranch) (by simp) rfl
  have hpost : TxStep req (.posting 0) (.post true) (.waiting 0 0) := .post
  have h₂ : HonestlyReaches (k + 2) (dri :: dris)
      ⟨d₁.system .receiving (.requesting req (.waiting 0 0) .nothing) [], n⟩ :=
    h₁.step (.other (.txPost rfl hpost) rfl) (fun _ _ hmsg => absurd hmsg (not_arrives (by simp))) <|
      List.forall_mem_cons.mpr ⟨.inr ⟨req, ⟨0, rfl, rfl⟩, hsendDri⟩, fun _ hdri => .inl hdri⟩
  have hunread := h₂.delivered hdri List.mem_cons_self
  have hpoll : afterPoll req 0 0 (some (sampleAnswerMsg dri)) = .ok (.broken effect) := by
    simp only [afterPoll, hresp]
    rfl
  have hread : HonestlyReaches (k + 7) (dri :: dris)
      ⟨{ d' with deleted := d.deleted : Sample }.system .receiving
        (.requesting req (.broken effect) (.read ⟨d.created, sampleAnswerMsg dri⟩)) [], n'⟩ :=
    hunread.step (hread _ _ _ rfl rfl (.txRead rfl (.poll hpoll) (heffect _ _ _ _)))
      (fun _ _ hmsg => absurd hmsg (not_arrives (by simp))) fun _ hdri => .inl hdri
  have hfreed : HonestlyReaches (k + 8) (dri :: dris)
      ⟨{ d' with deleted := d.created :: d.deleted : Sample }.system .receiving
        (.requesting req (.broken effect) .nothing) [], n'⟩ :=
    hread.next (.txDelete (m := ⟨d.created, sampleAnswerMsg dri⟩) rfl) (by simp) rfl
  rw [← hdeleted] at hfreed
  exact hfreed.next (.txLeave rfl trivial) (by simp) rfl

theorem registration_agreed_sample :
    ∃ req ans di req' ans' info, Exchange 1 req ans ∧ stringUnder ans.body "di".toList = .ok (some di) ∧
      Exchange 2 req' ans' ∧ IsInformation di info ∧ req'.frame = serializeLwmMessage info ∧
      ∃ run d, Run NumberedStep (startUp []) run d ∧ d.system.registered = true ∧
        Successive (exchange req ans ++ exchange req' ans') run := by
  let d₀ : Sample := ⟨false, [sampleTx 1 ['1'] none "mis".toList], 0, []⟩
  let d₁ : Sample := ⟨false, [sampleTx 2 ['2'] (some ['7']) "mif".toList], 1, [0]⟩
  let d₂ : Sample := ⟨true, [], 2, [1, 0]⟩
  have hstart : HonestlyReaches 0 [] (startUp []) := by
    refine ⟨[], .start, ?_, rfl, by simp⟩
    intro before x after _ _ hsplit
    simp at hsplit
  have h₀ : HonestlyReaches 2 [] ⟨d₀.system .receiving .receiving [], 2⟩ :=
    (hstart.next (.txStart rfl) (by simp) rfl).step
      (.draw (e := .request _ true) (.request (by decide)) rfl
        (hasDri_getLwmTxDri 1 rfl)) (fun _ _ hmsg => absurd hmsg (not_arrives (by simp)))
      fun _ hdri => .inl hdri
  have h₁ : HonestlyReaches 11 [['1']] ⟨d₁.system .receiving .receiving [], 3⟩ := by
    refine answered_honestly ['1'] (by decide) rfl rfl rfl rfl (fun _ _ _ _ => rfl) ?_ rfl h₀
    intro t _ _ hservices htx hs
    have hmade : made (t, .txRead ['2'] true) = some (sampleTx 2 ['2'] (some ['7']) "mif".toList) := by
      simp only [made, htx, hservices]
      rfl
    exact .draw (d := ⟨t, 2⟩) hs hmade (hasDri_getLwmTxDri 2 rfl)
  have h₂ : HonestlyReaches 20 [['2'], ['1']] ⟨d₂.system .receiving .receiving [], 3⟩ :=
    answered_honestly ['2'] (by decide) rfl rfl rfl rfl (fun _ _ _ _ => rfl)
      (fun t _ _ _ htx hs => .other (d := ⟨t, 3⟩) hs (by simp only [made, htx]; rfl)) rfl h₁
  obtain ⟨run, hrun, hhonest, hlength, -⟩ := h₂
  have hround : (issued run).length ≤ maxTxDri :=
    Nat.le_trans (List.length_filterMap_le _ _) (Nat.le_of_lt (by rw [hlength]; simp [maxTxDri]))
  obtain ⟨req, ans, di, req', ans', info, hreq, hdi, hreq', hinfo, hframe, hsuccessive⟩ :=
    registration_agreed hrun hround hhonest (.inl rfl)
  exact ⟨req, ans, di, req', ans', info, hreq, hdi, hreq', hinfo, hframe, run, _, hrun, rfl, hsuccessive⟩

end IoTware.Dist
