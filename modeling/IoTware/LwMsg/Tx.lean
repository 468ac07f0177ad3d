import IoTware.Lib.Runs
import IoTware.LwMsg.Serialize

/-!
# The transmission of a request

The part of `iw_fw_lwMsgTx` that a request message runs through: it is posted,
up to `RETRANSMISSION_COUNT` times, and after each time the responses are
polled for `RESONSE_WAIT_TIME`. What the queues return is the environment's.
A response of code 200 ends the transmission of any request but the
registration, whichever request it answers.
-/

namespace IoTware.LwMsg

open CText (Text)
open Loops
open Runs

/-- `get_lwm_interface_id`: 0 unless `if` is an unsigned number. -/
def getLwmInterfaceId (msg : LWMessage) : Except Fault UInt32 := do
  match ← getLwmObjectFromDict msg.header "if".toList with
  | some (.number (.uint32 v)) => return v
  | _ => return 0

def stringUnder (dict : LWMDictionary) (key : Text) : Except Fault (Option Text) := do
  return (← getLwmObjectFromDict dict key).bind LWMObject.stringValue

def strcmpEq : Option Text → Option Text → Except Fault Bool
  | some a, some b => .ok (a = b)
  | _, _ => .error .nullPointer

structure TxRequest where
  frame : Text
  sendIf : UInt32
  sendDri : Option Text

/-- A message with `if` and `dri` and without `rsc` is a request. -/
def txRequest (msg : LWMessage) : Except Fault (Option TxRequest) := do
  let sendCif ← getLwmObjectFromDict msg.header "if".toList
  let sendCdri ← getLwmObjectFromDict msg.header "dri".toList
  let sendCrsc ← getLwmObjectFromDict msg.header "rsc".toList
  if sendCif.isSome ∧ sendCdri.isSome ∧ sendCrsc.isNone then
    return some {
      frame := serializeLwmMessage msg
      sendIf := ← getLwmInterfaceId msg
      sendDri := sendCdri.bind LWMObject.stringValue }
  else return none

inductive TxEffect
  /-- `SET_LWM_DI`, and the device information of interface 2 is requested. -/
  | registered (di : Text)
  /-- `set_device_is_registered(TRUE)`. -/
  | accepted
  | nothing

/-- `strcmp(_send_dri, _dri) == 0 && strcmp(_rsc, "200") == 0`. -/
def answersWith200 (req : TxRequest) (dri rsc : Option Text) : Except Fault Bool := do
  if ← strcmpEq req.sendDri dri then strcmpEq rsc (some "200".toList) else return false

/-- The branches for a response that was read: whether `is_break` is set, and
what else is done. -/
def onResponse (req : TxRequest) (msg : LWMessage) : Except Fault (Option TxEffect) := do
  let dri ← stringUnder msg.header "dri".toList
  let rsc ← stringUnder msg.header "rsc".toList
  if req.sendIf = 1 then
    if ← answersWith200 req dri rsc then
      match ← stringUnder msg.body "di".toList with
      | none => .error .nullPointer
      | some di => return some (.registered di)
    else return none
  else if req.sendIf = 2 ∨ req.sendIf = 14 then
    if ← answersWith200 req dri rsc then
      return some (if req.sendIf = 2 then .accepted else .nothing)
    else if ← strcmpEq rsc (some "200".toList) then return some .nothing
    else return none
  else if ← strcmpEq rsc (some "200".toList) then return some .nothing
  else return none

def retransmissionCount : Nat := 50

def resonseWaitTime : Nat := 10000

/-- Where the two loops are. `waiting` has the attempt `i` and the time `some`
that was waited for; `broken` was left by `break`. -/
inductive TxPhase
  | posting (i : Nat)
  | waiting (i waited : Nat)
  | broken (effect : TxEffect)
  | exhausted

/-- What the queues return: whether the network takes the frame, and the
response a poll finds. -/
inductive TxEvent
  | post (taken : Bool)
  | poll (response : Option LWMessage)

def attempt (req : TxRequest) (i : Nat) : TxPhase :=
  if i < retransmissionCount ∨ req.sendIf = 1 then .posting i else .exhausted

def afterPost (req : TxRequest) (i : Nat) (taken : Bool) : TxPhase :=
  if taken then .waiting i 0 else attempt req (i + 1)

def waitOn (req : TxRequest) (i waited : Nat) : TxPhase :=
  if waited < resonseWaitTime then .waiting i waited else attempt req (i + 1)

def afterPoll (req : TxRequest) (i waited : Nat) : Option LWMessage → Except Fault TxPhase
  | none => .ok (waitOn req i (waited + 100))
  | some msg => do
    match ← onResponse req msg with
    | some effect => return .broken effect
    | none => return waitOn req i (waited + 100)

inductive TxStep (req : TxRequest) : TxPhase → TxEvent → TxPhase → Prop
  | post : TxStep req (.posting i) (.post taken) (afterPost req i taken)
  | poll : afterPoll req i waited response = .ok phase →
      TxStep req (.waiting i waited) (.poll response) phase

/-- A run of the transmission of the message `msg`. -/
def Transmits (msg : LWMessage) (req : TxRequest) (run : List (TxPhase × TxEvent))
    (phase : TxPhase) : Prop :=
  txRequest msg = .ok (some req) ∧ Run (TxStep req) (attempt req 0) run phase

def TxEvent.response : TxEvent → Option LWMessage
  | .poll response => response
  | .post _ => none

def responses (run : List (TxPhase × TxEvent)) : List LWMessage :=
  (run.map Prod.snd).filterMap TxEvent.response

def TxPhase.Broken : TxPhase → Prop
  | .broken _ => True
  | _ => False

-- ---------------------------------------------------------------------------
-- One response
-- ---------------------------------------------------------------------------

/-- The response carries the `dri` of the request. -/
def Carries (req : TxRequest) (msg : LWMessage) : Prop :=
  ∃ dri, stringUnder msg.header "dri".toList = .ok (some dri) ∧ req.sendDri = some dri

def Succeeds (msg : LWMessage) : Prop :=
  stringUnder msg.header "rsc".toList = .ok (some "200".toList)

theorem strcmpEq_ok : strcmpEq a b = .ok r ↔ ∃ s t, a = some s ∧ b = some t ∧ r = decide (s = t) := by
  cases a <;> cases b <;> simp [strcmpEq, eq_comm]

theorem answersWith200_true (h : answersWith200 req dri rsc = .ok true) :
    (∃ d, dri = some d ∧ req.sendDri = some d) ∧ rsc = some "200".toList := by
  simp only [answersWith200, bind_ok, strcmpEq_ok] at h
  obtain ⟨b, ⟨s, t, hs, ht, rfl⟩, h⟩ := h
  by_cases heq : s = t
  · subst heq
    simp only [decide_true, if_true, strcmpEq_ok] at h
    obtain ⟨u, v, hu, hv, huv⟩ := h
    cases hv
    exact ⟨⟨s, ht, hs⟩, by rw [hu, of_decide_eq_true huv.symm]⟩
  · simp [heq, pure, Except.pure] at h

theorem onResponse_some (h : onResponse req msg = .ok (some effect)) :
    Succeeds msg ∧ (req.sendIf = 1 → Carries req msg) := by
  simp only [onResponse, bind_ok] at h
  obtain ⟨dri, hdri, rsc, hrsc, h⟩ := h
  have hanswer (hb : answersWith200 req dri rsc = .ok true) : Succeeds msg ∧ Carries req msg := by
    obtain ⟨⟨d, rfl, hd⟩, rfl⟩ := answersWith200_true hb
    exact ⟨hrsc, d, hdri, hd⟩
  have hcode (hb : strcmpEq rsc (some "200".toList) = .ok true) : Succeeds msg := by
    obtain ⟨s, t, rfl, ht, hst⟩ := strcmpEq_ok.mp hb
    cases ht
    rw [Succeeds, hrsc, of_decide_eq_true hst.symm]
  by_cases hif : req.sendIf = 1
  · rw [if_pos hif] at h
    simp only [bind_ok] at h
    obtain ⟨b, hb, h⟩ := h
    cases b with
    | false => cases h
    | true => exact ⟨(hanswer hb).1, fun _ => (hanswer hb).2⟩
  · rw [if_neg hif] at h
    refine ⟨?_, fun h => absurd h hif⟩
    split at h
    · simp only [bind_ok] at h
      obtain ⟨b, hb, h⟩ := h
      cases b with
      | true => exact (hanswer hb).1
      | false =>
        simp only [Bool.false_eq_true, if_false, bind_ok] at h
        obtain ⟨b, hb, h⟩ := h
        cases b with
        | true => exact hcode hb
        | false => cases h
    · simp only [bind_ok] at h
      obtain ⟨b, hb, h⟩ := h
      cases b with
      | true => exact hcode hb
      | false => cases h

theorem onResponse_registered (h : onResponse req msg = .ok (some (.registered di))) :
    req.sendIf = 1 := by
  simp only [onResponse, bind_ok] at h
  obtain ⟨_, -, _, -, h⟩ := h
  by_contra hif
  rw [if_neg hif] at h
  split at h <;> simp only [bind_ok] at h <;> obtain ⟨b, -, h⟩ := h <;> cases b
  · simp only [Bool.false_eq_true, if_false, bind_ok] at h
    obtain ⟨b, -, h⟩ := h
    cases b <;> cases h
  · simp only [if_true, pure_ok] at h
    split at h <;> cases h
  · cases h
  · cases h

theorem onResponse_accepted (h : onResponse req msg = .ok (some .accepted)) :
    req.sendIf = 2 ∧ Carries req msg ∧ Succeeds msg := by
  simp only [onResponse, bind_ok] at h
  obtain ⟨dri, hdri, rsc, hrsc, h⟩ := h
  split at h
  · simp only [bind_ok] at h
    obtain ⟨b, -, h⟩ := h
    cases b with
    | false => cases h
    | true =>
      simp only [if_true, bind_ok] at h
      obtain ⟨di, -, h⟩ := h
      cases di <;> cases h
  split at h <;> simp only [bind_ok] at h <;> obtain ⟨b, hb, h⟩ := h <;> cases b
  · simp only [Bool.false_eq_true, if_false, bind_ok] at h
    obtain ⟨b, -, h⟩ := h
    cases b <;> cases h
  · simp only [if_true, pure_ok] at h
    split at h
    · rename_i hif
      obtain ⟨⟨d, rfl, hd⟩, rfl⟩ := answersWith200_true hb
      exact ⟨hif, ⟨d, hdri, hd⟩, hrsc⟩
    · cases h
  · cases h
  · cases h

theorem onResponse_none (hif : req.sendIf ≠ 1) (h : onResponse req msg = .ok none) :
    ¬ Succeeds msg := by
  simp only [onResponse, bind_ok] at h
  obtain ⟨dri, -, rsc, hrsc, h⟩ := h
  intro hs
  rw [Succeeds, hrsc] at hs
  cases hs
  have hcode : strcmpEq (some "200".toList) (some "200".toList) = .ok true := by decide
  rw [if_neg hif] at h
  split at h
  · simp only [bind_ok] at h
    obtain ⟨b, -, h⟩ := h
    cases b with
    | true => cases h
    | false =>
      rw [if_neg (by simp), hcode] at h
      cases h
  · rw [hcode] at h
    cases h

theorem TxStep.read_response (h : TxStep req phase (.poll (some msg)) (.broken effect)) :
    onResponse req msg = .ok (some effect) := by
  cases h with
  | poll hpoll =>
    simp only [afterPoll, bind_ok] at hpoll
    obtain ⟨r, hr, hpoll⟩ := hpoll
    cases r with
    | some effect' =>
      cases hpoll
      exact hr
    | none =>
      simp only [pure_ok, waitOn, attempt] at hpoll
      split at hpoll
      · cases hpoll
      · split at hpoll <;> cases hpoll

-- ---------------------------------------------------------------------------
-- Runs
-- ---------------------------------------------------------------------------

/-- A response of code 200 to another request comes before any response to this
one. -/
inductive ForeignSuccessFirst (req : TxRequest) : List LWMessage → Prop
  | here : ¬ Carries req msg → Succeeds msg → ForeignSuccessFirst req (msg :: rest)
  | later : ¬ Carries req msg → ForeignSuccessFirst req rest → ForeignSuccessFirst req (msg :: rest)

theorem ForeignSuccessFirst.exists_succeeds (h : ForeignSuccessFirst req msgs) :
    ∃ msg ∈ msgs, Succeeds msg := by
  induction h with
  | here _ hs => exact ⟨_, List.mem_cons_self, hs⟩
  | later _ _ ih =>
    obtain ⟨msg, hmem, hs⟩ := ih
    exact ⟨msg, List.mem_cons_of_mem _ hmem, hs⟩

/-- Where only the last response has the code 200, it is a foreign one exactly
when no response at all carries the `dri`. -/
theorem foreignSuccessFirst_concat (hpre : ∀ m ∈ pre, ¬ Succeeds m) (hlast : Succeeds last) :
    ForeignSuccessFirst req (pre ++ [last]) ↔ ∀ m ∈ pre ++ [last], ¬ Carries req m := by
  induction pre with
  | nil =>
    constructor
    · rintro (⟨hc, -⟩ | ⟨hc, h⟩)
      · simpa using hc
      · cases h
    · intro h
      exact .here (h last (by simp)) hlast
  | cons m pre ih =>
    have ih := ih fun m hm => hpre m (List.mem_cons_of_mem _ hm)
    rw [List.cons_append, List.forall_mem_cons, ← ih]
    constructor
    · rintro (⟨-, hs⟩ | ⟨hc, h⟩)
      · exact absurd hs (hpre m (by simp))
      · exact ⟨hc, h⟩
    · rintro ⟨hc, h⟩
      exact .later hc h

def TxHistory (req : TxRequest) (es : List TxEvent) (phase : TxPhase) : Prop :=
  if req.sendIf = 1 then phase.Broken → ∃ m ∈ es.filterMap TxEvent.response, Carries req m
  else
    (¬ phase.Broken ∧ ∀ m ∈ es.filterMap TxEvent.response, ¬ Succeeds m) ∨
      (phase.Broken ∧ ∃ pre last, es.filterMap TxEvent.response = pre ++ [last] ∧
        (∀ m ∈ pre, ¬ Succeeds m) ∧ Succeeds last)

theorem attempt_not_broken : ¬ (attempt req i).Broken := by
  unfold attempt
  split <;> exact id

theorem waitOn_not_broken : ¬ (waitOn req i waited).Broken := by
  unfold waitOn
  split
  · exact id
  · exact attempt_not_broken

theorem afterPost_not_broken : ¬ (afterPost req i taken).Broken := by
  unfold afterPost
  split
  · exact id
  · exact attempt_not_broken

theorem TxHistory.quiet (h : TxHistory req es phase) (hphase : ¬ phase.Broken)
    (hnext : ¬ next.Broken) (he : e.response = none) : TxHistory req (es ++ [e]) next := by
  unfold TxHistory at h ⊢
  simp only [List.filterMap_append, List.filterMap_cons, he, List.filterMap_nil, List.append_nil]
  split at h
  · rename_i hif
    rw [if_pos hif]
    exact fun hb => absurd hb hnext
  · rename_i hif
    rw [if_neg hif]
    rcases h with ⟨-, hall⟩ | ⟨hb, -⟩
    · exact .inl ⟨hnext, hall⟩
    · exact absurd hb hphase

theorem TxHistory.step (h : TxHistory req es phase) (hs : TxStep req phase e next) :
    TxHistory req (es ++ [e]) next := by
  cases hs with
  | post => exact h.quiet id afterPost_not_broken rfl
  | @poll i waited response _ hpoll =>
    cases response with
    | none =>
      cases hpoll
      exact h.quiet id waitOn_not_broken rfl
    | some msg =>
      simp only [afterPoll, bind_ok] at hpoll
      obtain ⟨effect, hresp, hpoll⟩ := hpoll
      unfold TxHistory at h ⊢
      simp only [List.filterMap_append, List.filterMap_cons, TxEvent.response, List.filterMap_nil]
      cases effect with
      | some effect =>
        cases hpoll
        obtain ⟨hsucc, hcarry⟩ := onResponse_some hresp
        split at h
        · rename_i hif
          rw [if_pos hif]
          exact fun _ => ⟨msg, by simp, hcarry hif⟩
        · rename_i hif
          rw [if_neg hif]
          rcases h with ⟨-, hall⟩ | ⟨hb, -⟩
          · exact .inr ⟨trivial, _, msg, rfl, hall, hsucc⟩
          · exact hb.elim
      | none =>
        cases hpoll
        split at h
        · rename_i hif
          rw [if_pos hif]
          exact fun hb => absurd hb waitOn_not_broken
        · rename_i hif
          rw [if_neg hif]
          rcases h with ⟨-, hall⟩ | ⟨hb, -⟩
          · refine .inl ⟨waitOn_not_broken, ?_⟩
            rw [List.forall_mem_append, List.forall_mem_singleton]
            exact ⟨hall, onResponse_none hif hresp⟩
          · exact hb.elim

theorem Transmits.history (h : Transmits msg req run phase) :
    TxHistory req (run.map Prod.snd) phase := by
  refine h.2.history ?_ fun _ _ _ _ hist hs => hist.step hs
  unfold TxHistory
  split
  · exact fun hb => absurd hb attempt_not_broken
  · exact .inl ⟨attempt_not_broken, by simp⟩

/-- A transmission that was left by `break` has read a response with its `dri`,
unless it is of another request than the registration and a response of code
200 to another request came first. -/
theorem lwMsgTx_break_iff (h : Transmits msg req run phase) :
    (phase.Broken → ∃ m ∈ responses run, Carries req m) ↔
      req.sendIf = 1 ∨ ¬ ForeignSuccessFirst req (responses run) := by
  have hist := h.history
  unfold TxHistory at hist
  by_cases hif : req.sendIf = 1
  · rw [if_pos hif] at hist
    exact ⟨fun _ => .inl hif, fun _ => hist⟩
  · rw [if_neg hif] at hist
    rcases hist with ⟨hb, hall⟩ | ⟨hb, pre, last, hread, hpre, hlast⟩
    · refine ⟨fun _ => .inr ?_, fun _ h => absurd h hb⟩
      intro hf
      obtain ⟨m, hm, hs⟩ := hf.exists_succeeds
      exact hall m hm hs
    · have hread : responses run = pre ++ [last] := hread
      rw [hread, foreignSuccessFirst_concat hpre hlast]
      simp [hb, hif]

def infoRequest (dri : Text) : LWMessage where
  header := [(some "dri".toList, .string (some dri)), (some "if".toList, .number (.uint32 2))]
  body := []

def infoResponse (dri : Text) : LWMessage where
  header := [(some "rsc".toList, .string (some "200".toList)), (some "dri".toList, .string (some dri))]
  body := []

def infoRun (dri : Text) : List (TxPhase × TxEvent) :=
  [(.posting 0, .post true), (.waiting 0 0, .poll (some (infoResponse dri)))]

def infoTx (dri : Text) : TxRequest := ⟨serializeLwmMessage (infoRequest dri), 2, some dri⟩

theorem transmits_info (sent dri : Text) (h : onResponse (infoTx sent) (infoResponse dri) = .ok (some effect)) :
    Transmits (infoRequest sent) (infoTx sent) (infoRun dri) (.broken effect) := by
  refine ⟨rfl, ?_⟩
  have hpost : Run (TxStep (infoTx sent)) (.posting 0) [(.posting 0, .post true)] (.waiting 0 0) :=
    Run.start.step TxStep.post
  refine hpost.step ?_
  exact .poll (by simp [afterPoll, h, bind, Except.bind, pure, Except.pure])

/-- A late answer to the request before ends the transmission. -/
theorem lwMsgTx_foreign_success :
    ∃ msg req run phase, Transmits msg req run phase ∧ phase.Broken ∧
      ¬ ∃ m ∈ responses run, Carries req m := by
  refine ⟨_, _, _, _, transmits_info ['8'] ['7'] rfl, trivial, ?_⟩
  rintro ⟨m, hm, dri, hdri, hreq⟩
  cases List.mem_singleton.mp hm
  cases hdri
  exact absurd hreq (by decide)

theorem lwMsgTx_own_success :
    ∃ req run phase, Transmits (infoRequest ['8']) req run phase ∧ phase.Broken ∧
      ((phase.Broken → ∃ m ∈ responses run, Carries req m) ↔
        req.sendIf = 1 ∨ ¬ ForeignSuccessFirst req (responses run)) := by
  refine ⟨_, _, _, transmits_info ['8'] ['8'] rfl, trivial, ?_⟩
  exact lwMsgTx_break_iff (transmits_info ['8'] ['8'] rfl)

end IoTware.LwMsg
