import IoTware.Dist.Codes
import IoTware.LwMsg.Tx

/-!
# The message tasks together

`iw_fw_lwMsgRx`, `lwmsg_dist_task` and `iw_fw_lwMsgTx` around the queues they
share, in any order of their steps. A step is what a task does between two calls
that another task could see; what `send_queue` returns and what arrives is the
environment's. A step that meets a fault is not taken.
-/

namespace IoTware.Dist

open CText LwMsg Micro Loops Runs

/-- A message that `parse_lwm_message_str` made. Its address tells it from all
others. -/
structure Parsed where
  address : Nat
  msg : LWMessage

/-- Where `iw_fw_lwMsgRx` is, with `lpLWMsg`. -/
inductive RxTask
  | receiving
  | parsed (m : Parsed)
  /-- Before `send_queue(rXrespMsg, ..)`. -/
  | response (m : Parsed)
  /-- Before `send_queue(get_lwmsg_receive_queue(), ..)`. -/
  | request (m : Parsed)
  /-- Before `DEL_LWM_MESSAGE`. -/
  | rejected (m : Parsed)

/-- Where `lwmsg_dist_task` is, with `lwmsg` and the responses that are still to
be sent. -/
inductive DistTask
  | receiving
  | received (m : Parsed)
  | answering (m : Option Parsed) (responses : List LWMessage)

/-- The `lwmsg` that `iw_fw_lwMsgTx` polls into. -/
inductive Polled
  | nothing
  | unread (m : Parsed)
  | read (m : Parsed)

inductive TxTask
  | starting
  | receiving
  | requesting (req : TxRequest) (phase : TxPhase) (polled : Polled)
  | responding (frame : Text)
  | finishing

/-- `respQueue` is `rXrespMsg`, NULL at first. `created` counts the messages the
parser has made, `deleted` lists those that `DEL_LWM_MESSAGE` was called with. -/
structure System where
  registered : Bool
  services : List MicroService
  rx : RxTask
  receiveQueue : List Parsed
  dist : DistTask
  sendQueue : List LWMessage
  tx : TxTask
  respQueue : Option (List Parsed)
  created : Nat
  deleted : List Nat

def powerUp (services : List MicroService) : System where
  registered := false
  services := services
  rx := .receiving
  receiveQueue := []
  dist := .receiving
  sendQueue := []
  tx := .starting
  respQueue := none
  created := 0
  deleted := []

def put (queue : List α) (a : α) (taken : Bool) : List α := if taken then queue ++ [a] else queue

def rxBranch (registered : Bool) (m : Parsed) : Except Fault RxTask := do
  let cdri ← getLwmObjectFromDict m.msg.header "dri".toList
  let crsc ← getLwmObjectFromDict m.msg.header "rsc".toList
  if cdri.isSome ∧ crsc.isSome then return .response m
  else if registered then return .request m
  else return .rejected m

def txBranch (msg : LWMessage) : Except Fault TxTask := do
  match ← txRequest msg with
  | some req => return .requesting req (attempt req 0) .nothing
  | none =>
    let sendCif ← getLwmObjectFromDict msg.header "if".toList
    let sendCdri ← getLwmObjectFromDict msg.header "dri".toList
    let sendCrsc ← getLwmObjectFromDict msg.header "rsc".toList
    if sendCif.isNone ∧ sendCdri.isSome ∧ sendCrsc.isSome then
      return .responding (serializeLwmMessage msg)
    else return .finishing

/-- What a response that ends a transmission does: `GET_LWM_TX_DRI` gives `dri`,
and the send queue takes the request or not. -/
def txEffect (dri : Text) (taken : Bool) (s : System) : TxPhase → Except Fault System
  | .broken (.registered di) => do
    let (services, info) ← makeDeviceInformationLwmsg s.services 2 (some dri) (some di)
    return { s with services := services, sendQueue := put s.sendQueue info taken }
  | .broken .accepted => .ok { s with registered := true }
  | _ => .ok s

/-- `make_device_registration_lwmsg`, the request by which `start_apps` starts
the registration. -/
def makeDeviceRegistrationLwmsg (services : List MicroService) (interfaceId : UInt32)
    (dri : Option Text) : Except Fault LWMessage := do
  let msg ← newLwmReqMessage interfaceId dri none
  let mis := services.foldl (fun mis ms => .string (some ms.msId) :: mis) []
  setLwmBodyObject msg "mis".toList (some (.array mis))

theorem makeDeviceRegistrationLwmsg_interfaceId
    (h : makeDeviceRegistrationLwmsg services interfaceId dri = .ok msg) :
    getLwmInterfaceId msg = .ok interfaceId := by
  simp only [makeDeviceRegistrationLwmsg, bind_ok] at h
  obtain ⟨req, hreq, hset⟩ := h
  unfold getLwmInterfaceId
  rw [setLwmBodyObject_header hset]
  cases dri with
  | none =>
    cases hreq
    rfl
  | some dri =>
    cases hreq
    rfl

def TxPhase.Left : TxPhase → Prop
  | .broken _ | .exhausted => True
  | _ => False

inductive Event
  | rxReceive (buffer : List Char)
  | rxBranch
  | rxSend (taken : Bool)
  | rxDelete
  | distReceive
  | distHandle (pf : Platform) (inits : Nat → Inits)
  | distSend (taken : Bool)
  | distFinish
  | txStart
  | txReceive
  | txSend (taken : Bool)
  | txPoll
  | txRead (dri : Text) (taken : Bool)
  | txDelete
  | txFinish
  /-- Another task sends a request. -/
  | request (msg : LWMessage) (taken : Bool)
  /-- The tasks of the microservices run. -/
  | run (services : List MicroService)

inductive Step : System → Event → System → Prop
  -- `iw_fw_lwMsgRx`
  | rxNull : s.rx = .receiving → parseLwmMessageStr buffer = .ok none → Step s (.rxReceive buffer) s
  | rxParse : s.rx = .receiving → parseLwmMessageStr buffer = .ok (some msg) →
      Step s (.rxReceive buffer)
        { s with rx := .parsed ⟨s.created, msg⟩, created := s.created + 1 }
  | rxBranch : s.rx = .parsed m → rxBranch s.registered m = .ok rx →
      Step s .rxBranch { s with rx := rx }
  | rxRespond : s.rx = .response m → (taken = true → s.respQueue.isSome) →
      Step s (.rxSend taken)
        { s with rx := .receiving, respQueue := s.respQueue.map fun queue => put queue m taken }
  | rxRequest : s.rx = .request m →
      Step s (.rxSend taken)
        { s with rx := if taken then .receiving else .rejected m,
                 receiveQueue := put s.receiveQueue m taken }
  | rxDelete : s.rx = .rejected m →
      Step s .rxDelete { s with rx := .receiving, deleted := m.address :: s.deleted }
  -- `lwmsg_dist_task`
  | distReceive : s.dist = .receiving → s.receiveQueue = m :: queue →
      Step s .distReceive { s with dist := .received m, receiveQueue := queue }
  | distHandle : s.dist = .received m → distRequest pf inits ⟨s.services, []⟩ m.msg = .ok (dri, r) →
      finishRequest dri r = .ok d →
      Step s (.distHandle pf inits)
        { s with services := d.services,
                 dist := .answering (if r.2 = 300 then none else some m) d.sendQueue.reverse }
  | distSend : s.dist = .answering m (msg :: rest) →
      Step s (.distSend taken)
        { s with dist := .answering m rest, sendQueue := put s.sendQueue msg taken }
  | distFinish : s.dist = .answering m [] →
      Step s .distFinish
        { s with dist := .receiving, deleted := (m.map Parsed.address).toList ++ s.deleted }
  -- `iw_fw_lwMsgTx`
  | txStart : s.tx = .starting →
      Step s .txStart { s with tx := .receiving, respQueue := s.respQueue.or (some []) }
  | txReceive : s.tx = .receiving → s.sendQueue = msg :: queue → txBranch msg = .ok tx →
      Step s .txReceive { s with tx := tx, sendQueue := queue }
  | txPost : s.tx = .requesting req phase .nothing → TxStep req phase (.post taken) phase' →
      Step s (.txSend taken) { s with tx := .requesting req phase' .nothing }
  | txRespond : s.tx = .responding frame → Step s (.txSend taken) { s with tx := .finishing }
  | txPollNothing : s.tx = .requesting req phase .nothing → s.respQueue = some [] →
      TxStep req phase (.poll none) phase' →
      Step s .txPoll { s with tx := .requesting req phase' .nothing }
  | txPoll : s.tx = .requesting req (.waiting i waited) .nothing → s.respQueue = some (m :: queue) →
      Step s .txPoll
        { s with tx := .requesting req (.waiting i waited) (.unread m), respQueue := some queue }
  | txRead : s.tx = .requesting req phase (.unread m) →
      TxStep req phase (.poll (some m.msg)) phase' → txEffect dri taken s phase' = .ok s' →
      Step s (.txRead dri taken) { s' with tx := .requesting req phase' (.read m) }
  | txDelete : s.tx = .requesting req phase (.read m) →
      Step s .txDelete
        { s with tx := .requesting req phase .nothing, deleted := m.address :: s.deleted }
  | txLeave : s.tx = .requesting req phase .nothing → TxPhase.Left phase →
      Step s .txFinish { s with tx := .receiving }
  | txFinish : s.tx = .finishing → Step s .txFinish { s with tx := .receiving }
  -- the others
  | request : getLwmInterfaceId msg ≠ .ok 2 →
      Step s (.request msg taken) { s with sendQueue := put s.sendQueue msg taken }
  | run : Step s (.run services) { s with services := services }

end IoTware.Dist
