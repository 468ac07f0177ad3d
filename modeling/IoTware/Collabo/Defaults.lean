import IoTware.Collabo.RoundTrip

/-!
# Messages without a payload

The messages that `cm_msg_x03` and its siblings start from have a NULL payload. No such
message is serialized: the sizes are computed from the payload before it is compared with
NULL.
-/

namespace IoTware.Collabo

open Codec Memory

def cmAckReqMsg : BitVec 1 := 0

def cmAckMsgId : BitVec 1 := 1

def cmQosAckNone : BitVec 1 := 0

def cmQosAckNeed : BitVec 1 := 1

def defaultRequest (messageId : BitVec 5) : CMPayloadMsg CMFixedHeader τ α where
  header := { ack := cmAckReqMsg, messageId, dup := 0, qos := cmQosAckNeed }
  reserved := 0
  length := 0
  payload := .null

def cmMsgX03 : CMMemberInfoMsg := defaultRequest 0x03

def cmMsgX15 : CMAttributeWriteMsg := defaultRequest 0x15

def cmMsgX16 : CMAttributeReadMsg := defaultRequest 0x16

def cmMsgX16Ack : CMAttributeReadAckMsg where
  header :=
    { ack := cmAckMsgId, messageId := 0x16, dup := 0, qos := cmQosAckNone, reserved := 0, returnCode := 0 }
  reserved := 0
  length := 0
  payload := .null

def cmMsgX17 : CMTaskInputDataMsg := defaultRequest 0x17

def cmMsgX18 : CMTaskOutputDataMsg := defaultRequest 0x18

namespace PayloadMessage

def default : (p : PayloadMessage) → p.Msg
  | .x03 => cmMsgX03
  | .x15 => cmMsgX15
  | .x16 => cmMsgX16
  | .x16Ack => cmMsgX16Ack
  | .x17 => cmMsgX17
  | .x18 => cmMsgX18

def NoPayload : (p : PayloadMessage) → p.Msg → Prop
  | .x03, (msg : CMMemberInfoMsg) => msg.payload = .null
  | .x15, (msg : CMAttributeWriteMsg) => msg.payload = .null
  | .x16, (msg : CMAttributeReadMsg) => msg.payload = .null
  | .x16Ack, (msg : CMAttributeReadAckMsg) => msg.payload = .null
  | .x17, (msg : CMTaskInputDataMsg) => msg.payload = .null
  | .x18, (msg : CMTaskOutputDataMsg) => msg.payload = .null

def SameHeader : (p : PayloadMessage) → p.Msg → p.Msg → Prop
  | .x03, (msg : CMMemberInfoMsg), (msg' : CMMemberInfoMsg) => msg.header = msg'.header
  | .x15, (msg : CMAttributeWriteMsg), (msg' : CMAttributeWriteMsg) => msg.header = msg'.header
  | .x16, (msg : CMAttributeReadMsg), (msg' : CMAttributeReadMsg) => msg.header = msg'.header
  | .x16Ack, (msg : CMAttributeReadAckMsg), (msg' : CMAttributeReadAckMsg) => msg.header = msg'.header
  | .x17, (msg : CMTaskInputDataMsg), (msg' : CMTaskInputDataMsg) => msg.header = msg'.header
  | .x18, (msg : CMTaskOutputDataMsg), (msg' : CMTaskOutputDataMsg) => msg.header = msg'.header

/-- The message is serialized, and its bytes give its header and no payload. -/
def ComesBack (p : PayloadMessage) (pointerSize : Nat) (msg : p.Msg) : Prop :=
  ∃ bytes, p.serialize msg = .ok (bytes, bytes.length) ∧
    ∀ (stack : Stack pointerSize) mem, block mem 0 bytes.length = bytes →
      p.SameHeader (p.parse stack mem bytes.length).value msg ∧
        p.NoPayload (p.parse stack mem bytes.length).value

end PayloadMessage

theorem messageSerialize_null (F : PayloadFormat η τ α) {msg : CMPayloadMsg η τ α}
    (h : msg.payload = .null) : messageSerialize F msg = .error .nullPointer := by
  unfold messageSerialize
  rw [h]
  rfl

theorem serialize_noPayload (p : PayloadMessage) {msg : p.Msg} (h : p.NoPayload msg) :
    p.serialize msg = .error .nullPointer := by
  cases p with
  | x03 => exact messageSerialize_null memberInfo h
  | x15 => exact messageSerialize_null attributeWrite h
  | x16 => exact messageSerialize_null attributeRead h
  | x16Ack => exact messageSerialize_null attributeReadAck h
  | x17 => exact messageSerialize_null taskInputData h
  | x18 => exact messageSerialize_null taskOutputData h

/-- No message without a payload comes back: its serializer goes through NULL. -/
theorem noPayload_not_comesBack (p : PayloadMessage) (pointerSize : Nat) {msg : p.Msg}
    (h : p.NoPayload msg) : ¬ p.ComesBack pointerSize msg := by
  rintro ⟨bytes, hbytes, -⟩
  rw [serialize_noPayload p h] at hbytes
  cases hbytes

theorem cmMsgX16Ack_not_comesBack : ¬ PayloadMessage.x16Ack.ComesBack 4 cmMsgX16Ack :=
  noPayload_not_comesBack .x16Ack 4 rfl

/-- The default message with the information of a member. -/
theorem default_not_serialized :
    ¬ ∀ (p : PayloadMessage) (pointerSize : Nat) (msg : p.Msg), p.NoPayload msg →
      p.ComesBack pointerSize msg := by
  intro h
  obtain ⟨bytes, hbytes, -⟩ := h .x03 4 cmMsgX03 rfl
  cases hbytes

end IoTware.Collabo
