import IoTware.Collabo.Defaults

/-!
# Messages of a fixed size

The serializers of the messages without attributes, and the static messages that a
program starts from. A message is copied as it lies in memory, so its pointer goes on the
wire as its bytes.
-/

namespace IoTware.Collabo

open Codec Memory

variable {pointerSize : Nat}

-- ---------------------------------------------------------------------------
-- Serializers
-- ---------------------------------------------------------------------------

def structSerialize (format : Fixed τ) (msg : τ) : Except Fault (List UInt8 × Nat) := do
  let buf ← memcpy (List.replicate format.size 0) 0 (format.pack msg)
  return (buf, format.size)

def cmHeaderSerialize : CMFixedHeader → Except Fault (List UInt8 × Nat) :=
  structSerialize CMFixedHeader.format

def cmDefaultAckSerialize : CMDefaultAckMsg → Except Fault (List UInt8 × Nat) :=
  structSerialize CMDefaultAckMsg.format

def cmMsgX00Serialize (msg : CMServerAdvertiseMsg) := cmHeaderSerialize msg.header

def cmMsgX05Serialize (msg : CMCheckStatusMsg) := cmHeaderSerialize msg.header

def cmMsgX11Serialize (msg : CMTaskRunAllMsg) := cmHeaderSerialize msg.header

def cmMsgX12Serialize (msg : CMTaskStopAllMsg) := cmHeaderSerialize msg.header

def cmMsgX02AckSerialize (msg : CMConnectAckMsg) := cmDefaultAckSerialize msg.header

def cmMsgX03AckSerialize (msg : CMMemberInfoAckMsg) := cmDefaultAckSerialize msg.header

def cmMsgX04AckSerialize (msg : CMSetDeviceModeAckMsg) := cmDefaultAckSerialize msg.header

def cmMsgX10AckSerialize (msg : CMTaskCreationAckMsg) := cmDefaultAckSerialize msg.header

def cmMsgX11AckSerialize (msg : CMTaskRunAllAckMsg) := cmDefaultAckSerialize msg.header

def cmMsgX12AckSerialize (msg : CMTaskStopAllAckMsg) := cmDefaultAckSerialize msg.header

def cmMsgX13AckSerialize (msg : CMTaskRunAckMsg) := cmDefaultAckSerialize msg.header

def cmMsgX14AckSerialize (msg : CMTaskStopAckMsg) := cmDefaultAckSerialize msg.header

def cmMsgX15AckSerialize (msg : CMAttributeWriteAckMsg) := cmDefaultAckSerialize msg.header

def cmMsgX17AckSerialize (msg : CMTaskInputDataAckMsg) := cmDefaultAckSerialize msg.header

def cmMsgX18AckSerialize (msg : CMTaskOutputDataAckMsg) := cmDefaultAckSerialize msg.header

def cmMsgX02Serialize : CMConnectMsg → Except Fault (List UInt8 × Nat) :=
  structSerialize CMConnectMsg.format

def cmMsgX04Serialize : CMSetDeviceModeMsg → Except Fault (List UInt8 × Nat) :=
  structSerialize (CMModeMsg.format CMFixedHeader.format)

def cmMsgX05AckSerialize : CMCheckStatusAckMsg → Except Fault (List UInt8 × Nat) :=
  structSerialize (CMModeMsg.format CMDefaultAckMsg.format)

def cmMsgX10Serialize : CMTaskCreationMsg pointerSize → Except Fault (List UInt8 × Nat) :=
  structSerialize (CMTasksMsg.format pointerSize)

def cmMsgX13Serialize : CMTaskRunMsg pointerSize → Except Fault (List UInt8 × Nat) :=
  structSerialize (CMTasksMsg.format pointerSize)

def cmMsgX14Serialize : CMTaskStopMsg pointerSize → Except Fault (List UInt8 × Nat) :=
  structSerialize (CMTasksMsg.format pointerSize)

-- ---------------------------------------------------------------------------
-- Initial values
-- ---------------------------------------------------------------------------

def requestHeader (messageId : BitVec 5) (qos : BitVec 1) : CMFixedHeader where
  ack := cmAckReqMsg
  messageId := messageId
  dup := 0
  qos := qos

def ackHeader (messageId : BitVec 5) : CMDefaultAckMsg where
  ack := cmAckMsgId
  messageId := messageId
  dup := 0
  qos := cmQosAckNone
  reserved := 0
  returnCode := 0

def cmMsgX00 : CMServerAdvertiseMsg := ⟨requestHeader 0x00 cmQosAckNone⟩

def cmMsgX02 : CMConnectMsg where
  header := requestHeader 0x02 cmQosAckNeed
  reserved := 0
  length := 0
  protocolVersion := 0
  idFlag := 0
  pwdFlag := 0
  undefined := 0
  keepAlive := 0

def cmMsgX02Ack : CMConnectAckMsg := ⟨ackHeader 0x02⟩

def cmMsgX03Ack : CMMemberInfoAckMsg := ⟨ackHeader 0x03⟩

def cmMsgX04 : CMSetDeviceModeMsg where
  header := requestHeader 0x04 cmQosAckNeed
  reserved := 0
  length := 1
  mode := 0
  wakeUpInterval := 0

def cmMsgX04Ack : CMSetDeviceModeAckMsg := ⟨ackHeader 0x04⟩

def cmMsgX05 : CMCheckStatusMsg := ⟨requestHeader 0x05 cmQosAckNeed⟩

def cmMsgX05Ack : CMCheckStatusAckMsg where
  header := ackHeader 0x05
  reserved := 0
  length := 1
  mode := 0
  wakeUpInterval := 0

def tasksRequest (messageId : BitVec 5) : CMTasksMsg pointerSize where
  header := requestHeader messageId cmQosAckNeed
  reserved := 0
  length := 0
  tasks _ := 0

def cmMsgX10 : CMTaskCreationMsg pointerSize := tasksRequest 0x10

def cmMsgX10Ack : CMTaskCreationAckMsg := ⟨ackHeader 0x10⟩

def cmMsgX11 : CMTaskRunAllMsg := ⟨requestHeader 0x11 cmQosAckNeed⟩

def cmMsgX11Ack : CMTaskRunAllAckMsg := ⟨ackHeader 0x11⟩

def cmMsgX12 : CMTaskStopAllMsg := ⟨requestHeader 0x12 cmQosAckNeed⟩

def cmMsgX12Ack : CMTaskStopAllAckMsg := ⟨ackHeader 0x12⟩

def cmMsgX13 : CMTaskRunMsg pointerSize := tasksRequest 0x13

def cmMsgX13Ack : CMTaskRunAckMsg := ⟨ackHeader 0x13⟩

def cmMsgX14 : CMTaskStopMsg pointerSize := tasksRequest 0x14

def cmMsgX14Ack : CMTaskStopAckMsg := ⟨ackHeader 0x14⟩

def cmMsgX15Ack : CMAttributeWriteAckMsg := ⟨ackHeader 0x15⟩

def cmMsgX17Ack : CMTaskInputDataAckMsg := ⟨ackHeader 0x17⟩

def cmMsgX18Ack : CMTaskOutputDataAckMsg := ⟨ackHeader 0x18⟩

-- ---------------------------------------------------------------------------
-- The set of them
-- ---------------------------------------------------------------------------

inductive Shape
  | header | ack | connect | mode | statusAck | tasks

def Shape.Msg (pointerSize : Nat) : Shape → Type
  | .header => CMHeaderMsg CMFixedHeader
  | .ack => CMHeaderMsg CMDefaultAckMsg
  | .connect => CMConnectMsg
  | .mode => CMModeMsg CMFixedHeader
  | .statusAck => CMModeMsg CMDefaultAckMsg
  | .tasks => CMTasksMsg pointerSize

def CMHeaderMsg.format (header : Fixed η) : Fixed (CMHeaderMsg η) :=
  header.map
    { toFun h := ⟨h⟩
      invFun m := m.header
      left_inv _ := rfl
      right_inv _ := rfl }

def Shape.format (pointerSize : Nat) : (s : Shape) → Fixed (s.Msg pointerSize)
  | .header => CMHeaderMsg.format CMFixedHeader.format
  | .ack => CMHeaderMsg.format CMDefaultAckMsg.format
  | .connect => CMConnectMsg.format
  | .mode => CMModeMsg.format CMFixedHeader.format
  | .statusAck => CMModeMsg.format CMDefaultAckMsg.format
  | .tasks => CMTasksMsg.format pointerSize

inductive FixedMessage
  | x00 | x02 | x02Ack | x03Ack | x04 | x04Ack | x05 | x05Ack | x10 | x10Ack | x11 | x11Ack
  | x12 | x12Ack | x13 | x13Ack | x14 | x14Ack | x15Ack | x17Ack | x18Ack
  deriving DecidableEq

namespace FixedMessage

def shape : FixedMessage → Shape
  | .x00 | .x05 | .x11 | .x12 => .header
  | .x02Ack | .x03Ack | .x04Ack | .x10Ack | .x11Ack | .x12Ack | .x13Ack | .x14Ack | .x15Ack
  | .x17Ack | .x18Ack => .ack
  | .x02 => .connect
  | .x04 => .mode
  | .x05Ack => .statusAck
  | .x10 | .x13 | .x14 => .tasks

abbrev Msg (pointerSize : Nat) (k : FixedMessage) : Type := k.shape.Msg pointerSize

def serialize : (k : FixedMessage) → k.Msg pointerSize → Except Fault (List UInt8 × Nat)
  | .x00 => cmMsgX00Serialize
  | .x02 => cmMsgX02Serialize
  | .x02Ack => cmMsgX02AckSerialize
  | .x03Ack => cmMsgX03AckSerialize
  | .x04 => cmMsgX04Serialize
  | .x04Ack => cmMsgX04AckSerialize
  | .x05 => cmMsgX05Serialize
  | .x05Ack => cmMsgX05AckSerialize
  | .x10 => cmMsgX10Serialize
  | .x10Ack => cmMsgX10AckSerialize
  | .x11 => cmMsgX11Serialize
  | .x11Ack => cmMsgX11AckSerialize
  | .x12 => cmMsgX12Serialize
  | .x12Ack => cmMsgX12AckSerialize
  | .x13 => cmMsgX13Serialize
  | .x13Ack => cmMsgX13AckSerialize
  | .x14 => cmMsgX14Serialize
  | .x14Ack => cmMsgX14AckSerialize
  | .x15Ack => cmMsgX15AckSerialize
  | .x17Ack => cmMsgX17AckSerialize
  | .x18Ack => cmMsgX18AckSerialize

def parse : (k : FixedMessage) → Stack pointerSize → Bytes → Nat → Reads (k.Msg pointerSize)
  | .x00 => cmMsgX00Parse
  | .x02 => cmMsgX02Parse
  | .x02Ack => cmMsgX02AckParse
  | .x03Ack => cmMsgX03AckParse
  | .x04 => cmMsgX04Parse
  | .x04Ack => cmMsgX04AckParse
  | .x05 => cmMsgX05Parse
  | .x05Ack => cmMsgX05AckParse
  | .x10 => cmMsgX10Parse
  | .x10Ack => cmMsgX10AckParse
  | .x11 => cmMsgX11Parse
  | .x11Ack => cmMsgX11AckParse
  | .x12 => cmMsgX12Parse
  | .x12Ack => cmMsgX12AckParse
  | .x13 => cmMsgX13Parse
  | .x13Ack => cmMsgX13AckParse
  | .x14 => cmMsgX14Parse
  | .x14Ack => cmMsgX14AckParse
  | .x15Ack => cmMsgX15AckParse
  | .x17Ack => cmMsgX17AckParse
  | .x18Ack => cmMsgX18AckParse

def default : (k : FixedMessage) → k.Msg pointerSize
  | .x00 => cmMsgX00
  | .x02 => cmMsgX02
  | .x02Ack => cmMsgX02Ack
  | .x03Ack => cmMsgX03Ack
  | .x04 => cmMsgX04
  | .x04Ack => cmMsgX04Ack
  | .x05 => cmMsgX05
  | .x05Ack => cmMsgX05Ack
  | .x10 => cmMsgX10
  | .x10Ack => cmMsgX10Ack
  | .x11 => cmMsgX11
  | .x11Ack => cmMsgX11Ack
  | .x12 => cmMsgX12
  | .x12Ack => cmMsgX12Ack
  | .x13 => cmMsgX13
  | .x13Ack => cmMsgX13Ack
  | .x14 => cmMsgX14
  | .x14Ack => cmMsgX14Ack
  | .x15Ack => cmMsgX15Ack
  | .x17Ack => cmMsgX17Ack
  | .x18Ack => cmMsgX18Ack

-- ---------------------------------------------------------------------------
-- Writing and reading
-- ---------------------------------------------------------------------------

def format (pointerSize : Nat) (k : FixedMessage) : Fixed (k.Msg pointerSize) :=
  k.shape.format pointerSize

theorem structSerialize_eq (format : Fixed τ) (msg : τ) :
    structSerialize format msg = .ok (format.pack msg, format.size) := by
  have hbuf : memcpy ([] ++ List.replicate format.size 0) 0 (format.pack msg) =
      .ok ([] ++ format.pack msg ++ List.replicate 0 0) :=
    memcpy_zeros rfl (format.length_pack msg).symm
  simp only [List.nil_append, List.replicate_zero, List.append_nil] at hbuf
  simp [structSerialize, hbuf, bind, Except.bind, pure, Except.pure]

theorem serialize_eq (k : FixedMessage) (msg : k.Msg pointerSize) :
    k.serialize msg = .ok ((k.format pointerSize).pack msg, (k.format pointerSize).size) := by
  cases k <;> exact structSerialize_eq _ _

theorem structParse_value (format : Fixed τ) (buf : τ) (mem : Bytes) (h : format.size ≤ size) :
    (structParse format buf mem size).value = format.unpack (block mem 0 format.size) := by
  simp [structParse, h]

theorem parse_eq (k : FixedMessage) (stack : Stack pointerSize) (mem : Bytes)
    (h : (k.format pointerSize).size ≤ size) :
    (k.parse stack mem size).value =
      (k.format pointerSize).unpack (block mem 0 (k.format pointerSize).size) := by
  have hheader : CMFixedHeader.format.size ≤ size →
      (headerOnlyParse stack mem size).value =
        (CMHeaderMsg.format CMFixedHeader.format).unpack (block mem 0 CMFixedHeader.format.size) :=
    fun h => congrArg CMHeaderMsg.mk (structParse_value _ stack.header mem h)
  have hack : CMDefaultAckMsg.format.size ≤ size →
      (ackOnlyParse stack mem size).value =
        (CMHeaderMsg.format CMDefaultAckMsg.format).unpack (block mem 0 CMDefaultAckMsg.format.size) :=
    fun h => congrArg CMHeaderMsg.mk (structParse_value _ stack.defaultAck mem h)
  cases k with
  | x00 | x05 | x11 | x12 => exact hheader h
  | x02Ack | x03Ack | x04Ack | x10Ack | x11Ack | x12Ack | x13Ack | x14Ack | x15Ack | x17Ack | x18Ack =>
    exact hack h
  | x02 | x04 | x05Ack | x10 | x13 | x14 => exact structParse_value _ _ mem h

end FixedMessage

end IoTware.Collabo
