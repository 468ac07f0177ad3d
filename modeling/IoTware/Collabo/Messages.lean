import IoTware.Collabo.Attributes

/-!
# Messages

The parsers of the collaboration messages, and the serializers of those with
attributes. A parser's local structure and, where a function ends without a
`return`, its return slot are parameters: they hold what the stack held before.
-/

namespace IoTware.Collabo

open Codec Memory

-- ---------------------------------------------------------------------------
-- Messages of a fixed size
-- ---------------------------------------------------------------------------

/-- A structure is copied if there are enough bytes; `buf` is not initialised. -/
def structParse (format : Fixed τ) (buf : τ) (msg : Bytes) (size : Nat) : Reads τ :=
  if format.size ≤ size then do
    let bytes ← Reads.bytes msg 0 format.size
    return format.unpack bytes
  else return buf

def cmHeaderParse : CMFixedHeader → Bytes → Nat → Reads CMFixedHeader :=
  structParse CMFixedHeader.format

def cmDefaultAckParse : CMDefaultAckMsg → Bytes → Nat → Reads CMDefaultAckMsg :=
  structParse CMDefaultAckMsg.format

def headerMsgParse (buf : CMHeaderMsg η) (headerParse : Reads η) : Reads (CMHeaderMsg η) := do
  let header ← headerParse
  return { buf with header }

/-- The stack before a parser runs, as its structures see it. -/
structure Stack (pointerSize : Nat) where
  header : CMFixedHeader
  defaultAck : CMDefaultAckMsg
  headerMsg : CMHeaderMsg CMFixedHeader
  ackMsg : CMHeaderMsg CMDefaultAckMsg
  connectMsg : CMConnectMsg
  modeMsg : CMModeMsg CMFixedHeader
  statusAckMsg : CMModeMsg CMDefaultAckMsg
  tasksMsg : CMTasksMsg pointerSize
  attributesMsg : CMPayloadMsg CMFixedHeader UInt8 CMAttributePayload
  valuesMsg : CMPayloadMsg CMFixedHeader UInt8 CMAttributeValuePayload
  valuesAckMsg : CMPayloadMsg CMDefaultAckMsg Unit CMAttributeValuePayload
  payloadSlot : Pointer CMAttributeWritePayload

variable {pointerSize : Nat}

def fill (format : Fixed τ) (b : UInt8) : τ := format.unpack (List.replicate format.size b)

def Pointer.fill (b : UInt8) : Pointer α := if b = 0 then .null else .wild b.toNat

def Stack.filled (pointerSize : Nat) (b : UInt8) : Stack pointerSize where
  header := fill CMFixedHeader.format b
  defaultAck := fill CMDefaultAckMsg.format b
  headerMsg := ⟨fill CMFixedHeader.format b⟩
  ackMsg := ⟨fill CMDefaultAckMsg.format b⟩
  connectMsg := fill CMConnectMsg.format b
  modeMsg := fill (CMModeMsg.format CMFixedHeader.format) b
  statusAckMsg := fill (CMModeMsg.format CMDefaultAckMsg.format) b
  tasksMsg := fill (CMTasksMsg.format pointerSize) b
  attributesMsg := ⟨fill (CMFixedPart.format CMFixedHeader.format) b, .fill b⟩
  valuesMsg := ⟨fill (CMFixedPart.format CMFixedHeader.format) b, .fill b⟩
  valuesAckMsg := ⟨fill (CMFixedPart.format CMDefaultAckMsg.format) b, .fill b⟩
  payloadSlot := .fill b

/-- `cm_msg_x00_parse`, and the same body in `cm_msg_x05_parse`, `cm_msg_x11_parse` and
`cm_msg_x12_parse`. -/
def headerOnlyParse (stack : Stack pointerSize) (msg : Bytes) (size : Nat) :
    Reads (CMHeaderMsg CMFixedHeader) :=
  headerMsgParse stack.headerMsg (cmHeaderParse stack.header msg size)

def cmMsgX00Parse (stack : Stack pointerSize) : Bytes → Nat → Reads CMServerAdvertiseMsg :=
  headerOnlyParse stack

def cmMsgX05Parse (stack : Stack pointerSize) : Bytes → Nat → Reads CMCheckStatusMsg :=
  headerOnlyParse stack

def cmMsgX11Parse (stack : Stack pointerSize) : Bytes → Nat → Reads CMTaskRunAllMsg :=
  headerOnlyParse stack

def cmMsgX12Parse (stack : Stack pointerSize) : Bytes → Nat → Reads CMTaskStopAllMsg :=
  headerOnlyParse stack

def ackOnlyParse (stack : Stack pointerSize) (msg : Bytes) (size : Nat) :
    Reads (CMHeaderMsg CMDefaultAckMsg) :=
  headerMsgParse stack.ackMsg (cmDefaultAckParse stack.defaultAck msg size)

def cmMsgX02AckParse (stack : Stack pointerSize) : Bytes → Nat → Reads CMConnectAckMsg :=
  ackOnlyParse stack

def cmMsgX03AckParse (stack : Stack pointerSize) : Bytes → Nat → Reads CMMemberInfoAckMsg :=
  ackOnlyParse stack

def cmMsgX04AckParse (stack : Stack pointerSize) : Bytes → Nat → Reads CMSetDeviceModeAckMsg :=
  ackOnlyParse stack

def cmMsgX10AckParse (stack : Stack pointerSize) : Bytes → Nat → Reads CMTaskCreationAckMsg :=
  ackOnlyParse stack

def cmMsgX11AckParse (stack : Stack pointerSize) : Bytes → Nat → Reads CMTaskRunAllAckMsg :=
  ackOnlyParse stack

def cmMsgX12AckParse (stack : Stack pointerSize) : Bytes → Nat → Reads CMTaskStopAllAckMsg :=
  ackOnlyParse stack

def cmMsgX13AckParse (stack : Stack pointerSize) : Bytes → Nat → Reads CMTaskRunAckMsg :=
  ackOnlyParse stack

def cmMsgX14AckParse (stack : Stack pointerSize) : Bytes → Nat → Reads CMTaskStopAckMsg :=
  ackOnlyParse stack

def cmMsgX15AckParse (stack : Stack pointerSize) : Bytes → Nat → Reads CMAttributeWriteAckMsg :=
  ackOnlyParse stack

def cmMsgX17AckParse (stack : Stack pointerSize) : Bytes → Nat → Reads CMTaskInputDataAckMsg :=
  ackOnlyParse stack

def cmMsgX18AckParse (stack : Stack pointerSize) : Bytes → Nat → Reads CMTaskOutputDataAckMsg :=
  ackOnlyParse stack

def cmMsgX02Parse (stack : Stack pointerSize) : Bytes → Nat → Reads CMConnectMsg :=
  structParse CMConnectMsg.format stack.connectMsg

def cmMsgX04Parse (stack : Stack pointerSize) : Bytes → Nat → Reads CMSetDeviceModeMsg :=
  structParse (CMModeMsg.format CMFixedHeader.format) stack.modeMsg

def cmMsgX05AckParse (stack : Stack pointerSize) : Bytes → Nat → Reads CMCheckStatusAckMsg :=
  structParse (CMModeMsg.format CMDefaultAckMsg.format) stack.statusAckMsg

def cmMsgX10Parse (stack : Stack pointerSize) : Bytes → Nat → Reads (CMTaskCreationMsg pointerSize) :=
  structParse (CMTasksMsg.format pointerSize) stack.tasksMsg

def cmMsgX13Parse (stack : Stack pointerSize) : Bytes → Nat → Reads (CMTaskRunMsg pointerSize) :=
  structParse (CMTasksMsg.format pointerSize) stack.tasksMsg

def cmMsgX14Parse (stack : Stack pointerSize) : Bytes → Nat → Reads (CMTaskStopMsg pointerSize) :=
  structParse (CMTasksMsg.format pointerSize) stack.tasksMsg

-- ---------------------------------------------------------------------------
-- Messages with attributes
-- ---------------------------------------------------------------------------

/-- The parts of a message with attributes. -/
structure PayloadFormat (η τ α : Type) where
  fixed : Fixed (CMFixedPart η)
  head : Fixed (CMPayloadHead τ)
  attributes : AttributesFormat α

/-- The payload is read before it is compared with NULL. -/
def messageSerialize (F : PayloadFormat η τ α) (msg : CMPayloadMsg η τ α) :
    Except Fault (List UInt8 × Nat) := do
  let payload ← msg.payload.deref
  let count := payload.attrCount.toNat + 1
  let size := F.fixed.size + F.head.size + (← F.attributes.serializeSize payload.attributes count)
  let buf ← memcpy (List.replicate size 0) 0 (F.fixed.pack msg.toCMFixedPart)
  let buf ← memcpy buf F.fixed.size (F.head.pack payload.toCMPayloadHead)
  let buf ← F.attributes.serialize payload.attributes count buf (F.fixed.size + F.head.size)
  return (buf, size)

/-- The bytes of the payload from `pt` on. -/
def payloadParse (F : PayloadFormat η τ α) (msg : Bytes) (pt size : Nat) :
    Reads (Pointer (CMPayload τ α)) :=
  if F.head.size ≤ size then do
    let bytes ← Reads.bytes msg pt F.head.size
    let head := F.head.unpack bytes
    let attributes ← F.attributes.parse msg (pt + F.head.size) (size - F.head.size)
      head.attrCount.toNat
    return .object { head with attributes }
  else return .null

def messageParse (F : PayloadFormat η τ α)
    (payloadParse : Bytes → Nat → Nat → Reads (Pointer (CMPayload τ α)))
    (buf : CMPayloadMsg η τ α) (msg : Bytes) (size : Nat) : Reads (CMPayloadMsg η τ α) :=
  if F.fixed.size ≤ size then do
    let bytes ← Reads.bytes msg 0 F.fixed.size
    let payload ← payloadParse msg F.fixed.size (size - F.fixed.size)
    return { F.fixed.unpack bytes with payload }
  else return buf

def memberInfo : PayloadFormat CMFixedHeader UInt8 CMAttributePayload where
  fixed := CMFixedPart.format CMFixedHeader.format
  head := CMPayloadHead.format .byte
  attributes := attributesFormat

def attributeWrite : PayloadFormat CMFixedHeader UInt8 CMAttributeValuePayload where
  fixed := CMFixedPart.format CMFixedHeader.format
  head := CMPayloadHead.format .byte
  attributes := attributeValuesFormat

def attributeReadAck : PayloadFormat CMDefaultAckMsg Unit CMAttributeValuePayload where
  fixed := CMFixedPart.format CMDefaultAckMsg.format
  head := CMPayloadHead.format .nothing
  attributes := attributeValuesFormat

abbrev attributeRead := memberInfo

abbrev taskInputData := attributeWrite

abbrev taskOutputData := attributeWrite

def cmMsgX03Serialize : CMMemberInfoMsg → Except Fault (List UInt8 × Nat) :=
  messageSerialize memberInfo

def cmMsgX15Serialize : CMAttributeWriteMsg → Except Fault (List UInt8 × Nat) :=
  messageSerialize attributeWrite

def cmMsgX16Serialize : CMAttributeReadMsg → Except Fault (List UInt8 × Nat) :=
  messageSerialize attributeRead

def cmMsgX16AckSerialize : CMAttributeReadAckMsg → Except Fault (List UInt8 × Nat) :=
  messageSerialize attributeReadAck

def cmMsgX17Serialize : CMTaskInputDataMsg → Except Fault (List UInt8 × Nat) :=
  messageSerialize taskInputData

def cmMsgX18Serialize : CMTaskOutputDataMsg → Except Fault (List UInt8 × Nat) :=
  messageSerialize taskOutputData

def payloadParseX03 : Bytes → Nat → Nat → Reads (Pointer CMMemberInfoPayload) :=
  payloadParse memberInfo

def cmMsgX03Parse (stack : Stack pointerSize) : Bytes → Nat → Reads CMMemberInfoMsg :=
  messageParse memberInfo payloadParseX03 stack.attributesMsg

/-- `payload_parse` of `0x15` ends without a `return` when there are too few bytes. -/
def payloadParseX15 (slot : Pointer CMAttributeWritePayload) (msg : Bytes) (pt size : Nat) :
    Reads (Pointer CMAttributeWritePayload) :=
  if attributeWrite.head.size ≤ size then do
    let bytes ← Reads.bytes msg pt attributeWrite.head.size
    let head := attributeWrite.head.unpack bytes
    let attributes ← attributeWrite.attributes.parse msg (pt + attributeWrite.head.size)
      (size - attributeWrite.head.size) head.attrCount.toNat
    return .object { head with attributes }
  else return slot

def cmMsgX15Parse (stack : Stack pointerSize) : Bytes → Nat → Reads CMAttributeWriteMsg :=
  messageParse attributeWrite (payloadParseX15 stack.payloadSlot) stack.valuesMsg

def payloadParseX16 : Bytes → Nat → Nat → Reads (Pointer CMAttributeReadPayload) :=
  payloadParse attributeRead

def cmMsgX16Parse (stack : Stack pointerSize) : Bytes → Nat → Reads CMAttributeReadMsg :=
  messageParse attributeRead payloadParseX16 stack.attributesMsg

def ackPayloadParseX16 : Bytes → Nat → Nat → Reads (Pointer CMAttributeReadAckPayload) :=
  payloadParse attributeReadAck

def cmMsgX16AckParse (stack : Stack pointerSize) : Bytes → Nat → Reads CMAttributeReadAckMsg :=
  messageParse attributeReadAck ackPayloadParseX16 stack.valuesAckMsg

def payloadParseX17 : Bytes → Nat → Nat → Reads (Pointer CMTaskInputDataPayload) :=
  payloadParse taskInputData

def cmMsgX17Parse (stack : Stack pointerSize) : Bytes → Nat → Reads CMTaskInputDataMsg :=
  messageParse taskInputData payloadParseX17 stack.valuesMsg

def payloadParseX18 : Bytes → Nat → Nat → Reads (Pointer CMTaskOutputDataPayload) :=
  payloadParse taskOutputData

def cmMsgX18Parse (stack : Stack pointerSize) : Bytes → Nat → Reads CMTaskOutputDataMsg :=
  messageParse taskOutputData payloadParseX18 stack.valuesMsg

/-- The message has a payload with `attr_count + 1` attributes, all of them `good`. -/
def CMPayloadMsg.HasAttributes (good : α → Prop) (msg : CMPayloadMsg η τ α) : Prop :=
  ∃ payload attributes, msg.payload = .object payload ∧ payload.attributes = .object attributes ∧
    attributes.length = payload.attrCount.toNat + 1 ∧ ∀ a ∈ attributes, good a

inductive PayloadMessage
  | x03 | x15 | x16 | x16Ack | x17 | x18
  deriving DecidableEq

namespace PayloadMessage

def Msg : PayloadMessage → Type
  | .x03 => CMMemberInfoMsg
  | .x15 => CMAttributeWriteMsg
  | .x16 => CMAttributeReadMsg
  | .x16Ack => CMAttributeReadAckMsg
  | .x17 => CMTaskInputDataMsg
  | .x18 => CMTaskOutputDataMsg

def serialize : (p : PayloadMessage) → p.Msg → Except Fault (List UInt8 × Nat)
  | .x03 => cmMsgX03Serialize
  | .x15 => cmMsgX15Serialize
  | .x16 => cmMsgX16Serialize
  | .x16Ack => cmMsgX16AckSerialize
  | .x17 => cmMsgX17Serialize
  | .x18 => cmMsgX18Serialize

def parse : (p : PayloadMessage) → Stack pointerSize → Bytes → Nat → Reads p.Msg
  | .x03 => cmMsgX03Parse
  | .x15 => cmMsgX15Parse
  | .x16 => cmMsgX16Parse
  | .x16Ack => cmMsgX16AckParse
  | .x17 => cmMsgX17Parse
  | .x18 => cmMsgX18Parse

/-- The payload holds `attr_count + 1` attributes, with the values their
`value_length` says. -/
def WellFormed : (p : PayloadMessage) → p.Msg → Prop
  | .x03 | .x16 => CMPayloadMsg.HasAttributes fun _ => True
  | .x15 | .x16Ack | .x17 | .x18 => CMPayloadMsg.HasAttributes CMAttributeValuePayload.HasValues

/-- The number of attributes that the byte of `attr_count` says. -/
def attributeCount (msg : Bytes) : Nat := (sixTwoByte.unpack (block msg 3 1)).2.toNat + 1

/-- The length that the bytes say the message to have: four bytes and the attributes. -/
def claimedSize : PayloadMessage → Bytes → Nat
  | .x03, msg | .x16, msg => 4 + attributeCount msg
  | .x15, msg | .x16Ack, msg | .x17, msg | .x18, msg =>
    4 + claimedValues msg 4 (attributeCount msg)

end PayloadMessage

end IoTware.Collabo
