import IoTware.Lib.Codec

/-!
# Message structures

The packed structs of the collaboration messages. Bit-fields fill a byte from its
lowest bit on. A struct without its last pointer member is a struct of its own here:
that much of it is copied to and from the wire.
-/

namespace IoTware.Collabo

open Codec

-- ---------------------------------------------------------------------------
-- Headers
-- ---------------------------------------------------------------------------

structure CMFixedHeader where
  ack : BitVec 1
  messageId : BitVec 5
  dup : BitVec 1
  qos : BitVec 1
  deriving DecidableEq

structure CMDefaultAckMsg where
  ack : BitVec 1
  messageId : BitVec 5
  dup : BitVec 1
  qos : BitVec 1
  reserved : BitVec 2
  returnCode : BitVec 6
  deriving DecidableEq

/-- The byte of `ack`, `message_id`, `dup` and `qos`. -/
def headerByte : Fixed (BitVec 1 × BitVec 5 × BitVec 1 × BitVec 1) :=
  .ofPacked ((Packed.field 1).append ((Packed.field 5).append ((Packed.field 1).append (.field 1))))

/-- A byte of two bits and six, as `reserved` and `length` are. -/
def twoSixByte : Fixed (BitVec 2 × BitVec 6) :=
  .ofPacked ((Packed.field 2).append (.field 6))

/-- A byte of six bits and two, as `object_id` and `attr_count` are. -/
def sixTwoByte : Fixed (BitVec 6 × BitVec 2) :=
  .ofPacked ((Packed.field 6).append (.field 2))

def CMFixedHeader.format : Fixed CMFixedHeader :=
  headerByte.map
    { toFun t := ⟨t.1, t.2.1, t.2.2.1, t.2.2.2⟩
      invFun h := (h.ack, h.messageId, h.dup, h.qos)
      left_inv _ := rfl
      right_inv _ := rfl }

def CMDefaultAckMsg.format : Fixed CMDefaultAckMsg :=
  (headerByte.append twoSixByte).map
    { toFun t := ⟨t.1.1, t.1.2.1, t.1.2.2.1, t.1.2.2.2, t.2.1, t.2.2⟩
      invFun h := ((h.ack, h.messageId, h.dup, h.qos), h.reserved, h.returnCode)
      left_inv _ := rfl
      right_inv _ := rfl }

/-- `struct { header; }`, as of `CMServerAdvertiseMsg` and of the ACK messages. -/
structure CMHeaderMsg (η : Type) where
  header : η
  deriving DecidableEq

structure CMFixedPart (η : Type) where
  header : η
  reserved : BitVec 2
  length : BitVec 6
  deriving DecidableEq

def CMFixedPart.format (header : Fixed η) : Fixed (CMFixedPart η) :=
  (header.append twoSixByte).map
    { toFun t := ⟨t.1, t.2.1, t.2.2⟩
      invFun m := (m.header, m.reserved, m.length)
      left_inv _ := rfl
      right_inv _ := rfl }

-- ---------------------------------------------------------------------------
-- Messages of a fixed size
-- ---------------------------------------------------------------------------

abbrev CMServerAdvertiseMsg := CMHeaderMsg CMFixedHeader
abbrev CMCheckStatusMsg := CMHeaderMsg CMFixedHeader
abbrev CMTaskRunAllMsg := CMHeaderMsg CMFixedHeader
abbrev CMTaskStopAllMsg := CMHeaderMsg CMFixedHeader

abbrev CMConnectAckMsg := CMHeaderMsg CMDefaultAckMsg
abbrev CMMemberInfoAckMsg := CMHeaderMsg CMDefaultAckMsg
abbrev CMSetDeviceModeAckMsg := CMHeaderMsg CMDefaultAckMsg
abbrev CMTaskCreationAckMsg := CMHeaderMsg CMDefaultAckMsg
abbrev CMTaskRunAllAckMsg := CMHeaderMsg CMDefaultAckMsg
abbrev CMTaskStopAllAckMsg := CMHeaderMsg CMDefaultAckMsg
abbrev CMTaskRunAckMsg := CMHeaderMsg CMDefaultAckMsg
abbrev CMTaskStopAckMsg := CMHeaderMsg CMDefaultAckMsg
abbrev CMAttributeWriteAckMsg := CMHeaderMsg CMDefaultAckMsg
abbrev CMTaskInputDataAckMsg := CMHeaderMsg CMDefaultAckMsg
abbrev CMTaskOutputDataAckMsg := CMHeaderMsg CMDefaultAckMsg

structure CMConnectMsg extends CMFixedPart CMFixedHeader where
  protocolVersion : BitVec 4
  idFlag : BitVec 1
  pwdFlag : BitVec 1
  undefined : BitVec 2
  keepAlive : UInt8
  deriving DecidableEq

def CMConnectMsg.format : Fixed CMConnectMsg :=
  ((CMFixedPart.format CMFixedHeader.format).append ((Fixed.ofPacked ((Packed.field 4).append
      ((Packed.field 1).append ((Packed.field 1).append (.field 2))))).append .byte)).map
    { toFun t := ⟨t.1, t.2.1.1, t.2.1.2.1, t.2.1.2.2.1, t.2.1.2.2.2, t.2.2⟩
      invFun m := (m.toCMFixedPart, (m.protocolVersion, m.idFlag, m.pwdFlag, m.undefined),
        m.keepAlive)
      left_inv _ := rfl
      right_inv _ := rfl }

/-- A message with two bits and a wake-up interval: the bits are the `mode` of a
`CMSetDeviceModeMsg` and the `status` of a `CMCheckStatusAckMsg`. -/
structure CMModeMsg (η : Type) extends CMFixedPart η where
  mode : BitVec 2
  wakeUpInterval : BitVec 6
  deriving DecidableEq

abbrev CMSetDeviceModeMsg := CMModeMsg CMFixedHeader
abbrev CMCheckStatusAckMsg := CMModeMsg CMDefaultAckMsg

def CMModeMsg.format (header : Fixed η) : Fixed (CMModeMsg η) :=
  ((CMFixedPart.format header).append twoSixByte).map
    { toFun t := ⟨t.1, t.2.1, t.2.2⟩
      invFun m := (m.toCMFixedPart, m.mode, m.wakeUpInterval)
      left_inv _ := rfl
      right_inv _ := rfl }

/-- A message with the pointer `tasks`, which is on the wire as its `pointerSize`
bytes. -/
structure CMTasksMsg (pointerSize : Nat) extends CMFixedPart CMFixedHeader where
  tasks : Fin pointerSize → UInt8

abbrev CMTaskCreationMsg := CMTasksMsg
abbrev CMTaskRunMsg := CMTasksMsg
abbrev CMTaskStopMsg := CMTasksMsg

def CMTasksMsg.format (pointerSize : Nat) : Fixed (CMTasksMsg pointerSize) :=
  ((CMFixedPart.format CMFixedHeader.format).append (.bytes pointerSize)).map
    { toFun t := ⟨t.1, t.2⟩
      invFun m := (m.toCMFixedPart, m.tasks)
      left_inv _ := rfl
      right_inv _ := rfl }

-- ---------------------------------------------------------------------------
-- Messages with a payload
-- ---------------------------------------------------------------------------

/-- A pointer: NULL, to an object of this message, or an address of something else. -/
inductive Pointer (α : Type)
  | null
  | object (a : α)
  | wild (address : Nat)
  deriving DecidableEq

structure CMAttributePayload where
  attributeId : BitVec 6
  valueLength : BitVec 2
  deriving DecidableEq

def CMAttributePayload.format : Fixed CMAttributePayload :=
  sixTwoByte.map
    { toFun t := ⟨t.1, t.2⟩
      invFun a := (a.attributeId, a.valueLength)
      left_inv _ := rfl
      right_inv _ := rfl }

structure CMAttributeValuePayload extends CMAttributePayload where
  values : Pointer (List UInt8)
  deriving DecidableEq

/-- A payload without its attributes. The payload of an ACK has no task id. -/
structure CMPayloadHead (τ : Type) where
  taskId : τ
  objectId : BitVec 6
  attrCount : BitVec 2
  deriving DecidableEq

def CMPayloadHead.format (taskId : Fixed τ) : Fixed (CMPayloadHead τ) :=
  (taskId.append sixTwoByte).map
    { toFun t := ⟨t.1, t.2.1, t.2.2⟩
      invFun p := (p.taskId, p.objectId, p.attrCount)
      left_inv _ := rfl
      right_inv _ := rfl }

structure CMPayload (τ α : Type) extends CMPayloadHead τ where
  attributes : Pointer (List α)
  deriving DecidableEq

structure CMPayloadMsg (η τ α : Type) extends CMFixedPart η where
  payload : Pointer (CMPayload τ α)
  deriving DecidableEq

abbrev CMMemberInfoPayload := CMPayload UInt8 CMAttributePayload
abbrev CMAttributeReadPayload := CMPayload UInt8 CMAttributePayload
abbrev CMAttributeWritePayload := CMPayload UInt8 CMAttributeValuePayload
abbrev CMTaskInputDataPayload := CMPayload UInt8 CMAttributeValuePayload
abbrev CMTaskOutputDataPayload := CMPayload UInt8 CMAttributeValuePayload
abbrev CMAttributeReadAckPayload := CMPayload Unit CMAttributeValuePayload

abbrev CMMemberInfoMsg := CMPayloadMsg CMFixedHeader UInt8 CMAttributePayload
abbrev CMAttributeReadMsg := CMPayloadMsg CMFixedHeader UInt8 CMAttributePayload
abbrev CMAttributeWriteMsg := CMPayloadMsg CMFixedHeader UInt8 CMAttributeValuePayload
abbrev CMTaskInputDataMsg := CMPayloadMsg CMFixedHeader UInt8 CMAttributeValuePayload
abbrev CMTaskOutputDataMsg := CMPayloadMsg CMFixedHeader UInt8 CMAttributeValuePayload
abbrev CMAttributeReadAckMsg := CMPayloadMsg CMDefaultAckMsg Unit CMAttributeValuePayload

end IoTware.Collabo
