import IoTware.Collabo.FixedMessages
import IoTware.Lib.Streams

/-!
# Streams of messages

The collaboration messages together. A message begins with the bit of an ACK and its
message id, and if these are the ones of its initial value the first byte tells which
parser reads it back, whatever follows. So a stream of messages is read in one way only.
-/

namespace IoTware.Collabo

open Codec Memory Streams

variable {pointerSize : Nat}

-- ---------------------------------------------------------------------------
-- The set of messages
-- ---------------------------------------------------------------------------

/-- The `ack` and the `message_id` of a header. -/
abbrev Tag := BitVec 1 × BitVec 5

def CMFixedHeader.tag (h : CMFixedHeader) : Tag := (h.ack, h.messageId)

def CMDefaultAckMsg.tag (h : CMDefaultAckMsg) : Tag := (h.ack, h.messageId)

def Shape.tag : (s : Shape) → s.Msg pointerSize → Tag
  | .header, (msg : CMHeaderMsg CMFixedHeader) => msg.header.tag
  | .ack, (msg : CMHeaderMsg CMDefaultAckMsg) => msg.header.tag
  | .connect, (msg : CMConnectMsg) => msg.header.tag
  | .mode, (msg : CMModeMsg CMFixedHeader) => msg.header.tag
  | .statusAck, (msg : CMModeMsg CMDefaultAckMsg) => msg.header.tag
  | .tasks, (msg : CMTasksMsg pointerSize) => msg.header.tag

def PayloadMessage.tag : (p : PayloadMessage) → p.Msg → Tag
  | .x03, (msg : CMMemberInfoMsg) => msg.header.tag
  | .x15, (msg : CMAttributeWriteMsg) => msg.header.tag
  | .x16, (msg : CMAttributeReadMsg) => msg.header.tag
  | .x16Ack, (msg : CMAttributeReadAckMsg) => msg.header.tag
  | .x17, (msg : CMTaskInputDataMsg) => msg.header.tag
  | .x18, (msg : CMTaskOutputDataMsg) => msg.header.tag

inductive MessageKind
  | fixed (k : FixedMessage)
  | payload (p : PayloadMessage)
  deriving DecidableEq

namespace MessageKind

def Msg (pointerSize : Nat) : MessageKind → Type
  | .fixed k => k.Msg pointerSize
  | .payload p => p.Msg

def serialize : (k : MessageKind) → k.Msg pointerSize → Except Fault (List UInt8 × Nat)
  | .fixed k => k.serialize
  | .payload p => p.serialize

def parse : (k : MessageKind) → Stack pointerSize → Bytes → Nat → Reads (k.Msg pointerSize)
  | .fixed k => k.parse
  | .payload p => p.parse

def tag : MessageKind → Tag
  | .fixed k => k.shape.tag (k.default : k.Msg 0)
  | .payload p => p.tag p.default

/-- The header has the tag of the message, and a payload has the attributes it says. -/
def WellFormed : (k : MessageKind) → k.Msg pointerSize → Prop
  | .fixed k, msg => k.shape.tag msg = (MessageKind.fixed k).tag
  | .payload p, msg => p.tag msg = (MessageKind.payload p).tag ∧ p.WellFormed msg

def all : List MessageKind :=
  ([.x00, .x02, .x02Ack, .x03Ack, .x04, .x04Ack, .x05, .x05Ack, .x10, .x10Ack, .x11, .x11Ack,
    .x12, .x12Ack, .x13, .x13Ack, .x14, .x14Ack, .x15Ack, .x17Ack, .x18Ack].map .fixed) ++
    [.x03, .x15, .x16, .x16Ack, .x17, .x18].map .payload

def ofTag (t : Tag) : Option MessageKind := all.find? fun k => k.tag = t

theorem ofTag_tag (k : MessageKind) : ofTag k.tag = some k := by
  cases k with
  | fixed k => cases k <;> rfl
  | payload p => cases p <;> rfl

end MessageKind

structure Message (pointerSize : Nat) where
  kind : MessageKind
  msg : kind.Msg pointerSize

def Message.WellFormed (m : Message pointerSize) : Prop := m.kind.WellFormed m.msg

def Message.bytes (m : Message pointerSize) : List UInt8 :=
  (m.kind.serialize m.msg).toOption.elim [] Prod.fst

-- ---------------------------------------------------------------------------
-- The first byte
-- ---------------------------------------------------------------------------

def BeginsWith (t : Tag) (bytes : List UInt8) : Prop :=
  ∃ dup qos rest, bytes = headerByte.pack (t.1, t.2, dup, qos) ++ rest

theorem Shape.beginsWith (s : Shape) (msg : s.Msg pointerSize) :
    BeginsWith (s.tag msg) ((s.format pointerSize).pack msg) := by
  cases s with
  | header => exact ⟨_, _, [], (List.append_nil _).symm⟩
  | ack => exact ⟨_, _, _, rfl⟩
  | connect => exact ⟨_, _, _, rfl⟩
  | mode => exact ⟨_, _, _, rfl⟩
  | statusAck => exact ⟨_, _, _, rfl⟩
  | tasks => exact ⟨_, _, _, rfl⟩

theorem BeginsWith.append (h : BeginsWith t bytes) (rest : List UInt8) :
    BeginsWith t (bytes ++ rest) := by
  obtain ⟨dup, qos, tail, rfl⟩ := h
  exact ⟨dup, qos, tail ++ rest, List.append_assoc _ _ _⟩

theorem BeginsWith.cmHeaderParse (h : BeginsWith t bytes) (buf : CMFixedHeader)
    (hmem : block mem 0 bytes.length = bytes) (hsize : bytes.length ≤ size) :
    0 < bytes.length ∧ (cmHeaderParse buf mem size).value.tag = t := by
  obtain ⟨dup, qos, rest, rfl⟩ := h
  have hlength : (headerByte.pack (t.1, t.2, dup, qos) ++ rest).length = 1 + rest.length := by
    simp [headerByte.length_pack]
    rfl
  rw [hlength, block_add] at hmem
  obtain ⟨hfirst, -⟩ := List.append_inj hmem (by simp [length_block, headerByte.length_pack]; rfl)
  have hvalue := FixedMessage.structParse_value CMFixedHeader.format buf mem
    (show CMFixedHeader.format.size ≤ size from (by omega : 1 ≤ size))
  have hheader : (Collabo.cmHeaderParse buf mem size).value = ⟨t.1, t.2, dup, qos⟩ := by
    refine hvalue.trans ?_
    show CMFixedHeader.format.unpack (block mem 0 1) = _
    rw [hfirst]
    exact CMFixedHeader.format.unpack_pack ⟨t.1, t.2, dup, qos⟩
  exact ⟨by omega, by rw [hheader]; rfl⟩

-- ---------------------------------------------------------------------------
-- Messages of a fixed size
-- ---------------------------------------------------------------------------

/-- A message comes back from bytes that begin with its own, and the bytes a parser has
copied come back from its message. -/
theorem FixedMessage.roundTrip (k : FixedMessage) (stack : Stack pointerSize) :
    (∀ msg : k.Msg pointerSize, ∃ bytes, k.serialize msg = .ok (bytes, bytes.length) ∧
      BeginsWith (k.shape.tag msg) bytes ∧ ∀ mem size, block mem 0 bytes.length = bytes →
        bytes.length ≤ size → (k.parse stack mem size).value = msg) ∧
    ∀ mem size, (k.format pointerSize).size ≤ size →
      k.serialize (k.parse stack mem size).value =
        .ok (block mem 0 (k.format pointerSize).size, (k.format pointerSize).size) := by
  constructor
  · intro msg
    have hlength := (k.format pointerSize).length_pack msg
    refine ⟨(k.format pointerSize).pack msg, ?_, k.shape.beginsWith msg, ?_⟩
    · rw [k.serialize_eq, hlength]
    · intro mem size hmem hsize
      rw [hlength] at hmem hsize
      rw [k.parse_eq stack mem hsize, hmem, (k.format pointerSize).unpack_pack]
  · intro mem size hsize
    rw [k.serialize_eq, k.parse_eq stack mem hsize, (k.format pointerSize).pack_unpack _ (length_block _ _ _)]

-- ---------------------------------------------------------------------------
-- Messages with attributes
-- ---------------------------------------------------------------------------

theorem messageParse_wire {F : PayloadFormat η τ α} {good : α → Prop} {wire : α → List UInt8}
    {claimed : Bytes → Nat → Nat → Nat} (L : F.attributes.Lawful good wire claimed)
    {msg : CMPayloadMsg η τ α} (h : msg.HasAttributes good)
    {P : Bytes → Nat → Nat → Reads (Pointer (CMPayload τ α))}
    (hP : ∀ mem pt n, F.head.size ≤ n → P mem pt n = payloadParse F mem pt n) :
    ∃ bytes, messageSerialize F msg = .ok (bytes, bytes.length) ∧
      (∃ rest, bytes = F.fixed.pack msg.toCMFixedPart ++ rest) ∧
      ∀ buf mem size, block mem 0 bytes.length = bytes → bytes.length ≤ size →
        (messageParse F P buf mem size).value = msg := by
  obtain ⟨payload, attributes, hpayload, hattributes, hcount, hgood⟩ := h
  have hfixed := F.fixed.length_pack msg.toCMFixedPart
  have hhead := F.head.length_pack payload.toCMPayloadHead
  have hlength : (F.fixed.pack msg.toCMFixedPart ++ F.head.pack payload.toCMPayloadHead ++
      attributes.flatMap wire).length =
      F.fixed.size + F.head.size + (attributes.flatMap wire).length := by
    rw [List.length_append, List.length_append, hfixed, hhead]
  have hpos : 0 < (attributes.flatMap wire).length := by
    obtain ⟨a, as, rfl⟩ := List.exists_cons_of_length_eq_add_one hcount
    rw [List.flatMap_cons, List.length_append]
    exact Nat.lt_add_right _ (L.wire_pos a)
  refine ⟨_, (messageSerialize_eq L hpayload hattributes hcount hgood).trans (by rw [hlength]),
    ⟨_, List.append_assoc _ _ _⟩, fun buf mem size hmem hsize => ?_⟩
  rw [hlength] at hmem hsize
  rw [block_add, block_add, Nat.zero_add, Nat.zero_add] at hmem
  obtain ⟨hboth, hwire⟩ := List.append_inj hmem (by
    rw [List.length_append, List.length_append, length_block, length_block, hfixed, hhead])
  obtain ⟨hfirst, hsecond⟩ := List.append_inj hboth ((length_block _ _ _).trans hfixed.symm)
  have hheadOf : headOf F mem = payload.toCMPayloadHead := by
    rw [headOf, hsecond, F.head.unpack_pack]
  rw [messageParse_value buf mem (by omega) (hP mem), hfirst, F.fixed.unpack_pack,
    hheadOf, L.parse_wire attributes mem _ _ _ hgood hcount (by omega) hwire, ← hattributes]
  exact congrArg (CMPayloadMsg.mk msg.toCMFixedPart) hpayload.symm

theorem PayloadMessage.roundTrip (p : PayloadMessage) (stack : Stack pointerSize) (msg : p.Msg)
    (h : p.WellFormed msg) : ∃ bytes, p.serialize msg = .ok (bytes, bytes.length) ∧
      BeginsWith (p.tag msg) bytes ∧ ∀ mem size, block mem 0 bytes.length = bytes →
        bytes.length ≤ size → (p.parse stack mem size).value = msg := by
  cases p with
  | x03 | x16 =>
    obtain ⟨bytes, hbytes, ⟨rest, rfl⟩, hparse⟩ :=
      messageParse_wire (F := memberInfo) attributesFormat_lawful h fun _ _ _ _ => rfl
    exact ⟨_, hbytes, .append ⟨_, _, _, rfl⟩ rest, hparse _⟩
  | x15 =>
    obtain ⟨bytes, hbytes, ⟨rest, rfl⟩, hparse⟩ :=
      messageParse_wire (F := attributeWrite) attributeValuesFormat_lawful h
        (payloadParseX15_eq stack.payloadSlot)
    exact ⟨_, hbytes, .append ⟨_, _, _, rfl⟩ rest, hparse _⟩
  | x17 | x18 =>
    obtain ⟨bytes, hbytes, ⟨rest, rfl⟩, hparse⟩ :=
      messageParse_wire (F := attributeWrite) attributeValuesFormat_lawful h fun _ _ _ _ => rfl
    exact ⟨_, hbytes, .append ⟨_, _, _, rfl⟩ rest, hparse _⟩
  | x16Ack =>
    obtain ⟨bytes, hbytes, ⟨rest, rfl⟩, hparse⟩ :=
      messageParse_wire (F := attributeReadAck) attributeValuesFormat_lawful h fun _ _ _ _ => rfl
    exact ⟨_, hbytes, .append ⟨_, _, _, rfl⟩ rest, hparse _⟩

-- ---------------------------------------------------------------------------
-- The set
-- ---------------------------------------------------------------------------

theorem MessageKind.roundTrip (k : MessageKind) (stack : Stack pointerSize) (msg : k.Msg pointerSize)
    (h : k.WellFormed msg) : ∃ bytes, k.serialize msg = .ok (bytes, bytes.length) ∧
      BeginsWith k.tag bytes ∧ ∀ mem size, block mem 0 bytes.length = bytes →
        bytes.length ≤ size → (k.parse stack mem size).value = msg := by
  cases k with
  | fixed k =>
    obtain ⟨bytes, hbytes, hbegin, hparse⟩ := (k.roundTrip stack).1 msg
    exact ⟨bytes, hbytes, h ▸ hbegin, hparse⟩
  | payload p =>
    obtain ⟨bytes, hbytes, hbegin, hparse⟩ := p.roundTrip stack msg h.2
    exact ⟨bytes, hbytes, h.1 ▸ hbegin, hparse⟩

/-- Every message is read back from memory that begins with its bytes: its header tells
the parser to take. -/
theorem message_read_back (m : Message pointerSize) (h : m.WellFormed) (stack : Stack pointerSize) :
    m.kind.serialize m.msg = .ok (m.bytes, m.bytes.length) ∧ m.bytes ≠ [] ∧
      ∀ mem size, block mem 0 m.bytes.length = m.bytes → m.bytes.length ≤ size →
        MessageKind.ofTag (cmHeaderParse stack.header mem size).value.tag = some m.kind ∧
          (m.kind.parse stack mem size).value = m.msg := by
  obtain ⟨bytes, hbytes, hbegin, hparse⟩ := m.kind.roundTrip stack m.msg h
  have heq : m.bytes = bytes := by simp [Message.bytes, hbytes, Except.toOption]
  rw [heq]
  refine ⟨hbytes, ?_, fun mem size hmem hsize => ?_⟩
  · obtain ⟨dup, qos, rest, rfl⟩ := hbegin
    simp [headerByte, Fixed.ofPacked]
  · obtain ⟨-, htag⟩ := hbegin.cmHeaderParse stack.header hmem hsize
    exact ⟨by rw [htag, MessageKind.ofTag_tag], hparse mem size hmem hsize⟩

theorem block_getD (bytes rest : List UInt8) :
    block (fun i => (bytes ++ rest).getD i 0) 0 bytes.length = bytes := by
  refine List.ext_getElem (length_block _ _ _) fun i hi hi' => ?_
  simp [block, List.getElem?_append_left hi', List.getElem?_eq_getElem hi']

theorem FixedMessage.default_wellFormed (k : FixedMessage) :
    (MessageKind.fixed k).WellFormed (k.default : k.Msg pointerSize) := by
  cases k <;> rfl

def sampleMessage : Message 4 := ⟨.payload .x17, sampleInputData⟩

theorem sampleMessage_wellFormed : sampleMessage.WellFormed := by
  refine ⟨rfl, _, _, rfl, rfl, rfl, ?_⟩
  rintro a ha
  rcases List.mem_pair.mp ha with rfl | rfl
  · exact ⟨_, rfl, rfl⟩
  · exact ⟨_, rfl, rfl⟩

theorem message_read_back_inputData :
    (PayloadMessage.x17.parse (.filled 4 0)
      (fun i => (sampleMessage.bytes ++ [1, 2]).getD i 0) (sampleMessage.bytes ++ [1, 2]).length).value =
        sampleInputData := by
  obtain ⟨-, -, hread⟩ := message_read_back sampleMessage sampleMessage_wellFormed (.filled 4 0)
  exact (hread _ _ (block_getD _ _) (by simp)).2

-- ---------------------------------------------------------------------------
-- Streams
-- ---------------------------------------------------------------------------

def firstMessage (stack : Stack pointerSize) (bytes : List UInt8) : Option (Message pointerSize) :=
  let mem : Bytes := fun i => bytes.getD i 0
  (MessageKind.ofTag (cmHeaderParse stack.header mem bytes.length).value.tag).map fun k =>
    ⟨k, (k.parse stack mem bytes.length).value⟩

theorem firstMessage_append (stack : Stack pointerSize) (m : Message pointerSize)
    (rest : List UInt8) (h : m.WellFormed) : firstMessage stack (m.bytes ++ rest) = some m := by
  obtain ⟨-, -, hread⟩ := message_read_back m h stack
  obtain ⟨hkind, hvalue⟩ := hread _ (m.bytes ++ rest).length (block_getD m.bytes rest) (by simp)
  simp only [firstMessage, hkind, Option.map_some, hvalue]

/-- The messages that have arrived whole are the first messages that were sent. -/
theorem message_streams {ms ms' : List (Message pointerSize)} (h : ∀ m ∈ ms, m.WellFormed)
    (h' : ∀ m ∈ ms', m.WellFormed) :
    ms.flatMap Message.bytes <+: ms'.flatMap Message.bytes ↔ ms <+: ms' :=
  (PrefixFree.of_read (firstMessage_append (.filled pointerSize 0))).flatMap_prefix_iff
    (fun m hm => (message_read_back m hm (.filled pointerSize 0)).2.1) h h'

theorem message_streams_connect :
    let connect : Message 4 := ⟨.fixed .x02, cmMsgX02⟩
    let accepted : Message 4 := ⟨.fixed .x02Ack, cmMsgX02Ack⟩
    ¬ [connect].flatMap Message.bytes <+: [accepted, connect].flatMap Message.bytes := by
  intro connect accepted
  have hconnect : connect.WellFormed := FixedMessage.default_wellFormed .x02
  have haccepted : accepted.WellFormed := FixedMessage.default_wellFormed .x02Ack
  rw [message_streams (by simp [hconnect]) (by simp [hconnect, haccepted])]
  intro hprefix
  have hkind := congrArg Message.kind (List.cons_prefix_cons.mp hprefix).1
  cases hkind

end IoTware.Collabo
