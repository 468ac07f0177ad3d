import IoTware.Collabo.AttributeLaws
import IoTware.Collabo.Messages

/-!
# Round trip

Serializing and parsing are inverse to each other: on the messages that have as many
attributes and values as they say, and on the byte strings that are as long as they
say.
-/

namespace IoTware.Collabo

open Codec Memory

-- ---------------------------------------------------------------------------
-- One message
-- ---------------------------------------------------------------------------

variable {F : PayloadFormat η τ α} {good : α → Prop} {wire : α → List UInt8}
  {claimed : Bytes → Nat → Nat → Nat}

theorem messageSerialize_eq (L : F.attributes.Lawful good wire claimed)
    {msg : CMPayloadMsg η τ α} {payload : CMPayload τ α} (hpayload : msg.payload = .object payload)
    (hattributes : payload.attributes = .object attributes)
    (hcount : attributes.length = payload.attrCount.toNat + 1) (hgood : ∀ a ∈ attributes, good a) :
    messageSerialize F msg =
      .ok (F.fixed.pack msg.toCMFixedPart ++ F.head.pack payload.toCMPayloadHead ++
          attributes.flatMap wire,
        F.fixed.size + F.head.size + (attributes.flatMap wire).length) := by
  have hfixed := F.fixed.length_pack msg.toCMFixedPart
  have hhead := F.head.length_pack payload.toCMPayloadHead
  have hsize := L.size attributes hgood
  rw [hcount] at hsize
  have hfirst : memcpy
      (List.replicate (F.fixed.size + F.head.size + (attributes.flatMap wire).length) 0) 0
      (F.fixed.pack msg.toCMFixedPart) =
      .ok (F.fixed.pack msg.toCMFixedPart ++
        List.replicate (F.head.size + (attributes.flatMap wire).length) 0) :=
    memcpy_zeros (show 0 = [].length from rfl) (by omega)
  have hsecond : memcpy
      (F.fixed.pack msg.toCMFixedPart ++
        List.replicate (F.head.size + (attributes.flatMap wire).length) 0) F.fixed.size
      (F.head.pack payload.toCMPayloadHead) =
      .ok (F.fixed.pack msg.toCMFixedPart ++ F.head.pack payload.toCMPayloadHead ++
        List.replicate (attributes.flatMap wire).length 0) :=
    memcpy_zeros hfixed.symm (by omega)
  have hthird := L.serialize attributes (F.fixed.pack msg.toCMFixedPart ++
    F.head.pack payload.toCMPayloadHead) (List.replicate (attributes.flatMap wire).length 0) hgood
    (List.length_replicate).ge
  rw [List.length_append, hfixed, hhead, hcount, List.drop_replicate, Nat.sub_self,
    List.replicate_zero, List.append_nil] at hthird
  unfold messageSerialize
  simp only [hpayload, hattributes, Pointer.deref, hsize, hfirst, hsecond, hthird, bind,
    Except.bind]
  rfl

def headOf (F : PayloadFormat η τ α) (msg : Bytes) : CMPayloadHead τ :=
  F.head.unpack (block msg F.fixed.size F.head.size)

theorem messageParse_value (buf : CMPayloadMsg η τ α) (msg : Bytes)
    (h : F.fixed.size + F.head.size ≤ size)
    {P : Bytes → Nat → Nat → Reads (Pointer (CMPayload τ α))}
    (hP : ∀ pt n, F.head.size ≤ n → P msg pt n = payloadParse F msg pt n) :
    (messageParse F P buf msg size).value =
      { F.fixed.unpack (block msg 0 F.fixed.size) with
        payload := .object { headOf F msg with
          attributes := (F.attributes.parse msg (F.fixed.size + F.head.size)
            (size - F.fixed.size - F.head.size) (headOf F msg).attrCount.toNat).value } } := by
  have hrest : F.head.size ≤ size - F.fixed.size := by omega
  rw [messageParse, if_pos (by omega), hP _ _ hrest, payloadParse, if_pos hrest]
  rfl

theorem messageParse_serialize (L : F.attributes.Lawful good wire claimed)
    {msg : CMPayloadMsg η τ α} (h : msg.HasAttributes good)
    {P : Bytes → Nat → Nat → Reads (Pointer (CMPayload τ α))}
    (hP : ∀ mem pt n, F.head.size ≤ n → P mem pt n = payloadParse F mem pt n) :
    ∃ bytes, messageSerialize F msg = .ok (bytes, bytes.length) ∧
      ∀ buf mem, block mem 0 bytes.length = bytes →
        (messageParse F P buf mem bytes.length).value = msg := by
  obtain ⟨payload, attributes, hpayload, hattributes, hcount, hgood⟩ := h
  have hfixed := F.fixed.length_pack msg.toCMFixedPart
  have hhead := F.head.length_pack payload.toCMPayloadHead
  have hlength : (F.fixed.pack msg.toCMFixedPart ++ F.head.pack payload.toCMPayloadHead ++
      attributes.flatMap wire).length =
      F.fixed.size + F.head.size + (attributes.flatMap wire).length := by
    rw [List.length_append, List.length_append, hfixed, hhead]
  have hpos : 0 < (attributes.flatMap wire).length := by
    obtain ⟨a, as, rfl⟩ := List.exists_cons_of_length_eq_add_one hcount
    rw [List.flatMap_cons, List.length_append]
    exact Nat.lt_add_right _ (L.wire_pos a)
  refine ⟨_, (messageSerialize_eq L hpayload hattributes hcount hgood).trans (by rw [hlength]),
    fun buf mem hmem => ?_⟩
  rw [hlength] at hmem ⊢
  rw [block_add, block_add, Nat.zero_add, Nat.zero_add] at hmem
  obtain ⟨hboth, hwire⟩ := List.append_inj hmem (by
    rw [List.length_append, List.length_append, length_block, length_block, hfixed, hhead])
  obtain ⟨hfirst, hsecond⟩ := List.append_inj hboth ((length_block _ _ _).trans hfixed.symm)
  have hheadOf : headOf F mem = payload.toCMPayloadHead := by
    rw [headOf, hsecond, F.head.unpack_pack]
  rw [messageParse_value buf mem (Nat.le_add_right _ _) (hP mem), hfirst, F.fixed.unpack_pack,
    hheadOf, L.parse_wire attributes mem _ _ _ hgood hcount (by omega) hwire, ← hattributes]
  exact congrArg (CMPayloadMsg.mk msg.toCMFixedPart) hpayload.symm

theorem messageSerialize_parse (L : F.attributes.Lawful good wire claimed)
    {P : Bytes → Nat → Nat → Reads (Pointer (CMPayload τ α))}
    (hP : ∀ mem pt n, F.head.size ≤ n → P mem pt n = payloadParse F mem pt n)
    (buf : CMPayloadMsg η τ α) {mem : Bytes}
    (hsize : size = F.fixed.size + F.head.size +
      claimed mem (F.fixed.size + F.head.size) ((headOf F mem).attrCount.toNat + 1)) :
    messageSerialize F (messageParse F P buf mem size).value = .ok (block mem 0 size, size) := by
  have hpos := L.claimed_pos mem (F.fixed.size + F.head.size) (headOf F mem).attrCount.toNat
  obtain ⟨attributes, hvalue, hgood, hcount, hwire⟩ := L.parse_good mem
    (F.fixed.size + F.head.size) (size - F.fixed.size - F.head.size)
    (headOf F mem).attrCount.toNat (by omega)
  have hblock : block mem 0 size = block mem 0 F.fixed.size ++
      block mem F.fixed.size F.head.size ++ block mem (F.fixed.size + F.head.size)
        (claimed mem (F.fixed.size + F.head.size) ((headOf F mem).attrCount.toNat + 1)) := by
    rw [hsize, block_add, block_add, Nat.zero_add, Nat.zero_add]
  rw [messageParse_value buf mem (by omega) (hP mem), hvalue,
    messageSerialize_eq L rfl rfl hcount hgood, hwire, length_block, ← hsize, hblock]
  dsimp only
  rw [F.fixed.pack_unpack _ (length_block _ _ _), headOf,
    F.head.pack_unpack _ (length_block _ _ _)]

-- ---------------------------------------------------------------------------
-- The six messages
-- ---------------------------------------------------------------------------

theorem payloadParseX15_eq (slot : Pointer CMAttributeWritePayload) (msg : Bytes)
    (pt size : Nat) (h : attributeWrite.head.size ≤ size) :
    payloadParseX15 slot msg pt size = payloadParse attributeWrite msg pt size := by
  rw [payloadParseX15, if_pos h, payloadParse, if_pos h]

theorem payloadMsg_roundTrip (L : F.attributes.Lawful good wire claimed)
    {P : Bytes → Nat → Nat → Reads (Pointer (CMPayload τ α))}
    (hP : ∀ mem pt n, F.head.size ≤ n → P mem pt n = payloadParse F mem pt n)
    (buf : CMPayloadMsg η τ α) :
    (∀ msg : CMPayloadMsg η τ α, msg.HasAttributes good → ∃ bytes,
      messageSerialize F msg = .ok (bytes, bytes.length) ∧
        ∀ mem, block mem 0 bytes.length = bytes →
          (messageParse F P buf mem bytes.length).value = msg) ∧
    ∀ mem size, size = F.fixed.size + F.head.size +
        claimed mem (F.fixed.size + F.head.size) ((headOf F mem).attrCount.toNat + 1) →
      messageSerialize F (messageParse F P buf mem size).value = .ok (block mem 0 size, size) := by
  refine ⟨fun msg hmsg => ?_, fun mem size hsize => messageSerialize_parse L hP buf hsize⟩
  obtain ⟨bytes, hserialize, hparse⟩ := messageParse_serialize L hmsg hP
  exact ⟨bytes, hserialize, fun mem hmem => hparse buf mem hmem⟩

/-- Every well-formed message comes back from its bytes, and every byte string of the
length it says comes back from its message. -/
theorem message_roundTrip (p : PayloadMessage) (stack : Stack pointerSize) :
    (∀ msg, p.WellFormed msg → ∃ bytes, p.serialize msg = .ok (bytes, bytes.length) ∧
      ∀ mem, block mem 0 bytes.length = bytes → (p.parse stack mem bytes.length).value = msg) ∧
    ∀ mem size, size = p.claimedSize mem →
      p.serialize (p.parse stack mem size).value = .ok (block mem 0 size, size) := by
  cases p with
  | x03 | x16 =>
    exact payloadMsg_roundTrip (F := memberInfo) attributesFormat_lawful (fun _ _ _ _ => rfl) _
  | x15 =>
    exact payloadMsg_roundTrip (F := attributeWrite) attributeValuesFormat_lawful
      (payloadParseX15_eq _) _
  | x17 | x18 =>
    exact payloadMsg_roundTrip (F := attributeWrite) attributeValuesFormat_lawful
      (fun _ _ _ _ => rfl) _
  | x16Ack =>
    exact payloadMsg_roundTrip (F := attributeReadAck) attributeValuesFormat_lawful
      (fun _ _ _ _ => rfl) _

def sampleInputData : PayloadMessage.x17.Msg :=
  { header := { ack := 0, messageId := 0x17, dup := 0, qos := 1 }
    reserved := 0
    length := 7
    payload := .object
      { taskId := 1
        objectId := 4
        attrCount := 1
        attributes := .object
          [{ attributeId := 1, valueLength := 1, values := .object [7, 9] },
            { attributeId := 2, valueLength := 0, values := .object [5] }] } }

theorem message_roundTrip_inputData :
    PayloadMessage.x17.serialize sampleInputData =
        .ok ([0xAE, 0x1C, 1, 0x44, 0x41, 7, 9, 2, 5], 9) ∧
      ∃ bytes, PayloadMessage.x17.serialize sampleInputData = .ok (bytes, bytes.length) ∧
        ∀ mem, block mem 0 bytes.length = bytes →
          (PayloadMessage.x17.parse (.filled 4 0) mem bytes.length).value = sampleInputData := by
  refine ⟨by decide, (message_roundTrip .x17 (.filled 4 0)).1 sampleInputData ?_⟩
  refine ⟨_, _, rfl, rfl, rfl, ?_⟩
  rintro a ha
  rcases List.mem_pair.mp ha with rfl | rfl
  · exact ⟨_, rfl, rfl⟩
  · exact ⟨_, rfl, rfl⟩

end IoTware.Collabo
