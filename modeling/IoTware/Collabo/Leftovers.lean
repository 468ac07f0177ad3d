import IoTware.Collabo.RoundTrip

/-!
# Leftovers of the stack

Which parsers give what the stack held before: each of them returns its local
structure as it is when there are too few bytes for it, and `0x15` its return slot
as the payload.
-/

namespace IoTware.Collabo

open Codec Memory

variable {pointerSize : Nat}

inductive Parser
  | x00 | x02 | x02Ack | x03 | x03Ack | x04 | x04Ack | x05 | x05Ack | x10 | x10Ack | x11 | x11Ack
  | x12 | x12Ack | x13 | x13Ack | x14 | x14Ack | x15 | x15Ack | x16 | x16Ack | x17 | x17Ack
  | x18 | x18Ack
  deriving DecidableEq

namespace Parser

def Msg (pointerSize : Nat) : Parser → Type
  | .x00 => CMServerAdvertiseMsg
  | .x02 => CMConnectMsg
  | .x02Ack => CMConnectAckMsg
  | .x03 => CMMemberInfoMsg
  | .x03Ack => CMMemberInfoAckMsg
  | .x04 => CMSetDeviceModeMsg
  | .x04Ack => CMSetDeviceModeAckMsg
  | .x05 => CMCheckStatusMsg
  | .x05Ack => CMCheckStatusAckMsg
  | .x10 => CMTaskCreationMsg pointerSize
  | .x10Ack => CMTaskCreationAckMsg
  | .x11 => CMTaskRunAllMsg
  | .x11Ack => CMTaskRunAllAckMsg
  | .x12 => CMTaskStopAllMsg
  | .x12Ack => CMTaskStopAllAckMsg
  | .x13 => CMTaskRunMsg pointerSize
  | .x13Ack => CMTaskRunAckMsg
  | .x14 => CMTaskStopMsg pointerSize
  | .x14Ack => CMTaskStopAckMsg
  | .x15 => CMAttributeWriteMsg
  | .x15Ack => CMAttributeWriteAckMsg
  | .x16 => CMAttributeReadMsg
  | .x16Ack => CMAttributeReadAckMsg
  | .x17 => CMTaskInputDataMsg
  | .x17Ack => CMTaskInputDataAckMsg
  | .x18 => CMTaskOutputDataMsg
  | .x18Ack => CMTaskOutputDataAckMsg

def parse : (p : Parser) → Stack pointerSize → Bytes → Nat → Reads (p.Msg pointerSize)
  | .x00 => cmMsgX00Parse
  | .x02 => cmMsgX02Parse
  | .x02Ack => cmMsgX02AckParse
  | .x03 => cmMsgX03Parse
  | .x03Ack => cmMsgX03AckParse
  | .x04 => cmMsgX04Parse
  | .x04Ack => cmMsgX04AckParse
  | .x05 => cmMsgX05Parse
  | .x05Ack => cmMsgX05AckParse
  | .x10 => cmMsgX10Parse
  | .x10Ack => cmMsgX10AckParse
  | .x11 => cmMsgX11Parse
  | .x11Ack => cmMsgX11AckParse
  | .x12 => cmMsgX12Parse
  | .x12Ack => cmMsgX12AckParse
  | .x13 => cmMsgX13Parse
  | .x13Ack => cmMsgX13AckParse
  | .x14 => cmMsgX14Parse
  | .x14Ack => cmMsgX14AckParse
  | .x15 => cmMsgX15Parse
  | .x15Ack => cmMsgX15AckParse
  | .x16 => cmMsgX16Parse
  | .x16Ack => cmMsgX16AckParse
  | .x17 => cmMsgX17Parse
  | .x17Ack => cmMsgX17AckParse
  | .x18 => cmMsgX18Parse
  | .x18Ack => cmMsgX18AckParse

def leastSize (pointerSize : Nat) : Parser → Nat
  | .x00 | .x05 | .x11 | .x12 => 1
  | .x02 | .x05Ack | .x15 => 4
  | .x04 | .x16Ack => 3
  | .x10 | .x13 | .x14 => 2 + pointerSize
  | .x03 | .x16 | .x17 | .x18 => 2
  | .x02Ack | .x03Ack | .x04Ack | .x10Ack | .x11Ack | .x12Ack | .x13Ack | .x14Ack | .x15Ack
  | .x17Ack | .x18Ack => 2

end Parser

/-- The result is the same whatever is on the stack. -/
def InputOnly (f : Stack pointerSize → τ) : Prop := ∀ stack stack', f stack = f stack'

theorem inputOnly_iff {f : Stack pointerSize → τ} (hfixed : c → InputOnly f)
    (hleft : ¬c → f (.filled pointerSize 0) ≠ f (.filled pointerSize 255)) : InputOnly f ↔ c :=
  ⟨fun h => by_contra fun hc => hleft hc (h _ _), hfixed⟩

theorem fill_ne (format : Fixed τ) (h : 0 < format.size) : fill format 0 ≠ fill format 255 := by
  intro heq
  have hpack : ∀ b, format.pack (fill format b) = List.replicate format.size b := fun b =>
    format.pack_unpack _ List.length_replicate
  have hbytes := congrArg format.pack heq
  rw [hpack, hpack, List.replicate_inj] at hbytes
  rcases hbytes.2 with hzero | hbyte
  · exact h.ne' hzero
  · exact absurd hbyte (by decide)

theorem Pointer.fill_ne : (Pointer.fill 0 : Pointer α) ≠ .fill 255 := by
  rintro ⟨⟩

theorem structParse_inputOnly_iff (format : Fixed τ) {buf : Stack pointerSize → τ}
    (hbuf : buf (.filled pointerSize 0) ≠ buf (.filled pointerSize 255)) (msg : Bytes)
    (size : Nat) :
    InputOnly (fun stack => (structParse format (buf stack) msg size).value) ↔
      format.size ≤ size := by
  refine inputOnly_iff (fun h stack stack' => ?_) fun h => ?_
  · rw [structParse, if_pos h, structParse, if_pos h]
  · rw [structParse, if_neg h, structParse, if_neg h]
    exact hbuf

theorem headerMsgParse_inputOnly_iff (format : Fixed η) {buf : Stack pointerSize → η}
    (outer : Stack pointerSize → CMHeaderMsg η)
    (hbuf : buf (.filled pointerSize 0) ≠ buf (.filled pointerSize 255)) (msg : Bytes)
    (size : Nat) :
    InputOnly (fun stack =>
      (headerMsgParse (outer stack) (structParse format (buf stack) msg size)).value) ↔
      format.size ≤ size := by
  rw [← structParse_inputOnly_iff format hbuf msg size]
  refine forall₂_congr fun stack stack' => ⟨fun h => ?_, fun h => ?_⟩
  · exact congrArg CMHeaderMsg.header h
  · exact congrArg CMHeaderMsg.mk h

theorem messageParse_inputOnly_iff (F : PayloadFormat η τ α)
    (P : Bytes → Nat → Nat → Reads (Pointer (CMPayload τ α)))
    {buf : Stack pointerSize → CMPayloadMsg η τ α}
    (hbuf : (buf (.filled pointerSize 0)).toCMFixedPart ≠
      (buf (.filled pointerSize 255)).toCMFixedPart) (msg : Bytes) (size : Nat) :
    InputOnly (fun stack => (messageParse F P (buf stack) msg size).value) ↔
      F.fixed.size ≤ size := by
  refine inputOnly_iff (fun h stack stack' => ?_) fun h => ?_
  · rw [messageParse, if_pos h, messageParse, if_pos h]
  · rw [messageParse, if_neg h, messageParse, if_neg h]
    exact ne_of_apply_ne CMPayloadMsg.toCMFixedPart hbuf

theorem cmMsgX15Parse_inputOnly_iff (msg : Bytes) (size : Nat) :
    InputOnly (fun stack : Stack pointerSize => (cmMsgX15Parse stack msg size).value) ↔
      4 ≤ size := by
  have hfixed : attributeWrite.fixed.size = 2 := rfl
  have hhead : attributeWrite.head.size = 2 := rfl
  unfold cmMsgX15Parse
  refine inputOnly_iff (fun h stack stack' => ?_) fun h => ?_
  · rw [messageParse, if_pos (by omega), messageParse, if_pos (by omega),
      payloadParseX15_eq _ _ _ _ (by omega), payloadParseX15_eq _ _ _ _ (by omega)]
  · by_cases hshort : attributeWrite.fixed.size ≤ size
    · rw [messageParse, if_pos hshort, messageParse, if_pos hshort, payloadParseX15,
        if_neg (by omega), payloadParseX15, if_neg (by omega)]
      exact ne_of_apply_ne CMPayloadMsg.payload Pointer.fill_ne
    · rw [messageParse, if_neg hshort, messageParse, if_neg hshort]
      exact ne_of_apply_ne CMPayloadMsg.payload Pointer.fill_ne

/-- A parser's result depends on its bytes alone exactly when there are enough of
them. -/
theorem parse_inputOnly_iff (p : Parser) (msg : Bytes) (size : Nat) :
    (∀ stack stack' : Stack pointerSize,
      (p.parse stack msg size).value = (p.parse stack' msg size).value) ↔
      p.leastSize pointerSize ≤ size := by
  cases p with
  | x00 | x05 | x11 | x12 =>
    exact headerMsgParse_inputOnly_iff CMFixedHeader.format Stack.headerMsg
      (fill_ne CMFixedHeader.format (by decide)) msg size
  | x02Ack | x03Ack | x04Ack | x10Ack | x11Ack | x12Ack | x13Ack | x14Ack | x15Ack | x17Ack
  | x18Ack =>
    exact headerMsgParse_inputOnly_iff CMDefaultAckMsg.format Stack.ackMsg
      (fill_ne CMDefaultAckMsg.format (by decide)) msg size
  | x02 =>
    exact structParse_inputOnly_iff CMConnectMsg.format
      (fill_ne CMConnectMsg.format (by decide)) msg size
  | x04 =>
    exact structParse_inputOnly_iff (CMModeMsg.format CMFixedHeader.format)
      (fill_ne (CMModeMsg.format CMFixedHeader.format) (by decide)) msg size
  | x05Ack =>
    exact structParse_inputOnly_iff (CMModeMsg.format CMDefaultAckMsg.format)
      (fill_ne (CMModeMsg.format CMDefaultAckMsg.format) (by decide)) msg size
  | x10 | x13 | x14 =>
    exact structParse_inputOnly_iff (CMTasksMsg.format pointerSize)
      (fill_ne (CMTasksMsg.format pointerSize) (Nat.lt_add_right pointerSize Nat.two_pos)) msg size
  | x03 | x16 =>
    exact messageParse_inputOnly_iff memberInfo _ (fill_ne memberInfo.fixed (by decide)) msg size
  | x17 | x18 =>
    exact messageParse_inputOnly_iff attributeWrite _
      (fill_ne attributeWrite.fixed (by decide)) msg size
  | x16Ack =>
    exact messageParse_inputOnly_iff attributeReadAck _
      (fill_ne attributeReadAck.fixed (by decide)) msg size
  | x15 => exact cmMsgX15Parse_inputOnly_iff msg size

/-- The payload of a `0x15` of three bytes is the pointer that was in the return slot. -/
theorem short_x15_returns_leftover :
    ¬∀ (p : Parser) (msg : Bytes) (size : Nat) (stack stack' : Stack 4),
      (p.parse stack msg size).value = (p.parse stack' msg size).value := by
  intro h
  have heq := h .x15 (fun _ => 0) 3 (.filled 4 0) (.filled 4 255)
  exact Pointer.fill_ne (congrArg CMPayloadMsg.payload heq)

end IoTware.Collabo
