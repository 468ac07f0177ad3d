import IoTware.Collabo.RoundTrip

/-!
# Bounds

Which bytes the parsers of the messages with attributes read. The size is compared
with the fixed parts and with one attribute, not with what `attr_count` and
`value_length` say.
-/

namespace IoTware.Collabo

open Codec Memory

variable {F : PayloadFormat η τ α} {good : α → Prop} {wire : α → List UInt8}
  {claimed : Bytes → Nat → Nat → Nat}

theorem payloadParse_within (L : F.attributes.Lawful good wire claimed) (msg : Bytes)
    (pt size : Nat) :
    Reads.Within (pt + size) (payloadParse F msg pt size) ↔
      size ≤ F.head.size ∨ F.head.size + claimed msg (pt + F.head.size)
        ((F.head.unpack (block msg pt F.head.size)).attrCount.toNat + 1) ≤ size := by
  by_cases hhead : F.head.size ≤ size
  · rw [payloadParse, if_pos hhead]
    simp only [Reads.within_bind, Reads.within_bytes, Reads.within_pure, Reads.value_bytes,
      and_true]
    have hfits : F.head.size = 0 ∨ pt + F.head.size ≤ pt + size := by omega
    rw [and_iff_right hfits]
    rcases Nat.eq_zero_or_pos (size - F.head.size) with hzero | hpos
    · rw [hzero, L.absent]
      exact iff_of_true (Reads.within_pure _ _) (.inl (by omega))
    · rw [L.within _ _ _ _ _ hpos]
      omega
  · rw [payloadParse, if_neg hhead]
    exact iff_of_true (Reads.within_pure _ _) (.inl (by omega))

theorem payloadParseX15_within (slot : Pointer CMAttributeWritePayload) (msg : Bytes)
    (pt size limit : Nat) :
    Reads.Within limit (payloadParseX15 slot msg pt size) ↔
      Reads.Within limit (payloadParse attributeWrite msg pt size) := by
  by_cases hhead : attributeWrite.head.size ≤ size
  · rw [payloadParseX15_eq slot msg pt size hhead]
  · rw [payloadParseX15, if_neg hhead, payloadParse, if_neg hhead]
    exact iff_of_true (Reads.within_pure _ _) (Reads.within_pure _ _)

theorem messageParse_within (L : F.attributes.Lawful good wire claimed)
    {P : Bytes → Nat → Nat → Reads (Pointer (CMPayload τ α))}
    (hP : ∀ msg pt n limit, Reads.Within limit (P msg pt n) ↔
      Reads.Within limit (payloadParse F msg pt n))
    (buf : CMPayloadMsg η τ α) (msg : Bytes) (size : Nat) :
    Reads.Within size (messageParse F P buf msg size) ↔
      size ≤ F.fixed.size + F.head.size ∨
        F.fixed.size + F.head.size + claimed msg (F.fixed.size + F.head.size)
          ((headOf F msg).attrCount.toNat + 1) ≤ size := by
  by_cases hfixed : F.fixed.size ≤ size
  · obtain ⟨rest, rfl⟩ := Nat.exists_eq_add_of_le hfixed
    have hfits : F.fixed.size = 0 ∨ 0 + F.fixed.size ≤ F.fixed.size + rest := by omega
    rw [messageParse, if_pos hfixed]
    simp only [Reads.within_bind, Reads.within_bytes, Reads.within_pure, and_true, hP,
      Nat.add_sub_cancel_left]
    rw [and_iff_right hfits, payloadParse_within L, headOf]
    omega
  · rw [messageParse, if_neg hfixed]
    exact iff_of_true (Reads.within_pure _ _) (.inl (by omega))

/-- A parser stays in its bytes exactly when they end before the attributes or are as
many as they say. -/
theorem parse_within_iff (p : PayloadMessage) (stack : Stack pointerSize) (msg : Bytes)
    (size : Nat) :
    Reads.Within size (p.parse stack msg size) ↔ size ≤ 4 ∨ p.claimedSize msg ≤ size := by
  cases p with
  | x03 | x16 =>
    exact messageParse_within (F := memberInfo) attributesFormat_lawful
      (fun _ _ _ _ => Iff.rfl) _ msg size
  | x15 =>
    exact messageParse_within (F := attributeWrite) attributeValuesFormat_lawful
      (payloadParseX15_within _) _ msg size
  | x17 | x18 =>
    exact messageParse_within (F := attributeWrite) attributeValuesFormat_lawful
      (fun _ _ _ _ => Iff.rfl) _ msg size
  | x16Ack =>
    exact messageParse_within (F := attributeReadAck) attributeValuesFormat_lawful
      (fun _ _ _ _ => Iff.rfl) _ msg size

/-- Five bytes that say to be a message of eight: all of the four attributes are
read. -/
theorem truncated_message_overread :
    ¬∀ (p : PayloadMessage) (stack : Stack 4) (msg : Bytes) (size : Nat),
      Reads.Within size (p.parse stack msg size) := by
  intro h
  exact absurd (h .x03 (.filled 4 0) (fun _ => 255) 5) (by decide)

end IoTware.Collabo
