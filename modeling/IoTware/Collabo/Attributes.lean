import Mathlib.Algebra.Group.Nat.Defs
import IoTware.Base
import IoTware.Collabo.Structs
import IoTware.Lib.Reads

/-!
# Attributes

The attributes behind a payload on their way to the wire and back, as
`iw_fw_collabomsg_internal.c` has them. Allocations are taken to succeed.
-/

namespace IoTware.Collabo

open Codec Memory

def cmAttributeRealAttrCount (packedCount : Nat) : Nat := packedCount + 1

def cmAttributeRealValueLength : Nat → Nat
  | 0 => 1
  | packedLength + 1 => cmAttributeRealValueLength packedLength * 2

def sizeofAttributeValuePayload : Nat := CMAttributePayload.format.size

def Pointer.deref : Pointer α → Except Fault α
  | .null => .error .nullPointer
  | .object a => .ok a
  | .wild _ => .error .wildPointer

def readArray (as : List α) (n : Nat) : Except Fault (List α) :=
  if n ≤ as.length then .ok (as.take n) else .error .overrun

def memcpy (buf : List UInt8) (dest : Nat) (bytes : List UInt8) : Except Fault (List UInt8) :=
  match store buf dest bytes with
  | none => .error .overrun
  | some buf => .ok buf

-- ---------------------------------------------------------------------------
-- Attributes
-- ---------------------------------------------------------------------------

def cmAttributesSerializeSize (count : Nat) : Nat := CMAttributePayload.format.size * count

def cmAttributesSerialize (msg : Pointer (List CMAttributePayload)) (count : Nat)
    (buf : List UInt8) (dest : Nat) : Except Fault (List UInt8) :=
  if 0 < count then do
    let attributes ← readArray (← msg.deref) count
    memcpy buf dest (attributes.flatMap CMAttributePayload.format.pack)
  else .ok buf

def parseAttributes (mem : Bytes) (pt : Nat) : Nat → Reads (List CMAttributePayload)
  | 0 => return []
  | n + 1 => do
    let bytes ← Reads.bytes mem pt CMAttributePayload.format.size
    let rest ← parseAttributes mem (pt + CMAttributePayload.format.size) n
    return CMAttributePayload.format.unpack bytes :: rest

def cmAttributesParse (mem : Bytes) (msg size attrCount : Nat) :
    Reads (Pointer (List CMAttributePayload)) :=
  if CMAttributePayload.format.size ≤ size then do
    let attributes ← parseAttributes mem msg (cmAttributeRealAttrCount attrCount)
    return .object attributes
  else return .null

-- ---------------------------------------------------------------------------
-- Attributes with values
-- ---------------------------------------------------------------------------

/-- The loop of `cm_attribute_values_serialize_size`, from the attributes that are
left on. -/
def valueLengths : List CMAttributeValuePayload → Nat → Except Fault Nat
  | _, 0 => .ok 0
  | [], _ + 1 => .error .overrun
  | a :: as, n + 1 => do
    let size ← valueLengths as n
    return cmAttributeRealValueLength a.valueLength.toNat + size

def cmAttributeValuesSerializeSize (msg : Pointer (List CMAttributeValuePayload)) (count : Nat) :
    Except Fault Nat := do
  let size ← valueLengths (← msg.deref) count
  return size + sizeofAttributeValuePayload * count

/-- The loop of `cm_attribute_values_serialize`, from the attributes that are left
on. -/
def serializeValues : List CMAttributeValuePayload → Nat → List UInt8 → Nat →
    Except Fault (List UInt8)
  | _, 0, buf, _ => .ok buf
  | [], _ + 1, _, _ => .error .overrun
  | a :: as, n + 1, buf, pt => do
    let buf ← memcpy buf pt (CMAttributePayload.format.pack a.toCMAttributePayload)
    let pt := pt + sizeofAttributeValuePayload
    let valueLength := cmAttributeRealValueLength a.valueLength.toNat
    let values ← readArray (← a.values.deref) valueLength
    let buf ← memcpy buf pt values
    serializeValues as n buf (pt + valueLength)

def cmAttributeValuesSerialize (msg : Pointer (List CMAttributeValuePayload)) (count : Nat)
    (buf : List UInt8) (dest : Nat) : Except Fault (List UInt8) :=
  if 0 < count then do serializeValues (← msg.deref) count buf dest
  else .ok buf

def parseAttributeValues (mem : Bytes) (pt : Nat) : Nat → Reads (List CMAttributeValuePayload)
  | 0 => return []
  | n + 1 => do
    let bytes ← Reads.bytes mem pt sizeofAttributeValuePayload
    let head := CMAttributePayload.format.unpack bytes
    let pt := pt + sizeofAttributeValuePayload
    let valuesSize := cmAttributeRealValueLength head.valueLength.toNat
    let values ← Reads.bytes mem pt valuesSize
    let rest ← parseAttributeValues mem (pt + valuesSize) n
    return { head with values := .object values } :: rest

/-- The size is compared with the first byte of one attribute. -/
def cmAttributeValuesParse (mem : Bytes) (msg size attrCount : Nat) :
    Reads (Pointer (List CMAttributeValuePayload)) :=
  if sizeofAttributeValuePayload ≤ size then do
    let attributes ← parseAttributeValues mem msg (cmAttributeRealAttrCount attrCount)
    return .object attributes
  else return .null

-- ---------------------------------------------------------------------------
-- What goes over the wire
-- ---------------------------------------------------------------------------

/-- The attribute has as many bytes of values as its `value_length` says. -/
def CMAttributeValuePayload.HasValues (a : CMAttributeValuePayload) : Prop :=
  ∃ values, a.values = .object values ∧ values.length = 2 ^ a.valueLength.toNat

def CMAttributeValuePayload.wire (a : CMAttributeValuePayload) : List UInt8 :=
  CMAttributePayload.format.pack a.toCMAttributePayload ++
    match a.values with
    | .object values => values
    | .null | .wild _ => []

/-- The byte at `pt` as the head of an attribute. -/
def headAt (mem : Bytes) (pt : Nat) : CMAttributePayload :=
  CMAttributePayload.format.unpack (block mem pt 1)

/-- The bytes that `n` attributes from `pt` on say to have. -/
def claimedValues (mem : Bytes) (pt : Nat) : Nat → Nat
  | 0 => 0
  | n + 1 =>
    let length := 1 + 2 ^ (headAt mem pt).valueLength.toNat
    length + claimedValues mem (pt + length) n

/-- How an array of attributes goes to the wire and back. -/
structure AttributesFormat (α : Type) where
  serializeSize : Pointer (List α) → Nat → Except Fault Nat
  serialize : Pointer (List α) → Nat → List UInt8 → Nat → Except Fault (List UInt8)
  parse : Bytes → Nat → Nat → Nat → Reads (Pointer (List α))

def attributesFormat : AttributesFormat CMAttributePayload where
  serializeSize _ count := .ok (cmAttributesSerializeSize count)
  serialize := cmAttributesSerialize
  parse := cmAttributesParse

def attributeValuesFormat : AttributesFormat CMAttributeValuePayload where
  serializeSize := cmAttributeValuesSerializeSize
  serialize := cmAttributeValuesSerialize
  parse := cmAttributeValuesParse

end IoTware.Collabo
