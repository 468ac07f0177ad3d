import IoTware.Base

/-!
# Lightweight message objects

The objects, dictionaries and messages of `iw_fw_lwMsgUtils`. A key and the
text of a string are `char *` and may be NULL, which is `none`; `strcmp` on a
NULL key is a fault.
-/

namespace IoTware.LwMsg

open CText (Text)
open Loops

inductive ParamType
  | int8 | uint8 | int16 | uint16 | int32 | uint32 | float | double | string | unknown
  deriving DecidableEq, Repr

/-- The number cell of an object: the declared type and the value stored under
it. The real types hold the number their bits denote. -/
inductive LWMNumber
  | int8 (value : Int8)
  | uint8 (value : UInt8)
  | int16 (value : Int16)
  | uint16 (value : UInt16)
  | int32 (value : Int32)
  | uint32 (value : UInt32)
  | float (value : Rat)
  | double (value : Rat)
  deriving DecidableEq

inductive LWMObject
  | number (num : LWMNumber)
  | string (value : Option Text)
  | array (items : List LWMObject)
  | dictionary (entries : List (Option Text × LWMObject))

abbrev LWMKVObject := Option Text × LWMObject

abbrev LWMDictionary := List LWMKVObject

structure LWMessage where
  header : LWMDictionary
  body : LWMDictionary

def LWMObject.stringValue : LWMObject → Option Text
  | .string value => value
  | _ => none

def KeysNonNull (dict : LWMDictionary) : Prop := ∀ kv ∈ dict, kv.1 ≠ none

theorem KeysNonNull.cons (h : KeysNonNull dict) : KeysNonNull ((some k, value) :: dict) := by
  simpa [KeysNonNull] using h

def getLwmObjectFromDict : LWMDictionary → Text → Except Fault (Option LWMObject)
  | [], _ => .ok none
  | (none, _) :: _, _ => .error .nullPointer
  | (some k, value) :: dict, key =>
    if k = key then .ok (some value) else getLwmObjectFromDict dict key

def deleteLwmKvoByKey : LWMDictionary → Option Text → Except Fault LWMDictionary
  | dict, none => .ok dict
  | [], some _ => .ok []
  | (none, _) :: _, some _ => .error .nullPointer
  | (some k, value) :: dict, some key =>
    if k = key then .ok dict
    else do return (some k, value) :: (← deleteLwmKvoByKey dict (some key))

def setLwmObjectToDict (dict : LWMDictionary) (key : Text) (value : LWMObject) :
    Except Fault LWMDictionary := do
  return (some key, value) :: (← deleteLwmKvoByKey dict (some key))

def addLwmObjectToArray (array : List LWMObject) : Option LWMObject → List LWMObject
  | none => array
  | some value => value :: array

def newLwmEmptyMessage : LWMessage := ⟨[], []⟩

def keys (dict : LWMDictionary) : List (Option Text) := dict.map Prod.fst

theorem deleteLwmKvoByKey_of_notMem (hn : KeysNonNull dict) (h : some key ∉ keys dict) :
    deleteLwmKvoByKey dict (some key) = .ok dict := by
  induction dict with
  | nil => rfl
  | cons kv dict ih =>
    obtain ⟨k, value⟩ := kv
    cases k with
    | none => exact absurd rfl (hn (none, value) (by simp))
    | some k =>
      have hk : k ≠ key := fun he => h (by simp [keys, he])
      have hd := ih (fun x hx => hn x (by simp [hx])) (fun hm => h (List.mem_cons_of_mem _ hm))
      simp [deleteLwmKvoByKey, hk, hd, bind, Except.bind, pure, Except.pure]

theorem deleteLwmKvoByKey_ok (hd : KeysNonNull dict) (key : Option Text) :
    ∃ dict', deleteLwmKvoByKey dict key = .ok dict' ∧ KeysNonNull dict' := by
  cases key with
  | none => exact ⟨dict, by cases dict <;> rfl, hd⟩
  | some key =>
    induction dict with
    | nil => exact ⟨[], rfl, hd⟩
    | cons kv dict ih =>
      obtain ⟨k, value⟩ := kv
      cases k with
      | none => exact absurd rfl (hd (none, value) (by simp))
      | some k =>
        have hrest : KeysNonNull dict := fun kv hkv => hd kv (List.mem_cons_of_mem _ hkv)
        obtain ⟨rest, hdel, hnn⟩ := ih hrest
        by_cases hk : k = key
        · exact ⟨dict, by simp [deleteLwmKvoByKey, hk], hrest⟩
        · exact ⟨(some k, value) :: rest, by simp [deleteLwmKvoByKey, hk, hdel, bind, Except.bind,
            pure, Except.pure], hnn.cons⟩

theorem getLwmObjectFromDict_ok (hd : KeysNonNull dict) (key : Text) :
    ∃ value, getLwmObjectFromDict dict key = .ok value := by
  induction dict with
  | nil => exact ⟨none, rfl⟩
  | cons kv dict ih =>
    obtain ⟨k, v⟩ := kv
    cases k with
    | none => exact absurd rfl (hd (none, v) (by simp))
    | some k =>
      unfold getLwmObjectFromDict
      split
      · exact ⟨some v, rfl⟩
      · exact ih fun kv hkv => hd kv (List.mem_cons_of_mem _ hkv)

theorem deleteLwmKvoByKey_sublist (h : deleteLwmKvoByKey dict key = .ok dict') :
    List.Sublist dict' dict := by
  induction dict generalizing dict' with
  | nil => cases key <;> simp [deleteLwmKvoByKey] at h <;> simp [h]
  | cons kv dict ih =>
    obtain ⟨k, value⟩ := kv
    cases key with
    | none => simp only [deleteLwmKvoByKey, Except.ok.injEq] at h; simp [h]
    | some key =>
      cases k with
      | none => simp [deleteLwmKvoByKey] at h
      | some k =>
        simp only [deleteLwmKvoByKey] at h
        split at h
        · cases h; exact List.sublist_cons_self _ _
        · simp only [bind_ok, pure_ok] at h
          obtain ⟨rest, hr, rfl⟩ := h
          exact (ih hr).cons_cons _

end IoTware.LwMsg
