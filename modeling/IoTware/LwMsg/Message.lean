import IoTware.LwMsg.Object

/-!
# Building messages

The requests and responses that the framework sends. Every allocation succeeds,
and the keys it uses are no NULL pointers.
-/

namespace IoTware.LwMsg

open CText (Text)
open Loops

/-- `SET_LWM_OBJECT`: an object that is NULL is not set. -/
def setLwmObject (dict : LWMDictionary) (key : Text) :
    Option LWMObject → Except Fault LWMDictionary
  | none => .ok dict
  | some value => setLwmObjectToDict dict key value

def setLwmBodyObject (msg : LWMessage) (key : Text) (value : Option LWMObject) :
    Except Fault LWMessage := do
  return { msg with body := ← setLwmObject msg.body key value }

def newLwmReqMessage (interfaceId : UInt32) (dri di : Option Text) : Except Fault LWMessage := do
  let header ← setLwmObject [] "if".toList (some (.number (.uint32 interfaceId)))
  let header ← setLwmObject header "dri".toList (dri.map fun dri => .string (some dri))
  let header ← setLwmObject header "di".toList (di.map fun di => .string (some di))
  return ⟨header, []⟩

def newLwmRespMessage (dri : Option Text) (rsc : UInt32) : Except Fault LWMessage := do
  let header ← setLwmObject [] "dri".toList (dri.map fun dri => .string (some dri))
  let header ← setLwmObject header "rsc".toList
    (if rsc = 0 then none else some (.number (.uint32 rsc)))
  return ⟨header, []⟩

theorem keysNonNull_nil : KeysNonNull [] := fun _ hkv => absurd hkv List.not_mem_nil

theorem setLwmObject_ok (hn : KeysNonNull dict) (key : Text) (value : Option LWMObject) :
    ∃ dict', setLwmObject dict key value = .ok dict' ∧ KeysNonNull dict' := by
  cases value with
  | none => exact ⟨dict, rfl, hn⟩
  | some value =>
    obtain ⟨rest, hdel, hrest⟩ := deleteLwmKvoByKey_ok hn (some key)
    refine ⟨(some key, value) :: rest, ?_, hrest.cons⟩
    unfold setLwmObject setLwmObjectToDict
    simp only [hdel]
    rfl

theorem setLwmBodyObject_ok {msg : LWMessage} (hn : KeysNonNull msg.body) (key : Text)
    (value : Option LWMObject) :
    ∃ msg', setLwmBodyObject msg key value = .ok msg' ∧ msg'.header = msg.header ∧
      KeysNonNull msg'.body := by
  obtain ⟨body, hset, hbody⟩ := setLwmObject_ok hn key value
  refine ⟨{ msg with body := body }, ?_, rfl, hbody⟩
  unfold setLwmBodyObject
  rw [hset]
  rfl

theorem setLwmBodyObject_header (h : setLwmBodyObject msg key value = .ok msg') :
    msg'.header = msg.header := by
  simp only [setLwmBodyObject, bind_ok, pure_ok] at h
  obtain ⟨_, -, rfl⟩ := h
  rfl

theorem newLwmRespMessage_body (h : newLwmRespMessage dri rsc = .ok resp) : resp.body = [] := by
  simp only [newLwmRespMessage, bind_ok, pure_ok] at h
  obtain ⟨_, -, _, -, rfl⟩ := h
  rfl

theorem newLwmRespMessage_total (dri : Option Text) (rsc : UInt32) :
    ∃ resp, newLwmRespMessage dri rsc = .ok resp := by
  unfold newLwmRespMessage
  split <;> cases dri <;> exact ⟨_, rfl⟩

theorem newLwmRespMessage_ok (dri : Text) (rsc : UInt32) :
    ∃ msg, newLwmRespMessage (some dri) rsc = .ok msg ∧ msg.body = [] ∧
      getLwmObjectFromDict msg.header "dri".toList = .ok (some (.string (some dri))) := by
  by_cases h : rsc = 0
  · refine ⟨⟨[(some "dri".toList, .string (some dri))], []⟩, ?_, rfl, rfl⟩
    unfold newLwmRespMessage
    rw [if_pos h]
    rfl
  · refine ⟨⟨[(some "rsc".toList, .number (.uint32 rsc)), (some "dri".toList, .string (some dri))], []⟩,
      ?_, rfl, rfl⟩
    unfold newLwmRespMessage
    rw [if_neg h]
    rfl

end IoTware.LwMsg
