import IoTware.LwMsg.Object

/-!
# The lightweight message parser

`parse_lwm_message_str` and the routines it shares the cursor `p` with. A
routine takes the cursor and returns the one it leaves behind: on the closing
bracket, on the separator, on the character it failed at, or on the terminator.
`**p` on an exhausted buffer is the fault `overrun`. The flags `value_has_*`
are set and never read, so they are left out.
-/

namespace IoTware.LwMsg

open CText

/-- `_lwm_is_token`: `ch` is one of `tokens`, or neither printable nor space. -/
def lwmIsToken (ch : Char) (tokens : List Char) : Bool :=
  tokens.isEmpty || tokens.any fun t => ch == t || !(isAlnum ch || isSpace ch || isPunct ch)

/-- What `_lwm_kvo_parsing` holds when its key mode is over. -/
inductive KeyEnd
  /-- The terminator came first: the loop ends with `bFlag` still set. -/
  | ended (p : List Char)
  /-- `bFlag = FALSE`. -/
  | failed (p : List Char)
  /-- `=` was read; the cursor is behind it. -/
  | key (text : Text) (p : List Char)

def lwmKvoKey (start : Option (List Char)) : List Char → Except Fault KeyEnd
  | [] => .error .overrun
  | c :: p =>
    if c = nul then .ok (.ended (c :: p))
    else if isSpace c then lwmKvoKey start p
    else if lwmIsToken c ['{', '[', ']', '}', ';', ','] then .ok (.failed (c :: p))
    else if c = '=' then
      match start with
      | none => .ok (.failed (c :: p))
      | some s => .ok (.key (between s (c :: p)) p)
    else lwmKvoKey (some (start.getD (c :: p))) p

/-- The loop in `ePM_KV_Val` mode once the value has started as a text. The
text is NULL when the terminator comes first, and `none` is `bFlag = FALSE`. -/
def lwmKvoText (start : List Char) : List Char → Except Fault (Option (Option Text) × List Char)
  | [] => .error .overrun
  | c :: p =>
    if c = nul then .ok (some none, c :: p)
    else if isSpace c then lwmKvoText start p
    else if lwmIsToken c ['{', '[', '=', ','] then .ok (none, c :: p)
    else if lwmIsToken c [']', '}', ';'] then .ok (some (some (between start (c :: p))), c :: p)
    else lwmKvoText start p

/-- The modes of `_lwm_new_array_parsing`. `ePM_Openable` and
`ePM_Openable | ePM_Object` pass the same tests, so they are one. -/
inductive ArrayMode
  | openable
  /-- `ePM_KV_Val` with the cursor the text started at. -/
  | kvVal (start : List Char)
  /-- `ePM_Dict` or `ePM_Array`: an object has been read. -/
  | object

mutual
/-- The loop of `_lwm_dict_parsing`: `bFlag`, the dictionary and the cursor. -/
def lwmDictLoop : Nat → LWMDictionary → List Char →
    Except Fault (Bool × LWMDictionary × List Char)
  | 0, _, _ => .error .fuel
  | _ + 1, _, [] => .error .overrun
  | n + 1, dict, c :: p =>
    if c = nul then .ok (true, dict, c :: p)
    else if isSpace c then lwmDictLoop n dict p
    else if c = '}' then .ok (true, dict, c :: p)
    else if c = ';' then lwmDictLoop n dict p
    else do
      match ← lwmKvoParsing n (c :: p) with
      | (none, q) => return (false, dict, q)
      | (some kvo, q) =>
        let dict ← deleteLwmKvoByKey dict kvo.1
        match q with
        | [] => .error .overrun
        | d :: q => if d = '}' then return (true, kvo :: dict, d :: q) else lwmDictLoop n (kvo :: dict) q

/-- The value part of `_lwm_kvo_parsing`: the loop in `ePM_KV_Val` mode until
the value starts. `none` is `bFlag = FALSE`. -/
def lwmKvoVal : Nat → List Char → Except Fault (Option LWMObject × List Char)
  | 0, _ => .error .fuel
  | _ + 1, [] => .error .overrun
  | n + 1, c :: p =>
    if c = nul then .ok (some (.string none), c :: p)
    else if isSpace c then lwmKvoVal n p
    else if c = '{' then lwmNewDictParsing n (c :: p)
    else if c = '[' then lwmNewArrayParsing n (c :: p)
    else if lwmIsToken c [']', '}', ';', '=', ','] then .ok (none, c :: p)
    else do
      let (text, q) ← lwmKvoText (c :: p) p
      return (text.map .string, q)

def lwmKvoParsing : Nat → List Char → Except Fault (Option LWMKVObject × List Char)
  | 0, _ => .error .fuel
  | n + 1, p => do
    match ← lwmKvoKey none p with
    | .ended q => return (some (none, .string none), q)
    | .failed q => return (none, q)
    | .key text q =>
      let (value, q) ← lwmKvoVal n q
      return (value.map (some text, ·), q)

/-- `_lwm_dict_parsing` on a fresh dictionary, as `_lwm_new_dict_parsing` calls
it: NULL when it failed. -/
def lwmNewDictParsing : Nat → List Char → Except Fault (Option LWMObject × List Char)
  | 0, _ => .error .fuel
  | _ + 1, [] => .error .overrun
  | n + 1, c :: p => do
    let (bFlag, dict, q) ← lwmDictLoop n [] (if c = '{' then p else c :: p)
    return (if bFlag then some (.dictionary dict) else none, q)

/-- The loop of `_lwm_new_array_parsing`: NULL when it failed. -/
def lwmArrayLoop : Nat → ArrayMode → List LWMObject → List Char →
    Except Fault (Option (List LWMObject) × List Char)
  | 0, _, _, _ => .error .fuel
  | _ + 1, _, _, [] => .error .overrun
  | n + 1, mode, arr, c :: p =>
    if c = nul then .ok (some arr, c :: p)
    else if isSpace c then lwmArrayLoop n mode arr p
    else
      match mode with
      | .openable =>
        if c = ',' ∨ c = ']' then .ok (none, c :: p)
        else if c = '{' then do
          let (obj, q) ← lwmNewDictParsing n (c :: p)
          lwmArrayLoop n .object (addLwmObjectToArray arr obj) q.tail
        else if c = '[' then do
          let (obj, q) ← lwmNewArrayParsing n (c :: p)
          lwmArrayLoop n .object (addLwmObjectToArray arr obj) q.tail
        else if lwmIsToken c ['}', ';', '='] then .ok (none, c :: p)
        else lwmArrayLoop n (.kvVal (c :: p)) arr p
      | .kvVal start =>
        if c = ',' then
          lwmArrayLoop n .openable (.string (some (between start (c :: p))) :: arr) p
        else if c = ']' then .ok (some (.string (some (between start (c :: p))) :: arr), c :: p)
        else lwmArrayLoop n mode arr p
      | .object =>
        if c = ',' then lwmArrayLoop n .openable arr p
        else if c = ']' then .ok (some arr, c :: p)
        else lwmArrayLoop n .object arr p

def lwmNewArrayParsing : Nat → List Char → Except Fault (Option LWMObject × List Char)
  | 0, _ => .error .fuel
  | _ + 1, [] => .error .overrun
  | n + 1, c :: p =>
    match if c = '[' then p else c :: p with
    | [] => .error .overrun
    | d :: q =>
      if d = ']' then .ok (some (.array []), d :: q)
      else do
        let (arr, q) ← lwmArrayLoop n .openable [] (d :: q)
        return (arr.map .array, q)
end

/-- `_lwm_dict_parsing` with `no_return`, on the header or the body: when it
failed, the entries are deleted again. -/
def lwmDictParsing (fuel : Nat) (dict : LWMDictionary) :
    List Char → Except Fault (LWMDictionary × List Char)
  | [] => .error .overrun
  | c :: p => do
    let (bFlag, dict, q) ← lwmDictLoop fuel dict (if c = '{' then p else c :: p)
    return (if bFlag then dict else foreachToDel dict, q)

/-- The modes of `parse_lwm_message_str`. -/
inductive MessageMode
  | header | body | openable
  deriving DecidableEq

/-- The loop of `parse_lwm_message_str`: `bFlag` and the message. The dictionary
routine leaves the cursor on a character the loop then steps over. -/
def lwmMessageLoop : Nat → MessageMode → Bool → LWMessage → List Char →
    Except Fault (Bool × LWMessage)
  | 0, _, _, _, _ => .error .fuel
  | _ + 1, _, _, _, [] => .error .overrun
  | n + 1, mode, bFlag, msg, c :: p =>
    if c = nul then .ok (bFlag, msg)
    else if isSpace c then lwmMessageLoop n mode bFlag msg p
    else if lwmIsToken c ['[', ']', '}', ';', '=', ','] then .ok (bFlag, msg)
    else if c = '{' then
      match mode with
      | .header => do
        let (header, q) ← lwmDictParsing n msg.header (c :: p)
        lwmMessageLoop n .body true { msg with header } q.tail
      | .body => do
        let (body, q) ← lwmDictParsing n msg.body (c :: p)
        lwmMessageLoop n .openable true { msg with body } q.tail
      | .openable => .ok (false, msg)
    else .ok (false, msg)

/-- Fuel for a buffer: no more than two calls are made at one position. -/
def parseFuel (buffer : List Char) : Nat := 2 * buffer.length + 2

/-- `parse_lwm_message_str` on the buffer its argument points into: `none` is
NULL. -/
def parseLwmMessageStr (buffer : List Char) : Except Fault (Option LWMessage) :=
  match buffer with
  | [] => .error .overrun
  | c :: p =>
    if c = nul then .ok none
    else do
      let (bFlag, msg) ← lwmMessageLoop (parseFuel (c :: p)) .header false newLwmEmptyMessage (c :: p)
      return if bFlag then some msg else none

end IoTware.LwMsg
