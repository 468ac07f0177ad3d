import IoTware.Lib.Blocks
import IoTware.LwMsg.Parse

/-!
# Messages and the blocks they are made of

The parser and the routines that delete what it made, with the blocks that
`calloc` and `malloc` give them and the ones they `free`. Every allocation
succeeds. A deletion of a list removes as many nodes as its counter says; the
rest is lost where the list itself is freed.
-/

namespace IoTware.LwMsg.Owned

open CText Loops Blocks

abbrev OwnedText := Option (Nat × Text)

/-- The node of an entry, its `LWMKVObject` and its key. -/
structure OwnedKey where
  node : Nat
  kvo : Nat
  key : OwnedText

/-- The objects with their blocks: the `LWMObject`, and what its `value` points to. -/
inductive OwnedObject
  | number (obj cell : Nat) (value : Option Nat) (num : LWMNumber)
  | string (obj : Nat) (value : OwnedText)
  | array (obj list : Nat) (items : List (Nat × OwnedObject))
  | dictionary (obj list : Nat) (entries : List (OwnedKey × OwnedObject))

abbrev OwnedDictionary := List (OwnedKey × OwnedObject)

structure OwnedMessage where
  block : Nat
  header : OwnedDictionary
  body : OwnedDictionary

def OwnedText.erase (t : OwnedText) : Option Text := t.map Prod.snd

mutual
def OwnedObject.erase : OwnedObject → LWMObject
  | .number _ _ _ num => .number num
  | .string _ value => .string (OwnedText.erase value)
  | .array _ _ items => .array (eraseItems items)
  | .dictionary _ _ entries => .dictionary (eraseEntries entries)
def eraseItems : List (Nat × OwnedObject) → List LWMObject
  | [] => []
  | (_, obj) :: items => obj.erase :: eraseItems items
def eraseEntries : OwnedDictionary → LWMDictionary
  | [] => []
  | (key, value) :: entries => (OwnedText.erase key.key, value.erase) :: eraseEntries entries
end

def OwnedMessage.erase (msg : OwnedMessage) : LWMessage :=
  ⟨eraseEntries msg.header, eraseEntries msg.body⟩

def blockOf : Option Nat → Multiset Nat
  | none => 0
  | some b => {b}

def OwnedText.blocks (t : OwnedText) : Multiset Nat := blockOf (t.map Prod.fst)

def OwnedKey.blocks (key : OwnedKey) : Multiset Nat :=
  key.node ::ₘ key.kvo ::ₘ OwnedText.blocks key.key

mutual
def OwnedObject.blocks : OwnedObject → Multiset Nat
  | .number obj cell value _ => obj ::ₘ cell ::ₘ blockOf value
  | .string obj value => obj ::ₘ OwnedText.blocks value
  | .array obj list items => obj ::ₘ list ::ₘ itemsBlocks items
  | .dictionary obj list entries => obj ::ₘ list ::ₘ entriesBlocks entries
def itemsBlocks : List (Nat × OwnedObject) → Multiset Nat
  | [] => 0
  | (node, obj) :: items => (node ::ₘ obj.blocks) + itemsBlocks items
def entriesBlocks : OwnedDictionary → Multiset Nat
  | [] => 0
  | (key, value) :: entries => (key.blocks + value.blocks) + entriesBlocks entries
end

def OwnedMessage.blocks (msg : OwnedMessage) : Multiset Nat :=
  msg.block ::ₘ (entriesBlocks msg.header + entriesBlocks msg.body)

-- ---------------------------------------------------------------------------
-- Deleting
-- ---------------------------------------------------------------------------

def freeBlock (b : Option Nat) (h : Heap) : Heap := b.elim h h.free

def freeText (t : OwnedText) (h : Heap) : Heap := freeBlock (t.map Prod.fst) h

mutual
def deleteLwmObject : OwnedObject → Heap → Heap
  | .number obj cell value _, h => ((freeBlock value h).free cell).free obj
  | .string obj value, h => (freeText value h).free obj
  | .array obj list items, h =>
    (((deleteItems (nodeNum items) items h).lose (itemsBlocks (foreachToDel items))).free list).free obj
  | .dictionary obj list entries, h =>
    (((deleteEntries (nodeNum entries) entries h).lose
      (entriesBlocks (foreachToDel entries))).free list).free obj
def deleteItems : Nat → List (Nat × OwnedObject) → Heap → Heap
  | 0, _, h => h
  | _ + 1, [], h => h
  | n + 1, (node, obj) :: items, h => deleteItems n items ((deleteLwmObject obj h).free node)
def deleteEntries : Nat → OwnedDictionary → Heap → Heap
  | 0, _, h => h
  | _ + 1, [], h => h
  | n + 1, (key, value) :: entries, h =>
    deleteEntries n entries (((freeText key.key (deleteLwmObject value h)).free key.kvo).free key.node)
end

def deleteLwmKvo (dict : OwnedDictionary) (h : Heap) : OwnedDictionary × Heap :=
  (foreachToDel dict, deleteEntries (nodeNum dict) dict h)

def deleteLwmDictionary (list : Nat) (dict : OwnedDictionary) (h : Heap) : Heap :=
  let (rest, h) := deleteLwmKvo dict h
  (h.lose (entriesBlocks rest)).free list

def deleteLwmMessage (msg : OwnedMessage) (h : Heap) : Heap :=
  let (header, h) := deleteLwmKvo msg.header h
  let (body, h) := deleteLwmKvo msg.body h
  (h.lose (entriesBlocks header + entriesBlocks body)).free msg.block

def deleteLwmKvoByKey : OwnedDictionary → Option Text → Heap → Except Fault (OwnedDictionary × Heap)
  | dict, none, h => .ok (dict, h)
  | [], some _, h => .ok ([], h)
  | (key, value) :: dict, some k, h =>
    match OwnedText.erase key.key with
    | none => .error .nullPointer
    | some k' =>
      if k' = k then
        .ok (dict, ((freeText key.key (deleteLwmObject value h)).free key.kvo).free key.node)
      else do
        let (dict, h) ← deleteLwmKvoByKey dict (some k) h
        return ((key, value) :: dict, h)

-- ---------------------------------------------------------------------------
-- Parsing
-- ---------------------------------------------------------------------------

def newLwmStringObject (text : Option Text) (h : Heap) : OwnedObject × Heap :=
  let (obj, h) := h.alloc
  match text with
  | none => (.string obj none, h)
  | some t =>
    let (value, h) := h.alloc
    (.string obj (some (value, t)), h)

/-- A text between two cursors becomes an object by way of `valstr`. -/
def newTextObject (text : Text) (h : Heap) : OwnedObject × Heap :=
  let (valstr, h) := h.alloc
  let (obj, h) := newLwmStringObject (some text) h
  (obj, h.free valstr)

def addLwmObjectToArray (items : List (Nat × OwnedObject)) (obj : Option OwnedObject) (h : Heap) :
    List (Nat × OwnedObject) × Heap :=
  match obj with
  | none => (items, h)
  | some obj =>
    let (node, h) := h.alloc
    ((node, obj) :: items, h)

/-- What `_lwm_kvo_parsing` returns: the `LWMKVObject`, its key and its value. -/
structure OwnedKvo where
  kvo : Nat
  key : OwnedText
  value : OwnedObject

def OwnedKvo.erase (kv : OwnedKvo) : LWMKVObject := (OwnedText.erase kv.key, kv.value.erase)

def OwnedKvo.blocks (kv : OwnedKvo) : Multiset Nat :=
  kv.kvo ::ₘ (OwnedText.blocks kv.key + kv.value.blocks)

mutual
def lwmDictLoop : Nat → OwnedDictionary → List Char → Heap →
    Except Fault ((Bool × OwnedDictionary × List Char) × Heap)
  | 0, _, _, _ => .error .fuel
  | _ + 1, _, [], _ => .error .overrun
  | n + 1, dict, c :: p, h =>
    if c = nul then .ok ((true, dict, c :: p), h)
    else if isSpace c then lwmDictLoop n dict p h
    else if c = '}' then .ok ((true, dict, c :: p), h)
    else if c = ';' then lwmDictLoop n dict p h
    else do
      match ← lwmKvoParsing n (c :: p) h with
      | ((none, q), h) => return ((false, dict, q), h)
      | ((some kv, q), h) =>
        let (dict, h) ← deleteLwmKvoByKey dict (OwnedText.erase kv.key) h
        let (node, h) := h.alloc
        let dict := (⟨node, kv.kvo, kv.key⟩, kv.value) :: dict
        match q with
        | [] => .error .overrun
        | d :: q => if d = '}' then return ((true, dict, d :: q), h) else lwmDictLoop n dict q h

def lwmKvoVal : Nat → List Char → Heap → Except Fault ((Option OwnedObject × List Char) × Heap)
  | 0, _, _ => .error .fuel
  | _ + 1, [], _ => .error .overrun
  | n + 1, c :: p, h =>
    if c = nul then
      let (obj, h) := newLwmStringObject none h
      .ok ((some obj, c :: p), h)
    else if isSpace c then lwmKvoVal n p h
    else if c = '{' then lwmNewDictParsing n (c :: p) h
    else if c = '[' then lwmNewArrayParsing n (c :: p) h
    else if lwmIsToken c [']', '}', ';', '=', ','] then .ok ((none, c :: p), h)
    else do
      match ← lwmKvoText (c :: p) p with
      | (none, q) => return ((none, q), h)
      | (some none, q) =>
        let (obj, h) := newLwmStringObject none h
        return ((some obj, q), h)
      | (some (some text), q) =>
        let (obj, h) := newTextObject text h
        return ((some obj, q), h)

def lwmKvoParsing : Nat → List Char → Heap → Except Fault ((Option OwnedKvo × List Char) × Heap)
  | 0, _, _ => .error .fuel
  | n + 1, p, h => do
    match ← lwmKvoKey none p with
    | .ended q =>
      let (kvo, h) := h.alloc
      let (obj, h) := newLwmStringObject none h
      return ((some ⟨kvo, none, obj⟩, q), h)
    | .failed q => return ((none, q), h)
    | .key text q =>
      let (key, h) := h.alloc
      match ← lwmKvoVal n q h with
      | ((none, q), h) => return ((none, q), h.free key)
      | ((some value, q), h) =>
        let (kvo, h) := h.alloc
        return ((some ⟨kvo, some (key, text), value⟩, q), h)

/-- `NEW_LWM_DICT_OBJECT` makes a list of its own, which `dict` replaces. -/
def lwmNewDictParsing : Nat → List Char → Heap → Except Fault ((Option OwnedObject × List Char) × Heap)
  | 0, _, _ => .error .fuel
  | _ + 1, [], _ => .error .overrun
  | n + 1, c :: p, h => do
    let (list, h) := h.alloc
    match ← lwmDictLoop n [] (if c = '{' then p else c :: p) h with
    | ((true, dict, q), h) =>
      let (obj, h) := h.alloc
      let (own, h) := h.alloc
      return ((some (.dictionary obj list dict), q), h.lose {own})
    | ((false, dict, q), h) => return ((none, q), deleteLwmDictionary list dict h)

/-- The loop of `_lwm_new_array_parsing`: `bFlag`, the items and the cursor. -/
def lwmArrayLoop : Nat → ArrayMode → List (Nat × OwnedObject) → List Char → Heap →
    Except Fault ((Bool × List (Nat × OwnedObject) × List Char) × Heap)
  | 0, _, _, _, _ => .error .fuel
  | _ + 1, _, _, [], _ => .error .overrun
  | n + 1, mode, arr, c :: p, h =>
    if c = nul then .ok ((true, arr, c :: p), h)
    else if isSpace c then lwmArrayLoop n mode arr p h
    else
      match mode with
      | .openable =>
        if c = ',' ∨ c = ']' then .ok ((false, arr, c :: p), h)
        else if c = '{' then do
          let ((obj, q), h) ← lwmNewDictParsing n (c :: p) h
          let (arr, h) := addLwmObjectToArray arr obj h
          lwmArrayLoop n .object arr q.tail h
        else if c = '[' then do
          let ((obj, q), h) ← lwmNewArrayParsing n (c :: p) h
          let (arr, h) := addLwmObjectToArray arr obj h
          lwmArrayLoop n .object arr q.tail h
        else if lwmIsToken c ['}', ';', '='] then .ok ((false, arr, c :: p), h)
        else lwmArrayLoop n (.kvVal (c :: p)) arr p h
      | .kvVal start =>
        if c = ',' then
          let (obj, h) := newTextObject (between start (c :: p)) h
          let (arr, h) := addLwmObjectToArray arr (some obj) h
          lwmArrayLoop n .openable arr p h
        else if c = ']' then
          let (obj, h) := newTextObject (between start (c :: p)) h
          let (arr, h) := addLwmObjectToArray arr (some obj) h
          .ok ((true, arr, c :: p), h)
        else lwmArrayLoop n mode arr p h
      | .object =>
        if c = ',' then lwmArrayLoop n .openable arr p h
        else if c = ']' then .ok ((true, arr, c :: p), h)
        else lwmArrayLoop n .object arr p h

def lwmNewArrayParsing : Nat → List Char → Heap → Except Fault ((Option OwnedObject × List Char) × Heap)
  | 0, _, _ => .error .fuel
  | _ + 1, [], _ => .error .overrun
  | n + 1, c :: p, h =>
    let (obj, h) := h.alloc
    let (list, h) := h.alloc
    match if c = '[' then p else c :: p with
    | [] => .error .overrun
    | d :: q =>
      if d = ']' then .ok ((some (.array obj list []), d :: q), h)
      else do
        match ← lwmArrayLoop n .openable [] (d :: q) h with
        | ((true, arr, q), h) => return ((some (.array obj list arr), q), h)
        | ((false, arr, q), h) => return ((none, q), deleteLwmObject (.array obj list arr) h)
end

def lwmDictParsing (fuel : Nat) (dict : OwnedDictionary) :
    List Char → Heap → Except Fault ((OwnedDictionary × List Char) × Heap)
  | [], _ => .error .overrun
  | c :: p, h => do
    match ← lwmDictLoop fuel dict (if c = '{' then p else c :: p) h with
    | ((true, dict, q), h) => return ((dict, q), h)
    | ((false, dict, q), h) =>
      let (dict, h) := deleteLwmKvo dict h
      return ((dict, q), h)

def lwmMessageLoop : Nat → MessageMode → Bool → OwnedMessage → List Char → Heap →
    Except Fault ((Bool × OwnedMessage) × Heap)
  | 0, _, _, _, _, _ => .error .fuel
  | _ + 1, _, _, _, [], _ => .error .overrun
  | n + 1, mode, bFlag, msg, c :: p, h =>
    if c = nul then .ok ((bFlag, msg), h)
    else if isSpace c then lwmMessageLoop n mode bFlag msg p h
    else if lwmIsToken c ['[', ']', '}', ';', '=', ','] then .ok ((bFlag, msg), h)
    else if c = '{' then
      match mode with
      | .header => do
        let ((header, q), h) ← lwmDictParsing n msg.header (c :: p) h
        lwmMessageLoop n .body true { msg with header } q.tail h
      | .body => do
        let ((body, q), h) ← lwmDictParsing n msg.body (c :: p) h
        lwmMessageLoop n .openable true { msg with body } q.tail h
      | .openable => .ok ((false, msg), h)
    else .ok ((false, msg), h)

def parseLwmMessageStr (buffer : List Char) (h : Heap) : Except Fault (Option OwnedMessage × Heap) :=
  match buffer with
  | [] => .error .overrun
  | c :: p =>
    if c = nul then .ok (none, h)
    else do
      let (block, h) := h.alloc
      match ← lwmMessageLoop (parseFuel (c :: p)) .header false ⟨block, [], []⟩ (c :: p) h with
      | ((true, msg), h) => return (some msg, h)
      | ((false, msg), h) => return (none, deleteLwmMessage msg h)

end IoTware.LwMsg.Owned
