import IoTware.LwMsg.Owned

/-!
# What the parser allocates

The parser with its blocks makes the messages that the parser makes. It owns what
the message it returns is made of, and has freed or lost everything else.
-/

namespace IoTware.LwMsg.Owned

open CText Loops Blocks

-- ---------------------------------------------------------------------------
-- Deleting
-- ---------------------------------------------------------------------------

theorem freeBlock_owns {b : Option Nat} (h : Owns (blockOf b + owned) heap) :
    Owns owned (freeBlock b heap) := by
  cases b with
  | none => exact h.congr (by simp [blockOf])
  | some b => exact (h.congr (by simp [blockOf])).free

theorem freeText_owns {t : OwnedText} (h : Owns (t.blocks + owned) heap) :
    Owns owned (freeText t heap) :=
  freeBlock_owns h

mutual
theorem deleteLwmObject_owns : (obj : OwnedObject) → Owns (obj.blocks + owned) heap →
    Owns owned (deleteLwmObject obj heap)
  | .number obj cell value _, h => by
    refine (Owns.free (Owns.free (freeBlock_owns (h.congr ?_))))
    simp [OwnedObject.blocks, add_comm, Multiset.cons_swap]
  | .string obj value, h => by
    refine (Owns.free (freeText_owns (h.congr ?_)))
    simp [OwnedObject.blocks, add_comm]
  | .array obj list items, h => by
    refine (Owns.free (Owns.free (Owns.lose ?_)))
    exact deleteItems_owns _ items (h.congr (by simp [OwnedObject.blocks, add_comm, Multiset.cons_swap]))
  | .dictionary obj list entries, h => by
    refine (Owns.free (Owns.free (Owns.lose ?_)))
    exact deleteEntries_owns _ entries (h.congr (by simp [OwnedObject.blocks, add_comm, Multiset.cons_swap]))
theorem deleteItems_owns : (n : Nat) → (items : List (Nat × OwnedObject)) →
    Owns (itemsBlocks items + owned) heap →
    Owns (itemsBlocks (items.drop n) + owned) (deleteItems n items heap)
  | 0, _, h => by simpa only [List.drop_zero, deleteItems] using h
  | _ + 1, [], h => by simpa only [List.drop_nil, deleteItems] using h
  | n + 1, (node, obj) :: items, h => by
    refine deleteItems_owns n items (Owns.free (deleteLwmObject_owns obj (h.congr ?_)))
    simp [itemsBlocks, add_assoc]
theorem deleteEntries_owns : (n : Nat) → (entries : OwnedDictionary) →
    Owns (entriesBlocks entries + owned) heap →
    Owns (entriesBlocks (entries.drop n) + owned) (deleteEntries n entries heap)
  | 0, _, h => by simpa only [List.drop_zero, deleteEntries] using h
  | _ + 1, [], h => by simpa only [List.drop_nil, deleteEntries] using h
  | n + 1, (key, value) :: entries, h => by
    refine deleteEntries_owns n entries
      (Owns.free (Owns.free (freeText_owns (deleteLwmObject_owns value (h.congr ?_)))))
    simp [entriesBlocks, OwnedKey.blocks, add_assoc, add_left_comm, Multiset.cons_swap]
end

theorem deleteLwmKvo_owns (h : Owns (entriesBlocks dict + owned) heap) :
    Owns (entriesBlocks (deleteLwmKvo dict heap).1 + owned) (deleteLwmKvo dict heap).2 :=
  deleteEntries_owns _ dict h

theorem deleteLwmDictionary_owns (h : Owns (list ::ₘ (entriesBlocks dict + owned)) heap) :
    Owns owned (deleteLwmDictionary list dict heap) := by
  refine Owns.free (Owns.lose (deleteLwmKvo_owns (h.congr ?_)))
  simp

theorem deleteLwmMessage_owns {msg : OwnedMessage} (h : Owns (msg.blocks + owned) heap) :
    Owns owned (deleteLwmMessage msg heap) := by
  have hheader : Owns (entriesBlocks msg.header + (entriesBlocks msg.body + (msg.block ::ₘ owned)))
      heap := h.congr (by simp [OwnedMessage.blocks, add_assoc])
  have hbody := deleteLwmKvo_owns ((deleteLwmKvo_owns hheader).congr (add_left_comm _ _ _))
  refine Owns.free (Owns.lose (hbody.congr ?_))
  simp [deleteLwmKvo, add_left_comm, add_assoc]

-- ---------------------------------------------------------------------------
-- Lists without their blocks
-- ---------------------------------------------------------------------------

theorem eraseItems_eq (items : List (Nat × OwnedObject)) :
    eraseItems items = items.map fun item => item.2.erase := by
  induction items with
  | nil => rfl
  | cons item items ih => simp [eraseItems, ih]

theorem eraseEntries_eq (entries : OwnedDictionary) :
    eraseEntries entries = entries.map fun e => (e.1.key.erase, e.2.erase) := by
  induction entries with
  | nil => rfl
  | cons e entries ih => simp [eraseEntries, ih]

theorem eraseEntries_foreachToDel (entries : OwnedDictionary) :
    eraseEntries (foreachToDel entries) = foreachToDel (eraseEntries entries) := by
  simp [eraseEntries_eq, foreachToDel, nodeNum]

theorem deleteLwmKvoByKey_follows (key : Option Text)
    (h : Owns (entriesBlocks dict + owned) heap) :
    Follows eraseEntries (fun dict h => Owns (entriesBlocks dict + owned) h)
      (deleteLwmKvoByKey dict key heap) (LwMsg.deleteLwmKvoByKey (eraseEntries dict) key) := by
  cases key with
  | none => cases dict <;> exact .ok h rfl
  | some k =>
    induction dict generalizing owned heap with
    | nil => exact .ok h rfl
    | cons e dict ih =>
      obtain ⟨key, value⟩ := e
      simp only [deleteLwmKvoByKey, eraseEntries]
      cases hkey : key.key.erase with
      | none => exact .error
      | some k' =>
        simp only [LwMsg.deleteLwmKvoByKey]
        refine .ite (fun _ => .ok ?_ rfl) fun _ => ?_
        · refine Owns.free (Owns.free (freeText_owns (deleteLwmObject_owns value (h.congr ?_))))
          simp [entriesBlocks, OwnedKey.blocks, add_assoc, add_left_comm, Multiset.cons_swap]
        · have hrest : Owns (entriesBlocks dict + (key.blocks + value.blocks + owned)) heap :=
            h.congr (by simp [entriesBlocks, add_comm, add_left_comm])
          refine (ih hrest).bind fun dict' heap' hdict => .ok (hdict.congr ?_) ?_
          · simp [entriesBlocks, add_comm, add_left_comm]
          · simp [eraseEntries, hkey]

-- ---------------------------------------------------------------------------
-- Objects
-- ---------------------------------------------------------------------------

def objectBlocks (obj : Option OwnedObject) : Multiset Nat := obj.elim 0 OwnedObject.blocks

theorem newLwmStringObject_owns (text : Option Text) (h : Owns owned heap) :
    Owns ((newLwmStringObject text heap).1.blocks + owned) (newLwmStringObject text heap).2 := by
  cases text with
  | none => exact h.alloc.congr (by simp [newLwmStringObject, OwnedObject.blocks, OwnedText.blocks, blockOf])
  | some t =>
    refine h.alloc.alloc.congr ?_
    simp [newLwmStringObject, OwnedObject.blocks, OwnedText.blocks, blockOf, Multiset.cons_swap]

theorem newTextObject_owns (text : Text) (h : Owns owned heap) :
    Owns ((newTextObject text heap).1.blocks + owned) (newTextObject text heap).2 := by
  have hobj := newLwmStringObject_owns (some text) h.alloc
  exact Owns.free (hobj.congr (by simp [newTextObject, Heap.alloc]))

theorem addLwmObjectToArray_owns {obj : Option OwnedObject}
    (h : Owns (objectBlocks obj + (itemsBlocks items + owned)) heap) :
    Owns (itemsBlocks (addLwmObjectToArray items obj heap).1 + owned)
      (addLwmObjectToArray items obj heap).2 := by
  cases obj with
  | none => exact h.congr (by simp [objectBlocks, addLwmObjectToArray])
  | some obj =>
    refine h.alloc.congr ?_
    simp [objectBlocks, addLwmObjectToArray, itemsBlocks, add_assoc]

theorem addLwmObjectToArray_erase (obj : Option OwnedObject) (heap : Heap) :
    eraseItems (addLwmObjectToArray items obj heap).1 =
      LwMsg.addLwmObjectToArray (eraseItems items) (obj.map OwnedObject.erase) := by
  cases obj <;> rfl

-- ---------------------------------------------------------------------------
-- The routines
-- ---------------------------------------------------------------------------

def kvoBlocks (kv : Option OwnedKvo) : Multiset Nat := kv.elim 0 OwnedKvo.blocks

/-- The items as the loop of the parser returns them: NULL when it failed. -/
def readItems (bFlag : Bool) (items : List (Nat × OwnedObject)) : Option (List LWMObject) :=
  if bFlag then some (eraseItems items) else none

/-- A routine with blocks does what the routine does, and owns what it returns. -/
structure OwnedAt (n : Nat) : Prop where
  dictLoop : Owns (entriesBlocks dict + owned) heap →
    Follows (fun r => (r.1, eraseEntries r.2.1, r.2.2))
      (fun r h => Owns (entriesBlocks r.2.1 + owned) h)
      (lwmDictLoop n dict p heap) (LwMsg.lwmDictLoop n (eraseEntries dict) p)
  kvoVal : Owns owned heap →
    Follows (fun r => (r.1.map OwnedObject.erase, r.2)) (fun r h => Owns (objectBlocks r.1 + owned) h)
      (lwmKvoVal n p heap) (LwMsg.lwmKvoVal n p)
  kvo : Owns owned heap →
    Follows (fun r => (r.1.map OwnedKvo.erase, r.2)) (fun r h => Owns (kvoBlocks r.1 + owned) h)
      (lwmKvoParsing n p heap) (LwMsg.lwmKvoParsing n p)
  newDict : Owns owned heap →
    Follows (fun r => (r.1.map OwnedObject.erase, r.2)) (fun r h => Owns (objectBlocks r.1 + owned) h)
      (lwmNewDictParsing n p heap) (LwMsg.lwmNewDictParsing n p)
  arrayLoop : Owns (itemsBlocks items + owned) heap →
    Follows (fun r => (readItems r.1 r.2.1, r.2.2)) (fun r h => Owns (itemsBlocks r.2.1 + owned) h)
      (lwmArrayLoop n mode items p heap) (LwMsg.lwmArrayLoop n mode (eraseItems items) p)
  newArray : Owns owned heap →
    Follows (fun r => (r.1.map OwnedObject.erase, r.2)) (fun r h => Owns (objectBlocks r.1 + owned) h)
      (lwmNewArrayParsing n p heap) (LwMsg.lwmNewArrayParsing n p)

theorem OwnedAt.dictLoop_succ (ih : OwnedAt n) (h : Owns (entriesBlocks dict + owned) heap) :
    Follows (fun r => (r.1, eraseEntries r.2.1, r.2.2))
      (fun r h => Owns (entriesBlocks r.2.1 + owned) h)
      (lwmDictLoop (n + 1) dict p heap) (LwMsg.lwmDictLoop (n + 1) (eraseEntries dict) p) := by
  cases p with
  | nil => exact .error
  | cons c p =>
    rw [lwmDictLoop, LwMsg.lwmDictLoop]
    refine .ite (fun _ => .ok h rfl) fun _ => .ite (fun _ => ih.dictLoop h) fun _ =>
      .ite (fun _ => .ok h rfl) fun _ => .ite (fun _ => ih.dictLoop h) fun _ => ?_
    refine (ih.kvo h).bind fun r heap hr => ?_
    obtain ⟨kv, q⟩ := r
    cases kv with
    | none => exact .ok (hr.congr (by simp [kvoBlocks])) rfl
    | some kv =>
      have hread : Owns (entriesBlocks dict + (kv.blocks + owned)) heap :=
        hr.congr (by simp [kvoBlocks, add_left_comm])
      refine (deleteLwmKvoByKey_follows _ hread).bind fun dict heap hdict => ?_
      have hnode : Owns (entriesBlocks ((⟨heap.alloc.1, kv.kvo, kv.key⟩, kv.value) :: dict) + owned)
          heap.alloc.2 := by
        refine hdict.alloc.congr ?_
        simp [entriesBlocks, OwnedKey.blocks, OwnedKvo.blocks, add_comm, add_left_comm]
      cases q with
      | nil => exact .error
      | cons d q => exact .ite (fun _ => .ok hnode rfl) fun _ => ih.dictLoop hnode

theorem OwnedAt.kvoVal_succ (ih : OwnedAt n) (h : Owns owned heap) :
    Follows (fun r => (r.1.map OwnedObject.erase, r.2)) (fun r h => Owns (objectBlocks r.1 + owned) h)
      (lwmKvoVal (n + 1) p heap) (LwMsg.lwmKvoVal (n + 1) p) := by
  cases p with
  | nil => exact .error
  | cons c p =>
    have hnull := newLwmStringObject_owns none h
    rw [lwmKvoVal, LwMsg.lwmKvoVal]
    refine .ite (fun _ => .ok hnull rfl) fun _ => .ite (fun _ => ih.kvoVal h) fun _ =>
      .ite (fun _ => ih.newDict h) fun _ => .ite (fun _ => ih.newArray h) fun _ =>
      .ite (fun _ => .ok (h.congr (by simp [objectBlocks])) rfl) fun _ => ?_
    refine .lift fun r _ => ?_
    obtain ⟨_ | _ | text, q⟩ := r
    · exact .ok (h.congr (by simp [objectBlocks])) rfl
    · exact .ok hnull rfl
    · exact .ok (newTextObject_owns text h) rfl

theorem OwnedAt.kvo_succ (ih : OwnedAt n) (h : Owns owned heap) :
    Follows (fun r => (r.1.map OwnedKvo.erase, r.2)) (fun r h => Owns (kvoBlocks r.1 + owned) h)
      (lwmKvoParsing (n + 1) p heap) (LwMsg.lwmKvoParsing (n + 1) p) := by
  rw [lwmKvoParsing, LwMsg.lwmKvoParsing]
  refine .lift fun e _ => ?_
  cases e with
  | ended q =>
    refine .ok ((newLwmStringObject_owns none h.alloc).congr ?_) rfl
    simp [kvoBlocks, OwnedKvo.blocks, OwnedText.blocks, blockOf]
    rfl
  | failed q => exact .ok (h.congr (by simp [kvoBlocks])) rfl
  | key text q =>
    refine (ih.kvoVal h.alloc).bind fun r heap' hr => ?_
    obtain ⟨value, q⟩ := r
    cases value with
    | none => exact .ok (Owns.free (hr.congr (by simp [objectBlocks, kvoBlocks, Heap.alloc]))) rfl
    | some value =>
      refine .ok (hr.alloc.congr ?_) rfl
      simp [objectBlocks, kvoBlocks, OwnedKvo.blocks, OwnedText.blocks, blockOf, Heap.alloc,
        Multiset.cons_swap]

theorem OwnedAt.newDict_succ (ih : OwnedAt n) (h : Owns owned heap) :
    Follows (fun r => (r.1.map OwnedObject.erase, r.2)) (fun r h => Owns (objectBlocks r.1 + owned) h)
      (lwmNewDictParsing (n + 1) p heap) (LwMsg.lwmNewDictParsing (n + 1) p) := by
  cases p with
  | nil => exact .error
  | cons c p =>
    rw [lwmNewDictParsing, LwMsg.lwmNewDictParsing]
    have hlist : Owns (entriesBlocks [] + (heap.alloc.1 ::ₘ owned)) heap.alloc.2 :=
      h.alloc.congr (by simp [entriesBlocks])
    refine (ih.dictLoop hlist).bind fun r heap' hr => ?_
    obtain ⟨_ | _, dict, q⟩ := r
    · have hdict : Owns (heap.alloc.1 ::ₘ (entriesBlocks dict + owned)) heap' := hr.congr (by simp)
      exact .ok ((deleteLwmDictionary_owns hdict).congr (by simp [objectBlocks])) rfl
    · refine .ok (Owns.lose (hr.alloc.alloc.congr ?_)) rfl
      simp [objectBlocks, OwnedObject.blocks, Heap.alloc, add_comm, Multiset.cons_swap]

theorem OwnedAt.behindItem (ih : OwnedAt n) {items : List (Nat × OwnedObject)}
    {res : Except Fault ((Option OwnedObject × List Char) × Heap)}
    {res' : Except Fault (Option LWMObject × List Char)}
    (h : Follows (fun r => (r.1.map OwnedObject.erase, r.2))
      (fun r h => Owns (objectBlocks r.1 + (itemsBlocks items + owned)) h) res res') :
    Follows (fun r => (readItems r.1 r.2.1, r.2.2)) (fun r h => Owns (itemsBlocks r.2.1 + owned) h)
      (do
        let ((obj, q), h) ← res
        let (arr, h) := addLwmObjectToArray items obj h
        lwmArrayLoop n .object arr q.tail h)
      (do
        let (obj, q) ← res'
        LwMsg.lwmArrayLoop n .object (LwMsg.addLwmObjectToArray (eraseItems items) obj) q.tail) := by
  refine h.bind fun r heap hr => ?_
  dsimp only
  rw [← addLwmObjectToArray_erase]
  exact ih.arrayLoop (addLwmObjectToArray_owns hr)

theorem OwnedAt.arrayLoop_succ (ih : OwnedAt n) (h : Owns (itemsBlocks items + owned) heap) :
    Follows (fun r => (readItems r.1 r.2.1, r.2.2)) (fun r h => Owns (itemsBlocks r.2.1 + owned) h)
      (lwmArrayLoop (n + 1) mode items p heap) (LwMsg.lwmArrayLoop (n + 1) mode (eraseItems items) p) := by
  cases p with
  | nil => exact .error
  | cons c p =>
    have htext (t : Text) : Owns (itemsBlocks (addLwmObjectToArray items (some (newTextObject t heap).1)
        (newTextObject t heap).2).1 + owned) (addLwmObjectToArray items
        (some (newTextObject t heap).1) (newTextObject t heap).2).2 :=
      addLwmObjectToArray_owns (newTextObject_owns t h)
    rw [lwmArrayLoop.eq_def, LwMsg.lwmArrayLoop.eq_def]
    refine .ite (fun _ => .ok h rfl) fun _ => .ite (fun _ => ih.arrayLoop h) fun _ => ?_
    cases mode with
    | openable =>
      exact .ite (fun _ => .ok h rfl) fun _ => .ite (fun _ => ih.behindItem (ih.newDict h)) fun _ =>
        .ite (fun _ => ih.behindItem (ih.newArray h)) fun _ =>
        .ite (fun _ => .ok h rfl) fun _ => ih.arrayLoop h
    | kvVal start =>
      exact .ite (fun _ => ih.arrayLoop (htext _)) fun _ =>
        .ite (fun _ => .ok (htext _) rfl) fun _ => ih.arrayLoop h
    | object =>
      exact .ite (fun _ => ih.arrayLoop h) fun _ => .ite (fun _ => .ok h rfl) fun _ => ih.arrayLoop h

theorem OwnedAt.newArray_succ (ih : OwnedAt n) (h : Owns owned heap) :
    Follows (fun r => (r.1.map OwnedObject.erase, r.2)) (fun r h => Owns (objectBlocks r.1 + owned) h)
      (lwmNewArrayParsing (n + 1) p heap) (LwMsg.lwmNewArrayParsing (n + 1) p) := by
  cases p with
  | nil => exact .error
  | cons c p =>
    have hblocks (items : List (Nat × OwnedObject)) :
        itemsBlocks items + (heap.alloc.2.alloc.1 ::ₘ heap.alloc.1 ::ₘ owned) =
          (OwnedObject.array heap.alloc.1 heap.alloc.2.alloc.1 items).blocks + owned := by
      simp [OwnedObject.blocks, Multiset.cons_swap]
    have hnew : Owns (itemsBlocks [] + (heap.alloc.2.alloc.1 ::ₘ heap.alloc.1 ::ₘ owned))
        heap.alloc.2.alloc.2 := h.alloc.alloc.congr (by simp [itemsBlocks])
    rw [lwmNewArrayParsing, LwMsg.lwmNewArrayParsing]
    dsimp only
    cases (if c = '[' then p else c :: p) with
    | nil => exact .error
    | cons d q =>
      refine .ite (fun _ => .ok (hnew.congr (hblocks [])) rfl) fun _ => ?_
      refine (ih.arrayLoop hnew).bind fun r heap' hr => ?_
      obtain ⟨_ | _, items, q⟩ := r
      · exact .ok ((deleteLwmObject_owns _ (hr.congr (hblocks items))).congr (by simp [objectBlocks])) rfl
      · exact .ok (hr.congr (hblocks items)) rfl

theorem ownedAt (n : Nat) : OwnedAt n := by
  induction n with
  | zero => constructor <;> intros <;> exact .error
  | succ n ih =>
    exact ⟨ih.dictLoop_succ, ih.kvoVal_succ, ih.kvo_succ, ih.newDict_succ, ih.arrayLoop_succ,
      ih.newArray_succ⟩

-- ---------------------------------------------------------------------------
-- Messages
-- ---------------------------------------------------------------------------

theorem lwmDictParsing_follows (h : Owns (entriesBlocks dict + owned) heap) :
    Follows (fun r => (eraseEntries r.1, r.2)) (fun r h => Owns (entriesBlocks r.1 + owned) h)
      (lwmDictParsing n dict p heap) (LwMsg.lwmDictParsing n (eraseEntries dict) p) := by
  cases p with
  | nil => exact .error
  | cons c p =>
    refine ((ownedAt n).dictLoop h).bind fun r heap hr => ?_
    obtain ⟨_ | _, dict, q⟩ := r
    · exact .ok (deleteLwmKvo_owns hr) (by simp [eraseEntries_foreachToDel])
    · exact .ok hr rfl

theorem lwmMessageLoop_follows {msg : OwnedMessage} (h : Owns (msg.blocks + owned) heap) :
    Follows (fun r => (r.1, r.2.erase)) (fun r h => Owns (r.2.blocks + owned) h)
      (lwmMessageLoop n mode b msg p heap) (LwMsg.lwmMessageLoop n mode b msg.erase p) := by
  induction n generalizing mode b msg p heap with
  | zero => exact .error
  | succ n ih =>
    cases p with
    | nil => exact .error
    | cons c p =>
      rw [lwmMessageLoop.eq_def, LwMsg.lwmMessageLoop.eq_def]
      refine .ite (fun _ => .ok h rfl) fun _ => .ite (fun _ => ih h) fun _ =>
        .ite (fun _ => .ok h rfl) fun _ => .ite (fun _ => ?_) fun _ => .ok h rfl
      cases mode with
      | header =>
        have hheader : Owns (entriesBlocks msg.header + (entriesBlocks msg.body + (msg.block ::ₘ owned)))
            heap := h.congr (by simp [OwnedMessage.blocks, add_assoc])
        refine (lwmDictParsing_follows hheader).bind fun r heap hr => ?_
        refine ih (hr.congr ?_)
        simp [OwnedMessage.blocks, add_assoc]
      | body =>
        have hbody : Owns (entriesBlocks msg.body + (entriesBlocks msg.header + (msg.block ::ₘ owned)))
            heap := h.congr (by simp [OwnedMessage.blocks, add_left_comm, add_assoc])
        refine (lwmDictParsing_follows hbody).bind fun r heap hr => ?_
        refine ih (hr.congr ?_)
        simp [OwnedMessage.blocks, add_left_comm, add_assoc]
      | openable => exact .ok h rfl

def messageBlocks (msg : Option OwnedMessage) : Multiset Nat := msg.elim 0 OwnedMessage.blocks

theorem parseLwmMessageStr_follows (h : Owns owned heap) :
    Follows (Option.map OwnedMessage.erase) (fun msg h => Owns (messageBlocks msg + owned) h)
      (parseLwmMessageStr buffer heap) (LwMsg.parseLwmMessageStr buffer) := by
  cases buffer with
  | nil => exact .error
  | cons c p =>
    refine .ite (fun _ => .ok (h.congr (by simp [messageBlocks])) rfl) fun _ => ?_
    have hnew : Owns ((OwnedMessage.mk heap.alloc.1 [] []).blocks + owned) heap.alloc.2 :=
      h.alloc.congr (by simp [OwnedMessage.blocks, entriesBlocks])
    refine (lwmMessageLoop_follows hnew).bind fun r heap hr => ?_
    obtain ⟨_ | _, msg⟩ := r
    · exact .ok ((deleteLwmMessage_owns hr).congr (by simp [messageBlocks])) rfl
    · exact .ok hr rfl

end IoTware.LwMsg.Owned
