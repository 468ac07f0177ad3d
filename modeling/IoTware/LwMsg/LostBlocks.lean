import Mathlib.Algebra.BigOperators.Group.List.Basic
import Mathlib.Algebra.GroupWithZero.Nat
import IoTware.Lib.Runs
import IoTware.LwMsg.Accounting

/-!
# What the parser loses

The parser loses one block for each nested dictionary it has read, also where that is
deleted again. Nothing else is lost while no list has more nodes than its counter counts,
as in every message that was read from fewer than 256 characters.
-/

namespace IoTware.LwMsg

mutual
def LWMObject.dictionaries : LWMObject → Nat
  | .number _ => 0
  | .string _ => 0
  | .array items => itemsDictionaries items
  | .dictionary dict => entriesDictionaries dict + 1
def itemsDictionaries : List LWMObject → Nat
  | [] => 0
  | obj :: items => obj.dictionaries + itemsDictionaries items
def entriesDictionaries : LWMDictionary → Nat
  | [] => 0
  | (_, value) :: dict => value.dictionaries + entriesDictionaries dict
end

mutual
def LWMObject.miscounted : LWMObject → Nat
  | .number _ => 0
  | .string _ => 0
  | .array items => itemsMiscounted items + if items.length < 256 then 0 else 1
  | .dictionary dict => entriesMiscounted dict + if dict.length < 256 then 0 else 1
def itemsMiscounted : List LWMObject → Nat
  | [] => 0
  | obj :: items => obj.miscounted + itemsMiscounted items
def entriesMiscounted : LWMDictionary → Nat
  | [] => 0
  | (_, value) :: dict => value.miscounted + entriesMiscounted dict
end

def LWMessage.dictionaries (msg : LWMessage) : Nat :=
  entriesDictionaries msg.header + entriesDictionaries msg.body

/-- The braces around the header and the body, as far as the message shows them. -/
def LWMessage.braces (msg : LWMessage) : List Char := if msg.body = [] then ['{'] else ['{', '{']

open CText Loops Runs Blocks

-- ---------------------------------------------------------------------------
-- Texts
-- ---------------------------------------------------------------------------

theorem lwmKvoText_suffix (h : lwmKvoText start p = .ok (text, q)) : q <:+ p := by
  induction p with
  | nil => simp [lwmKvoText] at h
  | cons c p ih =>
    rw [lwmKvoText] at h
    split at h
    · cases h
      exact List.suffix_refl _
    split at h
    · exact (ih h).trans (List.suffix_cons c p)
    split at h
    · cases h
      exact List.suffix_refl _
    split at h
    · cases h
      exact List.suffix_refl _
    · exact (ih h).trans (List.suffix_cons c p)

theorem lwmKvoKey_suffix (h : lwmKvoKey start p = .ok e) :
    match e with
    | .ended q | .failed q => q <:+ p
    | .key _ q => '=' :: q <:+ p := by
  induction p generalizing start with
  | nil => simp [lwmKvoKey] at h
  | cons c p ih =>
    have hread (start : Option (List Char)) (h : lwmKvoKey start p = .ok e) := ih h
    unfold lwmKvoKey at h
    split at h
    · cases h
      exact List.suffix_refl _
    split at h
    · have := hread _ h
      cases e <;> exact this.trans (List.suffix_cons c p)
    split at h
    · cases h
      exact List.suffix_refl _
    split at h
    · rename_i heq
      subst heq
      split at h <;> cases h <;> exact List.suffix_refl _
    · have := hread _ h
      cases e <;> exact this.trans (List.suffix_cons c p)

theorem lwmKvoKey_ended (hnul : c ≠ nul) (hspace : ¬isSpace c)
    (h : lwmKvoKey none (c :: p) = .ok (.ended q)) : q <:+ p := by
  rw [lwmKvoKey, if_neg hnul, if_neg hspace] at h
  split at h
  · cases h
  split at h
  · cases h
  · exact lwmKvoKey_suffix h

namespace Owned

-- ---------------------------------------------------------------------------
-- Deleting
-- ---------------------------------------------------------------------------

@[simp] theorem freeBlock_lost (b : Option Nat) (h : Heap) : (freeBlock b h).lost = h.lost := by
  cases b <;> rfl

@[simp] theorem freeText_lost (t : OwnedText) (h : Heap) : (freeText t h).lost = h.lost :=
  freeBlock_lost _ h

@[simp] theorem length_eraseItems (items : List (Nat × OwnedObject)) :
    (eraseItems items).length = items.length := by
  simp [eraseItems_eq]

@[simp] theorem length_eraseEntries (entries : OwnedDictionary) :
    (eraseEntries entries).length = entries.length := by
  simp [eraseEntries_eq]

mutual
theorem deleteLwmObject_lost : (obj : OwnedObject) → obj.erase.miscounted = 0 → (h : Heap) →
    (deleteLwmObject obj h).lost = h.lost
  | .number .., _, _ => by simp [deleteLwmObject]
  | .string .., _, _ => by simp [deleteLwmObject]
  | .array _ _ items, hm, h => by
    simp only [OwnedObject.erase, LWMObject.miscounted, length_eraseItems, Nat.add_eq_zero_iff,
      ite_eq_left_iff, Nat.one_ne_zero, imp_false, not_not] at hm
    simp [deleteLwmObject, foreachToDel_of_lt hm.2, itemsBlocks, deleteItems_lost _ items hm.1 h]
  | .dictionary _ _ entries, hm, h => by
    simp only [OwnedObject.erase, LWMObject.miscounted, length_eraseEntries, Nat.add_eq_zero_iff,
      ite_eq_left_iff, Nat.one_ne_zero, imp_false, not_not] at hm
    simp [deleteLwmObject, foreachToDel_of_lt hm.2, entriesBlocks, deleteEntries_lost _ entries hm.1 h]
theorem deleteItems_lost : (n : Nat) → (items : List (Nat × OwnedObject)) →
    itemsMiscounted (eraseItems items) = 0 → (h : Heap) → (deleteItems n items h).lost = h.lost
  | 0, _, _, _ => by simp [deleteItems]
  | _ + 1, [], _, _ => by simp [deleteItems]
  | n + 1, (node, obj) :: items, hm, h => by
    simp only [eraseItems, itemsMiscounted, Nat.add_eq_zero_iff] at hm
    simp [deleteItems, deleteItems_lost n items hm.2, deleteLwmObject_lost obj hm.1]
theorem deleteEntries_lost : (n : Nat) → (entries : OwnedDictionary) →
    entriesMiscounted (eraseEntries entries) = 0 → (h : Heap) →
    (deleteEntries n entries h).lost = h.lost
  | 0, _, _, _ => by simp [deleteEntries]
  | _ + 1, [], _, _ => by simp [deleteEntries]
  | n + 1, (key, value) :: entries, hm, h => by
    simp only [eraseEntries, entriesMiscounted, Nat.add_eq_zero_iff] at hm
    simp [deleteEntries, deleteEntries_lost n entries hm.2, deleteLwmObject_lost value hm.1]
end

mutual
theorem card_lost_deleteLwmObject : (obj : OwnedObject) → (h : Heap) →
    h.lost.card ≤ (deleteLwmObject obj h).lost.card
  | .number .., _ => by simp [deleteLwmObject]
  | .string .., _ => by simp [deleteLwmObject]
  | .array _ _ items, h => by
    have := card_lost_deleteItems (nodeNum items) items h
    simp [deleteLwmObject]
    omega
  | .dictionary _ _ entries, h => by
    have := card_lost_deleteEntries (nodeNum entries) entries h
    simp [deleteLwmObject]
    omega
theorem card_lost_deleteItems : (n : Nat) → (items : List (Nat × OwnedObject)) → (h : Heap) →
    h.lost.card ≤ (deleteItems n items h).lost.card
  | 0, _, _ => by simp [deleteItems]
  | _ + 1, [], _ => by simp [deleteItems]
  | n + 1, (node, obj) :: items, h => by
    have hobj := card_lost_deleteLwmObject obj h
    exact hobj.trans (card_lost_deleteItems n items ((deleteLwmObject obj h).free node))
theorem card_lost_deleteEntries : (n : Nat) → (entries : OwnedDictionary) → (h : Heap) →
    h.lost.card ≤ (deleteEntries n entries h).lost.card
  | 0, _, _ => by simp [deleteEntries]
  | _ + 1, [], _ => by simp [deleteEntries]
  | n + 1, (key, value) :: entries, h => by
    have hvalue := card_lost_deleteLwmObject value h
    have hrest := card_lost_deleteEntries n entries
      (((freeText key.key (deleteLwmObject value h)).free key.kvo).free key.node)
    simp only [Heap.free_lost, freeText_lost] at hrest
    exact hvalue.trans hrest
end

-- ---------------------------------------------------------------------------
-- What is read and lost on the way
-- ---------------------------------------------------------------------------

/-- What there is of a list: its nodes, the dictionaries in them and the lists in them
that are miscounted. -/
structure Content where
  nodes : Nat
  dictionaries : Nat
  miscounted : Nat

def Content.nothing : Content := ⟨0, 0, 0⟩

def Content.and (c d : Content) : Content :=
  ⟨c.nodes + d.nodes, c.dictionaries + d.dictionaries, c.miscounted + d.miscounted⟩

@[simp] theorem Content.nothing_and (c : Content) : nothing.and c = c := by
  simp [nothing, Content.and]

def itemsContent (items : List (Nat × OwnedObject)) : Content :=
  ⟨items.length, itemsDictionaries (eraseItems items), itemsMiscounted (eraseItems items)⟩

def entriesContent (dict : OwnedDictionary) : Content :=
  ⟨dict.length, entriesDictionaries (eraseEntries dict), entriesMiscounted (eraseEntries dict)⟩

def objectContent : Option OwnedObject → Content
  | none => .nothing
  | some obj => ⟨0, obj.erase.dictionaries, obj.erase.miscounted⟩

def kvoContent : Option OwnedKvo → Content
  | none => .nothing
  | some kv => ⟨1, kv.value.erase.dictionaries, kv.value.erase.miscounted⟩

/-- From `p` to `q` the content has become another one: each new dictionary has cost a
block, each node a character and, where all lists can be counted, each block a `{`. -/
structure Spent (c : Content) (p : List Char) (h : Heap) (c' : Content) (q : List Char) (h' : Heap) :
    Prop where
  least : c'.dictionaries + h.lost.card ≤ c.dictionaries + h'.lost.card
  most : c.nodes + p.length ≤ 256 → c.miscounted = 0 →
    c'.miscounted = 0 ∧ q.length ≤ p.length ∧ c'.nodes + q.length ≤ c.nodes + p.length ∧
      h'.lost.card + q.count '{' ≤ h.lost.card + p.count '{'

section
variable {c c' c'' d : Content} {p q r : List Char} {h h' h'' : Heap}

theorem Spent.of_lost (hlost : h'.lost = h.lost) : Spent c p h c p h' := by
  constructor
  · simp [hlost]
  · simp +contextual [hlost]

theorem Spent.congr (hs : Spent c p h c' q h') (hc : c' = c'') : Spent c p h c'' q h' := hc ▸ hs

theorem Spent.trans (h₁ : Spent c p h c' q h') (h₂ : Spent c' q h' c'' r h'') :
    Spent c p h c'' r h'' := by
  obtain ⟨hleast₁, hmost₁⟩ := h₁
  obtain ⟨hleast₂, hmost₂⟩ := h₂
  refine ⟨by omega, fun hshort hcounted => ?_⟩
  obtain ⟨hcounted', hlen₁, hnodes₁, hcount₁⟩ := hmost₁ hshort hcounted
  obtain ⟨hcounted'', hlen₂, hnodes₂, hcount₂⟩ := hmost₂ (by omega) hcounted'
  exact ⟨hcounted'', by omega, by omega, by omega⟩

theorem Spent.frame (hs : Spent c p h c' q h') : Spent (c.and d) p h (c'.and d) q h' := by
  obtain ⟨hleast, hmost⟩ := hs
  constructor <;> dsimp only [Content.and]
  · omega
  · intro hshort hcounted
    obtain ⟨hcounted', hlen, hnodes, hcount⟩ := hmost (by omega) (by omega)
    exact ⟨by omega, hlen, by omega, hcount⟩

theorem Spent.of_nothing (hs : Spent .nothing p h c' q h') : Spent d p h (c'.and d) q h' := by
  simpa using hs.frame (d := d)

theorem Spent.skip (x : Char) : Spent c (x :: p) h c p h := by
  refine ⟨Nat.le_refl _, fun _ hcounted => ⟨hcounted, by simp, by simp, ?_⟩⟩
  have := p.count_le_count_cons (a := '{') (b := x)
  omega

theorem Spent.tail (hs : Spent c p h c' q h') : Spent c p h c' q.tail h' := by
  cases q with
  | nil => exact hs
  | cons x q => exact hs.trans (.skip x)

theorem Spent.heap (hs : Spent c p h c' q h') (hlost : h''.lost = h'.lost) : Spent c p h c' q h'' :=
  hs.trans (.of_lost hlost)

theorem deleteLwmKvoByKey_spent (key : Option Text) (q : List Char) :
    Ensures (fun dict' h' => Spent (entriesContent dict) q h (entriesContent dict') q h')
      (deleteLwmKvoByKey dict key h) := by
  cases key with
  | none => cases dict <;> exact .ok (.of_lost rfl)
  | some k =>
    induction dict generalizing h with
    | nil => exact .ok (.of_lost rfl)
    | cons e dict ih =>
      obtain ⟨key, value⟩ := e
      simp only [deleteLwmKvoByKey]
      cases hkey : key.key.erase with
      | none => exact .error
      | some k' =>
        refine .ite (fun _ => .ok ?_) fun _ => ?_
        · have hleast := card_lost_deleteLwmObject value h
          constructor
          · simp [entriesContent, eraseEntries, entriesDictionaries]
            omega
          · intro _ hm
            simp only [entriesContent, eraseEntries, entriesMiscounted, Nat.add_eq_zero_iff] at hm
            simp [entriesContent, hm.2, deleteLwmObject_lost value hm.1]
        · refine ih.bind fun dict' h' hs => .ok ?_
          simpa [Content.and, entriesContent, eraseEntries, entriesDictionaries, entriesMiscounted,
            add_comm] using
            hs.frame (d := ⟨1, value.erase.dictionaries, value.erase.miscounted⟩)

-- ---------------------------------------------------------------------------
-- The routines
-- ---------------------------------------------------------------------------

theorem Spent.of_sublist (hq : q.Sublist p) (hlost : h'.lost = h.lost) : Spent c p h c q h' := by
  have hlen := hq.length_le
  have hcount := hq.count_le '{'
  constructor
  · simp [hlost]
  · intro _ hm
    exact ⟨hm, hlen, by omega, by simpa [hlost] using hcount⟩

theorem Spent.node (x : Char) (hq : x :: q <:+ p) (hlost : h'.lost = h.lost) :
    Spent .nothing p h ⟨1, 0, 0⟩ q h' := by
  have hlen := hq.length_le
  have hcount := (List.sublist_of_cons_sublist hq.sublist).count_le '{'
  simp only [List.length_cons] at hlen
  constructor
  · simp [hlost, Content.nothing]
  · intro _ _
    simp only [Content.nothing]
    exact ⟨trivial, by omega, by omega, by simpa [hlost] using hcount⟩

theorem Spent.behind (x : Char) (hs : Spent .nothing p h c q h') (hshort : (x :: p).length ≤ 256) :
    c.miscounted = 0 ∧ c.nodes < 256 ∧ q.length ≤ p.length ∧
      h'.lost.card + q.count '{' ≤ h.lost.card + p.count '{' := by
  simp only [List.length_cons] at hshort
  obtain ⟨hm, hlen, hnodes, hcount⟩ := hs.most (by simp only [Content.nothing]; omega) rfl
  simp only [Content.nothing] at hnodes
  exact ⟨hm, by omega, hlen, hcount⟩

theorem Spent.and_left (hlost : h'.lost = h.lost) : Spent (d.and c) p h c p h' := by
  constructor
  · simp [hlost, Content.and]
  · intro _ hm
    simp only [Content.and, Nat.add_eq_zero_iff] at hm ⊢
    exact ⟨hm.2, by simp, by omega, by simp [hlost]⟩

end

/-- In `ePM_KV_Val` mode the text that has started is a node to be. -/
def started : ArrayMode → Content
  | .kvVal _ => ⟨1, 0, 0⟩
  | _ => .nothing

theorem Content.and_comm (c d : Content) : c.and d = d.and c := by
  simp [Content.and, Nat.add_comm]

/-- A routine with what it spends. -/
structure SpentAt (n : Nat) : Prop where
  dictLoop : Ensures (fun r h' => Spent (entriesContent dict) p h (entriesContent r.2.1) r.2.2 h')
    (lwmDictLoop n dict p h)
  kvoVal : Ensures (fun r h' => Spent .nothing p h (objectContent r.1) r.2 h') (lwmKvoVal n p h)
  kvo : x ≠ nul → ¬isSpace x →
    Ensures (fun r h' => Spent .nothing (x :: p) h (kvoContent r.1) r.2 h')
      (lwmKvoParsing n (x :: p) h)
  newDict : Ensures (fun r h' => Spent .nothing ('{' :: p) h (objectContent r.1) r.2 h')
    (lwmNewDictParsing n ('{' :: p) h)
  arrayLoop : Ensures
    (fun r h' => Spent ((started mode).and (itemsContent items)) p h (itemsContent r.2.1) r.2.2 h')
    (lwmArrayLoop n mode items p h)
  newArray : Ensures (fun r h' => Spent .nothing ('[' :: p) h (objectContent r.1) r.2 h')
    (lwmNewArrayParsing n ('[' :: p) h)

theorem SpentAt.dictLoop_succ (ih : SpentAt n) :
    Ensures (fun r h' => Spent (entriesContent dict) p h (entriesContent r.2.1) r.2.2 h')
      (lwmDictLoop (n + 1) dict p h) := by
  cases p with
  | nil => exact .error
  | cons x p =>
    have hskip : Ensures
        (fun r h' => Spent (entriesContent dict) (x :: p) h (entriesContent r.2.1) r.2.2 h')
        (lwmDictLoop n dict p h) := ih.dictLoop.mono fun _ _ hs => (Spent.skip x).trans hs
    rw [lwmDictLoop]
    refine .ite (fun _ => .ok (.of_lost rfl)) fun hnul => .ite (fun _ => hskip) fun hspace =>
      .ite (fun _ => .ok (.of_lost rfl)) fun _ => .ite (fun _ => hskip) fun _ => ?_
    refine (ih.kvo hnul hspace).bind fun r h₁ hs => ?_
    obtain ⟨kv, q⟩ := r
    have hs := hs.of_nothing (d := entriesContent dict)
    cases kv with
    | none => exact .ok (by simpa [kvoContent] using hs)
    | some kv =>
      refine (deleteLwmKvoByKey_spent _ q).bind fun rest h₂ hdel => ?_
      have hnode : Spent (entriesContent dict) (x :: p) h
          (entriesContent ((⟨h₂.alloc.1, kv.kvo, kv.key⟩, kv.value) :: rest)) q h₂.alloc.2 := by
        have hframe := hdel.frame (d := kvoContent (some kv))
        rw [Content.and_comm] at hframe
        refine ((hs.trans hframe).heap h₂.alloc_lost).congr ?_
        simp [Content.and, entriesContent, kvoContent, eraseEntries, entriesDictionaries,
          entriesMiscounted, Nat.add_comm]
      cases q with
      | nil => exact .error
      | cons d q =>
        exact .ite (fun _ => .ok hnode) fun _ =>
          ih.dictLoop.mono fun _ _ hrest => (hnode.trans (.skip d)).trans hrest

theorem SpentAt.kvoVal_succ (ih : SpentAt n) :
    Ensures (fun r h' => Spent .nothing p h (objectContent r.1) r.2 h') (lwmKvoVal (n + 1) p h) := by
  cases p with
  | nil => exact .error
  | cons x p =>
    rw [lwmKvoVal]
    refine .ite (fun _ => .ok ?_) fun _ => .ite
      (fun _ => ih.kvoVal.mono fun _ _ hs => (Spent.skip x).trans hs) fun _ =>
      .ite (fun hopen => hopen ▸ ih.newDict) fun _ => .ite (fun hopen => hopen ▸ ih.newArray) fun _ =>
      .ite (fun _ => .ok (.of_lost rfl)) fun _ => ?_
    · exact .of_lost rfl
    · refine .lift fun r htext => ?_
      obtain ⟨text, q⟩ := r
      have hq := (lwmKvoText_suffix htext).trans (List.suffix_cons x p)
      obtain _ | _ | text := text
      · exact .ok (.of_sublist hq.sublist rfl)
      · exact .ok (.of_sublist hq.sublist rfl)
      · exact .ok (.of_sublist hq.sublist rfl)

theorem SpentAt.kvo_succ (ih : SpentAt n) (hnul : x ≠ nul) (hspace : ¬isSpace x) :
    Ensures (fun r h' => Spent .nothing (x :: p) h (kvoContent r.1) r.2 h')
      (lwmKvoParsing (n + 1) (x :: p) h) := by
  rw [lwmKvoParsing]
  refine .lift fun e hkey => ?_
  cases e with
  | ended q =>
    have hq := lwmKvoKey_ended hnul hspace hkey
    exact .ok ((Spent.node x (List.suffix_refl _) rfl).trans (.of_sublist hq.sublist rfl))
  | failed q => exact .ok (.of_sublist (lwmKvoKey_suffix hkey).sublist rfl)
  | key text q =>
    have hq := lwmKvoKey_suffix hkey
    refine ih.kvoVal.bind fun r h' hs => ?_
    obtain ⟨value, q'⟩ := r
    cases value with
    | none =>
      have hread := Spent.of_sublist (c := .nothing) (List.sublist_of_cons_sublist hq.sublist) h.alloc_lost
      exact .ok ((hread.trans hs).heap rfl)
    | some value =>
      have hread := Spent.node '=' hq h.alloc_lost
      refine .ok (((hread.trans hs.of_nothing).heap h'.alloc_lost).congr ?_)
      simp [Content.and, objectContent, kvoContent]

theorem deleteLwmDictionary_spent (x : Char) (list : Nat)
    (hs : Spent .nothing p h (entriesContent dict) q h') :
    Spent .nothing (x :: p) h .nothing q (deleteLwmDictionary list dict h') := by
  have hcard := card_lost_deleteEntries (nodeNum dict) dict h'
  have hbrace := p.count_le_count_cons (a := '{') (b := x)
  constructor
  · have hleast := hs.least
    simp [Content.nothing, entriesContent, deleteLwmDictionary, deleteLwmKvo] at hleast ⊢
    omega
  · intro hshort _
    obtain ⟨hm, hlt, hlen, hcount⟩ := hs.behind x (by simpa [Content.nothing] using hshort)
    have hlost := deleteEntries_lost (nodeNum dict) dict hm h'
    simp [Content.nothing, deleteLwmDictionary, deleteLwmKvo, foreachToDel_of_lt hlt, entriesBlocks,
      hlost]
    exact ⟨by omega, by omega⟩

theorem newDict_spent (list obj own : Nat) (hs : Spent .nothing p h (entriesContent dict) q h') :
    Spent .nothing ('{' :: p) h (objectContent (some (.dictionary obj list dict))) q
      (h'.alloc.2.alloc.2.lose {own}) := by
  constructor
  · have hleast := hs.least
    simp [Content.nothing, entriesContent, objectContent, OwnedObject.erase,
      LWMObject.dictionaries] at hleast ⊢
    omega
  · intro hshort _
    obtain ⟨hm, hlt, hlen, hcount⟩ := hs.behind '{' (by simpa [Content.nothing] using hshort)
    simp only [entriesContent] at hm hlt
    simp [Content.nothing, objectContent, OwnedObject.erase, LWMObject.miscounted, hm, hlt]
    exact ⟨by omega, by omega⟩

theorem SpentAt.newDict_succ (ih : SpentAt n) :
    Ensures (fun r h' => Spent .nothing ('{' :: p) h (objectContent r.1) r.2 h')
      (lwmNewDictParsing (n + 1) ('{' :: p) h) := by
  have hloop : Ensures
      (fun r h' => Spent .nothing p h (entriesContent r.2.1) r.2.2 h')
      (lwmDictLoop n [] p h.alloc.2) :=
    ih.dictLoop.mono fun _ _ hs => (Spent.of_lost h.alloc_lost).trans hs
  rw [lwmNewDictParsing]
  refine hloop.bind fun r h' hs => ?_
  obtain ⟨_ | _, dict, q⟩ := r
  · exact .ok (deleteLwmDictionary_spent '{' _ hs)
  · exact .ok (newDict_spent _ _ _ hs)

theorem addLwmObjectToArray_spent (hs : Spent .nothing p h (objectContent obj) (x :: q) h') :
    Spent (itemsContent items) p h (itemsContent (addLwmObjectToArray items obj h').1) q
      (addLwmObjectToArray items obj h').2 := by
  cases obj with
  | none => exact (hs.of_nothing.trans (.skip x)).congr (by simp [objectContent, addLwmObjectToArray])
  | some obj =>
    have hnode := (Spent.node x (List.suffix_refl (x :: q)) h'.alloc_lost).of_nothing
      (d := (objectContent (some obj)).and (itemsContent items))
    refine (hs.of_nothing.trans hnode).congr ?_
    simp [addLwmObjectToArray, itemsContent, objectContent, Content.and, eraseItems,
      itemsDictionaries, itemsMiscounted, Nat.add_comm]

theorem addTextObject_spent :
    Spent (Content.and ⟨1, 0, 0⟩ (itemsContent items)) p h
      (itemsContent (addLwmObjectToArray items (some (newTextObject text h).1) (newTextObject text h).2).1)
      p (addLwmObjectToArray items (some (newTextObject text h).1) (newTextObject text h).2).2 := by
  have hlost : (addLwmObjectToArray items (some (newTextObject text h).1)
      (newTextObject text h).2).2.lost = h.lost := rfl
  refine (Spent.of_lost hlost).congr ?_
  simp [addLwmObjectToArray, itemsContent, Content.and, newTextObject, newLwmStringObject,
    eraseItems, itemsDictionaries, itemsMiscounted, OwnedObject.erase, LWMObject.dictionaries,
    LWMObject.miscounted, Nat.add_comm]

theorem SpentAt.arrayItems (ih : SpentAt n) (hmode : started mode = .nothing) :
    Ensures (fun r h' => Spent (itemsContent items) p h (itemsContent r.2.1) r.2.2 h')
      (lwmArrayLoop n mode items p h) := by
  have hloop : Ensures
      (fun r h' => Spent ((started mode).and (itemsContent items)) p h (itemsContent r.2.1) r.2.2 h')
      (lwmArrayLoop n mode items p h) := ih.arrayLoop
  rw [hmode, Content.nothing_and] at hloop
  exact hloop

theorem SpentAt.behindItem (ih : SpentAt n)
    {res : Except Fault ((Option OwnedObject × List Char) × Heap)}
    (hres : Ensures (fun r h' => Spent .nothing p h (objectContent r.1) r.2 h') res) :
    Ensures (fun r h' => Spent (itemsContent items) p h (itemsContent r.2.1) r.2.2 h')
      (do
        let ((obj, q), h) ← res
        let (arr, h) := addLwmObjectToArray items obj h
        lwmArrayLoop n .object arr q.tail h) := by
  refine hres.bind fun r h' hs => ?_
  obtain ⟨obj, _ | ⟨x, q⟩⟩ := r
  · cases n <;> exact .error
  · exact (ih.arrayItems rfl).mono fun _ _ hrest => (addLwmObjectToArray_spent hs).trans hrest

theorem SpentAt.arrayLoop_succ (ih : SpentAt n) :
    Ensures
      (fun r h' => Spent ((started mode).and (itemsContent items)) p h (itemsContent r.2.1) r.2.2 h')
      (lwmArrayLoop (n + 1) mode items p h) := by
  cases p with
  | nil => exact .error
  | cons x p =>
    have hskip : Ensures (fun r h' => Spent ((started mode).and (itemsContent items)) (x :: p) h
        (itemsContent r.2.1) r.2.2 h') (lwmArrayLoop n mode items p h) :=
      ih.arrayLoop.mono fun _ _ hs => (Spent.skip x).trans hs
    rw [lwmArrayLoop.eq_def]
    refine .ite (fun _ => .ok (.and_left rfl)) fun _ => .ite (fun _ => hskip) fun _ => ?_
    cases mode with
    | openable =>
      simp only [started, Content.nothing_and]
      refine .ite (fun _ => .ok (.of_lost rfl)) fun _ => .ite (fun hopen => ?_) fun _ =>
        .ite (fun hopen => ?_) fun _ => .ite (fun _ => .ok (.of_lost rfl)) fun _ => ?_
      · exact ih.behindItem (hopen ▸ ih.newDict)
      · exact ih.behindItem (hopen ▸ ih.newArray)
      · exact ih.arrayLoop.mono fun _ _ hs =>
          (Spent.node x (List.suffix_refl _) rfl).of_nothing.trans hs
    | kvVal start =>
      refine .ite (fun _ => ?_) fun _ => .ite (fun _ => .ok addTextObject_spent) fun _ => hskip
      exact (ih.arrayItems rfl).mono fun _ _ hs => (addTextObject_spent.trans (.skip x)).trans hs
    | object =>
      refine .ite (fun _ => ?_) fun _ => .ite (fun _ => .ok (.and_left rfl)) fun _ => hskip
      exact ih.arrayLoop.mono fun _ _ hs => (Spent.skip x).trans hs

theorem deleteLwmArray_spent (x : Char) (obj list : Nat)
    (hs : Spent .nothing p h (itemsContent items) q h') :
    Spent .nothing (x :: p) h .nothing q (deleteLwmObject (.array obj list items) h') := by
  have hcard := card_lost_deleteLwmObject (.array obj list items) h'
  have hbrace := p.count_le_count_cons (a := '{') (b := x)
  constructor
  · have hleast := hs.least
    simp only [Content.nothing, itemsContent] at hleast ⊢
    omega
  · intro hshort _
    obtain ⟨hm, hlt, hlen, hcount⟩ := hs.behind x (by simpa [Content.nothing] using hshort)
    simp only [itemsContent] at hm hlt
    have hlost := deleteLwmObject_lost (.array obj list items)
      (by simp [OwnedObject.erase, LWMObject.miscounted, hm, hlt]) h'
    simp [Content.nothing, hlost]
    exact ⟨by omega, by omega⟩

theorem newArray_spent (x : Char) (obj list : Nat)
    (hs : Spent .nothing p h (itemsContent items) q h') :
    Spent .nothing (x :: p) h (objectContent (some (.array obj list items))) q h' := by
  have hbrace := p.count_le_count_cons (a := '{') (b := x)
  constructor
  · simpa [itemsContent, objectContent, OwnedObject.erase, LWMObject.dictionaries] using hs.least
  · intro hshort _
    obtain ⟨hm, hlt, hlen, hcount⟩ := hs.behind x (by simpa [Content.nothing] using hshort)
    simp only [itemsContent] at hm hlt
    simp [Content.nothing, objectContent, OwnedObject.erase, LWMObject.miscounted, hm, hlt]
    exact ⟨by omega, by omega⟩

theorem SpentAt.newArray_succ (ih : SpentAt n) :
    Ensures (fun r h' => Spent .nothing ('[' :: p) h (objectContent r.1) r.2 h')
      (lwmNewArrayParsing (n + 1) ('[' :: p) h) := by
  cases p with
  | nil => exact .error
  | cons d p =>
    have hnew : Spent .nothing (d :: p) h (itemsContent []) (d :: p) h.alloc.2.alloc.2 := .of_lost rfl
    rw [lwmNewArrayParsing]
    refine .ite (fun _ => .ok (newArray_spent '[' _ _ hnew)) fun _ => ?_
    refine (ih.arrayItems rfl).bind fun r h' hs => ?_
    obtain ⟨_ | _, items, q⟩ := r
    · exact .ok (deleteLwmArray_spent '[' _ _ (hnew.trans hs))
    · exact .ok (newArray_spent '[' _ _ (hnew.trans hs))

theorem spentAt (n : Nat) : SpentAt n := by
  induction n with
  | zero => constructor <;> intros <;> exact .error
  | succ n ih =>
    exact ⟨ih.dictLoop_succ, ih.kvoVal_succ, ih.kvo_succ, ih.newDict_succ, ih.arrayLoop_succ,
      ih.newArray_succ⟩

-- ---------------------------------------------------------------------------
-- Messages
-- ---------------------------------------------------------------------------

theorem Spent.cons (x : Char) (hs : Spent c p h c' q h') : Spent c (x :: p) h c' (x :: q) h' := by
  constructor
  · exact hs.least
  · intro hshort hcounted
    simp only [List.length_cons, List.count_cons] at hshort ⊢
    obtain ⟨hm, hlen, hnodes, hcount⟩ := hs.most (by omega) hcounted
    exact ⟨hm, by omega, by omega, by omega⟩

theorem entriesDictionaries_drop (n : Nat) (dict : LWMDictionary) :
    entriesDictionaries (dict.drop n) ≤ entriesDictionaries dict := by
  induction n generalizing dict with
  | zero => simp
  | succ n ih =>
    cases dict with
    | nil => simp
    | cons e dict => exact (ih dict).trans (by simp [entriesDictionaries])

theorem deleteLwmKvo_spent (x : Char) (hs : Spent c p h (entriesContent dict) q h') :
    Spent c (x :: p) h (entriesContent (deleteLwmKvo dict h').1) (x :: q) (deleteLwmKvo dict h').2 := by
  have hcard := card_lost_deleteEntries (nodeNum dict) dict h'
  have hrest := entriesDictionaries_drop (nodeNum dict) (eraseEntries dict)
  constructor
  · have hleast := hs.least
    simp only [entriesContent, deleteLwmKvo, eraseEntries_foreachToDel] at hleast ⊢
    simp only [foreachToDel, nodeNum, length_eraseEntries] at hrest hcard ⊢
    omega
  · intro hshort hcounted
    obtain ⟨hm, hlen, hnodes, hcount⟩ := (hs.cons x).most hshort hcounted
    simp only [entriesContent, List.length_cons] at hm hnodes hshort
    have hlt : dict.length < 256 := by omega
    have hlost := deleteEntries_lost (nodeNum dict) dict hm h'
    simp only [deleteLwmKvo, foreachToDel_of_lt hlt, hlost]
    exact ⟨rfl, hlen, by simp [entriesContent] at hlen ⊢; omega, hcount⟩

theorem lwmDictParsing_spent :
    Ensures (fun r h' => Spent (entriesContent dict) ('{' :: p) h (entriesContent r.1) ('{' :: r.2) h')
      (lwmDictParsing n dict ('{' :: p) h) := by
  rw [lwmDictParsing]
  refine (spentAt n).dictLoop.bind fun r h' hs => ?_
  obtain ⟨_ | _, dict', q⟩ := r
  · exact .ok (deleteLwmKvo_spent '{' hs)
  · exact .ok (hs.cons '{')

theorem lwmMessageLoop_openable :
    Ensures (fun r h' => r.2 = msg ∧ h' = h) (lwmMessageLoop n .openable bFlag msg p h) := by
  induction n generalizing p with
  | zero => exact .error
  | succ n ih =>
    cases p with
    | nil => exact .error
    | cons x p =>
      rw [lwmMessageLoop.eq_def]
      exact .ite (fun _ => .ok ⟨rfl, rfl⟩) fun _ => .ite (fun _ => ih) fun _ =>
        .ite (fun _ => .ok ⟨rfl, rfl⟩) fun _ => .ite (fun _ => .ok ⟨rfl, rfl⟩) fun _ => .ok ⟨rfl, rfl⟩

def OwnedMessage.content (msg : OwnedMessage) : Content :=
  (entriesContent msg.header).and (entriesContent msg.body)

theorem lwmMessageLoop_body (hbody : msg.body = []) :
    Ensures (fun r h' => Spent msg.content ('{' :: p) h r.2.content (LWMessage.braces r.2.erase) h')
      (lwmMessageLoop n .body bFlag msg p h) := by
  induction n generalizing p with
  | zero => exact .error
  | succ n ih =>
    cases p with
    | nil => exact .error
    | cons x p =>
      have hend : Spent msg.content ('{' :: x :: p) h msg.content (LWMessage.braces msg.erase) h :=
        .of_sublist (by simp [LWMessage.braces, OwnedMessage.erase, hbody, eraseEntries]) rfl
      rw [lwmMessageLoop.eq_def]
      refine .ite (fun _ => .ok hend) fun _ => .ite (fun _ => ?_) fun _ =>
        .ite (fun _ => .ok hend) fun _ => .ite (fun hopen => ?_) fun _ => .ok hend
      · exact ih.mono fun _ _ hs => ((Spent.skip x).cons '{').trans hs
      · subst hopen
        refine lwmDictParsing_spent.bind fun r h' hs => ?_
        refine lwmMessageLoop_openable.mono ?_
        rintro ⟨b, msg'⟩ h'' ⟨rfl, rfl⟩
        have hframe := (hs.frame (d := entriesContent msg.header)).cons '{'
        rw [Content.and_comm, Content.and_comm (entriesContent r.1)] at hframe
        refine hframe.trans (.of_sublist ?_ rfl)
        unfold LWMessage.braces
        split <;> simp

theorem lwmMessageLoop_header (hbody : msg.body = []) :
    Ensures (fun r h' => (r = (false, msg) ∧ h' = h) ∨
        Spent msg.content p h r.2.content (LWMessage.braces r.2.erase) h')
      (lwmMessageLoop n .header false msg p h) := by
  induction n generalizing p with
  | zero => exact .error
  | succ n ih =>
    cases p with
    | nil => exact .error
    | cons x p =>
      have hend : ((false, msg) = (false, msg) ∧ h = h) ∨
          Spent msg.content (x :: p) h msg.content (LWMessage.braces msg.erase) h := .inl ⟨rfl, rfl⟩
      rw [lwmMessageLoop.eq_def]
      refine .ite (fun _ => .ok hend) fun _ => .ite (fun _ => ?_) fun _ =>
        .ite (fun _ => .ok hend) fun _ => .ite (fun hopen => ?_) fun _ => .ok hend
      · exact ih.mono fun _ _ hs => hs.imp_right (Spent.skip x).trans
      · subst hopen
        refine lwmDictParsing_spent.bind fun r h' hs => ?_
        have hread : Spent msg.content ('{' :: p) h
            ((entriesContent r.1).and (entriesContent msg.body)) ('{' :: r.2.tail) h' :=
          hs.frame.trans (.of_sublist ((List.tail_sublist r.2).cons_cons '{') rfl)
        have hmsg : (OwnedMessage.mk msg.block r.1 msg.body).body = [] := hbody
        exact (lwmMessageLoop_body hmsg).mono fun _ _ hrest => Or.inr (hread.trans hrest)

-- ---------------------------------------------------------------------------
-- Runs
-- ---------------------------------------------------------------------------

theorem deleteLwmMessage_lost {msg : OwnedMessage} (hlt : msg.content.nodes < 256)
    (hm : msg.content.miscounted = 0) (h : Heap) : (deleteLwmMessage msg h).lost = h.lost := by
  simp only [OwnedMessage.content, Content.and, entriesContent, Nat.add_eq_zero_iff] at hlt hm
  have hheader : msg.header.length < 256 := by omega
  have hbody : msg.body.length < 256 := by omega
  simp [deleteLwmMessage, deleteLwmKvo, foreachToDel_of_lt hheader, foreachToDel_of_lt hbody,
    entriesBlocks, deleteEntries_lost _ _ hm.1, deleteEntries_lost _ _ hm.2]

theorem card_lost_deleteLwmMessage (msg : OwnedMessage) (h : Heap) :
    h.lost.card ≤ (deleteLwmMessage msg h).lost.card := by
  have hheader := card_lost_deleteEntries (nodeNum msg.header) msg.header h
  have hbody := card_lost_deleteEntries (nodeNum msg.body) msg.body (deleteLwmKvo msg.header h).2
  simp only [deleteLwmKvo] at hbody
  simp [deleteLwmMessage, deleteLwmKvo]
  omega

def readMessage (buffer : List Char) : Option LWMessage :=
  (LwMsg.parseLwmMessageStr buffer).toOption.join

/-- The blocks that are lost for a buffer at least: the lists of the dictionaries that the
message has. -/
def leastLost (buffer : List Char) : Nat := (readMessage buffer).elim 0 LWMessage.dictionaries

/-- And at most: one for each brace but those around the header and the body. -/
def mostLost (buffer : List Char) : Nat :=
  buffer.count '{' - (readMessage buffer).elim 1 fun msg => msg.braces.length

def Counted (msg : OwnedMessage) : Prop := msg.content.nodes < 256 ∧ msg.content.miscounted = 0

theorem Spent.counted {msg : OwnedMessage}
    (hs : Spent .nothing p h msg.content (LWMessage.braces msg.erase) h') (hshort : p.length ≤ 256) :
    Counted msg ∧ h'.lost.card + (LWMessage.braces msg.erase).length ≤ h.lost.card + p.count '{' := by
  obtain ⟨hm, hlen, hnodes, hcount⟩ := hs.most (by simpa [Content.nothing] using hshort) rfl
  have hbraces : 0 < (LWMessage.braces msg.erase).length ∧
      (LWMessage.braces msg.erase).count '{' = (LWMessage.braces msg.erase).length := by
    unfold LWMessage.braces
    split <;> simp
  simp only [Content.nothing] at hnodes
  exact ⟨⟨by omega, hm⟩, by omega⟩

theorem parseLwmMessageStr_spent :
    Ensures (fun msg h' => (msg = none ∧ h'.lost = h.lost) ∨ ∃ m h₁,
        Spent .nothing p h m.content (LWMessage.braces m.erase) h₁ ∧
          (msg = some m ∧ h' = h₁ ∨ msg = none ∧ h' = deleteLwmMessage m h₁))
      (parseLwmMessageStr p h) := by
  cases p with
  | nil => exact .error
  | cons x p =>
    refine .ite (fun _ => .ok (.inl ⟨rfl, rfl⟩)) fun _ => ?_
    have hbody : (OwnedMessage.mk h.alloc.1 [] []).body = [] := rfl
    refine (lwmMessageLoop_header hbody).bind fun r h₁ hr => ?_
    have hnew : Spent .nothing (x :: p) h .nothing (x :: p) h.alloc.2 := .of_lost h.alloc_lost
    obtain ⟨rfl, rfl⟩ | hs := hr
    · have hempty : Counted ⟨h.alloc.1, [], []⟩ := ⟨Nat.zero_lt_succ 255, rfl⟩
      exact .ok (.inl ⟨rfl, deleteLwmMessage_lost hempty.1 hempty.2 _⟩)
    · obtain ⟨_ | _, msg⟩ := r
      · exact .ok (.inr ⟨msg, h₁, hnew.trans hs, .inr ⟨rfl, rfl⟩⟩)
      · exact .ok (.inr ⟨msg, h₁, hnew.trans hs, .inl ⟨rfl, rfl⟩⟩)

theorem parseLwmMessageStr_message (h : Owns owned heap) :
    Ensures (fun msg _ => LwMsg.parseLwmMessageStr buffer = .ok (msg.map OwnedMessage.erase))
      (parseLwmMessageStr buffer heap) := by
  intro r hr
  obtain ⟨hread, -⟩ := parseLwmMessageStr_follows h
  rw [← hread, hr]
  rfl

theorem parseLwmMessageStr_lost (h : Owns owned heap) :
    Ensures (fun msg h' => heap.lost.card + leastLost buffer ≤ h'.lost.card ∧
        (buffer.length ≤ 256 →
          h'.lost.card ≤ heap.lost.card + mostLost buffer ∧ ∀ m ∈ msg, Counted m))
      (parseLwmMessageStr buffer heap) := by
  intro r hr
  have hread : readMessage buffer = r.1.map OwnedMessage.erase := by
    rw [readMessage, parseLwmMessageStr_message h r hr]
    rfl
  unfold leastLost mostLost
  obtain ⟨hnone, hlost⟩ | ⟨m, h₁, hs, ⟨hsome, rfl⟩ | ⟨hnone, hdel⟩⟩ := parseLwmMessageStr_spent r hr
  · simp [hread, hnone, hlost]
  · simp only [hread, hsome, Option.map_some, Option.elim_some, Option.mem_def, Option.some.injEq]
    refine ⟨(Nat.add_comm _ _).trans_le (hs.least.trans (Nat.zero_add _).le), fun hshort => ?_⟩
    obtain ⟨hm, hcount⟩ := hs.counted hshort
    exact ⟨by omega, by rintro _ rfl; exact hm⟩
  · have hcard := card_lost_deleteLwmMessage m h₁
    have hleast := hs.least
    simp only [hread, hnone, hdel, Option.map_none, Option.elim_none]
    simp only [Content.nothing, Nat.zero_add] at hleast
    refine ⟨by omega, fun hshort => ?_⟩
    obtain ⟨hm, hcount⟩ := hs.counted hshort
    have hbraces : 0 < (LWMessage.braces m.erase).length := by
      unfold LWMessage.braces
      split <;> simp
    rw [deleteLwmMessage_lost hm.1 hm.2]
    exact ⟨by omega, by simp⟩

structure Memory where
  live : List OwnedMessage
  heap : Heap

inductive MemoryEvent
  | received (buffer : List Char)
  | deleted (msg : OwnedMessage)

inductive MemoryStep : Memory → MemoryEvent → Memory → Prop
  | received : parseLwmMessageStr buffer s.heap = .ok (msg, h) →
      MemoryStep s (.received buffer) ⟨msg.toList ++ s.live, h⟩
  | deleted : s.live.Perm (msg :: rest) →
      MemoryStep s (.deleted msg) ⟨rest, deleteLwmMessage msg s.heap⟩

def buffers (events : List MemoryEvent) : List (List Char) :=
  events.filterMap fun
    | .received buffer => some buffer
    | .deleted _ => none

/-- The blocks of the messages are what is owned, the messages are those that the buffers
hold, and what is lost is bounded. -/
structure Accounted (events : List MemoryEvent) (s : Memory) : Prop where
  owned : Owns (s.live.map OwnedMessage.blocks).sum s.heap
  read : ∀ msg ∈ s.live, ∃ buffer ∈ buffers events,
    LwMsg.parseLwmMessageStr buffer = .ok (some msg.erase)
  least : ((buffers events).map leastLost).sum ≤ s.heap.lost.card
  most : (∀ buffer ∈ buffers events, buffer.length ≤ 256) →
    s.heap.lost.card ≤ ((buffers events).map mostLost).sum ∧ ∀ msg ∈ s.live, Counted msg

theorem Accounted.received (ha : Accounted events s)
    (hparse : parseLwmMessageStr buffer s.heap = .ok (msg, h)) :
    Accounted (events ++ [.received buffer]) ⟨msg.toList ++ s.live, h⟩ := by
  have hbuffers : buffers (events ++ [.received buffer]) = buffers events ++ [buffer] := by
    simp [buffers]
  have howned := (parseLwmMessageStr_follows ha.owned).2 _ hparse
  have hread := parseLwmMessageStr_message ha.owned _ hparse
  obtain ⟨hleast, hmost⟩ := parseLwmMessageStr_lost ha.owned _ hparse
  dsimp only at hleast hmost
  constructor
  · refine howned.congr ?_
    cases msg <;> simp [messageBlocks]
  · intro m hm
    rw [hbuffers]
    obtain hnew | hold := List.mem_append.mp hm
    · obtain rfl : msg = some m := by simpa using hnew
      exact ⟨buffer, by simp, hread⟩
    · obtain ⟨b, hb, hm⟩ := ha.read m hold
      exact ⟨b, by simp [hb], hm⟩
  · have := ha.least
    simp [hbuffers]
    omega
  · intro hshort
    simp only [hbuffers, List.mem_append, List.mem_singleton] at hshort
    obtain ⟨hlost, hcounted⟩ := ha.most fun b hb => hshort b (.inl hb)
    obtain ⟨hlost', hcounted'⟩ := hmost (hshort buffer (.inr rfl))
    constructor
    · simp [hbuffers]
      omega
    · intro m hm
      obtain hnew | hold := List.mem_append.mp hm
      · exact hcounted' m (by simpa using hnew)
      · exact hcounted m hold

theorem Accounted.deleted (ha : Accounted events s) (hlive : s.live.Perm (msg :: rest)) :
    Accounted (events ++ [.deleted msg]) ⟨rest, deleteLwmMessage msg s.heap⟩ := by
  have hbuffers : buffers (events ++ [.deleted msg]) = buffers events := by simp [buffers]
  have hrest : ∀ m ∈ rest, m ∈ s.live := fun m hm => hlive.mem_iff.mpr (List.mem_cons_of_mem _ hm)
  constructor
  · refine deleteLwmMessage_owns (ha.owned.congr ?_)
    simpa using (hlive.map OwnedMessage.blocks).sum_eq
  · intro m hm
    rw [hbuffers]
    exact ha.read m (hrest m hm)
  · rw [hbuffers]
    exact ha.least.trans (card_lost_deleteLwmMessage msg s.heap)
  · intro hshort
    rw [hbuffers] at hshort ⊢
    obtain ⟨hlost, hcounted⟩ := ha.most hshort
    have hmsg := hcounted msg (hlive.mem_iff.mpr (List.mem_cons_self ..))
    rw [deleteLwmMessage_lost hmsg.1 hmsg.2]
    exact ⟨hlost, fun m hm => hcounted m (hrest m hm)⟩

theorem accounted (hrun : Run MemoryStep ⟨[], .empty⟩ run s) : Accounted (run.map Prod.snd) s := by
  refine hrun.history ⟨.empty, by simp, by simp [buffers], by simp [Heap.empty]⟩ ?_
  intro events s e s' ha hstep
  cases hstep with
  | received hparse => exact ha.received hparse
  | deleted hlive => exact ha.deleted hlive

/-- In every run of parsing and deleting, no block is freed twice, and none while its
message is live. -/
theorem parsed_messages_accounted (hrun : Run MemoryStep ⟨[], .empty⟩ run s) :
    Accounted (run.map Prod.snd) s ∧ s.heap.freed.Nodup ∧
      ∀ msg ∈ s.live, ∀ b ∈ msg.blocks, b < s.heap.allocated ∧ b ∉ s.heap.freed := by
  have ha := accounted hrun
  refine ⟨ha, ha.owned.freed_once, fun msg hmsg b hb => ha.owned.live ?_⟩
  obtain ⟨before, behind, hsplit⟩ := List.append_of_mem hmsg
  simp [hsplit, hb]

def nestedBuffer : List Char := terminated ['{', 'a', '=', '{', 'b', '=', 'c', '}', '}']

theorem parse_nestedBuffer : LwMsg.parseLwmMessageStr nestedBuffer =
    .ok (some ⟨[(some ['a'], .dictionary [(some ['b'], .string (some ['c']))])], []⟩) := by
  rfl

theorem parsed_messages_accounted_nested : ∃ run s, Run MemoryStep ⟨[], .empty⟩ run s ∧
    s.live = [] ∧ Owns 0 s.heap ∧ s.heap.lost.card = 1 := by
  have hfollows : Follows _ _ (parseLwmMessageStr nestedBuffer .empty)
      (LwMsg.parseLwmMessageStr nestedBuffer) := parseLwmMessageStr_follows Owns.empty
  rw [parse_nestedBuffer] at hfollows
  obtain ⟨_ | msg, heap, hparse, herase, -⟩ := hfollows.succeeds
  · cases herase
  have hrun := (Run.start.step (MemoryStep.received (s := ⟨[], .empty⟩) hparse)).step
    (MemoryStep.deleted (List.Perm.refl [msg]))
  obtain ⟨ha, -⟩ := parsed_messages_accounted hrun
  have hleast : leastLost nestedBuffer = 1 := by
    simp [leastLost, readMessage, parse_nestedBuffer, Except.toOption]
    rfl
  have hmost : mostLost nestedBuffer = 1 := by
    simp [mostLost, readMessage, parse_nestedBuffer, Except.toOption]
    rfl
  refine ⟨_, _, hrun, rfl, ha.owned, Nat.le_antisymm ?_ ?_⟩
  · simpa [buffers, hmost] using (ha.most (by simp [buffers]; decide)).1
  · simpa [buffers, hleast] using ha.least

end Owned

end IoTware.LwMsg
