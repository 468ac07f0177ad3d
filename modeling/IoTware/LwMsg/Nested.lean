import Mathlib.Data.List.Nodup
import IoTware.LwMsg.Numbers
import IoTware.LwMsg.RoundTrip

/-!
# The round trip of nested messages

Whatever a message is made of, what the serializer writes is the rendering of a
message tree: numbers are their decimals, and what is NULL is left out. The
parser reads it back with every list reversed, so a message that is sent back is
in its first order again, if it can make both ways.
-/

namespace IoTware.LwMsg

open CText Loops Numerals

-- ---------------------------------------------------------------------------
-- The tree that is written
-- ---------------------------------------------------------------------------

def writtenEntry (key : Option Text) (value : Option Tree) : Option (Text × Tree) := do
  return (← key, ← value)

mutual
def LWMObject.written : LWMObject → Option Tree
  | .number num => some (.text (serializeLwmNumber num))
  | .string value => value.map .text
  | .array items => some (.array (writtenItems items))
  | .dictionary dict => some (.dictionary (writtenEntries dict))
def writtenItems : List LWMObject → List Tree
  | [] => []
  | obj :: items => obj.written.toList ++ writtenItems items
def writtenEntries : LWMDictionary → List (Text × Tree)
  | [] => []
  | (key, value) :: dict => (writtenEntry key value.written).toList ++ writtenEntries dict
end

def LWMessage.written (msg : LWMessage) : MessageTree where
  header := writtenEntries msg.header
  body := if nodeNum msg.body > 0 then some (writtenEntries msg.body) else none

-- ---------------------------------------------------------------------------
-- What the serializer writes
-- ---------------------------------------------------------------------------

theorem Tree.WellFormed.render_ne_nil {v : Tree} (h : v.WellFormed) : v.render ≠ [] := by
  obtain ⟨c, s, hv, -⟩ := h.render_cons
  simp [hv]

theorem catSerialized_catSerialized {sep : Char} (ht : t ≠ []) (acc u : Text) :
    catSerialized sep (catSerialized sep acc (some t)) (some u) =
      catSerialized sep acc (some (t ++ sep :: u)) := by
  by_cases hacc : acc = [] <;> simp [catSerialized, hacc, ht]

def renderedItems (items : List Tree) : Option Text :=
  if items = [] then none else some (renderItems items)

def renderedEntries (entries : List (Text × Tree)) : Option Text :=
  if entries = [] then none else some (renderEntries entries)

theorem catSerialized_renderedItems {v : Tree} (hv : v.WellFormed) (acc : Text)
    (items : List Tree) :
    catSerialized ',' (catSerialized ',' acc (some v.render)) (renderedItems items) =
      catSerialized ',' acc (renderedItems (v :: items)) := by
  cases items with
  | nil => simp [renderedItems, renderItems, catSerialized]
  | cons w items => simp [renderedItems, renderItems, catSerialized_catSerialized hv.render_ne_nil]

theorem catSerialized_renderedEntries (k : Text) (v : Tree) (acc : Text)
    (entries : List (Text × Tree)) :
    catSerialized ';' (catSerialized ';' acc (some (k ++ '=' :: v.render)))
        (renderedEntries entries) =
      catSerialized ';' acc (renderedEntries ((k, v) :: entries)) := by
  cases entries with
  | nil => simp [renderedEntries, renderEntries, catSerialized]
  | cons e entries =>
    simp [renderedEntries, renderEntries, catSerialized_catSerialized (t := k ++ '=' :: v.render)]

theorem catSerialized_nil_renderedItems (items : List Tree) :
    catSerialized ',' [] (renderedItems items) = renderItems items := by
  cases items <;> simp [renderedItems, renderItems, catSerialized]

theorem catSerialized_nil_renderedEntries (entries : List (Text × Tree)) :
    catSerialized ';' [] (renderedEntries entries) = renderEntries entries := by
  cases entries <;> simp [renderedEntries, renderEntries, catSerialized]

mutual
theorem serializeLwmObject_written : (obj : LWMObject) → (∀ v ∈ obj.written, v.WellFormed) →
    serializeLwmObject obj = obj.written.map Tree.render
  | .number num, _ => rfl
  | .string value, _ => by cases value <;> rfl
  | .array items, h => by
    have hitems := serializeItems_written [] items (h _ rfl)
    simp [serializeLwmObject, LWMObject.written, Tree.render, hitems,
      catSerialized_nil_renderedItems]
  | .dictionary dict, h => by
    have hentries := serializeEntries_written [] dict (h _ rfl).2
    simp [serializeLwmObject, LWMObject.written, Tree.render, hentries,
      catSerialized_nil_renderedEntries]
theorem serializeItems_written (acc : Text) : (items : List LWMObject) →
    itemsWellFormed (writtenItems items) →
    serializeItems acc items = catSerialized ',' acc (renderedItems (writtenItems items))
  | [], _ => by simp [serializeItems, writtenItems, renderedItems, catSerialized]
  | obj :: items, h => by
    cases hv : obj.written with
    | none =>
      simp only [writtenItems, hv, Option.toList_none, List.nil_append] at h
      have hobj := serializeLwmObject_written obj (by simp [hv])
      have hitems := serializeItems_written acc items h
      simp [serializeItems, writtenItems, hv, hobj, hitems, catSerialized]
    | some v =>
      simp only [writtenItems, hv, Option.toList_some, List.singleton_append] at h
      have hobj := serializeLwmObject_written obj (by simpa [hv] using h.1)
      have hitems := serializeItems_written (catSerialized ',' acc (some v.render)) items h.2
      simp [serializeItems, writtenItems, hv, hobj, hitems, catSerialized_renderedItems h.1]
theorem serializeEntries_written (acc : Text) : (dict : LWMDictionary) →
    entriesWellFormed (writtenEntries dict) →
    serializeEntries acc dict = catSerialized ';' acc (renderedEntries (writtenEntries dict))
  | [], _ => by simp [serializeEntries, writtenEntries, renderedEntries, catSerialized]
  | (key, value) :: dict, h => by
    cases key with
    | none =>
      have hentries := serializeEntries_written acc dict h
      simp [serializeEntries, writtenEntries, writtenEntry, serializeLwmKvo, hentries,
        catSerialized]
    | some k =>
      cases hv : value.written with
      | none =>
        simp only [writtenEntries, writtenEntry, hv] at h
        have hvalue := serializeLwmObject_written value (by simp [hv])
        have hentries := serializeEntries_written acc dict h
        simp [serializeEntries, writtenEntries, writtenEntry, serializeLwmKvo, hv, hvalue,
          hentries, catSerialized]
      | some v =>
        simp only [writtenEntries, writtenEntry, hv] at h
        have hvalue := serializeLwmObject_written value (by simpa [hv] using h.2.1)
        have hentries := serializeEntries_written
          (catSerialized ';' acc (some (k ++ '=' :: v.render))) dict h.2.2
        simp [serializeEntries, writtenEntries, writtenEntry, hv, hvalue, hentries,
          catSerialized_renderedEntries]
end

theorem serializeLwmMessage_written {msg : LWMessage} (h : msg.written.WellFormed) :
    serializeLwmMessage msg = msg.written.render := by
  have hheader := serializeEntries_written [] msg.header h.1.2
  unfold serializeLwmMessage MessageTree.render LWMessage.written serializeLwmDictionary
  simp only [hheader, catSerialized_nil_renderedEntries, Tree.render]
  by_cases hnum : nodeNum msg.body > 0
  · have hbody := serializeEntries_written [] msg.body
      (h.2 (writtenEntries msg.body) (by simp [LWMessage.written, hnum])).2
    simp [hnum, hbody, catSerialized_nil_renderedEntries]
  · simp [hnum]

-- ---------------------------------------------------------------------------
-- Numbers
-- ---------------------------------------------------------------------------

theorem plainChar_of_isDigit (h : isDigit c = true) : PlainChar c := by
  constructor
  · simp only [isDigit, isPrint, Bool.and_eq_true, decide_eq_true_eq] at h ⊢
    omega
  · intro hc
    simp only [delimiters, List.mem_cons, List.not_mem_nil, or_false] at hc
    rcases hc with rfl | rfl | rfl | rfl | rfl | rfl | rfl <;> simp [isDigit] at h

theorem PlainText.take (h : PlainText t) (n : Nat) : PlainText (t.take (n + 1)) := by
  obtain ⟨c, s, rfl, -⟩ := h.cons
  exact ⟨by simp, h.2.1, fun d hd => h.2.2 d (List.mem_of_mem_take hd)⟩

theorem PlainText.append (h : PlainText t) (hu : ∀ c ∈ u, PlainChar c) : PlainText (t ++ u) := by
  obtain ⟨c, s, rfl, -⟩ := h.cons
  refine ⟨by simp, h.2.1, fun d hd => ?_⟩
  rcases List.mem_append.mp hd with hd | hd
  · exact h.2.2 d hd
  · exact hu d hd

theorem plainText_toDigits (n : Nat) : PlainText (Nat.toDigits 10 n) := by
  have hdigit : ∀ c ∈ Nat.toDigits 10 n, isDigit c = true := fun c hc => isDigit_toDigits hc
  refine ⟨Nat.toDigits_ne_nil, fun hblank => ?_, fun c hc => plainChar_of_isDigit (hdigit c hc)⟩
  exact absurd (hdigit ' ' (List.mem_of_mem_head? hblank)) (by decide)

theorem plainText_decimal (z : Int) : PlainText (decimal z) := by
  unfold decimal
  by_cases hz : z < 0
  · rw [toList_toString_neg hz]
    exact PlainText.append (t := ['-']) (by decide) (plainText_toDigits _).2.2
  · obtain ⟨n, rfl⟩ := Int.eq_ofNat_of_zero_le (not_lt.mp hz)
    rw [toList_toString_ofNat]
    exact plainText_toDigits n

theorem plainText_fixedPoint (x : Rat) : PlainText (fixedPoint x) := by
  refine (plainText_decimal _).append fun c hc => ?_
  rcases List.mem_cons.mp hc with rfl | hc
  · decide
  · exact (plainText_decimal _).2.2 c hc

theorem plainText_serializeLwmNumber (num : LWMNumber) : PlainText (serializeLwmNumber num) := by
  cases num with
  | float x | double x => exact (plainText_fixedPoint x).take _
  | _ => exact (plainText_decimal _).take _

-- ---------------------------------------------------------------------------
-- What is received
-- ---------------------------------------------------------------------------

def MessageTree.received (m : MessageTree) : LWMessage :=
  ⟨mirrorEntries m.header [], mirrorEntries (m.body.getD []) []⟩

theorem mirrorItems_eq (items : List Tree) (acc : List LWMObject) :
    mirrorItems items acc = (items.map Tree.mirror).reverse ++ acc := by
  induction items generalizing acc with
  | nil => rfl
  | cons v items ih => simp [mirrorItems, ih]

theorem mirrorEntries_eq (entries : List (Text × Tree)) (acc : LWMDictionary) :
    mirrorEntries entries acc =
      (entries.map fun e => (some e.1, e.2.mirror)).reverse ++ acc := by
  induction entries generalizing acc with
  | nil => rfl
  | cons e entries ih => simp [mirrorEntries, ih]

theorem distinctKeys_mirrorEntries {entries : List (Text × Tree)}
    (h : (entries.map Prod.fst).Nodup) : DistinctKeys (mirrorEntries entries []) := by
  constructor
  · rintro ⟨key, value⟩ hkv rfl
    simp [mirrorEntries_eq] at hkv
  · have hkeys : keys (mirrorEntries entries []) = ((entries.map Prod.fst).map some).reverse := by
      simp [keys, mirrorEntries_eq, Function.comp_def]
    rw [hkeys, List.nodup_reverse]
    exact h.map (Option.some_injective _)

theorem mem_writtenEntries :
    (k, v) ∈ writtenEntries dict ↔ ∃ obj, (some k, obj) ∈ dict ∧ obj.written = some v := by
  induction dict with
  | nil => simp [writtenEntries]
  | cons kv dict ih =>
    obtain ⟨key, value⟩ := kv
    have hhead : (k, v) ∈ (writtenEntry key value.written).toList ↔
        key = some k ∧ value.written = some v := by
      cases key <;> cases hv : value.written <;> simp [writtenEntry, eq_comm]
    simp [writtenEntries, hhead, ih, or_and_right, exists_or, eq_comm]

theorem getLwmObjectFromDict_received (h : (Tree.dictionary (writtenEntries dict)).WellFormed) :
    getLwmObjectFromDict (mirrorEntries (writtenEntries dict) []) key = .ok (some value) ↔
      ∃ obj v, (some key, obj) ∈ dict ∧ obj.written = some v ∧ v.mirror = value := by
  rw [getLwmObjectFromDict_some_iff (distinctKeys_mirrorEntries h.1)]
  simp only [mirrorEntries_eq, List.append_nil, List.mem_reverse, List.mem_map, Prod.exists,
    Prod.mk.injEq, Option.some.injEq, mem_writtenEntries]
  constructor
  · rintro ⟨k, v, ⟨obj, hmem, hv⟩, rfl, hvalue⟩
    exact ⟨obj, v, hmem, hv, hvalue⟩
  · rintro ⟨obj, v, hmem, hv, hvalue⟩
    exact ⟨key, v, ⟨obj, hmem, hv⟩, rfl, hvalue⟩

def sent (msg : LWMessage) : Except Fault (Option LWMessage) :=
  parseLwmMessageStr (terminated (serializeLwmMessage msg))

theorem sent_iff {msg : LWMessage} (h : msg.written.WellFormed) :
    sent msg = .ok (some msg.written.received) ↔ msg.written.NestsLast := by
  unfold sent
  rw [serializeLwmMessage_written h]
  constructor
  · intro hparse
    exact .of_denotes h hparse ⟨dictDenotes_mirror _, dictDenotes_mirror _⟩
  · intro hn
    exact hn.parse_render h

/-- What is written of a message is read back, with every list reversed, exactly when every
dictionary that is the value of an entry ends the dictionary it is in and the header has
none where entries follow in the body. Each key is then bound to what was written for it. -/
theorem nested_round_trip {msg : LWMessage} (h : msg.written.WellFormed) :
    (sent msg = .ok (some msg.written.received) ↔ msg.written.NestsLast) ∧
      (∀ key value, getLwmObjectFromDict msg.written.received.header key = .ok (some value) ↔
        ∃ obj v, (some key, obj) ∈ msg.header ∧ obj.written = some v ∧ v.mirror = value) ∧
      (nodeNum msg.body > 0 → ∀ key value,
        getLwmObjectFromDict msg.written.received.body key = .ok (some value) ↔
          ∃ obj v, (some key, obj) ∈ msg.body ∧ obj.written = some v ∧ v.mirror = value) := by
  refine ⟨sent_iff h, fun _ _ => getLwmObjectFromDict_received h.1, fun hnum _ _ => ?_⟩
  have hbody : msg.written.body = some (writtenEntries msg.body) := by
    simp [LWMessage.written, hnum]
  have hreceived : msg.written.received.body = mirrorEntries (writtenEntries msg.body) [] := by
    simp [MessageTree.received, hbody]
  rw [hreceived]
  exact getLwmObjectFromDict_received (h.2 _ hbody)

def sampleReport : LWMessage where
  header := [(some "dri".toList, .string (some "9".toList)), (some "rsc".toList, .number (.uint32 200))]
  body := [(some "tif".toList, .array
    [.dictionary [(some "ti".toList, .number (.uint8 1)), (some "ts".toList, .string none)],
      .dictionary [(some "ti".toList, .number (.uint8 2))]])]

theorem sampleReport_wellFormed : sampleReport.written.WellFormed := by
  simp [sampleReport, LWMessage.written, MessageTree.WellFormed, Tree.WellFormed, writtenEntries,
    writtenEntry, LWMObject.written, writtenItems, nodeNum, itemsWellFormed, entriesWellFormed,
    plainText_serializeLwmNumber]
  decide

theorem nested_round_trip_report :
    sent sampleReport = .ok (some
      ⟨[(some "rsc".toList, .string (some "200".toList)),
          (some "dri".toList, .string (some "9".toList))],
        [(some "tif".toList, .array
          [.dictionary [(some "ti".toList, .string (some "2".toList))],
            .dictionary [(some "ti".toList, .string (some "1".toList))]])]⟩) := by
  refine (nested_round_trip sampleReport_wellFormed).1.mpr ?_
  simp [sampleReport, LWMessage.written, MessageTree.NestsLast, Tree.NestsLast, writtenEntries,
    writtenEntry, LWMObject.written, writtenItems, nodeNum, itemsNestLast, entriesNestLast,
    Tree.isDictionary]

-- ---------------------------------------------------------------------------
-- There and back
-- ---------------------------------------------------------------------------

mutual
def Tree.reversed : Tree → Tree
  | .text t => .text t
  | .array items => .array (reversedItems items)
  | .dictionary entries => .dictionary (reversedEntries entries)
def reversedItems : List Tree → List Tree
  | [] => []
  | v :: items => reversedItems items ++ [v.reversed]
def reversedEntries : List (Text × Tree) → List (Text × Tree)
  | [] => []
  | (k, v) :: entries => reversedEntries entries ++ [(k, v.reversed)]
end

mutual
def Tree.object : Tree → LWMObject
  | .text t => .string (some t)
  | .array items => .array (objectItems items)
  | .dictionary entries => .dictionary (objectEntries entries)
def objectItems : List Tree → List LWMObject
  | [] => []
  | v :: items => v.object :: objectItems items
def objectEntries : List (Text × Tree) → LWMDictionary
  | [] => []
  | (k, v) :: entries => (some k, v.object) :: objectEntries entries
end

def MessageTree.reversed (m : MessageTree) : MessageTree :=
  ⟨reversedEntries m.header, m.body.map reversedEntries⟩

def MessageTree.message (m : MessageTree) : LWMessage :=
  ⟨objectEntries m.header, objectEntries (m.body.getD [])⟩

@[simp] theorem writtenItems_append (items items' : List LWMObject) :
    writtenItems (items ++ items') = writtenItems items ++ writtenItems items' := by
  induction items with
  | nil => rfl
  | cons obj items ih => simp [writtenItems, ih]

@[simp] theorem writtenEntries_append (dict dict' : LWMDictionary) :
    writtenEntries (dict ++ dict') = writtenEntries dict ++ writtenEntries dict' := by
  induction dict with
  | nil => rfl
  | cons kv dict ih => simp [writtenEntries, ih]

theorem mirrorItems_cons (v : Tree) (items : List Tree) :
    mirrorItems (v :: items) [] = mirrorItems items [] ++ [v.mirror] := by
  simp [mirrorItems_eq]

theorem mirrorEntries_cons (k : Text) (v : Tree) (entries : List (Text × Tree)) :
    mirrorEntries ((k, v) :: entries) [] = mirrorEntries entries [] ++ [(some k, v.mirror)] := by
  simp [mirrorEntries_eq]

theorem mirrorItems_append (items : List Tree) (v : Tree) :
    mirrorItems (items ++ [v]) [] = v.mirror :: mirrorItems items [] := by
  simp [mirrorItems_eq]

theorem mirrorEntries_append (entries : List (Text × Tree)) (k : Text) (v : Tree) :
    mirrorEntries (entries ++ [(k, v)]) [] = (some k, v.mirror) :: mirrorEntries entries [] := by
  simp [mirrorEntries_eq]

mutual
theorem Tree.written_mirror : (v : Tree) → v.mirror.written = some v.reversed
  | .text _ => rfl
  | .array items => by
    simp [Tree.mirror, LWMObject.written, Tree.reversed, writtenItems_mirror items]
  | .dictionary entries => by
    simp [Tree.mirror, LWMObject.written, Tree.reversed, writtenEntries_mirror entries]
theorem writtenItems_mirror : (items : List Tree) →
    writtenItems (mirrorItems items []) = reversedItems items
  | [] => rfl
  | v :: items => by
    simp [mirrorItems_cons, writtenItems, reversedItems, v.written_mirror,
      writtenItems_mirror items]
theorem writtenEntries_mirror : (entries : List (Text × Tree)) →
    writtenEntries (mirrorEntries entries []) = reversedEntries entries
  | [] => rfl
  | (k, v) :: entries => by
    simp [mirrorEntries_cons, writtenEntries, writtenEntry, reversedEntries, v.written_mirror,
      writtenEntries_mirror entries]
end

mutual
theorem Tree.mirror_reversed : (v : Tree) → v.reversed.mirror = v.object
  | .text _ => rfl
  | .array items => by
    simp [Tree.reversed, Tree.mirror, Tree.object, mirrorItems_reversed items]
  | .dictionary entries => by
    simp [Tree.reversed, Tree.mirror, Tree.object, mirrorEntries_reversed entries]
theorem mirrorItems_reversed : (items : List Tree) →
    mirrorItems (reversedItems items) [] = objectItems items
  | [] => rfl
  | v :: items => by
    simp [reversedItems, objectItems, mirrorItems_append, v.mirror_reversed,
      mirrorItems_reversed items]
theorem mirrorEntries_reversed : (entries : List (Text × Tree)) →
    mirrorEntries (reversedEntries entries) [] = objectEntries entries
  | [] => rfl
  | (k, v) :: entries => by
    simp [reversedEntries, objectEntries, mirrorEntries_append, v.mirror_reversed,
      mirrorEntries_reversed entries]
end

theorem itemsWellFormed_append :
    itemsWellFormed (items ++ items') ↔ itemsWellFormed items ∧ itemsWellFormed items' := by
  induction items with
  | nil => simp [itemsWellFormed]
  | cons v items ih => simp [itemsWellFormed, ih, and_assoc]

theorem entriesWellFormed_append :
    entriesWellFormed (entries ++ entries') ↔
      entriesWellFormed entries ∧ entriesWellFormed entries' := by
  induction entries with
  | nil => simp [entriesWellFormed]
  | cons e entries ih => simp [entriesWellFormed, ih, and_assoc]

theorem reversedEntries_keys (entries : List (Text × Tree)) :
    (reversedEntries entries).map Prod.fst = (entries.map Prod.fst).reverse := by
  induction entries with
  | nil => rfl
  | cons e entries ih => simp [reversedEntries, ih]

mutual
theorem Tree.WellFormed.reversed : (v : Tree) → v.WellFormed → v.reversed.WellFormed
  | .text _, h => h
  | .array items, h => itemsWellFormed.reversed items h
  | .dictionary entries, h => by
    refine ⟨?_, entriesWellFormed.reversed entries h.2⟩
    rw [reversedEntries_keys, List.nodup_reverse]
    exact h.1
theorem itemsWellFormed.reversed : (items : List Tree) → itemsWellFormed items →
    itemsWellFormed (reversedItems items)
  | [], h => h
  | v :: items, h =>
    itemsWellFormed_append.mpr
      ⟨itemsWellFormed.reversed items h.2, Tree.WellFormed.reversed v h.1, trivial⟩
theorem entriesWellFormed.reversed : (entries : List (Text × Tree)) → entriesWellFormed entries →
    entriesWellFormed (reversedEntries entries)
  | [], h => h
  | (_, v) :: entries, h =>
    entriesWellFormed_append.mpr
      ⟨entriesWellFormed.reversed entries h.2.2, h.1, Tree.WellFormed.reversed v h.2.1, trivial⟩
end

theorem MessageTree.WellFormed.reversed {m : MessageTree} (h : m.WellFormed) :
    m.reversed.WellFormed := by
  refine ⟨Tree.WellFormed.reversed (.dictionary m.header) h.1, fun body hbody => ?_⟩
  obtain ⟨entries, hentries, rfl⟩ := Option.mem_map.mp hbody
  exact Tree.WellFormed.reversed (.dictionary entries) (h.2 entries hentries)

theorem MessageTree.written_received {m : MessageTree} (h : ∀ body ∈ m.body, nodeNum body > 0) :
    m.received.written = m.reversed := by
  obtain ⟨header, body⟩ := m
  have hheader := writtenEntries_mirror header
  cases body with
  | none => simp [received, LWMessage.written, reversed, hheader, mirrorEntries, nodeNum]
  | some body =>
    have hnum : nodeNum (mirrorEntries body []) = nodeNum body := by
      simp [nodeNum, mirrorEntries_eq]
    simp [received, LWMessage.written, reversed, hheader, writtenEntries_mirror body, hnum,
      h body rfl]

theorem MessageTree.received_reversed (m : MessageTree) : m.reversed.received = m.message := by
  obtain ⟨header, body⟩ := m
  cases body <;> simp [received, reversed, message, mirrorEntries_reversed, mirrorEntries,
    objectEntries]

/-- A message that is sent back as it was received has its first order again exactly when
its dictionaries end what they are in both ways. -/
theorem echo_restores_iff {msg : LWMessage} (h : msg.written.WellFormed)
    (hcount : ∀ body ∈ msg.written.body, nodeNum body > 0) :
    (sent msg = .ok (some msg.written.received) ∧
      sent msg.written.received = .ok (some msg.written.message)) ↔
      msg.written.NestsLast ∧ msg.written.reversed.NestsLast := by
  have hback := MessageTree.written_received hcount
  have hsent := sent_iff (hback ▸ h.reversed)
  rw [hback, MessageTree.received_reversed] at hsent
  rw [sent_iff h, hsent]

theorem echo_restores_report :
    ∃ received, sent sampleReport = .ok (some received) ∧ sent received = .ok (some
      ⟨[(some "dri".toList, .string (some "9".toList)),
          (some "rsc".toList, .string (some "200".toList))],
        [(some "tif".toList, .array
          [.dictionary [(some "ti".toList, .string (some "1".toList))],
            .dictionary [(some "ti".toList, .string (some "2".toList))]])]⟩) := by
  refine ⟨_, (echo_restores_iff sampleReport_wellFormed ?_).mpr ?_⟩
  · simp [sampleReport, LWMessage.written, writtenEntries, writtenEntry, LWMObject.written, nodeNum]
  · simp [sampleReport, LWMessage.written, MessageTree.NestsLast, MessageTree.reversed,
      Tree.NestsLast, Tree.reversed, reversedItems, reversedEntries, writtenEntries, writtenEntry,
      LWMObject.written, writtenItems, nodeNum, itemsNestLast, entriesNestLast, Tree.isDictionary]

end IoTware.LwMsg
