import IoTware.LwMsg.Complete
import IoTware.LwMsg.Serialize

/-!
# The round trip of flat messages

A message of string values whose dictionaries were filled by
`set_lwm_object_to_dict` serializes to the rendering of a message tree without
nesting. The parser reads that back up to the order of the entries, and the
order does not matter to a lookup as long as the keys differ.
-/

namespace IoTware.LwMsg

open CText Loops

/-- The dictionary was filled by `set_lwm_object_to_dict`. -/
inductive Built : LWMDictionary → Prop
  | empty : Built []
  | set : Built dict → setLwmObjectToDict dict key value = .ok dict' → Built dict'

/-- Every entry is a key and a text that the wire format leaves as they are. -/
def Flat (dict : LWMDictionary) : Prop :=
  ∀ kv ∈ dict, ∃ k t, kv = (some k, .string (some t)) ∧ PlainText k ∧ PlainText t

-- ---------------------------------------------------------------------------
-- Keys
-- ---------------------------------------------------------------------------

structure DistinctKeys (dict : LWMDictionary) : Prop where
  nonNull : KeysNonNull dict
  nodup : (keys dict).Nodup

theorem deleteLwmKvoByKey_removes (hd : DistinctKeys dict)
    (h : deleteLwmKvoByKey dict (some key) = .ok dict') : some key ∉ keys dict' := by
  induction dict generalizing dict' with
  | nil => cases h; simp [keys]
  | cons kv dict ih =>
    obtain ⟨k, value⟩ := kv
    have htail : DistinctKeys dict :=
      ⟨fun kv hkv => hd.nonNull kv (List.mem_cons_of_mem _ hkv), (List.nodup_cons.mp hd.nodup).2⟩
    cases k with
    | none => exact absurd rfl (hd.nonNull (none, value) (by simp))
    | some k =>
      unfold deleteLwmKvoByKey at h
      split at h
      · rename_i hk
        cases h
        subst hk
        exact (List.nodup_cons.mp hd.nodup).1
      · rename_i hk
        simp only [bind_ok, pure_ok] at h
        obtain ⟨rest, hrest, rfl⟩ := h
        simp only [keys, List.map_cons, List.mem_cons, Option.some.injEq, not_or]
        exact ⟨Ne.symm hk, ih htail hrest⟩

theorem DistinctKeys.set (hd : DistinctKeys dict) (h : setLwmObjectToDict dict key value = .ok dict') :
    DistinctKeys dict' := by
  simp only [setLwmObjectToDict, bind_ok, pure_ok] at h
  obtain ⟨rest, hdel, rfl⟩ := h
  have hsub := deleteLwmKvoByKey_sublist hdel
  constructor
  · rintro kv hkv
    rcases List.mem_cons.mp hkv with rfl | hkv
    · simp
    · exact hd.nonNull kv (hsub.subset hkv)
  · refine List.nodup_cons.mpr ⟨deleteLwmKvoByKey_removes hd hdel, ?_⟩
    exact (hsub.map Prod.fst).nodup hd.nodup

theorem Built.distinctKeys (h : Built dict) : DistinctKeys dict := by
  induction h with
  | empty => exact ⟨by simp [KeysNonNull], by simp [keys]⟩
  | set _ hset ih => exact ih.set hset

-- ---------------------------------------------------------------------------
-- Lookups
-- ---------------------------------------------------------------------------

theorem getLwmObjectFromDict_some_iff (hd : DistinctKeys dict) :
    getLwmObjectFromDict dict key = .ok (some value) ↔ (some key, value) ∈ dict := by
  induction dict with
  | nil => simp [getLwmObjectFromDict]
  | cons kv dict ih =>
    obtain ⟨k, v⟩ := kv
    have htail : DistinctKeys dict :=
      ⟨fun kv hkv => hd.nonNull kv (List.mem_cons_of_mem _ hkv), (List.nodup_cons.mp hd.nodup).2⟩
    cases k with
    | none => exact absurd rfl (hd.nonNull (none, v) (by simp))
    | some k =>
      have hhead : some k ∉ keys dict := (List.nodup_cons.mp hd.nodup).1
      unfold getLwmObjectFromDict
      split
      · rename_i hk
        subst hk
        have hnot : (some k, value) ∉ dict := fun hm => hhead (List.mem_map.mpr ⟨_, hm, rfl⟩)
        simp [hnot, eq_comm]
      · rename_i hk
        rw [ih htail]
        simp [Ne.symm hk]

theorem getLwmObjectFromDict_perm (hp : dict'.Perm dict) (hd : DistinctKeys dict) (key : Text) :
    getLwmObjectFromDict dict' key = getLwmObjectFromDict dict key := by
  have hd' : DistinctKeys dict' :=
    ⟨fun kv hkv => hd.nonNull kv (hp.subset hkv), (hp.map Prod.fst).nodup_iff.mpr hd.nodup⟩
  obtain ⟨v, hv⟩ := getLwmObjectFromDict_ok hd.nonNull key
  obtain ⟨v', hv'⟩ := getLwmObjectFromDict_ok hd'.nonNull key
  rw [hv, hv']
  congr 1
  refine Option.ext fun value => ?_
  have h : getLwmObjectFromDict dict key = .ok (some value) ↔ _ := getLwmObjectFromDict_some_iff hd
  have h' : getLwmObjectFromDict dict' key = .ok (some value) ↔ _ := getLwmObjectFromDict_some_iff hd'
  rw [hv] at h
  rw [hv'] at h'
  simp only [Except.ok.injEq] at h h'
  rw [h', h]
  exact hp.mem_iff

-- ---------------------------------------------------------------------------
-- The tree of a flat message
-- ---------------------------------------------------------------------------

def flatEntry (kv : LWMKVObject) : Text × Tree := (kv.1.getD [], .text (kv.2.stringValue.getD []))

def flatTree (msg : LWMessage) : MessageTree where
  header := msg.header.map flatEntry
  body := if msg.body = [] then none else some (msg.body.map flatEntry)

theorem serializeEntries_cons_render (hf : Flat dict) (hacc : acc ≠ []) :
    serializeEntries acc dict =
      if dict = [] then acc else acc ++ ';' :: renderEntries (dict.map flatEntry) := by
  induction dict generalizing acc with
  | nil => rfl
  | cons kv dict ih =>
    obtain ⟨k, t, rfl, -, -⟩ := hf kv (by simp)
    have hf' : Flat dict := fun kv hkv => hf kv (List.mem_cons_of_mem _ hkv)
    simp only [serializeEntries, serializeLwmObject, serializeLwmKvo_some, catSerialized, if_neg hacc,
      List.map_cons, reduceCtorEq, if_false]
    rw [ih hf' (by simp)]
    cases dict with
    | nil => rfl
    | cons kv dict => simp [flatEntry, renderEntries, LWMObject.stringValue, Tree.render]

theorem serializeEntries_render (hf : Flat dict) :
    serializeEntries [] dict = renderEntries (dict.map flatEntry) := by
  cases dict with
  | nil => rfl
  | cons kv dict =>
    obtain ⟨k, t, rfl, -, -⟩ := hf kv (by simp)
    have hf' : Flat dict := fun kv hkv => hf kv (List.mem_cons_of_mem _ hkv)
    simp only [serializeEntries, serializeLwmObject, serializeLwmKvo_some, catSerialized, if_true]
    rw [serializeEntries_cons_render hf' (by simp)]
    cases dict with
    | nil => rfl
    | cons kv dict => simp [flatEntry, renderEntries, LWMObject.stringValue, Tree.render]

theorem serializeLwmMessage_render (hh : Flat msg.header) (hb : Flat msg.body)
    (hlen : msg.body.length < 256) : serializeLwmMessage msg = (flatTree msg).render := by
  unfold serializeLwmMessage MessageTree.render flatTree serializeLwmDictionary
  rw [serializeEntries_render hh, serializeEntries_render hb, nodeNum_of_lt hlen]
  by_cases hnil : msg.body = []
  · simp [hnil, Tree.render]
  · have hpos : msg.body.length > 0 := List.length_pos_iff.mpr hnil
    simp [hnil, Tree.render]

theorem flat_wellFormed (hf : Flat dict) (hd : DistinctKeys dict) :
    (Tree.dictionary (dict.map flatEntry)).WellFormed := by
  induction dict with
  | nil => exact ⟨List.nodup_nil, trivial⟩
  | cons kv dict ih =>
    obtain ⟨k, t, rfl, hk, ht⟩ := hf kv (by simp)
    obtain ⟨hnotin, hnodup⟩ := List.nodup_cons.mp hd.nodup
    have hf' : Flat dict := fun kv hkv => hf kv (List.mem_cons_of_mem _ hkv)
    have hd' : DistinctKeys dict := ⟨fun kv hkv => hd.nonNull kv (List.mem_cons_of_mem _ hkv), hnodup⟩
    obtain ⟨ihnodup, ihentries⟩ := ih hf' hd'
    refine ⟨List.nodup_cons.mpr ⟨?_, ihnodup⟩, hk, ht, ihentries⟩
    intro hmem
    rw [List.map_map, List.mem_map] at hmem
    obtain ⟨kv, hkv, heq⟩ := hmem
    obtain ⟨k', t', rfl, -, -⟩ := hf' kv hkv
    refine hnotin (List.mem_map.mpr ⟨_, hkv, ?_⟩)
    simpa [flatEntry] using heq

theorem flat_nestsLast (dict : LWMDictionary) : entriesNestLast (dict.map flatEntry) := by
  induction dict with
  | nil => trivial
  | cons kv dict ih => exact ⟨trivial, by simp [Tree.isDictionary], ih⟩

theorem eq_of_entriesDenote (hf : Flat dict) (h : entriesDenote (dict.map flatEntry) dict') :
    dict' = dict := by
  induction dict generalizing dict' with
  | nil => exact h
  | cons kv dict ih =>
    obtain ⟨k, t, rfl, -, -⟩ := hf kv (by simp)
    have hf' : Flat dict := fun kv hkv => hf kv (List.mem_cons_of_mem _ hkv)
    cases dict' with
    | nil => exact h.elim
    | cons kv' dict' =>
      obtain ⟨key, value⟩ := kv'
      obtain ⟨hkey, hvalue, hrest⟩ := h
      cases hkey
      cases hvalue
      rw [ih hf' hrest]
      rfl

theorem flatTree_wellFormed (hh : Flat msg.header) (hb : Flat msg.body)
    (hhd : DistinctKeys msg.header) (hbd : DistinctKeys msg.body) : (flatTree msg).WellFormed := by
  refine ⟨flat_wellFormed hh hhd, ?_⟩
  intro body hbody
  simp only [flatTree] at hbody
  split at hbody
  · cases hbody
  · cases hbody
    exact flat_wellFormed hb hbd

theorem flatTree_nestsLast (msg : LWMessage) : (flatTree msg).NestsLast := by
  refine ⟨flat_nestsLast msg.header, ?_⟩
  intro body hbody
  simp only [flatTree] at hbody
  split at hbody
  · cases hbody
  · cases hbody
    refine ⟨flat_nestsLast msg.body, .inr ?_⟩
    intro e he
    obtain ⟨kv, -, rfl⟩ := List.mem_map.mp he
    simp [flatEntry, Tree.isDictionary]

theorem getLwmObjectFromDict_of_denotes (hf : Flat dict) (hd : DistinctKeys dict)
    (h : DictDenotes (dict.map flatEntry) dict') (key : Text) :
    getLwmObjectFromDict dict' key = getLwmObjectFromDict dict key := by
  obtain ⟨dict'', hp, hden⟩ := h
  cases eq_of_entriesDenote hf hden
  exact getLwmObjectFromDict_perm hp.symm hd key

/-- A flat message that was serialized and parsed again has the same text under
every key, in the header and in the body, and NULL under the same keys. -/
theorem parse_serialize_flat {m : LWMessage} (hheader : Built m.header) (hbody : Built m.body)
    (hhflat : Flat m.header) (hbflat : Flat m.body) (hblen : m.body.length < 256) :
    ∃ msg, parseLwmMessageStr (terminated (serializeLwmMessage m)) = .ok (some msg) ∧
      ∀ key,
        getLwmObjectFromDict msg.header key = getLwmObjectFromDict m.header key ∧
        getLwmObjectFromDict msg.body key = getLwmObjectFromDict m.body key := by
  have hhd := hheader.distinctKeys
  have hbd := hbody.distinctKeys
  have hw := flatTree_wellFormed hhflat hbflat hhd hbd
  obtain ⟨msg, hparse, hdh, hdb⟩ := (flatTree_nestsLast m).denotes hw
  rw [serializeLwmMessage_render hhflat hbflat hblen]
  refine ⟨msg, hparse, ?_⟩
  intro key
  refine ⟨getLwmObjectFromDict_of_denotes hhflat hhd hdh key, ?_⟩
  refine getLwmObjectFromDict_of_denotes hbflat hbd ?_ key
  unfold flatTree at hdb
  by_cases hnil : m.body = []
  · simpa [hnil] using hdb
  · simpa [hnil] using hdb

theorem parse_serialize_flat_rebound :
    ∃ msg', parseLwmMessageStr (terminated (serializeLwmMessage
        ⟨[(some ['a'], .string (some ['b'])), (some ['c'], .string (some ['d']))],
          [(some ['e'], .string (some ['f']))]⟩)) = .ok (some msg') ∧
      getLwmObjectFromDict msg'.header ['a'] = .ok (some (.string (some ['b']))) ∧
      getLwmObjectFromDict msg'.body ['a'] = .ok none := by
  have hc : setLwmObjectToDict [(some ['a'], .array [])] ['c'] (.string (some ['d'])) =
      .ok [(some ['c'], .string (some ['d'])), (some ['a'], .array [])] := rfl
  have ha : setLwmObjectToDict [(some ['c'], .string (some ['d'])), (some ['a'], .array [])] ['a']
      (.string (some ['b'])) =
      .ok [(some ['a'], .string (some ['b'])), (some ['c'], .string (some ['d']))] := rfl
  have he : setLwmObjectToDict [] ['e'] (.string (some ['f'])) =
      .ok [(some ['e'], .string (some ['f']))] := rfl
  have hbound : Built [(some ['a'], .array [])] :=
    .set .empty (rfl : setLwmObjectToDict [] ['a'] (.array []) = _)
  obtain ⟨msg', hparse, hsame⟩ := parse_serialize_flat (m :=
    ⟨[(some ['a'], .string (some ['b'])), (some ['c'], .string (some ['d']))],
      [(some ['e'], .string (some ['f']))]⟩)
    ((hbound.set hc).set ha) (Built.empty.set he)
    (by
      intro kv hkv
      simp only [List.mem_cons, List.not_mem_nil, or_false] at hkv
      rcases hkv with rfl | rfl
      · exact ⟨['a'], ['b'], rfl, by decide, by decide⟩
      · exact ⟨['c'], ['d'], rfl, by decide, by decide⟩)
    (by
      intro kv hkv
      simp only [List.mem_cons, List.not_mem_nil, or_false] at hkv
      subst hkv
      exact ⟨['e'], ['f'], rfl, by decide, by decide⟩)
    (by decide)
  exact ⟨msg', hparse, (hsame ['a']).1, (hsame ['a']).2⟩

end IoTware.LwMsg
