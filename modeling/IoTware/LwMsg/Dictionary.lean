import IoTware.Lib.Updates
import IoTware.LwMsg.Object

/-!
# Dictionaries as maps

`set_lwm_object_to_dict` with the outcomes of its allocations and the object it
deletes. While the allocations succeed, a dictionary is the map of the keys that were
set, and every value that is replaced is deleted. Where one fails, the old value of the
key is gone already, and a node without a key may be left.
-/

namespace IoTware.LwMsg

open CText (Text)
open Loops
open Updates

variable {α : Type}

/-- The nodes of a dictionary, from the head on: a key, which may be NULL, and the
address of a value. -/
abbrev KeyValues (α : Type) := List (Option Text × α)

def getLwmValueFromDict : KeyValues α → Option Text → Except Fault (Option α)
  | _, none => .ok none
  | [], some _ => .ok none
  | (none, _) :: _, some _ => .error .nullPointer
  | (some k, value) :: dict, some key =>
    if k = key then .ok (some value) else getLwmValueFromDict dict (some key)

def removeLwmKvoByKey : KeyValues α → Option Text → Except Fault (KeyValues α × Option α)
  | dict, none => .ok (dict, none)
  | [], some _ => .ok ([], none)
  | (none, _) :: _, some _ => .error .nullPointer
  | (some k, value) :: dict, some key =>
    if k = key then .ok (dict, some value)
    else do
      let (dict, deleted) ← removeLwmKvoByKey dict (some key)
      return ((some k, value) :: dict, deleted)

/-- The outcomes of the three `calloc`s of `set_lwm_object_to_dict`. -/
structure SetAllocs where
  lwmItem : Bool
  kvo : Bool
  key : Bool

def SetAllocs.succeed : SetAllocs := ⟨true, true, true⟩

def setLwmValueToDict (allocs : SetAllocs) (dict : KeyValues α) (key : Option Text)
    (value : Option α) : Except Fault (KeyValues α × Option α) :=
  match key, value with
  | some key, some value => do
    let (dict, deleted) ← removeLwmKvoByKey dict (some key)
    if allocs.lwmItem then
      if allocs.kvo then
        return ((if allocs.key then some key else none, value) :: dict, deleted)
      else return (dict, deleted)
    else return (dict, deleted)
  | _, _ => .ok (dict, none)

-- ---------------------------------------------------------------------------
-- The objects themselves as values
-- ---------------------------------------------------------------------------

theorem getLwmValueFromDict_object (dict : LWMDictionary) (key : Text) :
    getLwmValueFromDict dict (some key) = getLwmObjectFromDict dict key := by
  induction dict with
  | nil => rfl
  | cons kv dict ih =>
    obtain ⟨k, value⟩ := kv
    cases k with
    | none => rfl
    | some k =>
      unfold getLwmValueFromDict getLwmObjectFromDict
      rw [ih]

theorem removeLwmKvoByKey_object (dict : LWMDictionary) (key : Option Text) :
    (removeLwmKvoByKey dict key).map Prod.fst = deleteLwmKvoByKey dict key := by
  induction dict with
  | nil => cases key <;> rfl
  | cons kv dict ih =>
    obtain ⟨k, value⟩ := kv
    cases key with
    | none => rfl
    | some key =>
      cases k with
      | none => rfl
      | some k =>
        unfold removeLwmKvoByKey deleteLwmKvoByKey
        split
        · rfl
        · rw [← ih]
          cases removeLwmKvoByKey dict (some key) <;> rfl

theorem setLwmValueToDict_object (dict : LWMDictionary) (key : Text) (value : LWMObject) :
    (setLwmValueToDict .succeed dict (some key) (some value)).map Prod.fst =
      setLwmObjectToDict dict key value := by
  unfold setLwmValueToDict setLwmObjectToDict
  dsimp only
  rw [← removeLwmKvoByKey_object]
  cases removeLwmKvoByKey dict (some key) <;> rfl

-- ---------------------------------------------------------------------------
-- The map of a dictionary
-- ---------------------------------------------------------------------------

def ofMap (m : Map Text α) : KeyValues α := m.entries.map fun e => (some e.1, e.2)

theorem keys_ofMap (m : Map Text α) : (ofMap m).map Prod.fst = m.keys.map some := by
  unfold ofMap AList.keys List.keys
  rw [List.map_map, List.map_map]
  rfl

theorem length_ofMap (m : Map Text α) : (ofMap m).length = m.keys.length := by
  unfold ofMap AList.keys List.keys
  rw [List.length_map, List.length_map]

theorem exists_ofMap {dict : KeyValues α} (hnull : none ∉ dict.map Prod.fst)
    (hnodup : (dict.map Prod.fst).Nodup) : ∃ m, dict = ofMap m := by
  induction dict with
  | nil => exact ⟨∅, rfl⟩
  | cons kv dict ih =>
    obtain ⟨k, value⟩ := kv
    rw [List.map_cons, List.mem_cons, not_or] at hnull
    rw [List.map_cons, List.nodup_cons] at hnodup
    obtain ⟨m, rfl⟩ := ih hnull.2 hnodup.2
    cases k with
    | none => exact absurd rfl hnull.1
    | some k =>
      have hk : k ∉ m.entries.keys := by
        intro hmem
        refine hnodup.1 ?_
        rw [keys_ofMap]
        exact List.mem_map_of_mem hmem
      exact ⟨⟨⟨k, value⟩ :: m.entries, List.nodupKeys_cons.mpr ⟨hk, m.nodupKeys⟩⟩, rfl⟩

theorem getLwmValueFromDict_ofMap (m : Map Text α) (key : Text) :
    getLwmValueFromDict (ofMap m) (some key) = .ok (m.lookup key) := by
  unfold ofMap AList.lookup
  induction m.entries with
  | nil => rfl
  | cons e entries ih =>
    rw [List.map_cons]
    unfold getLwmValueFromDict
    split
    · rename_i hkey
      rw [← hkey, List.dlookup_cons_eq]
    · rename_i hkey
      rw [List.dlookup_cons_ne _ _ (Ne.symm hkey), ih]

theorem removeLwmKvoByKey_ofMap (m : Map Text α) (key : Text) :
    removeLwmKvoByKey (ofMap m) (some key) = .ok (ofMap (m.erase key), m.lookup key) := by
  unfold ofMap AList.lookup AList.erase
  dsimp only
  induction m.entries with
  | nil => rfl
  | cons e entries ih =>
    rw [List.map_cons]
    unfold removeLwmKvoByKey
    split
    · rename_i hkey
      rw [← hkey, List.dlookup_cons_eq, List.kerase_cons_eq rfl]
    · rename_i hkey
      rw [List.dlookup_cons_ne _ _ (Ne.symm hkey), List.kerase_cons_ne (Ne.symm hkey), ih]
      rfl

theorem setLwmValueToDict_ofMap (m : Map Text α) (key : Text) (value : α) :
    setLwmValueToDict .succeed (ofMap m) (some key) (some value) =
      .ok (ofMap (m.insert key value), m.lookup key) := by
  unfold setLwmValueToDict
  dsimp only
  rw [removeLwmKvoByKey_ofMap]
  unfold ofMap
  rw [AList.entries_insert]
  rfl

theorem setLwmObjectToDict_ofMap (m : Map Text LWMObject) (key : Text) (value : LWMObject) :
    setLwmObjectToDict (ofMap m) key value = .ok (ofMap (m.insert key value)) := by
  rw [← setLwmValueToDict_object, setLwmValueToDict_ofMap]
  rfl

-- ---------------------------------------------------------------------------
-- Sequences of calls
-- ---------------------------------------------------------------------------

/-- A call of `set_lwm_object_to_dict` whose allocations succeed; the values deleted so
far are kept. -/
def setStep (s : KeyValues α × List α) (call : Option Text × Option α) :
    Except Fault (KeyValues α × List α) := do
  let (dict, deleted) ← setLwmValueToDict .succeed s.1 call.1 call.2
  return (dict, s.2 ++ deleted.toList)

/-- The calls that set something: with a NULL key or value, a call has no effect. -/
def sets (calls : List (Option Text × Option α)) : List (Text × α) :=
  calls.filterMap fun call => call.1.bind fun key => call.2.map fun value => (key, value)

/-- The dictionary and the deleted values after the calls. -/
structure ActsAsMap (calls : List (Option Text × Option α)) (dict : KeyValues α)
    (deleted : List α) : Prop where
  get : ∀ key, getLwmValueFromDict dict (some key) = .ok (last (sets calls) key)
  keys_nodup : (dict.map Prod.fst).Nodup
  count : nodeNum dict = ((sets calls).map Prod.fst).dedup.length
  others : ∀ key value, ∃ dict' replaced,
    setLwmValueToDict .succeed dict (some key) (some value) = .ok (dict', replaced) ∧
      ∀ other ≠ key, getLwmValueFromDict dict' (some other) = getLwmValueFromDict dict (some other)
  deletes : deleted.Perm (replaced (sets calls))

theorem setStep_noEffect {call : Option Text × Option α} (h : sets [call] = [])
    (s : KeyValues α × List α) : setStep s call = .ok s := by
  obtain ⟨key, value⟩ := call
  have hset : setLwmValueToDict .succeed s.1 key value = .ok (s.1, none) := by
    cases key with
    | none => rfl
    | some key =>
      cases value with
      | none => rfl
      | some value => cases h
  unfold setStep
  rw [hset]
  exact congrArg Except.ok (Prod.ext rfl (List.append_nil _))

theorem setStep_ofMap {updates : List (Text × α)} (hperm : deleted.Perm (replaced updates))
    (call : Option Text × Option α) :
    ∃ deleted', setStep (ofMap (replay updates), deleted) call =
        .ok (ofMap (replay (updates ++ sets [call])), deleted') ∧
      deleted'.Perm (replaced (updates ++ sets [call])) := by
  by_cases hsets : sets [call] = []
  · rw [hsets, List.append_nil]
    exact ⟨deleted, setStep_noEffect hsets _, hperm⟩
  · obtain ⟨key | key, value | value⟩ := call
    · exact absurd rfl hsets
    · exact absurd rfl hsets
    · exact absurd rfl hsets
    · have hone : sets [(some key, some value)] = [(key, value)] := rfl
      rw [hone, replay_concat]
      refine ⟨deleted ++ (last updates key).toList, ?_, ?_⟩
      · unfold setStep
        rw [setLwmValueToDict_ofMap, lookup_replay]
        rfl
      · exact (hperm.append_right _).trans (replaced_concat updates (key, value)).symm

theorem foldlM_setStep (calls : List (Option Text × Option α)) :
    ∃ deleted, calls.foldlM setStep ([], []) = .ok (ofMap (replay (sets calls)), deleted) ∧
      deleted.Perm (replaced (sets calls)) := by
  induction calls using List.reverseRecOn with
  | nil => exact ⟨[], rfl, .refl _⟩
  | append_singleton calls call ih =>
    obtain ⟨deleted, hcalls, hperm⟩ := ih
    obtain ⟨deleted', hstep, hperm'⟩ := setStep_ofMap hperm call
    have hsets : sets (calls ++ [call]) = sets calls ++ sets [call] := List.filterMap_append
    refine ⟨deleted', ?_, hsets ▸ hperm'⟩
    rw [List.foldlM_append, hcalls, hsets]
    simp only [List.foldlM_cons, List.foldlM_nil, bind_ok]
    exact ⟨_, rfl, _, hstep, rfl⟩

/-- From an empty dictionary, the calls build the map of what was set last, as long as it
has fewer than 256 keys. -/
theorem sets_actAsMap (calls : List (Option Text × Option α))
    (hkeys : ((sets calls).map Prod.fst).dedup.length < 256) :
    ∃ dict deleted, calls.foldlM setStep ([], []) = .ok (dict, deleted) ∧
      ActsAsMap calls dict deleted := by
  obtain ⟨deleted, hcalls, hperm⟩ := foldlM_setStep calls
  refine ⟨_, deleted, hcalls, ?_, ?_, ?_, ?_, hperm⟩
  · intro key
    rw [getLwmValueFromDict_ofMap, lookup_replay]
  · rw [keys_ofMap]
    exact (replay (sets calls)).keys_nodup.map fun _ _ h => Option.some.inj h
  · rw [← length_keys_replay, ← length_ofMap] at hkeys ⊢
    exact nodeNum_of_lt hkeys
  · intro key value
    refine ⟨_, _, setLwmValueToDict_ofMap _ _ _, fun other hother => ?_⟩
    rw [getLwmValueFromDict_ofMap, getLwmValueFromDict_ofMap, AList.lookup_insert_ne hother]

theorem sets_actAsMap_twice :
    ∃ dict deleted,
      [(some ['a'], some 1), (some ['b'], some 2), (some ['a'], some 3)].foldlM setStep ([], []) =
        .ok (dict, deleted) ∧
      ActsAsMap [(some ['a'], some 1), (some ['b'], some 2), (some ['a'], some 3)] dict deleted :=
  sets_actAsMap _ (by decide)

-- ---------------------------------------------------------------------------
-- Allocations that fail
-- ---------------------------------------------------------------------------

def Updated (dict dict' : KeyValues α) (key : Option Text) (value : Option α) : Prop :=
  ∃ k v, key = some k ∧ value = some v ∧ getLwmValueFromDict dict' (some k) = .ok (some v) ∧
    ∀ other ≠ k, getLwmValueFromDict dict' (some other) = getLwmValueFromDict dict (some other)

/-- The call updates the dictionary or leaves it, and leaves no NULL key. -/
def SetsOrKeeps (allocs : SetAllocs) (dict : KeyValues α) (key : Option Text) (value : Option α) :
    Prop :=
  ∃ dict' deleted, setLwmValueToDict allocs dict key value = .ok (dict', deleted) ∧
    (Updated dict dict' key value ∨ dict' = dict) ∧ none ∉ dict'.map Prod.fst

theorem none_notMem_ofMap (m : Map Text α) : none ∉ (ofMap m).map Prod.fst := by
  rw [keys_ofMap]
  simp

/-- Without a node or an entry for it the value is not set, and the old one is gone. -/
theorem setsOrKeeps_dropped {allocs : SetAllocs} (h : ¬ (allocs.lwmItem ∧ allocs.kvo))
    (m : Map Text α) (key : Text) (value : α) :
    SetsOrKeeps allocs (ofMap m) (some key) (some value) ↔ key ∉ m := by
  have hset : setLwmValueToDict allocs (ofMap m) (some key) (some value) =
      .ok (ofMap (m.erase key), m.lookup key) := by
    unfold setLwmValueToDict
    dsimp only
    rw [removeLwmKvoByKey_ofMap]
    obtain ⟨item, kvo, hasKey⟩ := allocs
    cases item with
    | false => rfl
    | true =>
      cases kvo with
      | false => rfl
      | true => exact absurd ⟨rfl, rfl⟩ h
  constructor
  · rintro ⟨dict', deleted, hok, hupdated | hsame, -⟩
    · rw [hset] at hok
      cases hok
      obtain ⟨k, v, ⟨⟩, ⟨⟩, hget, -⟩ := hupdated
      rw [getLwmValueFromDict_ofMap, AList.lookup_erase] at hget
      cases hget
    · rw [hset] at hok
      cases hok
      have hget := congrArg (getLwmValueFromDict · (some key)) hsame
      rw [getLwmValueFromDict_ofMap, getLwmValueFromDict_ofMap, AList.lookup_erase] at hget
      exact AList.lookup_eq_none.mp (Except.ok.inj hget).symm
  · intro hnot
    refine ⟨_, _, hset, .inr ?_, none_notMem_ofMap _⟩
    exact congrArg (List.map fun e => (some e.1, e.2)) (List.kerase_of_notMem_keys hnot)

theorem not_setsOrKeeps_noKey {allocs : SetAllocs} (hitem : allocs.lwmItem) (hkvo : allocs.kvo)
    (hkey : allocs.key = false) (m : Map Text α) (key : Text) (value : α) :
    ¬ SetsOrKeeps allocs (ofMap m) (some key) (some value) := by
  rintro ⟨dict', deleted, hok, -, hnull⟩
  unfold setLwmValueToDict at hok
  dsimp only at hok
  rw [removeLwmKvoByKey_ofMap, hitem, hkvo, hkey] at hok
  cases hok
  exact hnull List.mem_cons_self

/-- A call keeps the dictionary whole exactly if its allocations succeed, or the node or
its entry fails and there is no value to lose. -/
theorem setsOrKeeps_iff (allocs : SetAllocs) {dict : KeyValues α}
    (hnull : none ∉ dict.map Prod.fst) (hnodup : (dict.map Prod.fst).Nodup) (key : Option Text)
    (value : Option α) :
    SetsOrKeeps allocs dict key value ↔
      key = none ∨ value = none ∨ (allocs.lwmItem ∧ allocs.kvo ∧ allocs.key) ∨
        (¬ (allocs.lwmItem ∧ allocs.kvo) ∧ key ∉ dict.map Prod.fst) := by
  obtain ⟨m, rfl⟩ := exists_ofMap hnull hnodup
  cases key with
  | none => exact iff_of_true ⟨_, none, rfl, .inr rfl, hnull⟩ (.inl rfl)
  | some key =>
    cases value with
    | none => exact iff_of_true ⟨_, none, rfl, .inr rfl, hnull⟩ (.inr (.inl rfl))
    | some value =>
      have hmem : some key ∈ (ofMap m).map Prod.fst ↔ key ∈ m := by
        rw [keys_ofMap, AList.mem_keys]
        exact ⟨fun h => by simpa using h, List.mem_map_of_mem⟩
      rw [hmem]
      by_cases hnode : allocs.lwmItem ∧ allocs.kvo
      · obtain ⟨hitem, hkvo⟩ := hnode
        cases hkey : allocs.key with
        | false =>
          refine iff_of_false (not_setsOrKeeps_noKey hitem hkvo hkey m key value) ?_
          simp [hitem, hkvo]
        | true =>
          have hall : allocs = .succeed := by
            cases allocs
            cases hitem
            cases hkvo
            cases hkey
            rfl
          refine iff_of_true ?_ (.inr (.inr (.inl ⟨hitem, hkvo, rfl⟩)))
          rw [hall]
          refine ⟨_, _, setLwmValueToDict_ofMap m key value, .inl ⟨key, value, rfl, rfl, ?_, ?_⟩,
            none_notMem_ofMap _⟩
          · rw [getLwmValueFromDict_ofMap, AList.lookup_insert]
          · intro other hother
            rw [getLwmValueFromDict_ofMap, getLwmValueFromDict_ofMap, AList.lookup_insert_ne hother]
      · have hall : ¬ (allocs.lwmItem ∧ allocs.kvo ∧ allocs.key) := fun h => hnode ⟨h.1, h.2.1⟩
        rw [setsOrKeeps_dropped hnode]
        simp [hnode, hall]

theorem setsOrKeeps_newKey :
    SetsOrKeeps ⟨false, true, true⟩ [(some ['a'], 1)] (some ['b']) (some 2) :=
  (setsOrKeeps_iff ⟨false, true, true⟩ (by decide) (by decide) _ _).mpr (by decide)

/-- A key that is set again without memory for its node loses its value. -/
theorem set_again_loses_value :
    ¬ ∀ (allocs : SetAllocs) (dict : KeyValues Nat), none ∉ dict.map Prod.fst →
      (dict.map Prod.fst).Nodup → ∀ key value, SetsOrKeeps allocs dict key value := by
  intro h
  obtain ⟨dict', deleted, hok, hkept, -⟩ := h ⟨false, true, true⟩ [(some ['a'], 1)] (by decide)
    (by decide) (some ['a']) (some 2)
  cases hok
  obtain ⟨k, v, ⟨⟩, ⟨⟩, hget, -⟩ | hsame := hkept
  · cases hget
  · cases hsame

end IoTware.LwMsg
