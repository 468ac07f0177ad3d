import Mathlib.Data.List.AList
import Mathlib.Data.List.Dedup
import Mathlib.Data.List.Induction

/-!
# Updates of a map

What a list of updates of an empty map leaves: the last value of every key. The values
before it are replaced, each by the next update of its key.
-/

namespace Updates

variable {κ α : Type} [DecidableEq κ]

abbrev Map (κ α : Type) := AList fun _ : κ => α

def last (updates : List (κ × α)) (key : κ) : Option α :=
  (updates.reverse.find? fun u => u.1 = key).map Prod.snd

def replaced : List (κ × α) → List α
  | [] => []
  | u :: updates => if u.1 ∈ updates.map Prod.fst then u.2 :: replaced updates else replaced updates

def replay (updates : List (κ × α)) : Map κ α :=
  updates.foldl (fun m u => m.insert u.1 u.2) ∅

theorem last_concat (updates : List (κ × α)) (u : κ × α) (key : κ) :
    last (updates ++ [u]) key = if u.1 = key then some u.2 else last updates key := by
  unfold last
  rw [List.reverse_concat, List.find?_cons]
  split
  · rename_i h
    rw [if_pos (of_decide_eq_true h)]
    rfl
  · rename_i h
    rw [if_neg (of_decide_eq_false h)]

theorem last_cons (u : κ × α) (updates : List (κ × α)) (key : κ) :
    last (u :: updates) key = (last updates key).or (if u.1 = key then some u.2 else none) := by
  unfold last
  rw [List.reverse_cons, List.find?_append, List.find?_singleton]
  cases updates.reverse.find? fun u => u.1 = key with
  | some _ => rfl
  | none =>
    by_cases h : u.1 = key
    · simp [h]
    · simp [h]

theorem last_eq_none {updates : List (κ × α)} :
    last updates key = none ↔ key ∉ updates.map Prod.fst := by
  unfold last
  rw [Option.map_eq_none_iff, List.find?_eq_none]
  constructor
  · intro h hmem
    obtain ⟨u, hu, hkey⟩ := List.mem_map.mp hmem
    exact h u (List.mem_reverse.mpr hu) (decide_eq_true hkey)
  · intro h u hu hkey
    exact h (List.mem_map.mpr ⟨u, List.mem_reverse.mp hu, of_decide_eq_true hkey⟩)

@[simp] theorem replay_concat (updates : List (κ × α)) (u : κ × α) :
    replay (updates ++ [u]) = (replay updates).insert u.1 u.2 := by
  unfold replay
  rw [List.foldl_append]
  rfl

theorem lookup_replay (updates : List (κ × α)) (key : κ) :
    (replay updates).lookup key = last updates key := by
  induction updates using List.reverseRecOn with
  | nil => exact AList.lookup_empty key
  | append_singleton updates u ih =>
    rw [replay_concat, last_concat]
    split
    · rename_i h
      rw [← h, AList.lookup_insert]
    · rename_i h
      rw [AList.lookup_insert_ne (Ne.symm h), ih]

theorem mem_replay (updates : List (κ × α)) (key : κ) :
    key ∈ replay updates ↔ key ∈ updates.map Prod.fst := by
  rw [← AList.lookup_isSome, lookup_replay, Option.isSome_iff_ne_none, ne_eq, last_eq_none,
    not_not]

theorem length_keys_replay (updates : List (κ × α)) :
    (replay updates).keys.length = (updates.map Prod.fst).dedup.length := by
  refine List.Perm.length_eq ?_
  rw [List.perm_ext_iff_of_nodup (replay updates).keys_nodup (List.nodup_dedup _)]
  intro key
  rw [← AList.mem_keys, mem_replay, List.mem_dedup]

theorem replaced_concat (updates : List (κ × α)) (u : κ × α) :
    (replaced (updates ++ [u])).Perm (replaced updates ++ (last updates u.1).toList) := by
  induction updates with
  | nil => exact .refl _
  | cons first updates ih =>
    have hmem : first.1 ∈ (updates ++ [u]).map Prod.fst ↔
        first.1 ∈ updates.map Prod.fst ∨ first.1 = u.1 := by
      rw [List.map_append, List.mem_append, List.map_singleton, List.mem_singleton]
    rw [List.cons_append, last_cons]
    unfold replaced
    by_cases hlater : first.1 ∈ updates.map Prod.fst
    · rw [if_pos (hmem.mpr (.inl hlater)), if_pos hlater]
      have hlast : (last updates u.1).or (if first.1 = u.1 then some first.2 else none) =
          last updates u.1 := by
        by_cases hkey : first.1 = u.1
        · have hsome : last updates u.1 ≠ none := fun h => last_eq_none.mp h (hkey ▸ hlater)
          obtain ⟨value, hvalue⟩ := Option.ne_none_iff_exists'.mp hsome
          rw [hvalue]
          rfl
        · rw [if_neg hkey, Option.or_none]
      rw [hlast]
      exact ih.cons _
    · rw [if_neg hlater]
      by_cases hkey : first.1 = u.1
      · have hnone : last updates u.1 = none := last_eq_none.mpr (hkey ▸ hlater)
        rw [hnone, Option.toList_none, List.append_nil] at ih
        rw [if_pos (hmem.mpr (.inr hkey)), hnone, if_pos hkey]
        exact (ih.cons _).trans (List.perm_append_singleton _ _).symm
      · rw [if_neg fun h => (hmem.mp h).elim hlater hkey, if_neg hkey, Option.or_none]
        exact ih

-- ---------------------------------------------------------------------------
-- Updates that agree
-- ---------------------------------------------------------------------------

def Consistent (updates : List (κ × α)) : Prop :=
  ∀ u ∈ updates, ∀ u' ∈ updates, u.1 = u'.1 → u.2 = u'.2

theorem last_eq_some_iff {updates : List (κ × α)} (h : Consistent updates) :
    last updates key = some value ↔ (key, value) ∈ updates := by
  constructor
  · intro hlast
    obtain ⟨u, hfind, rfl⟩ := Option.map_eq_some_iff.mp hlast
    have hkey : u.1 = key := by simpa using List.find?_some hfind
    rw [← hkey]
    exact List.mem_reverse.mp (List.mem_of_find?_eq_some hfind)
  · intro hmem
    have hsome : last updates key ≠ none :=
      fun hnone => last_eq_none.mp hnone (List.mem_map_of_mem hmem)
    obtain ⟨value', hvalue⟩ := Option.ne_none_iff_exists'.mp hsome
    obtain ⟨u, hfind, rfl⟩ := Option.map_eq_some_iff.mp hvalue
    have hkey : u.1 = key := by simpa using List.find?_some hfind
    rw [hvalue, h u (List.mem_reverse.mp (List.mem_of_find?_eq_some hfind)) _ hmem hkey]

theorem replay_perm {updates updates' : List (κ × α)} (h : Consistent updates)
    (hperm : updates'.Perm updates) :
    (replay updates').entries.Perm (replay updates).entries := by
  have h' : Consistent updates' :=
    fun u hu u' hu' => h u (hperm.mem_iff.mp hu) u' (hperm.mem_iff.mp hu')
  refine List.lookup_ext (replay updates').nodupKeys (replay updates).nodupKeys fun key value => ?_
  have hlookup : ∀ updates : List (κ × α), Consistent updates →
      (value ∈ (replay updates).entries.dlookup key ↔ (key, value) ∈ updates) := by
    intro updates h
    rw [← last_eq_some_iff h, ← lookup_replay]
    rfl
  rw [hlookup _ h', hlookup _ h, hperm.mem_iff]

end Updates
